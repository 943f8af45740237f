import KernelModules.KernelApi.Kthread

/-!
# Stopping the kernel thread

The flag is enough for the thread to leave, so that its `task_struct` may be gone before
`kthread_stop` has a reference to it. This is when the module goes wrong, and the only case:
`KernelModules.Kthread.task_struct_freed_iff`. It can come to that whatever has happened since
the module was loaded: `KernelModules.Kthread.exists_freedUse`.

Otherwise `my_kthread_exit` returns: the wake-up is not lost, whatever the thread was about to
do when the flag was set (`KernelModules.Kthread.my_kthread_exit_returns`).
-/

namespace KernelModules

namespace Kthread

/-! ### The `task_struct` -/

/-- The flag is set, and `kthread_stop` has no reference yet. -/
def Phase.unguarded : Phase → Bool
  | wake => true
  | test => true
  | getTask => true
  | _ => false

/-- `kthread_stop` has its reference. -/
def Phase.guarded : Phase → Bool
  | setStop => true
  | wakeTask => true
  | waitExit => true
  | putTask => true
  | _ => false

/-- **The `task_struct` of the thread stays** until `kthread_stop` has its reference. -/
def Kept (s : Sys) : Act → Prop
  | .reap => s.my_thread = .task → s.Loose → s.phase.unguarded = false
  | _ => True

/-- What `my_thread` points to, and who has a reference. -/
structure Refs (s : Sys) : Prop where
  ref : s.ref = s.phase.guarded
  ptr : s.my_thread = .null ∨ s.my_thread = .task ∧ s.thread ≠ .none
  task : s.phase = .getTask ∨ s.phase.guarded = true → s.my_thread = .task

theorem refs_start : Refs Sys.start := ⟨rfl, .inl rfl, by simp [Sys.start, Phase.guarded]⟩

/-- The thread changes nothing but itself and the messages. -/
theorem runThread_frame (s : Sys) :
    ∃ t log, s.runThread = { s with thread := t, log := log } := by
  cases ht : s.thread with
  | none | exited | started | created | woken =>
    simp only [Sys.runThread, ht]
    exact ⟨_, _, rfl⟩
  | waiting t =>
    simp only [Sys.runThread, ht]
    split <;> exact ⟨_, _, rfl⟩

/-- It does not vanish. -/
theorem runThread_ne_none {s : Sys} (h : s.thread ≠ .none) : s.runThread.thread ≠ .none := by
  cases ht : s.thread with
  | none => exact absurd ht h
  | exited => simpa only [Sys.runThread, ht] using h
  | created =>
    simp only [Sys.runThread, ht]
    split <;> simp
  | started | woken =>
    simp only [Sys.runThread, ht]
    simp
  | waiting t =>
    simp only [Sys.runThread, ht]
    split <;> simp

theorem Refs.step {s : Sys} (h : Refs s) (a : Act) : Refs (Kthread.step s a) := by
  obtain ⟨href, hptr, htask⟩ := h
  cases a with
  | init failure =>
    cases hp : s.phase with
    | create =>
      rw [hp] at href
      cases failure with
      | none =>
        simp only [Kthread.step, Sys.init, hp]
        exact ⟨href, .inr ⟨rfl, by simp⟩, fun _ => rfl⟩
      | some errno =>
        simp only [Kthread.step, Sys.init, hp, TaskPtr.ptrErr, if_true]
        exact ⟨href, .inl rfl, by simp [Phase.guarded]⟩
    | pid =>
      rw [hp] at href
      simp only [Kthread.step, Sys.init, hp]
      split <;> exact ⟨href, hptr, by simp [Phase.guarded]⟩
    | absent =>
      rw [hp] at href
      simp only [Kthread.step, Sys.init, hp]
      exact ⟨href, .inl rfl, by simp [Phase.guarded]⟩
    | loaded | wake | test | getTask | setStop | wakeTask | waitExit | putTask | freedUse =>
      simp only [Kthread.step, Sys.init, hp]
      exact ⟨href, hptr, htask⟩
  | exit =>
    cases hp : s.phase with
    | test =>
      rw [hp] at href
      simp only [Kthread.step, Sys.exit, hp]
      split
      · exact ⟨href, hptr, by simp [Phase.guarded]⟩
      · exact ⟨href, hptr, fun _ => (hptr.resolve_left ‹_›).1⟩
    | getTask =>
      rw [hp] at href
      simp only [Kthread.step, Sys.exit, hp]
      split
      · exact ⟨href, hptr, by simp [Phase.guarded]⟩
      · exact ⟨rfl, hptr, fun _ => htask (.inl hp)⟩
    | waitExit =>
      simp only [Kthread.step, Sys.exit, hp]
      split
      · exact ⟨by rw [href, hp]; rfl, hptr, fun _ => htask (.inr (by rw [hp]; rfl))⟩
      · exact ⟨href, hptr, htask⟩
    | loaded =>
      rw [hp] at href
      simp only [Kthread.step, Sys.exit, hp]
      exact ⟨href, hptr, by simp [Phase.guarded]⟩
    | wake =>
      rw [hp] at href
      simp only [Kthread.step, Sys.exit, hp]
      exact ⟨href, hptr.imp_right (And.imp_right (mt Thread.wake_eq_none.mp)),
        by simp [Phase.guarded]⟩
    | setStop =>
      rw [hp] at href
      simp only [Kthread.step, Sys.exit, hp]
      exact ⟨href, hptr, fun _ => htask (.inr (by rw [hp]; rfl))⟩
    | wakeTask =>
      rw [hp] at href
      simp only [Kthread.step, Sys.exit, hp]
      exact ⟨href, hptr.imp_right (And.imp_right (mt Thread.wake_eq_none.mp)),
        fun _ => htask (.inr (by rw [hp]; rfl))⟩
    | putTask =>
      simp only [Kthread.step, Sys.exit, hp]
      exact ⟨rfl, hptr, by simp [Phase.guarded]⟩
    | absent | create | pid | freedUse =>
      simp only [Kthread.step, Sys.exit, hp]
      exact ⟨href, hptr, htask⟩
  | thread =>
    have hne := runThread_ne_none (s := s)
    obtain ⟨t, log, hs⟩ := runThread_frame s
    rw [hs] at hne
    rw [Kthread.step, hs]
    exact ⟨href, hptr.imp_right (And.imp_right hne), htask⟩
  | reap =>
    rw [Kthread.step]
    split <;> exact ⟨href, hptr, htask⟩

theorem refs_run (acts : List Act) : Refs (run step Sys.start acts) :=
  run_invariant step (fun _ a hs => hs.step a) acts refs_start

/-- **The `task_struct` is there** when `kthread_stop` takes its reference. -/
structure Intact (s : Sys) : Prop where
  inv : Inv s
  refs : Refs s
  live : s.my_thread = .task → s.phase.unguarded = true → s.freed = false
  fine : s.phase ≠ .freedUse

theorem intact_start : Intact Sys.start :=
  ⟨inv_start, refs_start, by simp [Sys.start], by simp [Sys.start]⟩

/-- **As long as the `task_struct` is kept**, it is there. -/
theorem Intact.step {s : Sys} (h : Intact s) {a : Act} (hok : Kept s a) :
    Intact (Kthread.step s a) := by
  suffices hgoal : ((Kthread.step s a).my_thread = .task →
      (Kthread.step s a).phase.unguarded = true → (Kthread.step s a).freed = false) ∧
        (Kthread.step s a).phase ≠ .freedUse from
    ⟨h.inv.step a, h.refs.step a, hgoal.1, hgoal.2⟩
  obtain ⟨hinv, hrefs, hlive, hfine⟩ := h
  cases a with
  | init failure =>
    cases hp : s.phase with
    | absent =>
      simp only [Kthread.step, Sys.init, hp]
      exact ⟨by simp, by simp⟩
    | create =>
      cases failure <;> simp [Kthread.step, Sys.init, hp, TaskPtr.ptrErr, Phase.unguarded]
    | pid =>
      -- the thread is still waiting
      obtain ⟨-, -, -, hfreed⟩ := hinv.fresh (.inl hp)
      simp only [Kthread.step, Sys.init, hp, hfreed, Bool.false_eq_true, if_false]
      exact ⟨by simp, by simp⟩
    | loaded | wake | test | getTask | setStop | wakeTask | waitExit | putTask | freedUse =>
      simpa only [Kthread.step, Sys.init, hp] using And.intro hlive hfine
  | exit =>
    cases hp : s.phase with
    | loaded =>
      simp only [Kthread.step, Sys.exit, hp]
      exact ⟨fun htask _ => (hinv.fresh (.inr ⟨hp, htask⟩)).2.2.2, by simp⟩
    | wake =>
      rw [hp] at hlive
      simp only [Kthread.step, Sys.exit, hp]
      exact ⟨hlive, by simp⟩
    | test =>
      rw [hp] at hlive
      simp only [Kthread.step, Sys.exit, hp]
      split
      · exact ⟨by simp [Phase.unguarded], by simp⟩
      · exact ⟨hlive, by simp⟩
    | getTask =>
      have hfreed := hlive (hrefs.task (.inl hp)) (by rw [hp]; rfl)
      simp only [Kthread.step, Sys.exit, hp, hfreed, Bool.false_eq_true, if_false]
      exact ⟨by simp, by simp⟩
    | waitExit =>
      rw [hp] at hlive hfine
      simp only [Kthread.step, Sys.exit, hp]
      split
      · exact ⟨by simp [Phase.unguarded], by simp⟩
      · exact ⟨by simp [hp, Phase.unguarded], by simp [hp]⟩
    | setStop | wakeTask | putTask =>
      simp only [Kthread.step, Sys.exit, hp]
      exact ⟨by simp [Phase.unguarded], by simp⟩
    | absent | create | pid | freedUse =>
      simpa only [Kthread.step, Sys.exit, hp] using And.intro hlive hfine
  | thread =>
    obtain ⟨t, log, hs⟩ := runThread_frame s
    rw [Kthread.step, hs]
    exact ⟨hlive, hfine⟩
  | reap =>
    rw [Kthread.step]
    split
    · refine ⟨fun htask hp => ?_, hfine⟩
      have hguard := hok htask ‹s.Loose›
      exact absurd hp (by simp [hguard])
    · exact ⟨hlive, hfine⟩

/-- **The `task_struct` is gone**, and `kthread_stop` is about to use it, or has done so. -/
def Doomed (s : Sys) : Prop :=
  s.phase = .freedUse ∨ s.my_thread = .task ∧ s.freed = true ∧ s.phase.unguarded = true

/-- Nothing brings it back. -/
theorem Doomed.step {s : Sys} (h : Doomed s) (a : Act) : Doomed (Kthread.step s a) := by
  cases a with
  | init failure =>
    have hs : s.init failure = s := by
      rcases h with hp | ⟨-, -, hp⟩
      · simp only [Sys.init, hp]
      · cases hphase : s.phase <;> simp_all [Sys.init, Phase.unguarded]
    rwa [Kthread.step, hs]
  | exit =>
    rcases h with hp | ⟨htask, hfreed, hp⟩
    · refine .inl ?_
      simp only [Kthread.step, Sys.exit, hp]
    · cases hphase : s.phase with
      | wake =>
        simp only [Kthread.step, Sys.exit, hphase]
        exact .inr ⟨htask, hfreed, rfl⟩
      | test =>
        simp only [Kthread.step, Sys.exit, hphase, htask, reduceCtorEq, if_false]
        exact .inr ⟨rfl, hfreed, rfl⟩
      | getTask =>
        simp only [Kthread.step, Sys.exit, hphase, hfreed, if_true]
        exact .inl rfl
      | absent | create | pid | loaded | setStop | wakeTask | waitExit | putTask | freedUse =>
        exact absurd hp (by simp [hphase, Phase.unguarded])
  | thread =>
    obtain ⟨t, log, hs⟩ := runThread_frame s
    rwa [Kthread.step, hs]
  | reap =>
    rw [Kthread.step]
    split
    · exact h.imp_right (And.imp_right (And.imp_left fun _ => rfl))
    · exact h

/-- A step that does not keep the `task_struct`. -/
theorem doomed_of_not_kept {s : Sys} {a : Act} (h : ¬Kept s a) : Doomed (step s a) := by
  cases a with
  | reap =>
    simp only [Kept, not_forall, exists_prop, Bool.not_eq_false] at h
    obtain ⟨htask, hloose, hp⟩ := h
    rw [step, if_pos hloose]
    exact .inr ⟨htask, rfl, hp⟩
  | init | exit | thread => exact absurd trivial h

/-- **When the module goes wrong.** A run that does not stop between the setting of the flag and
`get_task_struct` has used a `task_struct` that was freed if and only if the `task_struct` of the
thread was freed in between. -/
theorem task_struct_freed_iff {acts : List Act}
    (hend : (run step Sys.start acts).phase.unguarded = false) :
    (run step Sys.start acts).phase = .freedUse ↔ ¬Along step Kept Sys.start acts := by
  constructor
  · intro hused hkept
    have hintact := run_invariant_along step (fun _ _ hok hs => Intact.step hs hok) acts hkept
      intact_start
    exact hintact.fine hused
  · intro hnot
    have hdoomed : Doomed (run step Sys.start acts) :=
      run_of_not_along step (fun _ _ => doomed_of_not_kept) (fun _ a hs => hs.step a) acts hnot
    exact hdoomed.resolve_right fun ⟨_, _, hp⟩ => absurd hp (by simp [hend])

/-- The thread leaves on the flag, and is freed before the test of `my_thread`. -/
def leavesEarly : List Act :=
  [.init none, .init none, .init none, .exit, .exit, .thread, .thread, .thread, .thread, .reap,
    .exit, .exit]

theorem task_struct_freed_early : ¬Along step Kept Sys.start leavesEarly :=
  (task_struct_freed_iff (by decide +kernel)).mp (by decide +kernel)

/-! ### The end of the thread, and of `my_kthread_exit` -/

/-- The steps a thread that does not doze has still to make once the flag is set. -/
def Thread.left : Thread → ℕ
  | created => 4
  | started => 3
  | waiting .prepare => 3
  | waiting .check => 2
  | waiting .test => 2
  | woken => 1
  | _ => 0

/-- The steps `my_kthread_exit` has still to make once it has woken the thread. -/
def Phase.left : Phase → ℕ
  | test => 6
  | getTask => 5
  | setStop => 4
  | wakeTask => 3
  | waitExit => 2
  | putTask => 1
  | _ => 0

/-- The module is not being loaded again. -/
def Act.Unloading (a : Act) : Prop := ∀ failure, a ≠ .init failure

/-- **The thread has been told**, and no wake-up is to come that it would need. -/
structure Told (s : Sys) : Prop where
  inv : Inv s
  refs : Refs s
  flag : s.flag = true
  phase : s.phase.exiting = true ∨ s.phase = .absent

@[simp] theorem runThread_phase (s : Sys) : s.runThread.phase = s.phase := by
  obtain ⟨t, log, hs⟩ := runThread_frame s
  rw [hs]

@[simp] theorem runThread_flag (s : Sys) : s.runThread.flag = s.flag := by
  obtain ⟨t, log, hs⟩ := runThread_frame s
  rw [hs]

theorem reap_eq (s : Sys) : step s .reap = s ∨ step s .reap = { s with freed := true } := by
  rw [step]
  split
  · exact .inr rfl
  · exact .inl rfl

/-- One step of `my_kthread_exit` once the flag is set: where it comes to, and what it does to
the thread. -/
theorem exit_spec {s : Sys} (h : s.phase.exiting = true ∨ s.phase = .absent) :
    (s.exit.phase.exiting = true ∨ s.exit.phase = .absent) ∧ s.exit.phase ≠ .wake ∧
      s.exit.flag = s.flag ∧ (s.exit.thread = s.thread ∨ s.exit.thread = s.thread.wake) := by
  cases hp : s.phase with
  | loaded | create | pid =>
    rw [hp] at h
    exact absurd h (by simp [Phase.exiting])
  | wake | setStop | wakeTask | putTask | absent | freedUse =>
    simp [Sys.exit, hp, Phase.exiting]
  | test | getTask | waitExit =>
    simp only [Sys.exit, hp]
    split <;> simp [hp, Phase.exiting]

theorem Told.step {s : Sys} (h : Told s) {a : Act} (ha : a.Unloading) :
    Told (Kthread.step s a) := by
  suffices hgoal : (Kthread.step s a).flag = true ∧
      ((Kthread.step s a).phase.exiting = true ∨ (Kthread.step s a).phase = .absent) from
    ⟨h.inv.step a, h.refs.step a, hgoal.1, hgoal.2⟩
  cases a with
  | init failure => exact absurd rfl (ha failure)
  | exit =>
    obtain ⟨hphase, -, hflag, -⟩ := exit_spec h.phase
    exact ⟨hflag.trans h.flag, hphase⟩
  | thread =>
    rw [Kthread.step, runThread_phase, runThread_flag]
    exact ⟨h.flag, h.phase⟩
  | reap => rcases reap_eq s with hs | hs <;> rw [hs] <;> exact ⟨h.flag, h.phase⟩

theorem Told.alert {s : Sys} (h : Told s) (hwake : s.phase ≠ .wake) : s.thread.dozing = false := by
  rw [Bool.eq_false_iff]
  exact fun hd => hwake (h.inv.aware hd h.flag)

/-- Whether the action is a step of `my_kthread_exit`. -/
def Act.isExit : Act → Bool
  | exit => true
  | _ => false

/-- Whether the action is a step of the thread. -/
def Act.isThread : Act → Bool
  | thread => true
  | _ => false

/-- One step before the queue is woken, none afterwards. -/
def Phase.unwoken (p : Phase) : ℕ := if p = .wake then 1 else 0

/-- **The queue is woken** at the next step of `my_kthread_exit`. -/
theorem Told.wakes {s : Sys} (h : Told s) {a : Act} (ha : a.Unloading) :
    Told (Kthread.step s a) ∧
      (Kthread.step s a).phase.unwoken ≤ s.phase.unwoken - a.isExit.toNat := by
  refine ⟨h.step ha, ?_⟩
  cases a with
  | init failure => exact absurd rfl (ha failure)
  | exit =>
    have hne : s.exit.phase ≠ .wake := (exit_spec h.phase).2.1
    rw [Kthread.step, Phase.unwoken, if_neg hne]
    exact Nat.zero_le _
  | thread =>
    rw [Kthread.step, runThread_phase]
    exact Nat.le_refl _
  | reap => rcases reap_eq s with hs | hs <;> rw [hs] <;> exact Nat.le_refl _

/-- The thread has been told, and the queue has been woken. -/
structure Alert (s : Sys) : Prop where
  told : Told s
  phase : s.phase ≠ .wake

theorem Alert.step {s : Sys} (h : Alert s) {a : Act} (ha : a.Unloading) :
    Alert (Kthread.step s a) := by
  refine ⟨h.told.step ha, ?_⟩
  cases a with
  | init failure => exact absurd rfl (ha failure)
  | exit => exact (exit_spec h.told.phase).2.1
  | thread =>
    rw [Kthread.step, runThread_phase]
    exact h.phase
  | reap => rcases reap_eq s with hs | hs <;> rw [hs] <;> exact h.phase

theorem Thread.left_wake {t : Thread} (h : t.dozing = false) : t.wake.left = t.left := by
  cases t with
  | waiting t =>
    cases t with
    | check | prepare | test => rfl
    | commit | asleep => contradiction
  | _ => rfl

/-- A step of a thread that has been told. -/
theorem left_runThread {s : Sys} (hflag : s.flag = true) (hdoze : s.thread.dozing = false) :
    s.runThread.thread.left ≤ s.thread.left - 1 := by
  have htold : s.told = true := by rw [Sys.told, hflag, Bool.true_or]
  cases ht : s.thread with
  | none | exited =>
    simp only [Sys.runThread, ht]
    exact Nat.le_refl _
  | created =>
    simp only [Sys.runThread, ht]
    split <;> simp [Thread.left]
  | started | woken =>
    simp only [Sys.runThread, ht]
    exact Nat.le_refl _
  | waiting t =>
    cases t with
    | check | prepare | test =>
      simp only [Sys.runThread, ht, htold, Waiter.advance, if_true]
      exact Nat.le_refl _
    | commit | asleep =>
      rw [ht] at hdoze
      contradiction

/-- **The thread comes closer to its end** with each of its steps. -/
theorem Alert.ends {s : Sys} (h : Alert s) {a : Act} (ha : a.Unloading) :
    Alert (Kthread.step s a) ∧
      (Kthread.step s a).thread.left ≤ s.thread.left - a.isThread.toNat := by
  refine ⟨h.step ha, ?_⟩
  have hdoze := h.told.alert h.phase
  cases a with
  | init failure => exact absurd rfl (ha failure)
  | exit =>
    obtain ⟨-, -, -, hthread | hthread⟩ := exit_spec h.told.phase
    · rw [Kthread.step, hthread]
      exact Nat.le_refl _
    · rw [Kthread.step, hthread, Thread.left_wake hdoze]
      exact Nat.le_refl _
  | thread => exact left_runThread h.told.flag hdoze
  | reap => rcases reap_eq s with hs | hs <;> rw [hs] <;> exact Nat.le_refl _

/-- A thread that does not doze and has no step left is over. -/
theorem Thread.not_live_of_left {t : Thread} (hdoze : t.dozing = false) (h : t.left = 0) :
    t.live = false := by
  cases t with
  | none | exited => rfl
  | created | started | woken => contradiction
  | waiting t => cases t <;> contradiction

/-- The thread is over. -/
structure Over (s : Sys) : Prop where
  alert : Alert s
  thread : s.thread.live = false

theorem Over.step {s : Sys} (h : Over s) {a : Act} (ha : a.Unloading) :
    Over (Kthread.step s a) := by
  refine ⟨h.alert.step ha, ?_⟩
  have hlive := h.thread
  cases a with
  | init failure => exact absurd rfl (ha failure)
  | exit =>
    obtain ⟨-, -, -, hthread | hthread⟩ := exit_spec h.alert.told.phase
    · rw [Kthread.step, hthread, hlive]
    · rw [Kthread.step, hthread, Thread.live_wake, hlive]
  | thread =>
    cases ht : s.thread with
    | none | exited => simp only [Kthread.step, Sys.runThread, ht, Thread.live]
    | created | started | woken | waiting =>
      rw [ht] at hlive
      contradiction
  | reap => rcases reap_eq s with hs | hs <;> rw [hs] <;> exact hlive

/-- **`my_kthread_exit` comes closer to its end** with each of its steps, the thread being
over. -/
theorem Over.returns {s : Sys} (h : Over s) {a : Act} (ha : a.Unloading) :
    Over (Kthread.step s a) ∧ (Kthread.step s a).phase.left ≤ s.phase.left - a.isExit.toNat := by
  refine ⟨h.step ha, ?_⟩
  obtain ⟨⟨⟨hinv, hrefs, hflag, hphase⟩, hwake⟩, hlive⟩ := h
  cases a with
  | init failure => exact absurd rfl (ha failure)
  | exit =>
    cases hp : s.phase with
    | loaded | create | pid =>
      rw [hp] at hphase
      exact absurd hphase (by simp [Phase.exiting])
    | wake => exact absurd hp hwake
    | test | getTask =>
      simp only [Kthread.step, Sys.exit, hp]
      split <;> simp [Phase.left, Act.isExit]
    | setStop | wakeTask | putTask | absent | freedUse =>
      simp [Kthread.step, Sys.exit, hp, Phase.left, Act.isExit]
    | waitExit =>
      -- the thread there is has come to its end
      have htask := hrefs.task (.inr (by rw [hp]; rfl))
      obtain ⟨-, hne⟩ := hrefs.ptr.resolve_left (by simp [htask])
      have hexited : s.thread = .exited := by
        cases ht : s.thread with
        | exited => rfl
        | none => exact absurd ht hne
        | created | started | woken | waiting =>
          rw [ht] at hlive
          contradiction
      simp [Kthread.step, Sys.exit, hp, hexited, Phase.left, Act.isExit]
  | thread =>
    rw [Kthread.step, runThread_phase]
    exact Nat.le_refl _
  | reap => rcases reap_eq s with hs | hs <;> rw [hs] <;> exact Nat.le_refl _

theorem told_run {acts : List Act} (h : (run step Sys.start acts).phase.exiting = true) :
    Told (run step Sys.start acts) :=
  ⟨inv_run acts, refs_run acts, (inv_run acts).told h, .inl h⟩

/-- The thread is over four of its steps after the queue has been woken. -/
theorem over_of_told {s : Sys} (h : Told s) {wakes threads : List Act}
    (hwakes : ∀ a ∈ wakes, a.Unloading) (hthreads : ∀ a ∈ threads, a.Unloading)
    (hwake : 1 ≤ wakes.countP Act.isExit) (hthread : 4 ≤ threads.countP Act.isThread) :
    Over (run step (run step s wakes) threads) := by
  obtain ⟨htold, hunwoken⟩ := run_countdown_of step Told (fun s => s.phase.unwoken) Act.isExit
    Act.Unloading (fun _ _ ha hs => hs.wakes ha) wakes hwakes h
  have hphase : (run step s wakes).phase ≠ .wake := by
    intro hp
    have hone : s.phase.unwoken ≤ 1 := by
      rw [Phase.unwoken]
      split <;> decide
    simp only [hp, Phase.unwoken, if_true] at hunwoken
    rw [Phase.unwoken] at hone
    omega
  obtain ⟨halert, hleft⟩ := run_countdown_of step Alert (fun s => s.thread.left) Act.isThread
    Act.Unloading (fun _ _ ha hs => hs.ends ha) threads hthreads ⟨htold, hphase⟩
  have hfour : (run step s wakes).thread.left ≤ 4 := by
    rw [Thread.left.eq_def]
    split <;> decide
  refine ⟨halert, Thread.not_live_of_left (halert.told.alert halert.phase) ?_⟩
  omega

/-- **The wake-up is not lost.** From every state in which `my_kthread_exit` has begun, whatever
the thread was doing: once `my_kthread_exit` has made a step, then the thread four, then
`my_kthread_exit` six, it has returned, unless it has used a `task_struct` that was freed. -/
theorem my_kthread_exit_returns {acts wakes threads exits : List Act}
    (h : (run step Sys.start acts).phase.exiting = true) (hwakes : ∀ a ∈ wakes, a.Unloading)
    (hthreads : ∀ a ∈ threads, a.Unloading) (hexits : ∀ a ∈ exits, a.Unloading)
    (hwake : 1 ≤ wakes.countP Act.isExit) (hthread : 4 ≤ threads.countP Act.isThread)
    (hexit : 6 ≤ exits.countP Act.isExit) :
    let s := run step Sys.start (acts ++ wakes ++ threads ++ exits)
    s.phase = .absent ∨ s.phase = .freedUse := by
  simp only [run_append]
  have hover := over_of_told (told_run h) hwakes hthreads hwake hthread
  obtain ⟨hover', hleft⟩ := run_countdown_of step Over (fun s => s.phase.left) Act.isExit
    Act.Unloading (fun _ _ ha hs => hs.returns ha) exits hexits hover
  set s := run step (run step (run step Sys.start acts) wakes) threads
  have hsix : s.phase.left ≤ 6 := by
    cases s.phase <;> decide
  have hzero : (run step s exits).phase.left = 0 := by omega
  obtain ⟨⟨⟨-, -, -, hphase⟩, hne⟩, -⟩ := hover'
  cases hp : (run step s exits).phase with
  | absent => exact .inl rfl
  | freedUse => exact .inr rfl
  | wake => exact absurd hp hne
  | create | pid | loaded =>
    rw [hp] at hphase
    exact absurd hphase (by simp [Phase.exiting])
  | test | getTask | setStop | wakeTask | waitExit | putTask =>
    rw [hp] at hzero
    contradiction

/-- The module is loaded, and `my_kthread_exit` begins before the thread has run. -/
def unloadedAtOnce : List Act := [.init none, .init none, .init none, .exit]

theorem my_kthread_exit_returns_once :
    let s := run step Sys.start
      (unloadedAtOnce ++ [Act.exit] ++ List.replicate 4 Act.thread ++ List.replicate 6 Act.exit)
    s.phase = .absent ∨ s.phase = .freedUse :=
  my_kthread_exit_returns (by decide +kernel) (by simp [Act.Unloading]) (by simp [Act.Unloading])
    (by simp [Act.Unloading]) (by decide) (by decide) (by decide)

/-- The steps of the thread, one after the other. -/
theorem run_threads_frame (n : ℕ) (s : Sys) :
    ∃ t log, run step s (List.replicate n .thread) = { s with thread := t, log := log } := by
  induction n generalizing s with
  | zero => exact ⟨s.thread, s.log, rfl⟩
  | succ n ih =>
    obtain ⟨t, log, hs⟩ := runThread_frame s
    obtain ⟨t', log', hrest⟩ := ih s.runThread
    refine ⟨t', log', ?_⟩
    rw [List.replicate_succ, run_cons, step, hrest, hs]

/-- The thread leaves on the flag before the test of `my_thread`. -/
theorem leaves_before_test {s : Sys} (hinv : Inv s) (hrefs : Refs s) (hp : s.phase = .loaded)
    (htask : s.my_thread = .task) :
    ∃ log, run step s ([Act.exit, .exit] ++ List.replicate 4 Act.thread) =
      { s with flag := true, phase := .test, thread := .exited, log := log } := by
  have hexit : step s .exit = { s with flag := true, phase := .wake } := by
    simp only [step, Sys.exit, hp]
  have htest : run step (step s .exit) [.exit] =
      { s with flag := true, phase := .test, thread := s.thread.wake } := by
    rw [run_cons, run_nil, hexit, step, Sys.exit]
  have htold : Told (step s .exit) :=
    ⟨hinv.step .exit, hrefs.step .exit, by rw [hexit], .inl (by rw [hexit]; rfl)⟩
  have hover : Over (run step (run step (step s .exit) [.exit]) (List.replicate 4 Act.thread)) :=
    over_of_told htold (by simp [Act.Unloading]) (by simp [Act.Unloading]) (by decide) (by decide)
  obtain ⟨t, log, hrun⟩ := run_threads_frame 4 (run step (step s .exit) [.exit])
  rw [htest] at hrun hover
  have hthere : t ≠ .none := by
    have hrefs' := hover.alert.told.refs.ptr
    rw [hrun] at hrefs'
    exact (hrefs'.resolve_left (by simp [htask])).2
  have hexited : t = .exited := by
    have hlive := hover.thread
    rw [hrun] at hlive
    cases ht : t with
    | exited => rfl
    | none => exact absurd ht hthere
    | created | started | woken | waiting =>
      rw [ht] at hlive
      contradiction
  refine ⟨log, ?_⟩
  rw [run_append, run_cons, htest, hrun, hexited]

/-- **Unloading may go wrong at any time**: whatever has happened since the module was loaded
with its thread, the thread may leave on the flag and be freed before `kthread_stop` has a
reference to it. -/
theorem exists_freedUse {acts : List Act} (hp : (run step Sys.start acts).phase = .loaded)
    (htask : (run step Sys.start acts).my_thread = .task) :
    ∃ more, (run step Sys.start (acts ++ more)).phase = .freedUse := by
  obtain ⟨log, hleft⟩ := leaves_before_test (inv_run acts) (refs_run acts) hp htask
  have href : (run step Sys.start acts).ref = false := by
    rw [(refs_run acts).ref, hp]
    rfl
  refine ⟨[Act.exit, .exit] ++ List.replicate 4 Act.thread ++ [Act.reap, .exit, .exit], ?_⟩
  rw [run_append, run_append, hleft]
  simp [step, Sys.exit, Sys.Loose, href, htask]

/-- So it may before the thread has run at all. -/
theorem exists_freedUse_created :
    ∃ more, (run step Sys.start ([.init none, .init none, .init none] ++ more)).phase = .freedUse :=
  exists_freedUse rfl rfl

end Kthread

end KernelModules
