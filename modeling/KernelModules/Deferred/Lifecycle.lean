import Mathlib.Data.Fintype.EquivFin
import KernelModules.Deferred.Device

/-!
# From `deferred_init` to `deferred_exit`

`deferred_init` publishes the device before it sets the timer up, so that a request made
at once finds a timer that is not there yet. The other way round nothing is left:
`deferred_exit` begins when nobody has the device open, stops the timer for good, and then
waits for the work the last handlers have queued.

What is needed for the timer and the work to be used only once they are set up is that no
request is made before `timer_setup`: `KernelModules.Deferred.Timely`.
-/

namespace KernelModules

namespace Deferred

variable {w : ℕ}

/-- **The timer and the work are used once they are set up**: every `mod_timer` and
`timer_delete_sync` comes after `timer_setup`, every `schedule_work` after `INIT_WORK`. -/
def UsesReady (s : Sys w) : Act w → Prop
  | .call c _ =>
    (∀ ty delay, s.calls c = some (.modTimer ty delay) → s.timerReady = true) ∧
    (s.calls c = some .cancel → s.timerReady = true)
  | .handle _ _ =>
    (s.handler = .rearm → s.timerReady = true) ∧ (s.handler = .schedule → s.workReady = true)
  | .unload => s.phase = .timerDelete → s.timerReady = true
  | _ => True

/-- **Nothing is left**: the timer is not pending, the handler does not run, and no work is
queued or running. -/
structure AtRest (s : Sys w) : Prop where
  phase : s.phase = .unloaded
  pending : s.pending = none
  handler : s.handler = .idle
  queued : s.queued = none
  running : s.running = none

/-- **No request is made before `timer_setup`.** -/
def Timely (s : Sys w) : Act w → Prop
  | .ioctl c cmd => s.files ≠ 0 → s.calls c = none → cmd ≠ .other → s.timerReady = true
  | _ => True

/-! ### Loading -/

/-- `INIT_WORK` has run, by where the module stands. -/
def Phase.hasWork : Phase → Bool
  | .register => false
  | .initFlag => false
  | .initWork => false
  | .failed => false
  | _ => true

/-- `timer_setup` has run, by where the module stands. -/
def Phase.hasTimer : Phase → Bool
  | .loaded => true
  | p => p.leaving

/-- **Whoever uses the timer finds it set up.** -/
structure SetUp (s : Sys w) : Prop where
  work : s.phase.hasWork = true → s.workReady = true
  timer : s.phase.hasTimer = true → s.timerReady = true
  both : s.timerReady = true → s.workReady = true
  calls : ∀ c pc, s.calls c = some pc → pc.over = false → s.timerReady = true
  pending : ∀ e, s.pending = some e → s.timerReady = true
  handler : s.handler ≠ .idle → s.timerReady = true

theorem setUp_start : SetUp (Sys.start : Sys w) where
  work h := absurd h (by simp [Sys.start, Phase.hasWork])
  timer h := absurd h (by simp [Sys.start, Phase.hasTimer, Phase.leaving])
  both h := absurd h (by simp [Sys.start])
  calls c pc hc := absurd hc (by simp [Sys.start])
  pending e he := absurd he (by simp [Sys.start])
  handler h := absurd rfl h

theorem SetUp.usesReady {s : Sys w} (h : SetUp s) (a : Act w) : UsesReady s a := by
  cases a with
  | call c env => exact ⟨fun ty delay hc => h.calls c _ hc rfl, fun hc => h.calls c _ hc rfl⟩
  | handle deaths now =>
    refine ⟨fun hh => h.handler (by simp [hh]), fun hh => h.both (h.handler (by simp [hh]))⟩
  | unload => exact fun hp => h.timer (by rw [hp]; rfl)
  | load | openFile | closeFile | ioctl | fire | workBegin | workEnd | dies | exits | frees =>
    trivial

theorem Phase.Next.hasWork {s : Sys w} {p q : Phase} (h : Phase.Next s p q)
    (hq : q.hasWork = true) : p.hasWork = true := by
  cases h with
  | failed | register => exact absurd hq (by simp [Phase.hasWork])
  | initList | cdevAdd | deviceCreate | unload | deviceDestroy | cdevDel | unregister | flush
  | flushed => rfl

theorem Phase.Next.hasTimer {s : Sys w} {p q : Phase} (h : Phase.Next s p q)
    (hq : q.hasTimer = true) : p.hasTimer = true := by
  cases h with
  | failed | register | initList | cdevAdd | deviceCreate =>
    exact absurd hq (by simp [Phase.hasTimer, Phase.leaving])
  | unload | deviceDestroy | cdevDel | unregister | flush | flushed => rfl

/-- **Requests made in time find the timer set up.** -/
theorem Step.setUp {hz : BitVec w} {s s' : Sys w} {a : Act w} (hs : Step hz s a s')
    (hok : Timely s a) (h : SetUp s) : SetUp s' := by
  have hcalls : ∀ {c : ℕ} {pc : Pc w}, (pc.over = false → s.timerReady = true) →
      ∀ d q, Function.update s.calls c (some pc) d = some q → q.over = false →
        s.timerReady = true :=
    fun hpc => forall_update (fun d _ q hd => h.calls d q hd) hpc
  -- a call that was in progress goes on, or returns
  have hmove : ∀ {c : ℕ} {pc : Pc w} (pc' : Pc w), s.calls c = some pc → pc.over = false →
      ∀ d q, Function.update s.calls c (some pc') d = some q → q.over = false →
        s.timerReady = true :=
    fun pc' hc hpc => hcalls fun _ => h.calls _ _ hc hpc
  cases hs with
  | phase hp =>
    exact ⟨fun hq => h.work (hp.hasWork hq), fun hq => h.timer (hp.hasTimer hq), h.both, h.calls,
      h.pending, h.handler⟩
  | initFlag hp =>
    exact ⟨fun hq => absurd hq (by simp [Phase.hasWork]),
      fun hq => absurd hq (by simp [Phase.hasTimer, Phase.leaving]), h.both, h.calls, h.pending,
      h.handler⟩
  | initWork hp =>
    exact ⟨fun _ => rfl, fun hq => absurd hq (by simp [Phase.hasTimer, Phase.leaving]),
      fun _ => rfl, h.calls, h.pending, h.handler⟩
  | timerSetup hp =>
    have hwork := h.work (by rw [hp]; rfl)
    exact ⟨fun _ => hwork, fun _ => rfl, fun _ => hwork, fun _ _ _ _ => rfl, fun _ _ => rfl,
      fun _ => rfl⟩
  | timerDelete hp hh =>
    have hwork := h.work (by rw [hp]; rfl)
    have htimer := h.timer (by rw [hp]; rfl)
    exact ⟨fun _ => hwork, fun _ => htimer, h.both, h.calls, fun _ _ => htimer, h.handler⟩
  | drop hp =>
    have hwork := h.work (by rw [hp]; rfl)
    have htimer := h.timer (by rw [hp]; rfl)
    exact ⟨fun _ => hwork, fun _ => htimer, h.both, h.calls, h.pending, h.handler⟩
  | other hf hc =>
    exact ⟨h.work, h.timer, h.both, hcalls fun ho => absurd ho (by simp [Pc.over]),
      h.pending, h.handler⟩
  | ioctl hf hc hcmd =>
    exact ⟨h.work, h.timer, h.both, hcalls fun _ => hok hf hc hcmd, h.pending,
      h.handler⟩
  | rcuLock hc | lookup hc | missed hc | rcuUnlock hc | kmalloc hc | nomem hc | getTask hc
  | insert hc | setFlag hc =>
    exact ⟨h.work, h.timer, h.both, hmove _ hc rfl, h.pending, h.handler⟩
  | @modTimer c env ty delay hc =>
    rw [Sys.modTimer_eq]
    exact ⟨h.work, h.timer, h.both, hmove _ hc rfl, fun _ _ => h.calls c _ hc rfl, h.handler⟩
  | @cancel c env hc hh =>
    exact ⟨h.work, h.timer, h.both, hmove _ hc rfl, fun _ _ => h.calls c _ hc rfl, h.handler⟩
  | @fire e hp hh =>
    exact ⟨h.work, h.timer, h.both, h.calls, fun _ _ => h.pending e hp, fun _ => h.pending e hp⟩
  | switch hh | sweep hh =>
    have hready := h.handler (by simp [hh])
    exact ⟨h.work, h.timer, h.both, h.calls, h.pending, fun _ => hready⟩
  | schedule hh =>
    have hready := h.handler (by simp [hh])
    rw [Sys.scheduleWork_eq]
    exact ⟨h.work, h.timer, h.both, h.calls, h.pending, fun _ => hready⟩
  | rearm hh =>
    have hready := h.handler (by simp [hh])
    rw [Sys.modTimer_eq]
    exact ⟨h.work, h.timer, h.both, h.calls, fun _ _ => hready, fun _ => hready⟩
  | stutter | openFile | closeFile | workBegin | workEnd | dies | exits | frees =>
    exact ⟨h.work, h.timer, h.both, h.calls, h.pending, h.handler⟩

/-! ### Unloading -/

/-- The timer has been stopped for good. -/
def Phase.stopped : Phase → Bool
  | .flush => true
  | .flushing _ => true
  | .drop => true
  | .unloaded => true
  | _ => false

/-- The work queued has been waited for. -/
def Phase.flushed : Phase → Bool
  | .drop => true
  | .unloaded => true
  | _ => false

theorem Phase.leaving_of_stopped {p : Phase} (h : p.stopped = true) : p.leaving = true := by
  cases p with
  | flush | flushing | drop | unloaded => rfl
  | register | initFlag | initWork | initList | cdevAdd | deviceCreate | timerSetup | loaded
  | deviceDestroy | cdevDel | unregister | timerDelete | failed => simp [Phase.stopped] at h

theorem Phase.stopped_of_flushed {p : Phase} (h : p.flushed = true) : p.stopped = true := by
  cases p with
  | drop | unloaded => rfl
  | register | initFlag | initWork | initList | cdevAdd | deviceCreate | timerSetup | loaded
  | deviceDestroy | cdevDel | unregister | timerDelete | flush | flushing | failed =>
    simp [Phase.flushed] at h

/-- **What `deferred_exit` has done so far stays done.** -/
structure TornDown (s : Sys w) : Prop where
  attended : Attended s
  queued : ∀ n, s.queued = some n → n < s.works
  running : ∀ n, s.running = some n → n < s.works
  stopped : s.phase.stopped = true → s.pending = none ∧ s.handler = .idle
  barrier : ∀ b, s.phase = .flushing b → s.works ≤ b
  flushed : s.phase.flushed = true → s.queued = none ∧ s.running = none

theorem tornDown_start : TornDown (Sys.start : Sys w) where
  attended := attended_start
  queued n hn := absurd hn (by simp [Sys.start])
  running n hn := absurd hn (by simp [Sys.start])
  stopped h := absurd h (by simp [Sys.start, Phase.stopped])
  barrier b hb := absurd hb (by simp [Sys.start])
  flushed h := absurd h (by simp [Sys.start, Phase.flushed])

/-- A step of `deferred_init` or `deferred_exit`. -/
theorem TornDown.phase {s : Sys w} (h : TornDown s) {p : Phase} (hp : Phase.Next s s.phase p)
    (hatt : Attended { s with phase := p }) : TornDown { s with phase := p } := by
  have hstopped := h.stopped
  have hbarrier := h.barrier
  generalize s.phase = q at hp hstopped hbarrier
  cases hp with
  | failed | register | initList | cdevAdd | deviceCreate | unload | deviceDestroy | cdevDel
  | unregister =>
    exact ⟨hatt, h.queued, h.running, fun hs => absurd hs (by simp [Phase.stopped]),
      fun b hb => absurd hb (by simp), fun hf => absurd hf (by simp [Phase.flushed])⟩
  | flush =>
    refine ⟨hatt, h.queued, h.running, fun _ => hstopped rfl, fun b hb => ?_,
      fun hf => absurd hf (by simp [Phase.flushed])⟩
    exact le_of_eq (Phase.flushing.inj hb)
  | @flushed barrier hflushed =>
    -- whatever is still there was queued before the barrier, and that has finished
    have hworks := hbarrier barrier rfl
    refine ⟨hatt, h.queued, h.running, fun _ => hstopped rfl, fun b hb => absurd hb (by simp),
      fun _ => ⟨?_, ?_⟩⟩
    · rcases hq : s.queued with - | n
      · rfl
      · have hlt := h.queued n hq
        have hge := hflushed.1 n hq
        omega
    · rcases hr : s.running with - | n
      · rfl
      · have hlt := h.running n hr
        have hge := hflushed.2 n hr
        omega

/-- With the timer stopped, no call and no handler is there to do anything. -/
theorem TornDown.not_stopped {s : Sys w} (h : TornDown s) {c : ℕ} {pc : Pc w}
    (hc : s.calls c = some pc) (hpc : pc.over = false) : s.phase.stopped ≠ true := by
  intro hstop
  have hleft := h.attended.not_leaving hc hpc
  rw [Phase.leaving_of_stopped hstop] at hleft
  exact absurd hleft (by simp)

theorem TornDown.not_stopped_of_handler {s : Sys w} (h : TornDown s) (hh : s.handler ≠ .idle) :
    s.phase.stopped ≠ true := fun hstop => hh (h.stopped hstop).2

/-- A step of a call, or of the handler, that leaves the work alone. -/
theorem TornDown.of_running {s s' : Sys w} (h : TornDown s) (hatt : Attended s')
    (hstop : s.phase.stopped ≠ true) (hphase : s'.phase = s.phase) (hqueued : s'.queued = s.queued)
    (hrunning : s'.running = s.running) (hworks : s'.works = s.works) : TornDown s' := by
  refine ⟨hatt, ?_, ?_, ?_, ?_, ?_⟩
  · rw [hqueued, hworks]
    exact h.queued
  · rw [hrunning, hworks]
    exact h.running
  · rw [hphase]
    exact fun hs => absurd hs hstop
  · rw [hphase, hworks]
    exact h.barrier
  · rw [hphase]
    exact fun hf => absurd (Phase.stopped_of_flushed hf) hstop

/-- The handler queues the work. -/
theorem TornDown.schedule {s : Sys w} (h : TornDown s) (hh : s.handler = .schedule)
    (hatt : Attended { s.scheduleWork with handler := .idle }) :
    TornDown { s.scheduleWork with handler := .idle } := by
  have hstop := h.not_stopped_of_handler (by simp [hh])
  rw [Sys.scheduleWork_eq] at hatt ⊢
  refine ⟨hatt, fun n hn => ?_, fun n hn => ?_, fun hs => absurd hs hstop, fun b hb => ?_,
    fun hf => absurd (Phase.stopped_of_flushed hf) hstop⟩
  · rcases hq : s.queued with - | m
    · simp only [hq, Option.getD_none, Option.some.injEq, if_true] at hn ⊢
      omega
    · have hm := h.queued m hq
      simp only [hq, Option.getD_some, Option.some.injEq, reduceCtorEq, if_false] at hn ⊢
      omega
  · have hlt := h.running n hn
    show n < if s.queued = none then s.works + 1 else s.works
    split <;> omega
  · rw [show s.phase = .flushing b from hb] at hstop
    exact absurd rfl hstop

/-- **No step undoes what `deferred_exit` has done.** -/
theorem Step.tornDown {hz : BitVec w} {s s' : Sys w} {a : Act w} (hs : Step hz s a s')
    (h : TornDown s) : TornDown s' := by
  have hatt := hs.attended h.attended
  cases hs with
  | phase hp => exact h.phase hp hatt
  | initFlag | initWork | timerSetup =>
    exact ⟨hatt, h.queued, h.running, fun hst => absurd hst (by simp [Phase.stopped]),
      fun b hb => absurd hb (by simp), fun hf => absurd hf (by simp [Phase.flushed])⟩
  | timerDelete hp hh =>
    exact ⟨hatt, h.queued, h.running, fun _ => ⟨rfl, hh⟩, fun b hb => absurd hb (by simp),
      fun hf => absurd hf (by simp [Phase.flushed])⟩
  | drop hp =>
    exact ⟨hatt, h.queued, h.running, fun _ => h.stopped (by rw [hp]; rfl),
      fun b hb => absurd hb (by simp), fun _ => h.flushed (by rw [hp]; rfl)⟩
  | rcuLock hc | lookup hc | missed hc | rcuUnlock hc | kmalloc hc | nomem hc | getTask hc
  | insert hc | setFlag hc | cancel hc =>
    exact h.of_running hatt (h.not_stopped hc rfl) rfl rfl rfl rfl
  | modTimer hc =>
    rw [Sys.modTimer_eq] at hatt ⊢
    exact h.of_running hatt (h.not_stopped hc rfl) rfl rfl rfl rfl
  | @fire e hp hh =>
    refine h.of_running hatt (fun hst => ?_) rfl rfl rfl rfl
    exact absurd ((h.stopped hst).1.symm.trans hp) (by simp)
  | switch hh | sweep hh =>
    exact h.of_running hatt (h.not_stopped_of_handler (by simp [hh])) rfl rfl rfl rfl
  | schedule hh => exact h.schedule hh hatt
  | rearm hh =>
    rw [Sys.modTimer_eq] at hatt ⊢
    exact h.of_running hatt (h.not_stopped_of_handler (by simp [hh])) rfl rfl rfl rfl
  | @workBegin n hq hr =>
    refine ⟨hatt, fun m hm => absurd hm (by simp), fun m hm => ?_, h.stopped, h.barrier,
      fun hf => ?_⟩
    · exact Option.some.inj hm ▸ h.queued n hq
    · exact absurd ((h.flushed hf).1.symm.trans hq) (by simp)
  | workEnd =>
    exact ⟨hatt, h.queued, fun m hm => absurd hm (by simp), h.stopped, h.barrier,
      fun hf => ⟨(h.flushed hf).1, rfl⟩⟩
  | stutter | openFile | closeFile | other | ioctl | dies | exits | frees =>
    exact ⟨hatt, h.queued, h.running, h.stopped, h.barrier, h.flushed⟩

theorem TornDown.atRest {s : Sys w} (h : TornDown s) (hp : s.phase = .unloaded) : AtRest s := by
  obtain ⟨hpending, hhandler⟩ := h.stopped (by rw [hp]; rfl)
  obtain ⟨hqueued, hrunning⟩ := h.flushed (by rw [hp]; rfl)
  exact ⟨hp, hpending, hhandler, hqueued, hrunning⟩

/-- Once unloaded, always unloaded. -/
theorem Step.unloaded {hz : BitVec w} {s s' : Sys w} {a : Act w} (hs : Step hz s a s')
    (h : s.phase = .unloaded) : s'.phase = .unloaded := by
  cases hs with
  | phase hp =>
    rw [h] at hp
    cases hp
  | initFlag hp | initWork hp | timerSetup hp | timerDelete hp | drop hp =>
    exact absurd (h.symm.trans hp) (by simp)
  | modTimer | rearm =>
    rw [Sys.modTimer_eq]
    exact h
  | schedule =>
    rw [Sys.scheduleWork_eq]
    exact h
  | stutter | openFile | closeFile | other | ioctl | rcuLock | lookup | missed | rcuUnlock | kmalloc
  | nomem | getTask | insert | setFlag | cancel | fire | switch | sweep | workBegin | workEnd | dies
  | exits | frees => exact h

/-- **When `deferred_exit` has returned nothing is left, for good.** -/
theorem atRest_run (hz : BitVec w) {acts : List (Act w)}
    (hp : (run (step hz) Sys.start acts).phase = .unloaded) (more : List (Act w)) :
    AtRest (run (step hz) Sys.start (acts ++ more)) := by
  have htorn : TornDown (run (step hz) Sys.start (acts ++ more)) :=
    run_invariant (step hz) (fun s a => (step_cases hz s a).tornDown) _ tornDown_start
  refine htorn.atRest ?_
  rw [run_append]
  exact @run_invariant _ _ (step hz) (·.phase = .unloaded)
    (fun s a => (step_cases hz s a).unloaded) more _ hp

/-! ### Where a request made too early leads -/

section Early

variable (hz : BitVec w) {s : Sys w} {c : ℕ}

theorem early_modTimer {ty : TimerType} {delay : BitVec w} (hready : s.timerReady ≠ true)
    (hc : s.calls c = some (.modTimer ty delay)) : ∃ more, ¬Along (step hz) UsesReady s more :=
  ⟨[.call c ⟨none, true, 0⟩], fun h => hready (h.1.1 ty delay hc)⟩

theorem early_cancel (hready : s.timerReady ≠ true) (hc : s.calls c = some .cancel) :
    ∃ more, ¬Along (step hz) UsesReady s more :=
  ⟨[.call c ⟨none, true, 0⟩], fun h => hready (h.1.2 hc)⟩

theorem early_setFlag {ty : TimerType} {delay : BitVec w} (hready : s.timerReady ≠ true)
    (hc : s.calls c = some (.setFlag ty delay)) : ∃ more, ¬Along (step hz) UsesReady s more := by
  refine exists_not_along_cons (step hz) (.call c ⟨none, true, 0⟩) ?_
  simp only [step, hc, stepCall]
  exact early_modTimer hz hready (Function.update_self ..)

theorem early_kmalloc {t : ℕ} (hready : s.timerReady ≠ true) (hc : s.calls c = some (.kmalloc t)) :
    ∃ more, ¬Along (step hz) UsesReady s more := by
  refine exists_not_along_cons (step hz) (.call c ⟨none, true, 0⟩) ?_
  refine exists_not_along_cons (step hz) (.call c ⟨none, true, 0⟩) ?_
  refine exists_not_along_cons (step hz) (.call c ⟨none, true, 0⟩) ?_
  simp only [step, hc, stepCall, if_true, Sys.setPc, Function.update_self]
  exact early_setFlag hz hready (Function.update_self ..)

theorem early_rcuUnlock {t : ℕ} (hready : s.timerReady ≠ true)
    (hc : s.calls c = some (.rcuUnlock (some t))) : ∃ more, ¬Along (step hz) UsesReady s more := by
  refine exists_not_along_cons (step hz) (.call c ⟨none, true, 0⟩) ?_
  simp only [step, hc, stepCall]
  exact early_kmalloc hz hready (Function.update_self ..)

/-- A request to monitor looks its task up first: one that is there. -/
theorem early_lookup (hready : s.timerReady ≠ true) (hc : s.calls c = some .lookup) :
    ∃ more, ¬Along (step hz) UsesReady s more := by
  obtain ⟨t, ht⟩ := Infinite.exists_notMem_finset (s.exited ++ s.freed).toFinset
  have hpresent : s.Present t := by simpa [Sys.Present] using ht
  refine exists_not_along_cons (step hz) (.call c ⟨some t, true, 0⟩) ?_
  simp only [step, hc, stepCall]
  have hfound : (some t).filter (fun t => s.Present t) = some t := by simpa using hpresent
  rw [hfound]
  exact early_rcuUnlock hz hready (Function.update_self ..)

theorem early_rcuLock (hready : s.timerReady ≠ true) (hc : s.calls c = some .rcuLock) :
    ∃ more, ¬Along (step hz) UsesReady s more := by
  refine exists_not_along_cons (step hz) (.call c ⟨none, true, 0⟩) ?_
  simp only [step, hc, stepCall]
  exact early_lookup hz hready (Function.update_self ..)

/-- **A request made before `timer_setup` can reach the timer before it.** -/
theorem early_ioctl {a : Act w} (ha : ¬Timely s a) :
    ∃ more, ¬Along (step hz) UsesReady (step hz s a) more := by
  cases a with
  | ioctl c cmd =>
    simp only [Timely, Classical.not_imp] at ha
    obtain ⟨hf, hc, hcmd, hready⟩ := ha
    cases cmd with
    | timerSet arg | timerAlloc arg =>
      simp only [step, hf, hc, ne_eq, not_false_eq_true, and_self, if_true, enter]
      exact early_setFlag hz hready (Function.update_self ..)
    | timerCancel =>
      simp only [step, hf, hc, ne_eq, not_false_eq_true, and_self, if_true, enter]
      exact early_cancel hz hready (Function.update_self ..)
    | timerMon arg =>
      simp only [step, hf, hc, ne_eq, not_false_eq_true, and_self, if_true, enter]
      exact early_rcuLock hz hready (Function.update_self ..)
    | other => exact absurd rfl hcmd
  | load | unload | openFile | closeFile | call | fire | handle | workBegin | workEnd | dies | exits
  | frees => exact absurd trivial ha

end Early

/-- **The timer and the work are used once they are set up exactly as long as no request is
made before `timer_setup`**, and `deferred_exit` then leaves nothing: from there on the timer
is not pending, no work is queued or running, and the handler does not run. A request made
between `cdev_add` and `timer_setup` can get to a timer that is not set up. -/
theorem lifecycle_exact (hz : BitVec w) :
    (∀ acts, Along (step hz) Timely Sys.start acts →
      Along (step hz) UsesReady Sys.start acts ∧
      ((run (step hz) Sys.start acts).phase = .unloaded →
        ∀ more, AtRest (run (step hz) Sys.start (acts ++ more)))) ∧
    ∀ acts a, ¬Timely (run (step hz) Sys.start acts) a →
      ∃ more, ¬Along (step hz) UsesReady Sys.start (acts ++ a :: more) := by
  refine ⟨fun acts hok => ⟨?_, fun hp more => atRest_run hz hp more⟩, fun acts a ha => ?_⟩
  · exact along_of_invariant (step hz) (fun s a hok => (step_cases hz s a).setUp hok)
      (fun s a _ h => h.usesReady a) acts hok setUp_start
  · exact exists_not_along_of_next (step hz) (early_ioctl hz ha)

/-- A message is asked for as soon as the device is published. -/
theorem lifecycle_early : ¬∀ acts : List (Act 64), Along (step 100) UsesReady Sys.start acts := by
  intro h
  have hrun := h (List.replicate 5 (Act.load 0) ++ [Act.openFile, Act.ioctl 0 (.timerSet 1),
    Act.call 0 ⟨none, true, 0⟩] ++ [Act.call 0 ⟨none, true, 0⟩])
  have huse := ((along_append (step 100)).mp hrun).2.1.1
  exact absurd (huse .set 100 rfl) (by decide)

/-- A message is asked for once the module is loaded, and the module is unloaded before the
timer has expired. -/
theorem lifecycle_timely :
    let acts : List (Act 64) :=
      List.replicate 7 (.load 0) ++ [.openFile, .ioctl 0 (.timerSet 1), .call 0 ⟨none, true, 0⟩,
        .call 0 ⟨none, true, 0⟩, .closeFile] ++ List.replicate 8 .unload
    Along (step 100) UsesReady Sys.start acts ∧
      ∀ more, AtRest (run (step 100) Sys.start (acts ++ more)) := by
  intro acts
  have hok : Along (step 100) Timely Sys.start acts := by
    simp only [acts, List.replicate, List.cons_append, List.nil_append, along_cons, along_nil,
      Timely, true_and, and_true]
    exact fun _ _ _ => rfl
  obtain ⟨huse, hrest⟩ := (lifecycle_exact 100).1 acts hok
  exact ⟨huse, hrest (by decide)⟩

end Deferred

end KernelModules
