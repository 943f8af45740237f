import Mathlib.Data.List.Nodup
import KernelModules.Lib.Run
import KernelModules.ListSync.TaskList

/-!
# Threads on the task list

`task_info_add_to_list` looks its pid up in one critical section and, when there
is no node for it, inserts one in a second critical section, with an allocation in
between and the lock dropped around it. This file is the step function of any
number of threads doing so (`KernelModules.ListSync.step`), a step being one
critical section or the allocation between the two, together with what expiry and
purge do from any thread.

The search relies on there being one node for a pid, and the lookup before the
insertion is there to see to it. It does not: two threads that both miss the same
pid are both going to insert it
(`KernelModules.ListSync.two_parents_one_pid`). What is true is
`KernelModules.ListSync.pids_distinct_iff_gaps_exclusive`: the pids stay distinct as
long as no thread enters the gap between the two sections for a pid that another
thread is in the gap for – and once that has happened, a schedule that inserts the
pid twice is always at hand.
-/

namespace KernelModules

namespace ListSync

/-! ### States and steps -/

/-- Where a thread stands in `task_info_add_to_list`. -/
inductive Pc (w : ℕ) where
  /-- Before the first critical section. -/
  | lookup : Pc w
  /-- The lookup has missed; before `task_info_alloc`. -/
  | alloc : Pc w
  /-- Before the second critical section, with the node allocated and the value of
  `jiffies` read for it. -/
  | insert (ti : Option (TaskInfo w)) (now : BitVec w) : Pc w

/-- A thread: the pids it has still to add, the first of them being added, and
where it stands with that one. -/
structure Thread (w : ℕ) where
  /-- The pids to add. -/
  pids : List ℤ
  /-- Where the thread stands with the first. -/
  pc : Pc w

/-- The module and its threads. -/
structure Sys (w : ℕ) where
  /-- `head`. -/
  head : List (TaskInfo w)
  /-- The threads, by number. -/
  threads : ℕ → Thread w
  /-- How many nodes have been allocated. -/
  nodes : ℕ
  /-- The nodes freed. -/
  freed : List ℕ
  /-- Whether a `NULL` node has been linked: the kernel has oopsed. -/
  oops : Bool
  /-- The adds that have updated the list, each with its pid and the value of
  `jiffies` it read. Not in the source. -/
  updates : List (ℤ × BitVec w)

variable {w : ℕ}

/-- A thread with nothing to do. -/
def Thread.idle : Thread w := ⟨[], .lookup⟩

/-- `list_sync_init` has run `INIT_LIST_HEAD`. -/
def Sys.init : Sys w := ⟨[], fun _ => Thread.idle, 0, [], false, []⟩

/-- What can happen next. -/
inductive Act (w : ℕ) where
  /-- Thread `t` sets out to add some pids. -/
  | call (t : ℕ) (pids : List ℤ) : Act w
  /-- Thread `t` runs the first critical section; `now` is `jiffies`. -/
  | lookup (t : ℕ) (now : BitVec w) : Act w
  /-- Thread `t` runs `task_info_alloc`; `none` is a `kmalloc` that fails. -/
  | alloc (t : ℕ) (now : Option (BitVec w)) : Act w
  /-- Thread `t` runs the second critical section. -/
  | insert (t : ℕ) : Act w
  /-- Some thread runs `task_info_remove_expired`. -/
  | removeExpired (hz : ℕ) (jiffies : ℕ → BitVec w) : Act w
  /-- Some thread runs `task_info_purge_list`. -/
  | purge : Act w

/-- `task_info_add_for_current`: four adds, one after the other. The pids are
those of the current task, of its parent and of the next two tasks. -/
def taskInfoAddForCurrent (t : ℕ) (current parent next nextNext : ℤ) : Act w :=
  .call t [current, parent, next, nextNext]

/-- The first critical section. -/
def stepLookup (s : Sys w) (t : ℕ) (now : BitVec w) (pid : ℤ) (rest : List ℤ) : Sys w :=
  match taskInfoFindPid pid s.head with
  | some i =>
    { s with
      head := s.head.modify i (touch now)
      threads := Function.update s.threads t ⟨rest, .lookup⟩
      updates := s.updates ++ [(pid, now)] }
  | none => { s with threads := Function.update s.threads t ⟨pid :: rest, .alloc⟩ }

/-- The second critical section: `list_add` puts the node first. With `NULL` for a node it faults
halfway, with `lock` held and the `prev` of the first entry already overwritten: from there on
the module is no longer what is modelled here, which notes the fault, leaves the list intact and
lets the others go on. -/
def stepInsert (s : Sys w) (t : ℕ) (pid : ℤ) (rest : List ℤ) (now : BitVec w) :
    Option (TaskInfo w) → Sys w
  | some ti =>
    { s with
      head := ti :: s.head
      threads := Function.update s.threads t ⟨rest, .lookup⟩
      updates := s.updates ++ [(pid, now)] }
  -- the thread dies of the fault
  | none => { s with threads := Function.update s.threads t Thread.idle, oops := true }

/-- **One step.** A thread that is not where the action has it does nothing. -/
def step (s : Sys w) : Act w → Sys w
  | .call t pids =>
    match s.threads t with
    | ⟨[], _⟩ => { s with threads := Function.update s.threads t ⟨pids, .lookup⟩ }
    | _ => s
  | .lookup t now =>
    match s.threads t with
    | ⟨pid :: rest, .lookup⟩ => stepLookup s t now pid rest
    | _ => s
  | .alloc t now =>
    match s.threads t with
    | ⟨pid :: rest, .alloc⟩ =>
      { s with
        threads := Function.update s.threads t
          ⟨pid :: rest, .insert (taskInfoAlloc s.nodes pid now) (now.getD 0)⟩
        nodes := s.nodes + 1 }
    | _ => s
  | .insert t =>
    match s.threads t with
    | ⟨pid :: rest, .insert ti now⟩ => stepInsert s t pid rest now ti
    | _ => s
  | .removeExpired hz jiffies =>
    { s with
      head := (taskInfoRemoveExpired hz jiffies s.head).1
      freed := s.freed ++ (taskInfoRemoveExpired hz jiffies s.head).2.map TaskInfo.node }
  | .purge =>
    { s with
      head := (taskInfoPurgeList s.head).1
      freed := s.freed ++ (taskInfoPurgeList s.head).2.map TaskInfo.node }

/-! ### What a step can do

Every proof about the threads splits a step the same way: it is one of those
below, whichever action it comes from. -/

/-- The threads, but for thread `t`. -/
def Sys.setThread (s : Sys w) (t : ℕ) (th : Thread w) : Sys w :=
  { s with threads := Function.update s.threads t th }

/-- **The steps, one by one.** -/
inductive Step (s : Sys w) : Act w → Sys w → Prop
  /-- Nothing happens. -/
  | stutter (a : Act w) : Step s a s
  /-- An idle thread sets out. -/
  | call {t : ℕ} {pids : List ℤ} (h : (s.threads t).pids = []) :
      Step s (.call t pids) (s.setThread t ⟨pids, .lookup⟩)
  /-- A lookup finds the pid: the node is updated and the add is over. -/
  | hit {t : ℕ} {now : BitVec w} {pid : ℤ} {rest : List ℤ} {i : ℕ}
      (h : s.threads t = ⟨pid :: rest, .lookup⟩) (hfind : taskInfoFindPid pid s.head = some i) :
      Step s (.lookup t now)
        { s.setThread t ⟨rest, .lookup⟩ with
          head := s.head.modify i (touch now)
          updates := s.updates ++ [(pid, now)] }
  /-- A lookup misses the pid: the thread enters the gap. -/
  | miss {t : ℕ} {now : BitVec w} {pid : ℤ} {rest : List ℤ}
      (h : s.threads t = ⟨pid :: rest, .lookup⟩) (hfind : taskInfoFindPid pid s.head = none) :
      Step s (.lookup t now) (s.setThread t ⟨pid :: rest, .alloc⟩)
  /-- A node is allocated, or not. -/
  | alloc {t : ℕ} {now : Option (BitVec w)} {pid : ℤ} {rest : List ℤ}
      (h : s.threads t = ⟨pid :: rest, .alloc⟩) :
      Step s (.alloc t now)
        { s.setThread t ⟨pid :: rest, .insert (taskInfoAlloc s.nodes pid now) (now.getD 0)⟩ with
          nodes := s.nodes + 1 }
  /-- A node is linked and the add is over. -/
  | insert {t : ℕ} {pid : ℤ} {rest : List ℤ} {ti : TaskInfo w} {now : BitVec w}
      (h : s.threads t = ⟨pid :: rest, .insert (some ti) now⟩) :
      Step s (.insert t)
        { s.setThread t ⟨rest, .lookup⟩ with
          head := ti :: s.head
          updates := s.updates ++ [(pid, now)] }
  /-- `NULL` is linked and the thread dies. -/
  | oops {t : ℕ} {pid : ℤ} {rest : List ℤ} {now : BitVec w}
      (h : s.threads t = ⟨pid :: rest, .insert none now⟩) :
      Step s (.insert t) { s.setThread t Thread.idle with oops := true }
  /-- The expired nodes are unlinked and freed. -/
  | expire {hz : ℕ} {jiffies : ℕ → BitVec w} :
      Step s (.removeExpired hz jiffies)
        { s with
          head := (taskInfoRemoveExpired hz jiffies s.head).1
          freed := s.freed ++ (taskInfoRemoveExpired hz jiffies s.head).2.map TaskInfo.node }
  /-- All the nodes are unlinked and freed. -/
  | purge : Step s .purge { s with head := [], freed := s.freed ++ s.head.map TaskInfo.node }

/-- **A step is one of those.** -/
theorem step_cases (s : Sys w) (a : Act w) : Step s a (step s a) := by
  cases a with
  | call t pids =>
    rcases hth : s.threads t with ⟨- | ⟨pid, rest⟩, pc⟩
    · simp only [step, hth]
      exact .call (by rw [hth])
    · simp only [step, hth]
      exact .stutter _
  | lookup t now =>
    rcases hth : s.threads t with ⟨- | ⟨pid, rest⟩, - | - | ⟨ti, read⟩⟩
    case lookup.cons.lookup =>
      rcases hfind : taskInfoFindPid pid s.head with - | i
      · simp only [step, hth, stepLookup, hfind]
        exact .miss hth hfind
      · simp only [step, hth, stepLookup, hfind]
        exact .hit hth hfind
    all_goals
      simp only [step, hth]
      exact .stutter _
  | alloc t now =>
    rcases hth : s.threads t with ⟨- | ⟨pid, rest⟩, - | - | ⟨ti, read⟩⟩
    case alloc.cons.alloc =>
      simp only [step, hth]
      exact .alloc hth
    all_goals
      simp only [step, hth]
      exact .stutter _
  | insert t =>
    rcases hth : s.threads t with ⟨- | ⟨pid, rest⟩, - | - | ⟨ti, now⟩⟩
    case insert.cons.insert =>
      rcases ti with - | ti
      · simp only [step, hth, stepInsert]
        exact .oops hth
      · simp only [step, hth, stepInsert]
        exact .insert hth
    all_goals
      simp only [step, hth]
      exact .stutter _
  | removeExpired hz jiffies => exact .expire
  | purge => exact .purge

/-! ### The gap between the two critical sections -/

/-- A thread that has missed `pid` and is going to insert it: it stands between its
two critical sections, with a node or about to allocate one. -/
def Thread.Gap (th : Thread w) (pid : ℤ) : Prop :=
  ∃ rest, th = ⟨pid :: rest, .alloc⟩ ∨ ∃ ti now, th = ⟨pid :: rest, .insert (some ti) now⟩

/-- Thread `t` stands in the gap for `pid`. -/
def Sys.InGap (s : Sys w) (t : ℕ) (pid : ℤ) : Prop := (s.threads t).Gap pid

theorem not_gap_lookup (pids : List ℤ) (pid : ℤ) : ¬(⟨pids, .lookup⟩ : Thread w).Gap pid := by
  rintro ⟨rest, h | ⟨ti, now, h⟩⟩ <;> simp at h

theorem gap_alloc (pid : ℤ) (rest : List ℤ) (pid' : ℤ) :
    (⟨pid :: rest, .alloc⟩ : Thread w).Gap pid' ↔ pid' = pid := by
  constructor
  · rintro ⟨rest', h | ⟨ti, now, h⟩⟩
    · simp only [Thread.mk.injEq, List.cons.injEq, and_true] at h
      exact h.1.symm
    · simp at h
  · rintro rfl
    exact ⟨rest, Or.inl rfl⟩

theorem gap_insert (pid : ℤ) (rest : List ℤ) (ti : Option (TaskInfo w)) (now : BitVec w)
    (pid' : ℤ) (h : (⟨pid :: rest, .insert ti now⟩ : Thread w).Gap pid') : pid' = pid := by
  obtain ⟨rest', h | ⟨ti', now', h⟩⟩ := h
  · simp at h
  · simp only [Thread.mk.injEq, List.cons.injEq] at h
    exact h.1.1.symm

theorem inGap_setThread_self {s : Sys w} {t : ℕ} {th : Thread w} {pid : ℤ} :
    (s.setThread t th).InGap t pid ↔ th.Gap pid := by
  simp [Sys.InGap, Sys.setThread]

theorem inGap_setThread_of_ne {s : Sys w} {t t' : ℕ} {th : Thread w} {pid : ℤ} (h : t' ≠ t) :
    (s.setThread t th).InGap t' pid ↔ s.InGap t' pid := by
  simp [Sys.InGap, Sys.setThread, Function.update_of_ne h]

/-- A thread moved to where it is in no new gap leaves no thread in a new gap. -/
theorem inGap_of_setThread {s : Sys w} {t : ℕ} {th : Thread w}
    (hth : ∀ pid, th.Gap pid → s.InGap t pid) {t' : ℕ} {pid : ℤ}
    (h : (s.setThread t th).InGap t' pid) : s.InGap t' pid := by
  rcases eq_or_ne t' t with rfl | hne
  · exact hth pid (inGap_setThread_self.mp h)
  · exact (inGap_setThread_of_ne hne).mp h

/-- **A node about to be linked is the one its thread has allocated**: for the pid
being added, stamped with the value of `jiffies` read, and counted zero times. -/
def Sys.Carries (s : Sys w) : Prop :=
  ∀ t pid rest ti now, s.threads t = ⟨pid :: rest, .insert (some ti) now⟩ →
    ti.pid = pid ∧ ti.timestamp = now ∧ ti.count = 0

/-- A thread that is not about to link a node has nothing to carry. -/
theorem Sys.Carries.setThread {s : Sys w} (h : s.Carries) {t : ℕ} {th : Thread w}
    (hth : ∀ pid rest ti now, th = ⟨pid :: rest, .insert (some ti) now⟩ →
      ti.pid = pid ∧ ti.timestamp = now ∧ ti.count = 0) : (s.setThread t th).Carries := by
  intro t' pid rest ti now heq
  rcases eq_or_ne t' t with rfl | hne
  · exact hth pid rest ti now (by simpa [Sys.setThread] using heq)
  · exact h t' pid rest ti now (by simpa [Sys.setThread, Function.update_of_ne hne] using heq)

theorem Step.carries {s s' : Sys w} {a : Act w} (hs : Step s a s') (h : s.Carries) :
    s'.Carries := by
  cases hs with
  | @alloc t now pid rest hth =>
    refine h.setThread fun pid' rest' ti read heq => ?_
    rcases now with - | now
    · simp [taskInfoAlloc] at heq
    · simp only [taskInfoAlloc, Option.map_some, Option.getD_some, Thread.mk.injEq,
        List.cons.injEq, Pc.insert.injEq, Option.some.injEq] at heq
      obtain ⟨⟨rfl, -⟩, rfl, rfl⟩ := heq
      exact ⟨rfl, rfl, rfl⟩
  | stutter => exact h
  | expire => exact h
  | purge => exact h
  | call => exact h.setThread fun _ _ _ _ heq => absurd heq (by simp)
  | hit => exact h.setThread fun _ _ _ _ heq => absurd heq (by simp)
  | miss => exact h.setThread fun _ _ _ _ heq => absurd heq (by simp)
  | insert => exact h.setThread fun _ _ _ _ heq => absurd heq (by simp)
  | oops => exact h.setThread fun _ _ _ _ heq => absurd heq (by simp [Thread.idle])

theorem carries_run (acts : List (Act w)) : (run step Sys.init acts).Carries :=
  run_invariant step (fun s a h => (step_cases s a).carries h) acts fun _ _ _ _ _ heq =>
    absurd heq (by simp [Sys.init, Thread.idle])

/-! ### Distinct pids, and when they stay so -/

/-- Thread `t` is about to enter the gap for `pid`: it will look it up and miss
it. -/
def Sys.Misses (s : Sys w) (t : ℕ) (pid : ℤ) : Prop :=
  ∃ rest, s.threads t = ⟨pid :: rest, .lookup⟩ ∧ taskInfoFindPid pid s.head = none

/-- **No thread enters a gap another is in for the same pid.** -/
def GapFree (s : Sys w) : Act w → Prop
  | .lookup t _ => ∀ pid, s.Misses t pid → ∀ t', ¬s.InGap t' pid
  | _ => True

/-- The pids of the list. -/
def Sys.pids (s : Sys w) : List ℤ := s.head.map TaskInfo.pid

/-- **The invariant behind distinct pids**: the list has no pid twice, the pid of a
thread in the gap is not in the list, and no two threads are in the gap for the
same pid. -/
structure Exclusive (s : Sys w) : Prop where
  /-- No two nodes have the same pid. -/
  distinct : s.pids.Nodup
  /-- What is going to be inserted is not there. -/
  absent : ∀ {t pid}, s.InGap t pid → pid ∉ s.pids
  /-- What is going to be inserted is going to be inserted once. -/
  alone : ∀ {t t' pid}, s.InGap t pid → s.InGap t' pid → t = t'

/-- A step that adds no pid and puts no thread in a gap. -/
theorem Exclusive.shrink {s s' : Sys w} (h : Exclusive s) (hpids : s'.pids.Sublist s.pids)
    (hgap : ∀ {t pid}, s'.InGap t pid → s.InGap t pid) : Exclusive s' where
  distinct := h.distinct.sublist hpids
  absent hg hmem := h.absent (hgap hg) (hpids.subset hmem)
  alone hg hg' := h.alone (hgap hg) (hgap hg')

theorem Step.exclusive {s s' : Sys w} {a : Act w} (hs : Step s a s') (hok : GapFree s a)
    (hc : s.Carries) (h : Exclusive s) : Exclusive s' := by
  have hlookup : ∀ {t : ℕ} {pids : List ℤ} {pid : ℤ},
      (⟨pids, .lookup⟩ : Thread w).Gap pid → s.InGap t pid :=
    fun hg => absurd hg (not_gap_lookup _ _)
  cases hs with
  | stutter => exact h
  | call => exact h.shrink (List.Sublist.refl _) fun hg => inGap_of_setThread (fun _ => hlookup) hg
  | hit hth hfind =>
    refine h.shrink ?_ fun hg => inGap_of_setThread (fun _ => hlookup) hg
    rw [Sys.pids, map_pid_modify _ hfind]
    exact List.Sublist.refl _
  | @miss t now pid rest hth hfind =>
    have hfree : ∀ t', ¬s.InGap t' pid := hok pid ⟨rest, hth, hfind⟩
    have hnew : ∀ t' pid', (s.setThread t ⟨pid :: rest, .alloc⟩).InGap t' pid' →
        (t' = t ∧ pid' = pid) ∨ (pid' ≠ pid ∧ s.InGap t' pid') := by
      intro t' pid' hg
      rcases eq_or_ne t' t with rfl | hne
      · exact Or.inl ⟨rfl, (gap_alloc pid rest pid').mp (inGap_setThread_self.mp hg)⟩
      · have hg' := (inGap_setThread_of_ne hne).mp hg
        exact Or.inr ⟨fun hp => hfree t' (hp ▸ hg'), hg'⟩
    refine ⟨h.distinct, fun {t' pid'} hg => ?_, fun {t₁ t₂ pid'} hg₁ hg₂ => ?_⟩
    · rcases hnew t' pid' hg with ⟨-, rfl⟩ | ⟨-, hg'⟩
      · intro hmem
        obtain ⟨ti, hti, hpid⟩ := List.mem_map.mp hmem
        exact taskInfoFindPid_eq_none.mp hfind ti hti hpid
      · exact h.absent hg'
    · rcases hnew t₁ pid' hg₁ with ⟨rfl, hp⟩ | ⟨hp, hg₁'⟩ <;>
        rcases hnew t₂ pid' hg₂ with ⟨rfl, hp'⟩ | ⟨hp', hg₂'⟩
      · rfl
      · exact absurd hp hp'
      · exact absurd hp' hp
      · exact h.alone hg₁' hg₂'
  | @alloc t now pid rest hth =>
    refine h.shrink (List.Sublist.refl _) fun hg => inGap_of_setThread (fun pid' hg' => ?_) hg
    rw [gap_insert _ _ _ _ _ hg', Sys.InGap, hth]
    exact ⟨rest, Or.inl rfl⟩
  | @insert t pid rest ti now hth =>
    have hself : s.InGap t pid := ⟨rest, Or.inr ⟨ti, now, hth⟩⟩
    have hold : ∀ {t' pid'}, (s.setThread t ⟨rest, .lookup⟩).InGap t' pid' →
        pid' ≠ pid ∧ s.InGap t' pid' := by
      intro t' pid' hg
      rcases eq_or_ne t' t with rfl | hne
      · exact absurd (inGap_setThread_self.mp hg) (not_gap_lookup _ _)
      · have hg' := (inGap_setThread_of_ne hne).mp hg
        exact ⟨fun hp => hne (h.alone (hp ▸ hg') hself), hg'⟩
    have hpids : Sys.pids { s.setThread t ⟨rest, .lookup⟩ with
        head := ti :: s.head, updates := s.updates ++ [(pid, now)] } = pid :: s.pids :=
      congrArg (· :: s.pids) (hc t pid rest ti now hth).1
    refine ⟨?_, fun {t' pid'} hg => ?_, fun hg hg' => h.alone (hold hg).2 (hold hg').2⟩
    · rw [hpids]
      exact List.nodup_cons.mpr ⟨h.absent hself, h.distinct⟩
    · rw [hpids]
      intro hmem
      rcases List.mem_cons.mp hmem with hp | hmem
      · exact (hold hg).1 hp
      · exact h.absent (hold hg).2 hmem
  | oops =>
    exact h.shrink (List.Sublist.refl _) fun hg =>
      inGap_of_setThread (fun _ => hlookup) hg
  | @expire hz jiffies =>
    exact h.shrink ((taskInfoRemoveExpired_sublist hz jiffies s.head).map _) fun hg => hg
  | purge => exact h.shrink (List.nil_sublist _) fun hg => hg

theorem exclusive_init : Exclusive (Sys.init : Sys w) where
  distinct := List.nodup_nil
  absent hg := absurd hg (not_gap_lookup _ _)
  alone hg := absurd hg (not_gap_lookup _ _)

/-- **Every run that keeps the gaps exclusive keeps the pids distinct.** -/
theorem exclusive_run (acts : List (Act w)) (h : Along step GapFree Sys.init acts) :
    Exclusive (run step Sys.init acts) := by
  have hinv : ∀ (s : Sys w) (a : Act w), GapFree s a → (s.Carries ∧ Exclusive s) →
      ((step s a).Carries ∧ Exclusive (step s a)) := fun s a hok hi =>
    ⟨(step_cases s a).carries hi.1, (step_cases s a).exclusive hok hi.1 hi.2⟩
  exact (run_invariant_along step hinv acts h ⟨carries_run [], exclusive_init⟩).2

/-- **A thread in the gap inserts its pid as soon as it is left to run**, and no
other thread is disturbed. -/
theorem pids_of_inGap {s : Sys w} {t : ℕ} {pid : ℤ} (hc : s.Carries) (h : s.InGap t pid) :
    (run step s [.alloc t (some 0), .insert t]).pids = pid :: s.pids ∧
      ∀ t' ≠ t, (run step s [.alloc t (some 0), .insert t]).threads t' = s.threads t' := by
  obtain ⟨rest, hth | ⟨ti, now, hth⟩⟩ := h
  · refine ⟨?_, fun t' hne => ?_⟩
    · simp [run, step, hth, stepInsert, taskInfoAlloc, Sys.pids]
    · simp [run, step, hth, stepInsert, taskInfoAlloc, Function.update_of_ne hne]
  · have hpid : ti.pid = pid := (hc t pid rest ti now hth).1
    refine ⟨?_, fun t' hne => ?_⟩
    · simp [run, step, hth, stepInsert, Sys.pids, hpid]
    · simp [run, step, hth, stepInsert, Function.update_of_ne hne]

/-- **Two threads in the gap for one pid insert it twice** as soon as they are left
to run. -/
theorem pids_of_two_inGap {s : Sys w} {t t' : ℕ} {pid : ℤ} (hc : s.Carries) (hne : t ≠ t')
    (h : s.InGap t pid) (h' : s.InGap t' pid) :
    (run step s [.alloc t' (some 0), .insert t', .alloc t (some 0), .insert t]).pids
      = pid :: pid :: s.pids := by
  obtain ⟨hpids, hthreads⟩ := pids_of_inGap hc h'
  set s₁ := run step s [.alloc t' (some 0), .insert t'] with hs₁
  have hc₁ : s₁.Carries := run_invariant step (fun s a hi => (step_cases s a).carries hi) _ hc
  have h₁ : s₁.InGap t pid := by
    rw [Sys.InGap, hthreads t hne]
    exact h
  rw [← hpids, ← (pids_of_inGap hc₁ h₁).1]
  rfl

/-- An allocation that succeeds. -/
def Act.AllocSucceeds : Act w → Prop
  | .alloc _ now => now.isSome = true
  | _ => True

/-- **The pids stay distinct as long as the gaps stay exclusive, and no longer.**
In every run none of whose lookups misses a pid that another thread is about to
insert, no two nodes of the list have the same pid. And from every step that does
miss such a pid, whatever the run before it, a schedule of successful allocations
leads to a list with two nodes for it. -/
theorem pids_distinct_iff_gaps_exclusive :
    (∀ acts : List (Act w), Along step GapFree Sys.init acts →
      ((run step Sys.init acts).head.map TaskInfo.pid).Nodup) ∧
    ∀ (acts : List (Act w)) (a : Act w), ¬GapFree (run step Sys.init acts) a →
      ∃ more : List (Act w), (∀ b ∈ more, b.AllocSucceeds) ∧
        ¬((run step Sys.init (acts ++ a :: more)).head.map TaskInfo.pid).Nodup := by
  refine ⟨fun acts h => (exclusive_run acts h).distinct, fun acts a hbad => ?_⟩
  set s := run step Sys.init acts with hs
  -- only a lookup can break the condition
  cases a with
  | lookup t now =>
    simp only [GapFree, not_forall, not_not] at hbad
    obtain ⟨pid, ⟨rest, hth, hfind⟩, t', hgap⟩ := hbad
    have hne : t ≠ t' := by
      rintro rfl
      rw [Sys.InGap, hth] at hgap
      exact not_gap_lookup _ _ hgap
    have hstep : step s (.lookup t now) = s.setThread t ⟨pid :: rest, .alloc⟩ := by
      simp only [step, hth, stepLookup, hfind, Sys.setThread]
    have hc : (step s (.lookup t now)).Carries := (step_cases s _).carries (carries_run acts)
    have h₁ : (step s (.lookup t now)).InGap t pid := by
      rw [hstep, inGap_setThread_self, gap_alloc]
    have h₂ : (step s (.lookup t now)).InGap t' pid := by
      rw [hstep, inGap_setThread_of_ne hne.symm]
      exact hgap
    refine ⟨[.alloc t' (some 0), .insert t', .alloc t (some 0), .insert t],
      by simp [Act.AllocSucceeds], fun hnd => ?_⟩
    rw [run_append, run_cons, ← hs] at hnd
    have hpids := pids_of_two_inGap hc hne h₁ h₂
    rw [Sys.pids] at hpids
    rw [hpids] at hnd
    exact absurd hnd (by simp)
  | call | alloc | insert | removeExpired | purge => exact absurd trivial hbad

/-- Two tasks, one after the other, through a list that ends with both. -/
theorem pids_distinct_one_by_one :
    ((run step (Sys.init : Sys 64) [.call 0 [7], .lookup 0 1, .alloc 0 (some 1), .insert 0,
      .call 1 [8], .lookup 1 2, .alloc 1 (some 2), .insert 1]).head.map TaskInfo.pid).Nodup := by
  refine pids_distinct_iff_gaps_exclusive.1 _ ?_
  have hfree : ∀ (s : Sys 64) t, (∀ t' ≠ t, (s.threads t').pc = .lookup) →
      (s.threads t).pc = .lookup → ∀ now, GapFree s (.lookup t now) := by
    rintro s t hother hself now pid - t' ⟨rest, h | ⟨ti, read, h⟩⟩
    all_goals
      rcases eq_or_ne t' t with rfl | hne
      · rw [h] at hself
        exact absurd hself (by simp)
      · have := hother t' hne
        rw [h] at this
        exact absurd this (by simp)
  simp only [along_cons, along_nil, and_true]
  refine ⟨trivial, hfree _ 0 (fun t' hne => ?_) rfl 1, trivial, trivial, trivial,
    hfree _ 1 (fun t' hne => ?_) rfl 2, trivial, trivial⟩
  · simp [step, Sys.init, Function.update_of_ne hne, Thread.idle]
  · rcases eq_or_ne t' 0 with rfl | h0
    · rfl
    · simp [step, Sys.init, stepLookup, taskInfoFindPid, stepInsert, taskInfoAlloc, hne,
        Thread.idle]

/-- Two tasks with the same parent, each calling `task_info_add_for_current`: both
look the parent up before either has inserted it. -/
def racingParents : List (Act 64) :=
  [taskInfoAddForCurrent 0 10 1 12 13, taskInfoAddForCurrent 1 11 1 12 13,
    .lookup 0 100, .alloc 0 (some 100), .insert 0,
    .lookup 1 100, .alloc 1 (some 100), .insert 1,
    .lookup 0 101, .lookup 1 101, .alloc 0 (some 101), .insert 0, .alloc 1 (some 101), .insert 1]

/-- **Two nodes for one parent.** Every allocation succeeds and nothing is removed,
and the list ends with pid 1 twice. -/
theorem two_parents_one_pid :
    (∀ a ∈ racingParents, a.AllocSucceeds) ∧
      (run step Sys.init racingParents).head.map TaskInfo.pid = [1, 1, 11, 10] ∧
      ¬((run step Sys.init racingParents).head.map TaskInfo.pid).Nodup := by
  refine ⟨by simp [racingParents, Act.AllocSucceeds, taskInfoAddForCurrent], ?_, ?_⟩ <;> decide

end ListSync

end KernelModules
