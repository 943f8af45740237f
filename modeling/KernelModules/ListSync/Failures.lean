import KernelModules.ListSync.Threads

/-!
# Allocations that fail

`task_info_alloc` returns `NULL` when `kmalloc` does, and `task_info_add_to_list` links what
it returns without looking at it. This file is about runs of adds, expiries and purges of any
number of threads, in which any allocation may fail
(`KernelModules.ListSync.Failures.step`). Each add has a number of its own, so that the adds
whose allocation fails (`KernelModules.ListSync.Failures.failed`) can be left out of a run
(`KernelModules.ListSync.Failures.without`).

The list does not change by leaving them out
(`KernelModules.ListSync.Failures.head_without`): such an add has missed its pid and links
nothing. What is wrong is that it dereferences `NULL` as soon as it goes on, so that a
failure is harmless only while the add stays where it is, and a run whose adds are all over
is harmless only if no allocation has failed:
`KernelModules.ListSync.Failures.harmless_exact`.

Of a run in which `NULL` has been linked only the part before the fault is the module's: the
fault leaves `lock` held and the `prev` of the first entry overwritten, whereas
`KernelModules.ListSync.stepInsert` goes on with the list as it was. No such run is harmless.
-/

namespace KernelModules

namespace ListSync

namespace Failures

variable {w : ℕ}

/-! ### Adds with numbers -/

/-- The module and the adds it has been called for. -/
structure Calls (w : ℕ) where
  /-- The module; thread `t` runs the add number `t`. -/
  sys : Sys w
  /-- The adds so far. -/
  started : List ℕ

/-- The module, just loaded. -/
def Calls.init : Calls w := ⟨Sys.init, []⟩

/-- What can happen next. -/
inductive Event (w : ℕ) where
  /-- `task_info_add_to_list` is called: the add number `t`. -/
  | add (t : ℕ) (pid : ℤ) : Event w
  /-- The first critical section of add `t`. -/
  | lookup (t : ℕ) (now : BitVec w) : Event w
  /-- Add `t` runs `task_info_alloc`; `none` is a `kmalloc` that fails. -/
  | alloc (t : ℕ) (now : Option (BitVec w)) : Event w
  /-- The second critical section of add `t`. -/
  | insert (t : ℕ) : Event w
  /-- `task_info_remove_expired`. -/
  | removeExpired (hz : ℕ) (jiffies : ℕ → BitVec w) : Event w
  /-- `task_info_purge_list`. -/
  | purge : Event w

/-- What the threads do. -/
def Event.act : Event w → Act w
  | .add t pid => .call t [pid]
  | .lookup t now => .lookup t now
  | .alloc t now => .alloc t now
  | .insert t => .insert t
  | .removeExpired hz jiffies => .removeExpired hz jiffies
  | .purge => .purge

/-- The add an event belongs to. -/
def Event.number : Event w → Option ℕ
  | .add t _ | .lookup t _ | .alloc t _ | .insert t => some t
  | _ => none

/-- **One step.** A number is used once. -/
def step (s : Calls w) : Event w → Calls w
  | .add t pid =>
    if t ∈ s.started then s else ⟨ListSync.step s.sys (.call t [pid]), t :: s.started⟩
  | e => { s with sys := ListSync.step s.sys e.act }

/-- The add whose allocation fails in this step, if one does. -/
def fails (s : Calls w) : Event w → Option ℕ
  | .alloc t none =>
    match s.sys.threads t with
    | ⟨_ :: _, .alloc⟩ => some t
    | _ => none
  | _ => none

/-- **The adds whose allocation fails** in a run. -/
def failed (events : List (Event w)) : List ℕ := trace step fails Calls.init events

/-- **A run with some adds left out.** -/
def without (numbers : List ℕ) (events : List (Event w)) : List (Event w) :=
  events.filter fun e => e.number.all fun t => decide (t ∉ numbers)

/-- A node, but for its address. -/
def bare (ti : TaskInfo w) : TaskInfo w := { ti with node := 0 }

/-- **The failures of a run are harmless**: `NULL` is not dereferenced, and the list is, but
for the addresses of the nodes, the one of the run without the adds whose allocation failed. -/
def Harmless (events : List (Event w)) : Prop :=
  (run step Calls.init events).sys.oops = false ∧
    (run step Calls.init events).sys.head.map bare =
      (run step Calls.init (without (failed events) events)).sys.head.map bare

/-! ### An add and its number -/

/-- **Every add has one pid, and its number is taken.** -/
def Single (s : Calls w) : Prop :=
  ∀ t pid rest, (s.sys.threads t).pids = pid :: rest → rest = [] ∧ t ∈ s.started

theorem single_init : Single (Calls.init : Calls w) :=
  fun t pid rest h => absurd h (by simp [Calls.init, Sys.init, Thread.idle])

/-- The step of one add leaves the others where they are. -/
theorem threads_of_ne {s s' : Sys w} {e : Event w} (hs : Step s e.act s') {t : ℕ}
    (ht : e.number ≠ some t) : s'.threads t = s.threads t := by
  have hne : ∀ {t' : ℕ} {th : Thread w}, t' ≠ t →
      Function.update s.threads t' th t = s.threads t := fun h => Function.update_of_ne h.symm _ _
  cases e with
  | add t' pid =>
    cases hs with
    | stutter => rfl
    | call => exact hne fun h => ht (congrArg some h)
  | lookup t' now =>
    cases hs with
    | stutter => rfl
    | hit | miss => exact hne fun h => ht (congrArg some h)
  | alloc t' now =>
    cases hs with
    | stutter => rfl
    | alloc => exact hne fun h => ht (congrArg some h)
  | insert t' =>
    cases hs with
    | stutter => rfl
    | insert | oops => exact hne fun h => ht (congrArg some h)
  | removeExpired hz jiffies =>
    cases hs with
    | stutter | expire => rfl
  | purge =>
    cases hs with
    | stutter | purge => rfl

/-- An add whose number is taken is not begun. -/
theorem step_taken {s : Calls w} {t : ℕ} (ht : t ∈ s.started) (pid : ℤ) :
    step s (.add t pid) = s := if_pos ht

theorem step_new {s : Calls w} {t : ℕ} (ht : t ∉ s.started) (pid : ℤ) :
    step s (.add t pid) = ⟨ListSync.step s.sys (.call t [pid]), t :: s.started⟩ := if_neg ht

/-- A step is one of the threads'. -/
theorem step_sys (s : Calls w) (e : Event w) : Step s.sys e.act (step s e).sys := by
  cases e with
  | add t pid =>
    by_cases ht : t ∈ s.started
    · rw [step_taken ht]
      exact .stutter _
    · rw [step_new ht]
      exact step_cases s.sys _
  | lookup | alloc | insert | removeExpired | purge => exact step_cases s.sys _

/-- A number that is taken stays so. -/
theorem started_subset (s : Calls w) (e : Event w) : s.started ⊆ (step s e).started := by
  cases e with
  | add t pid =>
    by_cases ht : t ∈ s.started
    · rw [step_taken ht]
      exact List.Subset.refl _
    · rw [step_new ht]
      exact List.subset_cons_self _ _
  | lookup | alloc | insert | removeExpired | purge => exact List.Subset.refl _

/-- An add takes its number. -/
theorem mem_started (s : Calls w) (t : ℕ) (pid : ℤ) : t ∈ (step s (.add t pid)).started := by
  by_cases ht : t ∈ s.started
  · rwa [step_taken ht]
  · rw [step_new ht]
    exact List.mem_cons_self

/-- The threads of the other numbers. -/
theorem threads_step_of_ne (s : Calls w) {e : Event w} {t : ℕ} (ht : e.number ≠ some t) :
    (step s e).sys.threads t = s.sys.threads t := threads_of_ne (step_sys s e) ht

/-- **What a step of add `t` does to its thread**, and to the list. -/
inductive Turn (s : Calls w) (t : ℕ) : Event w → Thread w → List (TaskInfo w) → Prop
  /-- Nothing happens. -/
  | stays (e : Event w) : Turn s t e (s.sys.threads t) s.sys.head
  /-- The add begins. -/
  | begins {pid : ℤ} (hnew : t ∉ s.started) (h : (s.sys.threads t).pids = []) :
      Turn s t (.add t pid) ⟨[pid], .lookup⟩ s.sys.head
  /-- It finds its pid, and is over. -/
  | hit {now : BitVec w} {pid : ℤ} {rest : List ℤ} (i : ℕ)
      (h : s.sys.threads t = ⟨pid :: rest, .lookup⟩) :
      Turn s t (.lookup t now) ⟨rest, .lookup⟩ (s.sys.head.modify i (touch now))
  /-- It misses its pid. -/
  | miss {now : BitVec w} {pid : ℤ} {rest : List ℤ}
      (h : s.sys.threads t = ⟨pid :: rest, .lookup⟩) :
      Turn s t (.lookup t now) ⟨pid :: rest, .alloc⟩ s.sys.head
  /-- It has a node, or `NULL`. -/
  | alloc {now : Option (BitVec w)} {pid : ℤ} {rest : List ℤ} (ti : Option (TaskInfo w))
      (read : BitVec w) (h : s.sys.threads t = ⟨pid :: rest, .alloc⟩) :
      Turn s t (.alloc t now) ⟨pid :: rest, .insert ti read⟩ s.sys.head
  /-- It links its node, and is over. -/
  | insert {pid : ℤ} {rest : List ℤ} {ti : TaskInfo w} {read : BitVec w}
      (h : s.sys.threads t = ⟨pid :: rest, .insert (some ti) read⟩) :
      Turn s t (.insert t) ⟨rest, .lookup⟩ (ti :: s.sys.head)
  /-- It links `NULL`. -/
  | oops {pid : ℤ} {rest : List ℤ} {read : BitVec w}
      (h : s.sys.threads t = ⟨pid :: rest, .insert none read⟩) :
      Turn s t (.insert t) Thread.idle s.sys.head

/-- **A step of an add is one of those.** -/
theorem turn_cases (s : Calls w) {e : Event w} {t : ℕ} (ht : e.number = some t) :
    Turn s t e ((step s e).sys.threads t) (step s e).sys.head := by
  have hself : ∀ th : Thread w, Function.update s.sys.threads t th t = th :=
    fun th => Function.update_self ..
  cases e with
  | add t' pid =>
    obtain rfl : t' = t := Option.some.inj ht
    by_cases hmem : t' ∈ s.started
    · rw [step_taken hmem]
      exact .stays _
    · rw [step_new hmem]
      generalize hs' : ListSync.step s.sys (.call t' [pid]) = s'
      have hs : Step s.sys (.call t' [pid]) s' := hs' ▸ step_cases s.sys _
      cases hs with
      | stutter => exact .stays _
      | call hpids =>
        simp only [Sys.setThread, hself]
        exact .begins hmem hpids
  | lookup t' now =>
    obtain rfl : t' = t := Option.some.inj ht
    have hs := step_sys s (.lookup t' now)
    generalize (step s (.lookup t' now)).sys = s' at hs ⊢
    cases hs with
    | stutter => exact .stays _
    | hit hth =>
      simp only [Sys.setThread, hself]
      exact .hit _ hth
    | miss hth =>
      simp only [Sys.setThread, hself]
      exact .miss hth
  | alloc t' now =>
    obtain rfl : t' = t := Option.some.inj ht
    have hs := step_sys s (.alloc t' now)
    generalize (step s (.alloc t' now)).sys = s' at hs ⊢
    cases hs with
    | stutter => exact .stays _
    | alloc hth =>
      simp only [Sys.setThread, hself]
      exact .alloc _ _ hth
  | insert t' =>
    obtain rfl : t' = t := Option.some.inj ht
    have hs := step_sys s (.insert t')
    generalize (step s (.insert t')).sys = s' at hs ⊢
    cases hs with
    | stutter => exact .stays _
    | insert hth =>
      simp only [Sys.setThread, hself]
      exact .insert hth
    | oops hth =>
      simp only [Sys.setThread, hself]
      exact .oops hth
  | removeExpired | purge => exact absurd ht (by simp [Event.number])

theorem single_step {s : Calls w} (h : Single s) (e : Event w) : Single (step s e) := by
  have hstarted := started_subset s e
  intro t pid rest hpids
  by_cases ht : e.number = some t
  · -- the thread of this add keeps its pid, or is done with it
    have hturn := turn_cases s ht
    generalize (step s e).sys.threads t = th at hturn hpids
    generalize (step s e).sys.head = head at hturn
    cases hturn with
    | stays => exact (h t pid rest hpids).imp_right fun hmem => hstarted hmem
    | begins =>
      simp only [List.cons.injEq] at hpids
      exact ⟨hpids.2.symm, mem_started s t _⟩
    | @miss now pid' rest' hth | @alloc now pid' rest' ti read hth =>
      obtain ⟨rfl, hmem⟩ := h t pid' rest' (by rw [hth])
      simp only [List.cons.injEq] at hpids
      exact ⟨hpids.2.symm, hstarted hmem⟩
    | @hit now pid' rest' i hth | @insert pid' rest' ti read hth =>
      obtain ⟨rfl, -⟩ := h t pid' rest' (by rw [hth])
      exact absurd hpids (by simp)
    | oops => exact absurd hpids (by simp [Thread.idle])
  · rw [threads_step_of_ne s ht] at hpids
    exact (h t pid rest hpids).imp_right fun hmem => hstarted hmem

/-- **An add is past its allocation**: it is over, or about to link what it got. -/
def Past (got : Option (TaskInfo w) → Prop) (s : Calls w) (t : ℕ) : Prop :=
  t ∈ s.started ∧
    ((s.sys.threads t).pids = [] ∨ ∃ ti now, (s.sys.threads t).pc = .insert ti now ∧ got ti)

/-- It stays so. -/
theorem Past.step {got : Option (TaskInfo w) → Prop} {s : Calls w} {t : ℕ} (hsingle : Single s)
    (h : Past got s t) (e : Event w) : Past got (Failures.step s e) t := by
  have hstarted := started_subset s e
  by_cases ht : e.number = some t
  · obtain ⟨hmem, hat⟩ := h
    refine ⟨hstarted hmem, ?_⟩
    have hnot : ∀ pid rest (pc : Pc w), (∀ ti now, pc ≠ .insert ti now) →
        s.sys.threads t ≠ ⟨pid :: rest, pc⟩ := by
      intro pid rest pc hpc hth
      rw [hth] at hat
      rcases hat with hat | ⟨ti, now, hat, -⟩
      · exact absurd hat (by simp)
      · exact hpc ti now hat
    have hturn := turn_cases s ht
    generalize (Failures.step s e).sys.threads t = th at hturn ⊢
    generalize (Failures.step s e).sys.head = head at hturn
    cases hturn with
    | stays => exact hat
    | begins hnew => exact absurd hmem hnew
    | hit _ hth | miss hth | alloc _ _ hth => exact absurd hth (hnot _ _ _ (by simp))
    | @insert pid rest ti read hth => exact .inl (hsingle t pid rest (by rw [hth])).1
    | oops => exact .inl rfl
  · rw [Past, threads_step_of_ne s ht]
    exact ⟨hstarted h.1, h.2⟩

theorem fails_eq_some {s : Calls w} {e : Event w} {t : ℕ} (h : fails s e = some t) :
    e = .alloc t none ∧ ∃ pid rest, s.sys.threads t = ⟨pid :: rest, .alloc⟩ := by
  cases e with
  | alloc t' now =>
    rcases now with - | now
    · rcases hth : s.sys.threads t' with ⟨- | ⟨pid, rest⟩, - | - | ⟨ti, read⟩⟩
      case alloc.none.cons.alloc =>
        simp only [fails, hth, Option.some.injEq] at h
        subst h
        exact ⟨rfl, pid, rest, hth⟩
      all_goals
        simp only [fails, hth] at h
        exact absurd h (by simp)
    · exact absurd h (by simp [fails])
  | _ => exact absurd h (by simp [fails])

/-- Its allocation does not fail any more. -/
theorem Past.not_mem_trace {got : Option (TaskInfo w) → Prop} {t : ℕ} (events : List (Event w))
    {s : Calls w} (hsingle : Single s) (h : Past got s t) :
    t ∉ trace Failures.step fails s events := by
  induction events generalizing s with
  | nil => exact List.not_mem_nil
  | cons e events ih =>
    rw [trace, List.mem_append, not_or]
    refine ⟨fun hmem => ?_, ih (single_step hsingle e) (h.step hsingle e)⟩
    obtain ⟨-, pid, rest, hth⟩ := fails_eq_some (Option.mem_toList.mp hmem)
    obtain ⟨-, hat | ⟨ti, now, hat, -⟩⟩ := h
    · rw [hth] at hat
      exact absurd hat (by simp)
    · rw [hth] at hat
      exact absurd hat (by simp)

/-! ### Two runs, but for the addresses -/

theorem taskInfoFindPid_bare (pid : ℤ) (head : List (TaskInfo w)) :
    taskInfoFindPid pid (head.map bare) = taskInfoFindPid pid head := by
  rw [taskInfoFindPid, List.findIdx?_map]
  rfl

theorem map_bare_modify (now : BitVec w) (i : ℕ) (head : List (TaskInfo w)) :
    (head.modify i (touch now)).map bare = (head.map bare).modify i (touch now) := by
  induction head generalizing i with
  | nil => simp
  | cons ti head ih =>
    cases i with
    | zero => rfl
    | succ i => simp [ih i]

theorem taskInfoRemoveExpired_bare (hz : ℕ) (jiffies : ℕ → BitVec w)
    (head : List (TaskInfo w)) :
    (taskInfoRemoveExpired hz jiffies head).1.map bare =
      (taskInfoRemoveExpired hz jiffies (head.map bare)).1 := by
  induction head generalizing jiffies with
  | nil => rfl
  | cons ti head ih =>
    have htest : expired hz (jiffies 0) (bare ti) = expired hz (jiffies 0) ti := rfl
    rw [List.map_cons, taskInfoRemoveExpired, taskInfoRemoveExpired, htest]
    split
    · exact ih _
    · exact congrArg (bare ti :: ·) (ih _)

/-- Two threads at the same place, but for the address of the node they have. -/
inductive Twin : Thread w → Thread w → Prop
  /-- Before the lookup. -/
  | lookup (pids : List ℤ) : Twin ⟨pids, .lookup⟩ ⟨pids, .lookup⟩
  /-- Before the allocation. -/
  | alloc (pids : List ℤ) : Twin ⟨pids, .alloc⟩ ⟨pids, .alloc⟩
  /-- Before the insertion. -/
  | insert (pids : List ℤ) {ti ti' : Option (TaskInfo w)} (now : BitVec w)
      (h : ti.map bare = ti'.map bare) : Twin ⟨pids, .insert ti now⟩ ⟨pids, .insert ti' now⟩

/-- **Two systems alike**, but for the addresses and for some of the threads. -/
structure Alike (numbers : List ℕ) (s u : Sys w) : Prop where
  head : s.head.map bare = u.head.map bare
  twins : ∀ t ∉ numbers, Twin (s.threads t) (u.threads t)

section

variable {numbers : List ℕ} {s u : Sys w}

/-- One thread moves in both. -/
theorem Alike.move (h : Alike numbers s u) {s' u' : Sys w} {t : ℕ} {th th' : Thread w}
    (hhead : s'.head.map bare = u'.head.map bare)
    (hs : s'.threads = Function.update s.threads t th)
    (hu : u'.threads = Function.update u.threads t th') (htwin : Twin th th') :
    Alike numbers s' u' := by
  refine ⟨hhead, fun t' ht' => ?_⟩
  rw [hs, hu]
  rcases eq_or_ne t' t with rfl | hne
  · rwa [Function.update_self, Function.update_self]
  · rw [Function.update_of_ne hne, Function.update_of_ne hne]
    exact h.twins t' ht'

/-- **The same step taken in both.** -/
theorem Alike.step (h : Alike numbers s u) {e : Event w}
    (he : ∀ t, e.number = some t → t ∉ numbers) :
    Alike numbers (ListSync.step s e.act) (ListSync.step u e.act) := by
  cases e with
  | add t pid =>
    have htwin := h.twins t (he t rfl)
    generalize hth : s.threads t = th at htwin
    generalize hth' : u.threads t = th' at htwin
    rcases htwin with ⟨- | ⟨pid', rest⟩⟩ | ⟨- | ⟨pid', rest⟩⟩ | ⟨- | ⟨pid', rest⟩, now, hti⟩
    all_goals
      simp only [Event.act, ListSync.step, hth, hth']
    · exact h.move h.head rfl rfl (.lookup _)
    · exact h
    · exact h.move h.head rfl rfl (.lookup _)
    · exact h
    · exact h.move h.head rfl rfl (.lookup _)
    · exact h
  | lookup t now =>
    have htwin := h.twins t (he t rfl)
    generalize hth : s.threads t = th at htwin
    generalize hth' : u.threads t = th' at htwin
    rcases htwin with ⟨- | ⟨pid, rest⟩⟩ | pids | ⟨pids, read, hti⟩
    · simpa only [Event.act, ListSync.step, hth, hth'] using h
    · -- the search does not look at the addresses
      have hfind : taskInfoFindPid pid s.head = taskInfoFindPid pid u.head := by
        rw [← taskInfoFindPid_bare, h.head, taskInfoFindPid_bare]
      simp only [Event.act, ListSync.step, hth, hth', stepLookup, hfind]
      split
      · refine h.move ?_ rfl rfl (.lookup _)
        rw [map_bare_modify, map_bare_modify, h.head]
      · exact h.move h.head rfl rfl (.alloc _)
    · simpa only [Event.act, ListSync.step, hth, hth'] using h
    · simpa only [Event.act, ListSync.step, hth, hth'] using h
  | alloc t now =>
    have htwin := h.twins t (he t rfl)
    generalize hth : s.threads t = th at htwin
    generalize hth' : u.threads t = th' at htwin
    rcases htwin with pids | ⟨- | ⟨pid, rest⟩⟩ | ⟨pids, read, hti⟩
    · simpa only [Event.act, ListSync.step, hth, hth'] using h
    · simpa only [Event.act, ListSync.step, hth, hth'] using h
    · simp only [Event.act, ListSync.step, hth, hth']
      refine h.move h.head rfl rfl (.insert _ _ ?_)
      rw [taskInfoAlloc, taskInfoAlloc, Option.map_map, Option.map_map]
      rfl
    · simpa only [Event.act, ListSync.step, hth, hth'] using h
  | insert t =>
    have htwin := h.twins t (he t rfl)
    generalize hth : s.threads t = th at htwin
    generalize hth' : u.threads t = th' at htwin
    rcases htwin with pids | pids | ⟨- | ⟨pid, rest⟩, read, hti⟩
    · simpa only [Event.act, ListSync.step, hth, hth'] using h
    · simpa only [Event.act, ListSync.step, hth, hth'] using h
    · simpa only [Event.act, ListSync.step, hth, hth'] using h
    · simp only [Event.act, ListSync.step, hth, hth']
      rename_i ti ti'
      rcases ti with - | ti <;> rcases ti' with - | ti'
      · exact h.move h.head rfl rfl (.lookup _)
      · exact absurd hti (by simp)
      · exact absurd hti (by simp)
      · refine h.move ?_ rfl rfl (.lookup _)
        exact congrArg₂ (· :: ·) (Option.some.inj hti) h.head
  | removeExpired hz jiffies =>
    refine ⟨?_, h.twins⟩
    change (taskInfoRemoveExpired hz jiffies s.head).1.map bare =
      (taskInfoRemoveExpired hz jiffies u.head).1.map bare
    rw [taskInfoRemoveExpired_bare, h.head, taskInfoRemoveExpired_bare]
  | purge => exact ⟨rfl, h.twins⟩

end

/-! ### The run without the adds that fail -/

/-- The run so far, and the run so far without some adds. -/
structure Follows (numbers : List ℕ) (s u : Calls w) : Prop where
  alike : Alike numbers s.sys u.sys
  started : ∀ t ∉ numbers, (t ∈ s.started ↔ t ∈ u.started)

theorem follows_init (numbers : List ℕ) : Follows numbers (Calls.init : Calls w) Calls.init where
  alike := ⟨rfl, fun _ _ => .lookup _⟩
  started _ _ := Iff.rfl

/-- A step of both runs. -/
theorem Follows.step {numbers : List ℕ} {s u : Calls w} (h : Follows numbers s u) {e : Event w}
    (he : ∀ t, e.number = some t → t ∉ numbers) :
    Follows numbers (Failures.step s e) (Failures.step u e) := by
  have halike := h.alike.step he
  cases e with
  | add t pid =>
    have hstarted := h.started t (he t rfl)
    by_cases ht : t ∈ s.started
    · rw [step_taken ht, step_taken (hstarted.mp ht)]
      exact h
    · rw [step_new ht, step_new fun hu => ht (hstarted.mpr hu)]
      refine ⟨halike, fun t' ht' => ?_⟩
      rw [List.mem_cons, List.mem_cons, h.started t' ht']
  | lookup | alloc | insert | removeExpired | purge => exact ⟨halike, h.started⟩

/-- **An add whose allocation has failed or is going to** does nothing to the list. -/
theorem head_of_failed {s : Calls w} (hsingle : Single s) {e : Event w} {t : ℕ}
    {events : List (Event w)} (ht : e.number = some t)
    (hfails : Past (· = none) s t ∨ t ∈ trace step fails s (e :: events)) :
    (step s e).sys.head = s.sys.head := by
  have hstarted := started_subset s e
  -- were the add over after this step, its allocation would never fail
  have hnot : ∀ {pid : ℤ} {rest : List ℤ} {pc : Pc w},
      s.sys.threads t = ⟨pid :: rest, pc⟩ → (∀ read, pc ≠ .insert none read) →
      fails s e = none → (step s e).sys.threads t ≠ ⟨rest, .lookup⟩ := by
    intro pid rest pc hth hpc hnone hth'
    obtain ⟨rfl, hmem⟩ := hsingle t pid rest (by rw [hth])
    have hpast : Past (fun _ => True) (step s e) t := ⟨hstarted hmem, .inl (by rw [hth'])⟩
    rcases hfails with ⟨-, hat⟩ | hmem
    · rw [hth] at hat
      rcases hat with hat | ⟨ti, read, hat, rfl⟩
      · exact absurd hat (by simp)
      · exact hpc read hat
    · rw [trace, hnone, Option.toList_none, List.nil_append] at hmem
      exact hpast.not_mem_trace events (single_step hsingle e) hmem
  have hturn := turn_cases s ht
  generalize (step s e).sys.threads t = th at hturn hnot
  generalize (step s e).sys.head = head at hturn ⊢
  cases hturn with
  | stays | begins | miss | alloc | oops => rfl
  | hit _ hth => exact absurd rfl (hnot hth (by simp) rfl)
  | insert hth => exact absurd rfl (hnot hth (by simp) rfl)

/-- A step that is left out. -/
theorem Follows.skip {numbers : List ℕ} {s u : Calls w} (h : Follows numbers s u) {e : Event w}
    {t : ℕ} (ht : e.number = some t) (hmem : t ∈ numbers)
    (hhead : (Failures.step s e).sys.head = s.sys.head) :
    Follows numbers (Failures.step s e) u := by
  have hne : ∀ t' ∉ numbers, e.number ≠ some t' := by
    intro t' ht' heq
    rw [ht, Option.some.injEq] at heq
    exact ht' (heq ▸ hmem)
  refine ⟨⟨by rw [hhead, h.alike.head], fun t' ht' => ?_⟩, fun t' ht' => ?_⟩
  · rw [threads_step_of_ne s (hne t' ht')]
    exact h.alike.twins t' ht'
  · rw [← h.started t' ht']
    cases e with
    | add t₀ pid =>
      have hne₀ : t' ≠ t₀ := fun heq => hne t' ht' (congrArg some heq.symm)
      by_cases ht₀ : t₀ ∈ s.started
      · rw [step_taken ht₀]
      · rw [step_new ht₀, List.mem_cons, or_iff_right hne₀]
    | lookup | alloc | insert | removeExpired | purge => rfl

/-- An allocation that fails leaves the add with `NULL`. -/
theorem thread_of_fails {s : Calls w} {e : Event w} {t : ℕ} (h : fails s e = some t) :
    ∃ pid rest, s.sys.threads t = ⟨pid :: rest, .alloc⟩ ∧
      (step s e).sys.threads t = ⟨pid :: rest, .insert none 0⟩ := by
  obtain ⟨rfl, pid, rest, hth⟩ := fails_eq_some h
  refine ⟨pid, rest, hth, ?_⟩
  simp [step, Event.act, ListSync.step, hth, taskInfoAlloc]

/-- **The list of a run is the list of the run without the adds that fail.** -/
theorem follows_run {numbers : List ℕ} (events : List (Event w)) {s u : Calls w}
    (hsingle : Single s) (h : Follows numbers s u)
    (hfails : ∀ t ∈ numbers, Past (· = none) s t ∨ t ∈ trace step fails s events) :
    Follows numbers (run step s events) (run step u (without numbers events)) := by
  induction events generalizing s u with
  | nil => exact h
  | cons e events ih =>
    have hnext : ∀ t ∈ numbers, Past (· = none) (step s e) t ∨
        t ∈ trace step fails (step s e) events := by
      intro t ht
      rcases hfails t ht with hpast | hmem
      · exact .inl (hpast.step hsingle e)
      · rw [trace, List.mem_append] at hmem
        refine hmem.imp_left fun hnow => ?_
        obtain ⟨pid, rest, hth, hth'⟩ := thread_of_fails (Option.mem_toList.mp hnow)
        obtain ⟨-, hstarted⟩ := hsingle t pid rest (by rw [hth])
        exact ⟨started_subset s e hstarted, .inr ⟨none, 0, by rw [hth'], rfl⟩⟩
    by_cases hleft : ∃ t ∈ numbers, e.number = some t
    · obtain ⟨t, hmem, ht⟩ := hleft
      have hdrop : without numbers (e :: events) = without numbers events :=
        List.filter_cons_of_neg (by simpa [ht] using hmem)
      rw [hdrop]
      exact ih (single_step hsingle e)
        (h.skip ht hmem (head_of_failed hsingle ht (hfails t hmem))) hnext
    · have hkeep : without numbers (e :: events) = e :: without numbers events := by
        refine List.filter_cons_of_pos ?_
        rw [Option.all_eq_true]
        intro t ht
        exact decide_eq_true fun hmem => hleft ⟨t, hmem, ht⟩
      rw [hkeep]
      exact ih (single_step hsingle e)
        (h.step fun t ht hmem => hleft ⟨t, hmem, ht⟩) hnext

/-- **Leaving out the adds whose allocation failed does not change the list.** -/
theorem head_without (events : List (Event w)) :
    (run step Calls.init events).sys.head.map bare =
      (run step Calls.init (without (failed events) events)).sys.head.map bare :=
  (follows_run events single_init (follows_init _) fun _ => .inr).alike.head

/-! ### When a failure is harmless -/

/-- `list_add` is not called on `NULL`. -/
def Links (s : Calls w) : Event w → Prop
  | .insert t => ∀ pid rest now, s.sys.threads t ≠ ⟨pid :: rest, .insert none now⟩
  | _ => True

/-- No allocation fails. -/
def Allocates (s : Calls w) (e : Event w) : Prop := fails s e = none

/-- Only `list_add` dereferences `NULL`. -/
theorem oops_of_links {s s' : Sys w} {a : Act w} (hs : Step s a s')
    (h : ∀ t pid rest now, a = .insert t → s.threads t ≠ ⟨pid :: rest, .insert none now⟩) :
    s'.oops = s.oops := by
  cases hs with
  | oops hth => exact absurd hth (h _ _ _ _ rfl)
  | stutter | call | hit | miss | alloc | insert | expire | purge => rfl

theorem oops_step (s : Calls w) (e : Event w) :
    (step s e).sys.oops = false ↔ Links s e ∧ s.sys.oops = false := by
  by_cases h : Links s e
  · have hsame : (step s e).sys.oops = s.sys.oops := by
      refine oops_of_links (step_sys s e) fun t pid rest now heq => ?_
      cases e with
      | insert t' =>
        obtain rfl : t' = t := Act.insert.inj heq
        exact h pid rest now
      | _ => exact absurd heq (by simp [Event.act])
    rw [hsame]
    exact (and_iff_right h).symm
  · cases e with
    | insert t =>
      simp only [Links, not_forall, not_not] at h
      obtain ⟨pid, rest, now, hth⟩ := h
      simp [step, Event.act, ListSync.step, hth, stepInsert, Links]
    | _ => exact absurd trivial h

theorem oops_run (events : List (Event w)) (s : Calls w) :
    (run step s events).sys.oops = false ↔ Along step Links s events ∧ s.sys.oops = false := by
  induction events generalizing s with
  | nil => simp
  | cons e events ih =>
    rw [run_cons, ih (step s e), oops_step, along_cons]
    tauto

/-- A thread is about to link `NULL` because its allocation failed. -/
theorem null_of_step {s s' : Sys w} {a : Act w} (hs : Step s a s') {t : ℕ} {now : BitVec w}
    (hpc : (s'.threads t).pc = .insert none now) :
    (s.threads t).pc = .insert none now ∨
      a = .alloc t none ∧ ∃ pid rest, s.threads t = ⟨pid :: rest, .alloc⟩ := by
  have hmove : ∀ (t' : ℕ) (th : Thread w), th.pc ≠ .insert none now →
      (Function.update s.threads t' th t).pc = .insert none now →
        (s.threads t).pc = .insert none now := by
    intro t' th hth h
    rcases eq_or_ne t t' with rfl | hne
    · rw [Function.update_self] at h
      exact absurd h hth
    · rwa [Function.update_of_ne hne] at h
  cases hs with
  | stutter | expire | purge => exact .inl hpc
  | call | hit | miss | insert => exact .inl (hmove _ _ (by simp) hpc)
  | oops => exact .inl (hmove _ _ (by simp [Thread.idle]) hpc)
  | @alloc t' got pid rest hth =>
    rcases eq_or_ne t t' with rfl | hne
    · rcases got with - | got
      · exact .inr ⟨rfl, pid, rest, hth⟩
      · simp [Sys.setThread, taskInfoAlloc] at hpc
    · simp only [Sys.setThread, Function.update_of_ne hne] at hpc
      exact .inl hpc

/-- A run in which no allocation fails links no `NULL`. -/
theorem links_of_allocates {events : List (Event w)}
    (h : Along step Allocates Calls.init events) : Along step Links Calls.init events := by
  have hstep : ∀ (s : Calls w) (e : Event w), Allocates s e →
      (∀ t now, (s.sys.threads t).pc ≠ .insert none now) →
        ∀ t now, ((step s e).sys.threads t).pc ≠ .insert none now := by
    intro s e hok hnone t now hpc
    rcases null_of_step (step_sys s e) hpc with hpc | ⟨he, pid, rest, hth⟩
    · exact hnone t now hpc
    · cases e with
      | alloc t' got =>
        obtain ⟨rfl, rfl⟩ := Act.alloc.inj he
        exact absurd hok (by simp [Allocates, fails, hth])
      | _ => exact absurd he (by simp [Event.act])
  have hgood : ∀ (s : Calls w) (e : Event w), Allocates s e →
      (∀ t now, (s.sys.threads t).pc ≠ .insert none now) → Links s e := by
    rintro s e - hnone
    cases e with
    | insert t => exact fun pid rest now hth => hnone t now (by rw [hth])
    | _ => trivial
  exact along_of_invariant step hstep hgood events h fun t now => by
    simp [Calls.init, Sys.init, Thread.idle]

/-- An add with `NULL` stays where it is until it links it. -/
theorem stuck_step {s : Calls w} {e : Event w} (hok : Links s e) {t : ℕ} {pid : ℤ}
    {rest : List ℤ} {now : BitVec w} (hth : s.sys.threads t = ⟨pid :: rest, .insert none now⟩) :
    (step s e).sys.threads t = ⟨pid :: rest, .insert none now⟩ := by
  by_cases ht : e.number = some t
  · have hturn := turn_cases s ht
    generalize (step s e).sys.threads t = th at hturn ⊢
    generalize (step s e).sys.head = head at hturn
    cases hturn with
    | stays => exact hth
    | begins _ hpids =>
      rw [hth] at hpids
      exact absurd hpids (by simp)
    | hit _ hth' | miss hth' | alloc _ _ hth' | insert hth' =>
      exact absurd (hth.symm.trans hth') (by simp)
    | oops => exact absurd hth (hok pid rest now)
  · rw [threads_step_of_ne s ht, hth]

/-- **If all the adds are over and none has linked `NULL`, no allocation has failed.** -/
theorem allocates_of_links {events : List (Event w)} {s : Calls w}
    (hover : ∀ t, ((run step s events).sys.threads t).pids = []) (h : Along step Links s events) :
    Along step Allocates s events := by
  induction events generalizing s with
  | nil => trivial
  | cons e events ih =>
    refine ⟨?_, ih hover h.2⟩
    rcases hfails : fails s e with - | t
    · exact hfails
    · obtain ⟨pid, rest, -, hth⟩ := thread_of_fails hfails
      have hstep : ∀ (s : Calls w) (e : Event w), Links s e →
          s.sys.threads t = ⟨pid :: rest, .insert none 0⟩ →
            (step s e).sys.threads t = ⟨pid :: rest, .insert none 0⟩ :=
        fun _ _ hok => stuck_step hok
      have hend := run_invariant_along step hstep events h.2 hth
      have hpids := hover t
      rw [run_cons, hend] at hpids
      exact absurd hpids (by simp)

/-- **When allocation failures are harmless.** In every run of adds, expiries and purges:
`NULL` is not dereferenced and the list is the one of the run without the adds whose
allocation failed if and only if no such add goes on to link what it got. If all the adds of
the run are over, that is to say that no allocation has failed. -/
theorem harmless_exact (events : List (Event w)) :
    (Harmless events ↔ Along step Links Calls.init events) ∧
      ((∀ t, ((run step Calls.init events).sys.threads t).pids = []) →
        (Harmless events ↔ Along step Allocates Calls.init events)) := by
  have hiff : Harmless events ↔ Along step Links Calls.init events := by
    rw [Harmless, oops_run]
    exact ⟨fun h => h.1.1, fun h => ⟨⟨h, rfl⟩, head_without events⟩⟩
  refine ⟨hiff, fun hover => hiff.trans ?_⟩
  exact ⟨allocates_of_links hover, links_of_allocates⟩

/-- Pid 7 is added and found again, and all goes well. -/
theorem harmless_exact_twice :
    Harmless ([.add 0 7, .lookup 0 1, .alloc 0 (some 1), .insert 0, .add 1 7, .lookup 1 2] :
      List (Event 64)) := by
  refine ((harmless_exact _).2 fun t => ?_).mpr ?_
  · rcases t with - | - | t <;> rfl
  · exact ⟨rfl, rfl, rfl, rfl, rfl, rfl, trivial⟩

/-- Pid 7 is added, and `kmalloc` fails. -/
def addFails : List (Event 64) := [.add 0 7, .lookup 0 1, .alloc 0 none, .insert 0]

/-- **`NULL` is dereferenced**, by the only add there is. -/
theorem null_is_linked :
    failed addFails = [0] ∧ without [0] addFails = [] ∧
      (run step Calls.init addFails).sys.oops = true ∧ ¬Harmless addFails := by
  have hoops : (run step Calls.init addFails).sys.oops = true := by decide
  refine ⟨by decide, rfl, hoops, fun h => ?_⟩
  rw [h.1] at hoops
  exact absurd hoops (by simp)

end Failures

end ListSync

end KernelModules
