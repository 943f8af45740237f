import Mathlib.Algebra.BigOperators.Group.List.Basic
import Mathlib.Tactic.Ring
import KernelModules.ListSync.Threads

/-!
# No add is lost

An add of a pid either finds a node and counts itself on it, or allocates one
outside the lock and links it later, counted zero times. Several adds of one pid
may be between their two critical sections at once, and there may then be several
nodes for it; still, nothing is lost: the nodes of a pid, each taken for one more
than its count, add up to the adds of that pid that have updated the list
(`KernelModules.ListSync.adds_never_lost`).

The count is a 32-bit number that wraps, so the law is stated below `2^31` updates.
The invariant is `KernelModules.ListSync.Tally`; the adds in flight weigh nothing
in it, because a node carries its weight with it when it is linked.
-/

namespace KernelModules

namespace ListSync

variable {w : ℕ}

/-! ### The weight of a pid -/

/-- **The weight of a pid in a list**: one for each of its nodes, and one for each
time a node was found again. -/
def weight (pid : ℤ) (head : List (TaskInfo w)) : ℕ :=
  ((head.filter fun ti => ti.pid = pid).map fun ti => ti.count.toNat + 1).sum

theorem weight_cons (pid : ℤ) (ti : TaskInfo w) (head : List (TaskInfo w)) :
    weight pid (ti :: head)
      = (if ti.pid = pid then ti.count.toNat + 1 else 0) + weight pid head := by
  by_cases h : ti.pid = pid <;> simp [weight, h]

theorem weight_append (pid : ℤ) (front back : List (TaskInfo w)) :
    weight pid (front ++ back) = weight pid front + weight pid back := by
  simp [weight]

/-- A node weighs no more than its pid. -/
theorem count_lt_weight {ti : TaskInfo w} {head : List (TaskInfo w)} (h : ti ∈ head) :
    ti.count.toNat < weight ti.pid head := by
  obtain ⟨front, back, rfl⟩ := List.append_of_mem h
  rw [weight_append, weight_cons, if_pos rfl]
  omega

/-- How many of the updates are for a pid. -/
def updatesOf (pid : ℤ) (updates : List (ℤ × BitVec w)) : ℕ :=
  (updates.filter fun u => u.1 = pid).length

theorem updatesOf_snoc (pid pid' : ℤ) (now : BitVec w) (updates : List (ℤ × BitVec w)) :
    updatesOf pid (updates ++ [(pid', now)])
      = updatesOf pid updates + if pid' = pid then 1 else 0 := by
  by_cases h : pid' = pid <;> simp [updatesOf, h]

theorem updatesOf_le (pid : ℤ) (updates : List (ℤ × BitVec w)) :
    updatesOf pid updates ≤ updates.length := List.length_filter_le _ _

/-! ### The invariant -/

/-- **What the list says of the adds so far.** -/
structure Tally (s : Sys w) : Prop where
  /-- Every node bears the stamp of an add of its pid. -/
  stamped : ∀ ti ∈ s.head, (ti.pid, ti.timestamp) ∈ s.updates
  /-- Every pid added has a node. -/
  listed : ∀ u ∈ s.updates, ∃ ti ∈ s.head, ti.pid = u.1
  /-- The nodes of a pid weigh as much as the adds of that pid, before the counts
  wrap. -/
  weighed : s.updates.length < 2 ^ 31 → ∀ pid, weight pid s.head = updatesOf pid s.updates

/-- Before the counts wrap, none is near to. -/
theorem Tally.count_lt {s : Sys w} (h : Tally s) (hlt : s.updates.length < 2 ^ 31)
    {ti : TaskInfo w} (hti : ti ∈ s.head) : ti.count.toNat < 2 ^ 31 := by
  have hweight := count_lt_weight hti
  have hle := updatesOf_le ti.pid s.updates
  rw [h.weighed hlt] at hweight
  omega

/-- A step that neither removes nor purges. -/
def Act.Adds : Act w → Prop
  | .removeExpired _ _ => False
  | .purge => False
  | _ => True

/-- A node found again weighs one more, as long as its count does not wrap. -/
theorem weight_touch (pid : ℤ) (now : BitVec w) {ti : TaskInfo w} {front back : List (TaskInfo w)}
    (h : ti.count.toNat < 2 ^ 31) :
    weight pid (front ++ touch now ti :: back)
      = weight pid (front ++ ti :: back) + if ti.pid = pid then 1 else 0 := by
  have hcount : (touch now ti).count.toNat = ti.count.toNat + 1 := by
    change (ti.count + 1).toNat = _
    rw [BitVec.toNat_add]
    exact Nat.mod_eq_of_lt (by simp; omega)
  simp only [weight_append, weight_cons, hcount, touch_pid]
  split <;> omega

/-- **An add that finds its node.** -/
theorem Tally.hit {s s' : Sys w} (h : Tally s) {pid : ℤ} {now : BitVec w} {i : ℕ}
    (hfind : taskInfoFindPid pid s.head = some i) (hhead : s'.head = s.head.modify i (touch now))
    (hupd : s'.updates = s.updates ++ [(pid, now)]) : Tally s' := by
  obtain ⟨front, ti, back, hsplit, rfl, hmod⟩ := taskInfoFindPid_eq_some hfind (touch now)
  rw [hmod] at hhead
  have hmem : ti ∈ s.head := by simp [hsplit]
  refine ⟨fun x hx => ?_, fun u hu => ?_, fun hlt pid => ?_⟩
  · rw [hhead, List.mem_append, List.mem_cons] at hx
    rw [hupd]
    rcases hx with hx | rfl | hx
    · exact List.mem_append_left _ (h.stamped x (by simp [hsplit, hx]))
    · exact List.mem_append_right _ (by simp)
    · exact List.mem_append_left _ (h.stamped x (by simp [hsplit, hx]))
  · rw [hupd, List.mem_append, List.mem_singleton] at hu
    have htouch : ∃ x ∈ s'.head, x.pid = ti.pid := ⟨touch now ti, by simp [hhead], rfl⟩
    rcases hu with hu | rfl
    · obtain ⟨x, hx, hpid⟩ := h.listed u hu
      rw [hsplit, List.mem_append, List.mem_cons] at hx
      rcases hx with hx | rfl | hx
      · exact ⟨x, by simp [hhead, hx], hpid⟩
      · exact hpid ▸ htouch
      · exact ⟨x, by simp [hhead, hx], hpid⟩
    · exact htouch
  · have hlt' : s.updates.length < 2 ^ 31 := by
      rw [hupd, List.length_append] at hlt
      omega
    rw [hhead, hupd, weight_touch pid now (h.count_lt hlt' hmem), updatesOf_snoc, ← hsplit,
      h.weighed hlt']

/-- **An add that links a node of its own.** -/
theorem Tally.insert {s s' : Sys w} (h : Tally s) {ti : TaskInfo w}
    (hcount : ti.count = 0) (hhead : s'.head = ti :: s.head)
    (hupd : s'.updates = s.updates ++ [(ti.pid, ti.timestamp)]) : Tally s' := by
  refine ⟨fun x hx => ?_, fun u hu => ?_, fun hlt pid => ?_⟩
  · rw [hhead, List.mem_cons] at hx
    rw [hupd]
    rcases hx with rfl | hx
    · exact List.mem_append_right _ (by simp)
    · exact List.mem_append_left _ (h.stamped x hx)
  · rw [hupd, List.mem_append, List.mem_singleton] at hu
    rw [hhead]
    rcases hu with hu | rfl
    · obtain ⟨x, hx, hpid⟩ := h.listed u hu
      exact ⟨x, List.mem_cons_of_mem ti hx, hpid⟩
    · exact ⟨ti, List.mem_cons_self, rfl⟩
  · have hlt' : s.updates.length < 2 ^ 31 := by
      rw [hupd, List.length_append] at hlt
      omega
    have hzero : (0 : BitVec 32).toNat = 0 := rfl
    rw [hhead, hupd, weight_cons, updatesOf_snoc, h.weighed hlt', hcount, hzero, Nat.zero_add,
      Nat.add_comm]

theorem Step.tally {s s' : Sys w} {a : Act w} (hs : Step s a s') (ha : a.Adds)
    (hc : s.Carries) (h : Tally s) : Tally s' := by
  cases hs with
  | stutter => exact h
  | call => exact ⟨h.stamped, h.listed, h.weighed⟩
  | hit hth hfind => exact h.hit hfind rfl rfl
  | miss => exact ⟨h.stamped, h.listed, h.weighed⟩
  | alloc => exact ⟨h.stamped, h.listed, h.weighed⟩
  | @insert t pid rest ti now hth =>
    obtain ⟨hpid, hstamp, hcount⟩ := hc t pid rest ti now hth
    exact h.insert hcount rfl (by rw [hpid, hstamp])
  | oops => exact ⟨h.stamped, h.listed, h.weighed⟩
  | expire => exact absurd ha (by simp [Act.Adds])
  | purge => exact absurd ha (by simp [Act.Adds])

theorem tally_init : Tally (Sys.init : Sys w) :=
  ⟨fun _ h => absurd h (by simp [Sys.init]), fun _ h => absurd h (by simp [Sys.init]),
    fun _ _ => rfl⟩

/-- **Every run of adds keeps the tally.** -/
theorem tally_run (acts : List (Act w)) (hadds : ∀ a ∈ acts, a.Adds) :
    Tally (run step Sys.init acts) := by
  have hinv : ∀ (s : Sys w) (a : Act w), a.Adds → (s.Carries ∧ Tally s) →
      ((step s a).Carries ∧ Tally (step s a)) := fun s a ha hi =>
    ⟨(step_cases s a).carries hi.1, (step_cases s a).tally ha hi.1 hi.2⟩
  exact (run_invariant_along step hinv acts (along_of_forall step hadds)
    ⟨carries_run [], tally_init⟩).2

/-! ### The conservation law -/

/-- Below `2^31` a count is what its bits say. -/
theorem sum_toInt_eq_weight (pid : ℤ) (head : List (TaskInfo w))
    (h : ∀ ti ∈ head, ti.pid = pid → ti.count.toNat < 2 ^ 31) :
    ((head.filter fun ti => ti.pid = pid).map fun ti => ti.count.toInt + 1).sum
      = (weight pid head : ℤ) := by
  induction head with
  | nil => rfl
  | cons ti head ih =>
    have ih := ih fun x hx => h x (List.mem_cons_of_mem ti hx)
    rw [weight_cons]
    by_cases hp : ti.pid = pid
    · have hint : ti.count.toInt = ti.count.toNat :=
        BitVec.toInt_eq_toNat_of_lt (by have := h ti List.mem_cons_self hp; omega)
      rw [List.filter_cons_of_pos (by simpa using hp), List.map_cons, List.sum_cons, ih, hint,
        if_pos hp]
      push_cast
      ring
    · rw [List.filter_cons_of_neg (by simpa using hp), ih, if_neg hp, Nat.zero_add]

/-- **No add is lost.** In every run of adds by any number of threads, as long as
fewer than `2^31` of them have updated the list: the nodes of every pid, each taken
for one more than its count, add up to the adds of that pid that have updated the
list; and a pid with such an add has a node stamped with the value of `jiffies`
one of them read. -/
theorem adds_never_lost (acts : List (Act w)) (hadds : ∀ a ∈ acts, a.Adds)
    (hlt : (run step Sys.init acts).updates.length < 2 ^ 31) (pid : ℤ) :
    let s := run step Sys.init acts
    ((s.head.filter fun ti => ti.pid = pid).map fun ti => ti.count.toInt + 1).sum
        = ((s.updates.filter fun u => u.1 = pid).length : ℤ) ∧
      ((∃ u ∈ s.updates, u.1 = pid) →
        ∃ ti ∈ s.head, ti.pid = pid ∧ ∃ u ∈ s.updates, u.1 = pid ∧ ti.timestamp = u.2) := by
  intro s
  have h : Tally s := tally_run acts hadds
  refine ⟨?_, ?_⟩
  · rw [sum_toInt_eq_weight, h.weighed hlt]
    · rfl
    · exact fun ti hti _ => h.count_lt hlt hti
  · rintro ⟨u, hu, rfl⟩
    obtain ⟨ti, hti, hpid⟩ := h.listed u hu
    exact ⟨ti, hti, hpid, _, h.stamped ti hti, hpid, rfl⟩

/-- Two threads race to insert pid 1, and a third finds it: three adds, two nodes,
one of them found again. -/
theorem adds_never_lost_in_a_race :
    let s := run step (Sys.init : Sys 64)
      [.call 0 [1], .call 1 [1], .lookup 0 5, .lookup 1 5, .alloc 0 (some 6), .alloc 1 (some 7),
        .insert 0, .insert 1, .call 2 [1], .lookup 2 8]
    ((s.head.filter fun ti => ti.pid = 1).map fun ti => ti.count.toInt + 1).sum = 3 :=
  (adds_never_lost _ (by simp [Act.Adds]) (by decide) 1).1.trans (by decide)

end ListSync

end KernelModules
