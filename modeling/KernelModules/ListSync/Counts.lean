import KernelModules.ListSync.Expiry

/-!
# A task seen often

`task_info_remove_expired` spares a node whose `count` is five or more, whatever its age, and
`count` goes up each time an add finds the node again. It is an `atomic_t`: 32 bits that wrap,
read as a signed number. This file follows how many times each node has been found
(`KernelModules.ListSync.Counts.Counted`), which the module does not know, and `count` is that
number modulo `2 ^ 32` (`KernelModules.ListSync.Counts.Tallied`).

So a node that has been found five times is spared as long as it is not found `2 ^ 31` times:
`KernelModules.ListSync.Counts.frequent_exact` says when exactly, for any number of threads.
After that many adds it is as if it had hardly ever been seen:
`KernelModules.ListSync.Counts.seen_too_often`.
-/

namespace KernelModules

namespace ListSync

namespace Counts

variable {w : ℕ}

/-! ### How often a node is found -/

/-- The module and its threads, with how many times each node has been found since it was
inserted. The latter is not in the source. -/
structure Counted (w : ℕ) where
  /-- The module and its threads. -/
  sys : Sys w
  /-- How many times each node has been found. -/
  finds : ℕ → ℕ

/-- The module, just loaded. -/
def Counted.init : Counted w := ⟨Sys.init, fun _ => 0⟩

/-- One node has been found once more, or none. -/
def bump (finds : ℕ → ℕ) : Option ℕ → ℕ → ℕ
  | some n => Function.update finds n (finds n + 1)
  | none => finds

/-- **One step.** -/
def step (s : Counted w) (a : Act w) : Counted w where
  sys := ListSync.step s.sys a
  finds :=
    match a with
    | .lookup t _ => bump s.finds (Expiry.found s.sys t)
    | _ => s.finds

/-- **The counts are right**, as far as 32 bits go: those of the list, and those of the nodes
that are about to be linked. -/
structure Tallied (s : Counted w) : Prop where
  owned : Nodes.Owned s.sys
  linked : ∀ ti ∈ s.sys.head, ti.count = BitVec.ofNat 32 (s.finds ti.node)
  pending : ∀ t ti now, (s.sys.threads t).pc = .insert (some ti) now →
    ti.count = 0 ∧ s.finds ti.node = 0
  fresh : ∀ n, s.sys.nodes ≤ n → s.finds n = 0

theorem tallied_init : Tallied (Counted.init : Counted w) where
  owned := Nodes.owned_init
  linked ti hti := absurd hti List.not_mem_nil
  pending t ti now h := absurd h (by simp [Counted.init, Sys.init, Thread.idle])
  fresh n hn := rfl

section

variable {s : Counted w}

/-- The first critical section finds a node and counts it, or finds none. -/
theorem Tallied.lookup (h : Tallied s) (t : ℕ) (now : BitVec w) :
    Tallied (step s (.lookup t now)) := by
  have howned : Nodes.Owned (ListSync.step s.sys (.lookup t now)) :=
    Nodes.owned_step (step_cases s.sys _) h.owned
  have hnodes : (ListSync.step s.sys (.lookup t now)).nodes = s.sys.nodes := by
    have hs := step_cases s.sys (.lookup t now)
    generalize ListSync.step s.sys (.lookup t now) = s' at hs
    cases hs with
    | stutter | hit | miss => rfl
  obtain ⟨hpending, ⟨hnone, hhead⟩ | ⟨front, ti, back, hfound, hold, hnew, hother⟩⟩ :=
    Expiry.lookup_found h.owned t now
  · have hfinds : (step s (.lookup t now)).finds = s.finds := by simp only [step, hnone, bump]
    refine ⟨howned, fun x hx => ?_, fun t' x now' hpc => ?_, fun n hn => ?_⟩
    · rw [hfinds]
      exact h.linked x (hhead ▸ hx)
    · rw [hfinds]
      exact h.pending t' x now' (hpending t' x now' hpc)
    · rw [hfinds]
      exact h.fresh n (hnodes ▸ hn)
  · have hti : ti ∈ s.sys.head := by simp [hold]
    have hself : (step s (.lookup t now)).finds ti.node = s.finds ti.node + 1 := by
      simp only [step, hfound, bump, Function.update_self]
    have hne : ∀ n, n ≠ ti.node → (step s (.lookup t now)).finds n = s.finds n := by
      intro n hn
      simp only [step, hfound, bump, Function.update_of_ne hn]
    have hused : ti.node ∈ Nodes.used s.sys :=
      List.mem_append_left _ (List.mem_map_of_mem hti)
    have hrest : ∀ x ∈ front ++ back,
        x.count = BitVec.ofNat 32 ((step s (.lookup t now)).finds x.node) := by
      intro x hx
      rw [hne x.node (hother x hx)]
      refine h.linked x ?_
      rw [hold, List.mem_append, List.mem_cons]
      exact (List.mem_append.mp hx).imp_right .inr
    refine ⟨howned, fun x hx => ?_, fun t' x now' hpc => ?_, fun n hn => ?_⟩
    · simp only [step, hnew, List.mem_append, List.mem_cons] at hx
      rcases hx with hx | rfl | hx
      · exact hrest x (List.mem_append_left _ hx)
      · calc ti.count + 1 = BitVec.ofNat 32 (s.finds ti.node) + 1 := by rw [h.linked ti hti]
          _ = BitVec.ofNat 32 (s.finds ti.node + 1) := (BitVec.ofNat_add _ 1).symm
          _ = _ := by rw [← hself]; rfl
      · exact hrest x (List.mem_append_right _ hx)
    · -- a node some thread carries is not in the list
      have hpc := hpending t' x now' hpc
      rw [hne x.node]
      · exact h.pending t' x now' hpc
      · rintro heq
        exact h.owned.held t' x.node (by rw [Nodes.holds, hpc]) (heq ▸ hused)
    · have hlt := h.owned.used_lt ti.node hused
      rw [hne n]
      · exact h.fresh n (hnodes ▸ hn)
      · have hn : s.sys.nodes ≤ n := hnodes ▸ hn
        omega

/-- An allocation gives a thread a node that nothing has found. -/
theorem Tallied.alloc (h : Tallied s) (t : ℕ) (now : Option (BitVec w)) :
    Tallied (step s (.alloc t now)) := by
  have hs : Step s.sys (.alloc t now) (step s (.alloc t now)).sys := step_cases s.sys _
  have howned : Nodes.Owned (step s (.alloc t now)).sys := Nodes.owned_step hs h.owned
  have hfinds : (step s (.alloc t now)).finds = s.finds := rfl
  generalize step s (.alloc t now) = s' at hs howned hfinds
  obtain ⟨sys', finds'⟩ := s'
  dsimp only at hs howned hfinds
  subst hfinds
  cases hs with
  | stutter => exact ⟨howned, h.linked, h.pending, h.fresh⟩
  | @alloc _ _ pid rest hth =>
    refine ⟨howned, h.linked, fun t' ti read hpc => ?_, fun n hn => ?_⟩
    · rcases eq_or_ne t' t with rfl | hne
      · simp only [Sys.setThread, Function.update_self, Pc.insert.injEq] at hpc
        rcases now with - | now
        · exact absurd hpc.1 (by simp [taskInfoAlloc])
        · obtain rfl : ⟨s.sys.nodes, pid, now, 0⟩ = ti := Option.some.inj hpc.1
          exact ⟨rfl, h.fresh _ le_rfl⟩
      · simp only [Sys.setThread, Function.update_of_ne hne] at hpc
        exact h.pending t' ti read hpc
    · have hn : s.sys.nodes + 1 ≤ n := hn
      exact h.fresh n (by omega)

/-- **Every step keeps the counts right.** -/
theorem Tallied.step (h : Tallied s) (a : Act w) : Tallied (Counts.step s a) := by
  by_cases hlookup : ∃ t now, a = .lookup t now
  · obtain ⟨t, now, rfl⟩ := hlookup
    exact h.lookup t now
  by_cases halloc : ∃ t now, a = .alloc t now
  · obtain ⟨t, now, rfl⟩ := halloc
    exact h.alloc t now
  have hs : Step s.sys a (Counts.step s a).sys := step_cases s.sys a
  have hfinds : (Counts.step s a).finds = s.finds := by
    cases a with
    | lookup t now => exact absurd ⟨t, now, rfl⟩ hlookup
    | _ => rfl
  obtain ⟨hnodes, hhead, hpending⟩ :=
    Expiry.moved hs (fun t now ha => hlookup ⟨t, now, ha⟩) fun t now ha => halloc ⟨t, now, ha⟩
  refine ⟨Nodes.owned_step hs h.owned, fun ti hti => ?_, fun t ti now hpc => ?_, fun n hn => ?_⟩
  · rw [hfinds]
    rcases hhead ti hti with hti | ⟨t, now, hpc⟩
    · exact h.linked ti hti
    · -- a node is linked before it is found
      obtain ⟨hcount, hzero⟩ := h.pending t ti now hpc
      rw [hcount, hzero]
      rfl
  · rw [hfinds]
    exact h.pending t ti now (hpending t ti now hpc)
  · rw [hfinds]
    exact h.fresh n (hnodes ▸ hn)

end

/-! ### What is spared -/

/-- `atomic_read` of a counter that has been incremented `n` times. -/
theorem toInt_ofNat_lt_five (n : ℕ) :
    (BitVec.ofNat 32 n).toInt < 5 ↔ n % 2 ^ 32 < 5 ∨ 2 ^ 31 ≤ n % 2 ^ 32 := by
  have hlt : n % 2 ^ 32 < 2 ^ 32 := Nat.mod_lt _ (by decide)
  rw [BitVec.toInt_eq_toNat_cond, BitVec.toNat_ofNat]
  generalize n % 2 ^ 32 = k at hlt
  split <;> omega

/-- **A task seen often is spared**: no node that has been found five times or more is removed
by the next step, if that is an expiry. -/
def Spared (s : Counted w) : Act w → Prop
  | .removeExpired hz jiffies => ∀ ti ∈ s.sys.head, 5 ≤ s.finds ti.node →
      ti ∈ (step s (.removeExpired hz jiffies)).sys.head
  | _ => True

/-- The number of times a node has been found is still five or more as a 32-bit number read
as a signed one, when expiry looks at it, or else the node is not old enough for its count to
be read. -/
def Unwrapped (s : Counted w) : Act w → Prop
  | .removeExpired hz jiffies => ∀ (i : ℕ) (ti : TaskInfo w), s.sys.head[i]? = some ti →
      5 ≤ s.finds ti.node →
        (5 ≤ s.finds ti.node % 2 ^ 32 ∧ s.finds ti.node % 2 ^ 32 < 2 ^ 31) ∨
          (BitVec.ofNat w (3 * hz)).ult (jiffies i - ti.timestamp) = false
  | _ => True

/-- What expiry does to one node of the list. -/
theorem Tallied.expired_eq_false {s : Counted w} (h : Tallied s) {hz : ℕ} {now : BitVec w}
    {ti : TaskInfo w} (hti : ti ∈ s.sys.head) :
    expired hz now ti = false ↔
      (5 ≤ s.finds ti.node % 2 ^ 32 ∧ s.finds ti.node % 2 ^ 32 < 2 ^ 31) ∨
        (BitVec.ofNat w (3 * hz)).ult (now - ti.timestamp) = false := by
  rw [expired, Bool.and_eq_false_iff, decide_eq_false_iff_not, h.linked ti hti,
    toInt_ofNat_lt_five, not_or, not_lt, not_le, or_comm]

theorem Tallied.spared_iff {s : Counted w} (h : Tallied s) (a : Act w) :
    Spared s a ↔ Unwrapped s a := by
  cases a with
  | removeExpired hz jiffies =>
    constructor
    · intro hspared i ti hi hfinds
      have hti : ti ∈ s.sys.head := List.mem_of_getElem? hi
      obtain ⟨j, hj, hkept⟩ := (Expiry.mem_kept hz ti _ _).mp (hspared ti hti hfinds)
      -- a node is in one place of the list
      have hnodup : s.sys.head.Nodup := (List.nodup_append'.mp h.owned.nodup).1.of_map
      obtain ⟨hlt, -⟩ := List.getElem?_eq_some_iff.mp hi
      obtain rfl : i = j := (List.getElem?_inj hlt hnodup).mp (hi.trans hj.symm)
      exact (h.expired_eq_false hti).mp hkept
    · intro hunwrapped ti hti hfinds
      obtain ⟨i, hi⟩ := List.getElem?_of_mem hti
      exact (Expiry.mem_kept hz ti _ _).mpr
        ⟨i, hi, (h.expired_eq_false hti).mpr (hunwrapped i ti hi hfinds)⟩
  | _ => exact Iff.rfl

/-- **When a task seen often is spared.** In every run, of any number of threads, no expiry
removes a node that has been found five times or more if and only if, each time expiry looks
at such a node, either its count has not wrapped to less than five or the node is not yet old
enough. -/
theorem frequent_exact (acts : List (Act w)) :
    Along step Spared Counted.init acts ↔ Along step Unwrapped Counted.init acts := by
  have hstep : ∀ (s : Counted w) (a : Act w), Tallied s → Tallied (step s a) :=
    fun _ a hs => hs.step a
  have hiff : ∀ (s : Counted w) (a : Act w), Tallied s → (Spared s a ↔ Unwrapped s a) :=
    fun _ a hs => hs.spared_iff a
  exact along_congr step hstep hiff acts tallied_init

/-- Pid 7 is added. -/
def addSeven : List (Act 64) :=
  [.call 0 [7], .lookup 0 0, .alloc 0 (some 0), .insert 0]

/-- It is added again, some number of times, and found each time. -/
def findSeven : ℕ → List (Act 64)
  | 0 => []
  | n + 1 => Act.call 0 [7] :: Act.lookup 0 0 :: findSeven n

/-- The node of pid 7 is alone in the list, and has been found `n` times. -/
structure Seen (n : ℕ) (s : Counted 64) : Prop where
  idle : s.sys.threads 0 = Thread.idle
  head : s.sys.head = [⟨0, 7, 0, BitVec.ofNat 32 n⟩]
  finds : s.finds 0 = n

theorem Seen.again {n : ℕ} {s : Counted 64} (h : Seen n s) :
    Seen (n + 1) (run step s [Act.call 0 [7], Act.lookup 0 0]) := by
  have hfind : taskInfoFindPid 7 s.sys.head = some 0 := by rw [h.head]; rfl
  have hmod : s.sys.head.modify 0 (touch 0#64) = [⟨0, 7, 0#64, BitVec.ofNat 32 (n + 1)⟩] := by
    rw [h.head, BitVec.ofNat_add]
    rfl
  have hfirst : s.sys.head.find? (fun ti => ti.pid == 7) =
      some ⟨0, 7, 0, BitVec.ofNat 32 n⟩ := by rw [h.head]; rfl
  refine ⟨?_, ?_, ?_⟩ <;>
    simp [step, ListSync.step, h.idle, Thread.idle, stepLookup, hfind, hmod, Expiry.found, hfirst,
      bump, h.finds]

theorem Seen.findSeven {k : ℕ} (n : ℕ) {s : Counted 64} (h : Seen k s) :
    Seen (k + n) (run step s (findSeven n)) := by
  induction n generalizing k s with
  | zero => exact h
  | succ n ih =>
    have hrest := ih h.again
    rwa [Nat.add_right_comm] at hrest

/-- A count that has wrapped does not spare its node. -/
theorem Seen.removed {n : ℕ} {s : Counted 64} (h : Seen n s)
    (hwrap : (BitVec.ofNat 32 n).toInt < 5) :
    (step s (.removeExpired 100 fun _ => 1000)).sys.head = [] := by
  have hexpired : expired 100 1000 (⟨0, 7, 0, BitVec.ofNat 32 n⟩ : TaskInfo 64) = true := by
    have hold : (BitVec.ofNat 64 (3 * 100)).ult (1000 - 0) = true := by decide
    rw [expired, Bool.and_eq_true, decide_eq_true_iff]
    exact ⟨hold, hwrap⟩
  simp only [step, ListSync.step, h.head, taskInfoRemoveExpired, hexpired, if_true]

theorem Seen.not_spared {n : ℕ} {s : Counted 64} (h : Seen n s)
    (hwrap : (BitVec.ofNat 32 n).toInt < 5) (hfive : 5 ≤ n) :
    ¬Spared s (.removeExpired 100 fun _ => 1000) := by
  intro hspared
  have hti : (⟨0, 7, 0, BitVec.ofNat 32 n⟩ : TaskInfo 64) ∈ s.sys.head := by simp [h.head]
  have hkept := hspared _ hti (by rw [h.finds]; exact hfive)
  rw [h.removed hwrap] at hkept
  exact List.not_mem_nil hkept

theorem seen_run (n : ℕ) : Seen n (run step Counted.init (addSeven ++ findSeven n)) := by
  have hadded : Seen 0 (run step Counted.init addSeven) := ⟨rfl, rfl, rfl⟩
  rw [run_append]
  simpa using hadded.findSeven n

/-- **A task seen too often is not spared.** Pid 7 is added and then found `2 ^ 31` times, and
is removed a thousand ticks later. -/
theorem seen_too_often : ∃ n : ℕ, n = 2 ^ 31 ∧
    (run step Counted.init (addSeven ++ findSeven n)).sys.head.map TaskInfo.pid = [7] ∧
      (run step Counted.init (addSeven ++ findSeven n)).finds 0 = n ∧
      (run step Counted.init (addSeven ++ findSeven n ++
        [Act.removeExpired 100 fun _ => 1000])).sys.head = [] ∧
      ¬Along step Spared Counted.init
        (addSeven ++ findSeven n ++ [Act.removeExpired 100 fun _ => 1000]) := by
  -- the number of finds stays a variable, so that nothing counts up to it
  obtain ⟨n, hn, hwrap, hfive⟩ : ∃ n : ℕ, n = 2 ^ 31 ∧ (BitVec.ofNat 32 n).toInt < 5 ∧ 5 ≤ n :=
    ⟨2 ^ 31, rfl, by decide, by decide⟩
  have hseen := seen_run n
  refine ⟨n, hn, by rw [hseen.head]; rfl, hseen.finds, ?_, ?_⟩
  · rw [run_append]
    exact hseen.removed hwrap
  · rw [along_append]
    exact fun hall => hseen.not_spared hwrap hfive hall.2.1

end Counts

end ListSync

end KernelModules
