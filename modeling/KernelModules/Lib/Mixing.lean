import Mathlib.Data.Set.Basic
import Mathlib.Logic.Function.Basic
import KernelModules.Lib.Run
import KernelModules.Lib.TryLock

/-!
# Copies that cross each other

Writers that copy blocks of `n` cells into one and the same place, cell by cell and without a
lock. What is in the place once a copy is done is a mixture: every cell comes from one of the
blocks (`KernelModules.Mixing.Sourced.mix`). And there is no more to be said: with blocks from a
given set, every mixture comes about (`KernelModules.Mixing.run_mixing`).

The schedule that brings a mixture about has a writer for each cell. Each of them stops just
before its own cell; then they finish, in the order of their cells.
-/

namespace KernelModules

namespace Mixing

variable {n : ℕ} {α : Type*}

/-- A copy: the block, and the cell that comes next. -/
structure Writer (n : ℕ) (α : Type*) where
  /-- The block. -/
  block : Fin n → α
  /-- The cells copied so far. -/
  pos : ℕ

/-- The place, and the writers. -/
structure State (n : ℕ) (α : Type*) where
  /-- What the place holds. -/
  mem : Fin n → α
  /-- The writers, by number. -/
  writers : ℕ → Option (Writer n α)

/-- What can happen next. -/
inductive Act (n : ℕ) (α : Type*) where
  /-- Writer `w` begins to copy a block. -/
  | enter (w : ℕ) (block : Fin n → α) : Act n α
  /-- Writer `w` copies its next cell. -/
  | store (w : ℕ) : Act n α

/-- A cell is copied. -/
def put (block : Fin n → α) (pos : ℕ) (mem : Fin n → α) : Fin n → α :=
  fun i => if (i : ℕ) = pos then block i else mem i

/-- **One step.** -/
def step (s : State n α) : Act n α → State n α
  | .enter w block =>
    match s.writers w with
    | none => { s with writers := Function.update s.writers w (some ⟨block, 0⟩) }
    | some _ => s
  | .store w =>
    match s.writers w with
    | none => s
    | some x =>
      if x.pos < n then
        ⟨put x.block x.pos s.mem,
          Function.update s.writers w (some ⟨x.block, x.pos + 1⟩)⟩
      else s

/-- Nobody is copying. -/
def State.start (mem : Fin n → α) : State n α := ⟨mem, fun _ => none⟩

/-- **Every cell comes from a block.** -/
def Mix (A : Set (Fin n → α)) (mem : Fin n → α) : Prop := ∀ i, ∃ block ∈ A, block i = mem i

/-! ### Nothing but mixtures -/

/-- **The invariant**: the blocks are those given, and the cells that some writer has behind it
come from them. -/
structure Sourced (A : Set (Fin n → α)) (s : State n α) : Prop where
  given : ∀ w x, s.writers w = some x → x.block ∈ A
  source : ∀ (i : Fin n) w x, s.writers w = some x → (i : ℕ) < x.pos →
    ∃ block ∈ A, block i = s.mem i

/-- The blocks of the schedule are those given. -/
def Act.Gives (A : Set (Fin n → α)) : Act n α → Prop
  | .enter _ block => block ∈ A
  | .store _ => True

variable {A : Set (Fin n → α)} {s : State n α} {a : Act n α} {w : ℕ}

theorem sourced_start (mem : Fin n → α) : Sourced A (State.start mem) :=
  ⟨fun _ _ h => absurd h (by simp [State.start]), fun _ _ _ h => absurd h (by simp [State.start])⟩

/-- A writer is now elsewhere, with a block that is given; what it has behind it comes from the
blocks, and so does what has come from them before. -/
theorem Sourced.move (h : Sourced A s) {mem : Fin n → α} {x : Writer n α} (hx : x.block ∈ A)
    (hbehind : ∀ i : Fin n, (i : ℕ) < x.pos → ∃ block ∈ A, block i = mem i)
    (hmem : ∀ i : Fin n, (∃ block ∈ A, block i = s.mem i) → ∃ block ∈ A, block i = mem i) :
    Sourced A ⟨mem, Function.update s.writers w (some x)⟩ := by
  constructor
  · intro v y hv
    obtain ⟨-, rfl⟩ | ⟨-, hv⟩ := TryLock.parties_update hv
    · exact hx
    · exact h.given v y hv
  · intro i v y hv hi
    obtain ⟨-, rfl⟩ | ⟨-, hv⟩ := TryLock.parties_update hv
    · exact hbehind i hi
    · exact hmem i (h.source i v y hv hi)

theorem Sourced.step (h : Sourced A s) (ha : a.Gives A) : Sourced A (Mixing.step s a) := by
  cases a with
  | enter w block =>
    rw [Mixing.step]
    split
    · exact h.move ha (fun i hi => absurd hi (Nat.not_lt_zero i)) fun _ hi => hi
    · exact h
  | store w =>
    rw [Mixing.step]
    split
    · exact h
    · rename_i x hw
      split
      · have hcell : ∀ i : Fin n, (i : ℕ) = x.pos ∨ (∃ block ∈ A, block i = s.mem i) →
            ∃ block ∈ A, block i = put x.block x.pos s.mem i := by
          intro i hi
          rw [put]
          split_ifs with hpos
          · exact ⟨x.block, h.given w x hw, rfl⟩
          · exact hi.resolve_left hpos
        refine h.move (h.given w x hw) (fun i hi => hcell i ?_) fun i hi => hcell i (.inr hi)
        rcases Nat.lt_succ_iff_lt_or_eq.mp hi with hlt | heq
        · exact .inr (h.source i w x hw hlt)
        · exact .inl heq
      · exact h

/-- **Once a copy is done, the place holds a mixture.** -/
theorem Sourced.mix (h : Sourced A s) {x : Writer n α} (hw : s.writers w = some x)
    (hdone : n ≤ x.pos) : Mix A s.mem :=
  fun i => h.source i w x hw (lt_of_lt_of_le i.isLt hdone)

/-- **A mixture stays one.** -/
theorem Sourced.mix_step (h : Sourced A s) (hmix : Mix A s.mem) : Mix A (Mixing.step s a).mem := by
  cases a with
  | enter w block =>
    rw [Mixing.step]
    split <;> exact hmix
  | store w =>
    rw [Mixing.step]
    split
    · exact hmix
    · rename_i x hw
      split
      · intro i
        show ∃ block ∈ A, block i = put x.block x.pos s.mem i
        rw [put]
        split_ifs
        · exact ⟨x.block, h.given w x hw, rfl⟩
        · exact hmix i
      · exact hmix

/-! ### Every mixture -/

/-- Some cells are copied, from one on. -/
def putFrom (block : Fin n → α) (pos m : ℕ) (mem : Fin n → α) : Fin n → α :=
  fun i => if pos ≤ (i : ℕ) ∧ (i : ℕ) < pos + m then block i else mem i

/-- **A writer that goes on alone.** -/
theorem run_store {x : Writer n α} (m : ℕ) (hw : s.writers w = some x) (hm : x.pos + m ≤ n) :
    run step s (List.replicate m (.store w)) =
      ⟨putFrom x.block x.pos m s.mem,
        Function.update s.writers w (some ⟨x.block, x.pos + m⟩)⟩ := by
  -- the writer has moved on after its first cell
  induction m generalizing s x with
  | zero =>
    have hmem : putFrom x.block x.pos 0 s.mem = s.mem := by
      ext i
      rw [putFrom, if_neg (by omega)]
    rw [List.replicate_zero, run_nil, hmem, Nat.add_zero, ← hw, Function.update_eq_self]
  | succ m ih =>
    have hone : step s (.store w) =
        ⟨put x.block x.pos s.mem, Function.update s.writers w (some ⟨x.block, x.pos + 1⟩)⟩ := by
      simp only [step, hw]
      rw [if_pos (by omega)]
    have hmem : putFrom x.block (x.pos + 1) m (put x.block x.pos s.mem)
        = putFrom x.block x.pos (m + 1) s.mem := by
      ext i
      rw [putFrom, putFrom, put]
      split_ifs <;> first | rfl | omega
    rw [List.replicate_succ, run_cons, hone,
      ih (x := ⟨x.block, x.pos + 1⟩) (by simp) (by simp only; omega), hmem,
      Function.update_idem]
    congr 4
    simp only
    omega

/-- A writer that begins. -/
theorem run_enter (hw : s.writers w = none) (block : Fin n → α) :
    step s (.enter w block) =
      { s with writers := Function.update s.writers w (some ⟨block, 0⟩) } := by
  simp only [step, hw]

/-- The first `k` writers copy up to their own cells. -/
def approach (blocks : ℕ → Fin n → α) : ℕ → List (Act n α)
  | 0 => []
  | k + 1 => approach blocks k ++ .enter k (blocks k) :: List.replicate k (.store k)

/-- The first `k` writers finish, one after the other. -/
def finish (n : ℕ) (α : Type*) : ℕ → List (Act n α)
  | 0 => []
  | k + 1 => finish n α k ++ List.replicate (n - k) (.store k)

/-- **The writers wait**, each just before its own cell. -/
theorem writers_approach (blocks : ℕ → Fin n → α) (k : ℕ) (hk : k ≤ n + 1)
    (hs : ∀ w, s.writers w = none) (v : ℕ) :
    (run step s (approach blocks k)).writers v = if v < k then some ⟨blocks v, v⟩ else none := by
  induction k generalizing v with
  | zero => rw [approach, run_nil, hs, if_neg (by omega)]
  | succ k ih =>
    have hfree := ih (by omega) k
    rw [if_neg (lt_irrefl k)] at hfree
    rw [approach, run_append, run_cons, run_enter hfree,
      run_store k (x := ⟨blocks k, 0⟩) (by simp) (by simp only; omega), Nat.zero_add]
    simp only [Function.update_idem]
    rcases eq_or_ne v k with rfl | hne
    · rw [Function.update_self, if_pos (by omega)]
    · rw [Function.update_of_ne hne, ih (by omega)]
      split_ifs <;> first | rfl | omega

/-- **The writers finish**, each with its own cell first. -/
theorem run_finish (blocks : ℕ → Fin n → α) (k : ℕ) (hk : k ≤ n)
    (hs : ∀ v, s.writers v = if v < n + 1 then some ⟨blocks v, v⟩ else none) :
    (∀ i : Fin n, (i : ℕ) < k → (run step s (finish n α k)).mem i = blocks i i) ∧
      ∀ v, (run step s (finish n α k)).writers v =
        if v < n + 1 then some ⟨blocks v, if v < k then n else v⟩ else none := by
  induction k with
  | zero => exact ⟨fun i hi => absurd hi (Nat.not_lt_zero i), by simpa [finish] using hs⟩
  | succ k ih =>
    obtain ⟨hmem, hwriters⟩ := ih (by omega)
    have hnext := hwriters k
    rw [if_pos (by omega), if_neg (lt_irrefl k)] at hnext
    rw [finish, run_append, run_store (n - k) hnext (by simp only; omega)]
    refine ⟨?_, ?_⟩
    · intro i hi
      simp only [putFrom]
      rcases Nat.lt_or_ge i k with hlt | hge
      · rw [if_neg (by omega), hmem i hlt]
      · have hcell : (i : ℕ) = k := by omega
        rw [if_pos (by omega), hcell]
    · intro v
      dsimp only
      rcases eq_or_ne v k with rfl | hne
      · rw [Function.update_self, if_pos (by omega), if_pos (by omega),
          Nat.add_sub_cancel' (by omega)]
      · rw [Function.update_of_ne hne, hwriters]
        have hiff : v < k + 1 ↔ v < k := by omega
        rw [if_congr hiff rfl rfl]

/-- The whole schedule: a writer for each cell, and one more that comes first. -/
def mixing (blocks : ℕ → Fin n → α) : List (Act n α) := approach blocks (n + 1) ++ finish n α n

/-- **Every cell from the block of its own writer**, and all copies done. -/
theorem run_mixing (blocks : ℕ → Fin n → α) (mem : Fin n → α) :
    (∀ i : Fin n, (run step (State.start mem) (mixing blocks)).mem i = blocks i i) ∧
      (run step (State.start mem) (mixing blocks)).writers n = some ⟨blocks n, n⟩ := by
  rw [mixing, run_append]
  obtain ⟨hmem, hwriters⟩ := run_finish blocks n (le_refl n)
    (writers_approach blocks (n + 1) (le_refl _) (s := State.start mem) fun _ => rfl)
  refine ⟨fun i => hmem i i.isLt, ?_⟩
  rw [hwriters, if_pos (Nat.lt_succ_self n), if_neg (lt_irrefl n)]

/-- The blocks of the schedule. -/
theorem enter_mem_approach (blocks : ℕ → Fin n → α) (k : ℕ) {block : Fin n → α}
    (h : .enter w block ∈ approach blocks k) : block = blocks w := by
  induction k with
  | zero => exact absurd h List.not_mem_nil
  | succ k ih =>
    rcases List.mem_append.mp h with h | h
    · exact ih h
    · rcases List.mem_cons.mp h with heq | h
      · obtain ⟨rfl, rfl⟩ := Act.enter.inj heq
        rfl
      · exact absurd (List.eq_of_mem_replicate h) (by simp)

theorem mem_finish {a : Act n α} (k : ℕ) (h : a ∈ finish n α k) : ∃ w < k, a = .store w := by
  induction k with
  | zero => exact absurd h List.not_mem_nil
  | succ k ih =>
    rcases List.mem_append.mp h with h | h
    · obtain ⟨w, hw, rfl⟩ := ih h
      exact ⟨w, by omega, rfl⟩
    · exact ⟨k, by omega, List.eq_of_mem_replicate h⟩

theorem enter_mem_mixing (blocks : ℕ → Fin n → α) {block : Fin n → α}
    (h : .enter w block ∈ mixing blocks) : block = blocks w := by
  rcases List.mem_append.mp h with h | h
  · exact enter_mem_approach blocks (n + 1) h
  · obtain ⟨v, -, heq⟩ := mem_finish n h
    exact absurd heq (by simp)

end Mixing

end KernelModules
