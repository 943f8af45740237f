import Mathlib.Data.Int.Notation
import KernelModules.Lib.Ledger

/-!
# Code that is loaded and unloaded

A module has a function that is run when it is loaded, and one for when it is unloaded. The first
either fails, and should then leave nothing behind, or succeeds, and the second should then give
back what it has acquired. What both of them do depends on the outcomes of the calls they make:
`KernelModules.Loader.life` is what is done from a load to the end of it, under given outcomes.

It is enough to look at one life at a time (`KernelModules.Loader.Balanced`): what is so of each
is so of every sequence of loads and unloads (`KernelModules.Loader.bad_run_iff`,
`KernelModules.Loader.Exact.run`).
-/

namespace KernelModules

/-- **The two functions of a module**, under given outcomes of the calls they make. -/
structure Loader (R : Type*) (O : Type) where
  /-- What is run when the module is loaded. It returns 0 if it succeeds. -/
  init : O → Traced R ℤ
  /-- What is run when it is unloaded. -/
  exit : O → Traced R Unit

namespace Ledger

variable {R : Type*} [DecidableEq R]

theorem after_append (l : Ledger R) (ops more : List (Op R)) :
    l.after (ops ++ more) = (l.after ops).after more :=
  run_append exec l ops more

/-- What is acquired and given back. -/
@[simp] theorem exec_release_acquire (l : Ledger R) (r : R) :
    (l.exec (.acquire r)).exec (.release r) = l := by
  simp [exec]

/-- A use of what has been acquired. -/
@[simp] theorem exec_use_acquire (l : Ledger R) (r : R) :
    (l.exec (.acquire r)).exec (.use r) = l.exec (.acquire r) := by
  simp [exec]

/-- What is acquired is not done wrong. -/
@[simp] theorem bad_exec_acquire (l : Ledger R) (r : R) : (l.exec (.acquire r)).bad = l.bad := rfl

end Ledger

namespace Loader

variable {R : Type*} [DecidableEq R] {O : Type}

/-- What has been done so far, and under which outcomes the module has been loaded, if it is. -/
structure State (R : Type*) (O : Type) where
  /-- The operations made, summed up. -/
  ledger : Ledger R
  /-- The outcomes, while the module is loaded. -/
  loaded : Option O

/-- Nothing has been done. -/
def State.start : State R O := ⟨Ledger.empty, none⟩

/-- What can happen next. -/
inductive Act (O : Type) where
  /-- The module is loaded, or not: the outcomes are these. -/
  | load (o : O) : Act O
  /-- The module is unloaded. -/
  | unload : Act O

/-- **One step.** A module that is loaded is not loaded again, and one that is not is not
unloaded. -/
def step (L : Loader R O) (s : State R O) : Act O → State R O
  | .load o =>
    match s.loaded with
    | none =>
      ⟨s.ledger.after (L.init o).ops, if (L.init o).val = 0 then some o else none⟩
    | some _ => s
  | .unload =>
    match s.loaded with
    | none => s
    | some o => ⟨s.ledger.after (L.exit o).ops, none⟩

/-- **What is done from a load to the end of it.** -/
def life (L : Loader R O) (o : O) : List (Op R) :=
  (L.init o).ops ++ if (L.init o).val = 0 then (L.exit o).ops else []

/-- **The life of a module comes out even if the outcomes are clean**, and does something wrong if
not, but not before the load has succeeded. -/
def Balanced (L : Loader R O) (clean : O → Prop) : Prop :=
  ∀ o, clean o ∧ Ledger.empty.after (L.life o) = Ledger.empty ∨
    ¬clean o ∧ ((L.init o).val = 0 → (Ledger.empty.after (L.init o).ops).bad = []) ∧
      (Ledger.empty.after (L.life o)).bad ≠ []

/-- A life that ends with this step is clean. -/
def EndsClean (L : Loader R O) (clean : O → Prop) (s : State R O) : Act O → Prop
  | .load o => s.loaded = none → (L.init o).val ≠ 0 → clean o
  | .unload => ∀ o, s.loaded = some o → clean o

/-- **What is held is what the module has acquired**, if it is loaded, and nothing if not; nothing
was done wrong. -/
def Exact (L : Loader R O) (s : State R O) : Prop :=
  match s.loaded with
  | none => s.ledger = Ledger.empty
  | some o => (L.init o).val = 0 ∧ s.ledger = Ledger.empty.after (L.init o).ops

variable {L : Loader R O} {clean : O → Prop} {s : State R O} {a : Act O}

theorem exact_start : L.Exact State.start := rfl

theorem Balanced.even (hL : L.Balanced clean) {o : O} (ho : clean o) :
    Ledger.empty.after (L.life o) = Ledger.empty :=
  ((hL o).resolve_right fun h => h.1 ho).2

theorem Balanced.wrong (hL : L.Balanced clean) {o : O} (ho : ¬clean o) :
    (Ledger.empty.after (L.life o)).bad ≠ [] :=
  ((hL o).resolve_left fun h => ho h.1).2.2

/-- A load that succeeds does nothing wrong. -/
theorem Balanced.loaded (hL : L.Balanced clean) {o : O} (hval : (L.init o).val = 0) :
    (Ledger.empty.after (L.init o).ops).bad = [] := by
  rcases hL o with ⟨-, heven⟩ | ⟨-, hloaded, -⟩
  · -- what was done wrong by then would be so in the end
    by_contra hbad
    have hlater := @Ledger.bad_after _ _ _ (L.exit o).ops hbad
    rw [← Ledger.after_append] at hlater
    rw [life, if_pos hval] at heven
    rw [heven] at hlater
    exact hlater rfl
  · exact hloaded hval

theorem Exact.bad (hL : L.Balanced clean) (h : L.Exact s) : s.ledger.bad = [] := by
  rw [Exact] at h
  cases hs : s.loaded with
  | none =>
    rw [hs] at h
    rw [h]
    rfl
  | some o =>
    rw [hs] at h
    rw [h.2]
    exact hL.loaded h.1

/-- **A step that ends a life cleanly, or none, keeps what is held exact.** -/
theorem Exact.step (hL : L.Balanced clean) (h : L.Exact s) (ha : L.EndsClean clean s a) :
    L.Exact (L.step s a) := by
  rw [Exact] at h
  cases a with
  | load o =>
    cases hs : s.loaded with
    | some o' =>
      simp only [Loader.step, hs]
      simpa only [Exact, hs] using h
    | none =>
      rw [hs] at h
      have hledger : s.ledger = Ledger.empty := h
      by_cases hval : (L.init o).val = 0
      · simp only [Loader.step, hs, if_pos hval, Exact]
        exact ⟨hval, by rw [hledger]⟩
      · have heven := hL.even (ha hs hval)
        rw [life, if_neg hval, List.append_nil] at heven
        simp only [Loader.step, hs, if_neg hval, Exact, hledger]
        exact heven
  | unload =>
    cases hs : s.loaded with
    | none =>
      simp only [Loader.step, hs]
      simpa only [Exact, hs] using h
    | some o =>
      rw [hs] at h
      have heven := hL.even (ha o hs)
      rw [life, if_pos h.1, Ledger.after_append, ← h.2] at heven
      simp only [Loader.step, hs, Exact]
      exact heven

/-- A step that does not does something wrong. -/
theorem Exact.bad_step (hL : L.Balanced clean) (h : L.Exact s) (ha : ¬L.EndsClean clean s a) :
    (L.step s a).ledger.bad ≠ [] := by
  rw [Exact] at h
  cases a with
  | load o =>
    simp only [EndsClean, Classical.not_imp] at ha
    obtain ⟨hs, hval, hclean⟩ := ha
    rw [hs] at h
    have hwrong := hL.wrong hclean
    rw [life, if_neg hval, List.append_nil] at hwrong
    simp only [Loader.step, hs]
    rwa [show s.ledger = Ledger.empty from h]
  | unload =>
    simp only [EndsClean, not_forall] at ha
    obtain ⟨o, hs, hclean⟩ := ha
    rw [hs] at h
    have hwrong := hL.wrong hclean
    rw [life, if_pos h.1, Ledger.after_append, ← h.2] at hwrong
    simpa only [Loader.step, hs] using hwrong

/-- What was done wrong stays. -/
theorem bad_step (h : s.ledger.bad ≠ []) (a : Act O) : (L.step s a).ledger.bad ≠ [] := by
  cases a with
  | load o =>
    rw [step]
    split
    · exact Ledger.bad_after h
    · exact h
  | unload =>
    rw [step]
    split
    · exact h
    · exact Ledger.bad_after h

theorem Exact.run (hL : L.Balanced clean) (acts : List (Act O)) (h : L.Exact s)
    (hacts : Along L.step (L.EndsClean clean) s acts) : L.Exact (run L.step s acts) :=
  run_invariant_along L.step (fun _ _ ha hs => hs.step hL ha) acts hacts h

/-- **Nothing is done wrong exactly as long as every life ends cleanly.** -/
theorem bad_run_iff (hL : L.Balanced clean) (acts : List (Act O)) (h : L.Exact s) :
    (run L.step s acts).ledger.bad = [] ↔ Along L.step (L.EndsClean clean) s acts := by
  induction acts generalizing s with
  | nil => exact iff_of_true (h.bad hL) trivial
  | cons a acts ih =>
    rw [run_cons, along_cons]
    by_cases ha : L.EndsClean clean s a
    · rw [ih (h.step hL ha)]
      exact (and_iff_right ha).symm
    · have hkeep : ∀ (t : State R O) b, t.ledger.bad ≠ [] → (L.step t b).ledger.bad ≠ [] :=
        fun t b ht => bad_step ht b
      have hbad := run_invariant L.step hkeep acts (h.bad_step hL ha)
      exact iff_of_false hbad fun hall => ha hall.1

end Loader

end KernelModules
