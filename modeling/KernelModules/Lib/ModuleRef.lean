import Mathlib.Data.Finset.Card
import Mathlib.Logic.Function.Basic

/-!
# What is kept by a count of references

A module may be unloaded when the count of the references to it is zero. From then on no
reference is given any more, and whoever asks for one has to give up; the code is gone some time
later. This is the count (`KernelModules.ModuleRef`), and what it is good for: as long as it
counts the parties that hold a reference (`KernelModules.Counts`), there are none when it is zero.
-/

namespace KernelModules

/-! ### Counting the holders -/

/-- **The number counts those that hold a reference.** -/
def Counts (n : ℕ) (holds : ℕ → Prop) : Prop :=
  ∃ H : Finset ℕ, H.card = n ∧ ∀ c, c ∈ H ↔ holds c

namespace Counts

variable {n : ℕ} {holds holds' : ℕ → Prop} {c : ℕ}

/-- At zero there is none. -/
theorem zero_iff : Counts 0 holds ↔ ∀ c, ¬holds c := by
  constructor
  · rintro ⟨H, hcard, hmem⟩ c hc
    rw [Finset.card_eq_zero.mp hcard] at hmem
    exact Finset.notMem_empty c ((hmem c).mpr hc)
  · intro h
    exact ⟨∅, rfl, fun c =>
      ⟨fun hc => absurd hc (Finset.notMem_empty c), fun hc => absurd hc (h c)⟩⟩

theorem congr (h : Counts n holds) (hiff : ∀ d, holds' d ↔ holds d) : Counts n holds' := by
  obtain ⟨H, hcard, hmem⟩ := h
  exact ⟨H, hcard, fun d => (hmem d).trans (hiff d).symm⟩

/-- **One more takes a reference.** -/
theorem join (h : Counts n holds) (hc : ¬holds c) (hiff : ∀ d, holds' d ↔ d = c ∨ holds d) :
    Counts (n + 1) holds' := by
  obtain ⟨H, hcard, hmem⟩ := h
  refine ⟨insert c H, ?_, fun d => ?_⟩
  · rw [Finset.card_insert_of_notMem (mt (hmem c).mp hc), hcard]
  · rw [Finset.mem_insert, hmem, hiff]

/-- **One of them gives its reference back.** -/
theorem leave (h : Counts n holds) (hc : holds c) (hiff : ∀ d, holds' d ↔ d ≠ c ∧ holds d) :
    Counts (n - 1) holds' := by
  obtain ⟨H, hcard, hmem⟩ := h
  refine ⟨H.erase c, ?_, fun d => ?_⟩
  · rw [Finset.card_erase_of_mem ((hmem c).mpr hc), hcard]
  · rw [Finset.mem_erase, hmem, hiff]

/-- Whoever holds one is counted. -/
theorem pos (h : Counts n holds) (hc : holds c) : n ≠ 0 := by
  rintro rfl
  exact zero_iff.mp h c hc

end Counts

/-! ### The references to a module -/

/-- How far a module has come. -/
inductive ModuleState where
  /-- References are given. -/
  | live : ModuleState
  /-- It is being unloaded. -/
  | going : ModuleState
  /-- Its code is not there any more. -/
  | gone : ModuleState
deriving DecidableEq

/-- A module, and the references to it. -/
structure ModuleRef where
  state : ModuleState
  refs : ℕ
deriving DecidableEq

namespace ModuleRef

/-- The module has just been loaded. -/
def loaded : ModuleRef := ⟨.live, 0⟩

/-- `try_module_get`: whether there is a reference to be had, and the module afterwards. -/
def tryGet (m : ModuleRef) : Bool × ModuleRef :=
  if m.state = .live then (true, { m with refs := m.refs + 1 }) else (false, m)

/-- `module_put`. -/
def put (m : ModuleRef) : ModuleRef := { m with refs := m.refs - 1 }

/-- `delete_module`, before the exit function of the module is called. -/
def delete (m : ModuleRef) : ModuleRef :=
  if m.state = .live ∧ m.refs = 0 then { m with state := .going } else m

/-- The memory of the module is given back. -/
def free (m : ModuleRef) : ModuleRef :=
  if m.state = .going then { m with state := .gone } else m

theorem tryGet_of_live {m : ModuleRef} (h : m.state = .live) :
    m.tryGet = (true, { m with refs := m.refs + 1 }) := if_pos h

theorem tryGet_of_not_live {m : ModuleRef} (h : m.state ≠ .live) : m.tryGet = (false, m) := if_neg h

@[simp] theorem state_tryGet (m : ModuleRef) : m.tryGet.2.state = m.state := by
  rw [tryGet]
  split <;> rfl

@[simp] theorem refs_delete (m : ModuleRef) : m.delete.refs = m.refs := by
  rw [delete]
  split <;> rfl

@[simp] theorem refs_free (m : ModuleRef) : m.free.refs = m.refs := by
  rw [free]
  split <;> rfl

/-- **A module that is not live any more was not referred to** when it ceased to be, and is not
live again. -/
theorem delete_not_live {m : ModuleRef} (h : m.state ≠ .live → m.refs = 0) :
    m.delete.state ≠ .live → m.delete.refs = 0 := by
  rw [delete]
  split
  · exact fun _ => ‹_ ∧ _›.2
  · exact h

theorem free_not_live {m : ModuleRef} : m.free.state = .live ↔ m.state = .live := by
  rw [free]
  split
  · rename_i hgoing
    simp [hgoing]
  · exact Iff.rfl

end ModuleRef

end KernelModules
