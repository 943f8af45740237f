import Mathlib.Data.Set.Card
import KernelModules.Lib.Run
import KernelModules.Lib.ModuleRef

/-!
# The references to the module of `char_device.c`

The file operations of the device name no owner, so that nothing keeps the module while its file
is open but the reference `device_open` takes itself – without a look at whether it got it – and
`device_release` gives back. The reference is taken and given back by code of the module, which
has to be there for that.

As long as the module is live this works: the count is that of the open files, and `rmmod` waits
for the last of them (`KernelModules.CharDevice.Reference.refs_count`). What goes wrong is an
`open` that has found the device and comes to `try_module_get` too late, and a `release` that has
not returned when the module is freed; nothing else does
(`KernelModules.CharDevice.Reference.references_exact`).
-/

namespace KernelModules

namespace CharDevice

namespace Reference

/-! ### The module and its files -/

/-- Where a file of the device stands. -/
inductive Place where
  /-- `open` has found the device, and `device_open` has not been run. -/
  | opening : Place
  /-- It is open; whether `try_module_get` has given a reference for it. -/
  | opened (pinned : Bool) : Place
  /-- In `device_release`, after `module_put`. -/
  | leaving : Place
deriving DecidableEq

/-- The module, and the files. -/
structure Sys where
  module : ModuleRef
  /-- The device is registered. -/
  registered : Bool
  /-- The files, by number. -/
  places : ℕ → Option Place

/-- What can happen next. -/
inductive Act where
  /-- An `open` of file `c` finds the device. -/
  | find (c : ℕ) : Act
  /-- `device_open`. -/
  | deviceOpen (c : ℕ) : Act
  /-- A `read`, a `write` or an `ioctl` on file `c`. -/
  | call (c : ℕ) : Act
  /-- `device_release`, with its `module_put`. -/
  | deviceRelease (c : ℕ) : Act
  /-- `device_release` returns. -/
  | ret (c : ℕ) : Act
  /-- `delete_module` finds the module unused. -/
  | rmmod : Act
  /-- `char_dev_exit`, which unregisters the device. -/
  | exit : Act
  /-- The module is freed after `char_dev_exit`. -/
  | free : Act
deriving DecidableEq

/-- File `c` moves. -/
def Sys.setPlace (s : Sys) (c : ℕ) (p : Option Place) : Sys :=
  { s with places := Function.update s.places c p }

/-- **One step.** -/
def step (s : Sys) : Act → Sys
  | .find c => if s.registered ∧ s.places c = none then s.setPlace c (some .opening) else s
  | .deviceOpen c =>
    if s.places c = some .opening then
      -- the outcome is not looked at
      { s.setPlace c (some (.opened s.module.tryGet.1)) with module := s.module.tryGet.2 }
    else s
  | .call _ => s
  | .deviceRelease c =>
    match s.places c with
    | some (.opened _) => { s.setPlace c (some .leaving) with module := s.module.put }
    | _ => s
  | .ret c => if s.places c = some .leaving then s.setPlace c none else s
  | .rmmod => { s with module := s.module.delete }
  | .exit => if s.module.state = .going then { s with registered := false } else s
  | .free => if s.registered then s else { s with module := s.module.free }

/-- The module has just been loaded. -/
def Sys.start : Sys := ⟨.loaded, true, fun _ => none⟩

/-- The file is open and has a reference. -/
def Sys.Pins (s : Sys) (c : ℕ) : Prop := s.places c = some (.opened true)

/-- **No code of the module is run once it is gone**, and no reference is given back that was not
taken. -/
def Safe (s : Sys) : Act → Prop
  | .deviceOpen c => s.places c = some .opening → s.module.state ≠ .gone
  | .call c => ∀ b, s.places c = some (.opened b) → s.module.state ≠ .gone
  | .deviceRelease c =>
    ∀ b, s.places c = some (.opened b) → s.module.state ≠ .gone ∧ s.module.refs ≠ 0
  | .ret c => s.places c = some .leaving → s.module.state ≠ .gone
  | _ => True

/-- **`device_open` is run in time**, and no file is between the beginning of `open` and the end of
`device_release` when the module is freed. -/
def InTime (s : Sys) : Act → Prop
  | .deviceOpen c => s.places c = some .opening → s.module.state = .live
  | .free => s.registered = false → s.module.state = .going → ∀ c, s.places c = none
  | _ => True

/-! ### The count -/

/-- **The references are those of the open files**, and a file without one was opened too late. -/
structure Counted (s : Sys) : Prop where
  counts : Counts s.module.refs s.Pins
  zero : s.module.state ≠ .live → s.module.refs = 0
  late : ∀ c, s.places c = some (.opened false) → s.module.state ≠ .live

theorem counted_start : Counted Sys.start where
  counts := Counts.zero_iff.mpr fun c h => absurd h (by simp [Sys.Pins, Sys.start])
  zero h := absurd rfl h
  late c h := absurd h (by simp [Sys.start])

/-- A file without a reference moves to a place that needs none. -/
theorem Counted.move {s : Sys} (h : Counted s) {c : ℕ} {p : Option Place} (hc : ¬s.Pins c)
    (hp : ∀ b, p ≠ some (.opened b)) : Counted (s.setPlace c p) where
  counts := h.counts.congr fun d => by
    rcases eq_or_ne d c with rfl | hne
    · simp only [Sys.Pins, Sys.setPlace, Function.update_self, hp, false_iff]
      exact hc
    · simp only [Sys.Pins, Sys.setPlace, Function.update_of_ne hne]
  zero := h.zero
  late d hd := by
    rcases eq_or_ne d c with rfl | hne
    · simp only [Sys.setPlace, Function.update_self] at hd
      exact absurd hd (hp false)
    · simp only [Sys.setPlace, Function.update_of_ne hne] at hd
      exact h.late d hd

/-- `device_open` takes a reference while the module is live, and goes on without one later. -/
theorem Counted.deviceOpen {s : Sys} (h : Counted s) (c : ℕ) :
    Counted (step s (.deviceOpen c)) := by
  simp only [step]
  split
  · have hc : ¬s.Pins c := by
      rw [Sys.Pins, ‹s.places c = some .opening›]
      simp
    by_cases hlive : s.module.state = .live
    · simp only [ModuleRef.tryGet_of_live hlive]
      refine ⟨h.counts.join hc fun d => ?_, fun hne => absurd hlive hne, fun d hd => ?_⟩
      · rcases eq_or_ne d c with rfl | hne
        · simp [Sys.Pins, Sys.setPlace]
        · simp [Sys.Pins, Sys.setPlace, hne]
      · rcases eq_or_ne d c with rfl | hne
        · simp [Sys.setPlace] at hd
        · simp only [Sys.setPlace, Function.update_of_ne hne] at hd
          exact h.late d hd
    · simp only [ModuleRef.tryGet_of_not_live hlive]
      refine ⟨h.counts.congr fun d => ?_, h.zero, fun _ _ => hlive⟩
      rcases eq_or_ne d c with rfl | hne
      · simpa [Sys.Pins, Sys.setPlace] using hc
      · simp only [Sys.Pins, Sys.setPlace, Function.update_of_ne hne]
  · exact h

/-- `device_release` gives the reference of the file back, if it has one. -/
theorem Counted.deviceRelease {s : Sys} (h : Counted s) (c : ℕ) :
    Counted (step s (.deviceRelease c)) := by
  have hlate : ∀ d, Function.update s.places c (some .leaving) d = some (.opened false) →
      s.module.state ≠ .live := by
    intro d hd
    rcases eq_or_ne d c with rfl | hne
    · simp at hd
    · rw [Function.update_of_ne hne] at hd
      exact h.late d hd
  simp only [step]
  split
  · rename_i pinned hplace
    refine ⟨?_, fun hne => ?_, hlate⟩
    · cases pinned with
      | true =>
        refine h.counts.leave hplace fun d => ?_
        rcases eq_or_ne d c with rfl | hne
        · simp [Sys.Pins, Sys.setPlace]
        · simp [Sys.Pins, Sys.setPlace, hne]
      | false =>
        -- there is no reference left to be given back
        have hzero := h.zero (h.late c hplace)
        have hcounts := h.counts
        simp only [ModuleRef.put, hzero] at hcounts ⊢
        refine hcounts.congr fun d => ?_
        rcases eq_or_ne d c with rfl | hne
        · simp [Sys.Pins, Sys.setPlace, hplace]
        · simp only [Sys.Pins, Sys.setPlace, Function.update_of_ne hne]
    · have hzero : s.module.refs = 0 := h.zero hne
      simp only [ModuleRef.put, hzero]
  · exact h

/-- **Every step keeps the count.** -/
theorem Counted.step {s : Sys} (h : Counted s) (a : Act) : Counted (Reference.step s a) := by
  cases a with
  | find c =>
    simp only [Reference.step]
    split
    · obtain ⟨-, hnone⟩ := ‹_ ∧ _›
      exact h.move (by simp [Sys.Pins, hnone]) (by simp)
    · exact h
  | deviceOpen c => exact h.deviceOpen c
  | call c => exact h
  | deviceRelease c => exact h.deviceRelease c
  | ret c =>
    simp only [Reference.step]
    split
    · exact h.move (by simp [Sys.Pins, ‹s.places c = _›]) (by simp)
    · exact h
  | rmmod =>
    refine ⟨?_, ModuleRef.delete_not_live h.zero, fun c hc => ?_⟩
    · rw [Reference.step, ModuleRef.refs_delete]
      exact h.counts
    · have hne := h.late c hc
      simp only [Reference.step, ModuleRef.delete]
      split
      · simp
      · exact hne
  | exit =>
    simp only [Reference.step]
    split
    · exact ⟨h.counts, h.zero, h.late⟩
    · exact h
  | free =>
    simp only [Reference.step]
    split
    · exact h
    · refine ⟨?_, fun hne => ?_, fun c hc => ?_⟩
      · rw [ModuleRef.refs_free]
        exact h.counts
      · rw [ModuleRef.refs_free]
        exact h.zero (mt ModuleRef.free_not_live.mpr hne)
      · exact mt ModuleRef.free_not_live.mp (h.late c hc)

theorem counted_run (acts : List Act) : Counted (run step Sys.start acts) :=
  run_invariant step (fun _ a hs => hs.step a) acts counted_start

/-- **`rmmod` waits for the last file.** On every schedule the count is the number of the open
files that have a reference, and when the module is not live any more there are none of them. -/
theorem refs_count (acts : List Act) :
    let s := run step Sys.start acts
    s.module.refs = Set.ncard {c | s.places c = some (.opened true)} ∧
      (s.module.state ≠ .live → ∀ c, s.places c ≠ some (.opened true)) := by
  intro s
  have h : Counted s := counted_run acts
  refine ⟨?_, fun hne => ?_⟩
  · obtain ⟨H, hcard, hmem⟩ := h.counts
    have hset : {c | s.places c = some (.opened true)} = ↑H := by
      ext c
      rw [Finset.mem_coe, hmem]
      rfl
    rw [hset, Set.ncard_coe_finset, hcard]
  · have hcounts := h.counts
    rw [h.zero hne] at hcounts
    exact Counts.zero_iff.mp hcounts

/-! ### What goes wrong -/

/-- **A file moves by its own calls.** -/
theorem place_step (s : Sys) (a : Act) (c : ℕ) :
    (step s a).places c = s.places c ∨ a = .find c ∧ s.places c = none ∨
      a = .deviceOpen c ∧ s.places c = some .opening ∨
      a = .deviceRelease c ∧ (∃ b, s.places c = some (.opened b)) ∨
      a = .ret c ∧ s.places c = some .leaving := by
  have hother : ∀ {d : ℕ} {p : Option Place}, d ≠ c → Function.update s.places d p c = s.places c :=
    fun hne => Function.update_of_ne hne.symm _ _
  cases a with
  | find d =>
    simp only [step]
    split
    · rcases eq_or_ne d c with rfl | hne
      · exact .inr (.inl ⟨rfl, ‹_ ∧ _›.2⟩)
      · exact .inl (hother hne)
    · exact .inl rfl
  | deviceOpen d =>
    simp only [step]
    split
    · rcases eq_or_ne d c with rfl | hne
      · exact .inr (.inr (.inl ⟨rfl, ‹_›⟩))
      · exact .inl (hother hne)
    · exact .inl rfl
  | deviceRelease d =>
    simp only [step]
    split
    · rename_i b hplace
      rcases eq_or_ne d c with rfl | hne
      · exact .inr (.inr (.inr (.inl ⟨rfl, b, hplace⟩)))
      · exact .inl (hother hne)
    · exact .inl rfl
  | ret d =>
    simp only [step]
    split
    · rcases eq_or_ne d c with rfl | hne
      · exact .inr (.inr (.inr (.inr ⟨rfl, ‹_›⟩)))
      · exact .inl (hother hne)
    · exact .inl rfl
  | call d => exact .inl rfl
  | rmmod => exact .inl rfl
  | exit | free =>
    simp only [step]
    split <;> exact .inl rfl

/-- A module that is gone stays so. -/
theorem gone_step {s : Sys} (h : s.module.state = .gone) (a : Act) :
    (step s a).module.state = .gone := by
  cases a with
  | find | ret | exit =>
    simp only [step]
    split <;> exact h
  | deviceOpen =>
    simp only [step]
    split
    · exact (ModuleRef.state_tryGet _).trans h
    · exact h
  | deviceRelease =>
    simp only [step]
    split <;> exact h
  | call => exact h
  | rmmod => simp [step, ModuleRef.delete, h]
  | free =>
    simp only [step]
    split
    · exact h
    · simp [ModuleRef.free, h]

/-- **A file is open without a reference, or has been left behind.** -/
def Stranded (s : Sys) : Prop :=
  ∃ c, s.places c = some (.opened false) ∨ s.module.state = .gone ∧ s.places c ≠ none

/-- It cannot be closed. -/
theorem Stranded.step {s : Sys} (hcounted : Counted s) (h : Stranded s) {a : Act}
    (hsafe : Safe s a) : Stranded (Reference.step s a) := by
  obtain ⟨c, hc⟩ := h
  refine ⟨c, ?_⟩
  have hplace := place_step s a c
  rcases hc with hlate | ⟨hgone, hleft⟩
  · refine .inl ?_
    rcases hplace with hsame | ⟨-, hp⟩ | ⟨-, hp⟩ | ⟨rfl, -⟩ | ⟨-, hp⟩
    · exact hsame.trans hlate
    · simp [hlate] at hp
    · simp [hlate] at hp
    · -- there is no reference left to be given back
      exact absurd (hcounted.zero (hcounted.late c hlate)) (hsafe false hlate).2
    · simp [hlate] at hp
  · refine .inr ⟨gone_step hgone a, ?_⟩
    rcases hplace with hsame | ⟨-, hp⟩ | ⟨rfl, hp⟩ | ⟨rfl, b, hp⟩ | ⟨rfl, hp⟩
    · rwa [hsame]
    · exact absurd hp hleft
    · exact absurd hgone (hsafe hp)
    · exact absurd hgone (hsafe b hp).1
    · exact absurd hgone (hsafe hp)

/-- What comes too late is stranded. -/
theorem stranded_of_late {s : Sys} {a : Act} (h : ¬InTime s a) : Stranded (step s a) := by
  cases a with
  | deviceOpen c =>
    simp only [InTime, Classical.not_imp] at h
    obtain ⟨hopening, hlive⟩ := h
    refine ⟨c, .inl ?_⟩
    simp [step, hopening, ModuleRef.tryGet_of_not_live hlive, Sys.setPlace]
  | free =>
    simp only [InTime, Classical.not_imp, not_forall] at h
    obtain ⟨hregistered, hgoing, c, hc⟩ := h
    refine ⟨c, .inr ?_⟩
    simpa [step, hregistered, ModuleRef.free, hgoing] using hc
  | find | call | deviceRelease | ret | rmmod | exit => exact absurd trivial h

/-- **Every open file has a reference**, and none is left behind. -/
structure Sound (s : Sys) : Prop where
  counted : Counted s
  pinned : ∀ c, s.places c ≠ some (.opened false)
  gone : s.module.state = .gone → s.registered = false ∧ ∀ c, s.places c = none

theorem sound_start : Sound Sys.start :=
  ⟨counted_start, by simp [Sys.start], by simp [Sys.start, ModuleRef.loaded]⟩

/-- A module with a file somewhere is not gone. -/
theorem Sound.not_gone {s : Sys} (h : Sound s) {c : ℕ} {p : Place} (hc : s.places c = some p) :
    s.module.state ≠ .gone := by
  intro hgone
  rw [(h.gone hgone).2 c] at hc
  contradiction

theorem Sound.safe {s : Sys} (h : Sound s) {a : Act} (hok : InTime s a) : Safe s a := by
  cases a with
  | deviceOpen c =>
    intro hopening hgone
    simp [hok hopening] at hgone
  | call c => exact fun b hb => h.not_gone hb
  | deviceRelease c =>
    intro b hb
    refine ⟨h.not_gone hb, ?_⟩
    cases b with
    | true => exact h.counted.counts.pos hb
    | false => exact absurd hb (h.pinned c)
  | ret c => exact fun hleaving => h.not_gone hleaving
  | find | rmmod | exit | free => trivial

/-- The device is not registered again. -/
theorem registered_step {s : Sys} (h : s.registered = false) (a : Act) :
    (step s a).registered = false := by
  cases a with
  | call | rmmod => exact h
  | find | deviceOpen | deviceRelease | ret | free =>
    simp only [step]
    split <;> exact h
  | exit =>
    simp only [step]
    split
    · rfl
    · exact h

/-- The module is freed after `char_dev_exit`, and at no other time. -/
theorem of_gone_step {s : Sys} {a : Act} (h : (step s a).module.state = .gone)
    (hs : s.module.state ≠ .gone) :
    a = .free ∧ s.registered = false ∧ s.module.state = .going := by
  cases a with
  | find | ret | exit =>
    simp only [step] at h
    split at h <;> exact absurd h hs
  | deviceOpen =>
    simp only [step] at h
    split at h
    · exact absurd ((ModuleRef.state_tryGet _).symm.trans h) hs
    · exact absurd h hs
  | deviceRelease =>
    simp only [step] at h
    split at h <;> exact absurd h hs
  | call => exact absurd h hs
  | rmmod =>
    simp only [step, ModuleRef.delete] at h
    split at h
    · simp at h
    · exact absurd h hs
  | free =>
    simp only [step] at h
    split at h
    · exact absurd h hs
    · refine ⟨rfl, by simpa using ‹¬s.registered = true›, ?_⟩
      simp only [ModuleRef.free] at h
      split at h
      · assumption
      · exact absurd h hs

/-- **In time**, every file gets its reference. -/
theorem Sound.step {s : Sys} (h : Sound s) {a : Act} (hok : InTime s a) :
    Sound (Reference.step s a) := by
  refine ⟨h.counted.step a, fun c hc => ?_, fun hgone => ?_⟩
  · rcases place_step s a c with hsame | ⟨rfl, hp⟩ | ⟨rfl, hp⟩ | ⟨rfl, b, hp⟩ | ⟨rfl, hp⟩
    · exact h.pinned c (hsame.symm.trans hc)
    · simp only [Reference.step] at hc
      split at hc
      · simp [Sys.setPlace] at hc
      · exact h.pinned c hc
    · simp [Reference.step, hp, ModuleRef.tryGet_of_live (hok hp), Sys.setPlace] at hc
    · simp [Reference.step, hp, Sys.setPlace] at hc
    · simp [Reference.step, hp, Sys.setPlace] at hc
  · by_cases hs : s.module.state = .gone
    · obtain ⟨hregistered, hnone⟩ := h.gone hs
      refine ⟨registered_step hregistered a, fun c => ?_⟩
      rcases place_step s a c with hsame | ⟨rfl, -⟩ | ⟨-, hp⟩ | ⟨-, b, hp⟩ | ⟨-, hp⟩
      · exact hsame.trans (hnone c)
      · simpa [Reference.step, hregistered] using hnone c
      · simp [hnone c] at hp
      · simp [hnone c] at hp
      · simp [hnone c] at hp
    · obtain ⟨rfl, hregistered, hgoing⟩ := of_gone_step hgone hs
      refine ⟨registered_step hregistered _, fun c => ?_⟩
      have hnone := hok hregistered hgoing c
      simpa [Reference.step, hregistered] using hnone

/-- **When the module goes wrong.** On every schedule after which all files are closed, the code of
the module is only run, and references only given back, while they are there if and only if every
`device_open` was run while the module was live, and no file was between the beginning of `open`
and the end of `device_release` when the module was freed. -/
theorem references_exact {acts : List Act}
    (hclosed : ∀ c, (run step Sys.start acts).places c = none) :
    Along step Safe Sys.start acts ↔ Along step InTime Sys.start acts := by
  constructor
  · intro hsafe
    by_contra hlate
    obtain ⟨c, hc⟩ := run_of_miss step (fun _ a hs => Counted.step hs a)
      (fun _ _ _ => stranded_of_late) (fun _ _ hs hok hd => hd.step hs hok) acts counted_start
      hsafe hlate
    rcases hc with hopen | ⟨-, hleft⟩
    · simp [hclosed c] at hopen
    · exact hleft (hclosed c)
  · intro hok
    exact along_of_invariant step (fun _ _ hok hs => Sound.step hs hok)
      (fun _ _ hok hs => hs.safe hok) acts hok sound_start

/-- A file is opened while `char_dev_exit` has yet to be run: there is no reference to be had,
and none to be given back. -/
theorem references_late :
    ¬Along step Safe Sys.start [.find 0, .rmmod, .deviceOpen 0, .deviceRelease 0, .ret 0] := by
  have hclosed : ∀ c, (run step Sys.start
      [.find 0, .rmmod, .deviceOpen 0, .deviceRelease 0, .ret 0]).places c = none := by
    intro c
    rcases eq_or_ne c 0 with rfl | hne <;>
      simp [step, Sys.start, ModuleRef.loaded, ModuleRef.delete, ModuleRef.tryGet, Sys.setPlace]
  rw [references_exact hclosed]
  simp [InTime, step, Sys.start, ModuleRef.loaded, ModuleRef.delete, Sys.setPlace]

end Reference

end CharDevice

end KernelModules
