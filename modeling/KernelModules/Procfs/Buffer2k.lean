import KernelModules.Lib.Memory

/-!
# `/proc/buffer2k`

`kernel_pseudo_filesystem/procfs_3.c`: a buffer of 2048 bytes that is written to and read
from as one file, with its length in `procfs_buffer_size`. Neither of the two functions is
quite right.

* `procfs_write` calls `copy_to_user` where it should call `copy_from_user`, so that the
  kernel's own buffer is taken for an address of the user. Nothing is copied, and the length
  has been changed by then: `KernelModules.Procfs.round_trips_exact`.
* `procfs_read` cuts the length down to what has been asked for, not only what it copies but
  `procfs_buffer_size` itself. What is left for others depends on it:
  `KernelModules.Procfs.undisturbed_exact`.
-/

namespace KernelModules

namespace Procfs

/-! ### The two functions -/

/-- `EFAULT`. -/
def efault : ℤ := 14

/-- `PROCFS_MAX_SIZE`. -/
def procfsMaxSize : ℕ := 2048

/-- The variables of the module. -/
structure Vars where
  /-- `procs_buffer`. -/
  buffer : ℕ → BitVec 8
  /-- `procfs_buffer_size`. -/
  size : ℕ

/-- The variables when the module is loaded. -/
def Vars.start : Vars := ⟨fun _ => 0, 0⟩

/-- Where a pointer leads to. -/
inductive Space where
  /-- The user's memory; `fault` says that it cannot be written. -/
  | user (fault : Bool) : Space
  /-- The kernel's. -/
  | kernel : Space

/-- `copy_to_user`: how many of the bytes it has not copied. An address of the kernel is
refused. -/
def copyToUser (dest : Space) (n : ℕ) : ℕ :=
  match dest with
  | .user fault => if fault then n else 0
  | .kernel => n

/-- What a call leads to. -/
structure Outcome where
  /-- What it returns. -/
  ret : ℤ
  /-- What it has put in the user's buffer. -/
  out : List (BitVec 8)
  /-- `*offset`. -/
  offset : ℕ
  /-- The variables. -/
  vars : Vars

/-- `procfs_read`. -/
def procfsRead (v : Vars) (length offset : ℕ) (fault : Bool) : Outcome :=
  if offset ≠ 0 ∨ v.size = 0 then ⟨0, [], 0, v⟩
  else
    let v := { v with size := min v.size length }
    if copyToUser (.user fault) v.size ≠ 0 then ⟨-efault, [], offset, v⟩
    else ⟨v.size, load v.buffer 0 v.size, offset + v.size, v⟩

/-- `procfs_write`: what is in the user's memory does not come into it. -/
def procfsWrite (v : Vars) (length offset : ℕ) : Outcome :=
  let v := { v with size := min procfsMaxSize length }
  if copyToUser .kernel v.size ≠ 0 then ⟨-efault, [], offset, v⟩
  else ⟨v.size, [], offset + v.size, v⟩

/-! ### Writing and reading back -/

/-- **What is written can be read back**: a write that does not fail takes as much as there is
room for, and a read gives it back; one of memory that can be read does not fail; and one
that fails changes nothing. -/
structure RoundTrips (v : Vars) (str : List (BitVec 8)) (readable : Prop) : Prop where
  stored : ∀ offset, 0 ≤ (procfsWrite v str.length offset).ret →
    (procfsWrite v str.length offset).ret = min procfsMaxSize str.length ∧
      ∀ length, min procfsMaxSize str.length ≤ length →
        (procfsRead (procfsWrite v str.length offset).vars length 0 false).ret
          = min procfsMaxSize str.length ∧
        (procfsRead (procfsWrite v str.length offset).vars length 0 false).out
          = str.take procfsMaxSize
  succeeds : readable → ∀ offset, 0 ≤ (procfsWrite v str.length offset).ret
  unchanged : ∀ offset, (procfsWrite v str.length offset).ret = -efault →
    (procfsWrite v str.length offset).vars = v

/-- A write of something fails, and changes the length. -/
theorem procfsWrite_of_pos (v : Vars) {length : ℕ} (h : 0 < length) (offset : ℕ) :
    procfsWrite v length offset =
      ⟨-efault, [], offset, { v with size := min procfsMaxSize length }⟩ := by
  have hsize : min procfsMaxSize length ≠ 0 := by
    have : 0 < procfsMaxSize := by decide
    omega
  simp [procfsWrite, copyToUser, hsize]

/-- A write of nothing. -/
theorem procfsWrite_zero (v : Vars) (offset : ℕ) :
    procfsWrite v 0 offset = ⟨0, [], offset, { v with size := 0 }⟩ := by
  simp [procfsWrite, copyToUser]

/-- A call on the file. -/
inductive Call where
  /-- `procfs_read`. -/
  | read (length offset : ℕ) (fault : Bool) : Call
  /-- `procfs_write`. -/
  | write (length offset : ℕ) : Call

/-- The variables it leaves. -/
def perform (v : Vars) : Call → Vars
  | .read length offset fault => (procfsRead v length offset fault).vars
  | .write length offset => (procfsWrite v length offset).vars

/-- **What is written can be read back if it is nothing**, or if the write has to fail and the
length is by chance the one it stores. -/
theorem round_trips_exact (calls : List Call) (str : List (BitVec 8)) (readable : Prop) :
    RoundTrips (run perform Vars.start calls) str readable ↔
      str = [] ∨ ¬readable ∧
        (run perform Vars.start calls).size = min procfsMaxSize str.length := by
  generalize run perform Vars.start calls = v
  rcases eq_or_ne str [] with rfl | hne
  · refine iff_of_true ⟨fun offset _ => ?_, fun _ offset => ?_, fun offset hret => ?_⟩ (.inl rfl)
    · rw [List.length_nil, procfsWrite_zero]
      refine ⟨by simp, fun length _ => ?_⟩
      simp [procfsRead]
    · simp [procfsWrite_zero]
    · exact absurd hret (by simp [procfsWrite_zero, efault])
  · have hpos : 0 < str.length := List.length_pos_iff.mpr hne
    have hwrite := procfsWrite_of_pos v hpos
    constructor
    · intro h
      refine .inr ⟨fun hread => ?_, ?_⟩
      · have hret := h.succeeds hread 0
        exact absurd hret (by simp [hwrite, efault])
      · have hsame := h.unchanged 0 (by rw [hwrite])
        rw [hwrite] at hsame
        exact (congrArg Vars.size hsame).symm
    · rintro (hnil | ⟨hread, hsize⟩)
      · exact absurd hnil hne
      · refine ⟨fun offset hret => ?_, fun hr => absurd hr hread, fun offset _ => ?_⟩
        · exact absurd hret (by simp [hwrite, efault])
        · rw [hwrite, ← hsize]

/-- A write that has to fail, after another of the same length. -/
theorem round_trips_again :
    RoundTrips (run perform Vars.start [.write 2 0]) [104, 105] False :=
  (round_trips_exact [.write 2 0] [104, 105] False).mpr (.inr ⟨id, rfl⟩)

/-- **The first write.** The user's two bytes can be read, and the write fails, leaving a
length of 2. -/
theorem write_never_stores :
    (procfsWrite Vars.start 2 0).ret = -efault ∧ (procfsWrite Vars.start 2 0).vars.size = 2 ∧
      ¬RoundTrips (run perform Vars.start []) [104, 105] True := by
  refine ⟨by decide, by decide, fun h => ?_⟩
  exact absurd (h.succeeds trivial 0) (by decide)

/-! ### Reading, in pieces and by many -/

/-- The module and its open files. -/
structure Files where
  /-- The variables. -/
  vars : Vars
  /-- The offset of each file. -/
  offsets : ℕ → ℕ

/-- All files are at the start. -/
def Files.start (v : Vars) : Files := ⟨v, fun _ => 0⟩

/-- A read. -/
structure Read where
  /-- The file. -/
  file : ℕ
  /-- How much is asked for. -/
  length : ℕ

/-- What a read leads to. -/
def outcome (s : Files) (a : Read) : Outcome :=
  procfsRead s.vars a.length (s.offsets a.file) false

/-- **One step.** -/
def step (s : Files) (a : Read) : Files :=
  ⟨(outcome s a).vars, Function.update s.offsets a.file (outcome s a).offset⟩

/-- What a read of one file returns and copies. -/
def got (f : ℕ) (s : Files) (a : Read) : Option (ℤ × List (BitVec 8)) :=
  if a.file = f then some ((outcome s a).ret, (outcome s a).out) else none

/-- What reads have copied before the first that returns 0; `none` if there is no such read. -/
def untilZero : List (ℤ × List (BitVec 8)) → Option (List (BitVec 8))
  | [] => none
  | (ret, out) :: rest => if ret = 0 then some [] else (untilZero rest).map (out ++ ·)

/-- **Reading disturbs nobody**: it leaves the variables as they are, and every file gets what
is in the buffer. -/
structure Undisturbed (v : Vars) (reads : List Read) : Prop where
  vars : (run step (Files.start v) reads).vars = v
  whole : ∀ f str, untilZero (trace step (got f) (Files.start v) reads) = some str →
    str = load v.buffer 0 v.size

/-- A read from the start asks for all there is. -/
def AsksAll (s : Files) (a : Read) : Prop := s.offsets a.file = 0 → s.vars.size ≤ a.length

/-- A read from the start that asks for all there is gets it. -/
theorem outcome_of_asksAll {s : Files} {a : Read} (hsize : s.vars.size ≠ 0)
    (hoffset : s.offsets a.file = 0) (hlen : s.vars.size ≤ a.length) :
    outcome s a = ⟨s.vars.size, load s.vars.buffer 0 s.vars.size, s.vars.size, s.vars⟩ := by
  rw [outcome, procfsRead, if_neg (by simp [hoffset, hsize])]
  simp [copyToUser, hoffset, Nat.min_eq_left hlen]

/-- Another read gets nothing. -/
theorem outcome_of_end {s : Files} {a : Read} (h : s.offsets a.file ≠ 0 ∨ s.vars.size = 0) :
    outcome s a = ⟨0, [], 0, s.vars⟩ := by
  rw [outcome, procfsRead, if_pos h]

/-- A read from the start that asks for less cuts the length down. -/
theorem size_of_not_asksAll {s : Files} {a : Read} (h : ¬AsksAll s a) :
    (step s a).vars.size < s.vars.size := by
  rw [AsksAll] at h
  push Not at h
  obtain ⟨hoffset, hlt⟩ := h
  have hmin : min s.vars.size a.length = a.length := by omega
  rw [step, outcome, procfsRead, if_neg (by simp [hoffset]; omega)]
  simpa [copyToUser, hmin] using hlt

/-- No read makes the length longer. -/
theorem size_step_le (s : Files) (a : Read) : (step s a).vars.size ≤ s.vars.size := by
  by_cases hall : AsksAll s a
  · by_cases hend : s.offsets a.file ≠ 0 ∨ s.vars.size = 0
    · rw [step, outcome_of_end hend]
    · push Not at hend
      rw [step, outcome_of_asksAll hend.2 hend.1 (hall hend.1)]
  · exact (size_of_not_asksAll hall).le

theorem size_run_le : ∀ (reads : List Read) (s : Files),
    (run step s reads).vars.size ≤ s.vars.size
  | [], _ => le_rfl
  | a :: reads, s => (size_run_le reads (step s a)).trans (size_step_le s a)

/-- **The length does not recover.** -/
theorem size_run_lt : ∀ {reads : List Read} {s : Files}, ¬Along step AsksAll s reads →
    (run step s reads).vars.size < s.vars.size
  | [], _, h => absurd trivial h
  | a :: reads, s, h => by
    by_cases hall : AsksAll s a
    · have hrest : ¬Along step AsksAll (step s a) reads := fun hrest => h ⟨hall, hrest⟩
      exact (size_run_lt hrest).trans_le (size_step_le s a)
    · exact (size_run_le reads (step s a)).trans_lt (size_of_not_asksAll hall)

/-- **A read that asks for all there is**, or from elsewhere, leaves the variables alone. -/
theorem vars_of_asksAll {s : Files} {a : Read} (h : AsksAll s a) :
    (step s a).vars = s.vars := by
  by_cases hend : s.offsets a.file ≠ 0 ∨ s.vars.size = 0
  · rw [step, outcome_of_end hend]
  · push Not at hend
    rw [step, outcome_of_asksAll hend.2 hend.1 (h hend.1)]

/-- What a file is still to get: all there is, from the start, and nothing from elsewhere. -/
def left (s : Files) (f : ℕ) : List (BitVec 8) :=
  if s.offsets f = 0 then load s.vars.buffer 0 s.vars.size else []

/-- A read of another file changes nothing for this one. -/
theorem left_of_ne {s : Files} {a : Read} (h : AsksAll s a) {f : ℕ} (hne : f ≠ a.file) :
    left (step s a) f = left s f := by
  have hoffset : (step s a).offsets f = s.offsets f := Function.update_of_ne hne ..
  rw [left, left, hoffset, vars_of_asksAll h]

/-- **What a file gets before the first 0 is what it was to get.** -/
theorem untilZero_of_asksAll (f : ℕ) : ∀ {reads : List Read} {s : Files} {str : List (BitVec 8)},
    Along step AsksAll s reads → untilZero (trace step (got f) s reads) = some str →
      str = left s f
  | [], _, _, _, hstr => absurd hstr (by simp [trace, untilZero])
  | a :: reads, s, str, ⟨hall, hrest⟩, hstr => by
    rcases eq_or_ne a.file f with rfl | hne
    · simp only [trace, got, if_true, Option.toList_some, List.singleton_append] at hstr
      by_cases hend : s.offsets a.file ≠ 0 ∨ s.vars.size = 0
      · rw [outcome_of_end hend, untilZero, if_pos rfl] at hstr
        obtain rfl := Option.some.inj hstr
        rw [left]
        split
        · rename_i hoffset
          rw [hend.resolve_left (by simp [hoffset]), load_zero]
        · rfl
      · push Not at hend
        have hout := outcome_of_asksAll hend.2 hend.1 (hall hend.1)
        rw [hout, untilZero, if_neg (by simpa using hend.2)] at hstr
        obtain ⟨rest, hnext, rfl⟩ := Option.map_eq_some_iff.mp hstr
        -- the file is at its end now
        have hdone : left (step s a) a.file = [] := by
          have hoffset : (step s a).offsets a.file = s.vars.size := by
            rw [step, hout]
            exact Function.update_self ..
          rw [left, hoffset, if_neg hend.2]
        rw [untilZero_of_asksAll a.file hrest hnext, hdone, List.append_nil, left, if_pos hend.1]
    · simp only [trace, got, if_neg hne, Option.toList_none, List.nil_append] at hstr
      rw [untilZero_of_asksAll f hrest hstr, left_of_ne hall hne.symm]

/-- **Reading disturbs nobody exactly if every read from the start asks for all there is.** -/
theorem undisturbed_exact (v : Vars) (reads : List Read) :
    Undisturbed v reads ↔ Along step AsksAll (Files.start v) reads := by
  constructor
  · intro h
    by_contra hbad
    have hlt := size_run_lt hbad
    rw [h.vars] at hlt
    exact absurd hlt (lt_irrefl _)
  · intro hall
    refine ⟨?_, fun f str hstr => ?_⟩
    · have hstep : ∀ s a, AsksAll s a → s.vars = v → (step s a).vars = v :=
        fun s a ha hs => (vars_of_asksAll ha).trans hs
      exact run_invariant_along step hstep reads hall rfl
    · rw [untilZero_of_asksAll f hall hstr]
      rfl

/-- "hello", in a buffer. -/
def hello : Vars := ⟨fun i => [104, 101, 108, 108, 111].getD i 0, 5⟩

/-- **Two bytes, and then the rest.** The file gets "he" and the end, and "he" is all that is
left for others. -/
theorem reading_destroys :
    untilZero (trace step (got 0) (Files.start hello) [⟨0, 2⟩, ⟨0, 100⟩]) = some [104, 101] ∧
      (run step (Files.start hello) [⟨0, 2⟩, ⟨0, 100⟩]).vars.size = 2 ∧
      ¬Undisturbed hello [⟨0, 2⟩, ⟨0, 100⟩] := by
  refine ⟨by decide, by decide, fun h => ?_⟩
  exact absurd (congrArg Vars.size h.vars) (by decide)

end Procfs

end KernelModules
