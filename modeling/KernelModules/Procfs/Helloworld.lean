import Mathlib.Data.List.TakeWhile
import KernelModules.Procfs.Buffer2k

/-!
# `/proc/helloworld` and `/proc/buffer1k`

`kernel_pseudo_filesystem/procfs_1.c` and `procfs_2.c`. Both files read as the same 13 bytes,
with the same function, which does not look at how much it has been asked for: a caller with
less room than that has the rest written behind its buffer
(`KernelModules.Procfs.Greeting.respects_exact`).

`/proc/buffer1k` can also be written to. Nothing of it is ever read back, but it is printed,
and stays a string inside its buffer: `KernelModules.Procfs.Greeting.Buffer1k.printable_run`.
-/

namespace KernelModules

namespace Procfs

namespace Greeting

/-! ### Reading -/

/-- `s`, `"HelloWorld!\n"` with the NUL at its end. -/
def s : List (BitVec 8) := [72, 101, 108, 108, 111, 87, 111, 114, 108, 100, 33, 10, 0]

/-- `sizeof(s)`. -/
def len : ℕ := 13

/-- What a read leads to. -/
structure Outcome where
  /-- What it returns. -/
  ret : ℤ
  /-- What it has put in the user's memory, from `buffer` on. -/
  out : List (BitVec 8)
  /-- `*offset`. -/
  offset : ℕ

/-- What the two functions named `procfile_read` do, which is the same. -/
def readString (_bufferLength offset : ℕ) (fault : Bool) : Outcome :=
  if len ≤ offset ∨ copyToUser (.user fault) len ≠ 0 then ⟨0, [], offset⟩
  else ⟨len, s, offset + len⟩

/-- `procfile_read` of `procfs_1.c`. -/
def Helloworld.procfileRead : ℕ → ℕ → Bool → Outcome := readString

/-- `procfile_read` of `procfs_2.c`. -/
def Buffer1k.procfileRead : ℕ → ℕ → Bool → Outcome := readString

/-- The two files. -/
inductive Entry where
  /-- `/proc/helloworld`. -/
  | helloworld : Entry
  /-- `/proc/buffer1k`. -/
  | buffer1k : Entry

/-- `proc_read`. -/
def Entry.procRead : Entry → ℕ → ℕ → Bool → Outcome
  | .helloworld => Helloworld.procfileRead
  | .buffer1k => Buffer1k.procfileRead

/-- A read without a fault. -/
def outcome (e : Entry) (offset bufferLength : ℕ) : Outcome := e.procRead bufferLength offset false

/-- **One step**: the file keeps its offset. -/
def step (e : Entry) (offset bufferLength : ℕ) : ℕ := (outcome e offset bufferLength).offset

/-- What a read returns and copies. -/
def got (e : Entry) (offset bufferLength : ℕ) : Option (ℤ × List (BitVec 8)) :=
  some ((outcome e offset bufferLength).ret, (outcome e offset bufferLength).out)

/-- A read keeps inside the buffer it was given. -/
def Within (e : Entry) (offset bufferLength : ℕ) : Prop :=
  (outcome e offset bufferLength).out.length ≤ bufferLength ∧
    (outcome e offset bufferLength).ret ≤ bufferLength

/-- **Reading respects the caller's buffer**: it keeps inside it, and what has come before the
first 0 is the string. -/
structure Respects (e : Entry) (lengths : List ℕ) : Prop where
  within : Along (step e) (Within e) 0 lengths
  whole : ∀ str, untilZero (trace (step e) (got e) 0 lengths) = some str → str = s

section

variable (e : Entry) (bufferLength : ℕ)

theorem outcome_start : outcome e 0 bufferLength = ⟨len, s, len⟩ := by
  cases e <;> rfl

theorem outcome_end : outcome e len bufferLength = ⟨0, [], len⟩ := by
  cases e <;> rfl

/-- After the first read the file is at its end: it stays there. -/
theorem within_end : ∀ lengths : List ℕ, Along (step e) (Within e) len lengths
  | [] => trivial
  | bufferLength :: lengths => by
    have hstep : step e len bufferLength = len := congrArg Outcome.offset (outcome_end e _)
    refine ⟨?_, hstep.symm ▸ within_end lengths⟩
    rw [Within, outcome_end]
    exact ⟨Nat.zero_le _, Int.natCast_nonneg _⟩

/-- Nothing comes from there. -/
theorem untilZero_end {lengths : List ℕ} {str : List (BitVec 8)}
    (h : untilZero (trace (step e) (got e) len lengths) = some str) : str = [] := by
  cases lengths with
  | nil => exact absurd h (by simp [trace, untilZero])
  | cons bufferLength lengths =>
    simp only [trace, got, outcome_end, Option.toList_some, List.singleton_append, untilZero,
      if_true] at h
    exact (Option.some.inj h).symm

end

/-- **The caller's buffer is respected if nothing is read or the first read has room for the
whole string, and only then**: the others find the file at its end. -/
theorem respects_exact (e : Entry) (lengths : List ℕ) :
    Respects e lengths ↔ ∀ bufferLength ∈ lengths.head?, len ≤ bufferLength := by
  cases lengths with
  | nil =>
    refine iff_of_true ⟨trivial, fun str h => ?_⟩ (by simp)
    exact absurd h (by simp [trace, untilZero])
  | cons bufferLength lengths =>
    have hstep : step e 0 bufferLength = len := congrArg Outcome.offset (outcome_start e _)
    simp only [List.head?_cons, Option.mem_def, Option.some.injEq, forall_eq']
    constructor
    · intro h
      have hfirst := h.within.1.1
      rwa [outcome_start] at hfirst
    · intro hlen
      refine ⟨⟨?_, hstep.symm ▸ within_end e lengths⟩, fun str h => ?_⟩
      · rw [Within, outcome_start]
        exact ⟨hlen, Int.ofNat_le.mpr hlen⟩
      · rw [trace, hstep] at h
        simp only [got, outcome_start, Option.toList_some, List.singleton_append, untilZero] at h
        rw [if_neg (by decide)] at h
        obtain ⟨rest, hrest, rfl⟩ := Option.map_eq_some_iff.mp h
        rw [untilZero_end e hrest, List.append_nil]

/-- Five bytes are asked for and 13 come. -/
theorem read_overruns :
    (outcome .helloworld 0 5).out = s ∧ (outcome .helloworld 0 5).ret = 13 ∧
      (outcome .buffer1k 0 5).out = s ∧ (outcome .buffer1k 0 5).ret = 13 ∧
      ¬Respects .helloworld [5] ∧ ¬Respects .buffer1k [5] := by
  refine ⟨rfl, rfl, rfl, rfl, fun h => ?_, fun h => ?_⟩
  · exact absurd h.within.1.1 (by decide)
  · exact absurd h.within.1.1 (by decide)

/-! ### Writing -/

namespace Buffer1k

/-- `PROCFS_MAX_SIZE`. -/
def procfsMaxSize : ℕ := 1024

/-- The variables of the module. -/
structure Vars where
  /-- `procfs_buffer`, and the memory behind it. -/
  buffer : ℕ → BitVec 8
  /-- `procfs_buffer_size`. -/
  size : ℕ

/-- The variables when the module is loaded; `beyond` is the memory behind the buffer. -/
def Vars.start (beyond : ℕ → BitVec 8) : Vars :=
  ⟨fun i => if i < procfsMaxSize then 0 else beyond i, 0⟩

/-- A call of `write(2)`. -/
structure Write where
  /-- The user's memory, from `buffer` on: the bytes that can be read. -/
  user : ℕ → Option (BitVec 8)
  /-- `buffer_length`. -/
  bufferLength : ℕ
  /-- `*offset`. -/
  offset : ℕ

/-- What a write leads to. -/
structure Written where
  /-- What it returns. -/
  ret : ℤ
  /-- `*offset`. -/
  offset : ℕ
  /-- The variables. -/
  vars : Vars

/-- How many bytes `copy_from_user` can read. -/
def readable (user : ℕ → Option (BitVec 8)) (n : ℕ) : ℕ :=
  ((List.range n).takeWhile fun i => (user i).isSome).length

/-- What `copy_from_user` leaves: zeros take the place of what it has not copied. -/
def copied (m : ℕ → BitVec 8) (user : ℕ → Option (BitVec 8)) (n : ℕ) : ℕ → BitVec 8 :=
  store m 0 n fun i => if i < readable user n then (user i).getD 0 else 0

/-- `copy_from_user`: how many bytes it has not copied, and what it leaves. -/
def copyFromUser (m : ℕ → BitVec 8) (user : ℕ → Option (BitVec 8)) (n : ℕ) :
    ℕ × (ℕ → BitVec 8) := (n - readable user n, copied m user n)

theorem copied_outside {m : ℕ → BitVec 8} {user : ℕ → Option (BitVec 8)} {n i : ℕ} (h : n ≤ i) :
    copied m user n i = m i := store_outside (by omega)

theorem copied_inside {m : ℕ → BitVec 8} {user : ℕ → Option (BitVec 8)} {n i : ℕ} (h : i < n)
    (hread : i < readable user n) : copied m user n i = (user i).getD 0 := by
  rw [copied, store_inside (Nat.zero_le i) (by omega), Nat.sub_zero, if_pos hread]

/-- How much of a write is kept. -/
def kept (bufferLength : ℕ) : ℕ :=
  if procfsMaxSize ≤ bufferLength then procfsMaxSize - 1 else bufferLength

/-- `procfile_write`. -/
def procfileWrite (v : Vars) (w : Write) : Written :=
  let size := kept w.bufferLength
  let copy := copyFromUser v.buffer w.user size
  if copy.1 ≠ 0 then ⟨-efault, w.offset, ⟨copy.2, size⟩⟩
  else ⟨size, w.offset + size, ⟨Function.update copy.2 size 0, size⟩⟩

/-- **What is printed is a string**: there is a NUL at the end of the buffer, and nothing behind
it is written. -/
structure Printable (beyond : ℕ → BitVec 8) (v : Vars) : Prop where
  size : v.size < procfsMaxSize
  final : v.buffer (procfsMaxSize - 1) = 0
  beyond : ∀ i, procfsMaxSize ≤ i → v.buffer i = beyond i

theorem printable_start (beyond : ℕ → BitVec 8) : Printable beyond (Vars.start beyond) where
  size := by simp [Vars.start, procfsMaxSize]
  final := by simp [Vars.start, procfsMaxSize]
  beyond _ hi := if_neg (Nat.not_lt.mpr hi)

theorem kept_lt (bufferLength : ℕ) : kept bufferLength < procfsMaxSize := by
  have hpos : 0 < procfsMaxSize := by decide
  rw [kept]
  split <;> omega

section

variable {beyond : ℕ → BitVec 8} {v : Vars} {w : Write}

/-- A write that faults. -/
theorem procfileWrite_of_fault
    (h : kept w.bufferLength - readable w.user (kept w.bufferLength) ≠ 0) :
    procfileWrite v w = ⟨-efault, w.offset,
      ⟨copied v.buffer w.user (kept w.bufferLength), kept w.bufferLength⟩⟩ :=
  if_pos h

/-- A write that does not. -/
theorem procfileWrite_of_read
    (h : kept w.bufferLength - readable w.user (kept w.bufferLength) = 0) :
    procfileWrite v w = ⟨kept w.bufferLength, w.offset + kept w.bufferLength,
      ⟨Function.update (copied v.buffer w.user (kept w.bufferLength)) (kept w.bufferLength) 0,
        kept w.bufferLength⟩⟩ :=
  if_neg (not_not.mpr h)

theorem Printable.write (h : Printable beyond v) (w : Write) :
    Printable beyond (procfileWrite v w).vars := by
  have hsize := kept_lt w.bufferLength
  have hlast : kept w.bufferLength ≤ procfsMaxSize - 1 := Nat.le_sub_one_of_lt hsize
  -- what is copied ends before the last byte
  have hcopied : ∀ i, procfsMaxSize - 1 ≤ i →
      copied v.buffer w.user (kept w.bufferLength) i = v.buffer i :=
    fun i hi => copied_outside (hlast.trans hi)
  have hfinal : copied v.buffer w.user (kept w.bufferLength) (procfsMaxSize - 1) = 0 :=
    (hcopied _ le_rfl).trans h.final
  have hbeyond : ∀ i, procfsMaxSize ≤ i →
      copied v.buffer w.user (kept w.bufferLength) i = beyond i := fun i hi =>
    (hcopied i ((Nat.sub_le _ _).trans hi)).trans (h.beyond i hi)
  by_cases hread : kept w.bufferLength - readable w.user (kept w.bufferLength) = 0
  · rw [procfileWrite_of_read hread]
    refine ⟨hsize, ?_, fun i hi => ?_⟩
    · rcases eq_or_ne (procfsMaxSize - 1) (kept w.bufferLength) with heq | hne
      · rw [heq]
        exact Function.update_self ..
      · exact (Function.update_of_ne hne ..).trans hfinal
    · exact (Function.update_of_ne (hsize.trans_le hi).ne' ..).trans (hbeyond i hi)
  · rw [procfileWrite_of_fault hread]
    exact ⟨hsize, hfinal, hbeyond⟩

/-- **On every run of writes, whether they fault or not**, the buffer holds a string. -/
theorem printable_run (beyond : ℕ → BitVec 8) (writes : List Write) :
    Printable beyond (run (fun v w => (procfileWrite v w).vars) (Vars.start beyond) writes) :=
  run_invariant _ (fun _ w h => h.write w) writes (printable_start beyond)

/-- If nothing is left, all can be read. -/
theorem all_readable {user : ℕ → Option (BitVec 8)} {n : ℕ} (h : n - readable user n = 0) :
    readable user n = n ∧ ∀ i < n, (user i).isSome = true := by
  have hprefix : ((List.range n).takeWhile fun i => (user i).isSome) <+: List.range n :=
    List.takeWhile_prefix _
  have hle := hprefix.length_le
  rw [List.length_range] at hle
  have hall : readable user n = n := by
    rw [readable] at h ⊢
    omega
  refine ⟨hall, fun i hi => ?_⟩
  have heq := hprefix.eq_of_length (hall.trans List.length_range.symm)
  exact List.takeWhile_eq_self_iff.mp heq i (List.mem_range.mpr hi)

/-- **A write that does not fail** has stored the beginning of what it was given, and a NUL. -/
theorem procfileWrite_stores (h : (procfileWrite v w).ret ≠ -efault) :
    (procfileWrite v w).ret = min w.bufferLength (procfsMaxSize - 1) ∧
      (procfileWrite v w).vars.buffer (procfileWrite v w).vars.size = 0 ∧
      ∀ i < (procfileWrite v w).vars.size,
        w.user i = some ((procfileWrite v w).vars.buffer i) := by
  have hread : kept w.bufferLength - readable w.user (kept w.bufferLength) = 0 := by
    by_contra hfault
    exact h (by rw [procfileWrite_of_fault hfault])
  obtain ⟨hall, huser⟩ := all_readable hread
  have hkept : kept w.bufferLength = min w.bufferLength (procfsMaxSize - 1) := by
    rw [kept]
    split <;> omega
  rw [procfileWrite_of_read hread]
  refine ⟨congrArg Nat.cast hkept, Function.update_self .., fun i hi => ?_⟩
  obtain ⟨byte, hbyte⟩ := Option.isSome_iff_exists.mp (huser i hi)
  have hcopy : copied v.buffer w.user (kept w.bufferLength) i = byte := by
    rw [copied_inside hi (hi.trans_eq hall.symm), hbyte]
    rfl
  simp only [Function.update_of_ne hi.ne, hcopy, hbyte]

end

end Buffer1k

end Greeting

end Procfs

end KernelModules
