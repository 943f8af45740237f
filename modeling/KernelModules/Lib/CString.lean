import Mathlib.Data.Int.Notation
import Mathlib.Data.List.Basic
import Mathlib.Data.List.TakeWhile

/-!
# C strings

Bytes in memory, of which those before the first NUL are a string
(`KernelModules.CString.chars`), and the loop of `strcmp`, which answers 0 exactly for equal
strings (`KernelModules.CString.strcmp_eq_zero_iff`). What comes after the bytes given is taken
for a NUL.

Two functions of the library that cut text into strings are here as well: `fgets`, as the buffers
it fills one after the other (`KernelModules.CString.fgets`), and `strtok`
(`KernelModules.CString.strtok`), with what they make of a line and of a word.
-/

namespace KernelModules

namespace CString

/-- **The string that some bytes hold**: those before the first NUL. -/
def chars (bytes : List UInt8) : List UInt8 := bytes.takeWhile (· ≠ 0)

/-- `strcmp`. -/
def strcmp : List UInt8 → List UInt8 → ℤ
  | [], ct => if ct.headD 0 = 0 then 0 else -1
  | c :: cs, ct =>
    if c ≠ ct.headD 0 then (if c < ct.headD 0 then -1 else 1)
    else if c = 0 then 0
    else strcmp cs ct.tail

theorem chars_nil : chars [] = [] := rfl

theorem chars_cons (c : UInt8) (cs : List UInt8) :
    chars (c :: cs) = if c = 0 then [] else c :: chars cs := by
  rw [chars, List.takeWhile_cons]
  by_cases hc : c = 0 <;> simp [hc, chars]

/-- A NUL ends the string. -/
theorem chars_append_zero (bytes rest : List UInt8) :
    chars (bytes ++ 0 :: rest) = chars bytes := by
  induction bytes with
  | nil => rw [List.nil_append, chars_cons, if_pos rfl, chars_nil]
  | cons c bytes ih => rw [List.cons_append, chars_cons, chars_cons, ih]

theorem chars_eq_nil_iff (bytes : List UInt8) : chars bytes = [] ↔ bytes.headD 0 = 0 := by
  cases bytes with
  | nil => simp [chars_nil]
  | cons c bytes =>
    rw [chars_cons, List.headD_cons]
    by_cases hc : c = 0 <;> simp [hc]

/-- A string with a first character. -/
theorem cons_chars_eq_iff {c : UInt8} (hc : c ≠ 0) (cs bytes : List UInt8) :
    c :: cs = chars bytes ↔ c = bytes.headD 0 ∧ cs = chars bytes.tail := by
  cases bytes with
  | nil => simp [chars_nil, hc]
  | cons d bytes =>
    rw [chars_cons, List.headD_cons, List.tail_cons]
    by_cases hd : d = 0
    · simp [hd, hc]
    · rw [if_neg hd, List.cons.injEq]

/-- **`strcmp` answers 0 exactly for equal strings.** -/
theorem strcmp_eq_zero_iff (cs ct : List UInt8) : strcmp cs ct = 0 ↔ chars cs = chars ct := by
  induction cs generalizing ct with
  | nil =>
    rw [strcmp, chars_nil, eq_comm (a := []), chars_eq_nil_iff]
    by_cases hend : ct.headD 0 = 0
    · rw [if_pos hend]
      exact iff_of_true rfl hend
    · rw [if_neg hend]
      exact iff_of_false (by decide) hend
  | cons c cs ih =>
    rw [strcmp, chars_cons]
    by_cases hne : c = ct.headD 0
    · rw [if_neg (not_not.mpr hne)]
      by_cases hc : c = 0
      · rw [if_pos hc, if_pos hc, eq_comm (a := []), chars_eq_nil_iff]
        exact iff_of_true rfl (hne.symm.trans hc)
      · rw [if_neg hc, if_neg hc, ih, cons_chars_eq_iff hc]
        exact (and_iff_right hne).symm
    · rw [if_pos hne]
      refine iff_of_false (by split <;> simp) ?_
      by_cases hc : c = 0
      · rw [if_pos hc, eq_comm, chars_eq_nil_iff]
        exact fun h => hne (hc.trans h.symm)
      · rw [if_neg hc, cons_chars_eq_iff hc]
        exact fun h => hne h.1

/-! ### Cutting text -/

/-- **The buffers that `fgets` fills** from some input, `size` bytes at most in each, of which
`room` are left in the first: a buffer ends with a newline, or when it is full, or with the
input. -/
def fgets (size : ℕ) : ℕ → List UInt8 → List (List UInt8)
  | _, [] => []
  | room, b :: input =>
    if b = 10 ∨ room ≤ 1 then [b] :: fgets size size input
    else
      match fgets size (room - 1) input with
      | [] => [[b]]
      | buffer :: buffers => (b :: buffer) :: buffers

/-- **A line that is not too long is a buffer.** -/
theorem fgets_line (size : ℕ) {line : List UInt8} (hline : 10 ∉ line) {room : ℕ}
    (hroom : line.length < room) (input : List UInt8) :
    fgets size room (line ++ 10 :: input) = (line ++ [10]) :: fgets size size input := by
  induction line generalizing room with
  | nil => simp [fgets]
  | cons b line ih =>
    obtain ⟨hb, hline⟩ : ¬10 = b ∧ 10 ∉ line := by simpa using hline
    rw [List.length_cons] at hroom
    have hgo : ¬(b = 10 ∨ room ≤ 1) := by
      rintro (rfl | hle)
      · exact hb rfl
      · omega
    rw [List.cons_append, fgets, if_neg hgo, ih hline (by omega)]
    rfl

/-- `strtok`: the first word, if there is one, and what comes after the byte that ends it. -/
def strtok (delim : UInt8 → Bool) (str : List UInt8) : Option (List UInt8 × List UInt8) :=
  match str.dropWhile delim with
  | [] => none
  | c :: cs => some ((c :: cs).takeWhile (!delim ·), ((c :: cs).dropWhile (!delim ·)).tail)

variable {delim : UInt8 → Bool}

theorem strtok_eq_none {str : List UInt8} (h : ∀ b ∈ str, delim b = true) :
    strtok delim str = none := by
  have hnil : str.dropWhile delim = [] := List.dropWhile_eq_nil_iff.mpr h
  rw [strtok, hnil]

/-- A word, after what separates it from the one before. -/
theorem strtok_of_word {gap cs : List UInt8} {c : UInt8} (hgap : ∀ b ∈ gap, delim b = true)
    (hc : delim c = false) :
    strtok delim (gap ++ c :: cs) =
      some ((c :: cs).takeWhile (!delim ·), ((c :: cs).dropWhile (!delim ·)).tail) := by
  have hdrop : (gap ++ c :: cs).dropWhile delim = c :: cs := by
    rw [List.dropWhile_append_of_pos hgap]
    exact List.dropWhile_cons_of_neg (by simp [hc])
  rw [strtok, hdrop]

/-- A word ends where something that separates it from the next begins. -/
theorem dropWhile_word {word : List UInt8} (hword : ∀ b ∈ word, delim b = false) {g : UInt8}
    (hg : delim g = true) (rest : List UInt8) :
    ((word ++ g :: rest).dropWhile (!delim ·)).tail = rest := by
  rw [List.dropWhile_append_of_pos fun b hb => by simp [hword b hb]]
  simp [hg]

end CString

end KernelModules
