import Mathlib.Data.Int.Notation
import Mathlib.Data.List.TakeWhile
import Mathlib.Data.BitVec

/-!
# Decimal numbers as text

Numbers as bytes, as `printf` writes them (`KernelModules.Decimal.print`,
`KernelModules.Decimal.printInt`) and as the loops behind `scanf` and `strtoul` read them: the
digits there are (`KernelModules.Decimal.digits`), and their value
(`KernelModules.Decimal.value`). What was printed is read back, whatever follows it, as long as it
does not go on with a digit (`KernelModules.Decimal.value_digits_print`).

A machine that accumulates the value in a word gets it modulo the size of the word
(`KernelModules.Decimal.accumulate_eq`).
-/

namespace KernelModules

namespace Decimal

/-- A decimal digit. -/
def isDigit (b : UInt8) : Bool := 48 ≤ b.toNat && b.toNat ≤ 57

/-- The digits some bytes begin with. -/
def digits (bs : List UInt8) : List UInt8 := bs.takeWhile isDigit

/-- The value of some digits. -/
def value (bs : List UInt8) : ℕ := bs.foldl (fun n b => 10 * n + (b.toNat - 48)) 0

/-- The value of some digits, in a word. -/
def accumulate (w : ℕ) (bs : List UInt8) : BitVec w :=
  bs.foldl (fun n b => n * 10 + BitVec.ofNat w (b.toNat - 48)) 0

/-- **The number as text.** -/
def print (n : ℕ) : List UInt8 := (Nat.toDigits 10 n).map fun c => UInt8.ofNat c.toNat

/-- The same, with a sign if there has to be one. -/
def printInt (z : ℤ) : List UInt8 := if z < 0 then 45 :: print z.natAbs else print z.natAbs

/-! ### Reading -/

theorem accumulate_from (w : ℕ) (bs : List UInt8) (n : ℕ) :
    bs.foldl (fun n b => n * 10 + BitVec.ofNat w (b.toNat - 48)) (BitVec.ofNat w n)
      = BitVec.ofNat w (bs.foldl (fun n b => 10 * n + (b.toNat - 48)) n) := by
  induction bs generalizing n with
  | nil => rfl
  | cons b bs ih =>
    have hword : BitVec.ofNat w n * 10 + BitVec.ofNat w (b.toNat - 48)
        = BitVec.ofNat w (10 * n + (b.toNat - 48)) := by
      rw [BitVec.ofNat_add, BitVec.ofNat_mul, BitVec.mul_comm]
      rfl
    rw [List.foldl_cons, List.foldl_cons, hword, ih]

/-- **A word holds the value modulo its size.** -/
theorem accumulate_eq (w : ℕ) (bs : List UInt8) : accumulate w bs = BitVec.ofNat w (value bs) :=
  accumulate_from w bs 0

/-! ### Printing -/

theorem toNat_of_isDigit {c : Char} (h : c.isDigit = true) :
    (UInt8.ofNat c.toNat).toNat = c.toNat ∧ 48 ≤ c.toNat ∧ c.toNat ≤ 57 := by
  obtain ⟨hlow, hhigh⟩ : 48 ≤ c.toNat ∧ c.toNat ≤ 57 := by
    simpa [Char.isDigit, UInt32.le_iff_toNat_le] using h
  refine ⟨?_, hlow, hhigh⟩
  rw [UInt8.toNat_ofNat']
  exact Nat.mod_eq_of_lt (by omega)

theorem isDigit_of_mem_print {n : ℕ} {b : UInt8} (h : b ∈ print n) : isDigit b = true := by
  obtain ⟨c, hc, rfl⟩ := List.mem_map.mp h
  obtain ⟨heq, hlow, hhigh⟩ := toNat_of_isDigit
    (Nat.isDigit_of_mem_toDigits (by decide) (by decide) hc)
  simp [isDigit, heq, hlow, hhigh]

/-- There is a digit. -/
theorem exists_print_eq_cons (n : ℕ) : ∃ b bs, print n = b :: bs ∧ isDigit b = true := by
  cases hp : print n with
  | nil => exact absurd (List.map_eq_nil_iff.mp hp) Nat.toDigits_ne_nil
  | cons b bs => exact ⟨b, bs, rfl, isDigit_of_mem_print (n := n) (by simp [hp])⟩

/-- **What was printed is read back.** -/
theorem value_print (n : ℕ) : value (print n) = n := by
  have hfold : ∀ (cs : List Char), (∀ c ∈ cs, c.isDigit = true) → ∀ m,
      (cs.map fun c => UInt8.ofNat c.toNat).foldl (fun n b => 10 * n + (b.toNat - 48)) m
        = Nat.ofDigitChars 10 cs m := by
    intro cs
    induction cs with
    | nil => exact fun _ _ => Nat.ofDigitChars_nil.symm
    | cons c cs ih =>
      intro hcs m
      rw [List.map_cons, List.foldl_cons, ih fun d hd => hcs d (List.mem_cons_of_mem c hd),
        Nat.ofDigitChars_cons, (toNat_of_isDigit (hcs c List.mem_cons_self)).1]
      rfl
  rw [value, print, hfold _ fun c hc => Nat.isDigit_of_mem_toDigits (by decide) (by decide) hc,
    Nat.ofDigitChars_ten_toDigits]

/-- The digits of a number end where something else begins. -/
theorem digits_print_append (n : ℕ) {rest : List UInt8} (hrest : isDigit (rest.headD 0) = false) :
    digits (print n ++ rest) = print n := by
  rw [digits, List.takeWhile_append_of_pos fun b hb => isDigit_of_mem_print hb]
  cases rest with
  | nil => simp
  | cons b rest =>
    have hb : ¬isDigit b = true := by simpa using hrest
    rw [List.takeWhile_cons_of_neg hb, List.append_nil]

/-- **What was printed is read back**, whatever follows. -/
theorem value_digits_print (n : ℕ) {rest : List UInt8}
    (hrest : isDigit (rest.headD 0) = false) : value (digits (print n ++ rest)) = n := by
  rw [digits_print_append n hrest, value_print]

end Decimal

end KernelModules
