import KernelModules.Lib.Run
import KernelModules.Lib.Decimal

/-!
# `/sys/kernel/mymodule/myvar`

A file that shows a number and sets it: `myvar_show` prints it with `sprintf`, `myvar_store` reads
it with `sscanf`. The outcome of `sscanf` is not looked at, so that a text without a number is
accepted like any other and leaves the number as it was; a number that does not fit is cut down to
its low 32 bits.

So the file shows the last number that was written, as far as it fits
(`KernelModules.HelloSysfs.shows_last`), and what it shows can be written back
(`KernelModules.HelloSysfs.store_show`).
-/

namespace KernelModules

namespace HelloSysfs

/-! ### The number as text -/

/-- `isspace` of the kernel. -/
def isSpace (b : UInt8) : Bool := 9 ≤ b.toNat && b.toNat ≤ 13 || b = 32 || b = 160

/-- `skip_spaces`. -/
def skipSpaces (bs : List UInt8) : List UInt8 := bs.dropWhile isSpace

/-- `simple_strntoull` in base ten: the digits there are, in 64 bits. -/
def simpleStrtoull (bs : List UInt8) : BitVec 64 := Decimal.accumulate 64 (Decimal.digits bs)

/-- `sscanf(buf, "%d", &myvar)`: what it stores, if it stores something. What comes after the
bytes given is taken for a NUL. -/
def sscanf (buf : List UInt8) : Option (BitVec 32) :=
  match skipSpaces buf with
  | 45 :: rest =>
    if Decimal.isDigit (rest.headD 0) then some ((-simpleStrtoull rest).setWidth 32) else none
  | str =>
    if Decimal.isDigit (str.headD 0) then some ((simpleStrtoull str).setWidth 32) else none

/-- `myvar_show`: what `sprintf(buf, "%d\n", myvar)` puts in the buffer, whose length is
returned. -/
def myvarShow (myvar : BitVec 32) : List UInt8 := Decimal.printInt myvar.toInt ++ [10]

/-- `myvar_store`: `myvar` afterwards, and what is returned. -/
def myvarStore (myvar : BitVec 32) (buf : List UInt8) : BitVec 32 × ℕ :=
  ((sscanf buf).getD myvar, buf.length)

/-! ### What a text says -/

/-- **The number a text begins with**, of any size: after white space and a sign there may be, at
least one digit. -/
def parse (buf : List UInt8) : Option ℤ :=
  match skipSpaces buf with
  | 45 :: rest =>
    if Decimal.digits rest = [] then none else some (-(Decimal.value (Decimal.digits rest) : ℤ))
  | str => if Decimal.digits str = [] then none else some (Decimal.value (Decimal.digits str))

theorem digits_eq_nil_iff (bs : List UInt8) :
    Decimal.digits bs = [] ↔ Decimal.isDigit (bs.headD 0) = false := by
  cases bs with
  | nil => simp [Decimal.digits, Decimal.isDigit]
  | cons b bs =>
    rw [Decimal.digits, List.headD_cons]
    cases hb : Decimal.isDigit b with
    | true => simp [hb]
    | false => simp [hb]

/-- The low 32 bits of a 64-bit number are those of the number. -/
theorem setWidth_simpleStrtoull (bs : List UInt8) :
    (simpleStrtoull bs).setWidth 32 = BitVec.ofInt 32 (Decimal.value (Decimal.digits bs)) := by
  rw [simpleStrtoull, Decimal.accumulate_eq, BitVec.ofInt_natCast]
  apply BitVec.eq_of_toNat_eq
  rw [BitVec.toNat_setWidth, BitVec.toNat_ofNat, BitVec.toNat_ofNat]
  exact Nat.mod_mod_of_dvd _ (by decide)

theorem setWidth_neg_simpleStrtoull (bs : List UInt8) :
    (-simpleStrtoull bs).setWidth 32 =
      BitVec.ofInt 32 (-(Decimal.value (Decimal.digits bs) : ℤ)) := by
  rw [BitVec.ofInt_neg, ← setWidth_simpleStrtoull]
  exact BitVec.setWidth_neg_of_le (by decide)

/-- **`sscanf` stores the low 32 bits of the number**, if there is one. -/
theorem sscanf_eq (buf : List UInt8) : sscanf buf = (parse buf).map (BitVec.ofInt 32) := by
  have hdigit : ∀ bs : List UInt8,
      Decimal.isDigit (bs.headD 0) = true ↔ ¬Decimal.digits bs = [] := by
    intro bs
    rw [digits_eq_nil_iff, Bool.not_eq_false]
  rw [sscanf, parse]
  split
  · rename_i rest _
    by_cases hnil : Decimal.digits rest = []
    · simp only [hdigit, hnil, not_true_eq_false, if_false, if_true, Option.map_none]
    · simp only [hdigit, hnil, not_false_eq_true, if_true, if_false, Option.map_some,
        setWidth_neg_simpleStrtoull]
  · by_cases hnil : Decimal.digits (skipSpaces buf) = []
    · simp only [hdigit, hnil, not_true_eq_false, if_false, if_true, Option.map_none]
    · simp only [hdigit, hnil, not_false_eq_true, if_true, if_false, Option.map_some,
        setWidth_simpleStrtoull]

/-- White space is skipped, up to something else. -/
theorem skipSpaces_append {pad : List UInt8} (hpad : ∀ b ∈ pad, isSpace b = true) {b : UInt8}
    (hb : isSpace b = false) (bs : List UInt8) : skipSpaces (pad ++ b :: bs) = b :: bs := by
  rw [skipSpaces, List.dropWhile_append_of_pos hpad]
  exact List.dropWhile_cons_of_neg (by simp [hb])

/-- A digit is neither white space nor a sign. -/
theorem not_space_of_isDigit {b : UInt8} (h : Decimal.isDigit b = true) :
    isSpace b = false ∧ b ≠ 45 := by
  have hrange : 48 ≤ b.toNat ∧ b.toNat ≤ 57 := by simpa [Decimal.isDigit] using h
  have hne : ∀ n : ℕ, n < 48 ∨ 57 < n → n < 256 → b ≠ UInt8.ofNat n := by
    rintro n hn hlt rfl
    rw [UInt8.toNat_ofNat', Nat.mod_eq_of_lt hlt] at hrange
    omega
  have hspace : ¬b.toNat ≤ 13 := by omega
  refine ⟨?_, hne 45 (by omega) (by omega)⟩
  simp [isSpace, hspace, show b ≠ 32 from hne 32 (by omega) (by omega),
    show b ≠ 160 from hne 160 (by omega) (by omega)]

theorem parse_of_sign {buf rest : List UInt8} (h : skipSpaces buf = 45 :: rest)
    (hrest : Decimal.digits rest ≠ []) :
    parse buf = some (-(Decimal.value (Decimal.digits rest) : ℤ)) := by
  simp [parse, h, hrest]

theorem parse_of_digit {buf bs : List UInt8} {b : UInt8} (h : skipSpaces buf = b :: bs)
    (hb : Decimal.isDigit b = true) :
    parse buf = some (Decimal.value (Decimal.digits (b :: bs)) : ℤ) := by
  have hdigits : Decimal.digits (b :: bs) ≠ [] := by simp [Decimal.digits, hb]
  have hsign := (not_space_of_isDigit hb).2
  rw [parse, h]
  split
  · simp_all
  · rw [if_neg hdigits]

/-- **A number that was printed is read**, whatever white space comes before it and whatever comes
after it, as long as that does not go on with a digit. -/
theorem parse_printInt (z : ℤ) {pad rest : List UInt8} (hpad : ∀ b ∈ pad, isSpace b = true)
    (hrest : Decimal.isDigit (rest.headD 0) = false) :
    parse (pad ++ (Decimal.printInt z ++ rest)) = some z := by
  obtain ⟨b, bs, hprint, hb⟩ := Decimal.exists_print_eq_cons z.natAbs
  have hdigits := Decimal.digits_print_append z.natAbs hrest
  have hvalue := Decimal.value_print z.natAbs
  rw [Decimal.printInt]
  split_ifs with hz
  · have hskip := skipSpaces_append hpad (b := 45) (by decide) (Decimal.print z.natAbs ++ rest)
    rw [List.cons_append, parse_of_sign hskip (by rw [hdigits, hprint]; simp), hdigits, hvalue]
    congr 1
    omega
  · have hskip := skipSpaces_append hpad (not_space_of_isDigit hb).1 (bs ++ rest)
    rw [hprint, List.cons_append] at hdigits ⊢
    rw [parse_of_digit hskip hb, hdigits, ← hprint, hvalue]
    congr 1
    omega

/-- The number after some texts have been written, one after the other. -/
def afterWrites (writes : List (List UInt8)) : BitVec 32 :=
  run (fun myvar buf => (myvarStore myvar buf).1) 0 writes

/-- What is read is the last number that was written, of those that are there. -/
theorem run_store (writes : List (List UInt8)) (myvar : BitVec 32) :
    run (fun myvar buf => (myvarStore myvar buf).1) myvar writes =
      (((writes.filterMap parse).getLast?).map (BitVec.ofInt 32)).getD myvar := by
  induction writes generalizing myvar with
  | nil => rfl
  | cons buf writes ih =>
    rw [run_cons, ih, myvarStore, sscanf_eq]
    cases hparse : parse buf with
    | none => rw [List.filterMap_cons_none hparse]; rfl
    | some z =>
      rw [List.filterMap_cons_some hparse, List.getLast?_cons]
      cases (writes.filterMap parse).getLast? <;> rfl

/-- **The file shows the last number that was written**, or 0, as a signed number of 32 bits; what
was written before it makes no difference, nor does a text without a number. -/
theorem shows_last (writes : List (List UInt8)) :
    myvarShow (afterWrites writes) =
      Decimal.printInt ((((writes.filterMap parse).getLast?).getD 0).bmod (2 ^ 32)) ++ [10] := by
  rw [afterWrites, run_store, myvarShow]
  cases (writes.filterMap parse).getLast? with
  | none => rfl
  | some z => rw [Option.map_some, Option.getD_some, Option.getD_some, BitVec.toInt_ofInt]

/-- **What the file shows can be written back**, with white space before it and anything after
it. -/
theorem store_show (myvar old : BitVec 32) {pad : List UInt8} (hpad : ∀ b ∈ pad, isSpace b = true)
    (rest : List UInt8) : (myvarStore old (pad ++ (myvarShow myvar ++ rest))).1 = myvar := by
  have hparse : parse (pad ++ (Decimal.printInt myvar.toInt ++ (10 :: rest))) = some myvar.toInt :=
    parse_printInt myvar.toInt hpad rfl
  rw [myvarShow, List.append_assoc, List.singleton_append, myvarStore, sscanf_eq, hparse,
    Option.map_some, Option.getD_some, BitVec.ofInt_toInt]

theorem store_show_seven : (myvarStore 0 ([32, 9] ++ (myvarShow 7 ++ [65]))).1 = 7 := by
  have hpad : ∀ b ∈ ([32, 9] : List UInt8), isSpace b = true := by simp [isSpace]
  exact store_show 7 0 hpad [65]

end HelloSysfs

end KernelModules
