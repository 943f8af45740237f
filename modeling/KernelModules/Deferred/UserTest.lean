import KernelModules.Lib.CString
import KernelModules.Lib.Decimal
import KernelModules.Deferred.Device

/-!
# What is typed at the device's user program

`deferred_work/deferred/user/test.c` reads lines from its standard input and makes the requests
they ask for: the first letter of a line is the command, the number after it the argument. The
loop stops at the end of the input, at a `q`, at a command that lacks its number or is none, and
at a request that fails.

A session, that is some lines of this kind, makes exactly the requests it asks for, in order, up
to the first that fails: `KernelModules.Deferred.UserTest.session_exact`. The device is any state
that answers to requests.
-/

namespace KernelModules

namespace Deferred

namespace UserTest

/-! ### The program -/

/-- The code of a character. -/
def chr (c : Char) : UInt8 := UInt8.ofNat c.toNat

/-- What separates words: `" \n"`. -/
def delim (b : UInt8) : Bool := b = chr ' ' || b = chr '\n'

/-- `isspace`, in the C locale. -/
def isSpace (b : UInt8) : Bool := 9 ≤ b.toNat && b.toNat ≤ 13 || b = chr ' '

/-- The value of `strtoul` for a number with this sign and these digits: one that is too large is
`ULONG_MAX`, with either sign. -/
def clamp (neg : Bool) (n : ℕ) : BitVec 64 :=
  if 2 ^ 64 ≤ n then BitVec.allOnes 64
  else if neg then -BitVec.ofNat 64 n
  else BitVec.ofNat 64 n

/-- `strtoul(str, NULL, 10)`. -/
def strtoul (str : List UInt8) : BitVec 64 :=
  match str.dropWhile isSpace with
  | [] => clamp false 0
  | c :: cs =>
    if c = chr '-' then clamp true (Decimal.value (Decimal.digits cs))
    else if c = chr '+' then clamp false (Decimal.value (Decimal.digits cs))
    else clamp false (Decimal.value (Decimal.digits (c :: cs)))

/-- The request for a command with a number: the `if`s after `strtoul`. -/
def request (cmd : UInt8) (val : BitVec 64) : Command 64 :=
  if cmd = chr 's' then .timerSet val
  else if cmd = chr 'a' then .timerAlloc val
  else .timerMon val

/-- The bytes a call of `fgets` can store: `buffer` without its last byte. -/
def room : ℕ := 255

section Program

variable {σ : Type} (ioctl : σ → Command 64 → ℤ × σ)

/-- The loop of `main`, over the buffers that `fgets` fills: the device at its end, and the exit
status. -/
def loop (s : σ) : List (List UInt8) → σ × ℕ
  -- `close`, `return 0`
  | [] => (s, 0)
  | buffer :: buffers =>
    match CString.strtok delim (CString.chars buffer) with
    | none => loop s buffers
    | some (token, rest) =>
      let cmd := token.headD 0
      let numStr := (CString.strtok delim rest).map Prod.fst
      if cmd = chr 's' ∨ cmd = chr 'a' ∨ cmd = chr 'p' then
        match numStr with
        -- `usage`
        | none => (s, 1)
        | some str =>
          let val := strtoul str
          -- `error`
          if (ioctl s (request cmd val)).1 < 0 then ((ioctl s (request cmd val)).2, 1)
          else loop (ioctl s (request cmd val)).2 buffers
      else if cmd = chr 'c' then
        if (ioctl s .timerCancel).1 < 0 then ((ioctl s .timerCancel).2, 1)
        else loop (ioctl s .timerCancel).2 buffers
      else if cmd = chr 'q' then (s, 0)
      else (s, 1)

/-- `main`: the descriptor of the device, and the input. -/
def main (fd : ℤ) (s : σ) (input : List UInt8) : σ × ℕ :=
  if fd < 0 then (s, 1) else loop ioctl s (CString.fgets room room input)

end Program

/-! ### What a line asks for -/

/-- The argument for a number: its low 64 bits, or `ULONG_MAX` if it is out of range. -/
def argument (z : ℤ) : BitVec 64 :=
  if 2 ^ 64 ≤ z.natAbs then BitVec.allOnes 64 else BitVec.ofInt 64 z

/-- Spaces. -/
def Blank (bs : List UInt8) : Prop := ∀ b ∈ bs, b = chr ' '

/-- Part of a word: no space, no newline and no NUL. -/
def Solid (bs : List UInt8) : Prop := ∀ b ∈ bs, delim b = false ∧ b ≠ 0

/-- **A line with a command and a number.** Its first word begins with the letter; what follows
the number is anything that does not go on with a digit. -/
structure Numbered (c : Char) (z : ℤ) (line : List UInt8) : Prop where
  shape : ∃ pad word gap rest, Blank pad ∧ Solid word ∧ Blank gap ∧
    Decimal.isDigit (rest.headD 0) = false ∧
      line = pad ++ chr c :: (word ++ chr ' ' :: (gap ++ (Decimal.printInt z ++ rest)))

/-- **What a line asks for.** -/
inductive Says : List UInt8 → List (Command 64) → Prop
  /-- Nothing. -/
  | blank {line : List UInt8} (h : Blank line) : Says line []
  /-- To set the timer. -/
  | set {line : List UInt8} {z : ℤ} (h : Numbered 's' z line) :
      Says line [.timerSet (argument z)]
  /-- To allocate memory later. -/
  | alloc {line : List UInt8} {z : ℤ} (h : Numbered 'a' z line) :
      Says line [.timerAlloc (argument z)]
  /-- To watch a process. -/
  | mon {line : List UInt8} {z : ℤ} (h : Numbered 'p' z line) :
      Says line [.timerMon (argument z)]
  /-- To cancel the timer. What follows the letter is not looked at. -/
  | cancel {pad rest : List UInt8} (h : Blank pad) :
      Says (pad ++ chr 'c' :: rest) [.timerCancel]

/-- The requests made one after the other, up to the first that fails; whether none has. -/
def feed {σ : Type} (ioctl : σ → Command 64 → ℤ × σ) (s : σ) : List (Command 64) → σ × Bool
  | [] => (s, true)
  | cmd :: cmds => if (ioctl s cmd).1 < 0 then ((ioctl s cmd).2, false) else
    feed ioctl (ioctl s cmd).2 cmds

/-! ### Numbers -/

theorem clamp_eq_argument (z : ℤ) : clamp (decide (z < 0)) z.natAbs = argument z := by
  rw [clamp, argument]
  split_ifs with hlarge hneg
  · rfl
  · have hz : z = -(z.natAbs : ℤ) := by
      have hneg : z < 0 := by simpa using hneg
      omega
    conv_rhs => rw [hz, BitVec.ofInt_neg, BitVec.ofInt_natCast]
  · have hz : z = (z.natAbs : ℤ) := by
      have hneg : ¬z < 0 := by simpa using hneg
      omega
    conv_rhs => rw [hz, BitVec.ofInt_natCast]

/-- A digit is neither a space nor a sign. -/
theorem of_isDigit {b : UInt8} (h : Decimal.isDigit b = true) :
    isSpace b = false ∧ b ≠ chr '-' ∧ b ≠ chr '+' ∧ delim b = false ∧ b ≠ 0 := by
  have hrange : 48 ≤ b.toNat ∧ b.toNat ≤ 57 := by simpa [Decimal.isDigit] using h
  have hne : ∀ c : UInt8, c.toNat < 48 → b ≠ c := by
    rintro c hc rfl
    omega
  have hsmall : ¬b.toNat ≤ 13 := by omega
  have hspace : b ≠ chr ' ' := hne _ (by decide)
  have hline : b ≠ chr '\n' := hne _ (by decide)
  refine ⟨?_, hne _ (by decide), hne _ (by decide), ?_, hne _ (by decide)⟩
  · simp [isSpace, hsmall, hspace]
  · simp [delim, hspace, hline]

/-- `strtoul`, with something after the white space. -/
theorem strtoul_of_drop {str cs : List UInt8} {c : UInt8} (h : str.dropWhile isSpace = c :: cs) :
    strtoul str =
      if c = chr '-' then clamp true (Decimal.value (Decimal.digits cs))
      else if c = chr '+' then clamp false (Decimal.value (Decimal.digits cs))
      else clamp false (Decimal.value (Decimal.digits (c :: cs))) := by
  rw [strtoul, h]

/-- **`strtoul` reads the number that was printed.** -/
theorem strtoul_printInt (z : ℤ) {rest : List UInt8}
    (hrest : Decimal.isDigit (rest.headD 0) = false) :
    strtoul (Decimal.printInt z ++ rest) = argument z := by
  have hvalue := Decimal.value_digits_print z.natAbs hrest
  rw [← clamp_eq_argument]
  by_cases hz : z < 0
  · have hdrop : (chr '-' :: (Decimal.print z.natAbs ++ rest)).dropWhile isSpace
        = chr '-' :: (Decimal.print z.natAbs ++ rest) :=
      List.dropWhile_cons_of_neg (by decide)
    have hprint : Decimal.printInt z = chr '-' :: Decimal.print z.natAbs := if_pos hz
    rw [hprint, List.cons_append, strtoul_of_drop hdrop, if_pos rfl, hvalue, decide_eq_true hz]
  · obtain ⟨b, bs, hprint, hb⟩ := Decimal.exists_print_eq_cons z.natAbs
    obtain ⟨hspace, hminus, hplus, -, -⟩ := of_isDigit hb
    have hdrop : (b :: (bs ++ rest)).dropWhile isSpace = b :: (bs ++ rest) :=
      List.dropWhile_cons_of_neg (by simp [hspace])
    rw [hprint, List.cons_append] at hvalue
    rw [Decimal.printInt, if_neg hz, hprint, List.cons_append, strtoul_of_drop hdrop,
      if_neg hminus, if_neg hplus, hvalue, decide_eq_false hz]

theorem solid_printInt (z : ℤ) : Solid (Decimal.printInt z) := by
  have hdigits : ∀ b ∈ Decimal.print z.natAbs, delim b = false ∧ b ≠ 0 := by
    intro b hb
    obtain ⟨-, -, -, hdelim, hzero⟩ := of_isDigit (Decimal.isDigit_of_mem_print hb)
    exact ⟨hdelim, hzero⟩
  intro b hb
  rw [Decimal.printInt] at hb
  split_ifs at hb
  · rcases List.mem_cons.mp hb with rfl | hb
    · decide
    · exact hdigits b hb
  · exact hdigits b hb

/-- There is a first byte. -/
theorem exists_printInt_eq_cons (z : ℤ) : ∃ c cs, Decimal.printInt z = c :: cs := by
  obtain ⟨b, bs, hprint, -⟩ := Decimal.exists_print_eq_cons z.natAbs
  rw [Decimal.printInt]
  split_ifs
  · exact ⟨_, _, rfl⟩
  · exact ⟨b, bs, hprint⟩

/-- What is cut short does not begin with a digit either. -/
theorem not_isDigit_takeWhile {bs : List UInt8} (h : Decimal.isDigit (bs.headD 0) = false)
    (p : UInt8 → Bool) : Decimal.isDigit ((bs.takeWhile p).headD 0) = false := by
  cases bs with
  | nil => exact h
  | cons b bs =>
    rw [List.takeWhile_cons]
    split
    · exact h
    · rfl

/-! ### Lines -/

theorem chars_append_of_solid {bs : List UInt8} (h : ∀ b ∈ bs, b ≠ 0) (rest : List UInt8) :
    CString.chars (bs ++ rest) = bs ++ CString.chars rest :=
  List.takeWhile_append_of_pos fun b hb => by simp [h b hb]

theorem Blank.delim {bs : List UInt8} (h : Blank bs) : ∀ b ∈ bs, UserTest.delim b = true := by
  intro b hb
  rw [h b hb]
  rfl

theorem Blank.ne_zero {bs : List UInt8} (h : Blank bs) : ∀ b ∈ bs, b ≠ 0 := by
  intro b hb
  rw [h b hb]
  decide

section Lines

variable {σ : Type} (ioctl : σ → Command 64 → ℤ × σ)

/-- The first word, and the rest of the line. -/
theorem strtok_line {pad cs : List UInt8} (hpad : Blank pad) {c : UInt8} (hc : delim c = false)
    (hzero : c ≠ 0) :
    CString.strtok delim (CString.chars (pad ++ c :: cs)) =
      some (c :: (CString.chars cs).takeWhile (!delim ·),
        ((CString.chars cs).dropWhile (!delim ·)).tail) := by
  rw [chars_append_of_solid hpad.ne_zero, CString.chars_cons, if_neg hzero,
    CString.strtok_of_word hpad.delim hc]
  simp [hc]

/-- **The number of a line.** -/
theorem Numbered.words {c : Char} {z : ℤ} {line : List UInt8} (h : Numbered c z line)
    (hc : delim (chr c) = false) (hzero : chr c ≠ 0) :
    ∃ word rest str more,
      CString.strtok delim (CString.chars (line ++ [chr '\n'])) = some (chr c :: word, rest) ∧
        CString.strtok delim rest = some (str, more) ∧ strtoul str = argument z := by
  obtain ⟨pad, word, gap, rest, hpad, hword, hgap, hrest, rfl⟩ := h.shape
  obtain ⟨d, ds, hprint⟩ := exists_printInt_eq_cons z
  have hsolid := solid_printInt z
  have hd : delim d = false := (hsolid d (by simp [hprint])).1
  -- what the second call of `strtok` gets
  have hchars : CString.chars (word ++ chr ' ' :: (gap ++ (Decimal.printInt z ++ rest))
      ++ [chr '\n']) = word ++ chr ' ' :: (gap ++ (Decimal.printInt z ++
        CString.chars (rest ++ [chr '\n']))) := by
    rw [List.append_assoc, chars_append_of_solid fun b hb => (hword b hb).2, List.cons_append,
      CString.chars_cons, if_neg (by decide), List.append_assoc,
      chars_append_of_solid hgap.ne_zero, List.append_assoc,
      chars_append_of_solid fun b hb => (hsolid b hb).2]
  have hafter : Decimal.isDigit ((CString.chars (rest ++ [chr '\n'])).headD 0) = false := by
    refine not_isDigit_takeWhile ?_ _
    cases rest with
    | nil => rfl
    | cons b rest => exact hrest
  have hfirst := @strtok_line pad (word ++ chr ' ' :: (gap ++ (Decimal.printInt z ++ rest))
    ++ [chr '\n']) hpad (chr c) hc hzero
  rw [hchars, CString.dropWhile_word (fun b hb => (hword b hb).1) rfl] at hfirst
  have hsecond := @CString.strtok_of_word delim gap (ds ++ CString.chars (rest ++ [chr '\n'])) d
    hgap.delim hd
  rw [← List.cons_append, ← hprint,
    List.takeWhile_append_of_pos fun b hb => by simp [(hsolid b hb).1]] at hsecond
  rw [← List.cons_append, ← List.append_assoc] at hfirst
  exact ⟨_, _, _, _, hfirst, hsecond, strtoul_printInt z (not_isDigit_takeWhile hafter _)⟩

/-- A line with a command and a number makes its request. -/
theorem loop_numbered {c : Char} {z : ℤ} {line : List UInt8} (h : Numbered c z line)
    (hc : c = 's' ∨ c = 'a' ∨ c = 'p') (s : σ) (buffers : List (List UInt8)) :
    loop ioctl s ((line ++ [chr '\n']) :: buffers) =
      if (feed ioctl s [request (chr c) (argument z)]).2 then
        loop ioctl (feed ioctl s [request (chr c) (argument z)]).1 buffers
      else ((feed ioctl s [request (chr c) (argument z)]).1, 1) := by
  have hsolid : delim (chr c) = false ∧ chr c ≠ 0 := by
    rcases hc with rfl | rfl | rfl <;> decide
  have hletter : chr c = chr 's' ∨ chr c = chr 'a' ∨ chr c = chr 'p' :=
    hc.imp (congrArg chr) (Or.imp (congrArg chr) (congrArg chr))
  obtain ⟨word, rest, str, more, hfirst, hsecond, hval⟩ := h.words hsolid.1 hsolid.2
  rw [loop, hfirst]
  simp only [List.headD_cons, hsecond, Option.map_some, hval, if_pos hletter, feed]
  split_ifs <;> simp_all

/-- **A line makes the requests it asks for**, up to the first that fails, and the loop goes on if
none does. -/
theorem loop_line {line : List UInt8} {cmds : List (Command 64)} (h : Says line cmds) (s : σ)
    (buffers : List (List UInt8)) :
    loop ioctl s ((line ++ [chr '\n']) :: buffers) =
      if (feed ioctl s cmds).2 then loop ioctl (feed ioctl s cmds).1 buffers
      else ((feed ioctl s cmds).1, 1) := by
  cases h with
  | blank hblank =>
    have hnone : CString.strtok delim (CString.chars (line ++ [chr '\n'])) = none := by
      refine CString.strtok_eq_none fun b hb => ?_
      rcases List.mem_append.mp ((List.takeWhile_sublist _).subset hb) with hb | hb
      · exact hblank.delim b hb
      · rw [List.mem_singleton.mp hb]
        rfl
    rw [loop, hnone]
    rfl
  | set hline => exact loop_numbered ioctl hline (.inl rfl) s buffers
  | alloc hline => exact loop_numbered ioctl hline (.inr (.inl rfl)) s buffers
  | mon hline => exact loop_numbered ioctl hline (.inr (.inr rfl)) s buffers
  | @cancel pad rest hpad =>
    have hfirst := @strtok_line pad (rest ++ [chr '\n']) hpad (chr 'c') rfl (by decide)
    rw [List.append_assoc, List.cons_append, loop, hfirst]
    have hletter : ¬(chr 'c' = chr 's' ∨ chr 'c' = chr 'a' ∨ chr 'c' = chr 'p') := by decide
    simp only [List.headD_cons, if_neg hletter, if_true, feed]
    split_ifs <;> simp_all

/-! ### Sessions -/

/-- **A line that is understood.** It fits into the buffer with its newline. -/
structure Line where
  /-- The line, without its newline. -/
  text : List UInt8
  /-- What it asks for. -/
  requests : List (Command 64)
  means : Says text requests
  line : chr '\n' ∉ text
  short : text.length < room

/-- Lines, each with its newline. -/
def render (lines : List Line) : List UInt8 := lines.flatMap fun x => x.text ++ [chr '\n']

/-- The requests they ask for. -/
def asked (lines : List Line) : List (Command 64) := lines.flatMap Line.requests

/-- The line ends the session. What follows the letter is not looked at. -/
structure Quits (text : List UInt8) : Prop where
  shape : ∃ pad rest, Blank pad ∧ text = pad ++ chr 'q' :: rest
  line : chr '\n' ∉ text
  short : text.length < room

theorem feed_append (s : σ) (cmds more : List (Command 64)) :
    feed ioctl s (cmds ++ more) =
      if (feed ioctl s cmds).2 then feed ioctl (feed ioctl s cmds).1 more
      else feed ioctl s cmds := by
  induction cmds generalizing s with
  | nil => rfl
  | cons cmd cmds ih =>
    rw [List.cons_append, feed, feed]
    split
    · rfl
    · exact ih _

/-- A session, and then something else. -/
theorem loop_render (lines : List Line) (s : σ) (rest : List UInt8) :
    loop ioctl s (CString.fgets room room (render lines ++ rest)) =
      if (feed ioctl s (asked lines)).2 then
        loop ioctl (feed ioctl s (asked lines)).1 (CString.fgets room room rest)
      else ((feed ioctl s (asked lines)).1, 1) := by
  induction lines generalizing s with
  | nil => rfl
  | cons x lines ih =>
    have hbuffers : CString.fgets room room (render (x :: lines) ++ rest)
        = (x.text ++ [chr '\n']) :: CString.fgets room room (render lines ++ rest) := by
      rw [render, List.flatMap_cons, List.append_assoc, List.append_assoc]
      exact CString.fgets_line room x.line x.short _
    have hasked : asked (x :: lines) = x.requests ++ asked lines := rfl
    rw [hbuffers, loop_line ioctl x.means, hasked, feed_append]
    cases hfeed : (feed ioctl s x.requests).2 with
    | true => simp only [if_true, ih]
    | false => simp only [Bool.false_eq_true, if_false, hfeed]

theorem loop_quits {text : List UInt8} (h : Quits text) (s : σ) (more : List UInt8) :
    loop ioctl s (CString.fgets room room (text ++ chr '\n' :: more)) = (s, 0) := by
  obtain ⟨⟨pad, rest, hpad, rfl⟩, hline, hshort⟩ := h
  have hbuffers := CString.fgets_line room hline hshort more
  have hfirst := @strtok_line pad (rest ++ [10]) hpad (chr 'q') rfl (by decide)
  have hletter : ¬(chr 'q' = chr 's' ∨ chr 'q' = chr 'a' ∨ chr 'q' = chr 'p') := by decide
  have hcancel : chr 'q' ≠ chr 'c' := by decide
  rw [← List.cons_append, ← List.append_assoc] at hfirst
  rw [show chr '\n' = 10 from rfl, hbuffers, loop, hfirst]
  simp only [List.headD_cons, if_neg hletter, if_neg hcancel, if_true]

/-- **A session makes exactly the requests it asks for**, in order, up to the first that fails;
the exit status says whether one has. After a `q` nothing is read. -/
theorem session_exact {fd : ℤ} (hfd : 0 ≤ fd) (lines : List Line) (s : σ) :
    main ioctl fd s (render lines) =
        ((feed ioctl s (asked lines)).1, if (feed ioctl s (asked lines)).2 then 0 else 1) ∧
      ∀ text more, Quits text →
        main ioctl fd s (render lines ++ (text ++ chr '\n' :: more)) =
          ((feed ioctl s (asked lines)).1, if (feed ioctl s (asked lines)).2 then 0 else 1) := by
  have hopen : ¬fd < 0 := by omega
  constructor
  · have hend := loop_render ioctl lines s []
    rw [List.append_nil] at hend
    rw [main, if_neg hopen, hend]
    cases (feed ioctl s (asked lines)).2 <;> rfl
  · intro text more hquits
    rw [main, if_neg hopen, loop_render ioctl lines s, loop_quits ioctl hquits]
    cases (feed ioctl s (asked lines)).2 <;> rfl

end Lines

/-- `s 5`. -/
def setFive : Line where
  text := [chr 's', chr ' ', chr '5']
  requests := [.timerSet (argument 5)]
  means := .set ⟨[], [], [], [], by simp [Blank], by simp [Solid], by simp [Blank], rfl, rfl⟩
  line := by decide
  short := by decide

/-- It sets the timer. -/
theorem session_setFive :
    main (fun (s : List (Command 64)) cmd => (0, s ++ [cmd])) 3 []
      [chr 's', chr ' ', chr '5', chr '\n'] = ([.timerSet 5], 0) :=
  (session_exact (fun (s : List (Command 64)) cmd => (0, s ++ [cmd])) (by decide)
    [setFive] []).1

end UserTest

end Deferred

end KernelModules
