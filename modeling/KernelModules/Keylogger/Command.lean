import KernelModules.Keylogger.Buffer
import KernelModules.Lib.CString

/-!
# The clear command

`kbd_write` copies 20 bytes of the user's memory, however many it was given, ends them with a
NUL and compares them with `"clear"`. It takes the answer of `strcmp` the wrong way round: the
command is refused and anything else clears the buffer. What saves the usage of the README is
that `echo` sends a newline, which is not cut off:
`KernelModules.Keylogger.Command.accepts_exact`.

Nor does `kbd_write` look at `size`. It reads behind what it was given, and reports 1024 bytes
written: `KernelModules.Keylogger.Command.depends_exact`.
-/

namespace KernelModules

namespace Keylogger

namespace Command

open CString

/-! ### The function -/

/-- `CLEAR_CMD`. -/
def clearCmd : List UInt8 := [0x63, 0x6c, 0x65, 0x61, 0x72]

/-- `USER_CMD_BUF_LEN`. -/
def userCmdBufLen : ℕ := 20

/-- The user's memory, from `user_buffer` on: the bytes that can be read. -/
abbrev UserMemory := ℕ → Option UInt8

/-- `copy_from_user`: the bytes, if all of them can be read. -/
def copyFromUser (user : UserMemory) : ℕ → Option (List UInt8)
  | 0 => some []
  | n + 1 =>
    match user n with
    | none => none
    | some byte => (copyFromUser user n).map fun bytes => bytes ++ [byte]

/-- `kbd_write`: what it returns, and the buffer it leaves. -/
def kbdWrite {α : Type} (data : Kbd α) (user : UserMemory) (_size : ℕ) : ℤ × Kbd α :=
  match copyFromUser user userCmdBufLen with
  | none => (-efault, data)
  | some userCmd =>
    let userCmd := userCmd.set (userCmdBufLen - 1) 0
    if strcmp clearCmd userCmd = 0 then (-efault, data) else ((bufferSize : ℤ), resetBuffer data)

/-! ### What it does -/

/-- The first 19 bytes, cut at the first NUL. -/
def given (user : UserMemory) : List UInt8 :=
  chars ((List.range (userCmdBufLen - 1)).map fun i => (user i).getD 0)

/-- `kbd_write` refuses what it finds: it cannot read it, or it is the command. -/
def Refused (user : UserMemory) : Prop :=
  (∃ i < userCmdBufLen, user i = none) ∨ given user = clearCmd

variable {α : Type} {user : UserMemory}

/-- The bytes compared are those given. -/
theorem chars_set (user : UserMemory) :
    chars (((List.range userCmdBufLen).map fun i => (user i).getD 0).set (userCmdBufLen - 1) 0) =
      given user := by
  have hrange : List.range userCmdBufLen =
      List.range (userCmdBufLen - 1) ++ [userCmdBufLen - 1] := List.range_succ
  rw [hrange, List.map_append, List.set_append_right _ _ (by simp), List.length_map,
    List.length_range, Nat.sub_self, List.map_singleton, List.set_cons_zero, chars_append_zero,
    given]

theorem strcmp_clearCmd (user : UserMemory) : strcmp clearCmd
    (((List.range userCmdBufLen).map fun i => (user i).getD 0).set (userCmdBufLen - 1) 0) = 0 ↔
      given user = clearCmd := by
  have hclear : chars clearCmd = clearCmd := by decide
  rw [strcmp_eq_zero_iff, chars_set, hclear, eq_comm]

/-- A copy that succeeds. -/
theorem copyFromUser_of_readable (n : ℕ) (h : ∀ i < n, user i ≠ none) :
    copyFromUser user n = some ((List.range n).map fun i => (user i).getD 0) := by
  induction n with
  | zero => rfl
  | succ n ih =>
    obtain ⟨byte, hbyte⟩ := Option.ne_none_iff_exists'.mp (h n n.lt_succ_self)
    rw [copyFromUser, hbyte, ih fun i hi => h i (hi.trans n.lt_succ_self), List.range_succ,
      List.map_append, List.map_singleton, hbyte]
    rfl

/-- A copy that fails. -/
theorem copyFromUser_of_unreadable (n : ℕ) (h : ∃ i < n, user i = none) :
    copyFromUser user n = none := by
  obtain ⟨i, hi, hnone⟩ := h
  induction n with
  | zero => exact absurd hi (Nat.not_lt_zero i)
  | succ n ih =>
    rcases hbyte : user n with - | byte
    · rw [copyFromUser, hbyte]
    · have hlt : i < n := by
        rcases Nat.lt_succ_iff_lt_or_eq.mp hi with hlt | rfl
        · exact hlt
        · rw [hnone] at hbyte
          exact absurd hbyte (by simp)
      rw [copyFromUser, hbyte, ih hlt]
      rfl

/-- **What `kbd_write` does.** -/
theorem kbdWrite_eq (data : Kbd α) (user : UserMemory) (size : ℕ) :
    (Refused user ∧ kbdWrite data user size = (-efault, data)) ∨
      (¬Refused user ∧ kbdWrite data user size = ((bufferSize : ℤ), resetBuffer data)) := by
  by_cases hnone : ∃ i < userCmdBufLen, user i = none
  · refine .inl ⟨.inl hnone, ?_⟩
    rw [kbdWrite, copyFromUser_of_unreadable userCmdBufLen hnone]
  · have hread : ∀ i < userCmdBufLen, user i ≠ none := fun i hi h => hnone ⟨i, hi, h⟩
    have hrefused : Refused user ↔ given user = clearCmd := or_iff_right hnone
    rw [kbdWrite, copyFromUser_of_readable userCmdBufLen hread, hrefused]
    by_cases h : given user = clearCmd
    · exact .inl ⟨h, if_pos ((strcmp_clearCmd user).mpr h)⟩
    · exact .inr ⟨h, if_neg fun heq => h ((strcmp_clearCmd user).mp heq)⟩

theorem efault_neg : -efault < 0 := by decide

theorem bufferSize_nonneg : (0 : ℤ) ≤ bufferSize := by decide

/-! ### When it accepts exactly the command -/

/-- A newline. -/
def newline : UInt8 := 0x0a

/-- **The command given**: without its newline, if it ends with one. -/
def command (user : UserMemory) : List UInt8 :=
  if (given user).getLast? = some newline then (given user).dropLast else given user

/-- **`kbd_write` accepts exactly the clear command**: it empties the buffer if it is given it,
and returns an error and does nothing otherwise. -/
structure Accepts (data : Kbd α) (user : UserMemory) (size : ℕ) : Prop where
  clears : command user = clearCmd →
    (kbdWrite data user size).2.queue = [] ∧ 0 ≤ (kbdWrite data user size).1
  refuses : command user ≠ clearCmd →
    (kbdWrite data user size).1 < 0 ∧ (kbdWrite data user size).2 = data

theorem command_of_newline (h : given user = clearCmd ++ [newline]) : command user = clearCmd := by
  rw [command, h, List.getLast?_concat, if_pos rfl, List.dropLast_concat]

theorem command_eq_iff :
    command user = clearCmd ↔ given user = clearCmd ∨ given user = clearCmd ++ [newline] := by
  constructor
  · intro h
    rw [command] at h
    split at h
    · rename_i hlast
      obtain ⟨front, hfront⟩ := List.getLast?_eq_some_iff.mp hlast
      rw [hfront, List.dropLast_concat] at h
      exact .inr (by rw [hfront, h])
    · exact .inl h
  · rintro (h | h)
    · rw [command, h]
      rfl
    · exact command_of_newline h

/-- **When `kbd_write` accepts exactly the clear command.** For every state of the buffer and
every user's buffer with 20 bytes to read: it does what it is meant to if and only if it is
given `clear` with a newline. Without the newline the command is refused, and everything else
is accepted. -/
theorem accepts_exact (data : Kbd α) {user : UserMemory}
    (hread : ∀ i < userCmdBufLen, user i ≠ none) (size : ℕ) :
    Accepts data user size ↔ given user = clearCmd ++ [newline] := by
  have hrefused : Refused user ↔ given user = clearCmd :=
    or_iff_right fun ⟨i, hi, hnone⟩ => hread i hi hnone
  constructor
  · intro h
    rcases kbdWrite_eq data user size with ⟨hno, hwrite⟩ | ⟨hyes, hwrite⟩
    · -- the command is refused
      obtain ⟨-, hret⟩ := h.clears (command_eq_iff.mpr (.inl (hrefused.mp hno)))
      rw [hwrite] at hret
      exact absurd efault_neg (not_lt.mpr hret)
    · rw [hrefused] at hyes
      by_cases hcommand : command user = clearCmd
      · exact (command_eq_iff.mp hcommand).resolve_left hyes
      · obtain ⟨hret, -⟩ := h.refuses hcommand
        rw [hwrite] at hret
        exact absurd bufferSize_nonneg (not_le.mpr hret)
  · intro h
    have hyes : ¬Refused user := by
      rw [hrefused, h]
      decide
    obtain ⟨hno, -⟩ | ⟨-, hwrite⟩ := kbdWrite_eq data user size
    · exact absurd hno hyes
    · refine ⟨fun _ => ?_, fun hcommand => absurd (command_of_newline h) hcommand⟩
      rw [hwrite]
      exact ⟨rfl, bufferSize_nonneg⟩

/-- A user's buffer that holds some bytes and then zeros. -/
def holding (bytes : List UInt8) : UserMemory := fun i => some (bytes.getD i 0)

/-- The buffer of the keylogger holds one character. -/
def oneKey : Kbd UInt8 := putChar (Kbd.init 0) 0x61

/-- What `echo` sends clears the buffer. -/
theorem accepts_exact_echo : Accepts oneKey (holding (clearCmd ++ [newline])) 6 :=
  (accepts_exact oneKey (fun i _ => by simp [holding]) 6).mpr (by decide)

/-- **The command is refused**, and a nonsense is accepted and clears the buffer. -/
theorem clear_refused :
    (kbdWrite oneKey (holding clearCmd) 5).1 = -14 ∧
      (kbdWrite oneKey (holding clearCmd) 5).2.queue = [0x61] ∧
      ¬Accepts oneKey (holding clearCmd) 5 ∧
      (kbdWrite oneKey (holding [0x78]) 1).2.queue = [] ∧ ¬Accepts oneKey (holding [0x78]) 1 := by
  refine ⟨by decide, by decide, fun h => ?_, by decide, fun h => ?_⟩
  · exact absurd (h.clears (by decide)).2 (by decide)
  · exact absurd (h.refuses (by decide)).1 (by decide)

/-! ### When it depends on what it was given -/

/-- **`kbd_write` depends on the bytes it was given**: it does the same with two memories, and
does not report more bytes than there were. -/
def Depends (data : Kbd α) (size : ℕ) (user user' : UserMemory) : Prop :=
  kbdWrite data user size = kbdWrite data user' size ∧
    (0 ≤ (kbdWrite data user size).1 → (kbdWrite data user size).1 ≤ size)

/-- It looks at 20 bytes. -/
theorem refused_congr {user' : UserMemory} (h : ∀ i < userCmdBufLen, user i = user' i) :
    Refused user ↔ Refused user' := by
  have hgiven : given user = given user' := by
    refine congrArg chars (List.map_congr_left fun i hi => ?_)
    rw [h i ((List.mem_range.mp hi).trans (by decide))]
  have hnone : (∃ i < userCmdBufLen, user i = none) ↔ ∃ i < userCmdBufLen, user' i = none :=
    exists_congr fun i => and_congr_right fun hi => by rw [h i hi]
  rw [Refused, Refused, hgiven, hnone]

/-- **When `kbd_write` depends on the bytes it was given.** For every state of the buffer,
every size and every two memories that are the same up to it: it does the same with both and
reports no more than the size if and only if the size is 1024 at least, or it refuses both. -/
theorem depends_exact (data : Kbd α) (size : ℕ) {user user' : UserMemory}
    (hagree : ∀ i < size, user i = user' i) :
    Depends data size user user' ↔ bufferSize ≤ size ∨ Refused user ∧ Refused user' := by
  have hdiffer : (-efault, data) ≠ ((bufferSize : ℤ), resetBuffer data) := by
    intro h
    have hret : -efault = (bufferSize : ℤ) := congrArg Prod.fst h
    exact absurd hret (by decide)
  rcases kbdWrite_eq data user size with ⟨hr, hw⟩ | ⟨hr, hw⟩ <;>
    rcases kbdWrite_eq data user' size with ⟨hr', hw'⟩ | ⟨hr', hw'⟩
  · refine iff_of_true ⟨hw.trans hw'.symm, fun hret => ?_⟩ (.inr ⟨hr, hr'⟩)
    rw [hw] at hret
    exact absurd efault_neg (not_lt.mpr hret)
  · refine iff_of_false (fun h => ?_) ?_
    · exact hdiffer (hw.symm.trans (h.1.trans hw'))
    · rintro (hsize | ⟨-, h⟩)
      · exact hr' ((refused_congr fun i hi => hagree i (hi.trans_le
          (le_trans (by decide) hsize))).mp hr)
      · exact hr' h
  · refine iff_of_false (fun h => ?_) ?_
    · exact hdiffer (hw'.symm.trans (h.1.symm.trans hw))
    · rintro (hsize | ⟨h, -⟩)
      · exact hr ((refused_congr fun i hi => hagree i (hi.trans_le
          (le_trans (by decide) hsize))).mpr hr')
      · exact hr h
  · rw [Depends, hw, hw']
    simp only [hr, false_and, or_false, true_and]
    constructor
    · intro h
      exact Int.ofNat_le.mp (h (Int.natCast_nonneg _))
    · exact fun h _ => Int.ofNat_le.mpr h

/-- A whole page with the command in it, and behind it another, or none that can be read. -/
theorem depends_exact_page :
    let user := holding (clearCmd ++ [newline])
    let user' : UserMemory := fun i => if i < 4096 then user i else none
    user 4096 ≠ user' 4096 ∧ Depends oneKey 4096 user user' :=
  ⟨by decide, (depends_exact oneKey 4096 fun _ hi => (if_pos hi).symm).mpr (.inl (by decide))⟩

/-- **Five bytes, and what comes after them**: with a NUL there the write is refused, with an
exclamation mark the buffer is cleared and 1024 bytes are reported. -/
theorem looks_behind :
    (∀ i < 5, holding clearCmd i = holding (clearCmd ++ [0x21]) i) ∧
      (kbdWrite oneKey (holding clearCmd) 5).1 = -14 ∧
      (kbdWrite oneKey (holding (clearCmd ++ [0x21])) 5).1 = 1024 ∧
      ¬Depends oneKey 5 (holding clearCmd) (holding (clearCmd ++ [0x21])) := by
  refine ⟨by decide, by decide, by decide, fun h => ?_⟩
  exact absurd (congrArg Prod.fst h.1) (by decide)

end Command

end Keylogger

end KernelModules
