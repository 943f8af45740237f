import KernelModules.CharDevice.Ioctl
import KernelModules.Lib.Memory

/-!
# Setting and getting the message

`KernelModules.CharDevice.body` takes the calls on the message of `char_device.c` byte by
byte. Here each function is run to its end, on any contents of the message and of the
user's memory: `device_read` and `device_write`, which processes also reach with `read(2)`
and `write(2)`, the three `ioctl` calls, and what `userspace_ioctl.c` makes of the last of
them. What the two have in common is the same: `KernelModules.CharDevice.run_setMsg` and
`KernelModules.CharDevice.run_getMsg`.

There are two ways to set the message and three to get it, and one string behind them, the
bytes before the first NUL (`KernelModules.CharDevice.Stores`). They do not all agree:

* `IOCTL_SET_MSG` of the empty string sets nothing
  (`KernelModules.CharDevice.round_trip_exact`);
* `write(2)` leaves out the NUL that `IOCTL_SET_MSG` writes
  (`KernelModules.CharDevice.setters_agree_exact`);
* `IOCTL_GET_NTH_BYTE` turns a byte of 0x80 or more into an error where `char` is signed
  (`KernelModules.CharDevice.getters_agree_exact`).
-/

namespace KernelModules

namespace CharDevice

/-! ### The functions, run to their end -/

/-- The loop of `device_read`, from position `p` on. -/
def readLoop (message : ℕ → BitVec 8) : ℕ → ℕ → List (BitVec 8)
  | 0, _ => []
  | length + 1, p => if message p = 0 then [] else message p :: readLoop message length (p + 1)

/-- `device_read`: what it has put in the user's buffer, whose length it returns, and the
offset it leaves. -/
def deviceRead (message : ℕ → BitVec 8) (length offset : ℕ) : List (BitVec 8) × ℕ :=
  if message offset = 0 then ([], 0)
  else
    let out := readLoop message length offset
    (out, offset + out.length)

/-- The loop of `device_write`, with room for so many bytes more. -/
def writeLoop (user : ℕ → BitVec 8) (length : ℕ) :
    ℕ → ℕ → (ℕ → BitVec 8) → ℕ × (ℕ → BitVec 8)
  | 0, i, message => (i, message)
  | room + 1, i, message =>
    if i < length then writeLoop user length room (i + 1) (Function.update message i (user i))
    else (i, message)

/-- `device_write`: what it returns, and the message it leaves. -/
def deviceWrite (message user : ℕ → BitVec 8) (length : ℕ) : ℕ × (ℕ → BitVec 8) :=
  writeLoop user length bufLen 0 message

/-- The loop of `IOCTL_SET_MSG` that looks for the end of the string. -/
def scanLoop (user : ℕ → BitVec 8) : ℕ → ℕ → BitVec 8 → ℕ
  | 0, i, _ => i
  | room + 1, i, ch => if ch ≠ 0 then scanLoop user room (i + 1) (user i) else i

/-- `IOCTL_SET_MSG`: the message it leaves. -/
def ioctlSetMsg (message user : ℕ → BitVec 8) : ℕ → BitVec 8 :=
  (deviceWrite message user (scanLoop user bufLen 0 (user 0))).2

/-- `IOCTL_GET_MSG`: what it has put in the user's buffer. -/
def ioctlGetMsg (message : ℕ → BitVec 8) : List (BitVec 8) := (deviceRead message 99 0).1 ++ [0]

/-- `IOCTL_GET_NTH_BYTE`: what it returns. -/
def ioctlGetNthByte (signed : Bool) (message : ℕ → BitVec 8) (i : ℕ) : ℤ :=
  charToLong signed (message i)

/-- `ioctl(2)`, as the C library has it: what looks like an error number is -1. -/
def ioctl (ret : ℤ) : ℤ := if -4095 ≤ ret ∧ ret < 0 then -1 else ret

/-- What comes of `ioctl_get_nth_byte`. -/
inductive Printed where
  /-- The loop has ended; these are the bytes printed before the last. -/
  | ended (out : List (BitVec 8)) : Printed
  /-- It has given up. -/
  | failed : Printed
deriving DecidableEq

/-- One more byte has been printed before. -/
def Printed.cons (b : BitVec 8) : Printed → Printed
  | .ended out => .ended (b :: out)
  | .failed => .failed

/-- The loop of `ioctl_get_nth_byte`, with so many calls at most. -/
def nthLoop (signed : Bool) (message : ℕ → BitVec 8) : ℕ → ℕ → Option Printed
  | 0, _ => none
  | calls + 1, i =>
    let c := ioctl (ioctlGetNthByte signed message i)
    if c < 0 then some .failed
    else if c = 0 then some (.ended [])
    else (nthLoop signed message calls (i + 1)).map (Printed.cons (BitVec.ofInt 8 c))

/-- Reads of given lengths from an offset on, up to the first that returns 0: what they have
put in the user's buffer; `none` if there is no such read. -/
def readAll (message : ℕ → BitVec 8) : ℕ → List ℕ → Option (List (BitVec 8))
  | _, [] => none
  | offset, length :: lengths =>
    let r := deviceRead message length offset
    if r.1.length = 0 then some [] else (readAll message r.2 lengths).map (r.1 ++ ·)

/-- **The message reads back as a string**, in whatever pieces it is read. -/
def ReadsBack (message : ℕ → BitVec 8) (str : List (BitVec 8)) : Prop :=
  ∀ lengths : List ℕ, (∀ length ∈ lengths, 0 < length) → str.length < lengths.length →
    readAll message 0 lengths = some str

/-- Bytes in the user's memory, with anything behind them. -/
def inMemory (str : List (BitVec 8)) (rest : ℕ → BitVec 8) : ℕ → BitVec 8 := fun i =>
  if i < str.length then str.getD i 0 else rest i

/-- A string in the user's memory, with a NUL at its end and anything behind it. -/
def cString (str : List (BitVec 8)) (rest : ℕ → BitVec 8) : ℕ → BitVec 8 :=
  inMemory str fun i => if i = str.length then 0 else rest i

/-! ### The string in the message -/

/-- What the loop of `device_read` copies: the bytes up to a NUL, or as many as asked for. -/
theorem readLoop_spec (message : ℕ → BitVec 8) : ∀ (length p : ℕ),
    (readLoop message length p).length ≤ length ∧ 0 ∉ readLoop message length p ∧
      (∀ i < (readLoop message length p).length,
        message (p + i) = (readLoop message length p).getD i 0) ∧
      ((readLoop message length p).length < length →
        message (p + (readLoop message length p).length) = 0)
  | 0, p => by simp [readLoop]
  | length + 1, p => by
    obtain ⟨hlen, hnul, hbytes, hend⟩ := readLoop_spec message length (p + 1)
    rw [readLoop]
    split
    · rename_i hz
      simp [hz]
    · rename_i hz
      refine ⟨by simpa using hlen, by simpa using ⟨Ne.symm hz, hnul⟩, fun i hi => ?_, fun hlt => ?_⟩
      · rcases i with - | i
        · rfl
        · rw [← Nat.add_assoc, Nat.add_right_comm, hbytes i (by simpa using hi)]
          rfl
      · rw [List.length_cons, ← Nat.add_assoc, Nat.add_right_comm]
        exact hend (by simpa using hlt)

/-- **There is a string in the message**: the last byte is a NUL. -/
theorem exists_stores {message : ℕ → BitVec 8} (hfinal : message bufLen = 0) :
    ∃ str, Stores message str := by
  obtain ⟨hlen, hnul, hbytes, hend⟩ := readLoop_spec message bufLen 0
  simp only [Nat.zero_add] at hbytes hend
  refine ⟨readLoop message bufLen 0, hlen, hnul, fun i hi => ?_, hfinal⟩
  rcases Nat.lt_or_eq_of_le hi with hlt | rfl
  · exact hbytes i hlt
  · rw [List.getD_eq_default _ _ le_rfl]
    rcases Nat.lt_or_eq_of_le hlen with hlt | heq
    · exact hend hlt
    · rw [heq, hfinal]

/-- A byte of the string. -/
theorem Stores.byte {message : ℕ → BitVec 8} {m : List (BitVec 8)} (h : Stores message m) {i : ℕ}
    (hi : i < m.length) : message i = m[i] := by
  rw [h.bytes i hi.le, List.getD_eq_getElem _ _ hi]

theorem Stores.ne_zero {message : ℕ → BitVec 8} {m : List (BitVec 8)} (h : Stores message m)
    {i : ℕ} (hi : i < m.length) : message i ≠ 0 := fun hz =>
  hi.ne ((h.eq_zero_iff hi.le).mp hz)

theorem Stores.nul {message : ℕ → BitVec 8} {m : List (BitVec 8)} (h : Stores message m) :
    message m.length = 0 := (h.eq_zero_iff le_rfl).mpr rfl

/-- There is one string in the message. -/
theorem Stores.unique {message : ℕ → BitVec 8} {m m' : List (BitVec 8)} (h : Stores message m)
    (h' : Stores message m') : m = m' := by
  have hle : ∀ {m m' : List (BitVec 8)}, Stores message m → Stores message m' →
      m'.length ≤ m.length := by
    intro m m' h h'
    by_contra hlt
    exact h'.ne_zero (by omega) h.nul
  have hlen : m.length = m'.length := Nat.le_antisymm (hle h' h) (hle h h')
  refine List.ext_getElem hlen fun i hi hi' => ?_
  exact (h.byte hi).symm.trans (h'.byte hi')

/-! ### Getting it -/

section

variable {message : ℕ → BitVec 8} {str : List (BitVec 8)}

/-- **What the loop of `device_read` copies** of the string. -/
theorem readLoop_of_stores (h : Stores message str) : ∀ (length : ℕ) {p : ℕ}, p ≤ str.length →
    readLoop message length p = (str.drop p).take length
  | 0, _, _ => by simp [readLoop]
  | length + 1, p, hp => by
    rw [readLoop]
    rcases Nat.lt_or_eq_of_le hp with hlt | rfl
    · rw [if_neg (h.ne_zero hlt), readLoop_of_stores h length hlt, List.drop_eq_getElem_cons hlt,
        List.take_succ_cons, h.byte hlt]
    · rw [if_pos h.nul, List.drop_length, List.take_nil]

/-- **`device_read`**, before the end of the string. -/
theorem deviceRead_of_lt (h : Stores message str) {offset : ℕ} (hoffset : offset < str.length)
    (length : ℕ) : deviceRead message length offset =
      ((str.drop offset).take length, offset + ((str.drop offset).take length).length) := by
  rw [deviceRead, if_neg (h.ne_zero hoffset), readLoop_of_stores h length hoffset.le]

/-- **`device_read`**, at the end of the string. -/
theorem deviceRead_end (h : Stores message str) (length : ℕ) :
    deviceRead message length str.length = ([], 0) := by
  rw [deviceRead, if_pos h.nul]

/-- **Reads give the rest of the string**, in any pieces. -/
theorem readAll_of_stores (h : Stores message str) : ∀ {lengths : List ℕ} {offset : ℕ},
    (∀ length ∈ lengths, 0 < length) → offset ≤ str.length →
      str.length - offset < lengths.length → readAll message offset lengths = some (str.drop offset)
  | length :: lengths, offset, hpos, hoffset, hlen => by
    have hlength : 0 < length := hpos length List.mem_cons_self
    rw [readAll]
    rcases Nat.lt_or_eq_of_le hoffset with hlt | rfl
    · have htake : ((str.drop offset).take length).length = min length (str.length - offset) := by
        simp
      rw [List.length_cons] at hlen
      have hrest : readAll message (offset + ((str.drop offset).take length).length) lengths =
          some (str.drop (offset + ((str.drop offset).take length).length)) :=
        readAll_of_stores h (fun n hn => hpos n (List.mem_cons_of_mem length hn)) (by omega)
          (by omega)
      simp only [deviceRead_of_lt h hlt, hrest, Option.map_some]
      rw [if_neg (by omega), ← List.drop_drop,
        List.prefix_iff_eq_append.mp (List.take_prefix length (str.drop offset))]
    · simp [deviceRead_end h]

/-- **The message reads back as its string**, and as no other. -/
theorem readsBack_iff (h : Stores message str) {str' : List (BitVec 8)} :
    ReadsBack message str' ↔ str' = str := by
  constructor
  · -- enough reads of one byte each
    intro hread
    have hlengths : ∀ length ∈ List.replicate (str'.length + str.length + 1) 1, 0 < length :=
      fun length hlength => by simp [List.eq_of_mem_replicate hlength]
    have hread' := hread _ hlengths (by rw [List.length_replicate]; omega)
    rw [readAll_of_stores h hlengths (Nat.zero_le _) (by rw [List.length_replicate]; omega)]
      at hread'
    exact (Option.some.inj hread').symm
  · rintro rfl lengths hpos hlen
    exact readAll_of_stores h hpos (Nat.zero_le _) (by omega)

/-- **`IOCTL_GET_MSG` gets the string.** -/
theorem ioctlGetMsg_of_stores (h : Stores message str) : ioctlGetMsg message = str ++ [0] := by
  have hshort := h.short
  have hroom : str.length ≤ 99 := hshort.trans (by decide)
  rw [ioctlGetMsg]
  rcases Nat.eq_zero_or_pos str.length with hz | hpos
  · have hend := deviceRead_end h 99
    rw [hz] at hend
    rw [hend, List.eq_nil_of_length_eq_zero hz]
  · rw [deviceRead_of_lt h hpos, List.drop_zero, List.take_of_length_le hroom]

/-- A byte of the string, as `ioctl_get_nth_byte` gets it. -/
theorem ioctl_charToLong (signed : Bool) {b : BitVec 8} :
    ioctl (charToLong signed b) = if signed = true ∧ 128 ≤ b.toNat then -1 else (b.toNat : ℤ) := by
  have hlt := b.isLt
  rw [ioctl, charToLong]
  cases signed with
  | true =>
    simp only [if_true, true_and]
    rcases Nat.lt_or_ge b.toNat 128 with hsmall | hlarge
    · rw [BitVec.toInt_eq_toNat_of_lt (by omega), if_neg (by omega), if_neg (by omega)]
    · have hint : b.toInt = b.toNat - 256 := by
        rw [BitVec.toInt_eq_toNat_cond, if_neg (by omega)]
        rfl
      rw [if_pos (by omega), if_pos hlarge]
  | false =>
    simp only [Bool.false_eq_true, if_false, false_and]
    rw [if_neg (by omega)]

/-- **What `ioctl_get_nth_byte` prints** is the string, from a position on, unless it meets a
byte it takes for an error. -/
theorem nthLoop_of_stores (h : Stores message str) (signed : Bool) : ∀ (calls : ℕ) {i : ℕ},
    i ≤ str.length → str.length - i < calls → nthLoop signed message calls i =
      if signed = true ∧ ∃ b ∈ str.drop i, 128 ≤ b.toNat then some .failed
      else some (.ended (str.drop i))
  | calls + 1, i, hi, hcalls => by
    rw [nthLoop, ioctlGetNthByte]
    simp only [ioctl_charToLong]
    rcases Nat.lt_or_eq_of_le hi with hlt | rfl
    · have hrest := nthLoop_of_stores h signed calls hlt (by omega)
      have hpos : 0 < (message i).toNat :=
        Nat.pos_of_ne_zero fun hz => h.ne_zero hlt (BitVec.eq_of_toNat_eq hz)
      rw [List.drop_eq_getElem_cons hlt, ← h.byte hlt, hrest]
      by_cases hbad : signed = true ∧ 128 ≤ (message i).toNat
      · rw [if_pos hbad, if_pos (by omega), if_pos ⟨hbad.1, _, List.mem_cons_self, hbad.2⟩]
      · rw [if_neg hbad, if_neg (by omega), if_neg (by omega)]
        have hiff : (signed = true ∧ ∃ b ∈ message i :: str.drop (i + 1), 128 ≤ b.toNat) ↔
            signed = true ∧ ∃ b ∈ str.drop (i + 1), 128 ≤ b.toNat := by
          simp only [List.mem_cons, exists_eq_or_imp]
          tauto
        rw [if_congr hiff rfl rfl]
        split
        · rfl
        · simp [Printed.cons]
    · simp [h.nul]

end

/-! ### Setting it -/

section

variable {message user : ℕ → BitVec 8} {str : List (BitVec 8)}

/-- What the loop of `device_write` stores. -/
theorem writeLoop_eq (user : ℕ → BitVec 8) (length : ℕ) : ∀ (room i : ℕ) (message : ℕ → BitVec 8),
    writeLoop user length room i message = (i + min room (length - i),
      store message i (min room (length - i)) fun j => user (i + j))
  | 0, i, message => by simp [writeLoop]
  | room + 1, i, message => by
    rw [writeLoop]
    split
    · rename_i hlt
      have hmin : min (room + 1) (length - i) = 1 + min room (length - (i + 1)) := by omega
      have hfirst : Function.update message i (user i) = store message i 1 fun j => user (i + j) :=
        (store_one message i fun j => user (i + j)).symm
      have hshift : (fun j => user (i + 1 + j)) = fun j => user (i + (1 + j)) := by
        funext j
        rw [Nat.add_assoc]
      rw [writeLoop_eq user length room (i + 1), hmin, hfirst, hshift,
        store_add message i 1 _ fun j => user (i + j)]
      congr 1
      omega
    · have hmin : min (room + 1) (length - i) = 0 := by omega
      simp [hmin]

/-- **`device_write`** stores what there is room for. -/
theorem deviceWrite_eq (message user : ℕ → BitVec 8) (length : ℕ) :
    deviceWrite message user length =
      (min bufLen length, store message 0 (min bufLen length) user) := by
  rw [deviceWrite, writeLoop_eq]
  simp

/-- The last byte is never written. -/
theorem deviceWrite_final (message user : ℕ → BitVec 8) (length : ℕ) :
    (deviceWrite message user length).2 bufLen = message bufLen := by
  rw [deviceWrite_eq]
  exact store_outside (by omega)

/-- The scan, once it has looked at a byte: up to the NUL at position `n`, included. -/
theorem scanLoop_eq {n : ℕ} (huser : ∀ i, i ≤ n → (user i = 0 ↔ i = n)) :
    ∀ (room : ℕ) {i : ℕ}, i ≤ n →
      scanLoop user room (i + 1) (user i) = min (n + 1) (i + 1 + room)
  | 0, i, hi => by
    rw [scanLoop]
    omega
  | room + 1, i, hi => by
    rw [scanLoop]
    split
    · rename_i hne
      have hlt : i < n := Nat.lt_of_le_of_ne hi fun heq => hne ((huser i hi).mpr heq)
      rw [scanLoop_eq huser room hlt]
      omega
    · rename_i hz
      have heq : i = n := (huser i hi).mp (by simpa using hz)
      omega

/-- **How many bytes the scan finds**: none in the empty string; else up to the NUL,
included, and no more than there is room for. -/
theorem scan_eq {n : ℕ} (huser : ∀ i, i ≤ n → (user i = 0 ↔ i = n)) :
    scanLoop user bufLen 0 (user 0) = if n = 0 then 0 else min (n + 1) bufLen := by
  have hfirst : user 0 = 0 ↔ n = 0 := (huser 0 (Nat.zero_le n)).trans eq_comm
  rw [bufLen, scanLoop]
  by_cases hn : n = 0
  · rw [if_pos hn, if_neg (by simpa using hfirst.mpr hn)]
  · have hne : user 0 ≠ 0 := fun hz => hn (hfirst.mp hz)
    rw [if_neg hn, if_pos hne, scanLoop_eq huser 79 (Nat.zero_le n)]

theorem cString_of_le (rest : ℕ → BitVec 8) {i : ℕ} (hi : i ≤ str.length) :
    cString str rest i = str.getD i 0 := by
  rw [cString, inMemory]
  split
  · rfl
  · have heq : i = str.length := by omega
    rw [if_pos heq, List.getD_eq_default _ _ heq.ge]

/-- A string in memory ends at its NUL. -/
theorem cString_eq_zero_iff (hnul : 0 ∉ str) (rest : ℕ → BitVec 8) {i : ℕ} (hi : i ≤ str.length) :
    cString str rest i = 0 ↔ i = str.length := by
  rw [cString_of_le rest hi, getD_eq_zero_iff hnul]
  omega

/-- **`IOCTL_SET_MSG` of the empty string** sets nothing. -/
theorem ioctlSetMsg_nil (message rest : ℕ → BitVec 8) :
    ioctlSetMsg message (cString [] rest) = message := by
  have hnul : (0 : BitVec 8) ∉ [] := List.not_mem_nil
  have hscan := scan_eq fun i hi => cString_eq_zero_iff hnul rest hi
  rw [ioctlSetMsg, hscan, deviceWrite_eq]
  simp

/-- **`IOCTL_SET_MSG` of any other** sets the message to it, as far as there is room. -/
theorem stores_ioctlSetMsg (hfinal : message bufLen = 0) (hne : str ≠ []) (hnul : 0 ∉ str)
    (rest : ℕ → BitVec 8) :
    Stores (ioctlSetMsg message (cString str rest)) (str.take bufLen) := by
  have hscan := scan_eq fun i hi => cString_eq_zero_iff hnul rest hi
  rw [if_neg (by simpa using hne)] at hscan
  have hmin : min bufLen (min (str.length + 1) bufLen) = min (str.length + 1) bufLen := by omega
  rw [ioctlSetMsg, hscan, deviceWrite_eq, hmin]
  refine stores_cut (t := ⟨str, hne, hnul⟩) (fun j hj => ?_) ?_
  · have hj : j < min (str.length + 1) bufLen := hj
    refine (store_inside (Nat.zero_le j) (by omega)).trans ?_
    rw [Nat.sub_zero]
    exact cString_of_le rest (by omega)
  · rw [← hfinal]
    exact store_outside (by omega)

end

/-! ### The calls, byte by byte -/

/-- One place of a call leads to another. -/
def Leads (signed : Bool) (a b : (ℕ → BitVec 8) × Pc) : Prop :=
  ∃ acts : List Unit, run (fun p _ => body signed p.1 p.2) a acts = b

section

variable {signed : Bool} {message : ℕ → BitVec 8}

theorem Leads.refl (a : (ℕ → BitVec 8) × Pc) : Leads signed a a := ⟨[], rfl⟩

/-- The next place leads there. -/
theorem Leads.step {a b : (ℕ → BitVec 8) × Pc} (h : Leads signed (body signed a.1 a.2) b) :
    Leads signed a b := by
  obtain ⟨acts, hacts⟩ := h
  exact ⟨() :: acts, hacts⟩

theorem leads_setWrite (t : Text) (length : ℕ) {b : (ℕ → BitVec 8) × Pc} :
    ∀ (room : ℕ) {i : ℕ} {message : ℕ → BitVec 8}, i + room = bufLen →
      Leads signed ((writeLoop t.user length room i message).2, .release 0 []) b →
        Leads signed (message, .setWrite t i length) b
  | 0, i, message, hi, h => by
    refine Leads.step ?_
    rw [body, if_neg (by omega)]
    exact h
  | room + 1, i, message, hi, h => by
    refine Leads.step ?_
    rw [writeLoop] at h
    by_cases hlt : i < length
    · rw [if_pos hlt] at h
      rw [body, if_pos ⟨hlt, by omega⟩]
      exact leads_setWrite t length room (by omega) h
    · rw [if_neg hlt] at h
      rw [body, if_neg (by omega)]
      exact h

theorem leads_setScan (t : Text) {b : (ℕ → BitVec 8) × Pc} :
    ∀ (room : ℕ) {i : ℕ} {ch : BitVec 8}, i + room = bufLen →
      Leads signed (message, .setWrite t 0 (scanLoop t.user room i ch)) b →
        Leads signed (message, .setScan t i ch) b
  | 0, i, ch, hi, h => by
    refine Leads.step ?_
    rw [body, if_neg (by omega)]
    exact h
  | room + 1, i, ch, hi, h => by
    refine Leads.step ?_
    rw [scanLoop] at h
    by_cases hch : ch ≠ 0
    · rw [if_pos hch] at h
      rw [body, if_pos ⟨hch, by omega⟩]
      exact leads_setScan t room (by omega) h
    · rw [if_neg hch] at h
      rw [body, if_neg (fun hgo => hch hgo.1)]
      exact h

/-- **`IOCTL_SET_MSG`, byte by byte**, leaves the message of `ioctlSetMsg`. -/
theorem run_setMsg (message : ℕ → BitVec 8) (t : Text) :
    Leads signed (message, .setFirst t) (ioctlSetMsg message t.user, .release 0 []) := by
  refine Leads.step (leads_setScan t bufLen (Nat.zero_add _) ?_)
  exact leads_setWrite t _ bufLen (Nat.zero_add _) (Leads.refl _)

theorem leads_getTest {b : (ℕ → BitVec 8) × Pc} :
    ∀ (length : ℕ) {out : List (BitVec 8)},
      Leads signed (message, .getNul (out ++ readLoop message length out.length)) b →
        Leads signed (message, .getTest length out) b
  | 0, out, h => by
    refine Leads.step ?_
    rw [body, if_neg (by simp)]
    simpa [readLoop] using h
  | length + 1, out, h => by
    refine Leads.step ?_
    rw [readLoop] at h
    by_cases hz : message out.length = 0
    · rw [if_pos hz, List.append_nil] at h
      rw [body, if_neg (by simp [hz])]
      exact h
    · rw [if_neg hz, List.append_cons] at h
      rw [body, if_pos ⟨by simp, hz⟩]
      refine Leads.step (leads_getTest length ?_)
      simpa using h

/-- **`IOCTL_GET_MSG`, byte by byte**, gets what `ioctlGetMsg` does. -/
theorem run_getMsg (message : ℕ → BitVec 8) :
    Leads signed (message, .getFirst) (message, .release 0 (ioctlGetMsg message)) := by
  refine Leads.step ?_
  rw [ioctlGetMsg, deviceRead, body]
  split
  · exact Leads.step (Leads.refl _)
  · exact leads_getTest 99 (Leads.step (Leads.refl _))

end

/-! ### Which ways agree -/

/-- **What is set is what one gets**, unless it is the empty string and there was another. -/
theorem round_trip_exact (message : ℕ → BitVec 8) (hfinal : message bufLen = 0)
    (str : List (BitVec 8)) (hnul : 0 ∉ str) (rest : ℕ → BitVec 8) :
    ioctlGetMsg (ioctlSetMsg message (cString str rest)) = str.take bufLen ++ [0] ↔
      str ≠ [] ∨ message 0 = 0 := by
  rcases eq_or_ne str [] with rfl | hne
  · obtain ⟨old, hold⟩ := exists_stores hfinal
    rw [ioctlSetMsg_nil, ioctlGetMsg_of_stores hold]
    have hempty : message 0 = 0 ↔ old = [] := by
      rw [hold.eq_zero_iff (Nat.zero_le _), eq_comm, List.length_eq_zero_iff]
    simpa using hempty.symm
  · refine iff_of_true ?_ (.inl hne)
    exact ioctlGetMsg_of_stores (stores_ioctlSetMsg hfinal hne hnul rest)

/-- A message that says "hello". -/
def hello : ℕ → BitVec 8 := cString [104, 101, 108, 108, 111] fun _ => 0

/-- A shorter string in its place. -/
theorem round_trip_hi :
    ioctlGetMsg (ioctlSetMsg hello (cString [104, 105] fun _ => 0)) = [104, 105, 0] :=
  (round_trip_exact hello rfl [104, 105] (by decide) fun _ => 0).mpr (.inl (by simp))

/-- **The empty string does not replace it.** -/
theorem empty_not_set :
    ioctlGetMsg (ioctlSetMsg hello (cString [] fun _ => 0)) = [104, 101, 108, 108, 111, 0] ∧
      ioctlGetMsg (ioctlSetMsg hello (cString [] fun _ => 0)) ≠ List.take bufLen [] ++ [0] := by
  decide

/-- A message that reads back as a string holds it. -/
theorem readsBack_iff_stores {message : ℕ → BitVec 8} (hfinal : message bufLen = 0)
    {str : List (BitVec 8)} : ReadsBack message str ↔ Stores message str := by
  obtain ⟨held, hheld⟩ := exists_stores hfinal
  refine (readsBack_iff hheld).trans ⟨?_, fun hstr => hstr.unique hheld⟩
  rintro rfl
  exact hheld

/-- **The string `write(2)` leaves in the message** is the one written if there is a NUL
behind it. -/
theorem stores_deviceWrite_iff {message : ℕ → BitVec 8} (hfinal : message bufLen = 0)
    {str : List (BitVec 8)} (hnul : 0 ∉ str) (rest : ℕ → BitVec 8) :
    Stores (deviceWrite message (inMemory str rest) str.length).2 (str.take bufLen) ↔
      bufLen ≤ str.length ∨ message str.length = 0 := by
  have hinside : ∀ i, i < min bufLen str.length →
      (deviceWrite message (inMemory str rest) str.length).2 i = str.getD i 0 := by
    intro i hi
    rw [deviceWrite_eq]
    refine (store_inside (Nat.zero_le i) (by omega)).trans ?_
    rw [Nat.sub_zero, inMemory, if_pos (by omega)]
  have houtside : ∀ i, min bufLen str.length ≤ i →
      (deviceWrite message (inMemory str rest) str.length).2 i = message i := by
    intro i hi
    rw [deviceWrite_eq]
    exact store_outside (by omega)
  constructor
  · intro h
    rcases Nat.lt_or_ge str.length bufLen with hlt | hge
    · rw [List.take_of_length_le hlt.le] at h
      refine .inr ?_
      rw [← houtside str.length (by omega), h.nul]
    · exact .inl hge
  · intro h
    refine ⟨by simp, fun hz => hnul (List.mem_of_mem_take hz), fun i hi => ?_, ?_⟩
    · rw [List.length_take] at hi
      rcases Nat.lt_or_eq_of_le hi with hlt | rfl
      · rw [hinside i hlt]
        simp [List.getD_eq_getElem?_getD, show i < bufLen by omega]
      · rw [houtside _ le_rfl, List.getD_eq_default _ _ (by simp)]
        rcases Nat.lt_or_ge str.length bufLen with hlt | hge
        · rw [Nat.min_eq_right hlt.le]
          exact h.resolve_left (by omega)
        · rw [Nat.min_eq_left hge, hfinal]
    · rw [houtside bufLen (Nat.min_le_left _ _), hfinal]

/-- A call that sets the message. -/
inductive Setter where
  /-- `write(2)`. -/
  | write (user : ℕ → BitVec 8) (length : ℕ) : Setter
  /-- `IOCTL_SET_MSG`. -/
  | setMsg (user : ℕ → BitVec 8) : Setter

/-- The message it leaves. -/
def set (message : ℕ → BitVec 8) : Setter → ℕ → BitVec 8
  | .write user length => (deviceWrite message user length).2
  | .setMsg user => ioctlSetMsg message user

/-- The last byte of the message is a NUL. -/
theorem set_final (beyond : ℕ → BitVec 8) (calls : List Setter) :
    run set (Sys.start beyond).message calls bufLen = 0 := by
  have hset : ∀ (message : ℕ → BitVec 8) (call : Setter), message bufLen = 0 →
      set message call bufLen = 0 := by
    intro message call hfinal
    cases call with
    | write user length => exact (deviceWrite_final message user length).trans hfinal
    | setMsg user => exact (deviceWrite_final message user _).trans hfinal
  exact run_invariant set hset calls (stores_start beyond).final

/-- **The two ways to set the message agree**: it reads back as the string, either way. -/
def SettersAgree (message : ℕ → BitVec 8) (str : List (BitVec 8)) (rest : ℕ → BitVec 8) : Prop :=
  ReadsBack (deviceWrite message (inMemory str rest) str.length).2 (str.take bufLen) ∧
    ReadsBack (ioctlSetMsg message (cString str rest)) (str.take bufLen)

/-- **`write(2)` and `IOCTL_SET_MSG` agree if there happens to be a NUL behind the string**: it
fills the message, or an earlier one has left a NUL there. -/
theorem setters_agree_exact (beyond : ℕ → BitVec 8) (calls : List Setter)
    (str : List (BitVec 8)) (hne : str ≠ []) (hnul : 0 ∉ str) (rest : ℕ → BitVec 8) :
    SettersAgree (run set (Sys.start beyond).message calls) str rest ↔
      bufLen ≤ str.length ∨ run set (Sys.start beyond).message calls str.length = 0 := by
  have hfinal := set_final beyond calls
  have hwrite : (deviceWrite (run set (Sys.start beyond).message calls) (inMemory str rest)
      str.length).2 bufLen = 0 := (deviceWrite_final ..).trans hfinal
  have hset := stores_ioctlSetMsg hfinal hne hnul rest
  rw [SettersAgree, readsBack_iff_stores hwrite, readsBack_iff_stores hset.final,
    and_iff_left hset]
  exact stores_deviceWrite_iff hfinal hnul rest

/-- The first string that is set. -/
theorem setters_agree_first :
    SettersAgree (run set (Sys.start fun _ => 0).message []) [104, 105] fun _ => 0 :=
  (setters_agree_exact (fun _ => 0) [] [104, 105] (by simp) (by decide) fun _ => 0).mpr
    (.inr rfl)

/-- **A shorter string written over a longer one**: "hi" over "hello" reads back as "hillo". -/
theorem setters_differ :
    readAll (deviceWrite (run set (Sys.start fun _ => 0).message
        [.setMsg (cString [104, 101, 108, 108, 111] fun _ => 0)])
      (inMemory [104, 105] fun _ => 0) 2).2 0 [100, 100, 100] = some [104, 105, 108, 108, 111] ∧
    ¬SettersAgree (run set (Sys.start fun _ => 0).message
        [.setMsg (cString [104, 101, 108, 108, 111] fun _ => 0)]) [104, 105] fun _ => 0 := by
  have hread : readAll (deviceWrite (run set (Sys.start fun _ => 0).message
        [.setMsg (cString [104, 101, 108, 108, 111] fun _ => 0)])
      (inMemory [104, 105] fun _ => 0) 2).2 0 [100, 100, 100]
        = some [104, 105, 108, 108, 111] := by decide
  refine ⟨hread, fun h => ?_⟩
  have hback := h.1 [100, 100, 100] (by simp) (by simp)
  exact absurd (hread.symm.trans hback) (by decide)

/-- **The three ways to get the message agree** on a string, and the last of them takes no
more than 81 calls. -/
def GettersAgree (signed : Bool) (message : ℕ → BitVec 8) : Prop :=
  ∃ str, ReadsBack message str ∧ ioctlGetMsg message = str ++ [0] ∧
    nthLoop signed message 81 0 = some (.ended str)

/-- **`read(2)` and `IOCTL_GET_MSG` always agree, and `IOCTL_GET_NTH_BYTE` with them if `char`
is unsigned or no byte before the first NUL is 0x80 or more.** -/
theorem getters_agree_exact (signed : Bool) (message : ℕ → BitVec 8)
    (hfinal : message bufLen = 0) : GettersAgree signed message ↔
      signed = false ∨ ∀ i, (∀ j ≤ i, message j ≠ 0) → (message i).toNat < 128 := by
  obtain ⟨str, hstr⟩ := exists_stores hfinal
  have hshort : str.length < 81 := Nat.lt_succ_of_le hstr.short
  have hloop := nthLoop_of_stores hstr signed 81 (Nat.zero_le _) hshort
  rw [List.drop_zero] at hloop
  have hbytes : (∀ i, (∀ j ≤ i, message j ≠ 0) → (message i).toNat < 128) ↔
      ∀ b ∈ str, b.toNat < 128 := by
    constructor
    · intro h b hb
      obtain ⟨i, hi, rfl⟩ := List.mem_iff_getElem.mp hb
      rw [← hstr.byte hi]
      exact h i fun j hj => hstr.ne_zero (by omega)
    · intro h i hi
      have hlt : i < str.length := by
        by_contra hge
        exact hi str.length (by omega) hstr.nul
      rw [hstr.byte hlt]
      exact h _ (List.getElem_mem hlt)
  rw [hbytes]
  constructor
  · rintro ⟨str', hread, -, hended⟩
    obtain rfl := (readsBack_iff hstr).mp hread
    rw [hloop] at hended
    by_contra hbad
    push Not at hbad
    obtain ⟨hsigned, b, hb, hlarge⟩ := hbad
    rw [if_pos ⟨by simpa using hsigned, b, hb, hlarge⟩] at hended
    exact absurd hended (by simp)
  · intro hok
    refine ⟨str, (readsBack_iff hstr).mpr rfl, ioctlGetMsg_of_stores hstr, ?_⟩
    rw [hloop, if_neg]
    rintro ⟨hsigned, b, hb, hlarge⟩
    rcases hok with hunsigned | hsmall
    · exact absurd (hunsigned.symm.trans hsigned) (by simp)
    · exact absurd (hsmall b hb) (by omega)

theorem getters_agree_hello : GettersAgree true hello := by
  refine (getters_agree_exact true hello rfl).mpr (.inr fun i hi => ?_)
  have hlt : i < 5 := by
    by_contra hge
    exact hi 5 (by omega) rfl
  have hall : ∀ i < 5, (hello i).toNat < 128 := by decide
  exact hall i hlt

/-- **A byte of 0x80 or more, and a signed `char`**: `ioctl_get_nth_byte` gives up where the
other two get the byte. -/
theorem getters_differ :
    nthLoop true (cString [0xe9] fun _ => 0) 81 0 = some .failed ∧
      ioctlGetMsg (cString [0xe9] fun _ => 0) = [0xe9, 0] ∧
        ¬GettersAgree true (cString [0xe9] fun _ => 0) := by
  have hfailed : nthLoop true (cString [0xe9] fun _ => 0) 81 0 = some .failed := by decide
  refine ⟨hfailed, by decide, ?_⟩
  rintro ⟨str, -, -, hended⟩
  exact absurd (hfailed.symm.trans hended) (by simp)

end CharDevice

end KernelModules
