import Mathlib.Algebra.Order.Group.Int
import Mathlib.Data.List.GetD
import KernelModules.Lib.Run
import KernelModules.Lib.TryLock

/-!
# The `ioctl` calls of the character device

`device_drivers/chardev/char_device.c`: a message that processes set and get with `ioctl`.
The calls copy byte by byte, each byte of the message and of the user's memory being one
step here (`KernelModules.CharDevice.body`). What keeps them apart is `already_open`, which
a call tries to take with `atomic_cmpxchg` before it does anything and gives back at its
end: the try-lock of `KernelModules.Lib.TryLock`, with the message as the value it guards.

While nobody is inside, the buffer holds the string of the last `IOCTL_SET_MSG` that is
over, cut to 80 bytes, and a NUL (`KernelModules.CharDevice.Stores`). The state keeps that
string, which the module does not. A call that returns `-EBUSY` was turned away, or has got a
byte that reads so (`KernelModules.CharDevice.busy_byte`).
-/

namespace KernelModules

namespace CharDevice

/-! ### Calls -/

/-- `BUF_LEN`. -/
def bufLen : ℕ := 80
/-- `EBUSY`. -/
def ebusy : ℤ := 16

/-- A string in the user's memory: not empty, and without a NUL before its end. -/
structure Text where
  /-- The bytes. -/
  bytes : List (BitVec 8)
  ne_nil : bytes ≠ []
  noNul : 0 ∉ bytes
deriving DecidableEq

/-- The byte at an offset from the start of the string. -/
def Text.user (t : Text) (i : ℕ) : BitVec 8 := t.bytes.getD i 0

/-- What is kept of it. -/
def Text.cut (t : Text) : List (BitVec 8) := t.bytes.take bufLen

/-- What a process asks for. -/
inductive Request where
  /-- `IOCTL_SET_MSG`. -/
  | setMsg (t : Text) : Request
  /-- `IOCTL_GET_MSG`. -/
  | getMsg : Request
  /-- `IOCTL_GET_NTH_BYTE`. -/
  | getNthByte (i : ℕ) : Request
  /-- Any other. -/
  | other : Request
deriving DecidableEq

/-- The values of `already_open`. -/
inductive OpenState where
  /-- `CDEV_NOT_USED`. -/
  | notUsed : OpenState
  /-- `CDEV_EXCLUSIVE_OPEN`. -/
  | exclusiveOpen : OpenState
deriving DecidableEq

/-- Where a call of `device_ioctl` stands. -/
inductive Pc where
  /-- Before `atomic_cmpxchg`. -/
  | cmpxchg : Pc
  /-- Before the first `get_user`. -/
  | setFirst (t : Text) : Pc
  /-- In the loop that looks for the end of the string. -/
  | setScan (t : Text) (i : ℕ) (ch : BitVec 8) : Pc
  /-- In the loop of `device_write`. -/
  | setWrite (t : Text) (i length : ℕ) : Pc
  /-- `device_read`, before the test for the end of the message. -/
  | getFirst : Pc
  /-- In the loop of `device_read`, before the test; `out` has been copied. -/
  | getTest (length : ℕ) (out : List (BitVec 8)) : Pc
  /-- In the loop of `device_read`, before `put_user`. -/
  | getCopy (length : ℕ) (out : List (BitVec 8)) : Pc
  /-- Before the `put_user` of the NUL. -/
  | getNul (out : List (BitVec 8)) : Pc
  /-- Before the read of one byte. -/
  | nth (i : ℕ) : Pc
  /-- Before `atomic_set`. -/
  | release (ret : ℤ) (out : List (BitVec 8)) : Pc
  /-- Over; `out` is what it has put in the user's buffer. -/
  | returned (ret : ℤ) (out : List (BitVec 8)) : Pc
deriving DecidableEq

/-- A call. -/
structure Call where
  /-- The request. -/
  req : Request
  /-- Where it stands. -/
  pc : Pc
deriving DecidableEq

/-- A `char`, as a `long`: a plain `char` is signed on some machines. -/
def charToLong (signed : Bool) (b : BitVec 8) : ℤ := if signed then b.toInt else b.toNat

/-- Where the `switch` leads. -/
def enter : Request → Pc
  | .setMsg t => .setFirst t
  | .getMsg => .getFirst
  | .getNthByte i => .nth i
  | .other => .release 0 []

/-- **One step of a call inside**: the message, and where it stands then. -/
def body (signed : Bool) (message : ℕ → BitVec 8) : Pc → (ℕ → BitVec 8) × Pc
  | .setFirst t => (message, .setScan t 0 (t.user 0))
  | .setScan t i ch =>
    if ch ≠ 0 ∧ i < bufLen then (message, .setScan t (i + 1) (t.user i))
    else (message, .setWrite t 0 i)
  | .setWrite t i length =>
    if i < length ∧ i < bufLen then
      (Function.update message i (t.user i), .setWrite t (i + 1) length)
    else (message, .release 0 [])
  | .getFirst => if message 0 = 0 then (message, .getNul []) else (message, .getTest 99 [])
  | .getTest length out =>
    if length ≠ 0 ∧ message out.length ≠ 0 then (message, .getCopy length out)
    else (message, .getNul out)
  | .getCopy length out => (message, .getTest (length - 1) (out ++ [message out.length]))
  | .getNul out => (message, .release 0 (out ++ [0]))
  | .nth i => (message, .release (charToLong signed (message i)) [])
  | pc => (message, pc)

/-! ### States and steps -/

/-- The device and its callers. -/
structure Sys where
  /-- `already_open`. -/
  alreadyOpen : OpenState
  /-- `message`, and the memory behind it. -/
  message : ℕ → BitVec 8
  /-- The string of the last `IOCTL_SET_MSG` that is over, as far as it is kept. -/
  last : List (BitVec 8)
  /-- The calls, by number. -/
  calls : ℕ → Option Call

/-- The module, just loaded; `beyond` is the memory behind `message`. -/
def Sys.start (beyond : ℕ → BitVec 8) : Sys :=
  ⟨.notUsed, fun i => if i ≤ bufLen then 0 else beyond i, [], fun _ => none⟩

/-- What can happen next. -/
inductive Act where
  /-- Call `c` begins. -/
  | ioctl (c : ℕ) (req : Request) : Act
  /-- Call `c` goes on. -/
  | go (c : ℕ) : Act
deriving DecidableEq

/-- What a call that is over leaves as the message. -/
def Request.message (last : List (BitVec 8)) : Request → List (BitVec 8)
  | .setMsg t => t.cut
  | _ => last

/-- One step of a call. -/
def stepCall (signed : Bool) (s : Sys) (c : ℕ) (call : Call) : Sys :=
  match call.pc with
  | .cmpxchg =>
    match s.alreadyOpen with
    | .notUsed =>
      { s with
        alreadyOpen := .exclusiveOpen
        calls := Function.update s.calls c (some { call with pc := enter call.req }) }
    | .exclusiveOpen =>
      { s with calls := Function.update s.calls c (some { call with pc := .returned (-ebusy) [] }) }
  | .release ret out =>
    { s with
      alreadyOpen := .notUsed
      last := call.req.message s.last
      calls := Function.update s.calls c (some { call with pc := .returned ret out }) }
  | .returned _ _ => s
  | pc =>
    { s with
      message := (body signed s.message pc).1
      calls := Function.update s.calls c (some { call with pc := (body signed s.message pc).2 }) }

/-- **One step.** -/
def step (signed : Bool) (s : Sys) : Act → Sys
  | .ioctl c req =>
    match s.calls c with
    | none => { s with calls := Function.update s.calls c (some ⟨req, .cmpxchg⟩) }
    | some _ => s
  | .go c =>
    match s.calls c with
    | none => s
    | some call => stepCall signed s c call

/-- The call has won the `atomic_cmpxchg` and has not given `already_open` back. -/
def Pc.inBody : Pc → Bool
  | .cmpxchg => false
  | .returned _ _ => false
  | _ => true

/-! ### The string in the buffer -/

/-- **The buffer holds a string**, with a NUL at its end and one in its last byte. -/
structure Stores (message : ℕ → BitVec 8) (m : List (BitVec 8)) : Prop where
  short : m.length ≤ bufLen
  noNul : 0 ∉ m
  bytes : ∀ i, i ≤ m.length → message i = m.getD i 0
  final : message bufLen = 0

theorem stores_start (beyond : ℕ → BitVec 8) : Stores (Sys.start beyond).message [] where
  short := Nat.zero_le _
  noNul := List.not_mem_nil
  bytes i hi := by simp [Sys.start, show i = 0 by simpa using hi]
  final := by simp [Sys.start]

/-- A byte of a string without NUL is not one. -/
theorem getD_eq_zero_iff {m : List (BitVec 8)} (hm : 0 ∉ m) (i : ℕ) :
    m.getD i 0 = 0 ↔ m.length ≤ i := by
  rcases Nat.lt_or_ge i m.length with hlt | hge
  · refine iff_of_false (fun hz => hm ?_) (by omega)
    rw [List.getD_eq_getElem _ _ hlt] at hz
    exact hz ▸ List.getElem_mem hlt
  · exact iff_of_true (List.getD_eq_default _ _ hge) hge

/-- The end of the message is the first NUL. -/
theorem Stores.eq_zero_iff {message : ℕ → BitVec 8} {m : List (BitVec 8)} (h : Stores message m)
    {i : ℕ} (hi : i ≤ m.length) : message i = 0 ↔ i = m.length := by
  rw [h.bytes i hi, getD_eq_zero_iff h.noNul]
  omega

/-- How many bytes the scan of a string finds: up to the NUL, included, and no more than
there is room for. -/
def Text.scanned (t : Text) : ℕ := min (t.bytes.length + 1) bufLen

theorem Text.length_pos (t : Text) : 0 < t.bytes.length := List.length_pos_iff.mpr t.ne_nil

/-- **What has been written is the string, cut.** -/
theorem stores_cut {message : ℕ → BitVec 8} {t : Text}
    (hbytes : ∀ j, j < t.scanned → message j = t.user j) (hfinal : message bufLen = 0) :
    Stores message t.cut where
  short := by
    rw [Text.cut, List.length_take]
    omega
  noNul hz := t.noNul (List.mem_of_mem_take hz)
  bytes i hi := by
    rw [Text.cut, List.length_take] at hi
    rcases Nat.lt_or_ge i bufLen with hlt | hge
    · rw [hbytes i (by rw [Text.scanned]; omega), Text.user, Text.cut]
      simp [List.getD_eq_getElem?_getD, hlt]
    · obtain rfl : i = bufLen := by omega
      rw [hfinal, Text.cut, List.getD_eq_default]
      rw [List.length_take]
      omega
  final := hfinal

/-! ### What a call inside counts on, and leaves -/

/-- **What holds while a call is inside**, by where it stands. -/
def Local (signed : Bool) (call : Call) (message : ℕ → BitVec 8) (last : List (BitVec 8)) : Prop :=
  match call.pc with
  | .setFirst t => call.req = .setMsg t ∧ Stores message last
  | .setScan t i ch =>
    call.req = .setMsg t ∧ Stores message last ∧ i ≤ t.scanned ∧ ch = t.user (i - 1)
  | .setWrite t i length =>
    call.req = .setMsg t ∧ length = t.scanned ∧ i ≤ length ∧ (∀ j, j < i → message j = t.user j) ∧
      message bufLen = 0
  | .getFirst => call.req = .getMsg ∧ Stores message last
  | .getTest length out =>
    call.req = .getMsg ∧ Stores message last ∧ length + out.length = 99 ∧
      out = last.take out.length
  | .getCopy length out =>
    call.req = .getMsg ∧ Stores message last ∧ length + out.length = 99 ∧
      out = last.take out.length ∧ out.length < last.length
  | .getNul out => call.req = .getMsg ∧ Stores message last ∧ out = last
  | .nth i => call.req = .getNthByte i ∧ Stores message last
  | .release ret out =>
    Stores message (call.req.message last) ∧ (call.req = .getMsg → ret = 0 ∧ out = last ++ [0]) ∧
      ∀ i, call.req = .getNthByte i → i ≤ last.length → ret = charToLong signed (last.getD i 0)
  | _ => True

section Local

variable {signed : Bool} {req : Request} {message : ℕ → BitVec 8} {last : List (BitVec 8)}

/-- A call that goes in finds the message there. -/
theorem local_enter (h : Stores message last) : Local signed ⟨req, enter req⟩ message last := by
  cases req with
  | setMsg t => exact ⟨rfl, h⟩
  | getMsg => exact ⟨rfl, h⟩
  | getNthByte i => exact ⟨rfl, h⟩
  | other => exact ⟨h, fun hreq => absurd hreq (by simp), fun i hreq => absurd hreq (by simp)⟩

/-- One step of the scan: it goes on as long as it has not seen the NUL, and has room. -/
theorem local_setScan {t : Text} {i : ℕ} {ch : BitVec 8}
    (h : Local signed ⟨req, .setScan t i ch⟩ message last) :
    Local signed ⟨req, (body signed message (.setScan t i ch)).2⟩
      (body signed message (.setScan t i ch)).1 last := by
  obtain ⟨hreq, hstores, hi, rfl⟩ := h
  have hpos := t.length_pos
  have huser : t.user (i - 1) = 0 ↔ t.bytes.length ≤ i - 1 := getD_eq_zero_iff t.noNul _
  have hscanned : t.scanned = min (t.bytes.length + 1) bufLen := rfl
  rw [body]
  split
  · obtain ⟨hch, hlt⟩ := ‹t.user (i - 1) ≠ 0 ∧ i < bufLen›
    have hshort : ¬t.bytes.length ≤ i - 1 := fun hle => hch (huser.mpr hle)
    refine ⟨hreq, hstores, ?_, rfl⟩
    omega
  · have hend : ¬(t.user (i - 1) ≠ 0 ∧ i < bufLen) := ‹_›
    have hstop : t.bytes.length ≤ i - 1 ∨ bufLen ≤ i := by
      by_contra hgo
      push Not at hgo
      exact hend ⟨fun hz => absurd (huser.mp hz) (by omega), hgo.2⟩
    refine ⟨hreq, ?_, Nat.zero_le _, fun j hj => absurd hj (by omega), hstores.final⟩
    omega

/-- One step of the write. -/
theorem local_setWrite {t : Text} {i length : ℕ}
    (h : Local signed ⟨req, .setWrite t i length⟩ message last) :
    Local signed ⟨req, (body signed message (.setWrite t i length)).2⟩
      (body signed message (.setWrite t i length)).1 last := by
  obtain ⟨hreq, rfl, hi, hbytes, hfinal⟩ := h
  have hscanned : t.scanned ≤ bufLen := min_le_right _ _
  rw [body]
  split
  · obtain ⟨hlt, hroom⟩ := ‹i < t.scanned ∧ i < bufLen›
    refine ⟨hreq, rfl, hlt, fun j hj => ?_, ?_⟩
    · rcases eq_or_ne j i with rfl | hne
      · exact Function.update_self ..
      · exact (Function.update_of_ne hne ..).trans (hbytes j (by omega))
    · exact (Function.update_of_ne hroom.ne' ..).trans hfinal
  · have hend : ¬(i < t.scanned ∧ i < bufLen) := ‹_›
    obtain rfl : i = t.scanned := by omega
    refine ⟨?_, fun hget => ?_, fun i hnth => ?_⟩
    · show Stores message (req.message last)
      rw [show req = .setMsg t from hreq]
      exact stores_cut hbytes hfinal
    · exact absurd (hreq.symm.trans hget) (by simp)
    · exact absurd (hreq.symm.trans hnth) (by simp)

/-- `device_read` finds the message empty, or begins to copy it. -/
theorem local_getFirst (h : Local signed ⟨req, .getFirst⟩ message last) :
    Local signed ⟨req, (body signed message .getFirst).2⟩
      (body signed message .getFirst).1 last := by
  obtain ⟨hreq, hstores⟩ := h
  rw [body]
  split
  · have hlen := (hstores.eq_zero_iff (Nat.zero_le _)).mp ‹message 0 = 0›
    exact ⟨hreq, hstores, (List.eq_nil_of_length_eq_zero hlen.symm).symm⟩
  · exact ⟨hreq, hstores, rfl, rfl⟩

/-- The copy stops at the NUL, which comes before `length` has run out. -/
theorem local_getTest {length : ℕ} {out : List (BitVec 8)}
    (h : Local signed ⟨req, .getTest length out⟩ message last) :
    Local signed ⟨req, (body signed message (.getTest length out)).2⟩
      (body signed message (.getTest length out)).1 last := by
  obtain ⟨hreq, hstores, hlength, hout⟩ := h
  have hle : out.length ≤ last.length := by
    have hcongr := congrArg List.length hout
    rw [List.length_take] at hcongr
    omega
  have hshort := hstores.short
  rw [bufLen] at hshort
  have hzero := hstores.eq_zero_iff hle
  rw [body]
  split
  · obtain ⟨-, hne⟩ := ‹length ≠ 0 ∧ message out.length ≠ 0›
    exact ⟨hreq, hstores, hlength, hout, lt_of_le_of_ne hle fun heq => hne (hzero.mpr heq)⟩
  · have hend : ¬(length ≠ 0 ∧ message out.length ≠ 0) := ‹_›
    have heq : out.length = last.length := by
      by_contra hne
      exact hend ⟨by omega, fun hz => hne (hzero.mp hz)⟩
    refine ⟨hreq, hstores, ?_⟩
    rw [hout, heq, List.take_length]

/-- One byte is copied. -/
theorem local_getCopy {length : ℕ} {out : List (BitVec 8)}
    (h : Local signed ⟨req, .getCopy length out⟩ message last) :
    Local signed ⟨req, (body signed message (.getCopy length out)).2⟩
      (body signed message (.getCopy length out)).1 last := by
  obtain ⟨hreq, hstores, hlength, hout, hlt⟩ := h
  have hshort := hstores.short
  rw [bufLen] at hshort
  refine ⟨hreq, hstores, ?_, ?_⟩
  · rw [List.length_append, List.length_singleton]
    omega
  · rw [List.length_append, List.length_singleton, hstores.bytes _ hlt.le,
      List.getD_eq_getElem _ _ hlt, List.take_succ_eq_append_getElem hlt, ← hout]

/-- **A step of a call inside keeps what it counts on.** -/
theorem local_body {pc : Pc} (hpc : ∀ ret out, pc ≠ .release ret out)
    (h : Local signed ⟨req, pc⟩ message last) :
    Local signed ⟨req, (body signed message pc).2⟩ (body signed message pc).1 last := by
  cases pc with
  | setFirst t => exact ⟨h.1, h.2, Nat.zero_le _, rfl⟩
  | setScan t i ch => exact local_setScan h
  | setWrite t i length => exact local_setWrite h
  | getFirst => exact local_getFirst h
  | getTest length out => exact local_getTest h
  | getCopy length out => exact local_getCopy h
  | getNul out =>
    obtain ⟨hreq, hstores, rfl⟩ := h
    refine ⟨?_, fun _ => ⟨rfl, rfl⟩, fun i hnth => absurd (hreq.symm.trans hnth) (by simp)⟩
    show Stores message (req.message out)
    rw [show req = .getMsg from hreq]
    exact hstores
  | nth i =>
    obtain ⟨hreq, hstores⟩ := h
    refine ⟨?_, fun hget => absurd (hreq.symm.trans hget) (by simp), fun j hnth hj => ?_⟩
    · show Stores message (req.message last)
      rw [show req = .getNthByte i from hreq]
      exact hstores
    · obtain rfl : i = j := Request.getNthByte.inj (hreq.symm.trans hnth)
      rw [← hstores.bytes i hj]
  | release ret out => exact absurd rfl (hpc ret out)
  | cmpxchg | returned => trivial

end Local

/-! ### The lock -/

/-- The message behind `already_open`. -/
def lock (signed : Bool) : TryLock ((ℕ → BitVec 8) × List (BitVec 8)) Call where
  inside call := call.pc.inBody
  free v := Stores v.1 v.2
  own call v := Local signed call v.1 v.2

/-- The device, as far as the lock goes. -/
def Sys.view (s : Sys) : LockView ((ℕ → BitVec 8) × List (BitVec 8)) Call :=
  ⟨s.alreadyOpen == .exclusiveOpen, (s.message, s.last), s.calls⟩

theorem inBody_enter (req : Request) : (enter req).inBody = true := by
  cases req with
  | setMsg | getMsg | getNthByte | other => rfl

theorem inBody_body {signed : Bool} {message : ℕ → BitVec 8} {pc : Pc} (h : pc.inBody = true) :
    (body signed message pc).2.inBody = true := by
  cases pc with
  | setScan | setWrite | getTest =>
    rw [body]
    split <;> rfl
  | getFirst =>
    rw [body]
    split <;> rfl
  | setFirst | getCopy | getNul | nth | release => rfl
  | cmpxchg | returned => exact absurd h (by simp [Pc.inBody])

/-- A call inside that is not about to leave goes on in its body. -/
theorem stepCall_body {signed : Bool} {s : Sys} {c : ℕ} {call : Call}
    (hin : call.pc.inBody = true) (hpc : ∀ ret out, call.pc ≠ .release ret out) :
    stepCall signed s c call =
      { s with
        message := (body signed s.message call.pc).1
        calls := Function.update s.calls c
          (some { call with pc := (body signed s.message call.pc).2 }) } := by
  obtain ⟨req, pc⟩ := call
  cases pc with
  | cmpxchg | returned => exact absurd hin (by simp [Pc.inBody])
  | release ret out => exact absurd rfl (hpc ret out)
  | setFirst | setScan | setWrite | getFirst | getTest | getCopy | getNul | nth => rfl

/-- **Each step is one the lock allows**, or none at all. -/
theorem step_move (signed : Bool) (s : Sys) (a : Act) :
    step signed s a = s ∨ (lock signed).Move s.view (step signed s a).view := by
  cases a with
  | ioctl c req =>
    rcases hc : s.calls c with - | call
    · refine .inr ?_
      simp only [step, hc]
      exact .outside (fun p hp => absurd (hc.symm.trans hp) (by simp)) rfl
    · refine .inl ?_
      simp only [step, hc]
  | go c =>
    rcases hc : s.calls c with - | ⟨req, pc⟩
    · refine .inl ?_
      simp only [step, hc]
    · simp only [step, hc]
      have hat : ∀ p, s.view.parties c = some p → p = ⟨req, pc⟩ :=
        fun p hp => (Option.some.inj (hc.symm.trans hp)).symm
      by_cases hin : pc.inBody = true
      · by_cases hrel : ∃ ret out, pc = .release ret out
        · obtain ⟨ret, out, rfl⟩ := hrel
          exact .inr (.release hc rfl rfl fun hown => hown.1)
        · push Not at hrel
          rw [stepCall_body hin hrel]
          exact .inr (.work hc hin (inBody_body hin) fun hown => local_body hrel hown)
      · cases pc with
        | cmpxchg =>
          refine .inr ?_
          rw [stepCall]
          cases ho : s.alreadyOpen with
          | notUsed =>
            refine .acquire (by simp [Sys.view, ho]) (fun p hp => by rw [hat p hp]; rfl)
              (inBody_enter req) fun hfree => local_enter hfree
          | exclusiveOpen =>
            have hview : s.view = ⟨true, (s.message, s.last), s.calls⟩ := by simp [Sys.view, ho]
            rw [hview]
            exact .outside (fun p hp => by rw [hat p hp]; rfl) rfl
        | returned ret out => exact .inl rfl
        | setFirst | setScan | setWrite | getFirst | getTest | getCopy | getNul | nth | release =>
          exact absurd rfl hin

theorem owned_start (signed : Bool) (beyond : ℕ → BitVec 8) :
    (lock signed).Owned (Sys.start beyond).view :=
  TryLock.owned_nobody (stores_start beyond)

theorem owned_step {signed : Bool} {s : Sys} (h : (lock signed).Owned s.view) (a : Act) :
    (lock signed).Owned (step signed s a).view :=
  h.step (step_move signed s a)

/-- **On every run the calls stay out of each other's way.** -/
theorem owned_run (signed : Bool) (beyond : ℕ → BitVec 8) (acts : List Act) :
    (lock signed).Owned (run (step signed) (Sys.start beyond) acts).view :=
  @run_invariant _ _ (step signed) (fun s => (lock signed).Owned s.view)
    (fun _ a h => owned_step h a) acts _ (owned_start signed beyond)

/-! ### Calls that are refused -/

/-- The call is inside. -/
def Sys.Inside (s : Sys) (c : ℕ) : Prop := ∃ call, s.calls c = some call ∧ call.pc.inBody = true

/-- The call has written, and can only succeed. -/
def Pc.written : Pc → Bool
  | .setWrite _ _ _ => true
  | .release ret _ => ret == 0
  | .returned ret _ => ret == 0
  | _ => false

/-- The call can only succeed. -/
def Sys.Written (s : Sys) (c : ℕ) : Prop := ∃ call, s.calls c = some call ∧ call.pc.written = true

theorem written_stepCall {signed : Bool} {s : Sys} {c : ℕ} {call : Call}
    (hc : s.calls c = some call) (h : call.pc.written = true) :
    (stepCall signed s c call).Written c := by
  obtain ⟨req, pc⟩ := call
  cases pc with
  | setWrite t i length =>
    rw [stepCall_body rfl (by simp)]
    refine ⟨_, Function.update_self .., ?_⟩
    rw [body]
    split <;> rfl
  | release ret out => exact ⟨_, Function.update_self .., h⟩
  | returned ret out => exact ⟨_, hc, h⟩
  | cmpxchg | setFirst | setScan | getFirst | getTest | getCopy | getNul | nth =>
    exact absurd h (by simp [Pc.written])

/-- A call leaves the others where they are. -/
theorem calls_stepCall {signed : Bool} {s : Sys} {c d : ℕ} {call : Call} (hne : d ≠ c) :
    (stepCall signed s c call).calls d = s.calls d := by
  obtain ⟨req, pc⟩ := call
  cases pc with
  | cmpxchg =>
    cases ho : s.alreadyOpen with
    | notUsed | exclusiveOpen =>
      simp only [stepCall, ho]
      exact Function.update_of_ne hne ..
  | returned ret out => rfl
  | setFirst | setScan | setWrite | getFirst | getTest | getCopy | getNul | nth | release =>
    exact Function.update_of_ne hne ..

/-- The action is a step of call `c`. -/
def Act.goes (c : ℕ) : Act → Bool
  | .ioctl _ _ => false
  | .go d => d == c

/-- **What a step does to a call**: it is its own, or it leaves it where it is. -/
theorem calls_step {signed : Bool} {s : Sys} {c : ℕ} {call : Call} (hc : s.calls c = some call)
    (a : Act) :
    a.goes c = false ∧ (step signed s a).calls c = some call ∨
      a = .go c ∧ step signed s a = stepCall signed s c call := by
  cases a with
  | ioctl d req =>
    refine .inl ⟨rfl, ?_⟩
    rcases hd : s.calls d with - | call'
    · have hne : c ≠ d := fun he => absurd (hc.symm.trans (he ▸ hd)) (by simp)
      simp only [step, hd]
      exact (Function.update_of_ne hne ..).trans hc
    · simpa only [step, hd] using hc
  | go d =>
    rcases eq_or_ne d c with rfl | hne
    · exact .inr ⟨rfl, by simp only [step, hc]⟩
    · refine .inl ⟨beq_false_of_ne hne, ?_⟩
      rcases hd : s.calls d with - | call'
      · simpa only [step, hd] using hc
      · simp only [step, hd]
        exact (calls_stepCall hne.symm).trans hc

theorem written_step {signed : Bool} {s : Sys} {c : ℕ} (h : s.Written c) (a : Act) :
    (step signed s a).Written c := by
  obtain ⟨call, hc, hw⟩ := h
  rcases calls_step hc a with ⟨-, hnext⟩ | ⟨rfl, hnext⟩
  · exact ⟨call, hnext, hw⟩
  · rw [hnext]
    exact written_stepCall hc hw

/-- A step that writes is one of a call that can only succeed. -/
theorem message_stepCall {signed : Bool} {s : Sys} {c : ℕ} {call : Call}
    (hc : s.calls c = some call) :
    (stepCall signed s c call).message = s.message ∨ (stepCall signed s c call).Written c := by
  obtain ⟨req, pc⟩ := call
  cases pc with
  | setWrite t i length => exact .inr (written_stepCall hc rfl)
  | cmpxchg =>
    cases ho : s.alreadyOpen with
    | notUsed | exclusiveOpen =>
      simp only [stepCall, ho]
      exact .inl trivial
  | setScan | getTest =>
    rw [stepCall_body rfl (by simp), body]
    split <;> exact .inl rfl
  | getFirst =>
    rw [stepCall_body rfl (by simp), body]
    split <;> exact .inl rfl
  | setFirst | getCopy | getNul | nth | release | returned => exact .inl rfl

theorem message_step (signed : Bool) (s : Sys) (c : ℕ) :
    (step signed s (.go c)).message = s.message ∨ (step signed s (.go c)).Written c := by
  rcases hc : s.calls c with - | call
  · simp only [step, hc, true_or]
  · simp only [step, hc]
    exact message_stepCall hc

/-- **A call that returns `-EBUSY` has written nothing.** -/
theorem message_of_busy {signed : Bool} {s : Sys} {c : ℕ} {post : List Act} {req : Request}
    {out : List (BitVec 8)}
    (h : (run (step signed) s (.go c :: post)).calls c = some ⟨req, .returned (-ebusy) out⟩) :
    (step signed s (.go c)).message = s.message := by
  refine resolve_of_run (step signed) (I := (·.Written c)) (fun s a h => written_step h a) post
    (message_step signed s c) ?_
  rintro ⟨call, hc, hw⟩
  obtain rfl : ⟨req, .returned (-ebusy) out⟩ = call := Option.some.inj (h.symm.trans hc)
  exact absurd hw (by simp [Pc.written, ebusy])

/-- **No step of a call touches another's hold**, nor the message behind it. -/
theorem hold_of_ne {signed : Bool} {s : Sys} (h : (lock signed).Owned s.view) {c d : ℕ}
    (hne : d ≠ c) (hd : s.Inside d) :
    (step signed s (.go c)).alreadyOpen = s.alreadyOpen ∧ (step signed s (.go c)).Inside d ∧
      (step signed s (.go c)).message = s.message := by
  obtain ⟨call', hd, hin⟩ := hd
  rcases hc : s.calls c with - | ⟨req, pc⟩
  · simp only [step, hc]
    exact ⟨trivial, ⟨call', hd, hin⟩, trivial⟩
  · have hout : pc.inBody = false := h.outside_of_ne hd hin hne.symm hc
    have hheld : s.alreadyOpen = .exclusiveOpen := by
      simpa [Sys.view] using h.held_iff.mpr ⟨d, call', hd, hin⟩
    have hinside : (stepCall signed s c ⟨req, pc⟩).Inside d :=
      ⟨call', (calls_stepCall hne).trans hd, hin⟩
    simp only [step, hc]
    refine ⟨?_, hinside, ?_⟩
    all_goals
      cases pc with
      | cmpxchg => simp only [stepCall, hheld]
      | returned ret out => rfl
      | setFirst | setScan | setWrite | getFirst | getTest | getCopy | getNul | nth | release =>
        exact absurd hout (by simp [Pc.inBody])

/-! ### How long a call takes -/

/-- How many steps a call has to go at most: it reads 99 bytes of the message, or 80 of a
string. -/
def Pc.steps : Pc → ℕ
  | .cmpxchg => 203
  | .setFirst _ => 164
  | .setScan _ i _ => (bufLen - i) + 83
  | .setWrite _ i _ => (bufLen - i) + 2
  | .getFirst => 202
  | .getTest length _ => 2 * length + 3
  | .getCopy length _ => 2 * (length - 1) + 4
  | .getNul _ => 2
  | .nth _ => 2
  | .release _ _ => 1
  | .returned _ _ => 0

theorem steps_enter (req : Request) : (enter req).steps < 203 := by
  cases req <;> simp [enter, Pc.steps]

/-- Each step in the body is one less to go. -/
theorem steps_body {signed : Bool} {message : ℕ → BitVec 8} {pc : Pc} (hin : pc.inBody = true)
    (hpc : ∀ ret out, pc ≠ .release ret out) : (body signed message pc).2.steps < pc.steps := by
  cases pc with
  | cmpxchg | returned => exact absurd hin (by simp [Pc.inBody])
  | release ret out => exact absurd rfl (hpc ret out)
  | setFirst | getCopy | getNul | nth => simp [body, Pc.steps, bufLen]
  | setScan t i ch =>
    rw [body]
    split
    · obtain ⟨-, hlt⟩ := ‹ch ≠ 0 ∧ i < bufLen›
      simp only [Pc.steps]
      omega
    · simp only [Pc.steps, bufLen]
      omega
  | setWrite | getTest =>
    rw [body]
    split <;> simp only [Pc.steps] <;> omega
  | getFirst =>
    rw [body]
    split <;> simp [Pc.steps]

/-- A call does not forget what it was asked for, and goes on. -/
theorem steps_stepCall {signed : Bool} {s : Sys} {c : ℕ} {req : Request} {pc : Pc}
    (hc : s.calls c = some ⟨req, pc⟩) :
    ∃ pc', (stepCall signed s c ⟨req, pc⟩).calls c = some ⟨req, pc'⟩ ∧
      pc'.steps ≤ pc.steps - 1 := by
  by_cases hin : pc.inBody = true
  · by_cases hrel : ∃ ret out, pc = .release ret out
    · obtain ⟨ret, out, rfl⟩ := hrel
      exact ⟨.returned ret out, Function.update_self .., le_rfl⟩
    · push Not at hrel
      rw [stepCall_body hin hrel]
      exact ⟨_, Function.update_self .., Nat.le_sub_one_of_lt (steps_body hin hrel)⟩
  · cases pc with
    | cmpxchg =>
      rw [stepCall]
      cases ho : s.alreadyOpen with
      | notUsed =>
        exact ⟨enter req, Function.update_self .., Nat.le_sub_one_of_lt (steps_enter req)⟩
      | exclusiveOpen => exact ⟨.returned (-ebusy) [], Function.update_self .., Nat.zero_le _⟩
    | returned ret out => exact ⟨.returned ret out, hc, le_rfl⟩
    | setFirst | setScan | setWrite | getFirst | getTest | getCopy | getNul | nth | release =>
      exact absurd rfl hin

/-- Call `c` has been asked for this. -/
def Sys.Asked (s : Sys) (c : ℕ) (req : Request) : Prop := ∃ pc, s.calls c = some ⟨req, pc⟩

/-- How many steps call `c` has to go at most. -/
def Sys.stepsOf (c : ℕ) (s : Sys) : ℕ := ((s.calls c).map fun call => call.pc.steps).getD 0

theorem stepsOf_of_calls {s : Sys} {c : ℕ} {call : Call} (hc : s.calls c = some call) :
    s.stepsOf c = call.pc.steps := by
  rw [Sys.stepsOf, hc]
  rfl

/-- **Every step of its own brings a call nearer to its end**, and no other step takes it
back. -/
theorem asked_step {signed : Bool} {s : Sys} {c : ℕ} {req : Request} (h : s.Asked c req) (a : Act) :
    (step signed s a).Asked c req ∧
      (step signed s a).stepsOf c ≤ s.stepsOf c - (a.goes c).toNat := by
  obtain ⟨pc, hc⟩ := h
  rw [stepsOf_of_calls hc]
  rcases calls_step hc a with ⟨hgoes, hnext⟩ | ⟨rfl, hnext⟩
  · rw [stepsOf_of_calls hnext, hgoes]
    exact ⟨⟨pc, hnext⟩, le_rfl⟩
  · have hown : ∃ pc', (stepCall signed s c ⟨req, pc⟩).calls c = some ⟨req, pc'⟩ ∧
        pc'.steps ≤ pc.steps - 1 := steps_stepCall hc
    obtain ⟨pc', hc', hle⟩ := hown
    have hgoes : (Act.go c).goes c = true := beq_self_eq_true c
    rw [hnext, stepsOf_of_calls hc', hgoes]
    exact ⟨⟨pc', hc'⟩, hle⟩

/-- **A call that goes on often enough returns.** -/
theorem returned_of_asked {signed : Bool} {s : Sys} {c : ℕ} {req : Request} (h : s.Asked c req)
    {acts : List Act} (hgone : s.stepsOf c ≤ acts.countP (Act.goes c)) :
    ∃ ret out, (run (step signed) s acts).calls c = some ⟨req, .returned ret out⟩ := by
  obtain ⟨⟨pc, hc⟩, hle⟩ := run_countdown (step signed) (·.Asked c req) (Sys.stepsOf c)
    (Act.goes c) (fun _ a h => asked_step h a) acts h
  rw [stepsOf_of_calls hc] at hle
  cases pc with
  | returned ret out => exact ⟨ret, out, hc⟩
  | _ =>
    simp only [Pc.steps] at hle
    omega

/-! ### Calls that are over -/

/-- The call has returned. -/
def Pc.over : Pc → Bool
  | .returned _ _ => true
  | _ => false

/-- Call `c` is about to be turned away. -/
def Sys.Refuses (s : Sys) (c : ℕ) (req : Request) : Prop :=
  s.calls c = some ⟨req, .cmpxchg⟩ ∧ s.alreadyOpen = .exclusiveOpen

/-- A call that is over, and has not been turned away: what it was, what it has returned and
what it has put in the user's buffer. -/
structure Completion where
  /-- The number of the call. -/
  call : ℕ
  /-- The request. -/
  req : Request
  /-- The value. -/
  ret : ℤ
  /-- The bytes. -/
  out : List (BitVec 8)
deriving DecidableEq

/-- The calls that are over, each where it returns. -/
def completes (signed : Bool) (s : Sys) : Act → Option Completion
  | .ioctl _ _ => none
  | .go c =>
    match s.calls c, (step signed s (.go c)).calls c with
    | some ⟨_, pc⟩, some ⟨req, .returned ret out⟩ =>
      if pc.over ∨ pc = .cmpxchg ∧ s.alreadyOpen = .exclusiveOpen then none
      else some ⟨c, req, ret, out⟩
    | _, _ => none

/-- A call that goes on inside is not completed, nor is one that is over or turned away. -/
theorem completes_eq_none {signed : Bool} {s : Sys} {c : ℕ} {req : Request} {pc : Pc}
    (hc : s.calls c = some ⟨req, pc⟩)
    (h : (pc.over = true ∨ pc = .cmpxchg ∧ s.alreadyOpen = .exclusiveOpen) ∨
      ∃ call, (step signed s (.go c)).calls c = some call ∧ call.pc.inBody = true) :
    completes signed s (.go c) = none := by
  rcases hc' : (step signed s (.go c)).calls c with - | ⟨req', pc'⟩
  · simp only [completes, hc, hc']
  · cases pc' with
    | returned ret out =>
      simp only [completes, hc, hc']
      refine if_pos (h.resolve_right ?_)
      rintro ⟨call, hcall, hin⟩
      obtain rfl : ⟨req', .returned ret out⟩ = call := Option.some.inj (hc'.symm.trans hcall)
      exact absurd hin (by simp [Pc.inBody])
    | _ => simp only [completes, hc, hc']

/-- A call returns where it gives `already_open` back, unless it is turned away. -/
theorem completes_iff {signed : Bool} {s : Sys} {a : Act} {e : Completion} :
    completes signed s a = some e ↔
      a = .go e.call ∧ s.calls e.call = some ⟨e.req, .release e.ret e.out⟩ := by
  obtain ⟨c, req, ret, out⟩ := e
  cases a with
  | ioctl d req' => simp [completes]
  | go d =>
    rcases hd : s.calls d with - | ⟨req', pc⟩
    · refine iff_of_false (by simp [completes, hd]) ?_
      rintro ⟨ha, hc⟩
      obtain rfl : d = c := Act.go.inj ha
      exact absurd (hd.symm.trans hc) (by simp)
    · by_cases hrel : ∃ ret' out', pc = .release ret' out'
      · obtain ⟨ret', out', rfl⟩ := hrel
        have hsome : completes signed s (.go d) = some ⟨d, req', ret', out'⟩ := by
          simp [completes, hd, step, stepCall, Pc.over]
        rw [hsome]
        constructor
        · intro he
          obtain ⟨rfl, rfl, rfl, rfl⟩ := Completion.mk.inj (Option.some.inj he)
          exact ⟨rfl, hd⟩
        · rintro ⟨ha, hc⟩
          obtain rfl : d = c := Act.go.inj ha
          obtain ⟨rfl, hpc⟩ := Call.mk.inj (Option.some.inj (hd.symm.trans hc))
          obtain ⟨rfl, rfl⟩ := Pc.release.inj hpc
          rfl
      · push Not at hrel
        refine iff_of_false ?_ ?_
        · rw [completes_eq_none hd]
          · simp
          · simp only [step, hd]
            by_cases hin : pc.inBody = true
            · rw [stepCall_body hin hrel]
              exact .inr ⟨_, Function.update_self .., inBody_body hin⟩
            · cases pc with
              | cmpxchg =>
                cases ho : s.alreadyOpen with
                | notUsed =>
                  simp only [stepCall, ho]
                  exact .inr ⟨_, Function.update_self .., inBody_enter req'⟩
                | exclusiveOpen => exact .inl (.inr ⟨rfl, rfl⟩)
              | returned => exact .inl (.inl rfl)
              | setFirst | setScan | setWrite | getFirst | getTest | getCopy | getNul | nth
              | release => exact absurd rfl hin
        · rintro ⟨ha, hc⟩
          obtain rfl : d = c := Act.go.inj ha
          exact hrel ret out (Call.mk.inj (Option.some.inj (hd.symm.trans hc))).2

/-- **A call that has returned** had before, has been turned away, or is completed. -/
theorem returned_step {signed : Bool} {s : Sys} {a : Act} {c : ℕ} {req : Request} {ret : ℤ}
    {out : List (BitVec 8)} (h : (step signed s a).calls c = some ⟨req, .returned ret out⟩) :
    s.calls c = some ⟨req, .returned ret out⟩ ∨
    a = .go c ∧ (s.Refuses c req ∧ ret = -ebusy ∧ out = [] ∨
      completes signed s a = some ⟨c, req, ret, out⟩) := by
  cases a with
  | ioctl d req' =>
    refine .inl ?_
    rcases hd : s.calls d with - | call'
    · simp only [step, hd] at h
      rcases eq_or_ne c d with rfl | hne
      · rw [Function.update_self] at h
        exact absurd (Call.mk.inj (Option.some.inj h)).2 (by simp)
      · rwa [Function.update_of_ne hne] at h
    · simpa only [step, hd] using h
  | go d =>
    rcases hd : s.calls d with - | ⟨req', pc⟩
    · simp only [step, hd] at h
      exact .inl h
    · rcases eq_or_ne c d with rfl | hne
      · by_cases hover : pc.over = true
        · cases pc with
          | returned => exact .inl (by simpa only [step, hd, stepCall] using h)
          | _ => exact absurd hover (by simp [Pc.over])
        · refine .inr ⟨rfl, ?_⟩
          by_cases hrefused : pc = .cmpxchg ∧ s.alreadyOpen = .exclusiveOpen
          · obtain ⟨rfl, ho⟩ := hrefused
            simp only [step, hd, stepCall, ho, Function.update_self, Option.some.injEq,
              Call.mk.injEq, Pc.returned.injEq] at h
            obtain ⟨rfl, rfl, rfl⟩ := h
            exact .inl ⟨⟨hd, ho⟩, rfl, rfl⟩
          · refine .inr ?_
            simp only [completes, hd, h, hover, hrefused, Bool.false_eq_true, or_self, if_false]
      · simp only [step, hd] at h
        exact .inl ((calls_stepCall hne).symm.trans h)

/-- **Every call that has returned was turned away, or is completed.** -/
theorem returned_run {signed : Bool} {c : ℕ} {req : Request} {ret : ℤ} {out : List (BitVec 8)} :
    ∀ {acts : List Act} {s : Sys},
      (run (step signed) s acts).calls c = some ⟨req, .returned ret out⟩ →
      s.calls c = some ⟨req, .returned ret out⟩ ∨
      (∃ pre post, acts = pre ++ .go c :: post ∧ (run (step signed) s pre).Refuses c req) ∧
        ret = -ebusy ∧ out = [] ∨
      ⟨c, req, ret, out⟩ ∈ trace (step signed) (completes signed) s acts
  | [], s, h => .inl h
  | a :: acts, s, h => by
    have hrest : (run (step signed) (step signed s a) acts).calls c =
        some ⟨req, .returned ret out⟩ := h
    rcases returned_run hrest with
      hbefore | ⟨⟨pre, post, rfl, hrefuses⟩, hret⟩ | hmem
    · rcases returned_step hbefore with hold | ⟨rfl, ⟨hrefuses, hret⟩ | hcompletes⟩
      · exact .inl hold
      · exact .inr (.inl ⟨⟨[], acts, rfl, hrefuses⟩, hret⟩)
      · refine .inr (.inr (List.mem_append_left _ ?_))
        rw [hcompletes]
        exact List.mem_singleton_self _
    · exact .inr (.inl ⟨⟨a :: pre, post, rfl, hrefuses⟩, hret⟩)
    · exact .inr (.inr (List.mem_append_right _ hmem))

/-! ### Calls that return `-EBUSY` -/

/-- Call `c` has returned. -/
def Sys.Over (s : Sys) (c : ℕ) : Prop := ∃ call, s.calls c = some call ∧ call.pc.over = true

theorem over_step {signed : Bool} {s : Sys} {c : ℕ} (h : s.Over c) (a : Act) :
    (step signed s a).Over c := by
  obtain ⟨⟨req, pc⟩, hc, hover⟩ := h
  rcases calls_step hc a with ⟨-, hnext⟩ | ⟨rfl, hnext⟩
  · exact ⟨_, hnext, hover⟩
  · cases pc with
    | returned ret out =>
      rw [hnext]
      exact ⟨_, hc, rfl⟩
    | _ => exact absurd hover (by simp [Pc.over])

/-- A call inside goes on inside, or is over. -/
theorem inside_or_over_step {signed : Bool} {s : Sys} {c : ℕ} (h : s.Inside c) :
    (step signed s (.go c)).Inside c ∨ (step signed s (.go c)).Over c := by
  obtain ⟨⟨req, pc⟩, hc, hin⟩ := h
  simp only [step, hc]
  by_cases hrel : ∃ ret out, pc = .release ret out
  · obtain ⟨ret, out, rfl⟩ := hrel
    exact .inr ⟨_, Function.update_self .., rfl⟩
  · push Not at hrel
    rw [stepCall_body hin hrel]
    exact .inl ⟨_, Function.update_self .., inBody_body hin⟩

/-- **While a call is inside** the message is what it has found there, as long as it has not
written; after that it can only succeed. -/
def Sys.Keeps (message : ℕ → BitVec 8) (c : ℕ) (s : Sys) : Prop :=
  s.Inside c ∧ s.message = message ∨ s.Written c ∨ s.Over c

theorem keeps_step {signed : Bool} {s : Sys} (hown : (lock signed).Owned s.view)
    {message : ℕ → BitVec 8} {c : ℕ} (h : s.Keeps message c) (a : Act) :
    (step signed s a).Keeps message c := by
  rcases h with ⟨hin, rfl⟩ | hwritten | hover
  · cases a with
    | ioctl d req =>
      obtain ⟨call, hc, hin⟩ := hin
      have hnext : (step signed s (.ioctl d req)).calls c = some call :=
        ((calls_step hc (.ioctl d req)).resolve_right (by simp)).2
      refine .inl ⟨⟨call, hnext, hin⟩, ?_⟩
      rcases hd : s.calls d with - | call' <;> simp only [step, hd]
    | go d =>
      rcases eq_or_ne c d with rfl | hne
      · rcases message_step signed s c with hmessage | hwritten
        · rcases inside_or_over_step hin with hin | hover
          · exact .inl ⟨hin, hmessage⟩
          · exact .inr (.inr hover)
        · exact .inr (.inl hwritten)
      · obtain ⟨-, hin, hmessage⟩ := hold_of_ne hown hne hin
        exact .inl ⟨hin, hmessage⟩
  · exact .inr (.inl (written_step hwritten a))
  · exact .inr (.inr (over_step hover a))

/-- A call that comes to `atomic_cmpxchg` goes in, or is turned away. -/
theorem step_cmpxchg {signed : Bool} {s : Sys} {c : ℕ} {req : Request}
    (hc : s.calls c = some ⟨req, .cmpxchg⟩) :
    s.alreadyOpen = .notUsed ∧ (step signed s (.go c)).Inside c ∧
        (step signed s (.go c)).message = s.message ∨
      (step signed s (.go c)).Over c := by
  simp only [step, hc]
  cases ho : s.alreadyOpen with
  | notUsed =>
    simp only [stepCall, ho]
    exact .inl ⟨trivial, ⟨_, Function.update_self .., inBody_enter req⟩, trivial⟩
  | exclusiveOpen =>
    simp only [stepCall, ho]
    exact .inr ⟨_, Function.update_self .., rfl⟩

/-- **A call that has gone in and returns `-EBUSY`** leaves the device as it has found it. -/
theorem undone_of_busy {signed : Bool} {s : Sys} (hown : (lock signed).Owned s.view) {c : ℕ}
    {req : Request} {out : List (BitVec 8)} (hc : s.calls c = some ⟨req, .cmpxchg⟩)
    {mid : List Act} (hcompletes : completes signed (run (step signed) s (.go c :: mid)) (.go c) =
      some ⟨c, req, -ebusy, out⟩) :
    let t := step signed (run (step signed) s (.go c :: mid)) (.go c)
    t.alreadyOpen = s.alreadyOpen ∧ t.message = s.message := by
  intro t
  obtain ⟨-, hrelease⟩ := completes_iff.mp hcompletes
  have hnot : ¬(run (step signed) s (.go c :: mid)).Over c := by
    rintro ⟨call, hcall, hover⟩
    obtain rfl := Option.some.inj (hrelease.symm.trans hcall)
    exact absurd hover (by simp [Pc.over])
  rcases step_cmpxchg hc with ⟨hfree, hin, hmessage⟩ | hover
  · have hstep : ∀ (u : Sys) (a : Act), (lock signed).Owned u.view ∧ u.Keeps s.message c →
        (lock signed).Owned (step signed u a).view ∧ (step signed u a).Keeps s.message c :=
      fun u a h => ⟨owned_step h.1 a, keeps_step h.1 h.2 a⟩
    obtain ⟨-, hkeeps⟩ := run_invariant (step signed) hstep mid
      ⟨owned_step hown (.go c), .inl ⟨hin, hmessage⟩⟩
    have hsame : (run (step signed) s (.go c :: mid)).message = s.message := by
      rcases hkeeps with ⟨-, hsame⟩ | ⟨call, hcall, hwritten⟩ | hover
      · exact hsame
      · obtain rfl := Option.some.inj (hrelease.symm.trans hcall)
        exact absurd hwritten (by simp [Pc.written, ebusy])
      · exact absurd hover hnot
    simp only [t, step, hrelease, stepCall]
    exact ⟨hfree.symm, hsame⟩
  · have hstays : (run (step signed) s (.go c :: mid)).Over c :=
      @run_invariant _ _ (step signed) (·.Over c) (fun _ a h => over_step h a) mid _ hover
    exact absurd hstays hnot

/-! ### Whole runs -/

/-- **A message that is set and got at once**: the string after a call. -/
def register (m : List (BitVec 8)) (e : Completion) : List (BitVec 8) := e.req.message m

/-- What a call is to return when the string is `m`: the whole of it, or one of its bytes, a
NUL standing at its end. -/
def Answers (signed : Bool) (m : List (BitVec 8)) (e : Completion) : Prop :=
  (e.req = .getMsg → e.ret = 0 ∧ e.out = m ++ [0]) ∧
  ∀ i, e.req = .getNthByte i → i ≤ m.length → e.ret = charToLong signed (m.getD i 0)

theorem last_stepCall {signed : Bool} {s : Sys} {c : ℕ} {call : Call}
    (hpc : ∀ ret out, call.pc ≠ .release ret out) : (stepCall signed s c call).last = s.last := by
  obtain ⟨req, pc⟩ := call
  cases pc with
  | cmpxchg =>
    cases ho : s.alreadyOpen with
    | notUsed | exclusiveOpen => simp only [stepCall, ho]
  | release ret out => exact absurd rfl (hpc ret out)
  | setFirst | setScan | setWrite | getFirst | getTest | getCopy | getNul | nth | returned => rfl

/-- A step that completes no call leaves the string. -/
theorem last_of_not_completes {signed : Bool} {s : Sys} {a : Act}
    (h : completes signed s a = none) : (step signed s a).last = s.last := by
  cases a with
  | ioctl c req =>
    rcases hc : s.calls c with - | call
    · simp only [step, hc]
    · simp only [step, hc]
  | go c =>
    rcases hc : s.calls c with - | ⟨req, pc⟩
    · simp only [step, hc]
    · simp only [step, hc]
      refine last_stepCall fun ret out hpc => ?_
      rw [show pc = .release ret out from hpc] at hc
      have hsome : completes signed s (.go c) = some ⟨c, req, ret, out⟩ :=
        completes_iff.mpr ⟨rfl, hc⟩
      exact absurd (h.symm.trans hsome) (by simp)

/-- **A call that completes answers for the string that is there**, and leaves the one it
has set. -/
theorem answers_of_completes {signed : Bool} {s : Sys} (h : (lock signed).Owned s.view) {a : Act}
    {e : Completion} (he : completes signed s a = some e) :
    Answers signed s.last e ∧ (step signed s a).last = register s.last e := by
  obtain ⟨rfl, hc⟩ := completes_iff.mp he
  obtain ⟨-, hget, hnth⟩ := h.own e.call _ hc rfl
  exact ⟨⟨hget, hnth⟩, by simp only [step, hc, stepCall, register]⟩

/-- **The `ioctl` calls exclude each other and are atomic.** On every run: `already_open` is
`CDEV_EXCLUSIVE_OPEN` exactly while a call is inside, and only one is; a call that is refused
changes nothing but its own return value; no step of a call that returns `-EBUSY` writes to the
message or touches the hold of another, and when such a call was not refused it leaves
`already_open` and the message as it has found them; a call that has returned is not inside, and
every call that goes on often enough returns. Each that has returned was refused or is among
those that are completed, and these, in the order in which they return, answer as if each set or
got the whole message at once. -/
theorem ioctl_atomic (signed : Bool) (beyond : ℕ → BitVec 8) (acts : List Act) :
    let s := run (step signed) (Sys.start beyond) acts
    let done := trace (step signed) (completes signed) (Sys.start beyond) acts
    (s.alreadyOpen = .exclusiveOpen ↔ ∃ c, s.Inside c) ∧
    (∀ c d, s.Inside c → s.Inside d → c = d) ∧
    (∀ c req, s.Refuses c req → step signed s (.go c) =
      { s with calls := Function.update s.calls c (some ⟨req, .returned (-ebusy) []⟩) }) ∧
    (∀ pre c post req out, acts = pre ++ .go c :: post →
      s.calls c = some ⟨req, .returned (-ebusy) out⟩ →
        let r := run (step signed) (Sys.start beyond) pre
        (step signed r (.go c)).message = r.message ∧
        ∀ d, d ≠ c → r.Inside d →
          (step signed r (.go c)).alreadyOpen = r.alreadyOpen ∧
          (step signed r (.go c)).Inside d) ∧
    (∀ pre c mid req out, acts = pre ++ .go c :: mid →
      let r := run (step signed) (Sys.start beyond) pre
      r.calls c = some ⟨req, .cmpxchg⟩ →
        completes signed s (.go c) = some ⟨c, req, -ebusy, out⟩ →
          (step signed s (.go c)).alreadyOpen = r.alreadyOpen ∧
          (step signed s (.go c)).message = r.message) ∧
    (∀ c req ret out, s.calls c = some ⟨req, .returned ret out⟩ → ¬s.Inside c) ∧
    (∀ pre c req post, acts = pre ++ .ioctl c req :: post →
      (run (step signed) (Sys.start beyond) pre).calls c = none →
        203 ≤ post.countP (Act.goes c) →
          ∃ ret out, s.calls c = some ⟨req, .returned ret out⟩) ∧
    (∀ c req ret out, s.calls c = some ⟨req, .returned ret out⟩ →
      (∃ pre post, acts = pre ++ .go c :: post ∧
        (run (step signed) (Sys.start beyond) pre).Refuses c req) ∧ ret = -ebusy ∧ out = [] ∨
      ⟨c, req, ret, out⟩ ∈ done) ∧
    Along register (Answers signed) [] done := by
  intro s done
  have h : (lock signed).Owned s.view := owned_run signed beyond acts
  refine ⟨?_, ?_, ?_, ?_, ?_, ?_, ?_, ?_, ?_⟩
  · rw [← beq_iff_eq]
    refine h.held_iff.trans ⟨?_, ?_⟩
    · rintro ⟨c, call, hc, hin⟩
      exact ⟨c, call, hc, hin⟩
    · rintro ⟨c, call, hc, hin⟩
      exact ⟨c, call, hc, hin⟩
  · rintro c d ⟨call, hc, hin⟩ ⟨call', hd, hin'⟩
    exact h.unique c d call call' hc hin hd hin'
  · rintro c req ⟨hc, ho⟩
    simp only [step, hc, stepCall, ho]
  · intro pre c post req out hacts hret
    rw [show s = _ from run_split (step signed) hacts (Sys.start beyond)] at hret
    refine ⟨message_of_busy hret, fun d hne hd => ?_⟩
    obtain ⟨hheld, hinside, -⟩ := hold_of_ne (owned_run signed beyond pre) hne hd
    exact ⟨hheld, hinside⟩
  · intro pre c mid req out hacts r hc hcompletes
    rw [show s = _ from run_split (step signed) hacts (Sys.start beyond)] at hcompletes ⊢
    exact undone_of_busy (owned_run signed beyond pre) hc hcompletes
  · rintro c req ret out hc ⟨call, hc', hin⟩
    obtain rfl : ⟨req, .returned ret out⟩ = call := Option.some.inj (hc.symm.trans hc')
    exact absurd hin (by simp [Pc.inBody])
  · intro pre c req post hacts hfree hgone
    rw [show s = _ from run_split (step signed) hacts (Sys.start beyond)]
    have hbegun : (step signed (run (step signed) (Sys.start beyond) pre) (.ioctl c req)).calls c =
        some ⟨req, .cmpxchg⟩ := by
      simp only [step, hfree]
      exact Function.update_self ..
    refine returned_of_asked ⟨_, hbegun⟩ ?_
    rwa [stepsOf_of_calls hbegun]
  · intro c req ret out hc
    exact (returned_run hc).resolve_left (by simp [Sys.start])
  · exact along_trace (step signed) (I := fun s => (lock signed).Owned s.view) (f := Sys.last)
      (fun _ a h => owned_step h a) (fun _ _ he => last_of_not_completes he)
      (fun _ _ _ h he => answers_of_completes h he) acts (owned_start signed beyond)

/-- **A byte that reads as `-EBUSY`.** With `char` signed the byte `0xf0` is got as `-16`; the
call that gets it has held `already_open`, and another was turned away meanwhile. -/
theorem busy_byte :
    let t : Text := ⟨[0xf0], by decide, by decide⟩
    let s := run (step true) (Sys.start fun _ => 0)
      (Act.ioctl 0 (.setMsg t) :: List.replicate 9 (Act.go 0) ++
        [Act.ioctl 1 (.getNthByte 0), Act.ioctl 2 .getMsg])
    let r := run (step true) s [Act.go 1]
    let e := run (step true) r [Act.go 2, Act.go 1, Act.go 1]
    s.alreadyOpen = .notUsed ∧ r.alreadyOpen = .exclusiveOpen ∧
      e.calls 2 = some ⟨.getMsg, .returned (-ebusy) []⟩ ∧
      e.calls 1 = some ⟨.getNthByte 0, .returned (-ebusy) []⟩ := by
  decide

-- a string is set, another call turned away, and the string got back
example :
    let t : Text := ⟨[104, 105], by decide, by decide⟩
    let acts : List Act :=
      [Act.ioctl 0 (.setMsg t), Act.ioctl 1 .getMsg, Act.ioctl 2 .getMsg, Act.go 0, Act.go 1]
        ++ List.replicate 10 (Act.go 0) ++ List.replicate 9 (Act.go 2)
    ((run (step true) (Sys.start fun _ => 0) acts).calls 1).map Call.pc
        = some (.returned (-ebusy) []) ∧
      ((run (step true) (Sys.start fun _ => 0) acts).calls 2).map Call.pc
        = some (.returned 0 [104, 105, 0]) := by
  decide

end CharDevice

end KernelModules
