import KernelModules.Lib.Ring

/-!
# The keylogger's buffer

`keylogger/kbd.c` keeps the characters of the keys pressed in a circular buffer
of 1024 cells, shared by the keyboard interrupt, which fills it, by the `read`
calls on the device, which empty it one character at a time, and by the `write`
calls, which clear it. This file is the code that touches the buffer, each
function being one locked section of the driver:

* `KernelModules.Keylogger.putChar`, `KernelModules.Keylogger.getChar` and
  `KernelModules.Keylogger.resetBuffer` are the functions of that name;
* `KernelModules.Keylogger.kbdInterruptHandler` is what the interrupt handler does
  with the byte it reads from the keyboard controller;
* `KernelModules.Keylogger.ReadCall.iterate` is one round of the loop of
  `kbd_read`, from the test of `size` to the last statement of the body.

The type of the characters is a parameter. The driver's own is `UInt8`, C's
`char`; the history of the keystrokes is followed by running the same code on
characters that carry a number. The counters are `size_t` in the source and
natural numbers here: the invariant keeps them at most 1024, so that their
arithmetic never wraps.
-/

namespace KernelModules

namespace Keylogger

/-- `BUFFER_SIZE`. -/
def bufferSize : ℕ := 1024

/-- `SCANCODE_RELEASED_MASK`. -/
def scancodeReleasedMask : UInt32 := 0x80

/-- `EFAULT`. -/
def efault : ℤ := 14

/-! ### From scancodes to characters -/

/-- `is_key_press`: the high bit of a scancode is clear on a press and set on a
release. -/
def isKeyPress (scancode : UInt32) : Bool := scancode &&& scancodeReleasedMask == 0

/-- The digits, from scancode `0x02` on. -/
def row1 : List Char := ['1', '2', '3', '4', '5', '6', '7', '8', '9', '0']

/-- The upper row of letters, from scancode `0x10` on. -/
def row2 : List Char := ['q', 'w', 'e', 'r', 't', 'y', 'u', 'i', 'o', 'p']

/-- The middle row of letters, from scancode `0x1e` on. -/
def row3 : List Char := ['a', 's', 'd', 'f', 'g', 'h', 'j', 'k', 'l']

/-- The lower row of letters, from scancode `0x2c` on. -/
def row4 : List Char := ['z', 'x', 'c', 'v', 'b', 'n', 'm']

/-- The punctuation of `get_ascii`, and the question mark every other scancode
gives. -/
def punctuation : ℕ → Char
  | 0x0C => '-'
  | 0x0D => '='
  | 0x0E => '\x08'
  | 0x0F => '\t'
  | 0x1A => '['
  | 0x1B => ']'
  | 0x1C => '\n'
  | 0x27 => ';'
  | 0x28 => '\x27'
  | 0x29 => '\x60'
  | 0x33 => ','
  | 0x34 => '.'
  | 0x35 => '/'
  | 0x39 => ' '
  | _ => '?'

/-- `get_ascii`: the character of a scancode, the release bit being dropped. -/
def getAscii (scancode : UInt32) : ℕ :=
  let scancode := (scancode &&& ~~~scancodeReleasedMask).toNat
  if 0x02 ≤ scancode ∧ scancode ≤ 0x0b then
    (row1.getD (scancode - 0x02) '\x00').toNat
  else if 0x10 ≤ scancode ∧ scancode ≤ 0x19 then
    (row2.getD (scancode - 0x10) '\x00').toNat
  else if 0x1e ≤ scancode ∧ scancode ≤ 0x26 then
    (row3.getD (scancode - 0x1e) '\x00').toNat
  else if 0x2c ≤ scancode ∧ scancode ≤ 0x32 then
    (row4.getD (scancode - 0x2c) '\x00').toNat
  else
    (punctuation scancode).toNat

/-- `char_key`: what `get_ascii` returns, stored in a `char`. -/
def charKey (scanedKey : UInt8) : UInt8 := (getAscii scanedKey.toUInt32).toUInt8

/-! ### The buffer and its locked sections -/

/-- The part of `struct kbd` the lock protects. `buf` is read and written at the
two indices only, which the invariant keeps inside the array. -/
structure Kbd (α : Type) where
  /-- `buf`, from its first cell on. -/
  buf : ℕ → α
  /-- `put_idx`. -/
  putIdx : ℕ
  /-- `get_idx`. -/
  getIdx : ℕ
  /-- `count`. -/
  count : ℕ

/-- `devs[0]`, zeroed: a static variable. -/
def Kbd.init {α : Type} (z : α) : Kbd α := ⟨fun _ => z, 0, 0, 0⟩

variable {α : Type}

/-- `put_char`: a full buffer drops the character. -/
def putChar (data : Kbd α) (c : α) : Kbd α :=
  if bufferSize ≤ data.count then data
  else
    { buf := Function.update data.buf data.putIdx c
      putIdx := (data.putIdx + 1) % bufferSize
      getIdx := data.getIdx
      count := data.count + 1 }

/-- `get_char`: the answer, `none` for the return value `false`, and the buffer
it leaves. -/
def getChar (data : Kbd α) : Option α × Kbd α :=
  if 0 < data.count then
    (some (data.buf data.getIdx),
      { data with getIdx := (data.getIdx + 1) % bufferSize, count := data.count - 1 })
  else (none, data)

/-- `reset_buffer`: the cells keep what they hold. -/
def resetBuffer (data : Kbd α) : Kbd α := { data with count := 0, getIdx := 0, putIdx := 0 }

/-- `kbd_interrupt_handler`, for the byte read from the controller: a release is
ignored, and the return value is `IRQ_NONE` in both cases. `store` is how the
character is stored in the buffer. -/
def kbdInterruptHandler (store : UInt8 → α) (scanedKey : UInt8) (data : Kbd α) : Kbd α :=
  if isKeyPress scanedKey.toUInt32 then putChar data (store (charKey scanedKey)) else data

/-! ### What the buffer holds -/

/-- **The queue a buffer stands for**, its oldest character first. -/
def Kbd.queue (data : Kbd α) : List α := window bufferSize data.buf data.getIdx data.count

/-- **The invariant of the buffer.** -/
def Kbd.Ok (data : Kbd α) : Prop := Linked bufferSize data.putIdx data.getIdx data.count

@[simp] theorem length_queue (data : Kbd α) : data.queue.length = data.count :=
  length_window _ _ _ _

theorem ok_init (z : α) : (Kbd.init z).Ok := Linked.zero (by decide)

theorem putChar_of_full {data : Kbd α} (c : α) (h : bufferSize ≤ data.count) :
    putChar data c = data := if_pos h

theorem ok_putChar {data : Kbd α} (h : data.Ok) (c : α) : (putChar data c).Ok := by
  rcases Nat.lt_or_ge data.count bufferSize with hlt | hge
  · rw [putChar, if_neg (by omega)]
    exact Linked.push h hlt
  · rw [putChar_of_full c hge]
    exact h

/-- **`put_char` appends, unless the buffer is full.** -/
theorem queue_putChar {data : Kbd α} (h : data.Ok) (c : α) :
    (putChar data c).queue
      = if data.count < bufferSize then data.queue ++ [c] else data.queue := by
  rcases Nat.lt_or_ge data.count bufferSize with hlt | hge
  · rw [putChar, if_neg (by omega), if_pos hlt, Kbd.queue, Kbd.queue, h.put_eq]
    exact window_push data.buf c hlt
  · rw [putChar_of_full c hge, if_neg (by omega)]

theorem getChar_of_empty {data : Kbd α} (h : data.count = 0) : getChar data = (none, data) := by
  rw [getChar, if_neg (by omega)]

/-- **`get_char` on a buffer that holds something**: the oldest character is the
answer and leaves the queue. -/
theorem getChar_of_pos {data : Kbd α} (h : data.Ok) (hpos : 0 < data.count) :
    ∃ c data', getChar data = (some c, data') ∧ data'.Ok ∧ data.queue = c :: data'.queue := by
  refine ⟨_, _, if_pos hpos, Linked.pop h hpos, ?_⟩
  have hq := window_pop data.buf (data.count - 1) h.get_lt
  rwa [Nat.sub_add_cancel hpos] at hq

/-- **`get_char` answers with the oldest character and removes it**, and answers
`false`, leaving everything alone, when there is none. -/
theorem getChar_eq {data : Kbd α} (h : data.Ok) :
    (getChar data).1 = data.queue.head? ∧ (getChar data).2.queue = data.queue.tail ∧
      (getChar data).2.Ok := by
  rcases Nat.eq_zero_or_pos data.count with hz | hpos
  · have hq : data.queue = [] := List.length_eq_zero_iff.mp ((length_queue data).trans hz)
    rw [getChar_of_empty hz, hq]
    exact ⟨rfl, rfl, h⟩
  · obtain ⟨c, data', hget, hok, hq⟩ := getChar_of_pos h hpos
    rw [hget, hq]
    exact ⟨rfl, rfl, hok⟩

theorem ok_resetBuffer (data : Kbd α) : (resetBuffer data).Ok := Linked.zero (by decide)

/-! ### One round of the loop of `kbd_read` -/

/-- A call of `kbd_read` in progress: its arguments and its local variables. -/
structure ReadCall (α : Type) where
  /-- The `size` the call was made with. -/
  request : ℕ
  /-- `size`, which the loop counts down. -/
  size : ℕ
  /-- The user's buffer: what `put_user` has stored at each position. -/
  user : ℕ → Option α
  /-- How far `user_buffer` has moved. -/
  pos : ℕ
  /-- `read`; at most `request`, which the VFS keeps below `2^63`. -/
  read : ℤ
  /-- The value returned, once there is one. -/
  ret : Option ℤ

/-- `kbd_read` on entry. -/
def ReadCall.enter (size : ℕ) : ReadCall α := ⟨size, size, fun _ => none, 0, 0, none⟩

/-- **One round of `while (size--)`**: the locked `get_char`, then `put_user`,
whose fault is a parameter. The call that has returned does nothing more. -/
def ReadCall.iterate (call : ReadCall α) (fault : Bool) (data : Kbd α) :
    ReadCall α × Kbd α :=
  if call.ret.isSome then (call, data)
  else if call.size = 0 then ({ call with ret := some call.read }, data)
  else
    match getChar data with
    | (none, data') => ({ call with size := call.size - 1, ret := some call.read }, data')
    | (some c, data') =>
      if fault then
        ({ call with size := call.size - 1, pos := call.pos + 1, ret := some (-efault) }, data')
      else
        ({ call with
            size := call.size - 1
            user := Function.update call.user call.pos (some c)
            pos := call.pos + 1
            read := call.read + 1 }, data')

/-- Whether the next round of the call runs `get_char`. -/
def ReadCall.Gets (call : ReadCall α) : Prop := call.ret = none ∧ call.size ≠ 0

instance (call : ReadCall α) : Decidable call.Gets := inferInstanceAs (Decidable (_ ∧ _))

section Rounds

variable {call : ReadCall α} {fault : Bool} {data data' : Kbd α}

theorem iterate_of_returned (h : call.ret.isSome = true) :
    call.iterate fault data = (call, data) := if_pos h

theorem iterate_of_size_zero (h : call.ret = none) (hsize : call.size = 0) :
    call.iterate fault data = ({ call with ret := some call.read }, data) := by
  rw [ReadCall.iterate, if_neg (by simp [h]), if_pos hsize]

theorem iterate_of_empty (hg : call.Gets) (h : getChar data = (none, data')) :
    call.iterate fault data
      = ({ call with size := call.size - 1, ret := some call.read }, data') := by
  rw [ReadCall.iterate, if_neg (by simp [hg.1]), if_neg hg.2, h]

theorem iterate_of_fault {c : α} (hg : call.Gets) (h : getChar data = (some c, data')) :
    call.iterate true data
      = ({ call with size := call.size - 1, pos := call.pos + 1, ret := some (-efault) },
        data') := by
  rw [ReadCall.iterate, if_neg (by simp [hg.1]), if_neg hg.2, h]
  rfl

theorem iterate_of_char {c : α} (hg : call.Gets) (h : getChar data = (some c, data')) :
    call.iterate false data
      = ({ call with
            size := call.size - 1
            user := Function.update call.user call.pos (some c)
            pos := call.pos + 1
            read := call.read + 1 }, data') := by
  rw [ReadCall.iterate, if_neg (by simp [hg.1]), if_neg hg.2, h]
  rfl

/-- A round that does not run `get_char` is a round after the return, or the one
that finds `size` at zero. -/
theorem not_gets_cases (h : ¬call.Gets) :
    call.ret.isSome = true ∨ (call.ret = none ∧ call.size = 0) := by
  rcases hret : call.ret with - | v
  · exact Or.inr ⟨rfl, not_not.mp fun hsize => h ⟨hret, hsize⟩⟩
  · exact Or.inl rfl

/-- **A round acts on the buffer as `get_char`, or not at all.** -/
theorem iterate_data (call : ReadCall α) (fault : Bool) (data : Kbd α) :
    (call.iterate fault data).2 = if call.Gets then (getChar data).2 else data := by
  by_cases hg : call.Gets
  · rw [if_pos hg]
    rcases hget : getChar data with ⟨- | c, data'⟩
    · rw [iterate_of_empty hg hget]
    · cases fault with
      | true => rw [iterate_of_fault hg hget]
      | false => rw [iterate_of_char hg hget]
  · rw [if_neg hg]
    rcases not_gets_cases hg with hret | ⟨hret, hsize⟩
    · rw [iterate_of_returned hret]
    · rw [iterate_of_size_zero hret hsize]

end Rounds

end Keylogger

end KernelModules
