import KernelModules.Lib.Run
import KernelModules.Keylogger.Buffer

/-!
# The keylogger at work

The interrupt handler, the `read` calls and the clearings of the keylogger,
interleaved in any order. The lock is dropped between two rounds of a `read`, so
a step is one locked section with the code up to the next one
(`KernelModules.Keylogger.step`): a keyboard interrupt, one round of one of the
calls in progress, or a `reset_buffer`. Any number of calls may be in progress at
once, and a reset or a burst of interrupts may fall in the middle of any of them.

The main result is `KernelModules.Keylogger.buffer_refines_fifo`: whatever the
schedule, the three counters of the buffer stay coupled, and what is seen of the
buffer is a history of a first-in first-out queue of capacity 1024.

Two components of the state, `accepted` and `discarded`, are not in the source.
They record which characters have entered the buffer and which a reset has thrown
away; nothing the driver does depends on them.
-/

namespace KernelModules

namespace Keylogger

variable {α : Type}

/-! ### States and steps -/

/-- The keylogger and its callers. -/
structure Sys (α : Type) where
  /-- `devs[0]`. -/
  dev : Kbd α
  /-- The calls of `kbd_read`, by number. -/
  calls : ℕ → Option (ReadCall α)
  /-- Every character stored in the buffer so far, in order. -/
  accepted : List α
  /-- Every character a reset has thrown away. -/
  discarded : List α

/-- The module just loaded. -/
def Sys.init (z : α) : Sys α := ⟨Kbd.init z, fun _ => none, [], []⟩

/-- What can happen next. -/
inductive Act where
  /-- A keyboard interrupt, with the byte the controller holds. -/
  | interrupt (scancode : UInt8) : Act
  /-- Call `r` of `kbd_read` begins. -/
  | enter (r size : ℕ) : Act
  /-- Call `r` runs a round of its loop; `fault` is the outcome of `put_user`. -/
  | iterate (r : ℕ) (fault : Bool) : Act
  /-- A `write` clears the buffer. -/
  | clear : Act

/-- Whether an interrupt stores a character in the buffer. -/
def Stores (scancode : UInt8) (data : Kbd α) : Prop :=
  isKeyPress scancode.toUInt32 = true ∧ data.count < bufferSize

instance (scancode : UInt8) (data : Kbd α) : Decidable (Stores scancode data) :=
  inferInstanceAs (Decidable (_ ∧ _))

theorem interrupt_of_stores {store : UInt8 → α} {scancode : UInt8} {data : Kbd α}
    (h : Stores scancode data) :
    kbdInterruptHandler store scancode data = putChar data (store (charKey scancode)) :=
  if_pos h.1

theorem interrupt_of_not_stores {store : UInt8 → α} {scancode : UInt8} {data : Kbd α}
    (h : ¬Stores scancode data) : kbdInterruptHandler store scancode data = data := by
  by_cases hp : isKeyPress scancode.toUInt32 = true
  · rw [kbdInterruptHandler, if_pos hp]
    exact putChar_of_full _ (not_lt.mp fun hlt => h ⟨hp, hlt⟩)
  · rw [kbdInterruptHandler, if_neg hp]

/-- **One step.** `store n c` is how the character `c` is stored when `n`
characters have been stored before it. -/
def step (store : ℕ → UInt8 → α) (s : Sys α) : Act → Sys α
  | .interrupt scancode =>
    { s with
      dev := kbdInterruptHandler (store s.accepted.length) scancode s.dev
      accepted :=
        if Stores scancode s.dev then
          s.accepted ++ [store s.accepted.length (charKey scancode)]
        else s.accepted }
  | .enter r size =>
    match s.calls r with
    | none => { s with calls := Function.update s.calls r (some (ReadCall.enter size)) }
    | some _ => s
  | .iterate r fault =>
    match s.calls r with
    | none => s
    | some call =>
      { s with
        dev := (call.iterate fault s.dev).2
        calls := Function.update s.calls r (some (call.iterate fault s.dev).1) }
  | .clear => { s with dev := resetBuffer s.dev, discarded := s.discarded ++ s.dev.queue }

/-- **What a step shows of the buffer**: a press offers its character, a round of
`kbd_read` that runs `get_char` shows its answer, a clearing shows itself, and
nothing else touches the buffer. -/
def emit (store : ℕ → UInt8 → α) (s : Sys α) : Act → Option (Fifo.Event α)
  | .interrupt scancode =>
    if isKeyPress scancode.toUInt32 then
      some (.push (store s.accepted.length (charKey scancode)))
    else none
  | .enter _ _ => none
  | .iterate r _ =>
    match s.calls r with
    | none => none
    | some call => if call.Gets then some (.pop (getChar s.dev).1) else none
  | .clear => some .clear

section Refinement

variable [DecidableEq α] (store : ℕ → UInt8 → α)

/-! ### The buffer refines a bounded queue -/

/-- The interrupt handler, seen from the queue. -/
theorem interrupt_refines {s : Sys α} (h : s.dev.Ok) (scancode : UInt8) :
    (step store s (.interrupt scancode)).dev.Ok ∧
      Fifo.replay bufferSize s.dev.queue (emit store s (.interrupt scancode)).toList
        = some (step store s (.interrupt scancode)).dev.queue := by
  by_cases hp : isKeyPress scancode.toUInt32 = true
  · simp only [step, emit, kbdInterruptHandler, if_pos hp, Option.toList_some,
      Fifo.replay_singleton, Fifo.step, length_queue, queue_putChar h]
    exact ⟨ok_putChar h _, trivial⟩
  · simp only [step, emit, kbdInterruptHandler, if_neg hp]
    exact ⟨h, rfl⟩

/-- A round of `kbd_read`, seen from the queue. -/
theorem iterate_refines {s : Sys α} (h : s.dev.Ok) (r : ℕ) (fault : Bool) :
    (step store s (.iterate r fault)).dev.Ok ∧
      Fifo.replay bufferSize s.dev.queue (emit store s (.iterate r fault)).toList
        = some (step store s (.iterate r fault)).dev.queue := by
  rcases hcall : s.calls r with - | call
  · simp only [step, emit, hcall]
    exact ⟨h, rfl⟩
  · obtain ⟨hans, hqueue, hok⟩ := getChar_eq h
    by_cases hg : call.Gets
    · simp only [step, emit, hcall, iterate_data, if_pos hg, Option.toList_some,
        Fifo.replay_singleton, Fifo.step, if_pos hans, hqueue]
      exact ⟨hok, trivial⟩
    · simp only [step, emit, hcall, iterate_data, if_neg hg]
      exact ⟨h, rfl⟩

theorem step_refines (s : Sys α) (a : Act) (h : s.dev.Ok) :
    (step store s a).dev.Ok ∧
      Fifo.replay bufferSize s.dev.queue (emit store s a).toList
        = some (step store s a).dev.queue := by
  cases a with
  | interrupt scancode => exact interrupt_refines store h scancode
  | enter r size =>
    rcases hcall : s.calls r with - | call
    · simp only [step, emit, hcall]
      exact ⟨h, rfl⟩
    · simp only [step, emit, hcall]
      exact ⟨h, rfl⟩
  | iterate r fault => exact iterate_refines store h r fault
  | clear => exact ⟨ok_resetBuffer s.dev, rfl⟩

end Refinement

/-- How the driver stores a character: as it is. -/
def plain (_ : ℕ) (c : UInt8) : UInt8 := c

/-- **The keylogger's buffer is a first-in first-out queue of 1024 characters.**
After every schedule of interrupts, rounds of `read` calls and clearings, the
counters are coupled, and the presses, the answers of `get_char` and the
clearings seen along the way are a history of the bounded queue that ends with
what the buffer holds. -/
theorem buffer_refines_fifo (acts : List Act) :
    let s := run (step plain) (Sys.init 0) acts
    (s.dev.putIdx < 1024 ∧ s.dev.getIdx < 1024 ∧ s.dev.count ≤ 1024 ∧
      s.dev.putIdx = (s.dev.getIdx + s.dev.count) % 1024) ∧
    Fifo.replay 1024 [] (trace (step plain) (emit plain) (Sys.init 0) acts)
      = some ((List.range s.dev.count).map fun i => s.dev.buf ((s.dev.getIdx + i) % 1024)) := by
  intro s
  obtain ⟨hok, hreplay⟩ := run_trace (step plain) (Fifo.replay_nil bufferSize)
    (Fifo.replay_append bufferSize) (f := fun s => s.dev.queue) (step_refines plain) acts
    (s := Sys.init 0) (ok_init 0)
  exact ⟨⟨hok.put_lt, hok.get_lt, hok.count_le, hok.put_eq⟩, hreplay⟩

end Keylogger

end KernelModules
