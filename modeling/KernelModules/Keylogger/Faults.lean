import KernelModules.Keylogger.System

/-!
# A read that faults

`kbd_read` takes a character out of the buffer before it stores it in the user's, and when
`put_user` fails it returns `-EFAULT` with what it has taken. This file follows one call, from
any state of the buffer, while the keyboard goes on filling it
(`KernelModules.Keylogger.Faults.step`).

What leaves the buffer is what the call reports as long as no `put_user` fails, and no longer:
`KernelModules.Keylogger.Faults.lossless_exact`.
-/

namespace KernelModules

namespace Keylogger

namespace Faults

/-! ### One call and the keyboard -/

/-- What can happen next. -/
inductive Event where
  /-- A keyboard interrupt. -/
  | interrupt (scancode : UInt8) : Event
  /-- The call runs a round of its loop; `fault` is the outcome of `put_user`. -/
  | round (fault : Bool) : Event

/-- The same, for the call number 0. -/
def Event.act : Event → Act
  | .interrupt scancode => .interrupt scancode
  | .round fault => .iterate 0 fault

/-- A call of `kbd_read` has just been made, and nothing has been pressed since. -/
def reading (data : Kbd UInt8) (size : ℕ) : Sys UInt8 :=
  ⟨data, Function.update (fun _ => none) 0 (some (ReadCall.enter size)), [], []⟩

/-- **One step.** -/
def step (s : Sys UInt8) (e : Event) : Sys UInt8 := Keylogger.step plain s e.act

/-- **Nothing is lost.** If the call has returned a number, that many characters are in the
user's buffer, and they are those that have left the keylogger's: what it held before and what
has come in since is these, followed by what it holds. If it has returned an error, the buffer
holds all of it. -/
def Lossless (data : Kbd UInt8) (s : Sys UInt8) : Prop :=
  ∀ call v, s.calls 0 = some call → call.ret = some v →
    (0 ≤ v → ∃ l : List UInt8, (l.length : ℤ) = v ∧ (∀ p, call.user p = l[p]?) ∧
      data.queue ++ s.accepted = l ++ s.dev.queue) ∧
    (v < 0 → s.dev.queue = data.queue ++ s.accepted)

/-- No `put_user` fails in this step. -/
def Puts (s : Sys UInt8) : Event → Prop
  | .round true => ∀ call, s.calls 0 = some call → call.Gets → s.dev.count = 0
  | _ => True

/-! ### What the call has taken -/

/-- **The call has taken `l`**: it is what has left the buffer, it is in the user's, and it is
what the call has counted. -/
structure Taken (data : Kbd UInt8) (s : Sys UInt8) (call : ReadCall UInt8) (l : List UInt8) :
    Prop where
  running : s.calls 0 = some call
  ok : s.dev.Ok
  queue : data.queue ++ s.accepted = l ++ s.dev.queue
  user : ∀ p, call.user p = l[p]?
  pos : call.pos = l.length
  read : call.read = l.length
  ret : ∀ v, call.ret = some v → v = l.length

/-- **The call has lost something**: it has returned an error and taken `l` with it. -/
structure Lost (data : Kbd UInt8) (s : Sys UInt8) (call : ReadCall UInt8) (l : List UInt8) :
    Prop where
  running : s.calls 0 = some call
  ok : s.dev.Ok
  queue : data.queue ++ s.accepted = l ++ s.dev.queue
  ret : call.ret = some (-efault)
  some : l ≠ []

theorem taken_reading {data : Kbd UInt8} (h : data.Ok) (size : ℕ) :
    Taken data (reading data size) (ReadCall.enter size) [] where
  running := rfl
  ok := h
  queue := List.append_nil _
  user p := rfl
  pos := rfl
  read := rfl
  ret v hv := absurd hv (by simp [ReadCall.enter])

/-- A press comes in at the end, or not at all. -/
theorem queue_interrupt {s : Sys UInt8} (h : s.dev.Ok) (scancode : UInt8) :
    ∃ l, (step s (.interrupt scancode)).accepted = s.accepted ++ l ∧
      (step s (.interrupt scancode)).dev.queue = s.dev.queue ++ l ∧
      (step s (.interrupt scancode)).dev.Ok ∧ (step s (.interrupt scancode)).calls = s.calls := by
  simp only [step, Event.act, Keylogger.step]
  by_cases hstores : Stores scancode s.dev
  · refine ⟨[charKey scancode], if_pos hstores, ?_, ?_, trivial⟩
    · rw [interrupt_of_stores hstores, queue_putChar h, if_pos hstores.2]
      rfl
    · rw [interrupt_of_stores hstores]
      exact ok_putChar h _
  · refine ⟨[], ?_, ?_, ?_, trivial⟩
    · rw [if_neg hstores, List.append_nil]
    · rw [interrupt_of_not_stores hstores, List.append_nil]
    · rwa [interrupt_of_not_stores hstores]

section

variable {data : Kbd UInt8} {s : Sys UInt8} {call : ReadCall UInt8} {l : List UInt8}

/-- The keyboard takes nothing. -/
theorem Taken.interrupt (h : Taken data s call l) (scancode : UInt8) :
    Taken data (step s (.interrupt scancode)) call l := by
  obtain ⟨more, haccepted, hqueue, hok, hcalls⟩ := queue_interrupt h.ok scancode
  refine ⟨by rw [hcalls, h.running], hok, ?_, h.user, h.pos, h.read, h.ret⟩
  rw [haccepted, hqueue, ← List.append_assoc, h.queue, List.append_assoc]

/-- What a round does. -/
theorem step_round (h : s.calls 0 = some call) (fault : Bool) :
    step s (.round fault) = { s with
      dev := (call.iterate fault s.dev).2
      calls := Function.update s.calls 0 (some (call.iterate fault s.dev).1) } := by
  simp only [step, Event.act, Keylogger.step, h]

/-- **A round in which no `put_user` fails.** -/
theorem Taken.round (h : Taken data s call l) {fault : Bool} (hok : Puts s (.round fault)) :
    ∃ call' l', Taken data (step s (.round fault)) call' l' := by
  rw [step_round h.running]
  by_cases hg : call.Gets
  · rcases Nat.eq_zero_or_pos s.dev.count with hempty | hpos
    · rw [iterate_of_empty hg (getChar_of_empty hempty)]
      refine ⟨_, l, ⟨Function.update_self 0 _ s.calls, h.ok, h.queue, h.user, h.pos, h.read, ?_⟩⟩
      exact fun v hv => (Option.some.inj hv).symm.trans h.read
    · obtain rfl : fault = false := by
        cases fault with
        | false => rfl
        | true => exact absurd (hok call h.running hg) hpos.ne'
      obtain ⟨c, data', hget, hok', hqueue⟩ := getChar_of_pos h.ok hpos
      rw [iterate_of_char hg hget]
      refine ⟨_, l ++ [c], ⟨Function.update_self 0 _ s.calls, hok', ?_, fun p => ?_, ?_, ?_, ?_⟩⟩
      · rw [h.queue, hqueue, List.append_assoc]
        rfl
      · change Function.update call.user call.pos (some c) p = _
        rw [List.getElem?_append, ← h.user p, h.pos]
        rcases lt_trichotomy p l.length with hlt | rfl | hgt
        · rw [if_pos hlt, Function.update_of_ne hlt.ne]
        · simp
        · rw [if_neg (by omega), Function.update_of_ne hgt.ne', h.user p,
            List.getElem?_eq_none hgt.le, List.getElem?_eq_none (by simp; omega)]
      · simp [h.pos]
      · simp [h.read]
      · exact fun v hv => absurd (hv : call.ret = some v) (by simp [hg.1])
  · rcases not_gets_cases hg with hret | ⟨hret, hsize⟩
    · rw [iterate_of_returned hret]
      exact ⟨call, l, Function.update_self 0 _ s.calls, h.ok, h.queue, h.user, h.pos, h.read, h.ret⟩
    · rw [iterate_of_size_zero hret hsize]
      refine ⟨_, l, ⟨Function.update_self 0 _ s.calls, h.ok, h.queue, h.user, h.pos, h.read, ?_⟩⟩
      exact fun v hv => (Option.some.inj hv).symm.trans h.read

/-- **A round in which `put_user` fails**: the character is gone. -/
theorem Taken.fault (h : Taken data s call l) {e : Event} (hfault : ¬Puts s e) :
    ∃ call' l', Lost data (step s e) call' l' := by
  cases e with
  | interrupt scancode => exact absurd trivial hfault
  | round fault =>
    cases fault with
    | false => exact absurd trivial hfault
    | true =>
      simp only [Puts, not_forall] at hfault
      obtain ⟨call', hcall', hg, hcount⟩ := hfault
      obtain rfl : call = call' := Option.some.inj (h.running.symm.trans hcall')
      obtain ⟨c, data', hget, hok, hqueue⟩ := getChar_of_pos h.ok (Nat.pos_of_ne_zero hcount)
      rw [step_round h.running, iterate_of_fault hg hget]
      refine ⟨_, l ++ [c], ⟨Function.update_self 0 _ s.calls, hok, ?_, rfl, by simp⟩⟩
      rw [h.queue, hqueue, List.append_assoc]
      rfl

/-- **A step in which no `put_user` fails.** -/
theorem Taken.step (h : Taken data s call l) {e : Event} (hok : Puts s e) :
    ∃ call' l', Taken data (Faults.step s e) call' l' := by
  cases e with
  | interrupt scancode => exact ⟨call, l, h.interrupt scancode⟩
  | round fault => exact h.round hok

/-- What is lost stays lost. -/
theorem Lost.step (h : Lost data s call l) (e : Event) : Lost data (Faults.step s e) call l := by
  cases e with
  | interrupt scancode =>
    obtain ⟨more, haccepted, hqueue, hok, hcalls⟩ := queue_interrupt h.ok scancode
    refine ⟨by rw [hcalls, h.running], hok, ?_, h.ret, h.some⟩
    rw [haccepted, hqueue, ← List.append_assoc, h.queue, List.append_assoc]
  | round fault =>
    rw [step_round h.running, iterate_of_returned (by rw [h.ret]; rfl)]
    exact ⟨Function.update_self 0 _ s.calls, h.ok, h.queue, h.ret, h.some⟩

theorem Taken.lossless (h : Taken data s call l) : Lossless data s := by
  intro call' v hcall' hv
  obtain rfl : call = call' := Option.some.inj (h.running.symm.trans hcall')
  obtain rfl := h.ret v hv
  exact ⟨fun _ => ⟨l, rfl, h.user, h.queue⟩, fun hneg => absurd hneg (by omega)⟩

theorem Lost.not_lossless (h : Lost data s call l) : ¬Lossless data s := by
  intro hall
  have hkept := (hall call (-efault) h.running h.ret).2 (by decide)
  have hqueue := h.queue
  rw [← hkept] at hqueue
  -- a list that is not longer by `l` than itself
  exact h.some (List.self_eq_append_left.mp hqueue)

end

/-- **From any point of the call on**, it loses nothing exactly if no `put_user` fails. -/
theorem lossless_iff_along {data : Kbd UInt8} (events : List Event) {s : Sys UInt8}
    {call : ReadCall UInt8} {l : List UInt8} (h : Taken data s call l) :
    Lossless data (run step s events) ↔ Along step Puts s events := by
  induction events generalizing s call l with
  | nil => exact iff_of_true h.lossless trivial
  | cons e events ih =>
    by_cases hok : Puts s e
    · obtain ⟨call', l', hnext⟩ := h.step hok
      rw [run_cons, ih hnext, along_cons]
      exact (and_iff_right hok).symm
    · obtain ⟨call', l', hlost⟩ := h.fault hok
      have hstep : ∀ (s : Sys UInt8) (e : Event), Lost data s call' l' →
          Lost data (step s e) call' l' := fun _ e hs => hs.step e
      have hend : Lost data (run step s (e :: events)) call' l' :=
        run_invariant step hstep events hlost
      exact iff_of_false hend.not_lossless fun hall => hok hall.1

/-- A round of the call. -/
def Event.isRound : Event → Bool
  | .round _ => true
  | .interrupt _ => false

/-- A round counts `size` down, or the call has returned. -/
theorem iterate_size (call : ReadCall UInt8) (fault : Bool) (data : Kbd UInt8) :
    (call.iterate fault data).1.ret.isSome = true ∨
      (call.iterate fault data).1.size + 1 = call.size := by
  by_cases hg : call.Gets
  · rcases hget : getChar data with ⟨- | c, data'⟩
    · rw [iterate_of_empty hg hget]
      exact .inl rfl
    · cases fault with
      | true =>
        rw [iterate_of_fault hg hget]
        exact .inl rfl
      | false =>
        rw [iterate_of_char hg hget]
        exact .inr (Nat.sub_add_cancel (Nat.pos_of_ne_zero hg.2))
  · rcases not_gets_cases hg with hret | ⟨hret, hsize⟩
    · rw [iterate_of_returned hret]
      exact .inl hret
    · rw [iterate_of_size_zero hret hsize]
      exact .inl rfl

/-- **The call returns** within `size + 1` rounds. -/
theorem returns (events : List Event) {s : Sys UInt8} {call : ReadCall UInt8}
    (hcall : s.calls 0 = some call)
    (h : call.ret.isSome = true ∨ call.size < (events.filter Event.isRound).length) :
    ∃ call', (run step s events).calls 0 = some call' ∧ call'.ret.isSome = true := by
  induction events generalizing s call with
  | nil => exact ⟨call, hcall, h.resolve_right (Nat.not_lt_zero _)⟩
  | cons e events ih =>
    cases e with
    | interrupt scancode => exact ih (s := step s (.interrupt scancode)) hcall h
    | round fault =>
      have hnext : (step s (.round fault)).calls 0 = some (call.iterate fault s.dev).1 := by
        rw [step_round hcall]
        exact Function.update_self 0 _ s.calls
      refine ih hnext ?_
      rcases h with hret | hlt
      · rw [iterate_of_returned hret]
        exact .inl hret
      · have hrounds : call.size < (events.filter Event.isRound).length + 1 := hlt
        exact (iterate_size call fault s.dev).imp_right (by omega)

/-- **When a read loses no keystroke.** For every state of the buffer, every size, and every
way in which the rounds of the call and the interrupts may follow each other: what has left
the buffer is what the call reports, and all is still there if it reports an error, if and only
if no `put_user` that it has run has failed. It has returned after `size + 1` rounds. -/
theorem lossless_exact {data : Kbd UInt8} (h : data.Ok) (size : ℕ) (events : List Event) :
    (Lossless data (run step (reading data size) events) ↔
        Along step Puts (reading data size) events) ∧
      (size < (events.filter Event.isRound).length →
        ∃ call, (run step (reading data size) events).calls 0 = some call ∧
          call.ret.isSome = true) :=
  ⟨lossless_iff_along events (taken_reading h size), fun hlt => returns events rfl (.inr hlt)⟩

/-- The buffer holds one character. -/
def holdsOne : Kbd UInt8 := putChar (Kbd.init 0) 0x61

/-- It is read while another key is pressed, and nothing is lost. -/
theorem lossless_one_press :
    Lossless holdsOne (run step (reading holdsOne 5)
      [.interrupt 0x30, .round false, .round false, .round false]) := by
  refine (lossless_exact (ok_putChar (ok_init 0) _) 5 _).1.mpr ?_
  exact ⟨trivial, trivial, trivial, trivial, trivial⟩

/-- **A character that is lost.** The only `put_user` fails; the call returns `-EFAULT`, and the
buffer is empty. -/
theorem fault_loses :
    let s := run step (reading holdsOne 5) [.round true]
    holdsOne.queue = [0x61] ∧ (s.calls 0).bind ReadCall.ret = some (-14) ∧ s.dev.queue = [] ∧
      ¬Lossless holdsOne s := by
  refine ⟨rfl, rfl, rfl, fun h => ?_⟩
  obtain ⟨-, hkept⟩ := h _ (-14) rfl rfl
  exact absurd (hkept (by decide)) (by decide)

end Faults

end Keylogger

end KernelModules
