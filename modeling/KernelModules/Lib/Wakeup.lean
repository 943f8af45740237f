import Mathlib.Logic.Basic
import Mathlib.Data.Option.Basic

/-!
# Waiting for a latched event

The pattern behind every driver that sleeps until its device is done. A task waits
for an operation to be over; the end of the operation sets a *latch*; a handler
reads the latch, wakes the tasks on the queue and clears the latch.

* `KernelModules.Waiter` is where a task stands in `wait_event`: it tests the
  condition once before it goes on the queue, then again each time it has put
  itself there, and sleeps only when that second test fails. A wake-up that comes
  between the test and the sleep is not missed, since the task is on the queue by
  then.
* `KernelModules.WakeView` is what matters of the whole for the question whether a
  wake-up can be lost, and `KernelModules.WakeView.Safe` is the answer: a task may
  doze with the operation over only if some handler that has read the latch has
  still to wake the queue, or if the latch is set and no handler that has already
  woken the queue is about to clear it.
* `KernelModules.WakeView.Move` is what the parties may do to a view, and
  `KernelModules.WakeView.Move.safe` says that they keep it safe.
-/

namespace KernelModules

/-! ### A task in `wait_event` -/

/-- Where a task stands in `wait_event`. -/
inductive Waiter where
  /-- Before a test of the condition, not on the queue. -/
  | check : Waiter
  /-- About to go on the queue. -/
  | prepare : Waiter
  /-- On the queue, before the test of the condition. -/
  | test : Waiter
  /-- On the queue, the test having failed, about to sleep. -/
  | commit : Waiter
  /-- On the queue, asleep. -/
  | asleep : Waiter
deriving DecidableEq

namespace Waiter

/-- **The task goes on by itself**: `none` when it leaves, the condition being
true. A sleeping task does not. -/
def advance (cond : Bool) : Waiter → Option Waiter
  | check => if cond then none else some prepare
  | prepare => some test
  | test => if cond then none else some commit
  | commit => some asleep
  | asleep => some asleep

/-- **The queue is woken**: a task on it is taken off and goes round the loop. The
one that has not tested the condition yet does so first. -/
def wake : Waiter → Waiter
  | check => check
  | prepare => prepare
  | test => check
  | commit => prepare
  | asleep => prepare

/-- The task has found the condition false and will not look again until it is
woken. -/
def dozing : Waiter → Bool
  | commit => true
  | asleep => true
  | _ => false

@[simp] theorem dozing_wake (t : Waiter) : t.wake.dozing = false := by
  cases t <;> rfl

/-- **A task dozes off only on a false condition.** -/
theorem dozing_of_advance {cond : Bool} {t t' : Waiter} (h : t.advance cond = some t')
    (hd : t'.dozing = true) : t.dozing = true ∨ cond = false := by
  cases t with
  | check =>
    cases cond with
    | true => simp [advance] at h
    | false => exact Or.inr rfl
  | prepare =>
    obtain rfl : test = t' := by simpa [advance] using h
    exact absurd hd (by simp [dozing])
  | test =>
    cases cond with
    | true => simp [advance] at h
    | false => exact Or.inr rfl
  | commit => exact Or.inl rfl
  | asleep => exact Or.inl rfl

/-- A task leaves only on a true condition. -/
theorem cond_of_advance_eq_none {cond : Bool} {t : Waiter} (h : t.advance cond = none) :
    cond = true := by
  cases t <;> simp_all [advance]

end Waiter

/-! ### What matters for a wake-up -/

/-- **A view of the parties**: the operation, the latch its end sets, and how far
the waiters and the handlers have come. -/
structure WakeView where
  /-- The operation is under way. -/
  busy : Prop
  /-- The latch is set. -/
  latch : Prop
  /-- Some task has found the operation under way and is not looking again. -/
  dozing : Prop
  /-- Some handler has read the latch set and has still to wake the queue. -/
  willWake : Prop
  /-- Some handler has read the latch set, has woken the queue and has still to
  clear the latch. -/
  willClear : Prop

namespace WakeView

/-- **No wake-up is lost, nor about to be.** -/
def Safe (v : WakeView) : Prop :=
  v.dozing → ¬v.busy → v.willWake ∨ (v.latch ∧ ¬v.willClear)

/-- A safe view in which a task dozes with the operation over has a wake-up to
come. -/
theorem Safe.pending {v : WakeView} (h : v.Safe) (hd : v.dozing) (hb : ¬v.busy) :
    v.latch ∨ v.willWake := by
  rcases h hd hb with hw | ⟨hl, -⟩
  · exact Or.inr hw
  · exact Or.inl hl

/-- **What the parties may do to a view.** -/
inductive Move (v v' : WakeView) : Prop
  /-- The operation begins, or goes on. -/
  | start (hb : v'.busy) : Move v v'
  /-- The queue is woken. -/
  | wake (hd : ¬v'.dozing) : Move v v'
  /-- The operation ends, at a moment when the next wake-up is to come. -/
  | finish (h : v'.willWake ∨ (v'.latch ∧ ¬v'.willClear)) : Move v v'
  /-- A handler that has woken the queue clears the latch. -/
  | clear (hb : v.busy → v'.busy) (hd : v'.dozing → v.dozing) (hw : v.willWake → v'.willWake)
      (hc : v.willClear) : Move v v'
  /-- Nobody dozes off and nothing is taken back. -/
  | quiet (hb : v.busy → v'.busy) (hd : v'.dozing → v.dozing) (hl : v.latch → v'.latch)
      (hw : v.willWake → v'.willWake) (hc : v'.willClear → v.willClear) : Move v v'

/-- **A move keeps a view safe.** A handler that clears the latch is one of those
about to clear it, and with such a handler around a view is safe only thanks to
another that will wake the queue. -/
theorem Move.safe {v v' : WakeView} (h : Move v v') (hs : v.Safe) : v'.Safe := by
  intro hd' hb'
  cases h with
  | start hb => exact absurd hb hb'
  | wake hd => exact absurd hd' hd
  | finish h => exact h
  | clear hb hd hw hc =>
    rcases hs (hd hd') fun hv => hb' (hb hv) with h | ⟨-, h⟩
    · exact Or.inl (hw h)
    · exact absurd hc h
  | quiet hb hd hl hw hc =>
    rcases hs (hd hd') fun hv => hb' (hb hv) with h | ⟨hlatch, h⟩
    · exact Or.inl (hw h)
    · exact Or.inr ⟨hl hlatch, fun hv => h (hc hv)⟩

end WakeView

end KernelModules
