import KernelModules.Edu.Driver

/-!
# Claiming an interrupt

The line of the device is shared, so `edu_irq_handler` is also called for interrupts of other
devices, and what it returns tells the kernel whether one of its own was pending. It tests two
bits of the status it has read and acknowledges all of them. This file is the driver with a
device that may raise any bits when it completes something
(`KernelModules.Edu.Claiming.step`); the state also has what each run of the handler has read
and what has been raised since.

What the handler acknowledges is what it has read, and what is raised later stays. Whether it
claims what it acknowledges depends on the bits: `KernelModules.Edu.Claiming.claims_exact`.
`EDU_IOCTL_RAISE_IRQ` raises any bits the user likes:
`KernelModules.Edu.Claiming.unclaimed_raise`.
-/

namespace KernelModules

namespace Edu

namespace Claiming

/-! ### What a run of the handler has read -/

/-- The driver, with what its handler has to do. -/
structure Watched where
  /-- The driver. -/
  sys : Sys
  /-- The status each run of the handler has read. Not in the source. -/
  read : ℕ → BitVec 32
  /-- The bits raised since, but for those other runs have acknowledged. Not in the source. -/
  since : ℕ → BitVec 32

/-- The driver bound to a device, before any call. -/
def Watched.start (d : Device) (m : Memory) : Watched := ⟨Sys.start d m, fun _ => 0, fun _ => 0⟩

/-- What can happen next. -/
inductive Event where
  /-- A step of the driver. -/
  | act (a : Act) : Event
  /-- The device completes something and sets some bits. -/
  | complete (bits : BitVec 32) : Event

/-- What the driver and the device do. -/
def move (s : Sys) : Event → Sys
  | .act a => Edu.step s a
  | .complete bits => { s with dev := { s.dev with intr := s.dev.intr ||| bits } }

/-- The run of the handler that begins with this step, and reads the status. -/
def begins (s : Sys) : Event → Option ℕ
  | .act (.irq h) => if s.handlers h = .idle then some h else none
  | _ => none

/-- The run of the handler that acknowledges in this step. -/
def acks (s : Sys) : Event → Option (ℕ × BitVec 32)
  | .act (.handle h) =>
    match s.handlers h with
    | .ack status => some (h, status)
    | _ => none
  | _ => none

/-- The bits a step raises. -/
def raised (s : Sys) (e : Event) : BitVec 32 := (move s e).dev.intr &&& ~~~s.dev.intr

/-- **One step.** -/
def step (s : Watched) (e : Event) : Watched where
  sys := move s.sys e
  read h := if begins s.sys e = some h then s.sys.dev.intr else s.read h
  since h :=
    if begins s.sys e = some h then 0
    else
      match acks s.sys e with
      | none => s.since h ||| raised s.sys e
      | some (h', status) => if h' = h then s.since h else s.since h &&& ~~~status

/-- No bit of one word is missing in another. -/
def Within (a b : BitVec 32) : Prop := a &&& ~~~b = 0

instance (a b : BitVec 32) : Decidable (Within a b) := inferInstanceAs (Decidable (_ = _))

/-- **The handler claims what it acknowledges.** A step that is not an acknowledgement clears
no bit. One that is, is the end of its run: the run returns `IRQ_HANDLED` exactly if the
status it has read was not zero, it clears exactly the bits it has read, and what has been
raised since and was not among them is still set. -/
def Claims (s : Watched) (e : Event) : Prop :=
  match acks s.sys e with
  | none => Within s.sys.dev.intr (move s.sys e).dev.intr
  | some (h, _) =>
    (∃ handled, (move s.sys e).handlers h = .returned handled ∧
        (handled = true ↔ s.read h ≠ 0)) ∧
      (move s.sys e).dev.intr = s.sys.dev.intr &&& ~~~s.read h ∧
      Within (s.since h &&& ~~~s.read h) (move s.sys e).dev.intr

/-- A run that is about to acknowledge has read nothing, or one of the two bits it tests
for. -/
def Tested (s : Watched) (e : Event) : Prop :=
  ∀ h status, acks s.sys e = some (h, status) →
    status = 0 ∨ hasBit status eduRaiseIrqFactorial = true ∨ hasBit status eduDmaIrqFlag = true

/-! ### Bits -/

theorem within_iff {a b : BitVec 32} :
    Within a b ↔ ∀ i, a.getLsbD i = true → b.getLsbD i = true := by
  constructor
  · intro h i ha
    have hi := congrArg (fun x => BitVec.getLsbD x i) h
    have hlt : i < 32 := BitVec.lt_of_getLsbD ha
    simpa [ha, hlt] using hi
  · intro h
    apply BitVec.eq_of_getLsbD_eq
    intro i hi
    cases ha : a.getLsbD i with
    | false => simp [ha]
    | true => simp [ha, h i ha]

/-- The bits set before a step and those it sets are set after it. -/
theorem within_or_raised {since intr intr' : BitVec 32} (h : Within since intr)
    (hmono : Within intr intr') : Within (since ||| (intr' &&& ~~~intr)) intr' := by
  rw [within_iff] at h hmono ⊢
  intro i hi
  rw [BitVec.getLsbD_or, Bool.or_eq_true, BitVec.getLsbD_and, Bool.and_eq_true] at hi
  exact hi.elim (fun hs => hmono i (h i hs)) And.left

/-- Bits that are cleared in both. -/
theorem within_and_not {a b : BitVec 32} (h : Within a b) (status : BitVec 32) :
    Within (a &&& ~~~status) (b &&& ~~~status) := by
  rw [within_iff] at h ⊢
  intro i hi
  rw [BitVec.getLsbD_and, Bool.and_eq_true] at hi ⊢
  exact hi.imp_left (h i)

/-! ### What a step does to the handler -/

/-- The status a run has read and not yet acknowledged. -/
def Handler.status : Handler → Option (BitVec 32)
  | .wakeFact status | .wakeDma status | .ack status => some status
  | _ => none

theorem acks_eq_some {s : Sys} {e : Event} {h : ℕ} {status : BitVec 32}
    (hacks : acks s e = some (h, status)) :
    e = .act (.handle h) ∧ s.handlers h = .ack status := by
  cases e with
  | complete bits => exact absurd hacks (by simp [acks])
  | act a =>
    cases a with
    | handle h' =>
      rcases hh : s.handlers h' with - | status' | status' | status' | handled
      case handle.ack =>
        simp only [acks, hh, Option.some.injEq, Prod.mk.injEq] at hacks
        obtain ⟨rfl, rfl⟩ := hacks
        exact ⟨rfl, hh⟩
      all_goals
        simp only [acks, hh] at hacks
        exact absurd hacks (by simp)
    | _ => exact absurd hacks (by simp [acks])

/-- What an acknowledgement does. -/
theorem move_of_acks {s : Sys} {e : Event} {h : ℕ} {status : BitVec 32}
    (hacks : acks s e = some (h, status)) :
    (move s e).dev.intr = s.dev.intr &&& ~~~status ∧
      (move s e).handlers = Function.update s.handlers h
        (.returned (hasBit status eduRaiseIrqFactorial || hasBit status eduDmaIrqFlag)) := by
  obtain ⟨rfl, hh⟩ := acks_eq_some hacks
  simp only [move, Edu.step, hh, stepHandler, writel_intrAck]
  exact ⟨trivial, trivial⟩

/-- **Nothing else clears a bit.** -/
theorem within_move {s : Sys} {e : Event} (hacks : acks s e = none) :
    Within s.dev.intr (move s e).dev.intr := by
  rw [within_iff]
  intro i hi
  cases e with
  | complete bits => simp [move, hi]
  | act a =>
    have hs := step_cases s a
    change (Edu.step s a).dev.intr.getLsbD i = true
    generalize Edu.step s a = s' at hs
    cases hs with
    | access hc => exact intr_access _ _ hi
    | ack hh => exact absurd hacks (by simp [acks, hh])
    | factDone hd => exact Device.intr_factDone hi
    | dmaDone hd => exact Device.intr_dmaDone hi
    | stutter | call | signal | irq | wakeFact | wakeDma => exact hi

theorem begins_eq_some {s : Sys} {e : Event} {h : ℕ} (hbegins : begins s e = some h) :
    e = .act (.irq h) ∧ s.handlers h = .idle := by
  cases e with
  | complete bits => exact absurd hbegins (by simp [begins])
  | act a =>
    cases a with
    | irq h' =>
      rw [begins] at hbegins
      split at hbegins
      · rename_i hidle
        obtain rfl := Option.some.inj hbegins
        exact ⟨rfl, hidle⟩
      · exact absurd hbegins (by simp)
    | _ => exact absurd hbegins (by simp [begins])

/-- A run that begins reads the status. -/
theorem handlers_of_begins {s : Sys} {e : Event} {h : ℕ} (hbegins : begins s e = some h) :
    (move s e).handlers h = .wakeFact s.dev.intr := by
  obtain ⟨rfl, hidle⟩ := begins_eq_some hbegins
  simp only [move, Edu.step, hidle]
  exact Function.update_self h _ s.handlers

/-- What a run has read does not change. -/
theorem status_of_step {s s' : Sys} {a : Act} (hs : Step s a s') {h : ℕ}
    (hbegins : begins s (.act a) ≠ some h) {status : BitVec 32}
    (hh : Handler.status (s'.handlers h) = some status) :
    Handler.status (s.handlers h) = some status := by
  have hupdate : ∀ {k : ℕ} {next : Handler}, (k = h → Handler.status next = some status →
      Handler.status (s.handlers h) = some status) →
      Handler.status (Function.update s.handlers k next h) = some status →
        Handler.status (s.handlers h) = some status := by
    intro k next hnext hk
    rcases eq_or_ne h k with rfl | hne
    · rw [Function.update_self] at hk
      exact hnext rfl hk
    · rwa [Function.update_of_ne hne] at hk
  cases hs with
  | irq hidle => exact hupdate (fun heq => absurd (heq ▸ if_pos hidle) hbegins) hh
  | wakeFact hk | wakeDma hk =>
    -- the run goes on with what it has read
    refine hupdate ?_ hh
    rintro rfl hnext
    rw [hk]
    exact hnext
  | ack => exact hupdate (fun _ hnext => absurd hnext (by simp [Handler.status])) hh
  | stutter | call | access | signal | factDone | dmaDone => exact hh

/-- What a run has read is the status, if it begins, or what it had read before. -/
theorem status_move {s : Sys} {e : Event} {h : ℕ} {status : BitVec 32}
    (hh : Handler.status ((move s e).handlers h) = some status) :
    begins s e = some h ∧ status = s.dev.intr ∨
      begins s e ≠ some h ∧ Handler.status (s.handlers h) = some status ∧
        ∀ status', acks s e ≠ some (h, status') := by
  by_cases hbegins : begins s e = some h
  · rw [handlers_of_begins hbegins] at hh
    exact .inl ⟨hbegins, (Option.some.inj hh).symm⟩
  refine .inr ⟨hbegins, ?_, fun status' hacks => ?_⟩
  · cases e with
    | complete bits => exact hh
    | act a => exact status_of_step (step_cases s a) hbegins hh
  · -- the run that acknowledges is over
    rw [(move_of_acks hacks).2, Function.update_self] at hh
    exact absurd hh (by simp [Handler.status])

/-! ### When the handler claims what it acknowledges -/

/-- **What the ghosts say**: a run that has read the status and not acknowledged it has read
what it is going to acknowledge, and what has been raised since is still set. -/
def Recorded (s : Watched) : Prop :=
  ∀ h status, Handler.status (s.sys.handlers h) = some status →
    s.read h = status ∧ Within (s.since h) s.sys.dev.intr

theorem recorded_start (d : Device) (m : Memory) : Recorded (Watched.start d m) :=
  fun h status hh => absurd hh (by simp [Watched.start, Sys.start, Handler.status])

theorem Recorded.step {s : Watched} (h : Recorded s) (e : Event) :
    Recorded (Claiming.step s e) := by
  intro k status hk
  simp only [Claiming.step] at hk ⊢
  rcases status_move hk with ⟨hbegins, rfl⟩ | ⟨hbegins, hold, hacks⟩
  · rw [if_pos hbegins, if_pos hbegins]
    exact ⟨rfl, within_iff.mpr fun i hi => absurd hi (by simp)⟩
  · obtain ⟨hread, hsince⟩ := h k status hold
    rw [if_neg hbegins, if_neg hbegins]
    refine ⟨hread, ?_⟩
    rcases hnow : acks s.sys e with - | ⟨k', status'⟩
    · exact within_or_raised hsince (within_move hnow)
    · have hne : k' ≠ k := by
        rintro rfl
        exact hacks status' hnow
      simp only [if_neg hne, (move_of_acks hnow).1]
      exact within_and_not hsince status'

/-- **One step claims what it acknowledges if and only if the bits are among those tested for.**
That it clears exactly the bits it has read, and none raised since, does not depend on them. -/
theorem Recorded.claims_iff {s : Watched} (h : Recorded s) (e : Event) :
    Claims s e ↔ Tested s e := by
  rcases hacks : acks s.sys e with - | ⟨k, status⟩
  · simp only [Claims, Tested, hacks]
    exact iff_of_true (within_move hacks) (by simp)
  · obtain ⟨hintr, hhandlers⟩ := move_of_acks hacks
    obtain ⟨hread, hsince⟩ := h k status (by rw [(acks_eq_some hacks).2]; rfl)
    have hrest : Within (s.since k &&& ~~~status) (s.sys.dev.intr &&& ~~~status) :=
      within_and_not hsince status
    have htested : Tested s e ↔ status = 0 ∨ hasBit status eduRaiseIrqFactorial = true ∨
        hasBit status eduDmaIrqFlag = true := by
      simp [Tested, hacks]
    have hclaims : Claims s e ↔ ((hasBit status eduRaiseIrqFactorial ||
        hasBit status eduDmaIrqFlag) = true ↔ status ≠ 0) := by
      simp only [Claims, hacks, hread, hintr, hhandlers, Function.update_self]
      constructor
      · rintro ⟨⟨handled, heq, hiff⟩, -⟩
        rwa [Handler.returned.inj heq]
      · exact fun hiff => ⟨⟨_, rfl, hiff⟩, trivial, hrest⟩
    rw [hclaims, htested, Bool.or_eq_true]
    constructor
    · intro hiff
      rcases eq_or_ne status 0 with hzero | hne
      · exact .inl hzero
      · exact .inr (hiff.mpr hne)
    · rintro (rfl | hbit)
      · decide
      · refine iff_of_true hbit ?_
        rintro rfl
        exact absurd hbit (by decide)

/-- **When an interrupt is claimed.** In every run of calls, completions that set any bits and
runs of the handler, whatever they are called for: every acknowledgement clears exactly the
bits its run has read, claims the interrupt exactly if there were some, and leaves what has
been raised since, if and only if no run acknowledges bits that are none of the two it tests
for. -/
theorem claims_exact (d : Device) (m : Memory) (events : List Event) :
    Along step Claims (Watched.start d m) events ↔
      Along step Tested (Watched.start d m) events := by
  have hstep : ∀ (s : Watched) (e : Event), Recorded s → Recorded (step s e) :=
    fun _ e hs => hs.step e
  have hiff : ∀ (s : Watched) (e : Event), Recorded s → (Claims s e ↔ Tested s e) :=
    fun _ e hs => hs.claims_iff e
  exact along_congr step hstep hiff events (recorded_start d m)

/-- The handler is called for what `edu_probe` has raised; then the user raises an interrupt,
and the handler is called again. -/
def raiseOne : List Event :=
  [.act (.irq 0), .act (.handle 0), .act (.handle 0), .act (.handle 0),
    .act (.call 0 (.raiseIrq 1) false), .act (.access 0 false),
    .act (.irq 1), .act (.handle 1), .act (.handle 1), .act (.handle 1)]

/-- **An interrupt that is acknowledged and not claimed.** The status is 1, the handler returns
`IRQ_NONE`, and the status is 0. -/
theorem unclaimed_raise :
    let s := run step (Watched.start probed .zero) raiseOne
    s.read 1 = 1 ∧ s.sys.handlers 1 = .returned false ∧ s.sys.dev.intr = 0 ∧
      ¬Along step Claims (Watched.start probed .zero) raiseOne := by
  refine ⟨by decide, by decide, by decide, fun hall => ?_⟩
  obtain ⟨-, -, -, -, -, -, -, -, -, ⟨⟨handled, hreturned, hiff⟩, -⟩, -⟩ := hall
  obtain rfl : false = handled := Handler.returned.inj hreturned
  exact absurd (hiff.mpr (by decide)) (by simp)

end Claiming

end Edu

end KernelModules
