import KernelModules.Lib.Run
import KernelModules.Lib.Clock

/-!
# The timer that sets itself again

`timer_init` sets a timer to one second from now, and `timer_handler` counts, says how many
seconds have passed and sets the timer to one second from then. What it says is the number of
times it has run, so that it is right as long as it is never late.

How late it is adds up: the `i`th message comes at `i * HZ` ticks after `timer_init`, and as many
more as there have been ticks at which the timer was due or its handler was running
(`KernelModules.Periodic.timer_messages`). The messages are numbered without a gap, and nothing is
left of the timer when `timer_exit` has returned, although the handler sets it again while
`timer_delete_sync` waits for it.
-/

namespace KernelModules

namespace Periodic

variable {w : ℕ}

/-! ### The module and the clock -/

/-- Where `timer_handler` stands. -/
inductive Handler where
  | idle : Handler
  /-- Before `counter++`. -/
  | count : Handler
  /-- Before the message. -/
  | message : Handler
  /-- Before `mod_timer`. -/
  | rearm : Handler
deriving DecidableEq

/-- How far the module has come. -/
inductive Phase where
  /-- It is not loaded. -/
  | absent : Phase
  /-- `timer_init`, before `mod_timer`. -/
  | setup : Phase
  | loaded : Phase
  /-- In `timer_delete_sync`. -/
  | deleting : Phase
deriving DecidableEq

/-- The timer is in use. -/
def Phase.running : Phase → Bool
  | loaded => true
  | deleting => true
  | _ => false

/-- A message of `timer_handler`. -/
structure Message where
  /-- The number of seconds it says. -/
  seconds : BitVec 32
  /-- The tick at which it comes. -/
  tick : ℕ
  /-- The ticks the timer was late until then. -/
  late : ℕ
deriving DecidableEq

/-- The module and the clock, whose low bits are `jiffies`. -/
structure Sys where
  phase : Phase
  clock : ℕ
  /-- The tick from which on the timer is due, if it is pending. -/
  pending : Option ℕ
  handler : Handler
  counter : BitVec 32
  /-- The messages since the module was loaded, the first one first. -/
  log : List Message
  /-- The tick of the `mod_timer` in `timer_init`. -/
  since : ℕ
  /-- The ticks since then at which the timer was due, or its handler was running. -/
  late : ℕ

/-- What can happen next. -/
inductive Act where
  /-- The next step of `timer_init`. -/
  | load : Act
  /-- The next step of `timer_exit`. -/
  | unload : Act
  | tick : Act
  /-- A timer that is due expires. -/
  | fire : Act
  /-- The next step of `timer_handler`. -/
  | handle : Act
deriving DecidableEq

/-- The ticks from `now` on until a timer set to `expires` is due. -/
def ahead (now expires : BitVec w) : ℕ :=
  if Clock.Reached now expires then 0 else (expires - now).toNat

namespace Sys

/-- `mod_timer(tl, jiffies + TIMER_TIMEOUT * HZ)`. -/
def modTimer (w hz : ℕ) (s : Sys) : Sys :=
  let jiffies := BitVec.ofNat w s.clock
  { s with pending := some (s.clock + ahead jiffies (jiffies + BitVec.ofNat w hz)) }

/-- The timer is due. -/
def due (s : Sys) : Bool := s.pending.any (· ≤ s.clock)

/-- The timer is due, or its handler is running. -/
def behind (s : Sys) : Bool := s.phase.running && (s.due || s.handler ≠ .idle)

/-- Before the module is first loaded. -/
def start : Sys := ⟨.absent, 0, none, .idle, 0, [], 0, 0⟩

end Sys

/-- **One step.** `timer_delete_sync` tries again as long as the handler is running. -/
def step (w hz : ℕ) (s : Sys) : Act → Sys
  | .load =>
    match s.phase with
    | .absent => { s with phase := .setup, counter := 0, log := [] }
    | .setup => Sys.modTimer w hz { s with phase := .loaded, since := s.clock, late := 0 }
    | _ => s
  | .unload =>
    match s.phase with
    | .loaded => { s with phase := .deleting }
    | .deleting =>
      if s.handler = .idle then { s with phase := .absent, pending := none } else s
    | _ => s
  | .tick => { s with clock := s.clock + 1, late := s.late + s.behind.toNat }
  | .fire =>
    if s.handler = .idle ∧ s.due then { s with pending := none, handler := .count } else s
  | .handle =>
    match s.handler with
    | .idle => s
    | .count => { s with counter := s.counter + 1, handler := .message }
    | .message => { s with log := s.log ++ [⟨s.counter, s.clock, s.late⟩], handler := .rearm }
    | .rearm => { s.modTimer w hz with handler := .idle }

/-! ### What holds in every state -/

/-- **A second is never more than half a turn of `jiffies`**, so the timer is due when it is
over. -/
theorem ahead_second {hz : ℕ} (hhalf : 2 * hz ≤ 2 ^ w) (now : ℕ) :
    ahead (BitVec.ofNat w now) (BitVec.ofNat w now + BitVec.ofNat w hz) = hz := by
  rw [← BitVec.ofNat_add, ahead]
  rcases Nat.eq_zero_or_pos hz with rfl | hpos
  · rw [Nat.add_zero, if_pos (Clock.reached_self _)]
  · rw [if_neg (Clock.not_reached (by omega) (by omega)), Clock.toNat_sub_ofNat (by omega)
      (by omega)]
    omega

/-- The times `timer_handler` has counted. -/
def Sys.counted (s : Sys) : ℕ := s.log.length + if s.handler = .message then 1 else 0

/-- **What the clock shows**, the timer being in use: a second for each time the handler has run,
the ticks it was late, and what has passed of the second that has begun. -/
def Sys.Timed (hz : ℕ) (s : Sys) : Prop :=
  match s.handler with
  | .idle =>
    ∃ e, s.pending = some e ∧ max s.clock e = s.since + (s.log.length + 1) * hz + s.late
  | .count | .message =>
    s.pending = none ∧ s.clock = s.since + (s.log.length + 1) * hz + s.late
  | .rearm => s.pending = none ∧ s.clock = s.since + s.log.length * hz + s.late

/-- **The messages are numbered**, and each comes as much too late as the timer has been late. -/
def Sys.Told (hz : ℕ) (s : Sys) : Prop :=
  ∀ i m, s.log[i]? = some m →
    m.seconds = BitVec.ofNat 32 (i + 1) ∧ m.tick = s.since + (i + 1) * hz + m.late

/-- **What holds of the module.** -/
structure Inv (hz : ℕ) (s : Sys) : Prop where
  counter : s.counter = BitVec.ofNat 32 s.counted
  timed : s.phase.running = true → s.Timed hz
  rest : s.phase.running = false → s.pending = none ∧ s.handler = .idle
  fresh : s.phase = .setup → s.log = []
  told : s.Told hz

theorem inv_start (hz : ℕ) : Inv hz Sys.start where
  counter := rfl
  timed h := absurd h (by decide)
  rest _ := ⟨rfl, rfl⟩
  fresh _ := rfl
  told i m h := absurd h (by simp [Sys.start])

theorem Sys.told_nil {hz : ℕ} {s : Sys} (h : s.log = []) : s.Told hz := by
  intro i m hm
  rw [h] at hm
  exact absurd hm (by simp)

/-- `timer_init` keeps the invariant. -/
theorem Inv.load {hz : ℕ} {s : Sys} (hhalf : 2 * hz ≤ 2 ^ w) (h : Inv hz s) :
    Inv hz (step w hz s .load) := by
  cases hp : s.phase with
  | absent =>
    obtain ⟨hpending, hidle⟩ := h.rest (by rw [hp]; rfl)
    simp only [step, hp]
    exact
      { counter := by simp [Sys.counted, hidle]
        timed := by simp [Phase.running]
        rest := fun _ => ⟨hpending, hidle⟩
        fresh := fun _ => rfl
        told := Sys.told_nil rfl }
  | setup =>
    obtain ⟨hpending, hidle⟩ := h.rest (by rw [hp]; rfl)
    have hlog := h.fresh hp
    simp only [step, hp]
    exact
      { counter := h.counter
        timed := fun _ => by simp [Sys.Timed, Sys.modTimer, hidle, hlog, ahead_second hhalf]
        rest := by simp [Sys.modTimer, Phase.running]
        fresh := by simp [Sys.modTimer]
        told := Sys.told_nil hlog }
  | loaded | deleting =>
    simpa only [step, hp] using h

/-- `timer_exit` keeps the invariant: it takes the timer away when the handler does not run. -/
theorem Inv.unload {hz : ℕ} {s : Sys} (h : Inv hz s) : Inv hz (step w hz s .unload) := by
  cases hp : s.phase with
  | loaded =>
    have htimed := h.timed (by rw [hp]; rfl)
    simp only [step, hp]
    exact ⟨h.counter, fun _ => htimed, by simp [Phase.running], by simp, h.told⟩
  | deleting =>
    simp only [step, hp]
    split
    · exact ⟨h.counter, by simp [Phase.running], fun _ => ⟨rfl, ‹_›⟩, by simp, h.told⟩
    · exact h
  | absent | setup => simpa only [step, hp] using h

theorem Sys.due_eq_true {s : Sys} : s.due = true ↔ ∃ e, s.pending = some e ∧ e ≤ s.clock := by
  simp [Sys.due, Option.any_eq_true]

/-- The clock goes on: what passes of a second that is over is late. -/
theorem Inv.tick {hz : ℕ} {s : Sys} (h : Inv hz s) : Inv hz (step w hz s .tick) := by
  refine ⟨h.counter, fun hrun => ?_, h.rest, h.fresh, h.told⟩
  have htimed := h.timed hrun
  have hrun' : s.phase.running = true := hrun
  cases hh : s.handler with
  | idle =>
    simp only [Sys.Timed, step, hh] at htimed ⊢
    obtain ⟨e, he, hmax⟩ := htimed
    refine ⟨e, he, ?_⟩
    rcases Nat.lt_or_ge s.clock e with hlt | hge
    · have hbehind : s.behind = false := by
        simp [Sys.behind, Sys.due, he, hh, hlt]
      rw [hbehind, Bool.toNat_false]
      omega
    · have hbehind : s.behind = true := by
        simp [Sys.behind, Sys.due, he, hge, hrun']
      rw [hbehind, Bool.toNat_true]
      omega
  | count | message | rearm =>
    have hbehind : s.behind = true := by
      simp [Sys.behind, hh, hrun']
    simp only [Sys.Timed, step, hh, hbehind, Bool.toNat_true] at htimed ⊢
    exact ⟨htimed.1, by omega⟩

/-- The timer expires when it is due, and not before. -/
theorem Inv.fire {hz : ℕ} {s : Sys} (h : Inv hz s) : Inv hz (step w hz s .fire) := by
  simp only [step]
  split
  · obtain ⟨hidle, hdue⟩ := ‹s.handler = .idle ∧ s.due = true›
    obtain ⟨e, he, hle⟩ := Sys.due_eq_true.mp hdue
    have hrun : s.phase.running = true := by
      rw [← Bool.not_eq_false]
      intro hrest
      rw [(h.rest hrest).1] at he
      contradiction
    refine ⟨?_, fun _ => ?_, fun hrest => absurd hrun (by simpa using hrest), h.fresh, h.told⟩
    · have hcount := h.counter
      simpa [Sys.counted, hidle] using hcount
    · have htimed := h.timed hrun
      simp only [Sys.Timed, hidle] at htimed ⊢
      obtain ⟨e', he', hmax⟩ := htimed
      obtain rfl : e = e' := Option.some.inj (he.symm.trans he')
      exact ⟨trivial, by omega⟩
  · exact h

/-- One message more. -/
theorem Sys.Told.message {hz : ℕ} {s : Sys} (h : s.Told hz)
    (hcount : s.counter = BitVec.ofNat 32 (s.log.length + 1))
    (hclock : s.clock = s.since + (s.log.length + 1) * hz + s.late) {handler : Handler} :
    Sys.Told hz { s with log := s.log ++ [⟨s.counter, s.clock, s.late⟩], handler := handler } := by
  intro i m hm
  have hm' : (s.log ++ [⟨s.counter, s.clock, s.late⟩])[i]? = some m := hm
  rw [List.getElem?_append] at hm'
  split at hm'
  · exact h i m hm'
  · have hlt := (List.getElem?_eq_some_iff.mp hm').1
    have hlast : i = s.log.length := by
      rw [List.length_singleton] at hlt
      omega
    rw [hlast, Nat.sub_self] at hm'
    obtain rfl := Option.some.inj hm'
    rw [hlast]
    exact ⟨hcount, hclock⟩

/-- `timer_handler` keeps the invariant. -/
theorem Inv.handle {hz : ℕ} {s : Sys} (hhalf : 2 * hz ≤ 2 ^ w) (h : Inv hz s) :
    Inv hz (step w hz s .handle) := by
  have hcount := h.counter
  -- the handler only runs while the timer is in use
  have hrun : s.handler ≠ .idle → s.phase.running = true := fun hne => by
    rw [← Bool.not_eq_false]
    exact fun hrest => hne (h.rest hrest).2
  cases hh : s.handler with
  | idle => simpa only [step, hh] using h
  | count =>
    have hrun' := hrun (by simp [hh])
    have htimed := h.timed hrun'
    simp only [Sys.Timed, hh] at htimed
    simp only [step, hh]
    refine ⟨?_, fun _ => htimed, fun hrest => absurd hrun' (by simpa using hrest), h.fresh, h.told⟩
    simp only [Sys.counted, hh, reduceCtorEq, if_false, if_true, Nat.add_zero] at hcount ⊢
    rw [hcount, BitVec.ofNat_add]
    rfl
  | message =>
    have hrun' := hrun (by simp [hh])
    have htimed := h.timed hrun'
    simp only [Sys.Timed, hh] at htimed
    simp only [Sys.counted, hh, if_true] at hcount
    simp only [step, hh]
    refine ⟨?_, fun _ => ?_, fun hrest => absurd hrun' (by simpa using hrest), fun hp => ?_,
      h.told.message hcount htimed.2⟩
    · simpa [Sys.counted] using hcount
    · simpa [Sys.Timed] using htimed
    · exact absurd hrun' (by simp [show s.phase = .setup from hp, Phase.running])
  | rearm =>
    have hrun' := hrun (by simp [hh])
    have htimed := h.timed hrun'
    simp only [Sys.Timed, hh] at htimed
    simp only [step, hh]
    refine ⟨?_, fun _ => ?_, fun hrest => absurd hrun' (by simpa [Sys.modTimer] using hrest),
      h.fresh, h.told⟩
    · simpa [Sys.counted, hh, Sys.modTimer] using hcount
    · simp only [Sys.Timed, Sys.modTimer, ahead_second hhalf]
      refine ⟨_, rfl, ?_⟩
      rw [Nat.add_mul]
      omega

/-- **Every step keeps the invariant.** -/
theorem Inv.step {hz : ℕ} {s : Sys} (hhalf : 2 * hz ≤ 2 ^ w) (h : Inv hz s) (a : Act) :
    Inv hz (Periodic.step w hz s a) := by
  cases a with
  | load => exact h.load hhalf
  | unload => exact h.unload
  | tick => exact h.tick
  | fire => exact h.fire
  | handle => exact h.handle hhalf

/-- **What the timer says, and when.** Unless a second is more than half a turn of `jiffies`: the
`i`th message after loading says `i` seconds, and comes `i * HZ` ticks after `timer_init`, and as
many more as the timer has been late until then; as long as the counter does not wrap it is right
exactly if the timer has never been late. When the module is not loaded the timer is not pending
and its handler does not run. -/
theorem timer_messages {hz : ℕ} (hhalf : 2 * hz ≤ 2 ^ w) (acts : List Act) :
    let s := run (step w hz) Sys.start acts
    (∀ i m, s.log[i]? = some m →
        m.seconds = BitVec.ofNat 32 (i + 1) ∧ m.tick = s.since + (i + 1) * hz + m.late ∧
          (i + 1 < 2 ^ 32 → (m.tick = s.since + m.seconds.toNat * hz ↔ m.late = 0))) ∧
      (s.phase = .absent → s.pending = none ∧ s.handler = .idle) := by
  intro s
  have h : Inv hz s := run_invariant _ (fun _ a hs => hs.step hhalf a) acts (inv_start hz)
  refine ⟨fun i m hm => ?_, fun hp => h.rest (by rw [hp]; rfl)⟩
  obtain ⟨hseconds, htick⟩ := h.told i m hm
  refine ⟨hseconds, htick, fun hlt => ?_⟩
  rw [hseconds, htick, BitVec.toNat_ofNat, Nat.mod_eq_of_lt hlt]
  omega

/-- The handler runs, to its end. -/
def expire : List Act := [.fire, .handle, .handle, .handle]

/-- The first two seconds of a timer of one tick a second, the first message a tick late. -/
def twoSeconds : List Act :=
  [.load, .load, .tick, .tick] ++ expire ++ [.tick] ++ expire

/-- The second message is late by the tick the first one was late. -/
theorem timer_messages_two :
    let s := run (step 8 1) Sys.start twoSeconds
    s.log[1]? = some ⟨2, 3, 1⟩ ∧ 3 = s.since + 2 * 1 + 1 := by
  have hm : (run (step 8 1) Sys.start twoSeconds).log[1]? = some ⟨2, 3, 1⟩ := rfl
  exact ⟨hm, ((timer_messages (w := 8) (by decide) twoSeconds).1 1 _ hm).2.1⟩

end Periodic

end KernelModules
