import Mathlib.Data.Fintype.EquivFin
import KernelModules.Deferred.Device
import KernelModules.Lib.Clock

/-!
# How long the timer waits

`MY_IOCTL_TIMER_SET` and `MY_IOCTL_TIMER_ALLOC` set the timer to `jiffies + arg * HZ`, in
`unsigned long` arithmetic, and it expires at the first tick at which the difference of
`jiffies` and that is not negative as a signed number. This file is the device with that clock
(`KernelModules.Deferred.Clocked.step`).

The product may wrap, and the sum may be so far ahead that it seems to have passed: the timer
waits for `arg * HZ` ticks only when these are no more than half a turn of `jiffies`. And the
timer is one for all: a handler that has found a list to watch sets it again when it is through
with the list, and so does every call that is on its way when the request is made. When all of
these let the timer wait, and only then, it does not expire early:
`KernelModules.Deferred.never_early_exact`.
-/

namespace KernelModules

namespace Deferred

variable {w : ℕ}

/-! ### The device and the clock -/

/-- The device and the clock, whose low bits are `jiffies`. -/
structure Clocked (w : ℕ) where
  /-- The device. -/
  sys : Sys w
  /-- The clock. -/
  clock : ℕ

/-- What can happen next. -/
inductive Event (w : ℕ) where
  /-- The next tick. -/
  | tick : Event w
  /-- A step of the device; what it reads of `jiffies` is the clock's. -/
  | act (a : Act w) : Event w

/-- An action at some value of `jiffies`. -/
def Act.at (now : BitVec w) : Act w → Act w
  | .call c env => .call c { env with now := now }
  | .handle deaths _ => .handle deaths now
  | a => a

namespace Clocked

/-- The module, about to be loaded. -/
def start (clock : ℕ) : Clocked w := ⟨Sys.start, clock⟩

/-- `jiffies`. -/
def jiffies (s : Clocked w) : BitVec w := BitVec.ofNat w s.clock

/-- The timer has to expire. -/
def due (s : Clocked w) : Bool :=
  s.sys.handler = .idle && s.sys.pending.any fun e => Clock.Reached s.jiffies e.expires

/-- **One step.** The timer expires at the first tick at which it has to, and not before. -/
def step (hz : ℕ) (s : Clocked w) : Event w → Clocked w
  | .tick => if s.due then s else { s with clock := s.clock + 1 }
  | .act .fire =>
    if s.due then { s with sys := Deferred.step (BitVec.ofNat w hz) s.sys .fire } else s
  | .act a => { s with sys := Deferred.step (BitVec.ofNat w hz) s.sys (a.at s.jiffies) }

/-- **`timer_handler` begins to run.** -/
def Begins (hz : ℕ) (s : Clocked w) (e : Event w) : Prop :=
  s.sys.handler = .idle ∧ (s.step hz e).sys.handler ≠ .idle

instance (hz : ℕ) (s : Clocked w) (e : Event w) : Decidable (s.Begins hz e) :=
  inferInstanceAs (Decidable (_ ∧ _))

end Clocked

theorem due_iff {s : Clocked w} : s.due = true ↔
    s.sys.handler = .idle ∧ ∃ e, s.sys.pending = some e ∧ Clock.Reached s.jiffies e.expires := by
  simp [Clocked.due, Option.any_eq_true]

/-- Everything but the timer goes on at any time. -/
theorem Clocked.step_act (hz : ℕ) (s : Clocked w) {a : Act w} (ha : a ≠ .fire) :
    s.step hz (.act a) =
      { s with sys := Deferred.step (BitVec.ofNat w hz) s.sys (a.at s.jiffies) } := by
  cases a with
  | fire => exact absurd rfl ha
  | _ => rfl

/-- A step that is not the beginning of a request. -/
def Event.Unasked : Event w → Prop
  | .act (.ioctl _ _) => False
  | _ => True

/-- What an action of a running system reads of `jiffies`. -/
def Act.ReadsAt (now : BitVec w) (a : Act w) : Prop :=
  (∀ c env, a = .call c env → env.now = now) ∧ ∀ deaths at_, a = .handle deaths at_ → at_ = now

theorem Act.readsAt_at (now : BitVec w) (a : Act w) : (a.at now).ReadsAt now := by
  constructor
  · rintro c env h
    cases a with
    | call => exact (Act.call.inj h).2 ▸ rfl
    | _ => exact absurd h (by simp [Act.at])
  · rintro deaths at_ h
    cases a with
    | handle => exact (Act.handle.inj h).2.symm
    | _ => exact absurd h (by simp [Act.at])

/-- **The steps, one by one**: the clock goes on, the timer expires, or the device does
something else at the same tick. -/
theorem clocked_cases (hz : ℕ) (s : Clocked w) {e : Event w} (he : e.Unasked) :
    s.step hz e = s ∨
    (e = .tick ∧ s.due = false ∧ s.step hz e = { s with clock := s.clock + 1 }) ∨
    (e = .act .fire ∧ s.due = true) ∨
    ∃ a : Act w, a ≠ .fire ∧ (∀ c cmd, a ≠ .ioctl c cmd) ∧ a.ReadsAt s.jiffies ∧
      s.step hz e = { s with sys := Deferred.step (BitVec.ofNat w hz) s.sys a } := by
  cases e with
  | tick =>
    by_cases hdue : s.due = true
    · exact .inl (by rw [Clocked.step, if_pos hdue])
    · exact .inr (.inl ⟨rfl, by simpa using hdue, by rw [Clocked.step, if_neg hdue]⟩)
  | act a =>
    cases a with
    | fire =>
      by_cases hdue : s.due = true
      · exact .inr (.inr (.inl ⟨rfl, hdue⟩))
      · exact .inl (by rw [Clocked.step, if_neg hdue])
    | ioctl c cmd => exact he.elim
    | _ =>
      exact .inr (.inr (.inr ⟨_, by simp [Act.at], by simp [Act.at], Act.readsAt_at _ _,
        s.step_act hz (by simp)⟩))

/-- The clock does not turn back. -/
theorem clock_le_step (hz : ℕ) (s : Clocked w) (e : Event w) : s.clock ≤ (s.step hz e).clock := by
  cases e with
  | tick =>
    simp only [Clocked.step]
    split
    · exact le_rfl
    · exact Nat.le_succ _
  | act a =>
    cases a with
    | fire =>
      simp only [Clocked.step]
      split <;> exact le_rfl
    | _ => exact le_rfl

theorem clock_le_run (hz : ℕ) (events : List (Event w)) (s : Clocked w) :
    s.clock ≤ (run (Clocked.step hz) s events).clock := by
  have hstep : ∀ (s' : Clocked w) (e : Event w), s.clock ≤ s'.clock →
      s.clock ≤ (s'.step hz e).clock := fun s' e h => h.trans (clock_le_step hz s' e)
  exact run_invariant _ hstep events le_rfl

/-- The handler begins to run when the timer expires. -/
theorem due_of_begins {hz : ℕ} {s : Clocked w} {e : Event w} (he : e.Unasked)
    (h : s.Begins hz e) : s.due = true := by
  obtain ⟨hidle, hrun⟩ := h
  rcases clocked_cases hz s he with hstep | ⟨-, -, hstep⟩ | ⟨-, hdue⟩ | ⟨a, hfire, -, -, hstep⟩
  · rw [hstep] at hrun
    exact absurd hidle hrun
  · rw [hstep] at hrun
    exact absurd hidle hrun
  · exact hdue
  · rw [hstep] at hrun
    have hs := step_cases (BitVec.ofNat w hz) s.sys a
    refine absurd ?_ hrun
    generalize Deferred.step (BitVec.ofNat w hz) s.sys a = s' at hs
    cases hs with
    | fire => exact absurd rfl hfire
    | switch hh | schedule hh | sweep hh | rearm hh => exact absurd (hidle.symm.trans hh) (by simp)
    | modTimer =>
      rw [Sys.modTimer_eq]
      exact hidle
    | _ => exact hidle

/-! ### What is on its way to the timer -/

/-- What a call in progress is going to set the timer to run after. -/
def Pc.delay (hz : BitVec w) : Pc w → Option (BitVec w)
  | .rcuLock => some hz
  | .lookup => some hz
  | .rcuUnlock task => task.map fun _ => hz
  | .kmalloc _ => some hz
  | .getTask _ => some hz
  | .insert _ => some hz
  | .setFlag _ delay => some delay
  | .modTimer _ delay => some delay
  | .cancel => none
  | .returned _ => none

/-- The handler is going to set the timer again. -/
def Sys.rearms (s : Sys w) : Bool :=
  match s.handler with
  | .start _ => s.flag = .mon
  | .sweep => true
  | .rearm => true
  | _ => false

/-- **Nothing makes the timer expire early**: what it is set to is no more than half a turn
ahead, and whatever sets it again – the handler, and the other calls in progress – lets it wait
for as long. -/
structure Undisturbed (hz ahead c : ℕ) (s : Sys w) : Prop where
  half : s.timerReady = true → 2 * ahead ≤ 2 ^ w
  handler : s.rearms = true → ahead ≤ Clock.wait (BitVec.ofNat w hz)
  calls : ∀ d, d ≠ c → ∀ pc, s.calls d = some pc →
    ∀ delay ∈ pc.delay (BitVec.ofNat w hz), ahead ≤ Clock.wait delay

/-- A call does not change its mind. -/
theorem Pc.Next.delay {hz : BitVec w} {pc pc' : Pc w} (h : Pc.Next hz pc pc') {delay : BitVec w}
    (hd : delay ∈ pc'.delay hz) : delay ∈ pc.delay hz := by
  cases h with
  | lookup =>
    obtain ⟨t, -, rfl⟩ := Option.map_eq_some_iff.mp hd
    rfl
  | missed | nomem | modTimer | cancel => exact absurd hd (by simp [Pc.delay])
  | rcuLock | rcuUnlock | kmalloc | getTask | insert | setFlag => exact hd

/-! ### What holds of every run -/

section Sound

variable {hz : BitVec w} {s s' : Sys w} {a : Act w}

/-- A call that begins, or goes on. -/
theorem Step.calls_at (hs : Step hz s a s') {c : ℕ} {pc : Pc w} (hc : s'.calls c = some pc) :
    (∃ pc₀, s.calls c = some pc₀ ∧ (pc = pc₀ ∨ Pc.Next hz pc₀ pc)) ∨
      ∃ cmd, a = .ioctl c cmd ∧ pc = enter hz cmd := by
  rcases hs.calls_cases with heq | ⟨d, cmd, rfl, -, heq⟩ | ⟨d, env, pc₀, pc₁, -, hd, hnext, heq⟩
  · rw [heq] at hc
    exact .inl ⟨pc, hc, .inl rfl⟩
  · rw [heq] at hc
    rcases eq_or_ne c d with rfl | hne
    · rw [Function.update_self] at hc
      exact .inr ⟨cmd, rfl, (Option.some.inj hc).symm⟩
    · rw [Function.update_of_ne hne] at hc
      exact .inl ⟨pc, hc, .inl rfl⟩
  · rw [heq] at hc
    rcases eq_or_ne c d with rfl | hne
    · rw [Function.update_self] at hc
      obtain rfl := Option.some.inj hc
      exact .inl ⟨pc₀, hd, .inr hnext⟩
    · rw [Function.update_of_ne hne] at hc
      exact .inl ⟨pc, hc, .inl rfl⟩

/-- **The device is published**, or nobody has it. -/
def Sys.Live (s : Sys w) : Prop := s.phase.published = true ∨ s.files = 0 ∧ s.active = []

theorem Step.live (hs : Step hz s a s') (h : s.Live) : s'.Live := by
  have hunpublished : s.phase.published = false → s.files = 0 ∧ s.active = [] :=
    fun hp => h.resolve_left (by simp [hp])
  cases hs with
  | phase hp =>
    generalize hq : s.phase = q at hp
    cases hp with
    | unload hfiles hactive => exact .inr ⟨hfiles, hactive⟩
    | cdevAdd | deviceCreate => exact .inl rfl
    | failed | register | initList | deviceDestroy | cdevDel | unregister | flush | flushed =>
      exact .inr (hunpublished (by rw [hq]; rfl))
  | initFlag hp | initWork hp | timerDelete hp | drop hp =>
    exact .inr (hunpublished (by rw [hp]; rfl))
  | timerSetup => exact .inl rfl
  | openFile hp => exact .inl hp
  | closeFile => exact h.imp_right fun ⟨hfiles, hactive⟩ => ⟨by simp [hfiles], hactive⟩
  | ioctl hf => exact h.imp_right fun ⟨hfiles, _⟩ => absurd hfiles hf
  | missed | nomem | cancel =>
    exact h.imp_right fun ⟨hfiles, hactive⟩ => ⟨hfiles, by simp [Sys.ret, hactive]⟩
  | modTimer =>
    rw [Sys.modTimer_eq]
    exact h.imp_right fun ⟨hfiles, hactive⟩ => ⟨hfiles, by simp [Sys.ret, hactive]⟩
  | rearm =>
    rw [Sys.modTimer_eq]
    exact h
  | schedule =>
    rw [Sys.scheduleWork_eq]
    exact h
  | stutter | other | rcuLock | lookup | rcuUnlock | kmalloc | getTask | insert | setFlag | fire
  | switch | sweep | workBegin | workEnd | dies | exits | frees => exact h

/-- **The timer is used once it is set up**, or not at all. -/
structure Armable (s : Sys w) : Prop where
  loaded : s.phase = .loaded → s.timerReady = true
  pending : s.pending ≠ none → s.timerReady = true
  handler : s.handler ≠ .idle → s.timerReady = true

theorem Step.armable (hs : Step hz s a s') (h : Armable s) : Armable s' := by
  have hrunning : ∀ {at_ : Handler}, s.handler = at_ → at_ ≠ .idle → s.timerReady = true :=
    fun hh hne => h.handler (hh ▸ hne)
  cases hs with
  | @phase a p hp =>
    refine ⟨fun hl => ?_, h.pending, h.handler⟩
    obtain rfl : p = .loaded := hl
    generalize s.phase = q at hp
    cases hp
  | timerSetup => exact ⟨fun _ => rfl, fun _ => rfl, fun _ => rfl⟩
  | initFlag | initWork | drop => exact ⟨fun hl => absurd hl (by simp), h.pending, h.handler⟩
  | timerDelete => exact ⟨fun hl => absurd hl (by simp), fun hp => absurd rfl hp, h.handler⟩
  | modTimer =>
    rw [Sys.modTimer_eq]
    refine ⟨h.loaded, fun hp => ?_, h.handler⟩
    by_contra hready
    exact hready (h.pending (ne_of_eq_of_ne (if_neg hready).symm hp))
  | cancel => exact ⟨h.loaded, fun hp => absurd rfl hp, h.handler⟩
  | fire hp => exact ⟨h.loaded, fun hn => absurd rfl hn, fun _ => h.pending (by simp [hp])⟩
  | switch hh | sweep hh => exact ⟨h.loaded, h.pending, fun _ => hrunning hh (by simp)⟩
  | schedule hh =>
    rw [Sys.scheduleWork_eq]
    exact ⟨h.loaded, h.pending, fun hn => absurd rfl hn⟩
  | rearm hh =>
    rw [Sys.modTimer_eq]
    exact ⟨h.loaded, fun _ => hrunning hh (by simp), fun hn => absurd rfl hn⟩
  | stutter | openFile | closeFile | other | ioctl | rcuLock | lookup | missed | rcuUnlock | kmalloc
  | nomem | getTask | insert | setFlag | workBegin | workEnd | dies | exits | frees =>
    exact ⟨h.loaded, h.pending, h.handler⟩

/-- A call that watches waits for a second. -/
def Seconds (hz : BitVec w) (pc : Pc w) : Prop := ∀ delay, pc = .setFlag .mon delay → delay = hz

theorem seconds_enter (hz : BitVec w) (cmd : Command w) : Seconds hz (enter hz cmd) := by
  intro delay h
  cases cmd <;> simp [enter] at h

theorem Pc.Next.seconds {pc pc' : Pc w} (h : Pc.Next hz pc pc') : Seconds hz pc' := by
  intro delay heq
  cases h with
  | insert => exact (Pc.setFlag.inj heq).2.symm
  | _ => exact absurd heq (by simp)

/-- **What holds of every run.** -/
structure Sound (hz : BitVec w) (s : Sys w) : Prop where
  attended : Attended s
  live : s.Live
  armable : Armable s
  seconds : ∀ c pc, s.calls c = some pc → Seconds hz pc

theorem sound_start (hz : BitVec w) : Sound hz (Sys.start : Sys w) where
  attended := attended_start
  live := .inr ⟨rfl, rfl⟩
  armable := ⟨fun h => absurd h (by simp [Sys.start]), fun h => absurd rfl h, fun h => absurd rfl h⟩
  seconds c pc hc := absurd hc (by simp [Sys.start])

theorem Step.sound (hs : Step hz s a s') (h : Sound hz s) : Sound hz s' where
  attended := hs.attended h.attended
  live := hs.live h.live
  armable := hs.armable h.armable
  seconds c pc hc := by
    rcases hs.calls_at hc with ⟨pc₀, hc₀, rfl | hnext⟩ | ⟨cmd, -, rfl⟩
    · exact h.seconds c pc hc₀
    · exact hnext.seconds
    · exact seconds_enter hz cmd

/-- While a call is in progress the device is published. -/
theorem Sound.published (h : Sound hz s) {c : ℕ} {pc : Pc w} (hc : s.calls c = some pc)
    (hpc : pc.over = false) : s.phase.published = true := by
  refine h.live.resolve_right fun ⟨_, hactive⟩ => ?_
  have hmem := h.attended.tracked.mem hc hpc
  rw [hactive] at hmem
  exact absurd hmem List.not_mem_nil

end Sound

/-- A step leaves the device alone, or is one of its steps. -/
theorem clocked_sys (hz : ℕ) (s : Clocked w) (e : Event w) :
    (s.step hz e).sys = s.sys ∨
      ∃ a, (s.step hz e).sys = Deferred.step (BitVec.ofNat w hz) s.sys a := by
  cases e with
  | tick =>
    simp only [Clocked.step]
    split <;> exact .inl rfl
  | act a =>
    by_cases ha : a = .fire
    · subst ha
      simp only [Clocked.step]
      split
      · exact .inr ⟨.fire, rfl⟩
      · exact .inl rfl
    · exact .inr ⟨a.at s.jiffies, congrArg Clocked.sys (s.step_act hz ha)⟩

theorem sound_run (hz now : ℕ) (events : List (Event w)) :
    Sound (BitVec.ofNat w hz) (run (Clocked.step hz) (Clocked.start now) events).sys := by
  have hstep : ∀ (s : Clocked w) (e : Event w), Sound (BitVec.ofNat w hz) s.sys →
      Sound (BitVec.ofNat w hz) (s.step hz e).sys := by
    intro s e h
    rcases clocked_sys hz s e with heq | ⟨a, heq⟩
    · rwa [heq]
    · rw [heq]
      exact (step_cases _ s.sys a).sound h
  exact run_invariant _ hstep events (sound_start _)

/-! ### A timer that keeps -/

section Late

variable {hz : BitVec w} {s s' : Sys w} {a : Act w}

/-- What `mod_timer` leaves the timer at. -/
theorem pending_modTimer {expires : BitVec w} {ty : TimerType} {e : Expiry w}
    (he : (s.modTimer expires ty).pending = some e) :
    s.timerReady = false ∧ s.pending = some e ∨ s.timerReady = true ∧ e = ⟨expires, ty⟩ := by
  rw [Sys.modTimer_eq] at he
  cases hready : s.timerReady with
  | false => exact .inl ⟨rfl, by simpa [hready] using he⟩
  | true => exact .inr ⟨rfl, by simpa [hready] using he.symm⟩

/-- What a step leaves the timer at: what it was, nothing, or what somebody sets it to. -/
theorem Step.pending_cases (hs : Step hz s a s') {e : Expiry w} (he : s'.pending = some e) :
    s.pending = some e ∨
    (∃ c env ty delay, a = .call c env ∧ s.calls c = some (.modTimer ty delay) ∧
      e.expires = env.now + delay) ∨
    ∃ deaths now, a = .handle deaths now ∧ s.rearms = true ∧ e.expires = now + hz := by
  cases hs with
  | timerDelete | cancel | fire => exact absurd he (by simp)
  | modTimer hc =>
    rcases pending_modTimer he with ⟨-, hold⟩ | ⟨-, rfl⟩
    · exact .inl hold
    · exact .inr (.inl ⟨_, _, _, _, rfl, hc, rfl⟩)
  | rearm hh =>
    rcases pending_modTimer he with ⟨-, hold⟩ | ⟨-, rfl⟩
    · exact .inl hold
    · exact .inr (.inr ⟨_, _, rfl, by rw [Sys.rearms, hh], rfl⟩)
  | schedule =>
    rw [Sys.scheduleWork_eq] at he
    exact .inl he
  | stutter | phase | initFlag | initWork | timerSetup | drop | openFile | closeFile | other | ioctl
  | rcuLock | lookup | missed | rcuUnlock | kmalloc | nomem | getTask | insert | setFlag | switch
  | sweep | workBegin | workEnd | dies | exits | frees => exact .inl he

/-- What the flag says, unless it is `TIMER_TYPE_MON`, does not make the handler set the
timer again. -/
theorem rearms_of_flag_ne (h : s'.rearms = true) (hhandler : s'.handler = s.handler)
    (hflag : s'.flag ≠ .mon) : s.rearms = true := by
  rw [Sys.rearms, hhandler] at h
  rw [Sys.rearms]
  cases hs : s.handler with
  | start ty =>
    rw [hs] at h
    exact absurd (of_decide_eq_true h) hflag
  | sweep | rearm => rfl
  | idle | schedule =>
    rw [hs] at h
    exact absurd h Bool.false_ne_true

/-- The handler sets the timer again because it was going to, or because a call that watches
has just raised the flag. -/
theorem Step.rearms_cases (hs : Step hz s a s') (ha : a ≠ .fire) (h : s'.rearms = true) :
    s.rearms = true ∨ ∃ c delay, s.calls c = some (.setFlag .mon delay) := by
  cases hs with
  | fire => exact absurd rfl ha
  | @setFlag c env ty delay hc =>
    cases ty with
    | mon => exact .inr ⟨c, delay, hc⟩
    | none | set | alloc => exact .inl (rearms_of_flag_ne h rfl (by simp))
  | initFlag => exact .inl (rearms_of_flag_ne h rfl (by simp))
  | switch hh =>
    refine .inl ?_
    rw [Sys.rearms, hh]
    cases hflag : s.flag with
    | mon => rfl
    | none | set | alloc => exact absurd h (by simp [Sys.rearms, Deferred.switch, hflag])
  | sweep hh => exact .inl (by rw [Sys.rearms, hh])
  | modTimer =>
    rw [Sys.modTimer_eq] at h
    exact .inl h
  | schedule => exact absurd h (by simp [Sys.rearms])
  | rearm =>
    rw [Sys.modTimer_eq] at h
    exact absurd h (by simp [Sys.rearms])
  | stutter | phase | initWork | timerSetup | timerDelete | drop | openFile | closeFile | other
  | ioctl | rcuLock | lookup | missed | rcuUnlock | kmalloc | nomem | getTask | insert | cancel
  | workBegin | workEnd | dies | exits | frees => exact .inl h

end Late

/-- **The timer does not expire within `ahead` ticks from `since`**: what it is set to has not
come by then, and whatever sets it again lets it wait for as long. -/
structure Late (hz since ahead : ℕ) (s : Clocked w) : Prop where
  later : since ≤ s.clock
  pending : ∀ e, s.sys.pending = some e → ∀ t, s.clock ≤ t → t < since + ahead →
    ¬Clock.Reached (BitVec.ofNat w t) e.expires
  handler : s.sys.rearms = true → ahead ≤ Clock.wait (BitVec.ofNat w hz)
  calls : ∀ c pc, s.sys.calls c = some pc →
    ∀ delay ∈ pc.delay (BitVec.ofNat w hz), ahead ≤ Clock.wait delay
  seconds : ∀ c pc, s.sys.calls c = some pc → Seconds (BitVec.ofNat w hz) pc

section Late

variable {hz since ahead : ℕ} {s : Clocked w}

theorem Late.le_of_due (h : Late hz since ahead s) (hdue : s.due = true) :
    since + ahead ≤ s.clock := by
  obtain ⟨-, e, he, hreached⟩ := due_iff.mp hdue
  by_contra hearly
  exact h.pending e he s.clock le_rfl (not_le.mp hearly) hreached

/-- Nothing sets the timer to expire early. -/
theorem Late.act (h : Late hz since ahead s) {a : Act w} (hfire : a ≠ .fire)
    (hioctl : ∀ c cmd, a ≠ .ioctl c cmd) (hreads : a.ReadsAt s.jiffies) :
    Late hz since ahead { s with sys := Deferred.step (BitVec.ofNat w hz) s.sys a } where
  later := h.later
  pending e he t hle hlt := by
    have hnow : ∀ {now delay : BitVec w}, now = s.jiffies → ahead ≤ Clock.wait delay →
        e.expires = now + delay → ¬Clock.Reached (BitVec.ofNat w t) e.expires := by
      rintro now delay rfl hwait heq
      have hlater := h.later
      rw [heq]
      exact Clock.not_reached_of_lt_wait hle (by omega)
    rcases (step_cases _ s.sys a).pending_cases he with
      hold | ⟨c, env, ty, delay, ha, hc, heq⟩ | ⟨deaths, now, ha, hrearms, heq⟩
    · exact h.pending e hold t hle hlt
    · exact hnow (hreads.1 c env ha) (h.calls c _ hc delay rfl) heq
    · exact hnow (hreads.2 deaths now ha) (h.handler hrearms) heq
  handler hrearms := by
    rcases (step_cases _ s.sys a).rearms_cases hfire hrearms with hold | ⟨c, delay, hc⟩
    · exact h.handler hold
    · obtain rfl := h.seconds c _ hc delay rfl
      exact h.calls c _ hc _ rfl
  calls c pc hc delay hdelay := by
    rcases (step_cases _ s.sys a).calls_at hc with ⟨pc₀, hc₀, rfl | hnext⟩ | ⟨cmd, ha, -⟩
    · exact h.calls c pc hc₀ delay hdelay
    · exact h.calls c pc₀ hc₀ delay (hnext.delay hdelay)
    · exact absurd ha (hioctl c cmd)
  seconds c pc hc := by
    rcases (step_cases _ s.sys a).calls_at hc with ⟨pc₀, hc₀, rfl | hnext⟩ | ⟨cmd, ha, -⟩
    · exact h.seconds c pc hc₀
    · exact hnext.seconds
    · exact absurd ha (hioctl c cmd)

/-- **One step**: the timer keeps, or its time has come. -/
theorem Late.step (h : Late hz since ahead s) {e : Event w} (he : e.Unasked) :
    since + ahead ≤ (s.step hz e).clock ∨ Late hz since ahead (s.step hz e) := by
  rcases clocked_cases hz s he with
    hstep | ⟨-, -, hstep⟩ | ⟨-, hdue⟩ | ⟨a, hfire, hioctl, hreads, hstep⟩
  · rw [hstep]
    exact .inr h
  · rw [hstep]
    exact .inr ⟨h.later.trans (Nat.le_succ _),
      fun e he t hle => h.pending e he t ((Nat.le_succ _).trans hle), h.handler, h.calls, h.seconds⟩
  · exact .inl ((h.le_of_due hdue).trans (clock_le_step hz s e))
  · rw [hstep]
    exact .inr (h.act hfire hioctl hreads)

/-- **The timer keeps until its time.** -/
theorem Late.run (h : Late hz since ahead s) {events : List (Event w)}
    (hevents : ∀ e ∈ events, e.Unasked) :
    since + ahead ≤ (run (Clocked.step hz) s events).clock ∨
      Late hz since ahead (run (Clocked.step hz) s events) := by
  induction events generalizing s with
  | nil => exact .inr h
  | cons e events ih =>
    have hrest : ∀ e' ∈ events, e'.Unasked :=
      fun e' he' => hevents e' (List.mem_cons_of_mem e he')
    rw [run_cons]
    rcases h.step (hevents e List.mem_cons_self) with hclock | hlate
    · exact .inl (hclock.trans (clock_le_run hz events _))
    · exact ih hlate hrest

end Late

/-- **The timer is not early**: without a further request, `timer_handler` does not begin to
run within `ahead` ticks from `since`. -/
def NeverEarly (hz since ahead : ℕ) (s : Clocked w) : Prop :=
  ∀ (events : List (Event w)) (e : Event w), (∀ e' ∈ events, e'.Unasked) → e.Unasked →
    (run (Clocked.step hz) s events).Begins hz e →
      since + ahead ≤ (run (Clocked.step hz) s events).clock

theorem Late.neverEarly {hz since ahead : ℕ} {s : Clocked w} (h : Late hz since ahead s) :
    NeverEarly hz since ahead s := by
  intro events e hevents he hbegins
  rcases h.run hevents with hclock | hlate
  · exact hclock
  · exact hlate.le_of_due (due_of_begins he hbegins)

/-! ### A timer that does not keep -/

/-- The handler can begin to run before `limit`. -/
def Early (hz limit : ℕ) (s : Clocked w) : Prop :=
  ∃ (events : List (Event w)) (e : Event w), (∀ e' ∈ events, e'.Unasked) ∧ e.Unasked ∧
    (run (Clocked.step hz) s events).Begins hz e ∧ (run (Clocked.step hz) s events).clock < limit

section Early

variable {hz limit : ℕ} {s : Clocked w}

theorem Early.not_neverEarly {since ahead : ℕ} (h : Early hz (since + ahead) s) :
    ¬NeverEarly hz since ahead s := by
  obtain ⟨events, e, hevents, he, hbegins, hlt⟩ := h
  exact fun hnever => absurd (hnever events e hevents he hbegins) (not_le.mpr hlt)

theorem Early.of_run {events : List (Event w)} (hevents : ∀ e ∈ events, e.Unasked)
    (h : Early hz limit (run (Clocked.step hz) s events)) : Early hz limit s := by
  obtain ⟨more, e, hmore, he, hbegins, hlt⟩ := h
  rw [← run_append] at hbegins hlt
  exact ⟨events ++ more, e, List.forall_mem_append.mpr ⟨hevents, hmore⟩, he, hbegins, hlt⟩

theorem Early.of_step {e : Event w} (he : e.Unasked) (h : Early hz limit (s.step hz e)) :
    Early hz limit s := .of_run (List.forall_mem_singleton.mpr he) h

/-- A timer that has to expire some ticks from now does so by then. -/
theorem early_of_reached (k : ℕ) {s : Clocked w} {e : Expiry w} (hidle : s.sys.handler = .idle)
    (hpending : s.sys.pending = some e)
    (hreached : Clock.Reached (BitVec.ofNat w (s.clock + k)) e.expires)
    (hlt : s.clock + k < limit) : Early hz limit s := by
  by_cases hdue : s.due = true
  · refine ⟨[], .act .fire, List.forall_mem_nil _, trivial, ⟨hidle, ?_⟩,
      (Nat.le_add_right _ _).trans_lt hlt⟩
    simp [Clocked.step, hdue, Deferred.step, hidle, hpending]
  · -- the clock goes on
    cases k with
    | zero => exact absurd (due_iff.mpr ⟨hidle, e, hpending, hreached⟩) hdue
    | succ k =>
      have htick : s.step hz .tick = ⟨s.sys, s.clock + 1⟩ := if_neg hdue
      refine .of_step (e := .tick) trivial ?_
      rw [htick]
      have hlater : Clock.Reached (BitVec.ofNat w (s.clock + 1 + k)) e.expires := by
        rwa [Nat.add_right_comm]
      exact early_of_reached k (s := ⟨s.sys, s.clock + 1⟩) hidle hpending hlater
        ((Nat.add_right_comm _ _ _).trans_lt hlt)

/-- A timer that is set expires after as many ticks as it waits for. -/
theorem early_of_wait {delay : BitVec w} {ty : TimerType} (hidle : s.sys.handler = .idle)
    (hpending : s.sys.pending = some ⟨s.jiffies + delay, ty⟩)
    (hlt : s.clock + Clock.wait delay < limit) : Early hz limit s :=
  early_of_reached _ hidle hpending (Clock.reached_wait s.clock delay) hlt

/-- A call goes on, at the same tick. -/
theorem step_call {c : ℕ} {pc : Pc w} (hc : s.sys.calls c = some pc) (env : Env w) :
    s.step hz (.act (.call c env)) =
      { s with
        sys := stepCall (BitVec.ofNat w hz) s.sys c { env with now := s.jiffies } pc } := by
  simp only [Clocked.step, Act.at, Deferred.step, hc]

/-- The timer is there, and the handler does not run. -/
structure Poised (s : Sys w) : Prop where
  handler : s.handler = .idle
  ready : s.timerReady = true

variable (h : Poised s.sys) {c : ℕ}

include h

theorem Poised.modTimer {ty : TimerType} {delay : BitVec w}
    (hc : s.sys.calls c = some (.modTimer ty delay)) (hlt : s.clock + Clock.wait delay < limit) :
    Early hz limit s := by
  refine .of_step (e := .act (.call c ⟨none, true, 0⟩)) trivial ?_
  rw [step_call hc, stepCall, Sys.modTimer, if_pos h.ready]
  exact early_of_wait h.handler rfl hlt

theorem Poised.setFlag {ty : TimerType} {delay : BitVec w}
    (hc : s.sys.calls c = some (.setFlag ty delay)) (hlt : s.clock + Clock.wait delay < limit) :
    Early hz limit s := by
  refine .of_step (e := .act (.call c ⟨none, true, 0⟩)) trivial ?_
  rw [step_call hc, stepCall]
  exact Poised.modTimer ⟨h.handler, h.ready⟩ (Function.update_self ..) hlt

theorem Poised.insert {t : ℕ} (hc : s.sys.calls c = some (.insert t))
    (hlt : s.clock + Clock.wait (BitVec.ofNat w hz) < limit) : Early hz limit s := by
  refine .of_step (e := .act (.call c ⟨none, true, 0⟩)) trivial ?_
  rw [step_call hc, stepCall]
  exact Poised.setFlag ⟨h.handler, h.ready⟩ (Function.update_self ..) hlt

theorem Poised.getTask {t : ℕ} (hc : s.sys.calls c = some (.getTask t))
    (hlt : s.clock + Clock.wait (BitVec.ofNat w hz) < limit) : Early hz limit s := by
  refine .of_step (e := .act (.call c ⟨none, true, 0⟩)) trivial ?_
  rw [step_call hc, stepCall]
  exact Poised.insert ⟨h.handler, h.ready⟩ (Function.update_self ..) hlt

theorem Poised.kmalloc {t : ℕ} (hc : s.sys.calls c = some (.kmalloc t))
    (hlt : s.clock + Clock.wait (BitVec.ofNat w hz) < limit) : Early hz limit s := by
  refine .of_step (e := .act (.call c ⟨none, true, 0⟩)) trivial ?_
  rw [step_call hc, stepCall, if_pos rfl]
  exact Poised.getTask ⟨h.handler, h.ready⟩ (Function.update_self ..) hlt

theorem Poised.rcuUnlock {t : ℕ} (hc : s.sys.calls c = some (.rcuUnlock (some t)))
    (hlt : s.clock + Clock.wait (BitVec.ofNat w hz) < limit) : Early hz limit s := by
  refine .of_step (e := .act (.call c ⟨none, true, 0⟩)) trivial ?_
  rw [step_call hc, stepCall]
  exact Poised.kmalloc ⟨h.handler, h.ready⟩ (Function.update_self ..) hlt

/-- The task looked up is there. -/
theorem Poised.lookup (hc : s.sys.calls c = some .lookup)
    (hlt : s.clock + Clock.wait (BitVec.ofNat w hz) < limit) : Early hz limit s := by
  obtain ⟨t, ht⟩ := Infinite.exists_notMem_finset (s.sys.exited ++ s.sys.freed).toFinset
  have hpresent : s.sys.Present t := by simpa [Sys.Present] using ht
  have hfound : (some t).filter (fun t => s.sys.Present t) = some t := by simpa using hpresent
  refine .of_step (e := .act (.call c ⟨some t, true, 0⟩)) trivial ?_
  rw [step_call hc, stepCall, hfound]
  exact Poised.rcuUnlock ⟨h.handler, h.ready⟩ (Function.update_self ..) hlt

theorem Poised.rcuLock (hc : s.sys.calls c = some .rcuLock)
    (hlt : s.clock + Clock.wait (BitVec.ofNat w hz) < limit) : Early hz limit s := by
  refine .of_step (e := .act (.call c ⟨none, true, 0⟩)) trivial ?_
  rw [step_call hc, stepCall]
  exact Poised.lookup ⟨h.handler, h.ready⟩ (Function.update_self ..) hlt

/-- **A call in progress gets to set the timer**, at one tick. -/
theorem Poised.early {pc : Pc w} (hc : s.sys.calls c = some pc) {delay : BitVec w}
    (hdelay : delay ∈ pc.delay (BitVec.ofNat w hz)) (hlt : s.clock + Clock.wait delay < limit) :
    Early hz limit s := by
  cases pc with
  | rcuLock => exact h.rcuLock hc (Option.some.inj hdelay ▸ hlt)
  | lookup => exact h.lookup hc (Option.some.inj hdelay ▸ hlt)
  | rcuUnlock task =>
    cases task with
    | none => exact absurd hdelay (by simp [Pc.delay])
    | some t =>
      obtain rfl : BitVec.ofNat w hz = delay := Option.some.inj hdelay
      exact h.rcuUnlock hc hlt
  | kmalloc => exact h.kmalloc hc (Option.some.inj hdelay ▸ hlt)
  | getTask => exact h.getTask hc (Option.some.inj hdelay ▸ hlt)
  | insert => exact h.insert hc (Option.some.inj hdelay ▸ hlt)
  | setFlag => exact h.setFlag hc (Option.some.inj hdelay ▸ hlt)
  | modTimer => exact h.modTimer hc (Option.some.inj hdelay ▸ hlt)
  | cancel | returned => exact absurd hdelay (by simp [Pc.delay])

omit h

/-- The handler comes to its end, at one tick. -/
def settling : List (Event w) := List.replicate 3 (.act (.handle [] 0))

theorem unasked_settling : ∀ e ∈ (settling : List (Event w)), e.Unasked :=
  fun _ he => List.eq_of_mem_replicate he ▸ trivial

/-- **What the handler leaves**: all as it was, but the timer is set again if the handler has
been through with the list. -/
structure Settled (hz : ℕ) (s t : Clocked w) : Prop where
  clock : t.clock = s.clock
  handler : t.sys.handler = .idle
  calls : t.sys.calls = s.sys.calls
  phase : t.sys.phase = s.sys.phase
  ready : t.sys.timerReady = s.sys.timerReady
  pending : t.sys.pending =
    if s.sys.rearms then some ⟨s.jiffies + BitVec.ofNat w hz, .mon⟩ else s.sys.pending

theorem settled_run (hready : s.sys.handler ≠ .idle → s.sys.timerReady = true) :
    Settled hz s (run (Clocked.step hz) s settling) := by
  have hstep : ∀ s : Clocked w, s.step hz (.act (.handle [] 0)) =
      { s with sys := stepHandler (BitVec.ofNat w hz) s.sys [] s.jiffies s.sys.handler } :=
    fun _ => rfl
  simp only [settling, List.replicate, run_cons, run_nil, hstep]
  cases hh : s.sys.handler with
  | idle => constructor <;> simp [stepHandler, hh, Sys.rearms]
  | start ty =>
    have hset : s.sys.timerReady = true := hready (by simp [hh])
    cases hflag : s.sys.flag <;> constructor <;>
      simp [stepHandler, hh, hflag, Sys.rearms, Deferred.switch, Sys.modTimer, hset,
        Sys.scheduleWork_eq, Clocked.jiffies]
  | schedule => constructor <;> simp [stepHandler, hh, Sys.rearms, Sys.scheduleWork_eq]
  | sweep | rearm =>
    have hset : s.sys.timerReady = true := hready (by simp [hh])
    constructor <;> simp [stepHandler, hh, Sys.rearms, Sys.modTimer, hset, Clocked.jiffies]

/-- A device that is published gets its timer, at one tick. -/
theorem exists_ready (hz : ℕ) (s : Clocked w) (hpublished : s.sys.phase.published = true)
    (hloaded : s.sys.phase = .loaded → s.sys.timerReady = true) :
    ∃ events : List (Event w), (∀ e ∈ events, e.Unasked) ∧
      let t := run (Clocked.step hz) s events
      t.sys.timerReady = true ∧ t.sys.handler = s.sys.handler ∧ t.sys.calls = s.sys.calls ∧
        t.clock = s.clock := by
  have hload : ∀ e ∈ List.replicate 2 (Event.act (Act.load 0 : Act w)), e.Unasked :=
    fun _ he => List.eq_of_mem_replicate he ▸ trivial
  cases hp : s.sys.phase with
  | loaded => exact ⟨[], List.forall_mem_nil _, hloaded hp, rfl, rfl, rfl⟩
  | timerSetup =>
    refine ⟨[.act (.load 0)], fun e he => List.mem_singleton.mp he ▸ trivial, ?_⟩
    simp [Clocked.step, Act.at, Deferred.step, stepLoad, hp]
  | deviceCreate =>
    refine ⟨List.replicate 2 (.act (.load 0)), hload, ?_⟩
    simp [Clocked.step, Act.at, Deferred.step, stepLoad, hp]
  | register | initFlag | initWork | initList | cdevAdd | deviceDestroy | cdevDel | unregister
  | timerDelete | flush | flushing | drop | unloaded | failed =>
    rw [hp] at hpublished
    exact absurd hpublished Bool.false_ne_true

end Early

/-! ### A request -/

section Request

variable {hz : BitVec w} {s s' : Sys w} {a : Act w}

/-- A call that has begun keeps to what it sets the timer to. -/
theorem Step.keeps_delay (hs : Step hz s a s') {c : ℕ} {delay : BitVec w}
    (h : ∃ pc, s.calls c = some pc ∧ ∀ delay' ∈ pc.delay hz, delay' = delay) :
    ∃ pc, s'.calls c = some pc ∧ ∀ delay' ∈ pc.delay hz, delay' = delay := by
  obtain ⟨pc, hc, hdelay⟩ := h
  rcases hs.calls_cases with heq | ⟨d, cmd, -, hd, heq⟩ | ⟨d, env, pc₀, pc₁, -, hd, hnext, heq⟩
  · exact ⟨pc, by rw [heq, hc], hdelay⟩
  · have hne : c ≠ d := by
      rintro rfl
      exact absurd (hd.symm.trans hc) (by simp)
    exact ⟨pc, by rw [heq, Function.update_of_ne hne, hc], hdelay⟩
  · rcases eq_or_ne c d with rfl | hne
    · obtain rfl : pc₀ = pc := Option.some.inj (hd.symm.trans hc)
      exact ⟨pc₁, by rw [heq, Function.update_self], fun d' hd' => hdelay d' (hnext.delay hd')⟩
    · exact ⟨pc, by rw [heq, Function.update_of_ne hne, hc], hdelay⟩

end Request

section Asked

variable {hz now : ℕ} {before during : List (Event w)} {c : ℕ} {cmd : Command w} {arg : BitVec w}

/-- **What a request sets the timer to**: `arg * HZ`, as far as it fits. -/
theorem delay_of_asked {s : Clocked w} (hcmd : cmd = .timerSet arg ∨ cmd = .timerAlloc arg)
    (hopen : s.sys.files ≠ 0) (hfree : s.sys.calls c = none) {ty : TimerType} {delay : BitVec w}
    (hset : (run (Clocked.step hz) s (.act (.ioctl c cmd) :: during)).sys.calls c =
      some (.modTimer ty delay)) : delay = BitVec.ofNat w (arg.toNat * hz) := by
  have hmul : arg * BitVec.ofNat w hz = BitVec.ofNat w (arg.toNat * hz) := by
    rw [BitVec.ofNat_mul, BitVec.ofNat_toNat, BitVec.setWidth_eq]
  have hbegun : ∃ pc, (s.step hz (.act (.ioctl c cmd))).sys.calls c = some pc ∧
      ∀ delay' ∈ pc.delay (BitVec.ofNat w hz), delay' = arg * BitVec.ofNat w hz := by
    refine ⟨enter (BitVec.ofNat w hz) cmd, ?_, ?_⟩
    · rcases hcmd with rfl | rfl <;>
        simp [Clocked.step, Act.at, Deferred.step, hopen, hfree, Sys.setPc]
    · rcases hcmd with rfl | rfl <;> simp [enter, Pc.delay]
  have hstep : ∀ (s : Clocked w) (e : Event w),
      (∃ pc, s.sys.calls c = some pc ∧
        ∀ delay' ∈ pc.delay (BitVec.ofNat w hz), delay' = arg * BitVec.ofNat w hz) →
      ∃ pc, (s.step hz e).sys.calls c = some pc ∧
        ∀ delay' ∈ pc.delay (BitVec.ofNat w hz), delay' = arg * BitVec.ofNat w hz := by
    intro s e h
    rcases clocked_sys hz s e with heq | ⟨a, heq⟩
    · rwa [heq]
    · rw [heq]
      exact (step_cases _ s.sys a).keeps_delay h
  obtain ⟨pc, hc, hdelay⟩ := run_invariant (Clocked.step hz) hstep during hbegun
  obtain rfl : pc = .modTimer ty delay := Option.some.inj (hc.symm.trans hset)
  exact (hdelay delay rfl).trans hmul

end Asked

section Exact

variable {hz ahead c : ℕ} {s : Clocked w} {ty : TimerType} (h : Sound (BitVec.ofNat w hz) s.sys)
  (hset : s.sys.calls c = some (.modTimer ty (BitVec.ofNat w ahead))) (env : Env w)

include hset

/-- `mod_timer`. -/
theorem clocked_modTimer : s.step hz (.act (.call c env)) =
    { s with sys := (s.sys.modTimer (s.jiffies + BitVec.ofNat w ahead) ty).ret c 0 } :=
  step_call hset env

include h

/-- **A timer that nothing disturbs is late.** -/
theorem late_of_undisturbed (hu : Undisturbed hz ahead c s.sys) :
    Late hz s.clock ahead (s.step hz (.act (.call c env))) := by
  rw [clocked_modTimer hset, Sys.modTimer_eq]
  have hcalls : ∀ d pc, Function.update s.sys.calls c (some (.returned 0)) d = some pc →
      pc = .returned 0 ∨ d ≠ c ∧ s.sys.calls d = some pc := by
    intro d pc hd
    rcases eq_or_ne d c with rfl | hne
    · rw [Function.update_self] at hd
      exact .inl (Option.some.inj hd).symm
    · rw [Function.update_of_ne hne] at hd
      exact .inr ⟨hne, hd⟩
  constructor
  case later => exact le_rfl
  case pending =>
    intro e he t hle hlt
    have hset : (s.sys.modTimer (s.jiffies + BitVec.ofNat w ahead) ty).pending = some e := by
      rw [Sys.modTimer_eq]
      exact he
    rcases pending_modTimer hset with ⟨hunset, hold⟩ | ⟨hready, rfl⟩
    · have hready := h.armable.pending (by rw [hold]; exact Option.some_ne_none e)
      exact absurd (hunset.symm.trans hready) Bool.false_ne_true
    · exact Clock.not_reached_of_lt_wait hle (by rwa [Clock.wait_ofNat (hu.half hready)])
  case handler => exact hu.handler
  case calls =>
    intro d pc hd delay hdelay
    rcases hcalls d pc hd with rfl | ⟨hne, hd⟩
    · exact absurd hdelay (by simp [Pc.delay])
    · exact hu.calls d hne pc hd delay hdelay
  case seconds =>
    intro d pc hd
    rcases hcalls d pc hd with rfl | ⟨-, hd⟩
    · exact fun delay heq => absurd heq (by simp)
    · exact h.seconds d pc hd

/-- **A timer that something disturbs is early.** -/
theorem undisturbed_of_neverEarly
    (hnever : NeverEarly hz s.clock ahead (s.step hz (.act (.call c env)))) :
    Undisturbed hz ahead c s.sys := by
  have hsound : Sound (BitVec.ofNat w hz) (s.step hz (.act (.call c env))).sys :=
    (step_cases _ s.sys (.call c { env with now := s.jiffies })).sound h
  have hsettled : Settled hz (s.step hz (.act (.call c env)))
      (run (Clocked.step hz) (s.step hz (.act (.call c env))) settling) :=
    settled_run hsound.armable.handler
  have hnot : ¬Early hz (s.clock + ahead)
      (run (Clocked.step hz) (s.step hz (.act (.call c env))) settling) :=
    fun hearly => (hearly.of_run unasked_settling).not_neverEarly hnever
  revert hsettled hnot
  generalize run (Clocked.step hz) (s.step hz (.act (.call c env))) settling = t
  rw [clocked_modTimer hset, Sys.modTimer_eq]
  intro hsettled hnot
  have hclock : t.clock = s.clock := hsettled.clock
  have hjiffies : t.jiffies = s.jiffies := by rw [Clocked.jiffies, hclock, Clocked.jiffies]
  -- the timer is set to run too early
  have hpending : ∀ {delay : BitVec w} {ty' : TimerType},
      t.sys.pending = some ⟨s.jiffies + delay, ty'⟩ → ahead ≤ Clock.wait delay := by
    intro delay ty' hp
    by_contra hlt
    have hlast : t.sys.pending = some ⟨t.jiffies + delay, ty'⟩ := by rw [hp, hjiffies]
    refine hnot (early_of_wait hsettled.handler hlast ?_)
    rw [hclock]
    exact Nat.add_lt_add_left (not_le.mp hlt) _
  constructor
  case half =>
    intro hready
    have hset : ∃ delay ty', t.sys.pending = some ⟨s.jiffies + delay, ty'⟩ := by
      by_cases hrearms : s.sys.rearms = true
      · exact ⟨_, _, hsettled.pending.trans (if_pos hrearms)⟩
      · exact ⟨_, _, hsettled.pending.trans ((if_neg hrearms).trans (if_pos hready))⟩
    obtain ⟨delay, ty', hp⟩ := hset
    exact (Nat.mul_le_mul_left 2 (hpending hp)).trans (Clock.two_mul_wait_le delay)
  case handler =>
    intro hrearms
    exact hpending (hsettled.pending.trans (if_pos hrearms))
  case calls =>
    intro d hne pc hd delay hdelay
    by_contra hlt
    have hover : pc.over = false := by
      cases pc with
      | returned => exact absurd hdelay (by simp [Pc.delay])
      | _ => rfl
    have hphase : t.sys.phase = s.sys.phase := hsettled.phase
    obtain ⟨events, hevents, hready, hhandler, hcalls, hclock'⟩ := exists_ready hz t
      (by rw [hphase]; exact h.published hd hover)
      (fun hl => hsettled.ready.trans (h.armable.loaded (hphase.symm.trans hl)))
    have hd' : (run (Clocked.step hz) t events).sys.calls d = some pc := by
      rw [hcalls, hsettled.calls]
      exact (Function.update_of_ne hne _ _).trans hd
    have hpoised : Poised (run (Clocked.step hz) t events).sys :=
      ⟨hhandler.trans hsettled.handler, hready⟩
    refine hnot (.of_run hevents (hpoised.early hd' hdelay ?_))
    rw [hclock', hclock]
    exact Nat.add_lt_add_left (not_le.mp hlt) _

end Exact

/-- **When a timer fires early.** When a call with `MY_IOCTL_TIMER_SET` or
`MY_IOCTL_TIMER_ALLOC` and `arg` comes to `mod_timer`, in any run of the module, `timer_handler`
does not begin to run before `arg * HZ` ticks have passed – in every continuation without a
further request – if and only if nothing disturbs the timer: these ticks are no more than half a
turn of `jiffies`, and neither the handler nor another call in progress is going to set the timer
to wait for fewer. -/
theorem never_early_exact (hz now : ℕ) {before during : List (Event w)} {c : ℕ} {cmd : Command w}
    {arg : BitVec w} (hcmd : cmd = .timerSet arg ∨ cmd = .timerAlloc arg)
    (hopen : (run (Clocked.step hz) (Clocked.start now) before).sys.files ≠ 0)
    (hfree : (run (Clocked.step hz) (Clocked.start now) before).sys.calls c = none)
    {ty : TimerType} {delay : BitVec w}
    (hset : (run (Clocked.step hz) (Clocked.start now)
      (before ++ .act (.ioctl c cmd) :: during)).sys.calls c = some (.modTimer ty delay))
    (env : Env w) :
    let s := run (Clocked.step hz) (Clocked.start now) (before ++ .act (.ioctl c cmd) :: during)
    let s' := s.step hz (.act (.call c env))
    s'.sys.calls c = some (.returned 0) ∧
      (NeverEarly hz s.clock (arg.toNat * hz) s' ↔ Undisturbed hz (arg.toNat * hz) c s.sys) := by
  intro s s'
  have hsound : Sound (BitVec.ofNat w hz) s.sys := sound_run hz now _
  have hdelay : delay = BitVec.ofNat w (arg.toNat * hz) := by
    rw [run_append] at hset
    exact delay_of_asked hcmd hopen hfree hset
  rw [hdelay] at hset
  refine ⟨?_, undisturbed_of_neverEarly hsound hset env,
    fun hu => (late_of_undisturbed hsound hset env hu).neverEarly⟩
  rw [show s' = _ from clocked_modTimer hset env]
  exact Function.update_self ..

/-- The module is loaded and the device opened. -/
def opening : List (Event w) := List.replicate 7 (.act (.load 0)) ++ [.act .openFile]

/-- A call that goes on. -/
def going (c : ℕ) : Event w := .act (.call c ⟨none, true, 0⟩)

/-- While a message is asked for in ten seconds, of a hundred ticks each, work is asked for in
twenty: the timer waits for a thousand ticks. -/
theorem never_early_exact_ten :
    let s := run (Clocked.step 100) (Clocked.start 5 : Clocked 64)
      (opening ++ .act (.ioctl 0 (.timerSet 10)) :: [.act (.ioctl 1 (.timerAlloc 20)), going 0])
    NeverEarly 100 s.clock 1000 (s.step 100 (going 0)) := by
  intro s
  have hopen : (run (Clocked.step 100) (Clocked.start 5 : Clocked 64) opening).sys.files ≠ 0 := by
    decide
  have hset : s.sys.calls 0 = some (.modTimer .set 1000) := by decide
  have hexact := never_early_exact 100 5 (.inl rfl) hopen (by decide) hset ⟨none, true, 0⟩
  refine hexact.2.mpr ⟨fun _ => by decide, fun hrearms => absurd hrearms (by decide), ?_⟩
  intro d hne pc hd delay hdelay
  have hcalls : s.sys.calls = Function.update (Function.update (Function.update (fun _ => none) 0
      (some (.setFlag .set 1000))) 1 (some (.setFlag .alloc 2000))) 0
      (some (.modTimer .set 1000)) := rfl
  rw [hcalls, Function.update_of_ne hne] at hd
  rcases eq_or_ne d 1 with rfl | hother
  · rw [Function.update_self] at hd
    obtain rfl := Option.some.inj hd
    obtain rfl : (2000 : BitVec 64) = delay := Option.some.inj hdelay
    decide
  · rw [Function.update_of_ne hother, Function.update_of_ne hne] at hd
    exact absurd hd (by simp)

/-- **A timer set for `2 ^ 63` seconds expires at once**: the product is zero. -/
theorem fires_at_once :
    let s := run (Clocked.step 100) (Clocked.start 5)
      (opening ++ [.act (.ioctl 0 (.timerSet (.ofNat 64 (2 ^ 63)))), going 0])
    let s' := s.step 100 (going 0)
    s'.sys.calls 0 = some (.returned 0) ∧ s'.Begins 100 (.act .fire) ∧
      s'.clock < s.clock + (BitVec.ofNat 64 (2 ^ 63)).toNat * 100 := by
  decide

end Deferred

end KernelModules
