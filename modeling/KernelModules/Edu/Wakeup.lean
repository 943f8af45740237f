import KernelModules.Edu.Driver

/-!
# Lost wake-ups of the EDU driver

`ioctl_factorial` and `dma_operation` sleep until the device is done, each on a
queue of its own, and `edu_irq_handler` wakes both: it reads the interrupt status,
wakes the queue of each bit it finds, and then acknowledges the value it has *read*.
A wake-up can be lost in two ways, and in those two only.

* The interrupt is never raised. `ioctl_factorial` asks for it after its wait, not
  before, so a first computation ends without one.
* The interrupt is raised and thrown away. A run of the handler that has read the
  bit and woken the queue acknowledges it later; a completion that falls in between
  sets a bit that is already set, and the acknowledgement clears it unseen.

Both are excluded by one condition on the state in which the device is done
(`KernelModules.Edu.Timely`). A run that meets it at every step loses no wake-up, by
the invariant of `KernelModules.Lib.Wakeup`; and whenever a step does not meet it, a
few more steps lead to a task asleep for good. These are
`KernelModules.Edu.factorial_wakeup_iff_timely` and
`KernelModules.Edu.dma_wakeup_iff_timely`.
-/

namespace KernelModules

namespace Edu

/-! ### The two queues -/

/-- The queues of `struct edu_device`. -/
inductive Queue where
  /-- `factorial_wait`. -/
  | factorial : Queue
  /-- `dma_wait`. -/
  | dma : Queue
deriving DecidableEq

namespace Queue

/-- The rank of the bit the handler tests for. -/
def bit : Queue → ℕ
  | factorial => 7
  | dma => 8

/-- What the tasks on the queue wait for the end of. -/
def busy : Queue → Device → Bool
  | factorial => Device.computing
  | dma => Device.busy

/-- The end of it. -/
def done : Queue → Act
  | factorial => .factDone
  | dma => .dmaDone

/-- The device has been asked to interrupt at the end of it. -/
def asked : Queue → Device → Bool
  | factorial, d => hasBit d.status 0x80
  | dma, d => hasBit d.dmaCmd 0x04

/-- A call dozes on the queue. -/
def dozes : Queue → Pc → Bool
  | factorial, .factWait t => t.dozing
  | dma, .dmaWait t => t.dozing
  | _, _ => false

/-- A run of the handler has read the bit and has still to wake the queue. -/
def toWake : Queue → Handler → Bool
  | factorial, .wakeFact v => v.getLsbD 7
  | dma, .wakeFact v => v.getLsbD 8
  | dma, .wakeDma v => v.getLsbD 8
  | _, _ => false

/-- A run of the handler has read the bit, has woken the queue, and has still to
acknowledge what it has read. -/
def toClear : Queue → Handler → Bool
  | factorial, .wakeDma v => v.getLsbD 7
  | factorial, .ack v => v.getLsbD 7
  | dma, .ack v => v.getLsbD 8
  | _, _ => false

/-- The call sleeps on the queue. -/
def asleep : Queue → Pc
  | factorial => .factWait .asleep
  | dma => .dmaWait .asleep

end Queue

/-- Some call is at a point of a kind. -/
def SomeCall (calls : ℕ → Option Call) (p : Pc → Bool) : Prop :=
  ∃ c call, calls c = some call ∧ p call.pc = true

/-- Some run of the handler is at a point of a kind. -/
def SomeRun (handlers : ℕ → Handler) (p : Handler → Bool) : Prop := ∃ h, p (handlers h) = true

/-- **What a state is to a queue.** -/
def Sys.view (s : Sys) (q : Queue) : WakeView where
  busy := q.busy s.dev = true
  latch := s.dev.intr.getLsbD q.bit = true
  dozing := SomeCall s.calls q.dozes
  willWake := SomeRun s.handlers q.toWake
  willClear := SomeRun s.handlers q.toClear

/-- **The condition**, on the state in which the device is done: if some call dozes
on the queue, then a run of the handler has still to wake it; or the interrupt is
asked for, or pending already, and no run of the handler that has woken the queue has
still to acknowledge. -/
def Timely (q : Queue) (s : Sys) (a : Act) : Prop :=
  a = q.done → (s.view q).busy → (s.view q).dozing →
    (s.view q).willWake ∨ ((q.asked s.dev = true ∨ (s.view q).latch) ∧ ¬(s.view q).willClear)

/-! ### Some call, some run of the handler -/

section Some

variable {calls : ℕ → Option Call} {p : Pc → Bool}

/-- A change of one call. -/
theorem SomeCall.of_update {c : ℕ} {call : Call}
    (h : SomeCall (Function.update calls c (some call)) p) :
    p call.pc = true ∨ SomeCall calls p := by
  obtain ⟨c', call', hc', hp⟩ := h
  rcases eq_or_ne c' c with rfl | hne
  · rw [Function.update_self] at hc'
    obtain rfl : call = call' := by simpa using hc'
    exact Or.inl hp
  · rw [Function.update_of_ne hne] at hc'
    exact Or.inr ⟨c', call', hc', hp⟩

/-- A change of the program counter of one call that is not to the kind. -/
theorem SomeCall.of_setPc {s : Sys} {c : ℕ} {call : Call} {pc : Pc}
    (hc : s.calls c = some call) (hpc : p pc = true → p call.pc = true)
    (h : SomeCall (s.setPc c call pc) p) : SomeCall s.calls p := by
  rcases h.of_update with hp | hp
  · exact ⟨c, call, hc, hpc hp⟩
  · exact hp

/-- A change of all the program counters. -/
theorem someCall_mapPc {s : Sys} {f : Pc → Pc} :
    SomeCall (s.mapPc f) p ↔ SomeCall s.calls fun pc => p (f pc) := by
  constructor
  · rintro ⟨c, call', hc, hp⟩
    obtain ⟨call, hcall, rfl⟩ := Option.map_eq_some_iff.mp hc
    exact ⟨c, call, hcall, hp⟩
  · rintro ⟨c, call, hc, hp⟩
    exact ⟨c, { call with pc := f call.pc }, by simp [Sys.mapPc, hc], hp⟩

variable {handlers : ℕ → Handler} {r : Handler → Bool}

theorem SomeRun.of_update {h : ℕ} {run : Handler}
    (hr : SomeRun (Function.update handlers h run) r)
    (hrun : r run = true → r (handlers h) = true) : SomeRun handlers r := by
  obtain ⟨h', hr'⟩ := hr
  rcases eq_or_ne h' h with rfl | hne
  · rw [Function.update_self] at hr'
    exact ⟨h', hrun hr'⟩
  · rw [Function.update_of_ne hne] at hr'
    exact ⟨h', hr'⟩

theorem SomeRun.update {h : ℕ} {run : Handler} (hr : SomeRun handlers r)
    (hrun : r (handlers h) = true → r run = true) :
    SomeRun (Function.update handlers h run) r := by
  obtain ⟨h', hr'⟩ := hr
  refine ⟨h', ?_⟩
  rcases eq_or_ne h' h with rfl | hne
  · rw [Function.update_self]
    exact hrun hr'
  · rwa [Function.update_of_ne hne]

end Some

/-! ### What the parties do to a queue -/

section Parties

variable {q : Queue} {s : Sys}

/-- No call enters the driver dozing. -/
theorem Queue.dozes_enter (q : Queue) (fault : Bool) (req : Request) :
    q.dozes (enter fault req) = false := by
  cases q <;> cases req <;> simp only [enter, dmaOperation] <;> repeat' split
  all_goals rfl

/-- **A call dozes off only while the device is at work.** -/
theorem Queue.dozes_access {fault : Bool} {d : Device} {pc : Pc}
    (h : q.dozes (access fault d pc).2 = true) : q.dozes pc = true ∨ q.busy d = true := by
  -- the wait of the other queue is left to the first cases
  have hput : ∀ val, q.dozes (putUser fault val) = false := by
    intro val
    cases q <;> cases fault <;> rfl
  cases pc with
  | factWait t =>
    rw [access_factWait] at h
    rcases ht : t.advance (!d.computing) with - | t'
    · rw [ht] at h
      cases q <;> exact absurd h (by simp [dozes])
    · rw [ht] at h
      cases q with
      | factorial =>
        rcases Waiter.dozing_of_advance ht h with hd | hd
        · exact Or.inl hd
        · exact Or.inr (by simpa [busy] using hd)
      | dma => exact absurd h (by simp [dozes])
  | dmaWait t =>
    rw [access_dmaWait] at h
    rcases ht : t.advance (!d.busy) with - | t'
    · rw [ht] at h
      cases q <;> exact absurd h (by simp [dozes])
    · rw [ht] at h
      cases q with
      | factorial => exact absurd h (by simp [dozes])
      | dma =>
        rcases Waiter.dozing_of_advance ht h with hd | hd
        · exact Or.inl hd
        · exact Or.inr (by simpa [busy] using hd)
  | idRead | liveRead | factRead => exact absurd h (by simp [access, hput])
  | openRead =>
    simp only [access] at h
    split at h <;> cases q <;> exact absurd h (by simp [dozes])
  | liveWrite | openWrite | factStatus | raise | dmaSrc | dmaDst | dmaSize | returned =>
    cases q <;> exact absurd h (by simp [access, dozes])
  | factWrite | dmaCmd =>
    cases q <;> exact absurd h (by simp [access, dozes, Waiter.dozing])

/-- A signal sends nobody to sleep. -/
theorem Queue.dozes_interrupted {d : Device} {pc : Pc} (h : q.dozes (interrupted d pc) = true) :
    q.dozes pc = true := by
  cases pc with
  | factWait t | dmaWait t =>
    cases t <;> simp only [interrupted] at h
    case test => split at h <;> cases q <;> simp [dozes, Waiter.dozing] at h
    all_goals cases q <;> simp [dozes, Waiter.dozing] at h ⊢
  | _ => exact h

/-- No access of a call ends what a queue waits for. -/
theorem Queue.busy_access {fault : Bool} {d : Device} {pc : Pc} (h : q.busy d = true) :
    q.busy (access fault d pc).1 = true := by
  cases q with
  | factorial => exact computing_access fault pc h
  | dma => exact Edu.busy_access fault pc h

/-- No access of a call, and no completion, clears an interrupt, so that a change of
the device alone which does not end what the queue waits for is a quiet one. -/
theorem Sys.view_dev {d' : Device} (mem : Memory) (log : List Transfer)
    (hb : q.busy s.dev = true → q.busy d' = true)
    (hl : s.dev.intr.getLsbD q.bit = true → d'.intr.getLsbD q.bit = true) :
    WakeView.Move (s.view q) (({ s with dev := d', mem := mem, log := log } : Sys).view q) :=
  .quiet hb id hl id id

/-- **A run of the handler tests for the bit of the queue**: if it finds it, it wakes
the queue and goes from those that will wake it to those that will acknowledge;
otherwise it is neither before nor after. -/
theorem Sys.view_wake {h : ℕ} {r : Handler} {f : Pc → Pc} {b : Bool}
    (hf : ∀ pc, q.dozes (f pc) = false) (hw : q.toWake (s.handlers h) = b) (hc : q.toClear r = b) :
    WakeView.Move (s.view q) (({ s with
      calls := if b then s.mapPc f else s.calls
      handlers := Function.update s.handlers h r } : Sys).view q) := by
  cases b with
  | true =>
    refine .wake fun hd => ?_
    obtain ⟨c, call, -, hp⟩ := someCall_mapPc.mp hd
    exact absurd ((hf call.pc).symm.trans hp) (by simp)
  | false =>
    refine .quiet id id id (fun h => h.update fun hr => ?_) fun h => h.of_update fun hr => ?_
    · rw [hw] at hr
      exact absurd hr (by simp)
    · rw [hc] at hr
      exact absurd hr (by simp)

/-- **A run of the handler tests for the bit of the other queue**: it is to this one
what it was. -/
theorem Sys.view_pass {h : ℕ} {r : Handler} {f : Pc → Pc} {b : Bool}
    (hf : ∀ pc, q.dozes (f pc) = q.dozes pc) (hw : q.toWake (s.handlers h) = q.toWake r)
    (hc : q.toClear (s.handlers h) = q.toClear r) :
    WakeView.Move (s.view q) (({ s with
      calls := if b then s.mapPc f else s.calls
      handlers := Function.update s.handlers h r } : Sys).view q) := by
  refine .quiet id (fun hd => ?_) id (fun h => h.update fun hr => hw.symm.trans hr)
    fun h => h.of_update fun hr => hc.trans hr
  cases b with
  | true =>
    obtain ⟨c, call, hcall, hp⟩ := someCall_mapPc.mp hd
    exact ⟨c, call, hcall, (hf call.pc).symm.trans hp⟩
  | false => exact hd

/-- What the wake-ups do to the calls. -/
theorem Queue.dozes_wakeFactorialWait (pc : Pc) :
    Queue.dozes .factorial (wakeFactorialWait pc) = false ∧
      Queue.dozes .dma (wakeFactorialWait pc) = Queue.dozes .dma pc := by
  cases pc <;> simp [wakeFactorialWait, dozes]

theorem Queue.dozes_wakeDmaWait (pc : Pc) :
    Queue.dozes .dma (wakeDmaWait pc) = false ∧
      Queue.dozes .factorial (wakeDmaWait pc) = Queue.dozes .factorial pc := by
  cases pc <;> simp [wakeDmaWait, dozes]

/-! ### No wake-up is lost -/

/-- **A step moves the view of a queue as `KernelModules.WakeView.Move` allows**, if
the device is done at the right moment. -/
theorem Step.move {a : Act} {s' : Sys} (hs : Step s a s') (ht : Timely q s a) :
    WakeView.Move (s.view q) (s'.view q) := by
  cases hs with
  | stutter => exact .quiet id id id id id
  | @call c req fault hc =>
    refine .quiet id (fun hd => ?_) id id id
    rcases hd.of_update with hp | hp
    · rw [Queue.dozes_enter] at hp
      exact absurd hp (by simp)
    · exact hp
  | @access c call fault hc =>
    by_cases hb : q.busy s.dev = true
    · exact .start (Queue.busy_access hb)
    · refine .quiet (fun h => absurd h hb) (SomeCall.of_setPc hc fun hd => ?_)
        (intr_access fault call.pc) id id
      rcases Queue.dozes_access hd with h | h
      · exact h
      · exact absurd h hb
  | @signal c call hc =>
    exact .quiet id (SomeCall.of_setPc hc Queue.dozes_interrupted) id id id
  | @irq h hh =>
    refine .quiet id id id (fun hw => hw.update fun hr => ?_) fun hw => hw.of_update fun hr => ?_
    · rw [hh] at hr
      cases q <;> exact absurd hr (by simp [Queue.toWake])
    · cases q <;> exact absurd hr (by simp [Queue.toClear])
  | @wakeFact h status hh =>
    cases q with
    | factorial =>
      refine Sys.view_wake (fun pc => (Queue.dozes_wakeFactorialWait pc).1) ?_ ?_
      · rw [hh]
        exact (hasBit_80 status).symm
      · exact (hasBit_80 status).symm
    | dma =>
      refine Sys.view_pass (fun pc => (Queue.dozes_wakeFactorialWait pc).2) ?_ ?_
      · rw [hh]
        rfl
      · rw [hh]
        rfl
  | @wakeDma h status hh =>
    cases q with
    | factorial =>
      refine Sys.view_pass (fun pc => (Queue.dozes_wakeDmaWait pc).2) ?_ ?_
      · rw [hh]
        rfl
      · rw [hh]
        rfl
    | dma =>
      refine Sys.view_wake (fun pc => (Queue.dozes_wakeDmaWait pc).1) ?_ ?_
      · rw [hh]
        exact (hasBit_100 status).symm
      · exact (hasBit_100 status).symm
  | @ack h status hh =>
    have hw : SomeRun s.handlers q.toWake → SomeRun (Function.update s.handlers h
        (.returned (hasBit status 0x80 || hasBit status 0x100))) q.toWake := fun hw =>
      hw.update fun hr => by
        rw [hh] at hr
        cases q <;> exact absurd hr (by simp [Queue.toWake])
    by_cases hbit : status.getLsbD q.bit = true
    · refine .clear (fun hb => ?_) id hw ⟨h, ?_⟩
      · cases q <;> exact hb
      · rw [hh]
        cases q <;> exact hbit
    · refine .quiet (fun hb => ?_) id (fun hl => ?_) hw fun hc => hc.of_update fun hr => ?_
      · cases q <;> exact hb
      · have hlt : q.bit < 32 := by cases q <;> decide
        rw [Bool.not_eq_true] at hbit
        have hl : s.dev.intr.getLsbD q.bit = true := hl
        change (s.dev.intr &&& ~~~status).getLsbD q.bit = true
        rw [BitVec.getLsbD_and, BitVec.getLsbD_not, hl, hbit, decide_eq_true hlt]
        rfl
      · cases q <;> exact absurd hr (by simp [Queue.toClear])
  | factDone hd =>
    cases q with
    | factorial =>
      by_cases hdoze : SomeCall s.calls (Queue.dozes .factorial)
      · refine .finish ((ht rfl hd hdoze).imp id fun h => ⟨?_, h.2⟩)
        exact (Device.getLsbD_intr_factDone hd).mpr h.1
      · exact .wake hdoze
    | dma =>
      exact Sys.view_dev s.mem s.log (fun hb => (Device.busy_factDone s.dev).trans hb)
        Device.intr_factDone
  | dmaDone hd =>
    cases q with
    | factorial =>
      exact Sys.view_dev _ _ (fun hb => (Device.computing_dmaDone s.dev).trans hb)
        Device.intr_dmaDone
    | dma =>
      by_cases hdoze : SomeCall s.calls (Queue.dozes .dma)
      · refine .finish ((ht rfl hd hdoze).imp id fun h => ⟨?_, h.2⟩)
        exact (Device.getLsbD_intr_dmaDone hd).mpr h.1
      · exact .wake hdoze

end Parties

/-- **No wake-up is lost in the state**: whenever a call sleeps on the queue and the
device is done, the interrupt is pending or a run of the handler that has seen it has
still to wake the queue. -/
def Wakes (q : Queue) (s : Sys) : Prop :=
  ∀ c call, s.calls c = some call → call.pc = q.asleep → q.busy s.dev = false →
    s.dev.intr.getLsbD q.bit = true ∨ ∃ h, q.toWake (s.handlers h) = true

theorem Queue.dozes_asleep (q : Queue) : q.dozes q.asleep = true := by
  cases q <;> rfl

theorem safe_start (q : Queue) (d : Device) (m : Memory) : ((Sys.start d m).view q).Safe := by
  rintro ⟨c, call, hc, -⟩
  exact absurd hc (by simp [Sys.start])

theorem wakes_of_safe {q : Queue} {s : Sys} (h : (s.view q).Safe) : Wakes q s := by
  intro c call hc hpc hb
  refine h.pending ⟨c, call, hc, ?_⟩ ?_
  · rw [hpc]
    exact q.dozes_asleep
  · simp [Sys.view, hb]

/-- **A run whose completions are timely loses no wake-up.** -/
theorem wakes_run {q : Queue} {d : Device} {m : Memory} {acts : List Act}
    (h : Along step (Timely q) (Sys.start d m) acts) : Wakes q (run step (Sys.start d m) acts) :=
  wakes_of_safe (run_invariant_along step
    (fun s a ht hi => ((step_cases s a).move ht).safe hi) acts h (safe_start q d m))

/-! ### A wake-up that is lost -/

/-- Call `c` sleeps, the device is done, and no run of the handler will wake it. -/
def Stuck (q : Queue) (c : ℕ) (s : Sys) : Prop :=
  (∃ call, s.calls c = some call ∧ call.pc = q.asleep) ∧ q.busy s.dev = false ∧
    ¬SomeRun s.handlers q.toWake

section Lost

variable {q : Queue} {s : Sys} {c h : ℕ}

theorem Stuck.not_wakes (hs : Stuck q c s) (hl : s.dev.intr.getLsbD q.bit = false) :
    ¬Wakes q s := by
  obtain ⟨⟨call, hc, hpc⟩, hb, hw⟩ := hs
  intro h
  rcases h c call hc hpc hb with h | h
  · rw [hl] at h
    exact absurd h (by simp)
  · exact hw h

/-- A run of the handler that is about to acknowledge takes the bit away. -/
theorem Stuck.ack {status : BitVec 32} (hs : Stuck q c s) (hh : s.handlers h = .ack status)
    (hbit : status.getLsbD q.bit = true) : ¬Wakes q (step s (.handle h)) := by
  obtain ⟨hc, hb, hw⟩ := hs
  have hstuck : Stuck q c (step s (.handle h)) := by
    rw [step, hh]
    refine ⟨hc, ?_, fun hr => hw (hr.of_update fun hr => ?_)⟩
    · cases q <;> exact hb
    · cases q <;> exact absurd hr (by simp [Queue.toWake])
  refine hstuck.not_wakes ?_
  simp only [step, hh, stepHandler, writel_intrAck, BitVec.getLsbD_and, BitVec.getLsbD_not, hbit]
  simp

/-- **A run of the handler that has woken the queue throws the next interrupt away.** -/
theorem Stuck.lost (hs : Stuck q c s) (hh : q.toClear (s.handlers h) = true) :
    ∃ more, ¬Wakes q (run step s more) := by
  rcases hrun : s.handlers h with - | status | status | status | handled
  case ack =>
    refine ⟨[.handle h], hs.ack hrun ?_⟩
    rw [hrun] at hh
    cases q <;> exact hh
  case wakeDma =>
    rw [hrun] at hh
    cases q with
    | dma => exact absurd hh (by simp [Queue.toClear])
    | factorial =>
      -- the test for the transfer comes first, and does not concern the sleeper
      obtain ⟨⟨call, hc, hpc⟩, hb, hw⟩ := hs
      have hstuck : Stuck .factorial c (step s (.handle h)) := by
        rw [step, hrun]
        refine ⟨?_, hb, fun hr => hw (hr.of_update fun hr => absurd hr (by simp [Queue.toWake]))⟩
        simp only [stepHandler]
        split
        · refine ⟨{ call with pc := wakeDmaWait call.pc }, by simp [Sys.mapPc, hc], ?_⟩
          rw [hpc]
          rfl
        · exact ⟨call, hc, hpc⟩
      have hack : (step s (.handle h)).handlers h = .ack status := by
        simp [step, hrun, stepHandler]
      exact ⟨[.handle h, .handle h], hstuck.ack hack hh⟩
  all_goals
    rw [hrun] at hh
    cases q <;> exact absurd hh (by simp [Queue.toClear])

/-- A call that dozes goes to sleep. -/
theorem stuck_of_dozes {call : Call} (hc : s.calls c = some call)
    (hd : q.dozes call.pc = true) (hb : q.busy s.dev = false)
    (hw : ¬SomeRun s.handlers q.toWake) :
    Stuck q c (step s (.access c false)) ∧
      (step s (.access c false)).dev = s.dev ∧
      (step s (.access c false)).handlers = s.handlers := by
  have hacc : access false s.dev call.pc = (s.dev, q.asleep) := by
    rcases call with ⟨req, pc⟩
    cases q with
    | factorial =>
      cases pc with
      | factWait t =>
        cases t with
        | commit | asleep => rfl
        | check | prepare | test => exact absurd hd (by simp [Queue.dozes, Waiter.dozing])
      | _ => exact absurd hd (by simp [Queue.dozes])
    | dma =>
      cases pc with
      | dmaWait t =>
        cases t with
        | commit | asleep => rfl
        | check | prepare | test => exact absurd hd (by simp [Queue.dozes, Waiter.dozing])
      | _ => exact absurd hd (by simp [Queue.dozes])
  have hstep : step s (.access c false) = { s with calls := s.setPc c call q.asleep } := by
    simp [step, hc, stepCall, hacc]
  rw [hstep]
  refine ⟨⟨⟨{ call with pc := q.asleep }, ?_, rfl⟩, hb, hw⟩, rfl, rfl⟩
  simp [Sys.setPc]

/-- **The device is done**, and nothing changes but the device. -/
theorem Queue.step_done (hb : q.busy s.dev = true) :
    q.busy (step s q.done).dev = false ∧ (step s q.done).calls = s.calls ∧
      (step s q.done).handlers = s.handlers ∧
      ((step s q.done).dev.intr.getLsbD q.bit = true →
        q.asked s.dev = true ∨ s.dev.intr.getLsbD q.bit = true) := by
  cases q with
  | factorial =>
    exact ⟨s.dev.computing_factDone, rfl, rfl, (Device.getLsbD_intr_factDone hb).mp⟩
  | dma =>
    have hd : s.dev.busy = true := hb
    have hstep : step s .dmaDone = _ := if_pos hd
    rw [Queue.done, hstep]
    exact ⟨s.dev.busy_dmaDone, rfl, rfl, (Device.getLsbD_intr_dmaDone hb).mp⟩

/-- **A completion that is not timely is followed, in a few steps, by a wake-up that
is lost.** -/
theorem lost_of_not_timely {a : Act} (h : ¬Timely q s a) :
    ∃ more, ¬Wakes q (run step s (a :: more)) := by
  simp only [Timely, not_forall, not_or, not_and_or, not_not, exists_prop] at h
  obtain ⟨rfl, hb, ⟨c, call, hc, hd⟩, hw, hcase⟩ := h
  obtain ⟨hb', hcalls, hhandlers, hintr⟩ := Queue.step_done (s := s) hb
  rw [← hcalls] at hc
  rw [Sys.view, ← hhandlers] at hw
  obtain ⟨hstuck, hdev, hhandlers'⟩ := stuck_of_dozes hc hd hb' hw
  rcases hcase with ⟨ha, hl⟩ | ⟨h, hclear⟩
  · refine ⟨[.access c false], hstuck.not_wakes ?_⟩
    rw [hdev, ← Bool.not_eq_true]
    intro hl'
    rcases hintr hl' with h | h
    · exact ha h
    · exact hl h
  · rw [← hhandlers, ← hhandlers'] at hclear
    obtain ⟨more, hmore⟩ := hstuck.lost hclear
    exact ⟨.access c false :: more, hmore⟩

end Lost

/-! ### `ioctl_factorial` -/

/-- **No wake-up of `ioctl_factorial` is lost as long as its completions are timely,
and no longer.** In every run in which, whenever a computation ends with a call dozing,
either a run of the handler has still to wake it, or the interrupt is asked for or
pending and no acknowledgement is outstanding, no wake-up is lost in any state. And
from every computation that ends otherwise, whatever the run before it, a few more
steps lead to a call asleep with nothing to wake it. -/
theorem factorial_wakeup_iff_timely (d : Device) (m : Memory) :
    (∀ acts : List Act, Along step (Timely .factorial) (Sys.start d m) acts →
      Wakes .factorial (run step (Sys.start d m) acts)) ∧
    ∀ (acts : List Act) (a : Act), ¬Timely .factorial (run step (Sys.start d m) acts) a →
      ∃ more : List Act, ¬Wakes .factorial (run step (Sys.start d m) (acts ++ a :: more)) := by
  refine ⟨fun acts h => wakes_run h, fun acts a h => ?_⟩
  exact exists_run_of_next step (P := fun s => ¬Wakes .factorial s) (lost_of_not_timely h)

/-- A step that is not a completion is timely. -/
theorem timely_of_ne {q : Queue} {s : Sys} {a : Act} (h : a ≠ q.done) : Timely q s a :=
  fun ha => absurd ha h

/-- When only the first runs of the handler have begun, they are the only ones to look
at. -/
theorem not_someRun_run (n : ℕ) {d : Device} {m : Memory} {acts : List Act} {r : Handler → Bool}
    (hidle : r .idle = false) (hacts : ∀ a ∈ acts, ∀ h, a = .irq h → h < n)
    (hruns : ∀ h < n, r ((run step (Sys.start d m) acts).handlers h) = false) :
    ¬SomeRun (run step (Sys.start d m) acts).handlers r := by
  rintro ⟨h, hr⟩
  rcases lt_or_ge h n with hlt | hge
  · rw [hruns h hlt] at hr
    exact absurd hr (by simp)
  · have hne : ∀ a ∈ acts, a ≠ .irq h := by
      intro a ha heq
      have := hacts a ha h heq
      omega
    rw [handlers_run hne rfl, hidle] at hr
    exact absurd hr (by simp)

/-- A schedule with no completion is timely. -/
theorem along_timely {q : Queue} {s : Sys} {acts : List Act} (h : ∀ a ∈ acts, a ≠ q.done) :
    Along step (Timely q) s acts :=
  (along_of_forall step h).mono step fun _ _ ha => timely_of_ne ha

/-- A computation that ends before its call has looked, after which the interrupts
`edu_probe` raised are taken. -/
def quickFactorial : List Act :=
  [.call 0 (.factorial 3) false, .access 0 false, .factDone, .access 0 false, .access 0 false,
    .access 0 false, .irq 0, .handle 0, .handle 0, .handle 0]

/-- A call that sleeps until its computation ends. -/
def slowFactorial (c : ℕ) : List Act :=
  [.call c (.factorial 5) false, .access c false, .access c false, .access c false,
    .access c false, .access c false]

/-- The second of two calls is woken: the first has asked for its interrupt. -/
theorem second_factorial_woken :
    Wakes .factorial
      (run step (Sys.start probed .zero) (quickFactorial ++ slowFactorial 1 ++ [.factDone])) := by
  refine (factorial_wakeup_iff_timely probed .zero).1 _ ?_
  rw [along_append, along_append]
  refine ⟨⟨⟨?_, ?_, fun _ _ _ => Or.inr ⟨Or.inr rfl, ?_⟩, along_timely (by decide)⟩,
    along_timely (by decide)⟩, fun _ _ _ => Or.inr ⟨Or.inl (by decide), ?_⟩, trivial⟩
  · exact timely_of_ne (by decide)
  · exact timely_of_ne (by decide)
  · rintro ⟨h, hr⟩
    exact Bool.false_ne_true hr
  · exact not_someRun_run 1 rfl (by simp [quickFactorial, slowFactorial]) (by decide)

/-- A run of the handler, from its read to its acknowledgement. -/
def handled (h : ℕ) : List Act := [.irq h, .handle h, .handle h, .handle h]

/-- **The first call after `edu_probe` sleeps for good**, if it sleeps at all: the
interrupts `edu_probe` raised have been taken, and none is asked for. -/
theorem first_factorial_sleeps :
    ¬Wakes .factorial
      (run step (Sys.start probed .zero) (handled 0 ++ slowFactorial 1 ++ [.factDone])) := by
  refine Stuck.not_wakes (c := 1) ⟨⟨⟨.factorial 5, .factWait .asleep⟩, by decide, rfl⟩,
    by decide, not_someRun_run 1 rfl ?_ (by decide)⟩ (by decide)
  simp [handled, slowFactorial]

/-! ### `dma_operation` -/

/-- **The condition for a transfer**: the driver always asks for the interrupt, so that
only an outstanding acknowledgement is in the way. -/
def DmaTimely (s : Sys) (a : Act) : Prop :=
  a = .dmaDone → (s.view .dma).busy → (s.view .dma).dozing →
    (s.view .dma).willWake ∨ ¬(s.view .dma).willClear

/-- **Every transfer under way has asked for its interrupt.** -/
def Armed (s : Sys) : Prop :=
  s.Placed ∧ (s.dev.busy = true → hasBit s.dev.dmaCmd 0x04 = true)

theorem Step.armed {s s' : Sys} {a : Act} (hs : Step s a s') (h : Armed s) : Armed s' := by
  refine ⟨hs.placed h.1, ?_⟩
  cases hs with
  | stutter | call | signal | irq | wakeFact | wakeDma | ack => exact h.2
  | @access c call fault hc =>
    intro hb
    rcases dmaCmd_access fault s.dev call.pc with hcmd | ⟨q, hpc, hcmd⟩
    · change (Edu.access fault s.dev call.pc).1.busy = true at hb
      change hasBit (Edu.access fault s.dev call.pc).1.dmaCmd 0x04 = true
      rw [Device.busy, hcmd] at hb
      rw [hcmd]
      exact h.2 hb
    · change hasBit (Edu.access fault s.dev call.pc).1.dmaCmd 0x04 = true
      rw [hcmd]
      have hat := h.1 c call hc
      rw [hpc] at hat
      exact (Request.cmd_quad hat).2
  | factDone hd =>
    intro hb
    have hcmd : s.dev.factDone.dmaCmd = s.dev.dmaCmd := by
      unfold Device.factDone
      split <;> rfl
    rw [Device.busy_factDone] at hb
    rw [hcmd]
    exact h.2 hb
  | dmaDone hd =>
    intro hb
    rw [Device.busy_dmaDone] at hb
    exact absurd hb (by simp)

theorem armed_run {d : Device} {m : Memory} (hd : d.busy = false) (acts : List Act) :
    Armed (run step (Sys.start d m) acts) := by
  refine run_invariant step (fun s a h => (step_cases s a).armed h) acts ⟨placed_run d m [], ?_⟩
  intro hb
  rw [Sys.start, hd] at hb
  exact absurd hb (by simp)

theorem Armed.timely_iff {s : Sys} (h : Armed s) (a : Act) : Timely .dma s a ↔ DmaTimely s a := by
  constructor
  · intro ht ha hb hd
    exact (ht ha hb hd).imp id And.right
  · intro ht ha hb hd
    exact (ht ha hb hd).imp id fun hc => ⟨Or.inl (h.2 hb), hc⟩

/-- **No wake-up of `dma_operation` is lost as long as its completions are timely, and
no longer.** In every run in which no transfer ends, with a call dozing, between the
wake-up and the acknowledgement of a run of the handler – unless another is on its way
to wake the queue – no wake-up is lost in any state. And from every transfer that ends
so, whatever the run before it, a few more steps lead to a call asleep with nothing to
wake it. -/
theorem dma_wakeup_iff_timely (d : Device) (m : Memory) (hd : d.busy = false) :
    (∀ acts : List Act, Along step DmaTimely (Sys.start d m) acts →
      Wakes .dma (run step (Sys.start d m) acts)) ∧
    ∀ (acts : List Act) (a : Act), ¬DmaTimely (run step (Sys.start d m) acts) a →
      ∃ more : List Act, ¬Wakes .dma (run step (Sys.start d m) (acts ++ a :: more)) := by
  refine ⟨fun acts h => ?_, fun acts a h => ?_⟩
  · have hinv : ∀ (s : Sys) (a : Act), DmaTimely s a → (Armed s ∧ (s.view .dma).Safe) →
        (Armed (step s a) ∧ ((step s a).view .dma).Safe) := fun s a ht hi =>
      ⟨(step_cases s a).armed hi.1,
        ((step_cases s a).move ((hi.1.timely_iff a).mpr ht)).safe hi.2⟩
    exact wakes_of_safe (run_invariant_along step hinv acts h
      ⟨armed_run hd [], safe_start .dma d m⟩).2
  · rw [← (armed_run hd acts).timely_iff] at h
    exact exists_run_of_next step (P := fun s => ¬Wakes .dma s) (lost_of_not_timely h)

/-- A call that sleeps until its transfer ends. -/
def slowTransfer (c : ℕ) : List Act :=
  [.call c (.dmaToDevice 64 0x1000 0x40000) false, .access c false, .access c false,
    .access c false, .access c false, .access c false, .access c false, .access c false,
    .access c false]

/-- With the interrupts of `edu_probe` taken, a transfer wakes its call. -/
theorem transfer_woken :
    Wakes .dma (run step (Sys.start probed .zero) (handled 0 ++ slowTransfer 1 ++ [.dmaDone])) := by
  refine (dma_wakeup_iff_timely probed .zero (by decide)).1 _ ?_
  rw [along_append]
  refine ⟨(along_timely (q := .dma) (by decide)).mono step fun s a h ha hb hd => ?_,
    fun _ _ _ => Or.inr ?_, trivial⟩
  · exact (h ha hb hd).imp id And.right
  · exact not_someRun_run 1 rfl (by simp [handled, slowTransfer]) (by decide)

/-- **A transfer whose interrupt is thrown away.** A caller raises the interrupt; a run
of the handler takes it and wakes the queue; before it acknowledges, a transfer is
programmed, its call sleeps and it ends. The acknowledgement clears the bit it has
set. -/
theorem transfer_sleeps :
    ¬Wakes .dma (run step (Sys.start probed .zero)
      (handled 0 ++ [.call 0 (.raiseIrq 0x100) false, .access 0 false, .irq 1, .handle 1, .handle 1]
        ++ slowTransfer 1 ++ [.dmaDone, .handle 1])) := by
  refine Stuck.not_wakes (c := 1) ⟨⟨⟨.dmaToDevice 64 0x1000 0x40000, .dmaWait .asleep⟩,
    by decide, rfl⟩, by decide, not_someRun_run 2 rfl ?_ (by decide)⟩ (by decide)
  simp [handled, slowTransfer]

end Edu

end KernelModules
