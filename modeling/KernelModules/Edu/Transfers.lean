import KernelModules.Edu.Driver

/-!
# Whose transfer is it?

`dma_operation` programs a transfer with four writes and then waits. It takes no
lock, and the device drops the writes it gets during a transfer, so the writes of two
calls can end up in one transfer, and a call can wait for a transfer that is not its
own. This file says exactly when that happens.

What a call has to its name is the list of the transfers it has started
(`KernelModules.Edu.Sys.started`), those performed and the one under way. It changes
in one step only, the last of the four writes when the device takes it
(`KernelModules.Edu.Step.started`), and from that follows what holds of every run:
a call starts at most one transfer, and it has returned 0 only once the device is done
with it.

That the transfer is the one asked for, and that there is one, holds as long as no
call begins to program while another is programming or the device is at work
(`KernelModules.Edu.Serial`), and no longer:
`KernelModules.Edu.transfers_unmixed_iff_serial`.
-/

namespace KernelModules

namespace Edu

/-! ### The transfers of a call -/

/-- The transfer under way was started by call `c`. -/
def Sys.running (s : Sys) (c : ℕ) : Prop := s.dev.busy = true ∧ s.starter = some c

instance (s : Sys) (c : ℕ) : Decidable (s.running c) := inferInstanceAs (Decidable (_ ∧ _))

/-- The transfers performed for call `c`. -/
def Sys.performed (s : Sys) (c : ℕ) : List Transfer := s.log.filter fun t => t.by_ = some c

/-- **The transfers call `c` has started.** -/
def Sys.started (s : Sys) (c : ℕ) : List Dma :=
  (s.performed c).map Transfer.quad ++ if s.running c then [s.dev.regs] else []

/-- The transfers a call has started are told by the registers, the call that started
the last one and the record of the others. -/
theorem started_congr {s s' : Sys} (hregs : s'.dev.regs = s.dev.regs)
    (hstarter : s'.starter = s.starter) (hlog : s'.log = s.log) (c : ℕ) :
    s'.started c = s.started c ∧ (s'.running c ↔ s.running c) := by
  have hbusy : s'.dev.busy = s.dev.busy := congrArg (fun q : Dma => hasBit q.cmd 0x01) hregs
  have hrun : s'.running c ↔ s.running c := by
    rw [Sys.running, Sys.running, hbusy, hstarter]
  refine ⟨?_, hrun⟩
  simp only [Sys.started, Sys.performed, hlog, hregs, hrun]

/-- A transfer that ends goes from one part of the list to the other. -/
theorem started_dmaDone {s : Sys} (hd : s.dev.busy = true) (c : ℕ) :
    Sys.started { s with
      dev := s.dev.dmaDone
      mem := s.dev.regs.transfer s.mem
      log := s.log ++ [⟨s.starter, s.dev.regs⟩] } c = s.started c := by
  by_cases hc : s.starter = some c
  · simp [Sys.started, Sys.performed, Sys.running, List.filter_append, hd, hc]
  · simp [Sys.started, Sys.performed, Sys.running, List.filter_append, hc]

/-- The transfer the last write of `dma_operation` starts. -/
def Device.launch (d : Device) (cmd : BitVec 32) : Dma := ⟨d.dmaSize, d.dmaSrc, d.dmaDst, cmd⟩

/-- **When a call starts a transfer**: in one step only. -/
theorem Step.started {s s' : Sys} {a : Act} (hs : Step s a s') (c : ℕ) :
    (s'.started c = s.started c ∧ (s'.running c → s.running c)) ∨
    ∃ fault call q, a = .access c fault ∧ s.calls c = some call ∧ call.pc = .dmaCmd q ∧
      s.dev.busy = false ∧ s'.started c = s.started c ++ [s.dev.launch q.cmd] := by
  have hsame : ∀ {s' : Sys}, s'.dev.regs = s.dev.regs → s'.starter = s.starter → s'.log = s.log →
      s'.started c = s.started c ∧ (s'.running c → s.running c) := by
    intro s' hregs hstarter hlog
    obtain ⟨h, h'⟩ := started_congr hregs hstarter hlog c
    exact ⟨h, h'.mp⟩
  cases hs with
  | stutter | call | signal | irq | wakeFact | wakeDma | ack => exact Or.inl (hsame rfl rfl rfl)
  | factDone hd =>
    refine Or.inl (hsame ?_ rfl rfl)
    unfold Device.factDone
    split <;> rfl
  | dmaDone hd =>
    refine Or.inl ⟨started_dmaDone hd c, fun h => ?_⟩
    exact absurd h.1 (by simp)
  | @access c₀ call fault hc =>
    by_cases hb : s.dev.busy = true
    · refine Or.inl (hsame (regs_access fault call.pc hb) ?_ rfl)
      simp [stepCall, hb]
    rw [Bool.not_eq_true] at hb
    have hnot : ∀ c, ¬s.running c := fun c h => by
      rw [Sys.running, hb] at h
      exact absurd h.1 (by simp)
    by_cases hb' : (Edu.access fault s.dev call.pc).1.busy = true
    -- the device takes the command, which is the last write of the four
    · obtain ⟨q, hpc⟩ : ∃ q, call.pc = .dmaCmd q := by
        rcases dmaCmd_access fault s.dev call.pc with hcmd | ⟨q, hpc, -⟩
        · rw [Device.busy, hcmd, ← Device.busy, hb] at hb'
          exact absurd hb' (by simp)
        · exact ⟨q, hpc⟩
      have hregs : (Edu.access fault s.dev call.pc).1.regs = s.dev.launch q.cmd := by
        simp [hpc, Edu.access, hb, Device.regs, Device.launch]
      have hstarter : (stepCall s c₀ call fault).starter = some c₀ := by
        simp [stepCall, hb, hb']
      rcases eq_or_ne c c₀ with rfl | hne
      · have hrun : (stepCall s c call fault).running c := ⟨hb', hstarter⟩
        refine Or.inr ⟨fault, call, q, rfl, hc, hpc, hb, ?_⟩
        rw [Sys.started, Sys.started, if_pos hrun, if_neg (hnot c), List.append_nil]
        exact congrArg (fun r => _ ++ [r]) hregs
      · have hrun : ¬(stepCall s c₀ call fault).running c := fun h => by
          rw [Sys.running, hstarter] at h
          exact hne (by simpa using h.2.symm)
        refine Or.inl ⟨?_, fun h => absurd h hrun⟩
        rw [Sys.started, Sys.started, if_neg hrun, if_neg (hnot c)]
        rfl
    · have hrun : ¬(stepCall s c₀ call fault).running c := fun h => hb' h.1
      refine Or.inl ⟨?_, fun h => absurd h hrun⟩
      rw [Sys.started, Sys.started, if_neg hrun, if_neg (hnot c)]
      rfl

/-! ### What holds of every run -/

/-- The call is in its wait for a transfer, or over. -/
def Pc.past : Pc → Bool
  | .dmaWait _ => true
  | .returned _ _ => true
  | _ => false

/-- The call waits for a transfer, or has returned 0. -/
def Pc.served : Pc → Bool
  | .dmaWait _ => true
  | .returned ret _ => ret == 0
  | _ => false

theorem past_access {fault : Bool} {d : Device} {pc : Pc} (h : pc.past = true) :
    (access fault d pc).2.past = true := by
  cases pc with
  | dmaWait t =>
    rw [access_dmaWait]
    cases t.advance (!d.busy) <;> rfl
  | returned => rfl
  | _ => exact absurd h (by simp [Pc.past])

theorem Disturbed.past {pc pc' : Pc} (hd : Disturbed pc pc') (h : pc.past = true) :
    pc'.past = true := by
  cases hd with
  | same => exact h
  | factWait => exact absurd h (by simp [Pc.past])
  | dmaWait | interrupted => rfl

/-- Nobody is made to return 0 by the others. -/
theorem Disturbed.of_returned_zero {pc : Pc} {out : Option (BitVec 32)}
    (hd : Disturbed pc (.returned 0 out)) : pc = .returned 0 out := by
  generalize hpc : Pc.returned 0 out = pc' at hd
  cases hd with
  | same => rfl
  | interrupted => exact absurd hpc (by simp [erestartsys])
  | factWait | dmaWait => exact absurd hpc (by simp)

/-- **The record of the transfers is in order**: a call that has started a transfer is
past its writes, it has started one at most, and it has not returned 0 before the end
of it. -/
structure Recorded (s : Sys) : Prop where
  past : ∀ {c}, s.started c ≠ [] → ∃ call, s.calls c = some call ∧ call.pc.past = true
  once : ∀ c, (s.started c).length ≤ 1
  ended : ∀ {c call out}, s.calls c = some call → call.pc = .returned 0 out → ¬s.running c

theorem Recorded.started_eq_nil {s : Sys} (h : Recorded s) {c : ℕ} {call : Call}
    (hc : s.calls c = some call) (hpc : call.pc.past = false) : s.started c = [] := by
  by_contra hne
  obtain ⟨call', hc', hpast⟩ := h.past hne
  obtain rfl : call = call' := by
    rw [hc] at hc'
    simpa using hc'
  rw [hpc] at hpast
  exact absurd hpast (by simp)

/-- A running call has started a transfer. -/
theorem started_ne_nil_of_running {s : Sys} {c : ℕ} (h : s.running c) : s.started c ≠ [] := by
  simp [Sys.started, h]

/-- An access that returns 0 is the last of a wait for a transfer that is over, or the
last of a call that has started none. -/
theorem past_of_access_returned {fault : Bool} {d : Device} {pc : Pc} {out : Option (BitVec 32)}
    (h : (access fault d pc).2 = .returned 0 out) (hpast : pc.past = true) :
    pc = .returned 0 out ∨ d.busy = false := by
  cases pc with
  | dmaWait t =>
    rw [access_dmaWait] at h
    rcases ht : t.advance (!d.busy) with - | t'
    · exact Or.inr (by simpa using Waiter.cond_of_advance_eq_none ht)
    · rw [ht] at h
      exact absurd h (by simp)
  | returned => exact Or.inl h
  | _ => exact absurd hpast (by simp [Pc.past])

theorem not_served_enter (fault : Bool) (req : Request) : (enter fault req).served = false := by
  cases req <;> simp only [enter, dmaOperation] <;> repeat' split
  all_goals rfl

/-- The call a step leaves past its writes was past them, or has just made the last. -/
theorem Step.past {s s' : Sys} {a : Act} {c : ℕ} {call : Call} (hs : Step s a s')
    (hc : s.calls c = some call)
    (h : call.pc.past = true ∨ ∃ fault q, a = .access c fault ∧ call.pc = .dmaCmd q) :
    ∃ call', s'.calls c = some call' ∧ call'.pc.past = true := by
  obtain ⟨call', hc'⟩ := hs.calls_some hc
  refine ⟨call', hc', ?_⟩
  cases hs.came hc' with
  | entered fault hnone => exact absurd (hc.symm.trans hnone) (by simp)
  | accessed fault hc₁ hreq ha hpc =>
    obtain rfl := Option.some.inj (hc.symm.trans hc₁)
    rw [hpc]
    rcases h with hpast | ⟨-, q, -, hcmd⟩
    · exact past_access hpast
    · rw [hcmd]
      rfl
  | disturbed hc₁ hreq ha hpc =>
    obtain rfl := Option.some.inj (hc.symm.trans hc₁)
    rcases h with hpast | ⟨fault, -, hacc, -⟩
    · exact hpc.past hpast
    · exact absurd hacc (ha fault)

theorem Step.recorded {s s' : Sys} {a : Act} (hs : Step s a s') (h : Recorded s) :
    Recorded s' where
  past {c} hne := by
    rcases hs.started c with ⟨hst, -⟩ | ⟨fault, call, q, ha, hc, hpc, -, -⟩
    · rw [hst] at hne
      obtain ⟨call, hc, hpast⟩ := h.past hne
      exact hs.past hc (Or.inl hpast)
    · exact hs.past hc (Or.inr ⟨fault, q, ha, hpc⟩)
  once c := by
    rcases hs.started c with ⟨hst, -⟩ | ⟨fault, call, q, -, hc, hpc, -, hst⟩
    · rw [hst]
      exact h.once c
    · have hnil : s.started c = [] := h.started_eq_nil hc (by rw [hpc]; rfl)
      rw [hst, hnil]
      rfl
  ended {c call' out} hc' hpc' hrun := by
    cases hs.came hc' with
    | entered fault hnone hpc =>
      have hserved := not_served_enter fault call'.req
      rw [← hpc, hpc'] at hserved
      exact absurd hserved (by simp [Pc.served])
    | accessed fault hc hreq ha hpc =>
      rw [hpc] at hpc'
      rcases hs.started c with ⟨-, hrun'⟩ | ⟨-, call, q, -, hc₁, hcmd, -, -⟩
      · obtain ⟨call₁, hc₁, hpast⟩ := h.past (started_ne_nil_of_running (hrun' hrun))
        obtain rfl := Option.some.inj (hc.symm.trans hc₁)
        rcases past_of_access_returned hpc' hpast with hret | hbusy
        · exact h.ended hc hret (hrun' hrun)
        · exact absurd ((hrun' hrun).1.symm.trans hbusy) (by simp)
      · obtain rfl := Option.some.inj (hc.symm.trans hc₁)
        rw [hcmd] at hpc'
        exact absurd hpc' (by simp [Edu.access])
    | disturbed hc hreq ha hpc =>
      rw [hpc'] at hpc
      rcases hs.started c with ⟨-, hrun'⟩ | ⟨fault, -, -, hacc, -⟩
      · exact h.ended hc hpc.of_returned_zero (hrun' hrun)
      · exact ha fault hacc

theorem recorded_run {d : Device} (m : Memory) (hd : d.busy = false) (acts : List Act) :
    Recorded (run step (Sys.start d m) acts) := by
  refine run_invariant step (fun s a h => (step_cases s a).recorded h) acts ?_
  have hnot : ∀ c, ¬(Sys.start d m).running c := fun c h => by
    rw [Sys.running, Sys.start, hd] at h
    exact absurd h.1 (by simp)
  have hnil : ∀ c, (Sys.start d m).started c = [] := fun c => by
    rw [Sys.started, if_neg (hnot c)]
    rfl
  exact ⟨fun h => absurd (hnil _) h, fun c => by simp [hnil], fun _ _ => hnot _⟩

/-- **Every transfer has a call that started it.** -/
structure Attributed (s : Sys) : Prop where
  starter : s.dev.busy = true → ∃ c, s.starter = some c
  log : ∀ t ∈ s.log, ∃ c, t.by_ = some c

theorem Step.attributed {s s' : Sys} {a : Act} (hs : Step s a s') (h : Attributed s) :
    Attributed s' := by
  cases hs with
  | stutter | call | signal | irq | wakeFact | wakeDma | ack => exact ⟨h.starter, h.log⟩
  | factDone hd =>
    refine ⟨fun hb => h.starter ?_, h.log⟩
    rwa [Device.busy_factDone] at hb
  | dmaDone hd =>
    refine ⟨fun hb => absurd hb (by simp), fun t ht => ?_⟩
    rcases List.mem_append.mp ht with ht | ht
    · exact h.log t ht
    · obtain rfl := List.mem_singleton.mp ht
      exact h.starter hd
  | @access c call fault hc =>
    refine ⟨fun hb => ?_, h.log⟩
    by_cases hb₀ : s.dev.busy = true
    · obtain ⟨c', hc'⟩ := h.starter hb₀
      exact ⟨c', by simp [stepCall, hb₀, hc']⟩
    · have hb : (Edu.access fault s.dev call.pc).1.busy = true := hb
      exact ⟨c, by simp [stepCall, hb₀, hb]⟩

theorem attributed_run {d : Device} (m : Memory) (hd : d.busy = false) (acts : List Act) :
    Attributed (run step (Sys.start d m) acts) := by
  refine run_invariant step (fun s a h => (step_cases s a).attributed h) acts ⟨fun hb => ?_, ?_⟩
  · exact absurd (hd.symm.trans hb) (by simp)
  · intro t ht
    exact absurd ht (by simp [Sys.start])

/-! ### Serial runs -/

/-- The call is between two of its four writes. -/
def Pc.begun : Pc → Bool
  | .dmaDst _ => true
  | .dmaSize _ => true
  | .dmaCmd _ => true
  | _ => false

/-- The call is about to make one of its four writes. -/
def Pc.writes : Pc → Bool
  | .dmaSrc _ => true
  | pc => pc.begun

/-- **The condition**: a call makes its first write only when no transfer is under way
and no call is between two of its own. -/
def Serial (s : Sys) : Act → Prop
  | .access c _ => ∀ call q, s.calls c = some call → call.pc = .dmaSrc q →
      s.dev.busy = false ∧ ∀ c' call', s.calls c' = some call' → call'.pc.begun = false
  | _ => True

/-- **The registers hold what a call has written so far**, and the device takes its next
write. -/
def Pc.Ready (d : Device) : Pc → Prop
  | .dmaDst q => d.busy = false ∧ d.dmaSrc = q.src
  | .dmaSize q => d.busy = false ∧ d.dmaSrc = q.src ∧ d.dmaDst = q.dst
  | .dmaCmd q => d.busy = false ∧ d.dmaSrc = q.src ∧ d.dmaDst = q.dst ∧ d.dmaSize = q.len
  | _ => True

section Ready

variable {d d' : Device} {pc : Pc} {fault : Bool}

theorem ready_of_not_begun (h : pc.begun = false) : pc.Ready d := by
  cases pc with
  | dmaDst | dmaSize | dmaCmd => exact absurd h (by simp [Pc.begun])
  | _ => trivial

theorem Pc.Ready.not_busy (h : pc.Ready d) (hb : pc.begun = true) : d.busy = false := by
  cases pc with
  | dmaDst | dmaSize | dmaCmd => exact h.1
  | _ => exact absurd hb (by simp [Pc.begun])

theorem Pc.Ready.congr (h : pc.Ready d) (hregs : d'.regs = d.regs) : pc.Ready d' := by
  have hbusy : d'.busy = d.busy := congrArg (fun q : Dma => hasBit q.cmd 0x01) hregs
  have hsrc : d'.dmaSrc = d.dmaSrc := congrArg Dma.src hregs
  have hdst : d'.dmaDst = d.dmaDst := congrArg Dma.dst hregs
  have hsize : d'.dmaSize = d.dmaSize := congrArg Dma.len hregs
  cases pc with
  | dmaDst | dmaSize | dmaCmd =>
    simp only [Pc.Ready, hbusy, hsrc, hdst, hsize] at h ⊢
    exact h
  | _ => trivial

/-- The next write of a call goes through. -/
theorem Pc.Ready.access (h : pc.Ready d) (fault : Bool) (hb : d.busy = false)
    (hpc : pc.writes = true) :
    (Edu.access fault d pc).2.Ready (Edu.access fault d pc).1 := by
  cases pc with
  | dmaSrc =>
    simp only [Edu.access, writel_dmaSrc, hb, Bool.false_eq_true, if_false]
    exact ⟨hb, rfl⟩
  | dmaDst =>
    simp only [Edu.access, writel_dmaDist, hb, Bool.false_eq_true, if_false]
    exact ⟨hb, h.2, rfl⟩
  | dmaSize =>
    simp only [Edu.access, writel_dmaSize, hb, Bool.false_eq_true, if_false]
    exact ⟨hb, h.2.1, h.2.2, rfl⟩
  | dmaCmd => trivial
  | _ => exact absurd hpc (by simp [Pc.writes, Pc.begun])

/-- Only the writes of `dma_operation` change the registers of the engine. -/
theorem regs_access_of_not_writes (hpc : pc.writes = false) :
    (access fault d pc).1.regs = d.regs := by
  cases pc with
  | factWait t => rw [access_factWait]
  | dmaWait t => rw [access_dmaWait]
  | dmaSrc | dmaDst | dmaSize | dmaCmd => exact absurd hpc (by simp [Pc.writes, Pc.begun])
  | factWrite val =>
    simp only [access, writel_factorial]
    split <;> rfl
  | factStatus | idRead | liveWrite | liveRead | openWrite | openRead | factRead | raise
  | returned => rfl

theorem writes_of_begun (h : pc.begun = true) : pc.writes = true := by
  cases pc with
  | dmaSrc => rfl
  | _ => exact h

/-- No call but one that writes gets between two of its writes. -/
theorem writes_of_begun_access (h : (access fault d pc).2.begun = true) : pc.writes = true := by
  cases pc with
  | dmaSrc | dmaDst | dmaSize | dmaCmd => rfl
  | factWait t =>
    rw [access_factWait] at h
    rcases ht : t.advance (!d.computing) with - | t' <;> rw [ht] at h <;>
      exact absurd h (by simp [Pc.begun])
  | dmaWait t =>
    rw [access_dmaWait] at h
    rcases ht : t.advance (!d.busy) with - | t' <;> rw [ht] at h <;>
      exact absurd h (by simp [Pc.begun])
  | idRead | liveRead | factRead =>
    cases fault <;> exact absurd h (by simp [access, putUser, Pc.begun])
  | openRead =>
    simp only [access] at h
    split at h <;> exact absurd h (by simp [Pc.begun])
  | liveWrite | openWrite | factWrite | factStatus | raise | returned =>
    exact absurd h (by simp [access, Pc.begun])

theorem not_begun_enter (fault : Bool) (req : Request) : (enter fault req).begun = false := by
  cases req <;> simp only [enter, dmaOperation] <;> repeat' split
  all_goals rfl

theorem Disturbed.begun {pc' : Pc} (hd : Disturbed pc pc') (h : pc'.begun = true) : pc = pc' := by
  cases hd with
  | same => rfl
  | factWait | dmaWait | interrupted => exact absurd h (by simp [Pc.begun])

/-- A call that is between two of its writes has just made one, or has not moved. -/
theorem Came.begun {s : Sys} {a : Act} {c : ℕ} {call' : Call} (h : Came s a c call')
    (hb : call'.pc.begun = true) :
    (∃ call, s.calls c = some call ∧ call.pc = call'.pc) ∨
      ∃ fault call, a = .access c fault ∧ s.calls c = some call ∧ call.pc.writes = true := by
  cases h with
  | entered fault hc hpc =>
    rw [hpc, not_begun_enter] at hb
    exact absurd hb (by simp)
  | @accessed call fault hc hreq ha hpc =>
    rw [hpc] at hb
    exact Or.inr ⟨fault, call, ha, hc, writes_of_begun_access hb⟩
  | @disturbed call hc hreq ha hpc => exact Or.inl ⟨call, hc, hpc.begun hb⟩

end Ready

/-- **At most one call is between two of its writes, and the registers hold what it has
written.** -/
structure Exclusive (s : Sys) : Prop where
  ready : ∀ {c call}, s.calls c = some call → call.pc.Ready s.dev
  alone : ∀ {c c' call call'}, s.calls c = some call → s.calls c' = some call' →
    call.pc.begun = true → call'.pc.begun = true → c = c'

/-- A call writes. -/
def Sys.Writes (s : Sys) (a : Act) (c : ℕ) (call : Call) : Prop :=
  (∃ fault, a = .access c fault) ∧ s.calls c = some call ∧ call.pc.writes = true

/-- A step that is not a write of `dma_operation` leaves the registers of the engine
alone, unless it is the end of a transfer. -/
theorem Step.regs {s s' : Sys} {a : Act} (hs : Step s a s') (ha : ¬∃ c call, s.Writes a c call) :
    s'.dev.regs = s.dev.regs ∨ s.dev.busy = true := by
  cases hs with
  | stutter | call | signal | irq | wakeFact | wakeDma | ack => exact Or.inl rfl
  | factDone hd =>
    refine Or.inl ?_
    unfold Device.factDone
    split <;> rfl
  | dmaDone hd => exact Or.inr hd
  | @access c call fault hc =>
    refine Or.inl (regs_access_of_not_writes ?_)
    rw [← Bool.not_eq_true]
    exact fun hw => ha ⟨c, call, ⟨fault, rfl⟩, hc, hw⟩

/-- **A write in a serial run finds the engine idle, and nobody else between two
writes.** -/
theorem Exclusive.of_writes {s : Sys} {a : Act} {c : ℕ} {call : Call} (h : Exclusive s)
    (hok : Serial s a) (hw : s.Writes a c call) :
    s.dev.busy = false ∧
      ∀ {c' call'}, s.calls c' = some call' → call'.pc.begun = true → c' = c := by
  obtain ⟨⟨fault, rfl⟩, hc, hw⟩ := hw
  by_cases hb : call.pc.begun = true
  · exact ⟨(h.ready hc).not_busy hb, fun hc' hb' => h.alone hc' hc hb' hb⟩
  · obtain ⟨q, hpc⟩ : ∃ q, call.pc = .dmaSrc q := by
      generalize call.pc = pc at hw hb ⊢
      cases pc with
      | dmaSrc q => exact ⟨q, rfl⟩
      | _ => exact absurd hw hb
    obtain ⟨hbusy, hnone⟩ := hok call q hc hpc
    refine ⟨hbusy, fun {c' call'} hc' hb' => ?_⟩
    rw [hnone c' call' hc'] at hb'
    exact absurd hb' (by simp)

theorem Step.exclusive {s s' : Sys} {a : Act} (hs : Step s a s') (hok : Serial s a)
    (h : Exclusive s) : Exclusive s' := by
  by_cases ha : ∃ c call, s.Writes a c call
  · -- the call that writes is the only one between two writes, before and after
    obtain ⟨c₀, call₀, hw⟩ := ha
    obtain ⟨hbusy, hothers⟩ := h.of_writes hok hw
    obtain ⟨⟨fault₀, rfl⟩, hc₀, hw₀⟩ := hw
    have hself : ∀ {c call'}, s'.calls c = some call' → call'.pc.begun = true → c = c₀ := by
      intro c call' hc' hb
      rcases (hs.came hc').begun hb with ⟨call, hc, hpc⟩ | ⟨fault, call, hacc, -⟩
      · rw [← hpc] at hb
        exact hothers hc hb
      · injection hacc with hcc
        exact hcc.symm
    refine ⟨fun {c call'} hc' => ?_, fun hc₁ hc₂ hb₁ hb₂ =>
      (hself hc₁ hb₁).trans (hself hc₂ hb₂).symm⟩
    by_cases hb : call'.pc.begun = true
    · obtain rfl := hself hc' hb
      cases hs with
      | stutter ha => exact absurd (hc₀.symm.trans (ha c fault₀ rfl)) (by simp)
      | @access _ call fault hc =>
        obtain rfl := Option.some.inj (hc₀.symm.trans hc)
        obtain rfl : { call₀ with pc := (Edu.access fault₀ s.dev call₀.pc).2 } = call' := by
          simpa [stepCall, Sys.setPc] using hc'
        exact (h.ready hc₀).access fault₀ hbusy hw₀
    · exact ready_of_not_begun (by simpa using hb)
  · -- nobody writes: the calls between two writes are those that were
    have hold : ∀ {c call'}, s'.calls c = some call' → call'.pc.begun = true →
        ∃ call, s.calls c = some call ∧ call.pc = call'.pc := by
      intro c call' hc' hb
      rcases (hs.came hc').begun hb with h | ⟨fault, call, hacc, hc, hw⟩
      · exact h
      · exact absurd ⟨c, call, ⟨fault, hacc⟩, hc, hw⟩ ha
    refine ⟨fun {c call'} hc' => ?_, fun {c₁ c₂ call₁ call₂} hc₁ hc₂ hb₁ hb₂ => ?_⟩
    · by_cases hb : call'.pc.begun = true
      · obtain ⟨call, hc, hpc⟩ := hold hc' hb
        have hready := h.ready hc
        rw [hpc] at hready
        rcases hs.regs ha with hregs | hbusy
        · exact hready.congr hregs
        · exact absurd (hbusy.symm.trans (hready.not_busy hb)) (by simp)
      · exact ready_of_not_begun (by simpa using hb)
    · obtain ⟨call₁', hc₁', hpc₁⟩ := hold hc₁ hb₁
      obtain ⟨call₂', hc₂', hpc₂⟩ := hold hc₂ hb₂
      rw [← hpc₁] at hb₁
      rw [← hpc₂] at hb₂
      exact h.alone hc₁' hc₂' hb₁ hb₂

/-- **Every transfer is the one its call asked for, and a call that waits for a transfer,
or has returned 0, has started one.** -/
structure Owned (s : Sys) : Prop where
  own : ∀ {c q}, q ∈ s.started c → ∃ call, s.calls c = some call ∧ call.req.quad = some q
  nonempty : ∀ {c call}, s.calls c = some call → call.req.quad.isSome = true →
    call.pc.served = true → s.started c ≠ []

/-- A request does not change. -/
theorem Step.req {s s' : Sys} {a : Act} {c : ℕ} {call : Call} (hs : Step s a s')
    (hc : s.calls c = some call) : ∃ call', s'.calls c = some call' ∧ call'.req = call.req := by
  obtain ⟨call', hc'⟩ := hs.calls_some hc
  refine ⟨call', hc', ?_⟩
  cases hs.came hc' with
  | entered fault hnone => exact absurd (hc.symm.trans hnone) (by simp)
  | accessed fault hc₁ hreq | disturbed hc₁ hreq =>
    obtain rfl := Option.some.inj (hc.symm.trans hc₁)
    exact hreq

/-- What a call has started it does not lose. -/
theorem Step.started_ne_nil {s s' : Sys} {a : Act} (hs : Step s a s') {c : ℕ}
    (h : s.started c ≠ []) : s'.started c ≠ [] := by
  rcases hs.started c with ⟨hst, -⟩ | ⟨fault, call, q, -, -, -, -, hst⟩
  · rwa [hst]
  · rw [hst]
    simp

/-- A call that has asked for a transfer gets to wait for one by its last write only, and
to return 0 from its wait only. -/
theorem served_of_access {fault : Bool} {d : Device} {req : Request} {pc : Pc} (hat : req.At pc)
    (hquad : req.quad.isSome = true) (h : (access fault d pc).2.served = true) :
    pc.served = true ∨ ∃ q, pc = .dmaCmd q := by
  have hnone : ∀ {req'}, req = req' → req'.quad = none → False := by
    rintro req' rfl hnone
    rw [hnone] at hquad
    exact absurd hquad (by simp)
  cases pc with
  | dmaCmd q => exact Or.inr ⟨q, rfl⟩
  | dmaWait => exact Or.inl rfl
  | returned => exact Or.inl h
  | dmaSrc | dmaDst | dmaSize => exact absurd h (by simp [access, Pc.served])
  | idRead | openWrite | openRead | liveWrite | factWrite | raise => exact (hnone hat rfl).elim
  | liveRead | factWait | factStatus | factRead =>
    obtain ⟨val, hreq⟩ := hat
    exact (hnone hreq rfl).elim

theorem Disturbed.served {pc pc' : Pc} (hd : Disturbed pc pc') (h : pc'.served = true) :
    pc.served = true := by
  cases hd with
  | same => exact h
  | factWait => exact absurd h (by simp [Pc.served])
  | dmaWait => rfl
  | interrupted => exact absurd h (by simp [Pc.served, erestartsys])

/-- The last write, when the device takes it, starts a transfer. -/
theorem running_of_dmaCmd {s : Sys} {c : ℕ} {call : Call} {q : Dma} {fault : Bool}
    (hpc : call.pc = .dmaCmd q) (hb : s.dev.busy = false) (hcmd : hasBit q.cmd 0x01 = true) :
    (stepCall s c call fault).running c := by
  have hbusy : (access fault s.dev call.pc).1.busy = true := by
    simp only [hpc, access, writel_dmaCmd, hb, Bool.false_eq_true, if_false]
    exact hcmd
  refine ⟨hbusy, ?_⟩
  simp [stepCall, hb, hbusy]

theorem Step.owned {s s' : Sys} {a : Act} (hs : Step s a s') (hp : s.Placed) (he : Exclusive s)
    (h : Owned s) : Owned s' where
  own {c q} hq := by
    have hstay : ∀ {call}, s.calls c = some call → call.req.quad = some q →
        ∃ call, s'.calls c = some call ∧ call.req.quad = some q := by
      intro call hc hquad
      obtain ⟨call', hc', hreq⟩ := hs.req hc
      exact ⟨call', hc', by rw [hreq, hquad]⟩
    rcases hs.started c with ⟨hst, -⟩ | ⟨fault, call, q', -, hc, hpc, hb, hst⟩
    · rw [hst] at hq
      obtain ⟨call, hc, hquad⟩ := h.own hq
      exact hstay hc hquad
    · rw [hst] at hq
      rcases List.mem_append.mp hq with hq | hq
      · obtain ⟨call, hc, hquad⟩ := h.own hq
        exact hstay hc hquad
      · -- the registers hold what the call has written
        have hat := hp c call hc
        have hready := he.ready hc
        rw [hpc] at hat hready
        obtain ⟨-, hsrc, hdst, hlen⟩ := hready
        refine hstay hc (hat.trans ?_)
        rw [List.mem_singleton.mp hq, Device.launch, hsrc, hdst, hlen]
  nonempty {c call'} hc' hquad hserved := by
    cases hs.came hc' with
    | entered fault hnone hpc =>
      rw [hpc, not_served_enter] at hserved
      exact absurd hserved (by simp)
    | @accessed call fault hc hreq ha hpc =>
      rw [hreq] at hquad
      rw [hpc] at hserved
      have hat := hp c call hc
      rcases served_of_access hat hquad hserved with hserved | ⟨q, hcmd⟩
      · exact hs.started_ne_nil (h.nonempty hc hquad hserved)
      · rw [hcmd] at hat
        have hready := he.ready hc
        rw [hcmd] at hready
        subst ha
        cases hs with
        | stutter ha => exact absurd (hc.symm.trans (ha c fault rfl)) (by simp)
        | @access _ call₁ _ hc₁ =>
          obtain rfl := Option.some.inj (hc.symm.trans hc₁)
          exact started_ne_nil_of_running
            (running_of_dmaCmd hcmd hready.1 (Request.cmd_quad hat).1)
    | @disturbed call hc hreq ha hpc =>
      rw [hreq] at hquad
      exact hs.started_ne_nil (h.nonempty hc hquad (hpc.served hserved))

/-! ### Transfers are not mixed up -/

/-- **Transfers are not mixed up in the state**: each was performed with the arguments of
one call, the one that started it, and a call that has returned 0 has had exactly one,
with its own arguments. -/
structure Unmixed (s : Sys) : Prop where
  single : ∀ t ∈ s.log, ∃ c call, t.by_ = some c ∧ s.calls c = some call ∧
    call.req.quad = some t.quad
  once : ∀ c call q out, s.calls c = some call → call.req.quad = some q →
    call.pc = .returned 0 out → s.performed c = [⟨some c, q⟩]

/-- A transfer performed is one of those its call has started. -/
theorem quad_mem_started {s : Sys} {c : ℕ} {t : Transfer} (ht : t ∈ s.log) (hby : t.by_ = some c) :
    t.quad ∈ s.started c :=
  List.mem_append_left _ (List.mem_map_of_mem (List.mem_filter.mpr ⟨ht, by simpa using hby⟩))

theorem unmixed_of_owned {s : Sys} (ha : Attributed s) (hr : Recorded s) (ho : Owned s) :
    Unmixed s where
  single t ht := by
    obtain ⟨c, hby⟩ := ha.log t ht
    obtain ⟨call, hc, hquad⟩ := ho.own (quad_mem_started ht hby)
    exact ⟨c, call, hby, hc, hquad⟩
  once c call q out hc hquad hpc := by
    have hne : s.started c ≠ [] := by
      refine ho.nonempty hc (by simp [hquad]) ?_
      rw [hpc]
      rfl
    have hperf : s.started c = (s.performed c).map Transfer.quad := by
      rw [Sys.started, if_neg (hr.ended hc hpc), List.append_nil]
    have hlen : (s.performed c).length = 1 := by
      have hle := hr.once c
      have hpos := List.length_pos_iff.mpr hne
      rw [hperf, List.length_map] at hle hpos
      omega
    obtain ⟨t, ht⟩ := List.length_eq_one_iff.mp hlen
    have hmem : t ∈ s.performed c := by simp [ht]
    obtain ⟨hlog, hby⟩ := List.mem_filter.mp hmem
    have hby : t.by_ = some c := by simpa using hby
    obtain ⟨call', hc', hquad'⟩ := ho.own (quad_mem_started hlog hby)
    obtain rfl := Option.some.inj (hc.symm.trans hc')
    rw [ht, ← hby, Option.some.inj (hquad.symm.trans hquad')]

/-- **Every serial run keeps the transfers apart.** -/
theorem unmixed_run {d : Device} {m : Memory} (hd : d.busy = false) {acts : List Act}
    (h : Along step Serial (Sys.start d m) acts) : Unmixed (run step (Sys.start d m) acts) := by
  have hinv : ∀ (s : Sys) (a : Act), Serial s a → (s.Placed ∧ Exclusive s ∧ Owned s) →
      ((step s a).Placed ∧ Exclusive (step s a) ∧ Owned (step s a)) := fun s a hok hi =>
    ⟨(step_cases s a).placed hi.1, (step_cases s a).exclusive hok hi.2.1,
      (step_cases s a).owned hi.1 hi.2.1 hi.2.2⟩
  have hnone : ∀ {c call}, (Sys.start d m).calls c ≠ some call := by simp [Sys.start]
  have hinit : Exclusive (Sys.start d m) ∧ Owned (Sys.start d m) := by
    refine ⟨⟨fun hc => absurd hc hnone, fun hc => absurd hc hnone⟩,
      ⟨fun {c q} hq => ?_, fun hc => absurd hc hnone⟩⟩
    obtain ⟨call, hc, -⟩ := (recorded_run m hd []).past (List.ne_nil_of_mem hq)
    exact absurd hc hnone
  exact unmixed_of_owned (attributed_run m hd acts) (recorded_run m hd acts)
    (run_invariant_along step hinv acts h ⟨placed_run d m [], hinit⟩).2.2

/-! ### Transfers that are -/

section Mixed

variable {s : Sys} {c : ℕ} {call : Call}

/-- A write the device drops. -/
theorem step_dropped (hc : s.calls c = some call) (hw : call.pc.writes = true)
    (hb : s.dev.busy = true) (fault : Bool) :
    step s (.access c fault)
      = { s with calls := s.setPc c call (access fault s.dev call.pc).2 } := by
  have hdev : (access fault s.dev call.pc).1 = s.dev := by
    generalize call.pc = pc at hw
    cases pc with
    | dmaSrc | dmaDst | dmaSize | dmaCmd => simp [access, hb]
    | _ => exact absurd hw (by simp [Pc.writes, Pc.begun])
  simp [step, hc, stepCall, hdev, hb]

/-- The call can go on to its wait with nothing else changed. -/
def Sinks (s : Sys) (c : ℕ) (req : Request) : Prop :=
  ∃ more, run step s more
    = { s with calls := Function.update s.calls c (some ⟨req, .dmaWait .check⟩) }

theorem Sinks.of_next {req : Request} {pc : Pc} (hc : s.calls c = some ⟨req, pc⟩)
    (hw : pc.writes = true) (hb : s.dev.busy = true)
    (h : Sinks { s with
      calls := Function.update s.calls c (some ⟨req, (access false s.dev pc).2⟩) } c req) :
    Sinks s c req := by
  obtain ⟨more, hmore⟩ := h
  refine ⟨.access c false :: more, ?_⟩
  rw [run_cons, step_dropped hc hw hb]
  exact hmore.trans (by simp only [Function.update_idem])

/-- **A call that writes during a transfer** makes its writes for nothing. -/
theorem sinks_of_writes {req : Request} {pc : Pc} (hc : s.calls c = some ⟨req, pc⟩)
    (hw : pc.writes = true) (hb : s.dev.busy = true) : Sinks s c req := by
  -- one write after the other, from the last to the first
  have hcmd : ∀ {s : Sys} {q : Dma}, s.calls c = some ⟨req, .dmaCmd q⟩ → s.dev.busy = true →
      Sinks s c req := fun hc hb => .of_next hc rfl hb ⟨[], by simp [access]⟩
  have hsize : ∀ {s : Sys} {q : Dma}, s.calls c = some ⟨req, .dmaSize q⟩ → s.dev.busy = true →
      Sinks s c req := fun hc hb => .of_next hc rfl hb (hcmd (Function.update_self ..) hb)
  have hdst : ∀ {s : Sys} {q : Dma}, s.calls c = some ⟨req, .dmaDst q⟩ → s.dev.busy = true →
      Sinks s c req := fun hc hb => .of_next hc rfl hb (hsize (Function.update_self ..) hb)
  cases pc with
  | dmaSrc => exact .of_next hc rfl hb (hdst (Function.update_self ..) hb)
  | dmaDst => exact hdst hc hb
  | dmaSize => exact hsize hc hb
  | dmaCmd => exact hcmd hc hb
  | _ => exact absurd hw (by simp [Pc.writes, Pc.begun])

/-- **A call that writes during a transfer returns 0 without one of its own.** -/
theorem mixed_of_writes {q : Dma} (hc : s.calls c = some call) (hw : call.pc.writes = true)
    (hb : s.dev.busy = true) (hnil : s.started c = []) (hq : call.req.quad = some q) :
    ∃ more, ¬Unmixed (run step s more) := by
  obtain ⟨more, hmore⟩ := sinks_of_writes hc hw hb
  have hnot : s.starter ≠ some c := fun h => started_ne_nil_of_running ⟨hb, h⟩ hnil
  have hperf : s.performed c = [] := by
    have := (List.append_eq_nil_iff.mp hnil).1
    simpa using this
  refine ⟨more ++ [Act.dmaDone, Act.access c false], fun h => ?_⟩
  rw [run_append, hmore] at h
  have honce := h.once c ⟨call.req, .returned 0 none⟩ q none
    (by simp [step, hb, stepCall, access, Waiter.advance, Sys.setPc]) hq rfl
  rw [Sys.performed] at hperf
  simp [step, hb, stepCall, Sys.performed, List.filter_append, hnot, hperf] at honce

/-- In every run, a call that writes during a transfer has started none itself. -/
theorem exists_mixed {d : Device} {m : Memory} (hd : d.busy = false) {acts : List Act}
    (hc : (run step (Sys.start d m) acts).calls c = some call) (hw : call.pc.writes = true)
    (hb : (run step (Sys.start d m) acts).dev.busy = true) :
    ∃ more, ¬Unmixed (run step (Sys.start d m) (acts ++ more)) := by
  have hat := placed_run d m acts c call hc
  obtain ⟨hpast, q, hq⟩ : call.pc.past = false ∧ ∃ q, call.req.quad = some q := by
    generalize call.pc = pc at hat hw ⊢
    cases pc with
    | dmaSrc q | dmaDst q | dmaSize q | dmaCmd q => exact ⟨rfl, q, hat⟩
    | _ => exact absurd hw (by simp [Pc.writes, Pc.begun])
  obtain ⟨more, hmore⟩ :=
    mixed_of_writes hc hw hb ((recorded_run m hd acts).started_eq_nil hc hpast) hq
  refine ⟨more, ?_⟩
  rwa [run_append]

/-- **A call left to write while the device is idle** makes it busy, and disturbs no
other call. -/
theorem busy_of_dmaSrc {q : Dma} (hc : s.calls c = some call) (hpc : call.pc = .dmaSrc q)
    (hb : s.dev.busy = false) (hcmd : hasBit q.cmd 0x01 = true) (fault : Bool) :
    let s' := run step s [.access c fault, .access c false, .access c false, .access c false]
    s'.dev.busy = true ∧ ∀ c' ≠ c, s'.calls c' = s.calls c' := by
  have hb : hasBit s.dev.dmaCmd 0x01 = false := hb
  refine ⟨?_, fun c' hne => ?_⟩
  · simp only [run_cons, run_nil, step, hc, stepCall, hpc, access, writel_dmaSrc, writel_dmaDist,
      writel_dmaSize, writel_dmaCmd, Sys.setPc, Function.update_self, Device.busy, hb,
      Bool.false_eq_true, if_false]
    exact hcmd
  · simp only [run_cons, run_nil, step, hc, stepCall, hpc, access, Sys.setPc,
      Function.update_self, Function.update_of_ne hne]

end Mixed

/-- **Transfers are not mixed up as long as the calls program one after the other, and no
longer.** In every run in which no call makes its first write while a transfer is under
way or another call is between two of its own, every transfer is one call's and every
call that has returned 0 has had its own, once. And from every first write made
otherwise, whatever the run before it, the run can go on to a state where this fails. -/
theorem transfers_unmixed_iff_serial (d : Device) (m : Memory) (hd : d.busy = false) :
    (∀ acts : List Act, Along step Serial (Sys.start d m) acts →
      Unmixed (run step (Sys.start d m) acts)) ∧
    ∀ (acts : List Act) (a : Act), ¬Serial (run step (Sys.start d m) acts) a →
      ∃ more : List Act, ¬Unmixed (run step (Sys.start d m) (acts ++ a :: more)) := by
  refine ⟨fun acts h => unmixed_run hd h, fun acts a hbad => ?_⟩
  set s := run step (Sys.start d m) acts with hs
  -- only a first write can break the condition
  cases a with
  | access c fault =>
    simp only [Serial, not_forall] at hbad
    obtain ⟨call, q, hc, hpc, hbad⟩ := hbad
    have hw : call.pc.writes = true := by
      rw [hpc]
      rfl
    by_cases hb : s.dev.busy = true
    · -- the write is dropped, and the call goes on to wait for the transfer under way
      have hrun : run step (Sys.start d m) (acts ++ [Act.access c fault])
          = { s with calls := s.setPc c call (.dmaDst q) } := by
        rw [run_append, ← hs, run_cons, run_nil, step_dropped hc hw hb fault, hpc]
        rfl
      have hc₁ : (run step (Sys.start d m) (acts ++ [Act.access c fault])).calls c
          = some { call with pc := .dmaDst q } := by
        rw [hrun]
        exact Function.update_self ..
      obtain ⟨more, hmore⟩ := exists_mixed hd hc₁ rfl (by rw [hrun]; exact hb)
      exact ⟨more, by simpa using hmore⟩
    · -- the call is left to start its transfer, and the other one comes too late
      rw [Bool.not_eq_true] at hb
      obtain ⟨c', call', hc', hb'⟩ : ∃ c' call', s.calls c' = some call' ∧
          call'.pc.begun = true := by
        by_contra hnone
        refine hbad ⟨hb, fun c' call' hc' => ?_⟩
        rw [← Bool.not_eq_true]
        exact fun hbegun => hnone ⟨c', call', hc', hbegun⟩
      have hne : c' ≠ c := by
        rintro rfl
        obtain rfl := Option.some.inj (hc.symm.trans hc')
        rw [hpc] at hb'
        exact absurd hb' (by simp [Pc.begun])
      have hat := placed_run d m acts c call hc
      rw [hpc] at hat
      obtain ⟨hbusy, hcalls⟩ := busy_of_dmaSrc hc hpc hb (Request.cmd_quad hat).1 fault
      rw [hs, ← run_append] at hbusy hcalls
      obtain ⟨more, hmore⟩ :=
        exists_mixed hd ((hcalls c' hne).trans hc') (writes_of_begun hb') hbusy
      exact ⟨[.access c false, .access c false, .access c false] ++ more, by simpa using hmore⟩
  | call | signal | irq | handle | factDone | dmaDone => exact absurd trivial hbad

/-- A call that is not about to make its first write. -/
theorem serial_of_not_first {s : Sys} {c : ℕ} {fault : Bool}
    (h : (s.calls c).map (fun call => call.pc.writes && !call.pc.begun) ≠ some true) :
    Serial s (.access c fault) := by
  intro call q hc hpc
  rw [hc, Option.map_some, hpc] at h
  exact absurd rfl h

/-- A transfer, from the call to its return. -/
def transferred (c : ℕ) (req : Request) : List Act :=
  [.call c req false, .access c false, .access c false, .access c false, .access c false,
    .dmaDone, .access c false]

/-- Two calls, one after the other, each with its own transfer. -/
theorem transfers_one_by_one :
    Unmixed (run step (Sys.start probed .zero)
      (transferred 0 (.dmaToDevice 64 0x1000 0x40000) ++
        transferred 1 (.dmaFromDevice 32 0x40000 0x2000))) := by
  refine (transfers_unmixed_iff_serial probed .zero (by decide)).1 _ ?_
  rw [along_append]
  refine ⟨⟨trivial, fun _ _ _ _ => ⟨by decide, fun c call hc => ?_⟩, ?_, ?_, ?_, trivial, ?_,
      trivial⟩,
    ⟨trivial, fun _ _ _ _ => ⟨by decide, fun c call hc => ?_⟩, ?_, ?_, ?_, trivial, ?_,
      trivial⟩⟩
  all_goals try exact serial_of_not_first (by decide)
  · have h := @calls_all_run 1 (fun call => !call.pc.begun) probed .zero
      [.call 0 (.dmaToDevice 64 0x1000 0x40000) false] (by simp) (by decide) c call hc
    simpa using h
  · have h := @calls_all_run 2 (fun call => !call.pc.begun) probed .zero
      (transferred 0 (.dmaToDevice 64 0x1000 0x40000) ++
        [Act.call 1 (.dmaFromDevice 32 0x40000 0x2000) false]) (by simp [transferred]) (by decide)
    rw [run_append] at h
    simpa using h c call hc

/-- Two calls whose writes cross: the source is the second one's, the rest the first
one's. -/
def crossed : List Act :=
  [.call 0 (.dmaToDevice 64 0x1000 0x40000) false, .call 1 (.dmaToDevice 32 0x2000 0x40800) false,
    .access 0 false, .access 1 false, .access 0 false, .access 0 false, .access 0 false, .dmaDone]

/-- **A transfer that no call has asked for.** -/
theorem crossed_transfer :
    (run step (Sys.start probed .zero) crossed).log
        = [⟨some 0, ⟨64, 0x2000, 0x40000, 0x7⟩⟩] ∧
      (∀ c call, (run step (Sys.start probed .zero) crossed).calls c = some call →
        call.req.quad ≠ some ⟨64, 0x2000, 0x40000, 0x7⟩) ∧
      ¬Unmixed (run step (Sys.start probed .zero) crossed) := by
  have hlog : (run step (Sys.start probed .zero) crossed).log
      = [⟨some 0, ⟨64, 0x2000, 0x40000, 0x7⟩⟩] := by decide
  have hquad : ∀ c call, (run step (Sys.start probed .zero) crossed).calls c = some call →
      call.req.quad ≠ some ⟨64, 0x2000, 0x40000, 0x7⟩ := by
    intro c call hc
    have h := @calls_all_run 2 (fun call => call.req.quad != some ⟨64, 0x2000, 0x40000, 0x7⟩)
      probed .zero crossed (by simp [crossed]) (by decide) c call hc
    simpa using h
  refine ⟨hlog, hquad, fun h => ?_⟩
  obtain ⟨c, call, -, hc, hq⟩ := h.single ⟨some 0, ⟨64, 0x2000, 0x40000, 0x7⟩⟩ (by simp [hlog])
  exact hquad c call hc hq

end Edu

end KernelModules
