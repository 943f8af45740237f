import Mathlib.Algebra.Group.Nat.Defs
import KernelModules.Edu.Transfers

/-!
# Where a transfer reads and writes

`dma_operation` checks the length of a transfer against `EDU_DMA_BUF_SIZE` and writes the two
addresses to the device as they come from the user. `edu_probe` has allocated a buffer for the
host's end of the transfers, and the device has one for the other end; whether a transfer stays
inside them (`KernelModules.Edu.Dma.Inside`) is up to the callers.

To all of them: the writes of several calls can end up in one transfer, and so can those of a
call that found a transfer under way and one that did not. What the device can be made to
perform are the mixtures of what is passed (`KernelModules.Edu.Mixture`), the length of one
call with the addresses of two others and the direction of a fourth, and all of them:
`KernelModules.Edu.confined_exact`.
-/

namespace KernelModules

namespace Edu

/-! ### The two ends -/

namespace Dma

/-- The address of the host's end. -/
def host (q : Dma) : BitVec 32 := if hasBit q.cmd eduDmaCmdDirc then q.dst else q.src

/-- The address of the device's end. -/
def device (q : Dma) : BitVec 32 := if hasBit q.cmd eduDmaCmdDirc then q.src else q.dst

/-- **A transfer stays inside the two buffers**: the one `dmam_alloc_coherent` has put at
`bus`, and the device's. Neither of its ends wraps. -/
structure Inside (bus : ℕ) (q : Dma) : Prop where
  hostBuffer : bus ≤ q.host.toNat ∧ q.host.toNat + q.len.toNat ≤ bus + eduDmaBufSize.toNat
  deviceBuffer : InBuffer q.device.toNat q.len.toNat
  hostEnd : q.host.toNat + q.len.toNat < 2 ^ 32
  deviceEnd : q.device.toNat + q.len.toNat < 2 ^ 32

/-- A transfer that stays inside leaves the rest of the host's memory alone. -/
theorem Inside.ram {bus : ℕ} {q : Dma} (h : q.Inside bus) (m : Memory) {a : ℕ}
    (ha : ¬(bus ≤ a ∧ a < bus + eduDmaBufSize.toNat)) : (q.transfer m).ram a = m.ram a := by
  have hbuffer := h.hostBuffer
  rw [host] at hbuffer
  rw [transfer]
  have hdevice := h.deviceBuffer
  rw [device] at hdevice
  by_cases hdir : hasBit q.cmd 0x02 = true
  · rw [eduDmaCmdDirc, if_pos hdir] at hbuffer hdevice
    rw [if_pos hdir, if_pos hdevice]
    exact copyBytes_outside (by omega)
  · rw [eduDmaCmdDirc, if_neg hdir] at hdevice
    rw [if_neg hdir, if_pos hdevice]

end Dma

/-- Call `c` has written a register of the DMA engine. -/
def Wrote (s₀ : Sys) (acts : List Act) (c : ℕ) : Prop :=
  ∃ pre fault post call, acts = pre ++ .access c fault :: post ∧
    (run step s₀ pre).calls c = some call ∧ call.pc.writes = true

/-- **A call is confined**: if it is refused, it has written no register of the engine; and
whatever it has started, wholly or in part with what others have written, stays inside the
two buffers. -/
structure Confined (bus : ℕ) (s₀ : Sys) (acts : List Act) (c : ℕ) (call : Call) : Prop where
  refused : ∀ ret out, call.pc = .returned ret out → ret < 0 → ret ≠ -erestartsys →
    ¬Wrote s₀ acts c
  started : ∀ t ∈ (run step s₀ acts).started c, t.Inside bus

/-! ### What is passed -/

/-- Every request whose arguments can be read is one of these. -/
def Act.Asks (R : Request → Prop) : Act → Prop
  | .call _ req false => R req
  | _ => True

/-- The four registers of a request among these whose length is accepted. -/
def Passed (R : Request → Prop) (q : Dma) : Prop := ∃ req, R req ∧ enter false req = .dmaSrc q

/-- **A mixture of what is passed**: of the length of one request, the addresses of two more
and the command of a fourth. They may all be the same. -/
def Mixture (R : Request → Prop) (t : Dma) : Prop :=
  ∃ q₁ q₂ q₃ q₄, Passed R q₁ ∧ Passed R q₂ ∧ Passed R q₃ ∧ Passed R q₄ ∧
    t = ⟨q₁.len, q₂.src, q₃.dst, q₄.cmd⟩

/-- The source register holds what some request has passed. -/
def Device.SrcPassed (R : Request → Prop) (d : Device) : Prop :=
  ∃ q, Passed R q ∧ d.dmaSrc = q.src

/-- The destination register does. -/
def Device.DstPassed (R : Request → Prop) (d : Device) : Prop :=
  ∃ q, Passed R q ∧ d.dmaDst = q.dst

/-- The length register does. -/
def Device.LenPassed (R : Request → Prop) (d : Device) : Prop :=
  ∃ q, Passed R q ∧ d.dmaSize = q.len

/-- **What a call has passed was accepted**, and so was what the registers hold that it has
written, whoever has written them since. -/
def Pc.Mixed (R : Request → Prop) (d : Device) : Pc → Prop
  | .dmaSrc q => Passed R q
  | .dmaDst q => Passed R q ∧ d.SrcPassed R
  | .dmaSize q => Passed R q ∧ d.SrcPassed R ∧ d.DstPassed R
  | .dmaCmd q => Passed R q ∧ d.SrcPassed R ∧ d.DstPassed R ∧ d.LenPassed R
  | _ => True

/-- From one device to the next, what has been passed stays so. -/
structure Device.Keeps (R : Request → Prop) (d d' : Device) : Prop where
  src : d.SrcPassed R → d'.SrcPassed R
  dst : d.DstPassed R → d'.DstPassed R
  len : d.LenPassed R → d'.LenPassed R

section Mixed

variable {R : Request → Prop} {d d' : Device} {pc pc' : Pc} {fault : Bool}

theorem Mixture.regs (h : Mixture R d.regs) : d.SrcPassed R ∧ d.DstPassed R ∧ d.LenPassed R := by
  obtain ⟨q₁, q₂, q₃, q₄, h₁, h₂, h₃, -, hregs⟩ := h
  exact ⟨⟨q₂, h₂, congrArg Dma.src hregs⟩, ⟨q₃, h₃, congrArg Dma.dst hregs⟩,
    ⟨q₁, h₁, congrArg Dma.len hregs⟩⟩

theorem Device.Keeps.of_regs (hsrc : d'.dmaSrc = d.dmaSrc) (hdst : d'.dmaDst = d.dmaDst)
    (hsize : d'.dmaSize = d.dmaSize) : d.Keeps R d' := by
  constructor
  · rw [Device.SrcPassed, Device.SrcPassed, hsrc]
    exact id
  · rw [Device.DstPassed, Device.DstPassed, hdst]
    exact id
  · rw [Device.LenPassed, Device.LenPassed, hsize]
    exact id

theorem Pc.Mixed.mono (h : pc.Mixed R d) (hd : d.Keeps R d') : pc.Mixed R d' := by
  cases pc with
  | dmaSrc => exact h
  | dmaDst => exact ⟨h.1, hd.src h.2⟩
  | dmaSize => exact ⟨h.1, hd.src h.2.1, hd.dst h.2.2⟩
  | dmaCmd => exact ⟨h.1, hd.src h.2.1, hd.dst h.2.2.1, hd.len h.2.2.2⟩
  | _ => trivial

/-- **A call writes what it has passed**, if the device takes it. -/
theorem Pc.Mixed.keeps (h : pc.Mixed R d) (fault : Bool) :
    d.Keeps R (Edu.access fault d pc).1 := by
  have hother : pc.writes = false → d.Keeps R (Edu.access fault d pc).1 := by
    intro hpc
    have hregs : (Edu.access fault d pc).1.regs = d.regs := regs_access_of_not_writes hpc
    exact .of_regs (congrArg Dma.src hregs) (congrArg Dma.dst hregs) (congrArg Dma.len hregs)
  cases pc with
  | dmaSrc q =>
    simp only [Edu.access, writel_dmaSrc]
    split
    · exact .of_regs rfl rfl rfl
    · exact ⟨fun _ => ⟨q, h, rfl⟩, id, id⟩
  | dmaDst q =>
    simp only [Edu.access, writel_dmaDist]
    split
    · exact .of_regs rfl rfl rfl
    · exact ⟨id, fun _ => ⟨q, h.1, rfl⟩, id⟩
  | dmaSize q =>
    simp only [Edu.access, writel_dmaSize]
    split
    · exact .of_regs rfl rfl rfl
    · exact ⟨id, id, fun _ => ⟨q, h.1, rfl⟩⟩
  | dmaCmd q =>
    simp only [Edu.access, writel_dmaCmd]
    split <;> exact .of_regs rfl rfl rfl
  | idRead | liveWrite | liveRead | openWrite | openRead | factWrite | factWait | factStatus
  | factRead | raise | dmaWait | returned => exact hother rfl

/-- **The next write of a call**: a device that is at work drops it, and holds what has been
passed in all three registers anyway. -/
theorem Pc.Mixed.access (h : pc.Mixed R d) (fault : Bool)
    (hb : d.busy = true → d.SrcPassed R ∧ d.DstPassed R ∧ d.LenPassed R) :
    (Edu.access fault d pc).2.Mixed R (Edu.access fault d pc).1 := by
  have hkeep := h.keeps fault
  cases pc with
  | dmaSrc q =>
    refine ⟨h, ?_⟩
    by_cases hbusy : d.busy = true
    · exact hkeep.src (hb hbusy).1
    · simp only [Edu.access, writel_dmaSrc, if_neg hbusy]
      exact ⟨q, h, rfl⟩
  | dmaDst q =>
    refine ⟨h.1, hkeep.src h.2, ?_⟩
    by_cases hbusy : d.busy = true
    · exact hkeep.dst (hb hbusy).2.1
    · simp only [Edu.access, writel_dmaDist, if_neg hbusy]
      exact ⟨q, h.1, rfl⟩
  | dmaSize q =>
    refine ⟨h.1, hkeep.src h.2.1, hkeep.dst h.2.2, ?_⟩
    by_cases hbusy : d.busy = true
    · exact hkeep.len (hb hbusy).2.2
    · simp only [Edu.access, writel_dmaSize, if_neg hbusy]
      exact ⟨q, h.1, rfl⟩
  | factWait t =>
    rw [access_factWait]
    cases t.advance (!d.computing) <;> trivial
  | dmaWait t =>
    rw [access_dmaWait]
    cases t.advance (!d.busy) <;> trivial
  | idRead | liveRead | factRead => cases fault <;> trivial
  | openRead =>
    simp only [Edu.access]
    split <;> trivial
  | dmaCmd | liveWrite | openWrite | factWrite | factStatus | raise | returned => trivial

theorem Disturbed.mixed (hd : Disturbed pc pc') (h : pc.Mixed R d) : pc'.Mixed R d := by
  cases hd with
  | same => exact h
  | factWait | dmaWait | interrupted => trivial

/-- A call passes what it is asked for, if its arguments can be read. -/
theorem mixed_enter {req : Request} (h : fault = false → R req) : (enter fault req).Mixed R d := by
  cases hpc : enter fault req with
  | dmaSrc q =>
    cases fault with
    | false => exact ⟨req, h rfl, hpc⟩
    | true => cases req <;> exact absurd hpc (by simp [enter])
  | dmaDst | dmaSize | dmaCmd =>
    have hbegun := not_begun_enter fault req
    rw [hpc] at hbegun
    exact absurd hbegun (by simp [Pc.begun])
  | _ => trivial

end Mixed

/-! ### Every run -/

/-- **The transfers are mixtures of what is passed.** -/
structure Sys.Mixed (R : Request → Prop) (s : Sys) : Prop where
  calls : ∀ c call, s.calls c = some call → call.pc.Mixed R s.dev
  started : ∀ c, ∀ t ∈ s.started c, Mixture R t
  attributed : Attributed s

section Run

variable {R : Request → Prop} {s s' : Sys} {a : Act}

/-- The transfer under way is one of them. -/
theorem Sys.Mixed.busy (h : s.Mixed R) (hb : s.dev.busy = true) :
    s.dev.SrcPassed R ∧ s.dev.DstPassed R ∧ s.dev.LenPassed R := by
  obtain ⟨c, hc⟩ := h.attributed.starter hb
  have hrun : s.running c := ⟨hb, hc⟩
  exact Mixture.regs (h.started c s.dev.regs (by simp [Sys.started, hrun]))

theorem Sys.Mixed.keeps (h : s.Mixed R) (hs : Step s a s') : s.dev.Keeps R s'.dev := by
  cases hs with
  | stutter | call | signal | irq | wakeFact | wakeDma | ack => exact .of_regs rfl rfl rfl
  | factDone hd | dmaDone hd =>
    simp only [Device.factDone, Device.dmaDone]
    split <;> exact .of_regs rfl rfl rfl
  | @access c call fault hc => exact (h.calls c call hc).keeps fault

theorem Sys.Mixed.step (h : s.Mixed R) (hs : Step s a s') (ha : a.Asks R) : s'.Mixed R where
  calls c call' hc' := by
    cases hs.came hc' with
    | entered fault hc hpc hact =>
      subst hact
      rw [hpc]
      refine mixed_enter fun hfault => ?_
      subst hfault
      exact ha
    | @accessed call fault hc hreq hact hpc =>
      have hstep : (stepCall s c call fault).dev = s'.dev := by
        subst hact
        cases hs with
        | stutter hnone => exact absurd (hc.symm.trans (hnone c fault rfl)) (by simp)
        | access hc₁ =>
          obtain rfl := Option.some.inj (hc.symm.trans hc₁)
          rfl
      rw [hpc, ← hstep]
      exact (h.calls c call hc).access fault h.busy
    | disturbed hc hreq hne hpc => exact hpc.mixed ((h.calls c _ hc).mono (h.keeps hs))
  started c t ht := by
    rcases hs.started c with ⟨hst, -⟩ | ⟨fault, call, q, -, hc, hpc, -, hst⟩
    · rw [hst] at ht
      exact h.started c t ht
    · rw [hst] at ht
      rcases List.mem_append.mp ht with ht | ht
      · exact h.started c t ht
      · -- the last write: the command is the call's own, the rest is as it finds it
        obtain rfl := List.mem_singleton.mp ht
        have hcall := h.calls c call hc
        rw [hpc] at hcall
        obtain ⟨hq, ⟨q₂, h₂, hsrc⟩, ⟨q₃, h₃, hdst⟩, q₁, h₁, hlen⟩ := hcall
        refine ⟨q₁, q₂, q₃, q, h₁, h₂, h₃, hq, ?_⟩
        rw [Device.launch, hsrc, hdst, hlen]
  attributed := hs.attributed h.attributed

theorem mixed_run {d : Device} (m : Memory) (hd : d.busy = false) {acts : List Act}
    (hacts : ∀ a ∈ acts, a.Asks R) : (run step (Sys.start d m) acts).Mixed R := by
  have hstep : ∀ (s : Sys) (a : Act), a.Asks R → s.Mixed R → (step s a).Mixed R :=
    fun s a ha h => h.step (step_cases s a) ha
  refine run_invariant_along step hstep acts (along_of_forall step hacts) ⟨?_, ?_, ?_⟩
  · intro c call hc
    exact absurd hc (by simp [Sys.start])
  · intro c t ht
    rw [Sys.started, if_neg fun hrun : (Sys.start d m).running c =>
      absurd (hd.symm.trans hrun.1) (by simp)] at ht
    exact absurd ht (by simp [Sys.performed, Sys.start])
  · exact attributed_run m hd []

end Run

/-! ### Calls that are refused -/

/-- The call has written, and is not refused any more. -/
def Pc.launched : Pc → Bool
  | .dmaWait _ => true
  | .returned ret _ => ret == 0 || ret == -erestartsys
  | pc => pc.begun

theorem launched_access {fault : Bool} {d : Device} {pc : Pc}
    (h : pc.writes = true ∨ pc.launched = true) : (access fault d pc).2.launched = true := by
  cases pc with
  | dmaSrc | dmaDst | dmaSize | dmaCmd => rfl
  | dmaWait t =>
    rw [access_dmaWait]
    cases t.advance (!d.busy) <;> rfl
  | returned => exact h.resolve_left (by simp [Pc.writes, Pc.begun])
  | _ => exact absurd h (by simp [Pc.writes, Pc.begun, Pc.launched])

theorem Disturbed.launched {pc pc' : Pc} (hd : Disturbed pc pc') (h : pc.launched = true) :
    pc'.launched = true := by
  cases hd with
  | same => exact h
  | factWait => exact absurd h (by simp [Pc.launched, Pc.begun])
  | dmaWait => rfl
  | interrupted => simp [Pc.launched]

/-- A call that has written, or does so now, has written afterwards. -/
theorem launched_step {s : Sys} {a : Act} {c : ℕ} {call : Call} (hc : s.calls c = some call)
    (h : call.pc.launched = true ∨ call.pc.writes = true ∧ ∃ fault, a = .access c fault) :
    ∃ call', (step s a).calls c = some call' ∧ call'.pc.launched = true := by
  have hs := step_cases s a
  obtain ⟨call', hc'⟩ := hs.calls_some hc
  refine ⟨call', hc', ?_⟩
  cases hs.came hc' with
  | entered fault hnone => exact absurd (hc.symm.trans hnone) (by simp)
  | accessed fault hc₁ hreq hact hpc =>
    obtain rfl := Option.some.inj (hc.symm.trans hc₁)
    rw [hpc]
    exact launched_access (h.elim .inr fun hw => .inl hw.1)
  | disturbed hc₁ hreq hne hpc =>
    obtain rfl := Option.some.inj (hc.symm.trans hc₁)
    rcases h with hl | ⟨-, fault, hact⟩
    · exact hpc.launched hl
    · exact absurd hact (hne fault)

theorem launched_of_wrote {s₀ : Sys} {acts : List Act} {c : ℕ} (h : Wrote s₀ acts c) :
    ∃ call, (run step s₀ acts).calls c = some call ∧ call.pc.launched = true := by
  obtain ⟨pre, fault, post, call, rfl, hc, hw⟩ := h
  have hstep : ∀ (s : Sys) (a : Act),
      (∃ call, s.calls c = some call ∧ call.pc.launched = true) →
      ∃ call, (step s a).calls c = some call ∧ call.pc.launched = true := by
    rintro s a ⟨call, hc, hl⟩
    exact launched_step hc (.inl hl)
  rw [run_append, run_cons]
  exact run_invariant step hstep post (launched_step hc (.inr ⟨hw, fault, rfl⟩))

/-! ### When the transfers are confined -/

/-- Four calls whose writes end up in one transfer: the length of the first, the source of the
second, the destination of the third and the command of the fourth. -/
def muddled (r₁ r₂ r₃ r₄ : Request) : List Act :=
  [.call 1 r₁ false, .call 2 r₂ false, .call 3 r₃ false, .call 4 r₄ false,
    .access 4 false, .access 4 false, .access 4 false, .access 1 false, .access 1 false,
    .access 1 false, .access 3 false, .access 3 false, .access 2 false, .access 4 false]

theorem run_muddled {d : Device} (m : Memory) (hd : d.busy = false) {r₁ r₂ r₃ r₄ : Request}
    {q₁ q₂ q₃ q₄ : Dma} (h₁ : enter false r₁ = .dmaSrc q₁) (h₂ : enter false r₂ = .dmaSrc q₂)
    (h₃ : enter false r₃ = .dmaSrc q₃) (h₄ : enter false r₄ = .dmaSrc q₄) :
    let s := run step (Sys.start d m) (muddled r₁ r₂ r₃ r₄)
    s.calls 4 = some ⟨r₄, .dmaWait .check⟩ ∧
      (⟨q₁.len, q₂.src, q₃.dst, q₄.cmd⟩ : Dma) ∈ s.started 4 := by
  have hcmd : hasBit q₄.cmd 0x01 = true := by
    have hat := Request.at_enter false r₄
    rw [h₄] at hat
    exact (Request.cmd_quad hat).1
  have hb : hasBit d.dmaCmd 0x01 = false := hd
  intro s
  have hs : s.calls 4 = some ⟨r₄, .dmaWait .check⟩ ∧ s.starter = some 4 ∧
      s.dev.regs = ⟨q₁.len, q₂.src, q₃.dst, q₄.cmd⟩ := by
    simp only [s, muddled, run_cons, run_nil, step, stepCall, Sys.start, Sys.setPc, h₁, h₂, h₃,
      h₄, access, writel_dmaSrc, writel_dmaDist, writel_dmaSize, writel_dmaCmd, Device.busy,
      Device.regs, Function.update_apply, hb, hcmd, Nat.reduceEqDiff, Bool.false_eq_true,
      if_false, if_true, and_false, and_self]
  obtain ⟨hcall, hstarter, hregs⟩ := hs
  have hrun : s.running 4 := by
    refine ⟨?_, hstarter⟩
    rw [Device.busy, show s.dev.dmaCmd = q₄.cmd from congrArg Dma.cmd hregs, hcmd]
  exact ⟨hcall, by simp [Sys.started, hrun, hregs]⟩

/-- **The transfers stay inside the two buffers exactly if all the mixtures of what is passed
do.** For every set of requests: in every run in which the arguments that can be read are those
of requests in the set, whoever makes them and however often, a call that is refused has
written nothing and what the others have started stays inside, if and only if every mixture of
those with an accepted length does. -/
theorem confined_exact (d : Device) (m : Memory) (hd : d.busy = false) (bus : ℕ)
    (R : Request → Prop) :
    (∀ acts : List Act, (∀ a ∈ acts, a.Asks R) → ∀ c call,
        (run step (Sys.start d m) acts).calls c = some call → call.req.quad.isSome = true →
          Confined bus (Sys.start d m) acts c call) ↔
      ∀ t, Mixture R t → t.Inside bus := by
  constructor
  · rintro h t ⟨q₁, q₂, q₃, q₄, ⟨r₁, hr₁, h₁⟩, ⟨r₂, hr₂, h₂⟩, ⟨r₃, hr₃, h₃⟩, ⟨r₄, hr₄, h₄⟩, rfl⟩
    obtain ⟨hcall, hmem⟩ := run_muddled m hd h₁ h₂ h₃ h₄
    have hasks : ∀ a ∈ muddled r₁ r₂ r₃ r₄, a.Asks R := by
      simp [muddled, Act.Asks, hr₁, hr₂, hr₃, hr₄]
    have hquad : r₄.quad = some q₄ := by
      have hat := Request.at_enter false r₄
      rwa [h₄] at hat
    exact (h _ hasks 4 _ hcall (by simp [hquad])).started _ hmem
  · intro h acts hacts c call hc hquad
    constructor
    · rintro ret out hpc hneg hne hwrote
      obtain ⟨call', hc', hl⟩ := launched_of_wrote hwrote
      obtain rfl := Option.some.inj (hc.symm.trans hc')
      rw [hpc] at hl
      rcases (by simpa [Pc.launched] using hl : ret = 0 ∨ ret = -erestartsys) with hzero | hsys
      · omega
      · exact hne hsys
    · exact fun t ht => h t ((mixed_run m hd hacts).started c t ht)

/-- Two requests that stay inside in any mixture; the host's buffer is at `0x10000000`. -/
def TwoInside (req : Request) : Prop :=
  req = .dmaToDevice 64 0x40000 0x10000000 ∨ req = .dmaToDevice 32 0x40100 0x10000100

theorem inside_of_twoInside {t : Dma} (ht : Mixture TwoInside t) : t.Inside 0x10000000 := by
  have hpassed : ∀ q, Passed TwoInside q →
      q = ⟨64, 0x40000, 0x10000000, 7⟩ ∨ q = ⟨32, 0x40100, 0x10000100, 7⟩ := by
    rintro q ⟨req, rfl | rfl, hq⟩
    · exact .inl (Pc.dmaSrc.inj hq).symm
    · exact .inr (Pc.dmaSrc.inj hq).symm
  obtain ⟨q₁, q₂, q₃, q₄, h₁, h₂, h₃, h₄, rfl⟩ := ht
  rcases hpassed q₁ h₁ with rfl | rfl <;> rcases hpassed q₂ h₂ with rfl | rfl <;>
    rcases hpassed q₃ h₃ with rfl | rfl <;> rcases hpassed q₄ h₄ with rfl | rfl <;>
    exact ⟨by decide, by decide, by decide, by decide⟩

/-- The transfer of four calls, two of each request, has the length of the one and the source of
the other: it stays inside. -/
theorem confined_two_inside :
    let acts := muddled (.dmaToDevice 64 0x40000 0x10000000) (.dmaToDevice 32 0x40100 0x10000100)
      (.dmaToDevice 64 0x40000 0x10000000) (.dmaToDevice 32 0x40100 0x10000100)
    (⟨64, 0x40100, 0x10000000, 7⟩ : Dma) ∈ (run step (Sys.start probed .zero) acts).started 4 ∧
      Confined 0x10000000 (Sys.start probed .zero) acts 4
        ⟨.dmaToDevice 32 0x40100 0x10000100, .dmaWait .check⟩ := by
  intro acts
  have hlong : enter false (.dmaToDevice 64 0x40000 0x10000000)
      = .dmaSrc ⟨64, 0x40000, 0x10000000, 7⟩ := rfl
  have hshort : enter false (.dmaToDevice 32 0x40100 0x10000100)
      = .dmaSrc ⟨32, 0x40100, 0x10000100, 7⟩ := rfl
  have hidle : probed.busy = false := by decide
  obtain ⟨hcall, hmem⟩ := run_muddled .zero hidle hlong hshort hlong hshort
  have hasks : ∀ a ∈ acts, a.Asks TwoInside := by
    simp [acts, muddled, Act.Asks, TwoInside]
  exact ⟨hmem, (confined_exact probed .zero hidle 0x10000000 TwoInside).mpr
    (fun _ => inside_of_twoInside) acts hasks 4 _ hcall rfl⟩

/-- Memory whose buffer is all sevens. -/
def Memory.sevens : Memory := ⟨fun _ => 0, fun _ => 7, fun _ ram buf => (ram, buf)⟩

/-- **A transfer to address 0 of the host.** The length is accepted, the transfer is made, and
four bytes of memory that is not the driver's are what the device had in its buffer. -/
theorem escapes :
    let s := run step (Sys.start probed .sevens)
      (transferred 0 (.dmaToDevice 4 0x40000 0))
    s.calls 0 = some ⟨.dmaToDevice 4 0x40000 0, .returned 0 none⟩ ∧ s.mem.ram 0 = 7 ∧
      ¬Confined 0x10000000 (Sys.start probed .sevens)
        (transferred 0 (.dmaToDevice 4 0x40000 0)) 0
        ⟨.dmaToDevice 4 0x40000 0, .returned 0 none⟩ := by
  refine ⟨by decide, by decide, fun h => ?_⟩
  have hmem : (⟨4, 0x40000, 0, 7⟩ : Dma) ∈ (run step (Sys.start probed .sevens)
      (transferred 0 (.dmaToDevice 4 0x40000 0))).started 0 := by decide
  exact absurd (h.started _ hmem).hostBuffer.1 (by decide)

end Edu

end KernelModules
