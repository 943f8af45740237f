import Mathlib.Algebra.Group.Nat.Defs
import KernelModules.Edu.Transfers

/-!
# The direction of a transfer

What `EDU_IOCTL_DMA_TO_DEVICE` and `EDU_IOCTL_DMA_FROM_DEVICE` do to the memory, for a
caller that has the device to itself. The call can be scheduled in any way with the
handler and the device – it may sleep, be woken, be woken for nothing –: if it returns
0, it has had the device perform the transfer of its four registers, once
(`KernelModules.Edu.Alone.mem`).

Bit `0x02` of the command is the direction, and the driver sets it the wrong way
round: `ioctl_dma_to_device` asks for the buffer to be moved to the host, with the host
address for a buffer address. A round trip through the buffer so brings the bytes back
exactly when there was nothing to move in the first place:
`KernelModules.Edu.round_trip_iff_in_place`.
-/

namespace KernelModules

namespace Edu

/-! ### A call that has the device to itself -/

/-- What can happen to a call that has the device to itself: its own accesses and
signals, and whatever the handler and the device do. -/
def Act.Of (c : ℕ) : Act → Prop
  | .call _ _ _ => False
  | .access c' _ => c' = c
  | .signal c' => c' = c
  | _ => True

/-- **A call made alone, that has returned 0.** -/
def Alone (s : Sys) (c : ℕ) (req : Request) (s' : Sys) : Prop :=
  ∃ acts : List Act, (∀ a ∈ acts, a.Of c) ∧ run step s (.call c req false :: acts) = s' ∧
    ∃ out, s'.calls c = some ⟨req, .returned 0 out⟩

/-- **How far a transfer has come**, told by where its call stands: `m` is the memory
before it. -/
def Phase (q : Dma) (m : Memory) (s : Sys) : Pc → Prop
  | .dmaSrc q' => q' = q ∧ s.dev.busy = false ∧ s.mem = m
  | .dmaDst q' => q' = q ∧ (Pc.dmaDst q).Ready s.dev ∧ s.mem = m
  | .dmaSize q' => q' = q ∧ (Pc.dmaSize q).Ready s.dev ∧ s.mem = m
  | .dmaCmd q' => q' = q ∧ (Pc.dmaCmd q).Ready s.dev ∧ s.mem = m
  | .dmaWait _ => (s.dev.busy = true ∧ s.dev.regs = q ∧ s.mem = m) ∨
      (s.dev.busy = false ∧ s.mem = q.transfer m)
  | .returned ret _ => ret = 0 → s.dev.busy = false ∧ s.mem = q.transfer m
  | _ => False

section Phase

variable {q : Dma} {m : Memory} {s s' : Sys} {pc pc' : Pc}

/-- What is not done by the call itself leaves the engine and the memory alone, or ends
the transfer under way. -/
theorem Step.mem {a : Act} (hs : Step s a s') (ha : ∀ c fault, a ≠ .access c fault) :
    (s'.dev.regs = s.dev.regs ∧ s'.mem = s.mem) ∨
      (s.dev.busy = true ∧ s'.dev.busy = false ∧ s'.mem = s.dev.regs.transfer s.mem) := by
  cases hs with
  | stutter | call | signal | irq | wakeFact | wakeDma | ack => exact Or.inl ⟨rfl, rfl⟩
  | access => exact absurd rfl (ha _ _)
  | factDone hd =>
    refine Or.inl ⟨?_, rfl⟩
    unfold Device.factDone
    split <;> rfl
  | dmaDone hd => exact Or.inr ⟨hd, s.dev.busy_dmaDone, rfl⟩

/-- The call's own access. -/
theorem Phase.access {c : ℕ} {req : Request} {fault : Bool} (h : Phase q m s pc)
    (hq : hasBit q.cmd 0x01 = true) :
    Phase q m (stepCall s c ⟨req, pc⟩ fault) (Edu.access fault s.dev pc).2 := by
  cases pc with
  | dmaSrc q₀ =>
    obtain ⟨rfl, hb, hm⟩ := h
    have hready : (Pc.dmaSrc q₀).Ready s.dev := trivial
    exact ⟨rfl, hready.access fault hb rfl, hm⟩
  | dmaDst q₀ =>
    obtain ⟨rfl, hready, hm⟩ := h
    exact ⟨rfl, hready.access fault hready.1 rfl, hm⟩
  | dmaSize q₀ =>
    obtain ⟨rfl, hready, hm⟩ := h
    exact ⟨rfl, hready.access fault hready.1 rfl, hm⟩
  | dmaCmd q₀ =>
    obtain ⟨rfl, ⟨hb, hsrc, hdst, hlen⟩, hm⟩ := h
    have hrun : (stepCall s c ⟨req, .dmaCmd q₀⟩ fault).running c := running_of_dmaCmd rfl hb hq
    refine Or.inl ⟨hrun.1, ?_, hm⟩
    simp [stepCall, Edu.access, hb, Device.regs, hsrc, hdst, hlen]
  | dmaWait t =>
    have hdev : (stepCall s c ⟨req, .dmaWait t⟩ fault).dev = s.dev := by
      simp [stepCall, access_dmaWait]
    rw [access_dmaWait]
    rcases ht : t.advance (!s.dev.busy) with - | t'
    · have hb : s.dev.busy = false := by simpa using Waiter.cond_of_advance_eq_none ht
      intro _
      rw [hdev]
      rcases h with ⟨hbusy, -⟩ | h
      · exact absurd (hbusy.symm.trans hb) (by simp)
      · exact h
    · simp only [Option.map_some, Option.getD_some, Phase, hdev]
      exact h
  | returned => exact h
  | _ => exact h.elim

theorem Phase.congr (h : Phase q m s pc) (hregs : s'.dev.regs = s.dev.regs)
    (hmem : s'.mem = s.mem) : Phase q m s' pc := by
  have hbusy : s'.dev.busy = s.dev.busy := congrArg (fun q : Dma => hasBit q.cmd 0x01) hregs
  cases pc with
  | dmaDst | dmaSize | dmaCmd => exact ⟨h.1, h.2.1.congr hregs, hmem.trans h.2.2⟩
  | dmaSrc | dmaWait | returned =>
    simp only [Phase, hbusy, hregs, hmem] at h ⊢
    exact h
  | _ => exact h.elim

/-- What the others do. -/
theorem Phase.disturbed {a : Act} (h : Phase q m s pc) (hs : Step s a s')
    (ha : ∀ c fault, a ≠ .access c fault) (hpc : Disturbed pc pc') : Phase q m s' pc' := by
  have hsame : Phase q m s' pc := by
    rcases hs.mem ha with ⟨hregs, hmem⟩ | ⟨hb, hb', hmem⟩
    · exact h.congr hregs hmem
    · -- a transfer ends: the call is waiting for it, or over without having had to
      have hidle : s.dev.busy ≠ false := by simp [hb]
      cases pc with
      | dmaSrc => exact absurd h.2.1 hidle
      | dmaDst | dmaSize | dmaCmd => exact absurd h.2.1.1 hidle
      | dmaWait =>
        rcases h with ⟨-, hregs, hm⟩ | ⟨hb₀, -⟩
        · refine Or.inr ⟨hb', ?_⟩
          rw [hmem, hregs, hm]
        · exact absurd hb₀ hidle
      | returned => exact fun hret => absurd (h hret).1 hidle
      | _ => exact h.elim
  cases hpc with
  | same | dmaWait => exact hsame
  | factWait => exact h.elim
  | interrupted => exact fun hret => absurd hret (by simp [erestartsys])

/-- **One step of a run of the call alone.** -/
theorem Phase.step {a : Act} {c : ℕ} {req : Request} (ha : a.Of c) (hq : hasBit q.cmd 0x01 = true)
    (h : ∃ pc, s.calls c = some ⟨req, pc⟩ ∧ Phase q m s pc) :
    ∃ pc, (Edu.step s a).calls c = some ⟨req, pc⟩ ∧ Phase q m (Edu.step s a) pc := by
  obtain ⟨pc, hc, hphase⟩ := h
  have hs := step_cases s a
  obtain ⟨⟨req', pc'⟩, hc', hreq⟩ := hs.req hc
  obtain rfl : req' = req := hreq
  refine ⟨pc', hc', ?_⟩
  cases hs.came hc' with
  | entered fault hnone => exact absurd (hc.symm.trans hnone) (by simp)
  | accessed fault hc₁ hreq₁ heq hpc =>
    obtain rfl := Option.some.inj (hc.symm.trans hc₁)
    subst heq
    obtain rfl : (Edu.access fault s.dev pc).2 = pc' := hpc.symm
    rw [Edu.step, hc]
    exact hphase.access hq
  | disturbed hc₁ hreq₁ hne hpc =>
    obtain rfl := Option.some.inj (hc.symm.trans hc₁)
    refine hphase.disturbed hs (fun c' fault heq => ?_) hpc
    subst heq
    obtain rfl : c' = c := ha
    exact hne fault rfl

end Phase

/-- **A call made alone has had its transfer performed**, if it has returned 0. -/
theorem Alone.mem {s s' : Sys} {c : ℕ} {req : Request} {q : Dma} (h : Alone s c req s')
    (hc : s.calls c = none) (hb : s.dev.busy = false) (hq : req.quad = some q)
    (henter : enter false req = .dmaSrc q) :
    s'.dev.busy = false ∧ s'.mem = q.transfer s.mem := by
  obtain ⟨acts, hacts, rfl, out, hret⟩ := h
  have hstart : ∃ pc, (step s (.call c req false)).calls c = some ⟨req, pc⟩ ∧
      Phase q s.mem (step s (.call c req false)) pc := by
    refine ⟨.dmaSrc q, ?_, ?_⟩ <;> simp only [step, hc]
    · rw [Function.update_self, henter]
    · exact ⟨rfl, hb, rfl⟩
  have hstep : ∀ (t : Sys) (a : Act), a.Of c →
      (∃ pc, t.calls c = some ⟨req, pc⟩ ∧ Phase q s.mem t pc) →
      ∃ pc, (step t a).calls c = some ⟨req, pc⟩ ∧ Phase q s.mem (step t a) pc :=
    fun t a ha hi => Phase.step ha (Request.cmd_quad hq).1 hi
  obtain ⟨pc, hpc, hphase⟩ :=
    run_invariant_along step hstep acts (along_of_forall step hacts) hstart
  obtain rfl : pc = .returned 0 out := by
    rw [run_cons, hpc] at hret
    simpa using hret
  exact hphase rfl

/-- A call made alone can return 0: it does when the transfer ends before it looks. -/
theorem alone_transferred {s : Sys} {c : ℕ} {req : Request} {q : Dma} (hc : s.calls c = none)
    (hb : s.dev.busy = false) (henter : enter false req = .dmaSrc q)
    (hq : hasBit q.cmd 0x01 = true) : Alone s c req (run step s (transferred c req)) := by
  refine ⟨(transferred c req).tail, ?_, rfl, none, ?_⟩
  · intro a ha
    simp only [transferred, List.tail_cons, List.mem_cons, List.not_mem_nil, or_false] at ha
    rcases ha with rfl | rfl | rfl | rfl | rfl | rfl
    all_goals first | rfl | trivial
  · have hb : hasBit s.dev.dmaCmd 0x01 = false := hb
    simp only [transferred, run_cons, run_nil, step, hc, stepCall, henter, access, writel_dmaSrc,
      writel_dmaDist, writel_dmaSize, writel_dmaCmd, Sys.setPc, Function.update_self, Device.busy,
      hb, hq, Bool.false_eq_true, if_false, if_true]
    simp only [startDma_eq, Device.busy_dmaDone, Bool.not_false, Waiter.advance, if_true]

/-! ### A round trip -/

/-- **The arguments of a round trip**, in range: `len` bytes from the host address `host`
to the buffer address `dev`, and back to the host address `back`. -/
structure Trip where
  /-- The length. -/
  len : BitVec 32
  /-- The host address the bytes come from. -/
  host : BitVec 32
  /-- The buffer address they go through. -/
  dev : BitVec 32
  /-- The host address they go back to. -/
  back : BitVec 32
  len_pos : 0 < len.toNat
  len_le : len.toNat ≤ eduBufferSize
  -- `edu_probe` restricts the host's addresses to `EDU_MASK` bits
  host_le : host.toNat + len.toNat ≤ 2 ^ 28
  back_le : back.toNat + len.toNat ≤ 2 ^ 28
  dev_in : InBuffer dev.toNat len.toNat

namespace Trip

variable (x : Trip)

/-- The first call. -/
def toDevice : Request := .dmaToDevice x.len x.host x.dev

/-- The second call. -/
def fromDevice : Request := .dmaFromDevice x.len x.dev x.back

/-- **What the first call is to do.** -/
def Uploads (m m' : Memory) : Prop :=
  (∀ i < x.len.toNat, m'.buf (x.dev.toNat + i) = m.ram (x.host.toNat + i)) ∧ m'.ram = m.ram

/-- **What the second call is to do**, `m` being the memory before the first. -/
def Downloads (m m' m'' : Memory) : Prop :=
  (∀ i < x.len.toNat, m''.ram (x.back.toNat + i) = m.ram (x.host.toNat + i)) ∧
  (∀ a, ¬(x.back.toNat ≤ a ∧ a < x.back.toNat + x.len.toNat) → m''.ram a = m'.ram a) ∧
  m''.buf = m'.buf

/-- The transfer of the first call, by its four registers. -/
def upload : Dma := ioctlDmaToDevice x.len x.host x.dev

/-- The transfer of the second call. -/
def download : Dma := ioctlDmaFromDevice x.len x.dev x.back

/-- **The first transfer finds in the host's memory what it puts there**: it goes from
the buffer to the host, with `host` for an address of the buffer. Where that is none,
the device leaves the host's memory alone. -/
def KeepsRam (m : Memory) : Prop :=
  if InBuffer x.host.toNat x.len.toNat then
    ∀ i < x.len.toNat, m.ram (x.dev.toNat + i) = m.buf (x.host.toNat + i)
  else (m.stray x.upload m.ram m.buf).1 = m.ram

/-- **The second transfer finds in the buffer what it puts there**: it goes from the host
to the buffer, with `back` for an address of the buffer. Where that is none, the device
leaves the buffer alone. -/
def KeepsBuf (m : Memory) : Prop :=
  if InBuffer x.back.toNat x.len.toNat then
    ∀ i < x.len.toNat, m.buf (x.back.toNat + i) = m.ram (x.dev.toNat + i)
  else (m.stray x.download m.ram m.buf).2 = m.buf

/-- **There is nothing to move**: the bytes are in the buffer, and where they go back to,
already, and what the two calls do move is where it goes to already, too. -/
structure InPlace (m : Memory) : Prop where
  sent : ∀ i < x.len.toNat, m.buf (x.dev.toNat + i) = m.ram (x.host.toNat + i)
  back : ∀ i < x.len.toNat, m.ram (x.back.toNat + i) = m.ram (x.host.toNat + i)
  keepsRam : x.KeepsRam m
  keepsBuf : x.KeepsBuf m

theorem dmaOperation_eq (cmd src dst : BitVec 32) :
    dmaOperation ⟨x.len, src, dst, cmd⟩ = .dmaSrc ⟨x.len, src, dst, cmd⟩ := by
  have hpos := x.len_pos
  have hle := x.len_le
  refine if_neg fun h => ?_
  rcases h with h | h
  · simp [show x.len = 0 from h] at hpos
  · have hlt : eduDmaBufSize.toNat < x.len.toNat := h
    have hsize : eduDmaBufSize.toNat = 4096 := by decide
    rw [eduBufferSize] at hle
    omega

/-- **What the first call does**: the buffer's bytes go to the host. -/
theorem transfer_upload (m : Memory) :
    x.upload.transfer m
      = if InBuffer x.host.toNat x.len.toNat then
          { m with ram := copyBytes m.ram m.buf x.dev.toNat x.host.toNat x.len.toNat }
        else m.astray x.upload := by
  have hdirc : hasBit (eduDmaCmdTransfer ||| eduDmaCmdDirc ||| eduDmaCmdRaiseIrq) 0x02 = true := by
    decide
  exact if_pos hdirc

/-- **What the second call does**: the host's bytes go to the buffer. -/
theorem transfer_download (m : Memory) :
    x.download.transfer m
      = if InBuffer x.back.toNat x.len.toNat then
          { m with buf := copyBytes m.buf m.ram x.back.toNat x.dev.toNat x.len.toNat }
        else m.astray x.download := by
  have hdirc : ¬hasBit (eduDmaCmdTransfer ||| eduDmaCmdRaiseIrq) 0x02 = true := by decide
  exact if_neg hdirc

/-- The first call changes no byte of the buffer. -/
theorem buf_upload {m : Memory} (hm : m.Directed) : (x.upload.transfer m).buf = m.buf := by
  have hdirc : hasBit x.upload.cmd 0x02 = true := by
    show hasBit (eduDmaCmdTransfer ||| eduDmaCmdDirc ||| eduDmaCmdRaiseIrq) 0x02 = true
    decide
  have hstray := hm x.upload m.ram m.buf
  rw [if_pos hdirc] at hstray
  rw [transfer_upload]
  split
  · rfl
  · exact hstray

/-- The second call changes no byte of the host's memory. -/
theorem ram_download {m : Memory} (hm : m.Directed) : (x.download.transfer m).ram = m.ram := by
  have hdirc : ¬hasBit x.download.cmd 0x02 = true := by
    show ¬hasBit (eduDmaCmdTransfer ||| eduDmaCmdRaiseIrq) 0x02 = true
    decide
  have hstray := hm x.download m.ram m.buf
  rw [if_neg hdirc] at hstray
  rw [transfer_download]
  split
  · rfl
  · exact hstray

theorem ram_upload_iff (m : Memory) : (x.upload.transfer m).ram = m.ram ↔ x.KeepsRam m := by
  rw [transfer_upload, KeepsRam]
  split
  · exact copyBytes_eq_self_iff
  · exact Iff.rfl

theorem buf_download_iff (m : Memory) : (x.download.transfer m).buf = m.buf ↔ x.KeepsBuf m := by
  rw [transfer_download, KeepsBuf]
  split
  · exact copyBytes_eq_self_iff
  · exact Iff.rfl

/-- The first call leaves the memory alone if what it moves is there already. -/
theorem transfer_upload_eq_self {m : Memory} (hm : m.Directed) (h : x.KeepsRam m) :
    x.upload.transfer m = m := by
  have hram := (x.ram_upload_iff m).mpr h
  have hbuf := x.buf_upload hm
  have hstray : (x.upload.transfer m).stray = m.stray := by
    rw [transfer_upload]
    split <;> rfl
  calc x.upload.transfer m
      = ⟨(x.upload.transfer m).ram, (x.upload.transfer m).buf, (x.upload.transfer m).stray⟩ := rfl
    _ = m := by rw [hram, hbuf, hstray]

theorem uploads_iff {m : Memory} (hm : m.Directed) :
    x.Uploads m (x.upload.transfer m) ↔
      (∀ i < x.len.toNat, m.buf (x.dev.toNat + i) = m.ram (x.host.toNat + i)) ∧ x.KeepsRam m := by
  rw [Uploads, x.buf_upload hm, ram_upload_iff]

theorem downloads_iff (m : Memory) {m' : Memory} (hm' : m'.Directed) :
    x.Downloads m m' (x.download.transfer m') ↔
      (∀ i < x.len.toNat, m'.ram (x.back.toNat + i) = m.ram (x.host.toNat + i)) ∧
        x.KeepsBuf m' := by
  rw [Downloads, x.ram_download hm', buf_download_iff]
  simp only [implies_true, true_and]

end Trip

section RoundTrip

variable {s t s' t' : Sys} {c c' : ℕ} {x : Trip}

theorem Alone.toDevice (h : Alone s c x.toDevice s') (hc : s.calls c = none)
    (hb : s.dev.busy = false) : s'.mem = x.upload.transfer s.mem :=
  (h.mem hc hb rfl (x.dmaOperation_eq _ _ _)).2

theorem Alone.fromDevice (h : Alone s c x.fromDevice s') (hc : s.calls c = none)
    (hb : s.dev.busy = false) : s'.mem = x.download.transfer s.mem :=
  (h.mem hc hb rfl (x.dmaOperation_eq _ _ _)).2

/-- **A round trip brings the bytes back exactly when there is nothing to move.** Each of
the two calls, made alone on an idle device, can return 0; and whenever both have, the
second at any later time with the memory as the first has left it, they have done what
they are to do if and only if the memory was such that nothing had to be done. A stray
transfer may do anything that its direction bit allows. -/
theorem round_trip_iff_in_place (s t : Sys) (c c' : ℕ) (x : Trip) (hc : s.calls c = none)
    (hb : s.dev.busy = false) (hc' : t.calls c' = none) (hb' : t.dev.busy = false)
    (hm : s.mem.Directed) :
    (∃ s', Alone s c x.toDevice s') ∧ (∃ t', Alone t c' x.fromDevice t') ∧
    ∀ s' t', Alone s c x.toDevice s' → Alone t c' x.fromDevice t' → t.mem = s'.mem →
      (x.Uploads s.mem s'.mem ∧ x.Downloads s.mem s'.mem t'.mem ↔ x.InPlace s.mem) := by
  refine ⟨⟨_, alone_transferred hc hb (x.dmaOperation_eq _ _ _) ?_⟩,
    ⟨_, alone_transferred hc' hb' (x.dmaOperation_eq _ _ _) ?_⟩, fun s' t' hs ht hmem => ?_⟩
  · exact (Request.cmd_quad (show x.toDevice.quad = some _ from rfl)).1
  · exact (Request.cmd_quad (show x.fromDevice.quad = some _ from rfl)).1
  · have ht' := ht.fromDevice hc' hb'
    rw [hmem] at ht'
    rw [ht', hs.toDevice hc hb, x.uploads_iff hm]
    constructor
    · rintro ⟨⟨hsent, hkept⟩, hdown⟩
      rw [x.transfer_upload_eq_self hm hkept, x.downloads_iff s.mem hm] at hdown
      exact ⟨hsent, hdown.1, hkept, hdown.2⟩
    · rintro ⟨hsent, hback, hkept, hbuf⟩
      rw [x.transfer_upload_eq_self hm hkept, x.downloads_iff s.mem hm]
      exact ⟨⟨hsent, hkept⟩, hback, hbuf⟩

/-- One word, through the beginning of the buffer; the host's addresses are such that the
device finds them in its buffer too. -/
def oneWord : Trip where
  len := 4
  host := 0x40100
  dev := 0x40000
  back := 0x40200
  len_pos := by decide
  len_le := by decide
  host_le := by decide
  back_le := by decide
  dev_in := by decide

/-- The state after the first call of a round trip of `oneWord`. -/
def halfWay (m : Memory) : Sys := run step (Sys.start probed m) (transferred 0 oneWord.toDevice)

/-- The state after the second. -/
def allTheWay (m : Memory) : Sys := run step (halfWay m) (transferred 1 oneWord.fromDevice)

/-- Memory that holds the same four bytes over and over, on both sides. -/
def Memory.rows : Memory :=
  ⟨fun a => .ofNat (a % 4 + 1), fun a => .ofNat (a % 4 + 1), fun _ ram buf => (ram, buf)⟩

/-- Memory that holds a one at `0x40100`. -/
def Memory.one : Memory :=
  ⟨fun a => if a = 0x40100 then 1 else 0, fun _ => 0, fun _ ram buf => (ram, buf)⟩

/-- The word 1, 2, 3, 4 comes back where it is everywhere already; a word that is only where
it is to be fetched does not. -/
theorem round_trip_of_rows :
    (oneWord.Uploads .rows (halfWay .rows).mem ∧
      oneWord.Downloads .rows (halfWay .rows).mem (allTheWay .rows).mem) ∧
    ¬(oneWord.Uploads .one (halfWay .one).mem ∧
      oneWord.Downloads .one (halfWay .one).mem (allTheWay .one).mem) := by
  constructor
  · have h := (round_trip_iff_in_place (Sys.start probed .rows) (halfWay .rows) 0 1 oneWord rfl
      (by decide) (by decide) (by decide) (fun q ram buf => by split <;> rfl)).2.2 (halfWay .rows)
      (allTheWay .rows)
    refine (h ?_ ?_ rfl).mpr ⟨?_, ?_, ?_, ?_⟩
    · exact alone_transferred rfl (by decide) (oneWord.dmaOperation_eq _ _ _) (by decide)
    · exact alone_transferred (by decide) (by decide) (oneWord.dmaOperation_eq _ _ _) (by decide)
    · decide
    · decide
    · rw [Trip.KeepsRam, if_pos (by decide)]
      decide
    · rw [Trip.KeepsBuf, if_pos (by decide)]
      decide
  · have h := (round_trip_iff_in_place (Sys.start probed .one) (halfWay .one) 0 1 oneWord rfl
      (by decide) (by decide) (by decide) (fun q ram buf => by split <;> rfl)).2.2 (halfWay .one)
      (allTheWay .one)
    refine fun hdone => absurd ((h ?_ ?_ rfl).mp hdone).sent (by decide)
    · exact alone_transferred rfl (by decide) (oneWord.dmaOperation_eq _ _ _) (by decide)
    · exact alone_transferred (by decide) (by decide) (oneWord.dmaOperation_eq _ _ _) (by decide)

/-- **An upload that uploads nothing**: the one is not in the buffer afterwards. -/
theorem upload_moves_nothing :
    ∃ s', Alone (Sys.start probed .one) 0 oneWord.toDevice s' ∧
      ¬oneWord.Uploads Memory.one s'.mem := by
  refine ⟨_, alone_transferred rfl (by decide) (oneWord.dmaOperation_eq _ _ _) (by decide), ?_⟩
  rintro ⟨hsent, -⟩
  exact absurd (hsent 0 (by decide)) (by decide)

end RoundTrip

end Edu

end KernelModules
