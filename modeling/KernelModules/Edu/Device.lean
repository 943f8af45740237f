import Mathlib.Data.Nat.Factorial.Basic

/-!
# The EDU device

The PCI device `pci_device/edu_pci_driver.c` drives, as the repository's
`pci_device/README.md` and the specification it cites describe it: a set of 32-bit
registers that answer to reads and writes at fixed offsets, a unit that computes
factorials, a DMA engine with a 4 KB buffer of its own, and an interrupt status
that is raised and acknowledged bit by bit.

A `readl` or a `writel` of the driver is one access
(`KernelModules.Edu.readl`, `KernelModules.Edu.writel`). The device moves on its own
twice: when a factorial is ready (`KernelModules.Edu.Device.factDone`) and when a
transfer is over (`KernelModules.Edu.Device.dmaDone`). While a computation or a
transfer is under way, writes to its registers are ignored.
-/

namespace KernelModules

namespace Edu

/-! ### Bits of a register -/

/-- A C test `v & mask`. -/
def hasBit (v mask : BitVec 32) : Bool := v &&& mask != 0

/-- A test of one bit, by its rank. -/
theorem hasBit_twoPow (v : BitVec 32) {i : ℕ} (hi : i < 32) :
    hasBit v (BitVec.twoPow 32 i) = v.getLsbD i := by
  have hne : BitVec.twoPow 32 i ≠ 0 := by
    intro h
    have := congrArg (fun x => BitVec.getLsbD x i) h
    simp [hi] at this
  rw [hasBit, BitVec.and_twoPow]
  cases v.getLsbD i with
  | true => simpa using hne
  | false => simp

@[simp] theorem hasBit_01 (v : BitVec 32) : hasBit v 0x01 = v.getLsbD 0 :=
  hasBit_twoPow v (i := 0) (by decide)

@[simp] theorem hasBit_80 (v : BitVec 32) : hasBit v 0x80 = v.getLsbD 7 :=
  hasBit_twoPow v (i := 7) (by decide)

@[simp] theorem hasBit_100 (v : BitVec 32) : hasBit v 0x100 = v.getLsbD 8 :=
  hasBit_twoPow v (i := 8) (by decide)

/-! ### The registers -/

/-- A transfer of the DMA engine, and the arguments of `dma_operation`. -/
structure Dma where
  /-- The length. -/
  len : BitVec 32
  /-- The source address. -/
  src : BitVec 32
  /-- The destination address. -/
  dst : BitVec 32
  /-- The command. -/
  cmd : BitVec 32
deriving DecidableEq

/-- The registers of the device. -/
structure Device where
  /-- `0x00`: the identification. -/
  ident : BitVec 32
  /-- `0x04`: the inverse of the last value written there. -/
  live : BitVec 32
  /-- `0x08`: the number given, then its factorial. -/
  fact : BitVec 32
  /-- `0x20`: bit `0x01` while computing, bit `0x80` to ask for an interrupt. -/
  status : BitVec 32
  /-- `0x24`: the interrupt status. -/
  intr : BitVec 32
  /-- `0x80`: the source of a transfer. -/
  dmaSrc : BitVec 32
  /-- `0x88`: its destination. -/
  dmaDst : BitVec 32
  /-- `0x90`: its length. -/
  dmaSize : BitVec 32
  /-- `0x98`: its command, whose bit `0x01` is set while it is under way. -/
  dmaCmd : BitVec 32
deriving DecidableEq

namespace Device

/-- The device after a reset. -/
def reset : Device := ⟨0x010000ed, 0, 0, 0, 0, 0, 0, 0, 0⟩

/-- A factorial is being computed. -/
def computing (d : Device) : Bool := hasBit d.status 0x01

/-- A transfer is under way. -/
def busy (d : Device) : Bool := hasBit d.dmaCmd 0x01

/-- The transfer the registers describe. -/
def regs (d : Device) : Dma := ⟨d.dmaSize, d.dmaSrc, d.dmaDst, d.dmaCmd⟩

/-- **The factorial is ready**: it replaces the number given, modulo `2^32`, and
the interrupt is raised if it is asked for at that moment. Its bit in the interrupt
status is the one the driver's handler tests for. -/
def factDone (d : Device) : Device :=
  if d.computing then
    { d with
      fact := BitVec.ofNat 32 d.fact.toNat.factorial
      status := d.status &&& ~~~0x01
      intr := if hasBit d.status 0x80 then d.intr ||| 0x80 else d.intr }
  else d

/-- **The transfer is over**: its bit is cleared and the interrupt raised if the
command asked for it. -/
def dmaDone (d : Device) : Device :=
  if d.busy then
    { d with
      dmaCmd := d.dmaCmd &&& ~~~0x01
      intr := if hasBit d.dmaCmd 0x04 then d.intr ||| 0x100 else d.intr }
  else d

/-- A computation that ends is over. -/
@[simp] theorem computing_factDone (d : Device) : d.factDone.computing = false := by
  unfold factDone
  split
  · rw [computing, hasBit_01]
    simp
  · simpa using ‹¬d.computing = true›

/-- A transfer that ends is over. -/
@[simp] theorem busy_dmaDone (d : Device) : d.dmaDone.busy = false := by
  unfold dmaDone
  split
  · rw [busy, hasBit_01]
    simp
  · simpa using ‹¬d.busy = true›

/-- A completion is none for the other queue. -/
@[simp] theorem busy_factDone (d : Device) : d.factDone.busy = d.busy := by
  unfold factDone
  split <;> rfl

@[simp] theorem computing_dmaDone (d : Device) : d.dmaDone.computing = d.computing := by
  unfold dmaDone
  split <;> rfl

/-- A completion clears no interrupt. -/
theorem intr_factDone {d : Device} {i : ℕ} (h : d.intr.getLsbD i = true) :
    d.factDone.intr.getLsbD i = true := by
  unfold factDone
  repeat' split
  all_goals simp [h]

theorem intr_dmaDone {d : Device} {i : ℕ} (h : d.intr.getLsbD i = true) :
    d.dmaDone.intr.getLsbD i = true := by
  unfold dmaDone
  repeat' split
  all_goals simp [h]

/-- **The bit of a computation that ends** is set if it was, or if it was asked for. -/
theorem getLsbD_intr_factDone {d : Device} (h : d.computing = true) :
    d.factDone.intr.getLsbD 7 = true ↔ hasBit d.status 0x80 = true ∨ d.intr.getLsbD 7 = true := by
  rw [factDone, if_pos h]
  by_cases hs : hasBit d.status 0x80 = true
  · rw [if_pos hs]
    simpa using Or.inl hs
  · rw [if_neg hs]
    exact ⟨Or.inr, fun h => h.resolve_left hs⟩

/-- **The bit of a transfer that ends** is set if it was, or if it was asked for. -/
theorem getLsbD_intr_dmaDone {d : Device} (h : d.busy = true) :
    d.dmaDone.intr.getLsbD 8 = true ↔ hasBit d.dmaCmd 0x04 = true ∨ d.intr.getLsbD 8 = true := by
  rw [dmaDone, if_pos h]
  by_cases hs : hasBit d.dmaCmd 0x04 = true
  · rw [if_pos hs]
    simpa using Or.inl hs
  · rw [if_neg hs]
    exact ⟨Or.inr, fun h => h.resolve_left hs⟩

end Device

/-- `readl`, at an offset of the mapped region. -/
def readl (addr : ℕ) (d : Device) : BitVec 32 :=
  match addr with
  | 0x00 => d.ident
  | 0x04 => d.live
  | 0x08 => d.fact
  | 0x20 => d.status
  | 0x24 => d.intr
  | 0x80 => d.dmaSrc
  | 0x88 => d.dmaDst
  | 0x90 => d.dmaSize
  | 0x98 => d.dmaCmd
  | _ => 0

/-- `writel`, at an offset of the mapped region. -/
def writel (val : BitVec 32) (addr : ℕ) (d : Device) : Device :=
  match addr with
  | 0x04 => { d with live := ~~~val }
  | 0x08 => if d.computing then d else { d with fact := val, status := d.status ||| 0x01 }
  -- only the request for an interrupt is writable
  | 0x20 =>
    if hasBit val 0x80 then { d with status := d.status ||| 0x80 }
    else { d with status := d.status &&& ~~~0x80 }
  | 0x60 => { d with intr := d.intr ||| val }
  | 0x64 => { d with intr := d.intr &&& ~~~val }
  | 0x80 => if d.busy then d else { d with dmaSrc := val }
  | 0x88 => if d.busy then d else { d with dmaDst := val }
  | 0x90 => if d.busy then d else { d with dmaSize := val }
  | 0x98 => if d.busy then d else { d with dmaCmd := val }
  | _ => d

/-! ### The memory the DMA engine moves -/

/-- The bytes a transfer can touch: the host's, and those of the device's buffer,
both by bus address. Nothing says what the device makes of a transfer whose own end
does not lie in its buffer, so that is left open. -/
structure Memory where
  /-- The host's memory. -/
  ram : ℕ → UInt8
  /-- The device's buffer. -/
  buf : ℕ → UInt8
  /-- What becomes of the two with a transfer whose end on the device's side does not
  lie in the buffer. -/
  stray : Dma → (ℕ → UInt8) → (ℕ → UInt8) → (ℕ → UInt8) × (ℕ → UInt8)

namespace Memory

/-- Memory that holds nothing, of a device that drops a stray transfer. -/
def zero : Memory := ⟨fun _ => 0, fun _ => 0, fun _ ram buf => (ram, buf)⟩

/-- The memory after a stray transfer. -/
def astray (m : Memory) (q : Dma) : Memory :=
  { m with ram := (m.stray q m.ram m.buf).1, buf := (m.stray q m.ram m.buf).2 }

/-- **The direction bit is obeyed by a stray transfer too**: with it set, from the
device to the host, no byte of the buffer changes; with it clear, no byte of the
host's memory. -/
def Directed (m : Memory) : Prop :=
  ∀ q ram buf, if hasBit q.cmd 0x02 then (m.stray q ram buf).2 = buf
    else (m.stray q ram buf).1 = ram

end Memory

/-- `EDU_BUFFER_ADDR`: where the device's buffer begins. -/
def eduBufferAddr : ℕ := 0x40000

/-- `EDU_BUFFER_SIZE`: its length. -/
def eduBufferSize : ℕ := 4096

/-- A range of bus addresses lies in the device's buffer. -/
def InBuffer (addr len : ℕ) : Prop :=
  eduBufferAddr ≤ addr ∧ addr + len ≤ eduBufferAddr + eduBufferSize

instance (addr len : ℕ) : Decidable (InBuffer addr len) := inferInstanceAs (Decidable (_ ∧ _))

/-- `len` bytes copied from `src` on in one memory to `dst` on in another. -/
def copyBytes (into src : ℕ → UInt8) (dstAddr srcAddr len : ℕ) : ℕ → UInt8 := fun a =>
  if dstAddr ≤ a ∧ a < dstAddr + len then src (srcAddr + (a - dstAddr)) else into a

section CopyBytes

variable {into src : ℕ → UInt8} {dstAddr srcAddr len : ℕ}

theorem copyBytes_inside {i : ℕ} (hi : i < len) :
    copyBytes into src dstAddr srcAddr len (dstAddr + i) = src (srcAddr + i) := by
  have hin : dstAddr ≤ dstAddr + i ∧ dstAddr + i < dstAddr + len := by omega
  rw [copyBytes, if_pos hin, Nat.add_sub_cancel_left]

theorem copyBytes_outside {a : ℕ} (ha : ¬(dstAddr ≤ a ∧ a < dstAddr + len)) :
    copyBytes into src dstAddr srcAddr len a = into a := if_neg ha

/-- **A copy changes nothing exactly when the bytes are there already.** -/
theorem copyBytes_eq_self_iff :
    copyBytes into src dstAddr srcAddr len = into
      ↔ ∀ i < len, into (dstAddr + i) = src (srcAddr + i) := by
  constructor
  · intro h i hi
    exact (congrFun h (dstAddr + i)).symm.trans (copyBytes_inside hi)
  · intro h
    ext a
    by_cases ha : dstAddr ≤ a ∧ a < dstAddr + len
    · have hcopy := h (a - dstAddr) (by omega)
      rw [Nat.add_sub_cancel' ha.1] at hcopy
      rw [copyBytes, if_pos ha, hcopy]
    · rw [copyBytes_outside ha]

end CopyBytes

/-- **What a transfer does to the memory**: bit `0x02` of the command clear moves
the host's bytes to the device's buffer, set moves the buffer's bytes to the host. -/
def Dma.transfer (q : Dma) (m : Memory) : Memory :=
  if hasBit q.cmd 0x02 then
    if InBuffer q.src.toNat q.len.toNat then
      { m with ram := copyBytes m.ram m.buf q.dst.toNat q.src.toNat q.len.toNat }
    else m.astray q
  else
    if InBuffer q.dst.toNat q.len.toNat then
      { m with buf := copyBytes m.buf m.ram q.dst.toNat q.src.toNat q.len.toNat }
    else m.astray q

end Edu

end KernelModules
