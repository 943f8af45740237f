import Mathlib.Logic.Function.Basic
import KernelModules.Lib.Run
import KernelModules.Lib.Wakeup
import KernelModules.Edu.Device

/-!
# The EDU driver at work

`edu_open` and the `ioctl` calls of `pci_device/edu_pci_driver.c`, its interrupt
handler and the device, interleaved at the granularity of one register access. The
driver takes no lock, so any number of calls may be anywhere in their code at once.

A call is a request and a program counter (`KernelModules.Edu.Pc`), whose arguments
are the local variables still in use; `KernelModules.Edu.enter` is what a call does
before its first access and `KernelModules.Edu.access` is one access with the code
up to the next one. `wait_event_interruptible` is the machine of
`KernelModules.Lib.Wakeup`, each of its tests being one access.

The state keeps two things the driver does not: the transfers the device has
performed, each with the call whose write started it, and the call that started the
one under way.
-/

namespace KernelModules

namespace Edu

/-! ### The driver's constants -/

/-- `EDU_ADDR_ID`. -/
def eduAddrId : ℕ := 0x0
/-- `EDU_ADDR_INTR_STAT`. -/
def eduAddrIntrStat : ℕ := 0x24
/-- `EDU_ADDR_INTR_RAISE`. -/
def eduAddrIntrRaise : ℕ := 0x60
/-- `EDU_ADDR_INTR_ACK`. -/
def eduAddrIntrAck : ℕ := 0x64
/-- `EDU_ADDR_LIVE_CHECK`. -/
def eduAddrLiveCheck : ℕ := 0x4
/-- `EDU_ADDR_FACTORIAL`. -/
def eduAddrFactorial : ℕ := 0x8
/-- `EDU_ADDR_STAT_REG`. -/
def eduAddrStatReg : ℕ := 0x20
/-- `EDU_ADDR_DMA_SRC`. -/
def eduAddrDmaSrc : ℕ := 0x80
/-- `EDU_ADDR_DMA_DIST`. -/
def eduAddrDmaDist : ℕ := 0x88
/-- `EDU_ADDR_DMA_SIZE`. -/
def eduAddrDmaSize : ℕ := 0x90
/-- `EDU_ADDR_DMA_CMD`. -/
def eduAddrDmaCmd : ℕ := 0x98
/-- `EDU_COMPUTING_FACTORIAL`. -/
def eduComputingFactorial : BitVec 32 := 0x1
/-- `EDU_RAISE_IRQ_FACTORIAL`. -/
def eduRaiseIrqFactorial : BitVec 32 := 0x80
/-- `EDU_DMA_IRQ_FLAG`. -/
def eduDmaIrqFlag : BitVec 32 := 0x100
/-- `EDU_DMA_CMD_TRANSFER`. -/
def eduDmaCmdTransfer : BitVec 32 := 0x1
/-- `EDU_DMA_CMD_DIRC`. -/
def eduDmaCmdDirc : BitVec 32 := 0x2
/-- `EDU_DMA_CMD_RAISE_IRQ`. -/
def eduDmaCmdRaiseIrq : BitVec 32 := 0x4
/-- `EDU_DMA_BUF_SIZE`. -/
def eduDmaBufSize : BitVec 32 := 4096
/-- `EFAULT`. -/
def efault : ℤ := 14
/-- `EINVAL`. -/
def einval : ℤ := 22
/-- `ENOTTY`. -/
def enotty : ℤ := 25
/-- `ERESTARTSYS`. -/
def erestartsys : ℤ := 512

/-! ### Calls -/

/-- What a process asks of the driver. -/
inductive Request where
  /-- `open`. -/
  | eduOpen : Request
  /-- `EDU_IOCTL_ID`. -/
  | deviceId : Request
  /-- `EDU_IOCTL_LIVE_CHECK`, with the value found at the user's address. -/
  | liveCheck (val : BitVec 32) : Request
  /-- `EDU_IOCTL_FACTORIAL`, with the value found at the user's address. -/
  | factorial (val : BitVec 32) : Request
  /-- `EDU_IOCTL_RAISE_IRQ`. -/
  | raiseIrq (arg : BitVec 32) : Request
  /-- `EDU_IOCTL_DMA_TO_DEVICE`, with the three words found at the user's address. -/
  | dmaToDevice (len src dst : BitVec 32) : Request
  /-- `EDU_IOCTL_DMA_FROM_DEVICE`, with the three words found at the user's
  address. -/
  | dmaFromDevice (len src dst : BitVec 32) : Request
  /-- Any other command. -/
  | other : Request
deriving DecidableEq

/-- Where a call stands: the next access it makes, or the value it has returned,
with the word stored at the user's address. -/
inductive Pc where
  /-- The read of `ioctl_device_id`. -/
  | idRead : Pc
  /-- The write of `ioctl_live_check`. -/
  | liveWrite (val : BitVec 32) : Pc
  /-- The read of `ioctl_live_check`. -/
  | liveRead : Pc
  /-- The write of `edu_open`. -/
  | openWrite : Pc
  /-- The read of `edu_open`. -/
  | openRead : Pc
  /-- The write of the number in `ioctl_factorial`. -/
  | factWrite (val : BitVec 32) : Pc
  /-- The wait of `ioctl_factorial`. -/
  | factWait (t : Waiter) : Pc
  /-- The write of the status register in `ioctl_factorial`. -/
  | factStatus : Pc
  /-- The read of the result in `ioctl_factorial`. -/
  | factRead : Pc
  /-- The write of `ioctl_raise_irq`. -/
  | raise (arg : BitVec 32) : Pc
  /-- The write of the source in `dma_operation`. -/
  | dmaSrc (q : Dma) : Pc
  /-- The write of the destination. -/
  | dmaDst (q : Dma) : Pc
  /-- The write of the length. -/
  | dmaSize (q : Dma) : Pc
  /-- The write of the command. -/
  | dmaCmd (q : Dma) : Pc
  /-- The wait of `dma_operation`. -/
  | dmaWait (t : Waiter) : Pc
  /-- The call is over. -/
  | returned (ret : ℤ) (out : Option (BitVec 32)) : Pc
deriving DecidableEq

/-- A call: what was asked, and where it stands. -/
structure Call where
  /-- The request. -/
  req : Request
  /-- The program counter. -/
  pc : Pc
deriving DecidableEq

/-- `is_computing_factorial`. -/
def isComputingFactorial (d : Device) : Bool :=
  hasBit (readl eduAddrStatReg d) eduComputingFactorial

/-- `start_dma`. -/
def startDma (d : Device) : Bool := hasBit (readl eduAddrDmaCmd d) eduDmaCmdTransfer

/-- `dma_operation`, up to its first access. -/
def dmaOperation (q : Dma) : Pc :=
  if q.len = 0 ∨ eduDmaBufSize < q.len then .returned (-einval) none else .dmaSrc q

/-- `ioctl_dma_to_device`, the arguments copied: the transfer it asks for. -/
def ioctlDmaToDevice (len src dst : BitVec 32) : Dma :=
  ⟨len, src, dst, eduDmaCmdTransfer ||| eduDmaCmdDirc ||| eduDmaCmdRaiseIrq⟩

/-- `ioctl_dma_from_device`, the arguments copied: the transfer it asks for. -/
def ioctlDmaFromDevice (len src dst : BitVec 32) : Dma :=
  ⟨len, src, dst, eduDmaCmdTransfer ||| eduDmaCmdRaiseIrq⟩

/-- The transfer a request asks for. -/
def Request.quad : Request → Option Dma
  | .dmaToDevice len src dst => some (ioctlDmaToDevice len src dst)
  | .dmaFromDevice len src dst => some (ioctlDmaFromDevice len src dst)
  | _ => none

/-- **A call enters the driver**: `edu_open`, or the dispatch of `edu_ioctl` with
the copy of the arguments, which may fault. -/
def enter (fault : Bool) : Request → Pc
  | .eduOpen => .openWrite
  | .deviceId => .idRead
  | .liveCheck val => if fault then .returned (-efault) none else .liveWrite val
  | .factorial val => if fault then .returned (-efault) none else .factWrite val
  | .raiseIrq arg => .raise arg
  | .dmaToDevice len src dst =>
    if fault then .returned (-efault) none else dmaOperation (ioctlDmaToDevice len src dst)
  | .dmaFromDevice len src dst =>
    if fault then .returned (-efault) none else dmaOperation (ioctlDmaFromDevice len src dst)
  | .other => .returned (-enotty) none

/-- `return put_user(val, arg)`. -/
def putUser (fault : Bool) (val : BitVec 32) : Pc :=
  if fault then .returned (-efault) none else .returned 0 (some val)

/-- The random value of `edu_open`. -/
def openVal : BitVec 32 := 17

/-- **One access of a call**, with the code up to the next one. `fault` is the
outcome of the `put_user` that may follow. -/
def access (fault : Bool) (d : Device) : Pc → Device × Pc
  | .idRead => (d, putUser fault (readl eduAddrId d))
  | .liveWrite val => (writel val eduAddrLiveCheck d, .liveRead)
  | .liveRead => (d, putUser fault (readl eduAddrLiveCheck d))
  | .openWrite => (writel openVal eduAddrLiveCheck d, .openRead)
  | .openRead =>
    (d, if ~~~openVal ≠ readl eduAddrLiveCheck d then .returned 1 none else .returned 0 none)
  | .factWrite val => (writel val eduAddrFactorial d, .factWait .check)
  | .factWait t =>
    match t.advance (!isComputingFactorial d) with
    | some t' => (d, .factWait t')
    | none => (d, .factStatus)
  | .factStatus => (writel eduRaiseIrqFactorial eduAddrStatReg d, .factRead)
  | .factRead => (d, putUser fault (readl eduAddrFactorial d))
  | .raise arg => (writel arg eduAddrIntrRaise d, .returned 0 none)
  | .dmaSrc q => (writel q.src eduAddrDmaSrc d, .dmaDst q)
  | .dmaDst q => (writel q.dst eduAddrDmaDist d, .dmaSize q)
  | .dmaSize q => (writel q.len eduAddrDmaSize d, .dmaCmd q)
  | .dmaCmd q => (writel q.cmd eduAddrDmaCmd d, .dmaWait .check)
  | .dmaWait t =>
    match t.advance (!startDma d) with
    | some t' => (d, .dmaWait t')
    | none => (d, .returned 0 none)
  | .returned ret out => (d, .returned ret out)

/-- **A signal reaches a call.** One that sleeps, or is about to, goes round its
loop; one that is about to test its condition, and finds it false, returns. -/
def interrupted (d : Device) : Pc → Pc
  | .factWait .commit => .factWait .prepare
  | .factWait .asleep => .factWait .prepare
  | .factWait .test =>
    if isComputingFactorial d then .returned (-erestartsys) none else .factWait .test
  | .dmaWait .commit => .dmaWait .prepare
  | .dmaWait .asleep => .dmaWait .prepare
  | .dmaWait .test => if startDma d then .returned (-erestartsys) none else .dmaWait .test
  | pc => pc

/-! ### The interrupt handler -/

/-- Where a run of `edu_irq_handler` stands, with the status it has read. The
registers it reads for its messages do not change by being read, so those reads are
part of the wake-ups. -/
inductive Handler where
  /-- Not running. -/
  | idle : Handler
  /-- Before the test for the factorial and its wake-up. -/
  | wakeFact (status : BitVec 32) : Handler
  /-- Before the test for the transfer and its wake-up. -/
  | wakeDma (status : BitVec 32) : Handler
  /-- Before the acknowledgement. -/
  | ack (status : BitVec 32) : Handler
  /-- Over; `true` is `IRQ_HANDLED`. -/
  | returned (handled : Bool) : Handler
deriving DecidableEq

/-- `wake_up_interruptible(&pdev->factorial_wait)`. -/
def wakeFactorialWait : Pc → Pc
  | .factWait t => .factWait t.wake
  | pc => pc

/-- `wake_up_interruptible(&pdev->dma_wait)`. -/
def wakeDmaWait : Pc → Pc
  | .dmaWait t => .dmaWait t.wake
  | pc => pc

/-! ### States and steps -/

/-- A transfer performed, and the call that started it. -/
structure Transfer where
  /-- The call. -/
  by_ : Option ℕ
  /-- What was transferred. -/
  quad : Dma
deriving DecidableEq

/-- The driver, its callers and the device. -/
structure Sys where
  /-- The device. -/
  dev : Device
  /-- The memory its transfers move. -/
  mem : Memory
  /-- The calls, by number. -/
  calls : ℕ → Option Call
  /-- The runs of the handler, by number. -/
  handlers : ℕ → Handler
  /-- The call whose write last made the DMA engine busy. -/
  starter : Option ℕ
  /-- The transfers performed, in order. -/
  log : List Transfer

/-- The driver bound to a device, before any call. -/
def Sys.start (d : Device) (m : Memory) : Sys := ⟨d, m, fun _ => none, fun _ => .idle, none, []⟩

/-- The device as `edu_probe` leaves it: every interrupt raised, by a write meant to
clear those pending. -/
def probed : Device := writel (~~~0) eduAddrIntrRaise Device.reset

/-- What can happen next. -/
inductive Act where
  /-- Call `c` enters the driver; `fault` is the outcome of the copy of its
  arguments. -/
  | call (c : ℕ) (req : Request) (fault : Bool) : Act
  /-- Call `c` makes its next access. -/
  | access (c : ℕ) (fault : Bool) : Act
  /-- A signal reaches call `c`. -/
  | signal (c : ℕ) : Act
  /-- Run `h` of the handler begins, for this device or another on its line. -/
  | irq (h : ℕ) : Act
  /-- Run `h` of the handler goes on. -/
  | handle (h : ℕ) : Act
  /-- The device has a factorial ready. -/
  | factDone : Act
  /-- The device is done with a transfer. -/
  | dmaDone : Act
deriving DecidableEq

/-- The calls, with the program counter of one of them changed. -/
def Sys.setPc (s : Sys) (c : ℕ) (call : Call) (pc : Pc) : ℕ → Option Call :=
  Function.update s.calls c (some { call with pc := pc })

/-- The calls, with all the program counters changed. -/
def Sys.mapPc (s : Sys) (f : Pc → Pc) : ℕ → Option Call :=
  fun c => (s.calls c).map fun call => { call with pc := f call.pc }

/-- One step of a run of the handler. -/
def stepHandler (s : Sys) (h : ℕ) : Handler → Sys
  | .wakeFact status =>
    { s with
      calls := if hasBit status eduRaiseIrqFactorial then s.mapPc wakeFactorialWait else s.calls
      handlers := Function.update s.handlers h (.wakeDma status) }
  | .wakeDma status =>
    { s with
      calls := if hasBit status eduDmaIrqFlag then s.mapPc wakeDmaWait else s.calls
      handlers := Function.update s.handlers h (.ack status) }
  | .ack status =>
    { s with
      dev := writel status eduAddrIntrAck s.dev
      handlers := Function.update s.handlers h
        (.returned (hasBit status eduRaiseIrqFactorial || hasBit status eduDmaIrqFlag)) }
  | _ => s

/-- The step of a call. The one that makes the engine busy is remembered. -/
def stepCall (s : Sys) (c : ℕ) (call : Call) (fault : Bool) : Sys :=
  { s with
    dev := (access fault s.dev call.pc).1
    calls := s.setPc c call (access fault s.dev call.pc).2
    starter := if s.dev.busy = false ∧ (access fault s.dev call.pc).1.busy = true then some c
      else s.starter }

/-- **One step.** -/
def step (s : Sys) : Act → Sys
  | .call c req fault =>
    match s.calls c with
    | none => { s with calls := Function.update s.calls c (some ⟨req, enter fault req⟩) }
    | some _ => s
  | .access c fault =>
    match s.calls c with
    | none => s
    | some call => stepCall s c call fault
  | .signal c =>
    match s.calls c with
    | none => s
    | some call => { s with calls := s.setPc c call (interrupted s.dev call.pc) }
  | .irq h =>
    match s.handlers h with
    | .idle =>
      { s with
        handlers := Function.update s.handlers h (.wakeFact (readl eduAddrIntrStat s.dev)) }
    | _ => s
  | .handle h => stepHandler s h (s.handlers h)
  | .factDone => { s with dev := s.dev.factDone }
  | .dmaDone =>
    if s.dev.busy then
      { s with
        dev := s.dev.dmaDone
        mem := s.dev.regs.transfer s.mem
        log := s.log ++ [⟨s.starter, s.dev.regs⟩] }
    else s

/-! ### The accesses, one by one -/

section Accesses

variable (val : BitVec 32) (d : Device)

@[simp] theorem writel_liveCheck :
    writel val eduAddrLiveCheck d = { d with live := ~~~val } := rfl

@[simp] theorem writel_factorial :
    writel val eduAddrFactorial d
      = if d.computing then d else { d with fact := val, status := d.status ||| 0x01 } := rfl

@[simp] theorem writel_statReg :
    writel eduRaiseIrqFactorial eduAddrStatReg d = { d with status := d.status ||| 0x80 } := rfl

@[simp] theorem writel_intrRaise :
    writel val eduAddrIntrRaise d = { d with intr := d.intr ||| val } := rfl

@[simp] theorem writel_intrAck :
    writel val eduAddrIntrAck d = { d with intr := d.intr &&& ~~~val } := rfl

@[simp] theorem writel_dmaSrc :
    writel val eduAddrDmaSrc d = if d.busy then d else { d with dmaSrc := val } := rfl

@[simp] theorem writel_dmaDist :
    writel val eduAddrDmaDist d = if d.busy then d else { d with dmaDst := val } := rfl

@[simp] theorem writel_dmaSize :
    writel val eduAddrDmaSize d = if d.busy then d else { d with dmaSize := val } := rfl

@[simp] theorem writel_dmaCmd :
    writel val eduAddrDmaCmd d = if d.busy then d else { d with dmaCmd := val } := rfl

@[simp] theorem readl_liveCheck : readl eduAddrLiveCheck d = d.live := rfl

@[simp] theorem readl_factorial : readl eduAddrFactorial d = d.fact := rfl

@[simp] theorem isComputingFactorial_eq : isComputingFactorial d = d.computing := rfl

@[simp] theorem startDma_eq : startDma d = d.busy := rfl

end Accesses

/-- An access of a waiting call leaves the device alone. -/
theorem access_factWait (fault : Bool) (d : Device) (t : Waiter) :
    access fault d (.factWait t)
      = (d, ((t.advance (!d.computing)).map Pc.factWait).getD .factStatus) := by
  rw [access, isComputingFactorial_eq]
  cases t.advance (!d.computing) <;> rfl

theorem access_dmaWait (fault : Bool) (d : Device) (t : Waiter) :
    access fault d (.dmaWait t)
      = (d, ((t.advance (!d.busy)).map Pc.dmaWait).getD (.returned 0 none)) := by
  rw [access, startDma_eq]
  cases t.advance (!d.busy) <;> rfl

/-- **No access of a call ends a computation.** -/
theorem computing_access (fault : Bool) {d : Device} (pc : Pc) (h : d.computing = true) :
    (access fault d pc).1.computing = true := by
  cases pc with
  | factWait t =>
    rw [access_factWait]
    exact h
  | dmaWait t =>
    rw [access_dmaWait]
    exact h
  | factStatus =>
    simp only [access, writel_statReg, Device.computing, hasBit_01] at h ⊢
    simp [h]
  | dmaSrc q | dmaDst q | dmaSize q | dmaCmd q =>
    simp only [access, writel_dmaSrc, writel_dmaDist, writel_dmaSize, writel_dmaCmd]
    split <;> exact h
  | factWrite val =>
    simp only [access, writel_factorial, h, if_true]
  | idRead | liveWrite | liveRead | openWrite | openRead | factRead | raise | returned =>
    exact h

/-- **No access of a call ends a transfer, nor changes the registers of one under
way.** -/
theorem regs_access (fault : Bool) {d : Device} (pc : Pc) (h : d.busy = true) :
    (access fault d pc).1.regs = d.regs := by
  cases pc with
  | factWait t => rw [access_factWait]
  | dmaWait t => rw [access_dmaWait]
  | dmaSrc q | dmaDst q | dmaSize q | dmaCmd q =>
    simp only [access, writel_dmaSrc, writel_dmaDist, writel_dmaSize, writel_dmaCmd, h, if_true]
  | factWrite val =>
    simp only [access, writel_factorial]
    split <;> rfl
  | factStatus | idRead | liveWrite | liveRead | openWrite | openRead | factRead | raise
  | returned => rfl

theorem busy_access (fault : Bool) {d : Device} (pc : Pc) (h : d.busy = true) :
    (access fault d pc).1.busy = true := by
  have hregs := congrArg Dma.cmd (regs_access fault pc h)
  rw [Device.busy, show (access fault d pc).1.dmaCmd = d.dmaCmd from hregs]
  exact h

/-- The command register changes only by the last write of `dma_operation`. -/
theorem dmaCmd_access (fault : Bool) (d : Device) (pc : Pc) :
    (access fault d pc).1.dmaCmd = d.dmaCmd ∨
      ∃ q, pc = .dmaCmd q ∧ (access fault d pc).1.dmaCmd = q.cmd := by
  cases pc with
  | dmaCmd q =>
    simp only [access, writel_dmaCmd]
    split
    · exact Or.inl rfl
    · exact Or.inr ⟨q, rfl, rfl⟩
  | factWait t =>
    rw [access_factWait]
    exact Or.inl rfl
  | dmaWait t =>
    rw [access_dmaWait]
    exact Or.inl rfl
  | dmaSrc q | dmaDst q | dmaSize q =>
    simp only [access, writel_dmaSrc, writel_dmaDist, writel_dmaSize]
    split <;> exact Or.inl rfl
  | factWrite val =>
    simp only [access, writel_factorial]
    split <;> exact Or.inl rfl
  | idRead | liveWrite | liveRead | openWrite | openRead | factStatus | factRead | raise
  | returned => exact Or.inl rfl

/-- **No access of a call clears an interrupt.** -/
theorem intr_access (fault : Bool) {d : Device} (pc : Pc) {i : ℕ} (h : d.intr.getLsbD i = true) :
    (access fault d pc).1.intr.getLsbD i = true := by
  cases pc with
  | factWait t =>
    rw [access_factWait]
    exact h
  | dmaWait t =>
    rw [access_dmaWait]
    exact h
  | raise arg => simp [access, h]
  | dmaSrc q | dmaDst q | dmaSize q | dmaCmd q =>
    simp only [access, writel_dmaSrc, writel_dmaDist, writel_dmaSize, writel_dmaCmd]
    split <;> exact h
  | factWrite val =>
    simp only [access, writel_factorial]
    split <;> exact h
  | factStatus | idRead | liveWrite | liveRead | openWrite | openRead | factRead | returned =>
    exact h

/-! ### What a step can do -/

/-- **The steps, one by one.** -/
inductive Step (s : Sys) : Act → Sys → Prop
  /-- Nothing happens. -/
  | stutter {a : Act} (ha : ∀ c fault, a = .access c fault → s.calls c = none) : Step s a s
  /-- A call enters the driver. -/
  | call {c : ℕ} {req : Request} {fault : Bool} (hc : s.calls c = none) :
      Step s (.call c req fault)
        { s with calls := Function.update s.calls c (some ⟨req, enter fault req⟩) }
  /-- A call makes its next access. -/
  | access {c : ℕ} {call : Call} {fault : Bool} (hc : s.calls c = some call) :
      Step s (.access c fault) (stepCall s c call fault)
  /-- A signal reaches a call. -/
  | signal {c : ℕ} {call : Call} (hc : s.calls c = some call) :
      Step s (.signal c) { s with calls := s.setPc c call (interrupted s.dev call.pc) }
  /-- A run of the handler reads the status. -/
  | irq {h : ℕ} (hh : s.handlers h = .idle) :
      Step s (.irq h) { s with handlers := Function.update s.handlers h (.wakeFact s.dev.intr) }
  /-- A run of the handler tests for the factorial. -/
  | wakeFact {h : ℕ} {status : BitVec 32} (hh : s.handlers h = .wakeFact status) :
      Step s (.handle h)
        { s with
          calls := if hasBit status 0x80 then s.mapPc wakeFactorialWait else s.calls
          handlers := Function.update s.handlers h (.wakeDma status) }
  /-- A run of the handler tests for the transfer. -/
  | wakeDma {h : ℕ} {status : BitVec 32} (hh : s.handlers h = .wakeDma status) :
      Step s (.handle h)
        { s with
          calls := if hasBit status 0x100 then s.mapPc wakeDmaWait else s.calls
          handlers := Function.update s.handlers h (.ack status) }
  /-- A run of the handler acknowledges what it has read. -/
  | ack {h : ℕ} {status : BitVec 32} (hh : s.handlers h = .ack status) :
      Step s (.handle h)
        { s with
          dev := { s.dev with intr := s.dev.intr &&& ~~~status }
          handlers := Function.update s.handlers h
            (.returned (hasBit status 0x80 || hasBit status 0x100)) }
  /-- A factorial is ready. -/
  | factDone (hd : s.dev.computing = true) : Step s .factDone { s with dev := s.dev.factDone }
  /-- A transfer is over. -/
  | dmaDone (hd : s.dev.busy = true) :
      Step s .dmaDone
        { s with
          dev := s.dev.dmaDone
          mem := s.dev.regs.transfer s.mem
          log := s.log ++ [⟨s.starter, s.dev.regs⟩] }

/-- **A step is one of those.** -/
theorem step_cases (s : Sys) (a : Act) : Step s a (step s a) := by
  cases a with
  | call c req fault =>
    rcases hc : s.calls c with - | call
    · simp only [step, hc]
      exact .call hc
    · simp only [step, hc]
      exact .stutter (by simp)
  | access c fault =>
    rcases hc : s.calls c with - | call
    · simp only [step, hc]
      refine .stutter ?_
      rintro c' fault' ⟨⟩
      exact hc
    · simp only [step, hc]
      exact .access hc
  | signal c =>
    rcases hc : s.calls c with - | call
    · simp only [step, hc]
      exact .stutter (by simp)
    · simp only [step, hc]
      exact .signal hc
  | irq h =>
    rcases hh : s.handlers h with - | status | status | status | handled
    · simp only [step, hh]
      exact .irq hh
    all_goals
      simp only [step, hh]
      exact .stutter (by simp)
  | handle h =>
    rcases hh : s.handlers h with - | status | status | status | handled
    · simp only [step, hh, stepHandler]
      exact .stutter (by simp)
    · simp only [step, hh, stepHandler]
      exact .wakeFact hh
    · simp only [step, hh, stepHandler]
      exact .wakeDma hh
    · simp only [step, hh, stepHandler]
      exact .ack hh
    · simp only [step, hh, stepHandler]
      exact .stutter (by simp)
  | factDone =>
    cases hd : s.dev.computing with
    | true => exact .factDone hd
    | false =>
      rw [step, Device.factDone, hd]
      exact .stutter (by simp)
  | dmaDone =>
    cases hd : s.dev.busy with
    | true =>
      rw [step, if_pos hd]
      exact .dmaDone hd
    | false =>
      rw [step, if_neg (by simp [hd])]
      exact .stutter (by simp)

/-! ### What becomes of a call -/

/-- **What the others can do to a call**: wake it, or interrupt its wait. -/
inductive Disturbed : Pc → Pc → Prop
  /-- Nothing. -/
  | same (pc : Pc) : Disturbed pc pc
  /-- Its wait for a factorial goes round its loop. -/
  | factWait (t t' : Waiter) : Disturbed (.factWait t) (.factWait t')
  /-- Its wait for a transfer goes round its loop. -/
  | dmaWait (t t' : Waiter) : Disturbed (.dmaWait t) (.dmaWait t')
  /-- Its wait is interrupted. -/
  | interrupted (pc : Pc) : Disturbed pc (.returned (-erestartsys) none)

theorem disturbed_interrupted (d : Device) (pc : Pc) : Disturbed pc (interrupted d pc) := by
  cases pc with
  | factWait t =>
    cases t <;> simp only [interrupted]
    case test =>
      split
      · exact .interrupted _
      · exact .same _
    all_goals exact .factWait _ _
  | dmaWait t =>
    cases t <;> simp only [interrupted]
    case test =>
      split
      · exact .interrupted _
      · exact .same _
    all_goals exact .dmaWait _ _
  | _ => exact .same _

theorem disturbed_wakeFactorialWait (pc : Pc) : Disturbed pc (wakeFactorialWait pc) := by
  cases pc with
  | factWait t => exact .factWait _ _
  | _ => exact .same _

theorem disturbed_wakeDmaWait (pc : Pc) : Disturbed pc (wakeDmaWait pc) := by
  cases pc with
  | dmaWait t => exact .dmaWait _ _
  | _ => exact .same _

/-- **Where a call comes from.** -/
inductive Came (s : Sys) (a : Act) (c : ℕ) (call' : Call) : Prop
  /-- It has just entered the driver. -/
  | entered (fault : Bool) (hc : s.calls c = none) (hpc : call'.pc = enter fault call'.req)
      (ha : a = .call c call'.req fault)
  /-- It has made an access. -/
  | accessed {call : Call} (fault : Bool) (hc : s.calls c = some call)
      (hreq : call'.req = call.req) (ha : a = .access c fault)
      (hpc : call'.pc = (Edu.access fault s.dev call.pc).2)
  /-- It has at most been disturbed. -/
  | disturbed {call : Call} (hc : s.calls c = some call) (hreq : call'.req = call.req)
      (ha : ∀ fault, a ≠ .access c fault) (hpc : Disturbed call.pc call'.pc)

/-- **A call comes from one of those.** -/
theorem Step.came {s s' : Sys} {a : Act} {c : ℕ} {call' : Call} (hs : Step s a s')
    (hc' : s'.calls c = some call') : Came s a c call' := by
  have hsame : (∀ fault, a ≠ .access c fault) → s.calls c = some call' → Came s a c call' :=
    fun ha hc => .disturbed hc rfl ha (.same _)
  have hmap : ∀ {f : Pc → Pc} {b : Bool}, (∀ fault, a ≠ .access c fault) →
      (∀ pc, Disturbed pc (f pc)) → (if b then s.mapPc f else s.calls) c = some call' →
      Came s a c call' := by
    intro f b ha hf h
    cases b with
    | true =>
      obtain ⟨call, hc, rfl⟩ := Option.map_eq_some_iff.mp h
      exact .disturbed hc rfl ha (hf call.pc)
    | false => exact hsame ha h
  cases hs with
  | stutter ha =>
    refine hsame (fun fault hfault => ?_) hc'
    rw [ha c fault hfault] at hc'
    exact absurd hc' (by simp)
  | @call c₀ req fault hc =>
    rcases eq_or_ne c c₀ with rfl | hne
    · obtain rfl : ⟨req, enter fault req⟩ = call' := by simpa using hc'
      exact .entered fault hc rfl rfl
    · exact hsame (by simp) ((Function.update_of_ne hne _ _).symm.trans hc')
  | @access c₀ call fault hc =>
    rcases eq_or_ne c c₀ with rfl | hne
    · obtain rfl : { call with pc := (Edu.access fault s.dev call.pc).2 } = call' := by
        simpa [stepCall, Sys.setPc] using hc'
      exact .accessed fault hc rfl rfl rfl
    · exact hsame (by simp [hne.symm]) ((Function.update_of_ne hne _ _).symm.trans hc')
  | @signal c₀ call hc =>
    rcases eq_or_ne c c₀ with rfl | hne
    · obtain rfl : { call with pc := interrupted s.dev call.pc } = call' := by
        simpa [Sys.setPc] using hc'
      exact .disturbed hc rfl (by simp) (disturbed_interrupted s.dev call.pc)
    · exact hsame (by simp) ((Function.update_of_ne hne _ _).symm.trans hc')
  | wakeFact => exact hmap (by simp) disturbed_wakeFactorialWait hc'
  | wakeDma => exact hmap (by simp) disturbed_wakeDmaWait hc'
  | irq | ack | factDone | dmaDone => exact hsame (by simp) hc'

/-- A call does not disappear. -/
theorem Step.calls_some {s s' : Sys} {a : Act} {c : ℕ} {call : Call} (hs : Step s a s')
    (hc : s.calls c = some call) : ∃ call', s'.calls c = some call' := by
  have hupdate : ∀ (c₀ : ℕ) (call₀ : Call),
      ∃ call', Function.update s.calls c₀ (some call₀) c = some call' := by
    intro c₀ call₀
    rcases eq_or_ne c c₀ with rfl | hne
    · exact ⟨call₀, Function.update_self ..⟩
    · exact ⟨call, (Function.update_of_ne hne _ _).trans hc⟩
  have hmap : ∀ (f : Pc → Pc) (b : Bool),
      ∃ call', (if b then s.mapPc f else s.calls) c = some call' := by
    intro f b
    cases b with
    | true => exact ⟨{ call with pc := f call.pc }, by simp [Sys.mapPc, hc]⟩
    | false => exact ⟨call, hc⟩
  cases hs with
  | call | access | signal => exact hupdate _ _
  | wakeFact | wakeDma => exact hmap _ _
  | stutter | irq | ack | factDone | dmaDone => exact ⟨call, hc⟩

/-- A call that has not entered is not there. -/
theorem calls_run {s : Sys} {c : ℕ} {acts : List Act}
    (hacts : ∀ a ∈ acts, ∀ req fault, a ≠ .call c req fault) (hs : s.calls c = none) :
    (run step s acts).calls c = none := by
  have hstep : ∀ (s : Sys) (a : Act), (∀ req fault, a ≠ .call c req fault) → s.calls c = none →
      (step s a).calls c = none := by
    intro s a ha hnone
    rcases hc' : (step s a).calls c with - | call'
    · rfl
    · cases (step_cases s a).came hc' with
      | entered fault hc hpc heq => exact absurd heq (ha _ _)
      | accessed fault hc | disturbed hc => exact absurd (hnone.symm.trans hc) (by simp)
  exact run_invariant_along step hstep acts (along_of_forall step hacts) hs

/-- When only the first calls have entered, they are the only ones to look at. -/
theorem calls_all_run (n : ℕ) (p : Call → Bool) {d : Device} {m : Memory} {acts : List Act}
    (hacts : ∀ a ∈ acts, ∀ c req fault, a = .call c req fault → c < n)
    (hcalls : ∀ c < n, ((run step (Sys.start d m) acts).calls c).all p = true) :
    ∀ c call, (run step (Sys.start d m) acts).calls c = some call → p call = true := by
  intro c call hc
  rcases lt_or_ge c n with hlt | hge
  · have h := hcalls c hlt
    rwa [hc] at h
  · have hnone : (run step (Sys.start d m) acts).calls c = none :=
      calls_run (fun a ha req fault heq => absurd (hacts a ha c req fault heq) (by omega)) rfl
    exact absurd (hc.symm.trans hnone) (by simp)

/-- A run of the handler that has not begun is idle. -/
theorem Step.handlers_idle {s s' : Sys} {a : Act} {h : ℕ} (hs : Step s a s') (ha : a ≠ .irq h)
    (hi : s.handlers h = .idle) : s'.handlers h = .idle := by
  have hother : ∀ {h' : ℕ} (r : Handler), h' ≠ h →
      Function.update s.handlers h' r h = .idle := by
    intro h' r hne
    rwa [Function.update_of_ne hne.symm]
  cases hs with
  | @irq h' hh =>
    refine hother _ ?_
    rintro rfl
    exact ha rfl
  | @wakeFact h' status hh | @wakeDma h' status hh | @ack h' status hh =>
    refine hother _ ?_
    rintro rfl
    rw [hi] at hh
    exact absurd hh (by simp)
  | stutter | call | access | signal | factDone | dmaDone => exact hi

theorem handlers_run {s : Sys} {h : ℕ} {acts : List Act} (hacts : ∀ a ∈ acts, a ≠ .irq h)
    (hs : s.handlers h = .idle) : (run step s acts).handlers h = .idle := by
  have hstep : ∀ (s : Sys) (a : Act), a ≠ .irq h → s.handlers h = .idle →
      (step s a).handlers h = .idle := fun s a ha hi => (step_cases s a).handlers_idle ha hi
  exact run_invariant_along step hstep acts (along_of_forall step hacts) hs

/-- **Where a request can stand**, with the local variables it has there. -/
def Request.At (req : Request) : Pc → Prop
  | .idRead => req = .deviceId
  | .liveWrite val => req = .liveCheck val
  | .liveRead => ∃ val, req = .liveCheck val
  | .openWrite => req = .eduOpen
  | .openRead => req = .eduOpen
  | .factWrite val => req = .factorial val
  | .factWait _ => ∃ val, req = .factorial val
  | .factStatus => ∃ val, req = .factorial val
  | .factRead => ∃ val, req = .factorial val
  | .raise arg => req = .raiseIrq arg
  | .dmaSrc q => req.quad = some q
  | .dmaDst q => req.quad = some q
  | .dmaSize q => req.quad = some q
  | .dmaCmd q => req.quad = some q
  | .dmaWait _ => req.quad.isSome = true
  | .returned _ _ => True

theorem Request.at_enter (fault : Bool) (req : Request) : req.At (enter fault req) := by
  cases req with
  | eduOpen | deviceId | raiseIrq => rfl
  | other => trivial
  | liveCheck | factorial =>
    cases fault with
    | true => trivial
    | false => rfl
  | dmaToDevice | dmaFromDevice =>
    cases fault with
    | true => trivial
    | false =>
      simp only [enter, dmaOperation, Bool.false_eq_true, if_false]
      split
      · trivial
      · rfl

theorem Request.At.access {req : Request} {pc : Pc} (h : req.At pc) (fault : Bool) (d : Device) :
    req.At (Edu.access fault d pc).2 := by
  have hput : ∀ val, req.At (putUser fault val) := by
    intro val
    cases fault <;> trivial
  cases pc with
  | factWait t =>
    rw [access_factWait]
    cases t.advance (!d.computing) <;> exact h
  | dmaWait t =>
    rw [access_dmaWait]
    cases t.advance (!d.busy) with
    | none => trivial
    | some t' => exact h
  | idRead | liveRead | factRead => exact hput _
  | openRead =>
    simp only [Edu.access]
    split <;> trivial
  | liveWrite val | factWrite val => exact ⟨val, h⟩
  | openWrite | factStatus | dmaSrc | dmaDst | dmaSize => exact h
  | dmaCmd q => exact Option.isSome_of_mem h
  | raise | returned => trivial

theorem Request.At.disturbed {req : Request} {pc pc' : Pc} (h : req.At pc)
    (hd : Disturbed pc pc') : req.At pc' := by
  cases hd with
  | same | factWait | dmaWait => exact h
  | interrupted => trivial

/-- **Every call stands where its request can.** -/
def Sys.Placed (s : Sys) : Prop := ∀ c call, s.calls c = some call → call.req.At call.pc

theorem Step.placed {s s' : Sys} {a : Act} (hs : Step s a s') (h : s.Placed) : s'.Placed := by
  intro c call' hc'
  cases hs.came hc' with
  | entered fault hc hpc =>
    rw [hpc]
    exact Request.at_enter fault call'.req
  | accessed fault hc hreq ha hpc =>
    rw [hpc, hreq]
    exact (h c _ hc).access fault s.dev
  | disturbed hc hreq ha hpc =>
    rw [hreq]
    exact (h c _ hc).disturbed hpc

theorem placed_run (d : Device) (m : Memory) (acts : List Act) :
    (run step (Sys.start d m) acts).Placed := by
  refine run_invariant step (fun s a h => (step_cases s a).placed h) acts fun c call hc => ?_
  exact absurd hc (by simp [Sys.start])

/-- The transfers the driver asks for all have the bits that start them and that ask
for an interrupt. -/
theorem Request.cmd_quad {req : Request} {q : Dma} (h : req.quad = some q) :
    hasBit q.cmd 0x01 = true ∧ hasBit q.cmd 0x04 = true := by
  cases req with
  | dmaToDevice len src dst =>
    obtain rfl : ioctlDmaToDevice len src dst = q := by simpa [Request.quad] using h
    change hasBit (eduDmaCmdTransfer ||| eduDmaCmdDirc ||| eduDmaCmdRaiseIrq) 0x01 = true ∧
      hasBit (eduDmaCmdTransfer ||| eduDmaCmdDirc ||| eduDmaCmdRaiseIrq) 0x04 = true
    decide
  | dmaFromDevice len src dst =>
    obtain rfl : ioctlDmaFromDevice len src dst = q := by simpa [Request.quad] using h
    change hasBit (eduDmaCmdTransfer ||| eduDmaCmdRaiseIrq) 0x01 = true ∧
      hasBit (eduDmaCmdTransfer ||| eduDmaCmdRaiseIrq) 0x04 = true
    decide
  | _ => exact absurd h (by simp [Request.quad])

end Edu

end KernelModules
