import Mathlib.Algebra.Order.Group.Int
import KernelModules.Lib.Ledger
import KernelModules.Lib.Run

/-!
# Loading, binding and unloading the EDU driver

`pci_dev_init`, `pci_dev_exit`, `edu_probe` and `edu_remove` of
`pci_device/edu_pci_driver.c` as the operations they make on the resources they acquire
and give back, under every pattern of failures of the kernel's calls. The labels of the
two `goto` ladders are functions of their own, each falling through to the next.

`alloc_chrdev_region` returns 0 when it succeeds, and `pci_dev_init` takes anything that
is not positive for a failure. So it always leaves by its last label: a load that should
succeed gives the driver's memory back, keeps the region and reports success, with
nothing else set up. Everything after it is about memory that is not there.
`KernelModules.Edu.Lifecycle.balanced_iff` says exactly which runs come out even: those
in which the load fails before that point and no `edu_probe` gets beyond its first
call.
-/

namespace KernelModules

namespace Edu

namespace Lifecycle

/-! ### The resources and the kernel's calls -/

/-- What the driver acquires and gives back. -/
inductive Res where
  /-- The memory `edu_dev` points to. -/
  | memory : Res
  /-- The character device region. -/
  | region : Res
  /-- The character device. -/
  | cdev : Res
  /-- The class. -/
  | cls : Res
  /-- The device node. -/
  | node : Res
  /-- The registration of the PCI driver. -/
  | driver : Res
  /-- The PCI device, enabled. -/
  | pciEnable : Res
  /-- The PCI regions. -/
  | pciRegions : Res
  /-- The interrupt vectors. -/
  | irqVectors : Res
  /-- The interrupt handler. -/
  | irqHandler : Res
deriving DecidableEq

/-- What a kernel call returns: 0, or a negative error number. A pointer that may carry
an error is told by its error in the same way. -/
structure Ret where
  /-- The value. -/
  val : ℤ
  nonpos : val ≤ 0

namespace Ret

/-- The call has succeeded. -/
def ok (r : Ret) : Bool := r.val == 0

/-- Success. -/
def success : Ret := ⟨0, le_refl 0⟩

end Ret

/-- The outcomes of the calls of `pci_dev_init`. -/
structure InitCalls where
  /-- `kzalloc` finds memory. -/
  kzalloc : Bool
  /-- `alloc_chrdev_region`. -/
  allocChrdevRegion : Ret
  /-- `cdev_add`. -/
  cdevAdd : Ret
  /-- `class_create`. -/
  classCreate : Ret
  /-- `device_create`. -/
  deviceCreate : Ret
  /-- `pci_register_driver`. -/
  pciRegisterDriver : Ret

/-- The outcomes of the calls of `edu_probe`. -/
structure ProbeCalls where
  /-- `pci_enable_device`. -/
  pciEnableDevice : Ret
  /-- `pcim_iomap_region`. -/
  pcimIomapRegion : Ret
  /-- `dma_set_mask_and_coherent`. -/
  dmaSetMaskAndCoherent : Ret
  /-- `dmam_alloc_coherent` finds memory. -/
  dmamAllocCoherent : Bool
  /-- `pci_alloc_irq_vectors`: how many, or a negative error number. -/
  pciAllocIrqVectors : ℤ
  /-- `pci_irq_vector`: the line, or a negative error number. -/
  pciIrqVector : ℤ
  /-- `request_irq`. -/
  requestIrq : Ret

/-- `ENOMEM`. -/
def enomem : ℤ := 12
/-- `EINVAL`, against which `irq_line` is compared. -/
def einval : BitVec 32 := 22

/-- An access through `edu_dev`. -/
def eduDev : Traced Res Unit := .ofOps [.use .memory]

/-- A call that acquires a resource if it returns 0. -/
def acquiring (res : Res) (r : Ret) : Traced Res ℤ := .ofCall r.ok r.val [.acquire res] []

/-- A call that gives a resource back. -/
def releasing (res : Res) : Traced Res Unit := .ofOps [.release res]

/-- `kzalloc`. -/
def kzalloc (ok : Bool) : Traced Res Bool := .ofCall ok ok [.acquire .memory] []

/-- `kfree`. -/
def kfree : Traced Res Unit := releasing .memory

/-- `free_irq`. -/
def freeIrq : Traced Res Unit := do
  eduDev
  releasing .irqHandler

/-- `device_destroy`. -/
def deviceDestroy : Traced Res Unit := do
  eduDev
  .ofOps [.use .cls]
  releasing .node

/-- `class_destroy`. -/
def classDestroy : Traced Res Unit := do
  eduDev
  releasing .cls

/-- `cdev_del`. -/
def cdevDel : Traced Res Unit := do
  eduDev
  releasing .cdev

/-- `unregister_chrdev_region`. -/
def unregisterChrdevRegion : Traced Res Unit := do
  eduDev
  releasing .region

/-! ### `pci_dev_init` -/

/-- `free_dev`. -/
def freeDev (retVal : ℤ) : Traced Res ℤ := do
  kfree
  return retVal

/-- `unregister_chrdev`. -/
def unregisterChrdev (retVal : ℤ) : Traced Res ℤ := do
  unregisterChrdevRegion
  freeDev retVal

/-- `del_cdev`. -/
def delCdev (retVal : ℤ) : Traced Res ℤ := do
  cdevDel
  unregisterChrdev retVal

/-- `destroy_class`. -/
def destroyClass (retVal : ℤ) : Traced Res ℤ := do
  classDestroy
  delCdev retVal

/-- `destroy_device`. -/
def destroyDevice (retVal : ℤ) : Traced Res ℤ := do
  deviceDestroy
  destroyClass retVal

/-- `pci_dev_init`. -/
def pciDevInit (o : InitCalls) : Traced Res ℤ := do
  if !(← kzalloc o.kzalloc) then
    return -enomem
  -- the two wait queues
  eduDev
  eduDev
  -- the device numbers
  eduDev
  let retVal ← acquiring .region o.allocChrdevRegion
  if retVal ≤ 0 then
    return ← freeDev retVal
  eduDev
  let retVal ← acquiring .cdev o.cdevAdd
  if retVal < 0 then
    return ← unregisterChrdev retVal
  let cls ← acquiring .cls o.classCreate
  eduDev
  if cls < 0 then
    return ← delCdev cls
  eduDev
  .ofOps [.use .cls]
  let dev ← acquiring .node o.deviceCreate
  if dev < 0 then
    return ← destroyClass dev
  let retVal ← acquiring .driver o.pciRegisterDriver
  if retVal ≠ 0 then
    return ← destroyDevice retVal
  return 0

/-! ### `edu_probe` and `edu_remove` -/

/-- `disable_dev`. -/
def disableDev : Traced Res ℤ := do
  releasing .pciEnable
  return -1

/-- `release_regions`. -/
def releaseRegions : Traced Res ℤ := do
  releasing .pciRegions
  disableDev

/-- `irq_free`. -/
def irqFree : Traced Res ℤ := do
  freeIrq
  releasing .irqVectors
  releaseRegions

/-- `edu_probe`. -/
def eduProbe (o : ProbeCalls) : Traced Res ℤ := do
  if (← acquiring .pciEnable o.pciEnableDevice) ≠ 0 then
    return -1
  -- `pci_set_master`
  .ofOps [.use .pciEnable]
  let pIomem ← acquiring .pciRegions o.pcimIomapRegion
  eduDev
  if pIomem < 0 then
    return ← disableDev
  if o.dmaSetMaskAndCoherent.val ≠ 0 then
    return ← disableDev
  eduDev
  if !o.dmamAllocCoherent then
    return ← releaseRegions
  let irqAllocVec ← Traced.ofCall (decide (1 ≤ o.pciAllocIrqVectors)) o.pciAllocIrqVectors
    [.acquire .irqVectors] []
  if irqAllocVec < 1 then
    return ← irqFree
  -- a write to the mapped region
  eduDev
  .ofOps [.use .pciRegions]
  -- `pci_irq_vector`, into an unsigned field
  .ofOps [.use .irqVectors]
  eduDev
  if BitVec.ofInt 32 o.pciIrqVector = einval then
    return ← irqFree
  if (← acquiring .irqHandler o.requestIrq) ≠ 0 then
    return ← irqFree
  return 0

/-- `edu_remove`. -/
def eduRemove : Traced Res Unit := do
  freeIrq
  releasing .irqVectors
  releasing .pciRegions
  releasing .pciEnable

/-! ### `pci_dev_exit` -/

/-- `pci_unregister_driver`: the devices still bound are removed first. -/
def pciUnregisterDriver : ℕ → Traced Res Unit
  | 0 => releasing .driver
  | bound + 1 => do
    eduRemove
    pciUnregisterDriver bound

/-- `pci_dev_exit`. -/
def pciDevExit (bound : ℕ) : Traced Res Unit := do
  deviceDestroy
  classDestroy
  cdevDel
  unregisterChrdevRegion
  pciUnregisterDriver bound
  kfree

/-! ### Runs -/

/-- The driver between its load and its unload. -/
structure Host where
  /-- The resources. -/
  ledger : Ledger Res
  /-- The number of devices bound to the driver. -/
  bound : ℕ

/-- What may happen to it. -/
inductive Event where
  /-- A device is probed. -/
  | probe (o : ProbeCalls) : Event
  /-- A device is removed. -/
  | remove : Event

/-- What a failed probe has mapped and not given back, the kernel gives back: the mapping
is a managed one. -/
def devresReleaseAll (before after : Ledger Res) : Ledger Res :=
  { after with
    held := Function.update after.held .pciRegions
      (min (after.held .pciRegions) (before.held .pciRegions)) }

/-- **One event.** A device is removed only after a successful probe. -/
def step (k : Host) : Event → Host
  | .probe o =>
    if (eduProbe o).val = 0 then ⟨k.ledger.after (eduProbe o).ops, k.bound + 1⟩
    else ⟨devresReleaseAll k.ledger (k.ledger.after (eduProbe o).ops), k.bound⟩
  | .remove =>
    if k.bound = 0 then k else ⟨k.ledger.after eduRemove.ops, k.bound - 1⟩

/-- The driver after `pci_dev_init`. -/
def loaded (o : InitCalls) : Host := ⟨Ledger.empty.after (pciDevInit o).ops, 0⟩

/-- The ledger at the end: `pci_dev_exit` runs if `pci_dev_init` has returned 0. -/
def final (o : InitCalls) (events : List Event) : Ledger Res :=
  if (pciDevInit o).val = 0 then
    (run step (loaded o) events).ledger.after
      (pciDevExit (run step (loaded o) events).bound).ops
  else (run step (loaded o) events).ledger

/-- **The run comes out even**: nothing is used or released that is not held, what fails
leaves what was held, a load that succeeds has set everything up, and the unload gives
everything back. -/
structure Balanced (o : InitCalls) (events : List Event) : Prop where
  clean : (final o events).bad = []
  load_failed : (pciDevInit o).val ≠ 0 → (loaded o).ledger.held = Ledger.empty.held
  probe_failed : ∀ before p rest, events = before ++ .probe p :: rest → (eduProbe p).val ≠ 0 →
    (step (run step (loaded o) before) (.probe p)).ledger.held
      = (run step (loaded o) before).ledger.held
  load_ok : (pciDevInit o).val = 0 →
    ∀ r ∈ [Res.region, .cdev, .cls, .node, .driver], 0 < (loaded o).ledger.held r
  unloaded : (pciDevInit o).val = 0 → ∀ r, (final o events).held r = 0

/-! ### What the functions do -/

section Functions

variable {r : Res}

theorem spares_ofOps {ops : List (Op Res)}
    (h : ∀ op ∈ ops, op ≠ .acquire r ∧ op ≠ .release r) : (Traced.ofOps ops).Spares r := h

theorem spares_ofCall {ok : Bool} {α : Type} {a : α} {succeeded failed : List (Op Res)}
    (hs : ∀ op ∈ succeeded, op ≠ .acquire r ∧ op ≠ .release r)
    (hf : ∀ op ∈ failed, op ≠ .acquire r ∧ op ≠ .release r) :
    (Traced.ofCall ok a succeeded failed).Spares r := by
  cases ok with
  | false => exact hf
  | true => exact hs

theorem spares_eduDev : eduDev.Spares r := spares_ofOps (by simp)

theorem spares_releasing {res : Res} (h : res ≠ r) : (releasing res).Spares r :=
  spares_ofOps (by simp [h])

theorem spares_acquiring {res : Res} (h : res ≠ r) (o : Ret) : (acquiring res o).Spares r :=
  spares_ofCall (by simp [h]) (by simp)

theorem spares_freeIrq (h : .irqHandler ≠ r) : freeIrq.Spares r :=
  spares_eduDev.bind fun _ => spares_releasing h

/-- `edu_remove` does not touch the driver's memory. -/
theorem spares_eduRemove : eduRemove.Spares .memory :=
  (spares_freeIrq (by decide)).bind fun _ => (spares_releasing (by decide)).bind fun _ =>
    (spares_releasing (by decide)).bind fun _ => spares_releasing (by decide)

theorem spares_disableDev : disableDev.Spares .memory :=
  (spares_releasing (by decide)).bind fun _ => Traced.spares_pure _

theorem spares_releaseRegions : releaseRegions.Spares .memory :=
  (spares_releasing (by decide)).bind fun _ => spares_disableDev

theorem spares_irqFree : irqFree.Spares .memory :=
  (spares_freeIrq (by decide)).bind fun _ => (spares_releasing (by decide)).bind fun _ =>
    spares_releaseRegions

/-- `edu_probe` does not acquire nor release the driver's memory either. -/
theorem spares_eduProbe (o : ProbeCalls) : (eduProbe o).Spares .memory := by
  refine (spares_acquiring (by decide) _).bind fun _ => .ite (Traced.spares_pure _) ?_
  refine (spares_ofOps (by simp)).bind fun _ => ?_
  refine (spares_acquiring (by decide) _).bind fun _ => spares_eduDev.bind fun _ => ?_
  refine .ite spares_disableDev (.ite spares_disableDev ?_)
  refine spares_eduDev.bind fun _ => .ite spares_releaseRegions ?_
  refine (spares_ofCall (by simp) (by simp)).bind fun _ => .ite spares_irqFree ?_
  refine spares_eduDev.bind fun _ => (spares_ofOps (by simp)).bind fun _ => ?_
  refine (spares_ofOps (by simp)).bind fun _ => spares_eduDev.bind fun _ => ?_
  refine .ite spares_irqFree ((spares_acquiring (by decide) _).bind fun _ => ?_)
  exact .ite spares_irqFree (Traced.spares_pure _)

/-- A probe that cannot enable its device does nothing. -/
theorem eduProbe_of_ne {o : ProbeCalls} (h : o.pciEnableDevice.val ≠ 0) :
    eduProbe o = ⟨[], -1⟩ := by
  have hval : (acquiring .pciEnable o.pciEnableDevice).val ≠ 0 := h
  have hops : (acquiring .pciEnable o.pciEnableDevice).ops = [] := by
    simp [acquiring, Traced.ofCall, Ret.ok, h]
  refine Traced.ext ?_ ?_
  · rw [eduProbe, Traced.ops_bind, if_pos hval, hops]
    rfl
  · rw [eduProbe, Traced.val_bind, if_pos hval]
    rfl

/-- Any other probe uses the driver's memory, to keep its mapping there. -/
theorem use_mem_eduProbe {o : ProbeCalls} (h : o.pciEnableDevice.val = 0) :
    .use .memory ∈ (eduProbe o).ops := by
  have hval : ¬(acquiring .pciEnable o.pciEnableDevice).val ≠ 0 := fun hne => hne h
  rw [eduProbe, Traced.ops_bind, if_neg hval]
  refine List.mem_append_right _ (List.mem_append_right _ (List.mem_append_right _ ?_))
  exact List.mem_append_left _ List.mem_cons_self

/-- `pci_dev_init` without memory does nothing. -/
theorem pciDevInit_of_not {o : InitCalls} (h : o.kzalloc = false) :
    pciDevInit o = ⟨[], -enomem⟩ := by
  rw [pciDevInit, h]
  rfl

/-- **`pci_dev_init` with memory gets as far as `alloc_chrdev_region`**, whatever that
returns, and gives the memory back. -/
theorem pciDevInit_of_kzalloc {o : InitCalls} (h : o.kzalloc = true) :
    pciDevInit o = (do
      let _ ← kzalloc o.kzalloc
      eduDev
      eduDev
      eduDev
      freeDev (← acquiring .region o.allocChrdevRegion)) := by
  have hle : (acquiring .region o.allocChrdevRegion).val ≤ 0 := o.allocChrdevRegion.nonpos
  refine Traced.bind_congr ((if_neg (by simp [kzalloc, Traced.ofCall, h])).trans ?_)
  refine Traced.bind_congr (Traced.bind_congr (Traced.bind_congr (Traced.bind_congr ?_)))
  exact if_pos hle

theorem val_pciDevInit {o : InitCalls} (h : o.kzalloc = true) :
    (pciDevInit o).val = o.allocChrdevRegion.val := by
  rw [pciDevInit_of_kzalloc h]
  rfl

/-- A load fails where there is no memory or no region. -/
theorem load_fails_iff {o : InitCalls} :
    (pciDevInit o).val ≠ 0 ↔ o.kzalloc = false ∨ o.allocChrdevRegion.val < 0 := by
  have hle := o.allocChrdevRegion.nonpos
  cases hk : o.kzalloc with
  | false => simp [pciDevInit_of_not hk, enomem]
  | true =>
    rw [val_pciDevInit hk]
    constructor
    · intro h
      exact .inr (lt_of_le_of_ne hle h)
    · rintro (h | h)
      · exact absurd h (by decide)
      · exact h.ne

/-- A load that fails leaves nothing behind. -/
theorem ledger_loaded {o : InitCalls} (h : (pciDevInit o).val ≠ 0) :
    (loaded o).ledger = Ledger.empty := by
  cases hk : o.kzalloc with
  | false => rw [loaded, pciDevInit_of_not hk, Ledger.after_nil]
  | true =>
    rw [val_pciDevInit hk] at h
    have hops : (acquiring .region o.allocChrdevRegion).ops = [] := by
      simpa [acquiring, Traced.ofCall, Ret.ok] using h
    rw [loaded, pciDevInit_of_kzalloc hk, hk]
    simp [hops, kzalloc, eduDev, freeDev, kfree, releasing, Traced.ofCall, Traced.ofOps,
      Ledger.exec, Ledger.empty]

/-- A load never sets up the character device, also where it reports success. -/
theorem held_cdev_loaded (o : InitCalls) : (loaded o).ledger.held .cdev = 0 := by
  have hspares : (pciDevInit o).Spares .cdev := by
    cases hk : o.kzalloc with
    | false =>
      rw [pciDevInit_of_not hk]
      exact Traced.spares_pure _
    | true =>
      rw [pciDevInit_of_kzalloc hk]
      refine (spares_ofCall (by simp) (by simp)).bind fun _ => spares_eduDev.bind fun _ => ?_
      refine spares_eduDev.bind fun _ => spares_eduDev.bind fun _ => ?_
      refine (spares_acquiring (by decide) _).bind fun _ => ?_
      exact (spares_releasing (by decide)).bind fun _ => Traced.spares_pure _
  exact Ledger.held_after hspares

end Functions

/-! ### Which runs come out even -/

section Runs

variable {k : Host} {events : List Event}

theorem held_devresReleaseAll {r : Res} (h : r ≠ .pciRegions) (before after : Ledger Res) :
    (devresReleaseAll before after).held r = after.held r :=
  Function.update_of_ne h _ _

/-- No event acquires nor releases the driver's memory. -/
theorem held_memory_step (k : Host) (e : Event) :
    (step k e).ledger.held .memory = k.ledger.held .memory := by
  cases e with
  | probe p =>
    rw [step]
    split
    · exact Ledger.held_after (spares_eduProbe p)
    · -- only the mapping is given back behind the driver's back
      exact (held_devresReleaseAll (by decide) _ _).trans (Ledger.held_after (spares_eduProbe p))
  | remove =>
    rw [step]
    split
    · rfl
    · exact Ledger.held_after spares_eduRemove

/-- What was done wrong stays. -/
theorem bad_step (e : Event) (h : k.ledger.bad ≠ []) : (step k e).ledger.bad ≠ [] := by
  cases e with
  | probe p =>
    rw [step]
    split
    · exact Ledger.bad_after h
    · exact Ledger.bad_after h
  | remove =>
    rw [step]
    split
    · exact h
    · exact Ledger.bad_after h

theorem bad_run_of_bad (h : k.ledger.bad ≠ []) : (run step k events).ledger.bad ≠ [] :=
  @run_invariant _ _ step (fun k => k.ledger.bad ≠ []) (fun _ e hk => bad_step e hk) events k h

/-- Without the driver's memory, a probe that enables its device uses what is not there. -/
theorem bad_probe {p : ProbeCalls} (hk : k.ledger.held .memory = 0)
    (hp : p.pciEnableDevice.val = 0) : (step k (.probe p)).ledger.bad ≠ [] := by
  have hbad : (k.ledger.after (eduProbe p).ops).bad ≠ [] :=
    Ledger.bad_of_use hk (fun op hop => (spares_eduProbe p op hop).1) (use_mem_eduProbe hp)
  rw [step]
  split
  · exact hbad
  · exact hbad

/-- So it shows in every run with such a probe. -/
theorem bad_run {p : ProbeCalls} (hk : k.ledger.held .memory = 0)
    (hp : p.pciEnableDevice.val = 0) (hmem : .probe p ∈ events) :
    (run step k events).ledger.bad ≠ [] := by
  induction events generalizing k with
  | nil => exact absurd hmem List.not_mem_nil
  | cons e events ih =>
    rw [run_cons]
    rcases List.mem_cons.mp hmem with rfl | hmem
    · exact bad_run_of_bad (bad_probe hk hp)
    · exact ih ((held_memory_step k e).trans hk) hmem

/-- A probe that cannot enable its device changes nothing. -/
theorem step_probe_of_ne {p : ProbeCalls} (h : p.pciEnableDevice.val ≠ 0) :
    step k (.probe p) = k := by
  rw [step, eduProbe_of_ne h, if_neg (by decide)]
  simp [devresReleaseAll]

/-- Where no probe enables its device, the driver stays as it was loaded. -/
theorem run_of_probes (hk : k.bound = 0)
    (h : ∀ p, .probe p ∈ events → p.pciEnableDevice.val ≠ 0) : run step k events = k := by
  induction events with
  | nil => rfl
  | cons e events ih =>
    have hstep : step k e = k := by
      cases e with
      | probe p => exact step_probe_of_ne (h p List.mem_cons_self)
      | remove => exact if_pos hk
    rw [run_cons, hstep]
    exact ih fun p hp => h p (List.mem_cons_of_mem e hp)

end Runs

/-- **Exactly the runs come out even in which the load fails where it may, and no probe
gets beyond its first call.** -/
theorem balanced_iff (o : InitCalls) (events : List Event) :
    Balanced o events ↔
      (o.kzalloc = false ∨ o.allocChrdevRegion.val < 0) ∧
        ∀ p, Event.probe p ∈ events → p.pciEnableDevice.val ≠ 0 := by
  constructor
  · intro h
    have hne : (pciDevInit o).val ≠ 0 := by
      intro h0
      have hcdev := h.load_ok h0 .cdev (by decide)
      rw [held_cdev_loaded] at hcdev
      omega
    refine ⟨load_fails_iff.mp hne, fun p hp hval => ?_⟩
    have hheld : (loaded o).ledger.held .memory = 0 := by
      rw [ledger_loaded hne]
      rfl
    have hclean := h.clean
    rw [final, if_neg hne] at hclean
    exact bad_run hheld hval hp hclean
  · rintro ⟨hload, hprobe⟩
    have hne : (pciDevInit o).val ≠ 0 := load_fails_iff.mpr hload
    have hrun : run step (loaded o) events = loaded o := run_of_probes rfl hprobe
    refine ⟨?_, fun _ => ?_, ?_, fun h0 => absurd h0 hne, fun h0 => absurd h0 hne⟩
    · rw [final, if_neg hne, hrun, ledger_loaded hne]
      rfl
    · rw [ledger_loaded hne]
    · rintro before p rest rfl -
      rw [step_probe_of_ne (hprobe p (by simp))]

/-- Every call of `pci_dev_init` succeeds. -/
def InitCalls.allSucceed : InitCalls := ⟨true, .success, .success, .success, .success, .success⟩

/-- **A load that succeeds without a driver**: every call succeeds, and `pci_dev_init`
reports success with the region and nothing else. -/
theorem load_without_driver :
    (pciDevInit .allSucceed).val = 0 ∧
      (loaded .allSucceed).ledger.held .region = 1 ∧
      (loaded .allSucceed).ledger.held .driver = 0 ∧
      ¬Balanced .allSucceed [] := by
  refine ⟨by decide, by decide, by decide, fun h => ?_⟩
  have hheld := h.load_ok (by decide) .driver (by decide)
  exact absurd hheld (by decide)

end Lifecycle

end Edu

end KernelModules
