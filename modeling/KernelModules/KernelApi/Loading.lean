import KernelModules.Lib.Loader
import KernelModules.Edu.Lifecycle

/-!
# What the modules acquire and give back

The functions that load and unload eight of the modules: the keylogger, the packet filter,
`ioctltest`, `hello_sysfs`, the three files in `/proc` and the module that allocates memory, as
the operations they make on what they acquire, under all outcomes of the kernel's calls.

Three of them do not look at an outcome. The keylogger and the packet filter go on when `cdev_add`
has failed, and remove a character device that is not there, at the unload or, the filter, when
its hook cannot be registered. The module that allocates memory keeps pointers that may be null,
and looks at all of them but the first before it uses them. That is all that goes wrong:
`KernelModules.Loading.ledger_exact`.
-/

namespace KernelModules

namespace Loading

open Edu.Lifecycle (Ret)

/-! ### The resources and the kernel's calls -/

/-- What the modules acquire and give back. -/
inductive Res where
  /-- The character device region. -/
  | region : Res
  /-- The I/O port after the data register of the keyboard controller. -/
  | dataPort : Res
  /-- The I/O port after its status register. -/
  | statusPort : Res
  /-- The interrupt handler. -/
  | irq : Res
  /-- The character device. -/
  | cdev : Res
  /-- The packet hook. -/
  | hook : Res
  /-- The directory `mymodule`, with the file in it. -/
  | kobject : Res
  /-- The file in `/proc`. -/
  | procFile : Res
  /-- The memory `ti_curr` points to. -/
  | tiCurr : Res
  /-- The memory `ti_parent` points to. -/
  | tiParent : Res
  /-- The memory `ti_nxt` points to. -/
  | tiNxt : Res
  /-- The memory `ti_nxt_nxt` points to. -/
  | tiNxtNxt : Res
deriving DecidableEq

/-- The outcomes of the kernel's calls. -/
structure Calls where
  /-- `register_chrdev_region` or `alloc_chrdev_region`. -/
  region : Ret
  /-- `request_region` for the port after the data register. -/
  dataPort : Bool
  /-- `request_region` for the port after the status register. -/
  statusPort : Bool
  /-- `request_irq`. -/
  requestIrq : Ret
  /-- `cdev_add`. -/
  cdevAdd : Ret
  /-- `nf_register_net_hook`. -/
  netHook : Ret
  /-- `kobject_create_and_add` returns a pointer. -/
  kobject : Bool
  /-- `sysfs_create_file`. -/
  createFile : Ret
  /-- `proc_create` returns a pointer. -/
  procCreate : Bool
  /-- `p->parent` is not null. -/
  parent : Bool
  /-- The first `next_task` is not null. -/
  next : Bool
  /-- The second `next_task` is not null. -/
  nextNext : Bool
  /-- `kmalloc` finds memory for `ti_curr`. -/
  allocCurr : Bool
  /-- `kmalloc` finds memory for `ti_parent`. -/
  allocParent : Bool
  /-- `kmalloc` finds memory for `ti_nxt`. -/
  allocNxt : Bool
  /-- `kmalloc` finds memory for `ti_nxt_nxt`. -/
  allocNxtNxt : Bool

/-- `EBUSY`. -/
def ebusy : ℤ := 16
/-- `ENOMEM`. -/
def enomem : ℤ := 12

/-- A call that acquires a resource if it returns 0. -/
def acquiring (res : Res) (r : Ret) : Traced Res ℤ := .ofCall r.ok r.val [.acquire res] []

/-- A call that acquires a resource if it returns a pointer. -/
def obtaining (res : Res) (ok : Bool) : Traced Res Bool := .ofCall ok ok [.acquire res] []

/-- A call that gives a resource back. -/
def releasing (res : Res) : Traced Res Unit := .ofOps [.release res]

/-- A call that uses a resource. -/
def touching (res : Res) : Traced Res Unit := .ofOps [.use res]

section Calls

variable (res : Res) (r : Ret) (ok : Bool)

@[simp] theorem ops_acquiring :
    (acquiring res r).ops = if r.ok then [.acquire res] else [] := rfl

@[simp] theorem val_acquiring : (acquiring res r).val = r.val := rfl

@[simp] theorem ops_obtaining : (obtaining res ok).ops = if ok then [.acquire res] else [] := rfl

@[simp] theorem val_obtaining : (obtaining res ok).val = ok := rfl

@[simp] theorem ops_releasing : (releasing res).ops = [.release res] := rfl

@[simp] theorem ops_touching : (touching res).ops = [.use res] := rfl

end Calls

/-! ### The keylogger -/

/-- `out_unregister`. -/
def outUnregister (err : ℤ) : Traced Res ℤ := do
  releasing .region
  return err

/-- `out_release_region`. -/
def outReleaseRegion (err : ℤ) : Traced Res ℤ := do
  releasing .dataPort
  outUnregister err

/-- `out_release_regions`. -/
def outReleaseRegions (err : ℤ) : Traced Res ℤ := do
  releasing .statusPort
  outReleaseRegion err

/-- `kbd_init`. -/
def kbdInit (o : Calls) : Traced Res ℤ := do
  let err ← acquiring .region o.region
  if err ≠ 0 then
    return err
  if !(← obtaining .dataPort o.dataPort) then
    return ← outUnregister (-ebusy)
  if !(← obtaining .statusPort o.statusPort) then
    return ← outReleaseRegion (-ebusy)
  let err ← acquiring .irq o.requestIrq
  if err < 0 then
    return ← outReleaseRegions err
  -- the outcome of `cdev_add` is dropped
  let _ ← acquiring .cdev o.cdevAdd
  return 0

/-- `kbd_exit`. -/
def kbdExit : Traced Res Unit := do
  releasing .cdev
  releasing .irq
  releasing .statusPort
  releasing .dataPort
  releasing .region

/-! ### The packet filter -/

/-- `my_hook_init`. -/
def myHookInit (o : Calls) : Traced Res ℤ := do
  let err ← acquiring .region o.region
  if err ≠ 0 then
    return err
  -- the outcome of `cdev_add` is dropped
  let _ ← acquiring .cdev o.cdevAdd
  let err ← acquiring .hook o.netHook
  if err ≠ 0 then
    releasing .cdev
    releasing .region
    return err
  return 0

/-- `my_hook_exit`. -/
def myHookExit : Traced Res Unit := do
  releasing .hook
  releasing .cdev
  releasing .region

/-! ### `ioctltest` -/

/-- `error`, in `ioctl_init`. -/
def ioctlError (allocRet cdevRet : ℤ) : Traced Res ℤ := do
  if cdevRet = 0 then
    releasing .cdev
  if allocRet = 0 then
    releasing .region
  return -1

/-- `ioctl_init`. -/
def ioctlInit (o : Calls) : Traced Res ℤ := do
  let cdevRet : ℤ := -1
  let allocRet ← acquiring .region o.region
  if allocRet ≠ 0 then
    return ← ioctlError allocRet cdevRet
  let cdevRet ← acquiring .cdev o.cdevAdd
  if cdevRet ≠ 0 then
    return ← ioctlError allocRet cdevRet
  return 0

/-- `ioctl_exit`. -/
def ioctlExit : Traced Res Unit := do
  releasing .cdev
  releasing .region

/-! ### `hello_sysfs` and the files in `/proc` -/

/-- `mymodule_init`. -/
def mymoduleInit (o : Calls) : Traced Res ℤ := do
  if !(← obtaining .kobject o.kobject) then
    return -enomem
  touching .kobject
  let error := o.createFile.val
  if error ≠ 0 then
    releasing .kobject
  return error

/-- `mymodule_exit`. -/
def mymoduleExit : Traced Res Unit := releasing .kobject

/-- `procfs1_init` and `procfs_2_init`. -/
def procfsInit (o : Calls) : Traced Res ℤ := do
  if !(← obtaining .procFile o.procCreate) then
    return -enomem
  return 0

/-- `procfs_3_init`, which sets the size and the owner as well. -/
def procfs3Init (o : Calls) : Traced Res ℤ := do
  if !(← obtaining .procFile o.procCreate) then
    return -enomem
  touching .procFile
  touching .procFile
  return 0

/-- `procfs1_exit`, `procfs_2_exit` and `procfs_3_exit`. -/
def procfsExit : Traced Res Unit := releasing .procFile

/-! ### The module that allocates memory -/

/-- `task_info_alloc`: whether there is memory. -/
def taskInfoAlloc (res : Res) (ok : Bool) : Traced Res Bool := do
  let ti ← obtaining res ok
  if ti then
    -- `pid` and `timestamp`
    touching res
    touching res
  return ti

/-- `memory_init`: which of the four pointers are not null. -/
def memoryPointers (o : Calls) : Traced Res (Bool × Bool × Bool × Bool) := do
  let tiCurr ← taskInfoAlloc .tiCurr o.allocCurr
  let tiParent ← if o.parent then taskInfoAlloc .tiParent o.allocParent else pure false
  if o.next then
    let tiNxt ← taskInfoAlloc .tiNxt o.allocNxt
    let tiNxtNxt ← if o.nextNext then taskInfoAlloc .tiNxtNxt o.allocNxtNxt else pure false
    return (tiCurr, tiParent, tiNxt, tiNxtNxt)
  else
    return (tiCurr, tiParent, false, false)

/-- `memory_init`. -/
def memoryInit (o : Calls) : Traced Res ℤ := do
  let _ ← memoryPointers o
  return 0

/-- `pr_info`, for a task the pointer points to, if there is one. -/
def prInfo (res : Res) (ti : Bool) : Traced Res Unit := if ti then touching res else pure ()

/-- `kfree`. -/
def kfree (res : Res) (ti : Bool) : Traced Res Unit := if ti then releasing res else pure ()

/-- `memory_exit`, with the pointers that `memory_init` has left. -/
def memoryExit (o : Calls) : Traced Res Unit := do
  let (tiCurr, tiParent, tiNxt, tiNxtNxt) := (memoryPointers o).val
  -- `ti_curr` is not looked at before it is used
  touching .tiCurr
  prInfo .tiParent tiParent
  prInfo .tiNxt tiNxt
  prInfo .tiNxtNxt tiNxtNxt
  kfree .tiCurr tiCurr
  kfree .tiParent tiParent
  kfree .tiNxt tiNxt
  kfree .tiNxtNxt tiNxtNxt

/-! ### One life -/

/-- A call returns 0, or a negative number. -/
theorem ret_cases (r : Ret) : r.ok = true ∧ r.val = 0 ∨ r.ok = false ∧ r.val < 0 := by
  have hnonpos := r.nonpos
  rcases eq_or_ne r.val 0 with hzero | hne
  · exact .inl ⟨by simp [Ret.ok, hzero], hzero⟩
  · exact .inr ⟨by simp [Ret.ok, hne], by omega⟩

/-- The keylogger. -/
def kbd : Loader Res Calls := ⟨kbdInit, fun _ => kbdExit⟩

/-- `cdev_add`, if `kbd_init` gets there, succeeds. -/
def KbdClean (o : Calls) : Prop :=
  o.region.ok = true → o.dataPort = true → o.statusPort = true → o.requestIrq.ok = true →
    o.cdevAdd.ok = true

theorem kbd_balanced : kbd.Balanced KbdClean := by
  intro o
  rcases ret_cases o.region with ⟨hregion, hval⟩ | ⟨hregion, hval⟩
  · rcases hdata : o.dataPort with - | -
    · refine .inl ⟨by simp [KbdClean, hdata], ?_⟩
      simp [Loader.life, kbd, kbdInit, outUnregister, hregion, hval, hdata, ebusy]
    · rcases hstatus : o.statusPort with - | -
      · refine .inl ⟨by simp [KbdClean, hstatus], ?_⟩
        simp [Loader.life, kbd, kbdInit, outUnregister, outReleaseRegion, hregion, hval, hdata,
          hstatus, ebusy]
      · rcases ret_cases o.requestIrq with ⟨hirq, hvalIrq⟩ | ⟨hirq, hvalIrq⟩
        · rcases hcdev : o.cdevAdd.ok with - | -
          · refine .inr ⟨by simp [KbdClean, hregion, hdata, hstatus, hirq, hcdev], ?_, ?_⟩
            · simp [kbd, kbdInit, hregion, hval, hdata, hstatus, hirq, hvalIrq, hcdev,
                Ledger.empty]
            · simp [Loader.life, kbd, kbdInit, kbdExit, hregion, hval, hdata, hstatus, hirq,
                hvalIrq, hcdev]
              decide
          · refine .inl ⟨fun _ _ _ _ => hcdev, ?_⟩
            simp [Loader.life, kbd, kbdInit, kbdExit, hregion, hval, hdata, hstatus, hirq,
              hvalIrq, hcdev]
        · refine .inl ⟨by simp [KbdClean, hirq], ?_⟩
          simp [Loader.life, kbd, kbdInit, outUnregister, outReleaseRegion, outReleaseRegions,
            hregion, hval, hdata, hstatus, hirq, hvalIrq, hvalIrq.ne]
  · refine .inl ⟨by simp [KbdClean, hregion], ?_⟩
    simp [Loader.life, kbd, kbdInit, hregion, hval.ne]

/-- The packet filter. -/
def filter : Loader Res Calls := ⟨myHookInit, fun _ => myHookExit⟩

/-- `cdev_add`, if `my_hook_init` gets there, succeeds. -/
def FilterClean (o : Calls) : Prop := o.region.ok = true → o.cdevAdd.ok = true

theorem filter_balanced : filter.Balanced FilterClean := by
  intro o
  rcases ret_cases o.region with ⟨hregion, hval⟩ | ⟨hregion, hval⟩
  · rcases hcdev : o.cdevAdd.ok with - | -
    · refine .inr ⟨by simp [FilterClean, hregion, hcdev], ?_⟩
      rcases ret_cases o.netHook with ⟨hhook, hvalHook⟩ | ⟨hhook, hvalHook⟩
      · constructor
        · simp [filter, myHookInit, hregion, hval, hcdev, hhook, hvalHook, Ledger.empty]
        · simp [Loader.life, filter, myHookInit, myHookExit, hregion, hval, hcdev, hhook,
            hvalHook]
          decide
      · constructor
        · simp [filter, myHookInit, hval, hvalHook.ne]
        · simp [Loader.life, filter, myHookInit, hregion, hval, hcdev, hhook, hvalHook.ne]
          decide
    · refine .inl ⟨fun _ => hcdev, ?_⟩
      rcases ret_cases o.netHook with ⟨hhook, hvalHook⟩ | ⟨hhook, hvalHook⟩
      · simp [Loader.life, filter, myHookInit, myHookExit, hregion, hval, hcdev, hhook, hvalHook]
      · simp [Loader.life, filter, myHookInit, hregion, hval, hcdev, hhook, hvalHook.ne]
  · refine .inl ⟨by simp [FilterClean, hregion], ?_⟩
    simp [Loader.life, filter, myHookInit, hregion, hval.ne]

/-- `ioctltest`. -/
def ioctltest : Loader Res Calls := ⟨ioctlInit, fun _ => ioctlExit⟩

theorem ioctltest_balanced : ioctltest.Balanced fun _ => True := by
  refine fun o => .inl ⟨trivial, ?_⟩
  rcases ret_cases o.region with ⟨hregion, hval⟩ | ⟨hregion, hval⟩
  · rcases ret_cases o.cdevAdd with ⟨hcdev, hvalCdev⟩ | ⟨hcdev, hvalCdev⟩
    · simp [Loader.life, ioctltest, ioctlInit, ioctlExit, hregion, hval, hcdev, hvalCdev]
    · simp [Loader.life, ioctltest, ioctlInit, ioctlError, hregion, hval, hcdev, hvalCdev.ne]
  · simp [Loader.life, ioctltest, ioctlInit, ioctlError, hregion, hval.ne]

/-- `hello_sysfs`. -/
def helloSysfs : Loader Res Calls := ⟨mymoduleInit, fun _ => mymoduleExit⟩

theorem helloSysfs_balanced : helloSysfs.Balanced fun _ => True := by
  refine fun o => .inl ⟨trivial, ?_⟩
  rcases hkobject : o.kobject with - | -
  · simp [Loader.life, helloSysfs, mymoduleInit, hkobject, enomem]
  · rcases ret_cases o.createFile with ⟨-, hval⟩ | ⟨-, hval⟩
    · simp [Loader.life, helloSysfs, mymoduleInit, mymoduleExit, hkobject, hval]
    · simp [Loader.life, helloSysfs, mymoduleInit, hkobject, hval.ne]

/-- `procfs_1` and `procfs_2`. -/
def procfs : Loader Res Calls := ⟨procfsInit, fun _ => procfsExit⟩

theorem procfs_balanced : procfs.Balanced fun _ => True := by
  refine fun o => .inl ⟨trivial, ?_⟩
  rcases hfile : o.procCreate with - | -
  · simp [Loader.life, procfs, procfsInit, hfile, enomem]
  · simp [Loader.life, procfs, procfsInit, procfsExit, hfile]

/-- `procfs_3`. -/
def procfs3 : Loader Res Calls := ⟨procfs3Init, fun _ => procfsExit⟩

theorem procfs3_balanced : procfs3.Balanced fun _ => True := by
  refine fun o => .inl ⟨trivial, ?_⟩
  rcases hfile : o.procCreate with - | -
  · simp [Loader.life, procfs3, procfs3Init, hfile, enomem]
  · simp [Loader.life, procfs3, procfs3Init, procfsExit, hfile]

/-! ### The pointers -/

/-- What `task_info_alloc` does. -/
def allocOps (res : Res) (ok : Bool) : List (Op Res) :=
  if ok then [.acquire res, .use res, .use res] else []

theorem taskInfoAlloc_eq (res : Res) (ok : Bool) :
    taskInfoAlloc res ok = ⟨allocOps res ok, ok⟩ := by
  cases ok <;> rfl

/-- **What `memory_init` does**, and the pointers it leaves. -/
theorem memoryPointers_eq (o : Calls) :
    memoryPointers o =
      ⟨allocOps .tiCurr o.allocCurr ++ allocOps .tiParent (o.parent && o.allocParent) ++
        allocOps .tiNxt (o.next && o.allocNxt) ++
        allocOps .tiNxtNxt (o.next && (o.nextNext && o.allocNxtNxt)),
      (o.allocCurr, o.parent && o.allocParent, o.next && o.allocNxt,
        o.next && (o.nextNext && o.allocNxtNxt))⟩ := by
  rcases hparent : o.parent with - | - <;> rcases hnext : o.next with - | - <;>
    rcases hnextNext : o.nextNext with - | - <;> ext1 <;>
    simp [memoryPointers, taskInfoAlloc_eq, hparent, hnext, hnextNext, allocOps]

/-- What `memory_exit` does with a pointer that may be null. -/
def useOps (res : Res) (ti : Bool) : List (Op Res) := if ti then [.use res] else []

/-- And at its end. -/
def freeOps (res : Res) (ti : Bool) : List (Op Res) := if ti then [.release res] else []

/-- What is done with the four pointers, from the load to the unload. -/
def memoryOps (tiCurr tiParent tiNxt tiNxtNxt : Bool) : List (Op Res) :=
  allocOps .tiCurr tiCurr ++ allocOps .tiParent tiParent ++ allocOps .tiNxt tiNxt ++
    allocOps .tiNxtNxt tiNxtNxt ++ .use .tiCurr :: (useOps .tiParent tiParent ++
    useOps .tiNxt tiNxt ++ useOps .tiNxtNxt tiNxtNxt ++ freeOps .tiCurr tiCurr ++
    freeOps .tiParent tiParent ++ freeOps .tiNxt tiNxt ++ freeOps .tiNxtNxt tiNxtNxt)

/-- The module that allocates memory. -/
def memory : Loader Res Calls := ⟨memoryInit, memoryExit⟩

theorem life_memory (o : Calls) :
    memory.life o = memoryOps o.allocCurr (o.parent && o.allocParent) (o.next && o.allocNxt)
      (o.next && (o.nextNext && o.allocNxtNxt)) := by
  have hprInfo : ∀ res ti, prInfo res ti = ⟨useOps res ti, ()⟩ := by
    rintro res (- | -) <;> rfl
  have hkfree : ∀ res ti, kfree res ti = ⟨freeOps res ti, ()⟩ := by
    rintro res (- | -) <;> rfl
  simp [Loader.life, memory, memoryOps, memoryInit, memoryExit, memoryPointers_eq, hprInfo,
    hkfree]

theorem memoryOps_even (tiParent tiNxt tiNxtNxt : Bool) :
    Ledger.empty.after (memoryOps true tiParent tiNxt tiNxtNxt) = Ledger.empty := by
  have hheld : (Ledger.empty.after (memoryOps true tiParent tiNxt tiNxtNxt)).held
      = Ledger.empty.held := by
    funext r
    cases tiParent <;> cases tiNxt <;> cases tiNxtNxt <;> cases r <;> rfl
  have hbad : (Ledger.empty.after (memoryOps true tiParent tiNxt tiNxtNxt)).bad = [] := by
    cases tiParent <;> cases tiNxt <;> cases tiNxtNxt <;> rfl
  exact congrArg₂ Ledger.mk hheld hbad

/-- `ti_curr` is used without having been looked at. -/
theorem memoryOps_wrong (tiParent tiNxt tiNxtNxt : Bool) :
    (Ledger.empty.after (memoryOps false tiParent tiNxt tiNxtNxt)).bad ≠ [] := by
  cases tiParent <;> cases tiNxt <;> cases tiNxtNxt <;> decide

/-- What is used while the module is loaded has just been acquired. -/
theorem allocOps_right (tiParent tiNxt tiNxtNxt : Bool) :
    (Ledger.empty.after (allocOps .tiCurr false ++ allocOps .tiParent tiParent ++
      allocOps .tiNxt tiNxt ++ allocOps .tiNxtNxt tiNxtNxt)).bad = [] := by
  cases tiParent <;> cases tiNxt <;> cases tiNxtNxt <;> rfl

/-- There is memory for `ti_curr`. -/
def MemoryClean (o : Calls) : Prop := o.allocCurr = true

theorem memory_balanced : memory.Balanced MemoryClean := by
  intro o
  rw [life_memory]
  rcases hcurr : o.allocCurr with - | -
  · refine .inr ⟨by simp [MemoryClean, hcurr], fun _ => ?_, memoryOps_wrong _ _ _⟩
    have hops : (memory.init o).ops = (memoryPointers o).ops := by simp [memory, memoryInit]
    rw [hops, memoryPointers_eq, hcurr]
    exact allocOps_right _ _ _
  · exact .inl ⟨hcurr, memoryOps_even _ _ _⟩

/-! ### All of them -/

/-- The modules. -/
inductive Module where
  /-- `keylogger/kbd.c`. -/
  | kbd : Module
  /-- `networking/kernel/filter.c`. -/
  | filter : Module
  /-- `device_drivers/chardev/ioctl.c`. -/
  | ioctltest : Module
  /-- `kernel_pseudo_filesystem/hello_sysfs.c`. -/
  | helloSysfs : Module
  /-- `kernel_pseudo_filesystem/procfs_1.c` and `procfs_2.c`. -/
  | procfs : Module
  /-- `kernel_pseudo_filesystem/procfs_3.c`. -/
  | procfs3 : Module
  /-- `kernel_api/memory/memory.c`. -/
  | memory : Module

/-- Its two functions. -/
def Module.loader : Module → Loader Res Calls
  | .kbd => Loading.kbd
  | .filter => Loading.filter
  | .ioctltest => Loading.ioctltest
  | .helloSysfs => Loading.helloSysfs
  | .procfs => Loading.procfs
  | .procfs3 => Loading.procfs3
  | .memory => Loading.memory

/-- **The outcome it does not look at is good.** -/
def Module.Clean : Module → Calls → Prop
  | .kbd => KbdClean
  | .filter => FilterClean
  | .memory => MemoryClean
  | .ioctltest | .helloSysfs | .procfs | .procfs3 => fun _ => True

theorem Module.balanced (m : Module) : m.loader.Balanced m.Clean := by
  cases m with
  | kbd => exact kbd_balanced
  | filter => exact filter_balanced
  | ioctltest => exact ioctltest_balanced
  | helloSysfs => exact helloSysfs_balanced
  | procfs => exact procfs_balanced
  | procfs3 => exact procfs3_balanced
  | memory => exact memory_balanced

/-- **A module uses and gives back nothing but what it holds exactly as long as the outcome it
does not look at is good** in every life that ends; and then it holds what its load has acquired
while it is loaded, and nothing when it is not. -/
theorem ledger_exact (m : Module) (acts : List (Loader.Act Calls)) :
    ((run m.loader.step Loader.State.start acts).ledger.bad = [] ↔
      Along m.loader.step (m.loader.EndsClean m.Clean) Loader.State.start acts) ∧
    (Along m.loader.step (m.loader.EndsClean m.Clean) Loader.State.start acts →
      m.loader.Exact (run m.loader.step Loader.State.start acts)) :=
  ⟨Loader.bad_run_iff m.balanced acts Loader.exact_start,
    fun hacts => Loader.Exact.run m.balanced acts Loader.exact_start hacts⟩

end Loading

end KernelModules
