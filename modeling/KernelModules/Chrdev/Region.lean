import Mathlib.Algebra.Order.Group.Int
import Mathlib.Data.List.Basic
import Mathlib.Logic.Function.Basic
import KernelModules.Lib.Run

/-!
# Four modules for one device number

`so2_cdev`, the keylogger, `deferred` and the packet filter all ask for device number
(42, 0). The kernel's registry of device regions is what keeps them apart: the first one
loaded has it, and the others are refused until it is unloaded. This takes each of them to
stop when `register_chrdev_region` fails, and to give back what it has registered itself
and nothing else.

Three of them do. `so2_cdev_init` has its test the wrong way round: it stops when the
registration *succeeds*, and goes on when it fails. So it is loaded in both cases, in the
one without a character device and in the other without a region, and gives back at its
unload the region of whoever has it: `KernelModules.Chrdev.respects_iff`.
-/

namespace KernelModules

namespace Chrdev

/-! ### The kernel's side -/

/-- The modules. -/
inductive Module where
  /-- `device_drivers/lkt_char_dev/so2_cdev.c`. -/
  | so2Cdev : Module
  /-- `keylogger/kbd.c`. -/
  | kbd : Module
  /-- `deferred_work/deferred/kernel/deferred.c`. -/
  | deferred : Module
  /-- `networking/kernel/filter.c`. -/
  | filter : Module
deriving DecidableEq

/-- A range of device numbers. -/
structure Range where
  /-- The major number. -/
  major : ℕ
  /-- The first minor number. -/
  minor : ℕ
  /-- How many. -/
  count : ℕ
deriving DecidableEq

/-- Two ranges have a device number in common. -/
def Range.overlaps (r q : Range) : Bool :=
  r.major == q.major && decide (r.minor < q.minor + q.count) &&
    decide (q.minor < r.minor + r.count)

/-- The kernel, as far as device numbers go. -/
structure Host where
  /-- The regions registered, with who has registered them; `none` is somebody else. -/
  registry : List (Range × Option Module)
  /-- The character devices published. -/
  cdevs : List (Range × Module)
  /-- The modules loaded. -/
  loaded : Module → Bool

/-- None of the four is loaded; others have regions. -/
def Host.start (others : List Range) : Host := ⟨others.map fun r => (r, none), [], fun _ => false⟩

/-- `EBUSY`. -/
def ebusy : ℤ := 16

/-- `register_chrdev_region`. -/
def registerChrdevRegion (r : Range) (by_ : Module) : StateM Host ℤ := fun h =>
  if h.registry.any fun e => r.overlaps e.1 then (-ebusy, h)
  else (0, { h with registry := (r, some by_) :: h.registry })

/-- `unregister_chrdev_region`: the region goes, whoever has registered it. -/
def unregisterChrdevRegion (r : Range) : StateM Host Unit := fun h =>
  ((), { h with registry := h.registry.eraseP fun e => e.1 == r })

/-- `cdev_init` and `cdev_add`. -/
def cdevAdd (r : Range) (by_ : Module) : StateM Host Unit := fun h =>
  ((), { h with cdevs := (r, by_) :: h.cdevs })

/-- `cdev_del`, for the one device a module has of a number. -/
def cdevDel (r : Range) (by_ : Module) : StateM Host Unit := fun h =>
  ((), { h with cdevs := h.cdevs.filter fun e => e ≠ (r, by_) })

/-- The outcomes of the other calls. -/
structure Calls where
  /-- `request_region` for the data register. -/
  dataRegion : Bool
  /-- `request_region` for the status register. -/
  statusRegion : Bool
  /-- `request_irq`. -/
  requestIrq : ℤ
  /-- `nf_register_net_hook`. -/
  nfRegisterNetHook : ℤ

/-- They succeed. -/
def Calls.success : Calls := ⟨true, true, 0, 0⟩

/-! ### The modules' side -/

/-- `MY_MAJOR`, `KBD_MAJOR`. -/
def myMajor : ℕ := 42
/-- `MY_MINOR`, `KBD_MINOR`. -/
def myMinor : ℕ := 0
/-- `NUM_MINORS`, `KBD_NR_MINORS`. -/
def numMinors : ℕ := 1

/-- What each of them registers. -/
def region : Range := ⟨myMajor, myMinor, numMinors⟩

/-- `so2_cdev_init`. -/
def so2CdevInit : StateM Host ℤ := do
  let err ← registerChrdevRegion region .so2Cdev
  -- `if(!err)`
  if err = 0 then
    return err
  (List.range numMinors).forM fun i => cdevAdd ⟨myMajor, i, 1⟩ .so2Cdev
  return 0

/-- `so2_cdev_exit`. -/
def so2CdevExit : StateM Host Unit := do
  (List.range numMinors).forM fun i => cdevDel ⟨myMajor, i, 1⟩ .so2Cdev
  unregisterChrdevRegion region

/-- `kbd_init`; the I/O regions and the interrupt line it gives back when it fails are no
device numbers. -/
def kbdInit (o : Calls) : StateM Host ℤ := do
  let err ← registerChrdevRegion region .kbd
  if err ≠ 0 then
    return err
  if !o.dataRegion then
    unregisterChrdevRegion region
    return -ebusy
  if !o.statusRegion then
    unregisterChrdevRegion region
    return -ebusy
  if o.requestIrq < 0 then
    unregisterChrdevRegion region
    return o.requestIrq
  cdevAdd ⟨myMajor, myMinor, 1⟩ .kbd
  return 0

/-- `kbd_exit`. -/
def kbdExit : StateM Host Unit := do
  cdevDel ⟨myMajor, myMinor, 1⟩ .kbd
  unregisterChrdevRegion region

/-- `deferred_init`. -/
def deferredInit : StateM Host ℤ := do
  let err ← registerChrdevRegion region .deferred
  if err ≠ 0 then
    return err
  cdevAdd ⟨myMajor, myMinor, 1⟩ .deferred
  return 0

/-- `deferred_exit`. -/
def deferredExit : StateM Host Unit := do
  cdevDel ⟨myMajor, myMinor, 1⟩ .deferred
  unregisterChrdevRegion region

/-- `my_hook_init`. -/
def myHookInit (o : Calls) : StateM Host ℤ := do
  let err ← registerChrdevRegion region .filter
  if err ≠ 0 then
    return err
  cdevAdd ⟨myMajor, 0, 1⟩ .filter
  if o.nfRegisterNetHook ≠ 0 then
    cdevDel ⟨myMajor, 0, 1⟩ .filter
    unregisterChrdevRegion region
    return o.nfRegisterNetHook
  return 0

/-- `my_hook_exit`. -/
def myHookExit : StateM Host Unit := do
  cdevDel ⟨myMajor, 0, 1⟩ .filter
  unregisterChrdevRegion region

/-- The function a module is loaded with. -/
def Module.init (o : Calls) : Module → StateM Host ℤ
  | .so2Cdev => so2CdevInit
  | .kbd => kbdInit o
  | .deferred => deferredInit
  | .filter => myHookInit o

/-- The function a module is unloaded with. -/
def Module.exit : Module → StateM Host Unit
  | .so2Cdev => so2CdevExit
  | .kbd => kbdExit
  | .deferred => deferredExit
  | .filter => myHookExit

/-! ### Loading and unloading -/

/-- What can happen next. -/
inductive Act where
  /-- A module is loaded. -/
  | load (m : Module) : Act
  /-- A module is unloaded. -/
  | unload (m : Module) : Act
deriving DecidableEq

/-- What the load of a module returns, and the kernel after it. -/
def Host.load (h : Host) (m : Module) : ℤ × Host := ((m.init .success).run h).run

/-- The kernel after the unload of a module. -/
def Host.unload (h : Host) (m : Module) : Host := (m.exit.run h).run.2

/-- **One step.** The kernel refuses to load a module twice, and to unload one that is not
loaded. -/
def step (h : Host) : Act → Host
  | .load m =>
    if h.loaded m then h
    else
      let after := h.load m
      if after.1 = 0 then { after.2 with loaded := Function.update h.loaded m true } else after.2
  | .unload m =>
    if h.loaded m then { h.unload m with loaded := Function.update h.loaded m false } else h

/-- Nobody has registered the device number. -/
def Host.Free (h : Host) : Prop := ∀ e ∈ h.registry, region.overlaps e.1 = false

/-- The module has registered the device number, nobody else has, and its character device
is published. -/
structure Host.Owns (h : Host) (m : Module) : Prop where
  registered : (region, some m) ∈ h.registry
  alone : ∀ e ∈ h.registry, region.overlaps e.1 = true → e = (region, some m)
  published : (region, m) ∈ h.cdevs

/-- At most one module is loaded. -/
def Host.Exclusive (h : Host) : Prop := ∀ m m', h.loaded m = true → h.loaded m' = true → m = m'

/-- **The modules do not get in each other's way.** A load succeeds exactly if the device
number is free, and the module then has it; a load that fails changes nothing; an unload
takes away what the module has and nothing else; at most one is loaded. -/
def Respects (h : Host) (a : Act) : Prop :=
  (match a with
  | .load m =>
    h.loaded m = false →
      ((h.load m).1 = 0 ↔ h.Free) ∧
      ((h.load m).1 = 0 → (h.load m).2.Owns m) ∧
      ((h.load m).1 ≠ 0 →
        (h.load m).2.registry = h.registry ∧ (h.load m).2.cdevs = h.cdevs)
  | .unload m =>
    h.loaded m = true →
      h.Owns m ∧
      (h.unload m).registry = h.registry.filter (fun e => e.2 ≠ some m) ∧
      (h.unload m).cdevs = h.cdevs.filter fun e => e.2 ≠ m) ∧
  (step h a).Exclusive

/-! ### What the functions do -/

theorem register_of_free {h : Host} (hfree : h.Free) (m : Module) :
    (registerChrdevRegion region m).run h
      = pure (0, { h with registry := (region, some m) :: h.registry }) := by
  have hany : (h.registry.any fun e => region.overlaps e.1) = false := by
    simpa [Host.Free] using hfree
  simp only [registerChrdevRegion, StateT.run, hany, Bool.false_eq_true, if_false]
  rfl

theorem register_of_taken {h : Host} (htaken : ¬h.Free) (m : Module) :
    (registerChrdevRegion region m).run h = pure (-ebusy, h) := by
  have hany : (h.registry.any fun e => region.overlaps e.1) = true := by
    simpa [Host.Free] using htaken
  simp only [registerChrdevRegion, StateT.run, hany, if_true]
  rfl

/-- The one device number of the region. -/
theorem device_eq : Range.mk myMajor myMinor 1 = region := rfl

theorem device_eq_zero : Range.mk myMajor 0 1 = region := rfl

theorem cdevAdd_run (r : Range) (m : Module) (h : Host) :
    (cdevAdd r m).run h = pure ((), { h with cdevs := (r, m) :: h.cdevs }) := rfl

theorem cdevDel_run (r : Range) (m : Module) (h : Host) :
    (cdevDel r m).run h = pure ((), { h with cdevs := h.cdevs.filter fun e => e ≠ (r, m) }) := rfl

theorem unregister_run (r : Range) (h : Host) :
    (unregisterChrdevRegion r).run h
      = pure ((), { h with registry := h.registry.eraseP fun e => e.1 == r }) := rfl

theorem ebusy_ne_zero : ebusy ≠ 0 := by decide

/-- **Three of the modules take the device number when it is free.** -/
theorem load_of_free {h : Host} (hfree : h.Free) {m : Module} (hm : m ≠ .so2Cdev) :
    h.load m =
      (0, { h with
        registry := (region, some m) :: h.registry
        cdevs := (region, m) :: h.cdevs }) := by
  cases m with
  | so2Cdev => exact absurd rfl hm
  | kbd | deferred | filter =>
    simp [Host.load, Module.init, kbdInit, deferredInit, myHookInit, register_of_free hfree,
      Calls.success, device_eq, device_eq_zero, cdevAdd_run]

/-- **They change nothing when it is not.** -/
theorem load_of_taken {h : Host} (htaken : ¬h.Free) {m : Module} (hm : m ≠ .so2Cdev) :
    h.load m = (-ebusy, h) := by
  cases m with
  | so2Cdev => exact absurd rfl hm
  | kbd | deferred | filter =>
    simp [Host.load, Module.init, kbdInit, deferredInit, myHookInit, register_of_taken htaken,
      ebusy_ne_zero]

/-- `so2_cdev_init` stops when its registration succeeds. -/
theorem load_so2_of_free {h : Host} (hfree : h.Free) :
    h.load .so2Cdev = (0, { h with registry := (region, some .so2Cdev) :: h.registry }) := by
  simp [Host.load, Module.init, so2CdevInit, register_of_free hfree]

/-- And goes on when it fails. -/
theorem load_so2_of_taken {h : Host} (htaken : ¬h.Free) :
    h.load .so2Cdev = (0, { h with cdevs := (region, .so2Cdev) :: h.cdevs }) := by
  simp [Host.load, Module.init, so2CdevInit, register_of_taken htaken, ebusy_ne_zero, numMinors,
    List.range_succ, device_eq_zero, cdevAdd_run]

theorem unload_eq (h : Host) (m : Module) :
    h.unload m =
      { h with
        registry := h.registry.eraseP fun e => e.1 == region
        cdevs := h.cdevs.filter fun e => e ≠ (region, m) } := by
  cases m with
  | so2Cdev | kbd | deferred | filter =>
    simp [Host.unload, Module.exit, so2CdevExit, kbdExit, deferredExit, myHookExit, numMinors,
      List.range_succ, device_eq, device_eq_zero, cdevDel_run, unregister_run]

/-! ### Runs without `so2_cdev` -/

/-- **Either none is loaded, or one is and has the device number.** -/
inductive Sound (others : List Range) : Host → Prop
  /-- None is loaded. -/
  | idle : Sound others (Host.start others)
  /-- One is. -/
  | owned {m : Module} (hm : m ≠ .so2Cdev) (hfree : (Host.start others).Free) :
      Sound others
        ⟨(region, some m) :: (Host.start others).registry, [(region, m)],
          Function.update (fun _ => false) m true⟩

theorem overlaps_region : region.overlaps region = true := by decide

theorem exclusive_start (others : List Range) : (Host.start others).Exclusive := by
  intro m m' hm
  exact absurd hm (by simp [Host.start])

theorem exclusive_owned {registry : List (Range × Option Module)} {cdevs : List (Range × Module)}
    (m : Module) :
    (Host.mk registry cdevs (Function.update (fun _ => false) m true)).Exclusive := by
  intro m₁ m₂ h₁ h₂
  have hone : ∀ {n}, Function.update (fun _ => false) m true n = true → n = m := by
    intro n hn
    by_contra hne
    simp [hne] at hn
  rw [hone h₁, hone h₂]

/-- A load that is refused is as it should be. -/
theorem refused {h : Host} (htaken : ¬h.Free) {m : Module} (hm : m ≠ .so2Cdev) :
    ((h.load m).1 = 0 ↔ h.Free) ∧ ((h.load m).1 = 0 → (h.load m).2.Owns m) ∧
      ((h.load m).1 ≠ 0 → (h.load m).2.registry = h.registry ∧ (h.load m).2.cdevs = h.cdevs) := by
  rw [load_of_taken htaken hm]
  have hne : -ebusy ≠ 0 := by decide
  exact ⟨iff_of_false hne htaken, fun hzero => absurd hzero hne, fun _ => ⟨rfl, rfl⟩⟩

/-- **With none of them loaded, a load takes the device number if it is free.** -/
theorem respects_load_idle {others : List Range} {m : Module} (hm : m ≠ .so2Cdev) :
    Respects (Host.start others) (.load m) ∧ Sound others (step (Host.start others) (.load m)) := by
  by_cases hfree : (Host.start others).Free
  · have hload := load_of_free hfree hm
    have hstep : step (Host.start others) (.load m) =
        ⟨(region, some m) :: (Host.start others).registry, [(region, m)],
          Function.update (fun _ => false) m true⟩ := by
      simp only [step, hload]
      rfl
    refine ⟨⟨fun _ => ⟨?_, fun _ => ?_, fun hne => ?_⟩, ?_⟩, hstep ▸ .owned hm hfree⟩
    · rw [hload]
      exact iff_of_true rfl hfree
    · rw [hload]
      refine ⟨List.mem_cons_self, fun e he hover => ?_, List.mem_cons_self⟩
      refine (List.mem_cons.mp he).resolve_right fun he => ?_
      exact absurd (hfree e he) (by simp [hover])
    · exact absurd (by rw [hload]) hne
    · rw [hstep]
      exact exclusive_owned m
  · have hload := load_of_taken hfree hm
    have hstep : step (Host.start others) (.load m) = Host.start others := by
      simp only [step, hload]
      rfl
    refine ⟨⟨fun _ => refused hfree hm, ?_⟩, ?_⟩
    · rw [hstep]
      exact exclusive_start others
    · rw [hstep]
      exact .idle

/-- **With one of them loaded, no other is.** -/
theorem respects_load_owned {others : List Range} {m n : Module} (hm : m ≠ .so2Cdev)
    (hn : n ≠ .so2Cdev) (hfree : (Host.start others).Free) :
    let h : Host := ⟨(region, some m) :: (Host.start others).registry, [(region, m)],
      Function.update (fun _ => false) m true⟩
    Respects h (.load n) ∧ Sound others (step h (.load n)) := by
  intro h
  have htaken : ¬h.Free := fun hf => by
    have hself := hf (region, some m) List.mem_cons_self
    exact absurd hself (by simp [overlaps_region])
  have hstep : step h (.load n) = h := by
    simp only [step, load_of_taken htaken hn]
    split <;> rfl
  refine ⟨⟨fun _ => refused htaken hn, ?_⟩, ?_⟩
  · rw [hstep]
    exact exclusive_owned m
  · rw [hstep]
    exact .owned hm hfree

theorem filter_others {others : List Range} (m : Module) :
    (Host.start others).registry.filter (fun e => e.2 ≠ some m) = (Host.start others).registry := by
  refine List.filter_eq_self.mpr fun e he => ?_
  obtain ⟨r, -, rfl⟩ := List.mem_map.mp he
  simp

theorem unload_owned (registry : List (Range × Option Module)) (m : Module)
    (loaded : Module → Bool) :
    (Host.mk ((region, some m) :: registry) [(region, m)] loaded).unload m
      = ⟨registry, [], loaded⟩ := by
  rw [unload_eq]
  simp

/-- **An unload gives back what the module has.** -/
theorem respects_unload {others : List Range} {m : Module} (hfree : (Host.start others).Free) :
    let h : Host := ⟨(region, some m) :: (Host.start others).registry, [(region, m)],
      Function.update (fun _ => false) m true⟩
    Respects h (.unload m) ∧ Sound others (step h (.unload m)) := by
  intro h
  have hunload : h.unload m = ⟨(Host.start others).registry, [], h.loaded⟩ := unload_owned ..
  have hloaded : h.loaded m = true := by simp [h]
  have hstep : step h (.unload m) = Host.start others := by
    rw [step, if_pos hloaded, hunload]
    simp [h, Host.start]
  refine ⟨⟨fun _ => ⟨⟨List.mem_cons_self, fun e he hover => ?_, List.mem_cons_self⟩, ?_, ?_⟩, ?_⟩,
    ?_⟩
  · refine (List.mem_cons.mp he).resolve_right fun he => ?_
    exact absurd (hfree e he) (by simp [hover])
  · rw [hunload, List.filter_cons_of_neg (by simp), filter_others]
  · rw [hunload, List.filter_cons_of_neg (by simp), List.filter_nil]
  · rw [hstep]
    exact exclusive_start others
  · rw [hstep]
    exact .idle

/-- The unload of a module that is not loaded. -/
theorem respects_unload_other {others : List Range} {h : Host} (hs : Sound others h) {m : Module}
    (hm : h.loaded m = false) : Respects h (.unload m) ∧ Sound others (step h (.unload m)) := by
  have hstep : step h (.unload m) = h := by simp [step, hm]
  refine ⟨⟨fun hl => absurd hl (by simp [hm]), ?_⟩, hstep.symm ▸ hs⟩
  rw [hstep]
  cases hs with
  | idle => exact exclusive_start others
  | owned => exact exclusive_owned _

/-- **Without `so2_cdev` every step is as it should be.** -/
theorem Sound.step {others : List Range} {h : Host} (hs : Sound others h) {a : Act}
    (ha : a ≠ .load .so2Cdev) : Respects h a ∧ Sound others (step h a) := by
  cases a with
  | load n =>
    have hn : n ≠ .so2Cdev := fun he => ha (he ▸ rfl)
    cases hs with
    | idle => exact respects_load_idle hn
    | owned hm hfree => exact respects_load_owned hm hn hfree
  | unload n =>
    cases hs with
    | idle => exact respects_unload_other .idle rfl
    | @owned m hm hfree =>
      rcases eq_or_ne n m with rfl | hne
      · exact respects_unload hfree
      · exact respects_unload_other (.owned hm hfree) (by simp [hne])

/-! ### Runs with `so2_cdev` -/

/-- **The first load of `so2_cdev` goes wrong**: with the device number free it publishes
nothing, with the device number taken it succeeds. -/
theorem Sound.so2_not_respects {others : List Range} {h : Host} (hs : Sound others h) :
    ¬Respects h (.load .so2Cdev) := by
  have hso2 : h.loaded .so2Cdev = false := by
    cases hs with
    | idle => rfl
    | owned hm => simp [hm.symm]
  have hcdevs : (region, Module.so2Cdev) ∉ h.cdevs := by
    cases hs with
    | idle => exact List.not_mem_nil
    | owned hm => simpa using hm.symm
  intro hresp
  obtain ⟨hiff, howns, -⟩ := hresp.1 hso2
  by_cases hfree : h.Free
  · rw [load_so2_of_free hfree] at howns
    exact hcdevs (howns rfl).published
  · rw [load_so2_of_taken hfree] at hiff
    exact hfree (hiff.mp rfl)

/-- **The modules do not get in each other's way exactly as long as `so2_cdev` is not among
those loaded.** -/
theorem respects_iff (others : List Range) (acts : List Act) :
    Along step Respects (Host.start others) acts ↔ .load .so2Cdev ∉ acts := by
  have hsound : ∀ h a, a ≠ .load .so2Cdev → Sound others h → Sound others (step h a) :=
    fun h a ha hs => (hs.step ha).2
  constructor
  · intro hall hmem
    -- up to the first load of `so2_cdev` all is well
    obtain ⟨pre, post, rfl, hpre⟩ := List.eq_append_cons_of_mem hmem
    have hs : Sound others (run step (Host.start others) pre) :=
      run_invariant_along step hsound pre (along_of_forall step fun a ha he => hpre (he ▸ ha)) .idle
    exact hs.so2_not_respects ((along_append step).mp hall).2.1
  · intro hno
    exact along_of_invariant step hsound (fun h a ha hs => (hs.step ha).1) acts
      (along_of_forall step fun a ha he => hno (he ▸ ha)) .idle

/-- The keylogger is loaded, then `so2_cdev`: that should be refused and is not, and the
unload of `so2_cdev` takes the keylogger's region away. -/
theorem so2_tramples :
    (¬∀ acts, Along step Respects (Host.start []) acts) ∧
    (run step (Host.start []) [.load .kbd, .load .so2Cdev, .unload .so2Cdev]).loaded .kbd = true ∧
    (run step (Host.start []) [.load .kbd, .load .so2Cdev, .unload .so2Cdev]).registry = [] := by
  refine ⟨fun h => ?_, by decide, by decide⟩
  have hload := (h [.load .kbd, .load .so2Cdev]).2.1.1 rfl
  have hfree := hload.1.mp rfl (region, some .kbd) List.mem_cons_self
  exact absurd hfree (by decide)

end Chrdev

end KernelModules
