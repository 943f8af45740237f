import KernelModules.Lib.Census
import KernelModules.Edu.Driver

/-!
# The mapping behind the EDU driver's accesses

`edu_open` and the `ioctl` calls reach the device through `edu_dev->p_iomem`, which
`edu_probe` sets. The character device is published before any device is probed, and
stays when the device is gone: `p_iomem` starts as the null pointer, becomes an error
pointer when the mapping fails, and is left as it is when a probe fails later on or the
device is removed. The interrupt handler and `edu_mmap` look at the pointer before they
use it, the calls here do not.

The mapping of a probe is there from the success of its `pcim_iomap_region` until the
probe fails or the device is removed (`KernelModules.Edu.Mapping.Probe.live`). The calls
meet no other exactly if none of them begins without a mapping, and none is in progress
when it is lost: `KernelModules.Edu.Mapping.Covered`.
-/

namespace KernelModules

namespace Edu

/-- The call has returned. -/
def Pc.over : Pc → Bool
  | .returned _ _ => true
  | _ => false

/-- The next step of the call is an access: all but a step of a wait that only goes on or
off the queue. -/
def Pc.touches : Pc → Bool
  | .factWait t => t == .check || t == .test
  | .dmaWait t => t == .check || t == .test
  | .returned _ _ => false
  | _ => true

/-- A signal makes the call test its condition once more. -/
def Pc.retests : Pc → Bool
  | .factWait t => t == .test
  | .dmaWait t => t == .test
  | _ => false

namespace Mapping

/-! ### The pointer, the probes and the calls -/

/-- What `p_iomem` holds. -/
inductive Ptr where
  /-- The null pointer. -/
  | null : Ptr
  /-- An error pointer. -/
  | err : Ptr
  /-- The mapping made by a probe. -/
  | mapped (k : ℕ) : Ptr
deriving DecidableEq

/-- Where a run of `edu_probe` stands: the call it makes next. -/
inductive Probe where
  /-- `pci_enable_device`; the probe has not begun. -/
  | enable : Probe
  /-- `pcim_iomap_region`. -/
  | map : Probe
  /-- `dma_set_mask_and_coherent`. -/
  | dmaMask : Probe
  /-- `dmam_alloc_coherent`. -/
  | dmaAlloc : Probe
  /-- `pci_alloc_irq_vectors`. -/
  | irqVectors : Probe
  /-- `pci_irq_vector`. -/
  | irqLine : Probe
  /-- `request_irq`. -/
  | requestIrq : Probe
  /-- The probe has succeeded. -/
  | bound : Probe
  /-- The probe has failed. -/
  | failed : Probe
  /-- The device has been removed. -/
  | removed : Probe
deriving DecidableEq

/-- Where a probe goes when its call succeeds. -/
def Probe.next : Probe → Probe
  | .enable => .map
  | .map => .dmaMask
  | .dmaMask => .dmaAlloc
  | .dmaAlloc => .irqVectors
  | .irqVectors => .irqLine
  | .irqLine => .requestIrq
  | .requestIrq => .bound
  | p => p

/-- Where a probe goes when its call fails. -/
def Probe.fail : Probe → Probe
  | .bound => .bound
  | .removed => .removed
  | _ => .failed

/-- **The mapping of the probe is there.** -/
def Probe.live : Probe → Bool
  | .dmaMask => true
  | .dmaAlloc => true
  | .irqVectors => true
  | .irqLine => true
  | .requestIrq => true
  | .bound => true
  | _ => false

/-- The driver, from the `cdev_add` of `pci_dev_init` on. -/
structure Sys where
  /-- `device_create` is done. -/
  node : Bool
  /-- `pci_register_driver` has begun. -/
  driver : Bool
  /-- `edu_dev->p_iomem`. -/
  pIomem : Ptr
  /-- The runs of `edu_probe`, by number. -/
  probes : ℕ → Probe
  /-- The calls of `edu_open` and `edu_ioctl`, by number. -/
  calls : ℕ → Option Call
  /-- The files closed, each by the number of its `edu_open`. -/
  closed : List ℕ

/-- The character device has just been published. -/
def Sys.published : Sys := ⟨false, false, .null, fun _ => .enable, fun _ => none, []⟩

/-- **`p_iomem` is a mapping that is there.** -/
def Sys.live (s : Sys) : Bool :=
  match s.pIomem with
  | .mapped k => (s.probes k).live
  | _ => false

/-- The file is open: its `edu_open` has returned 0. -/
def Sys.Opened (s : Sys) (f : ℕ) : Prop :=
  s.calls f = some ⟨.eduOpen, .returned 0 none⟩ ∧ f ∉ s.closed

instance (s : Sys) (f : ℕ) : Decidable (s.Opened f) := inferInstanceAs (Decidable (_ ∧ _))

/-- What can happen next. The device answers an access as it likes. -/
inductive Act where
  /-- `device_create` is done. -/
  | deviceCreate : Act
  /-- `pci_register_driver` begins. -/
  | pciRegisterDriver : Act
  /-- Probe `k` makes its next call, which succeeds or fails. -/
  | probe (k : ℕ) (ok : Bool) : Act
  /-- The device of probe `k` is removed. -/
  | remove (k : ℕ) : Act
  /-- Call `c` is an `edu_open`. -/
  | eduOpen (c : ℕ) : Act
  /-- A file is closed. -/
  | eduRelease (f : ℕ) : Act
  /-- Call `c` is an `edu_ioctl` on a file. -/
  | eduIoctl (c f : ℕ) (req : Request) (fault : Bool) : Act
  /-- Call `c` goes on. -/
  | access (c : ℕ) (d : Device) (fault : Bool) : Act
  /-- A signal reaches call `c`. -/
  | signal (c : ℕ) (d : Device) : Act
  /-- The interrupt handler wakes `factorial_wait`. -/
  | wakeFactorial : Act
  /-- The interrupt handler wakes `dma_wait`. -/
  | wakeDma : Act

/-- One step of a probe. -/
def stepProbe (s : Sys) (k : ℕ) (ok : Bool) : Sys :=
  { s with
    pIomem := if s.probes k = .map then (if ok then .mapped k else .err) else s.pIomem
    probes := Function.update s.probes k (if ok then (s.probes k).next else (s.probes k).fail) }

/-- A call is now elsewhere. -/
def Sys.setPc (s : Sys) (c : ℕ) (call : Call) (pc : Pc) : Sys :=
  { s with calls := Function.update s.calls c (some { call with pc := pc }) }

/-- All calls are now elsewhere. -/
def Sys.mapPc (s : Sys) (f : Pc → Pc) : Sys :=
  { s with calls := fun c => (s.calls c).map fun call => { call with pc := f call.pc } }

/-- **One step.** -/
def step (s : Sys) : Act → Sys
  | .deviceCreate => { s with node := true }
  | .pciRegisterDriver => if s.node then { s with driver := true } else s
  | .probe k ok => if s.driver then stepProbe s k ok else s
  -- `edu_remove` does not touch `p_iomem`
  | .remove k =>
    if s.probes k = .bound then { s with probes := Function.update s.probes k .removed } else s
  | .eduOpen c =>
    if s.calls c = none then
      { s with calls := Function.update s.calls c (some ⟨.eduOpen, enter false .eduOpen⟩) }
    else s
  | .eduRelease f => { s with closed := f :: s.closed }
  | .eduIoctl c f req fault =>
    if s.calls c = none ∧ s.Opened f ∧ req ≠ .eduOpen then
      { s with calls := Function.update s.calls c (some ⟨req, enter fault req⟩) }
    else s
  | .access c d fault =>
    match s.calls c with
    | none => s
    | some call => s.setPc c call (Edu.access fault d call.pc).2
  | .signal c d =>
    match s.calls c with
    | none => s
    | some call => s.setPc c call (interrupted d call.pc)
  | .wakeFactorial => s.mapPc wakeFactorialWait
  | .wakeDma => s.mapPc wakeDmaWait

/-! ### What is wanted, and what it takes -/

/-- **Every access is through a mapping that is there.** -/
def UsesLive (s : Sys) : Act → Prop
  | .access c _ _ => ∀ call, s.calls c = some call → call.pc.touches = true → s.live = true
  | .signal c _ => ∀ call, s.calls c = some call → call.pc.retests = true → s.live = true
  | _ => True

/-- A call is in progress. -/
def Sys.InProgress (s : Sys) : Prop := ∃ c call, s.calls c = some call ∧ call.pc.over = false

/-- The step takes the mapping away: a probe fails to map, or fails with its mapping in use,
or its device is removed. -/
def Sys.Unmaps (s : Sys) : Act → Prop
  | .probe k ok =>
    s.driver = true ∧ ok = false ∧
      (s.probes k = .map ∨ s.pIomem = .mapped k ∧ s.probes k ≠ .bound)
  | .remove k => s.probes k = .bound ∧ s.pIomem = .mapped k
  | _ => False

/-- **No call begins without a mapping, and none is in progress when it is lost.** -/
def Covered (s : Sys) : Act → Prop
  | .eduOpen c => s.calls c = none → s.live = true
  | .eduIoctl c f req fault =>
    s.calls c = none → s.Opened f → req ≠ .eduOpen → (enter fault req).over = false → s.live = true
  | .probe k ok => s.Unmaps (.probe k ok) → ¬s.InProgress
  | .remove k => s.Unmaps (.remove k) → ¬s.InProgress
  | _ => True

/-! ### Calls that meet a mapping -/

/-- **Whenever a call is in progress the mapping is there.** -/
def Safe (s : Sys) : Prop := s.InProgress → s.live = true

theorem safe_published : Safe Sys.published := by
  rintro ⟨c, call, hc, -⟩
  exact absurd hc (by simp [Sys.published])

theorem Pc.over_of_touches {pc : Pc} (h : pc.touches = true) : pc.over = false := by
  cases pc with
  | returned ret out => exact absurd h (by simp [Pc.touches])
  | idRead | liveWrite | liveRead | openWrite | openRead | factWrite | factWait | factStatus
  | factRead | raise | dmaSrc | dmaDst | dmaSize | dmaCmd | dmaWait => rfl

theorem Pc.over_of_retests {pc : Pc} (h : pc.retests = true) : pc.over = false := by
  cases pc with
  | factWait | dmaWait => rfl
  | idRead | liveWrite | liveRead | openWrite | openRead | factWrite | factStatus | factRead
  | raise | dmaSrc | dmaDst | dmaSize | dmaCmd | returned => exact absurd h (by simp [Pc.retests])

theorem Safe.usesLive {s : Sys} (h : Safe s) (a : Act) : UsesLive s a := by
  cases a with
  | access c d fault => exact fun call hc ht => h ⟨c, call, hc, Pc.over_of_touches ht⟩
  | signal c d => exact fun call hc ht => h ⟨c, call, hc, Pc.over_of_retests ht⟩
  | deviceCreate | pciRegisterDriver | probe | remove | eduOpen | eduRelease | eduIoctl
  | wakeFactorial | wakeDma => trivial

/-- A call that goes on was in progress. -/
theorem inProgress_of_setPc {s : Sys} {c : ℕ} {call : Call} {pc : Pc} (hc : s.calls c = some call)
    (hpc : pc.over = false → call.pc.over = false) (h : (s.setPc c call pc).InProgress) :
    s.InProgress := by
  obtain ⟨d, call', hd, hover⟩ := h
  refine forall_update (P := fun _ call => call.pc.over = false → s.InProgress) ?_ ?_ d call' hd
    hover
  · exact fun d _ call' hd hover => ⟨d, call', hd, hover⟩
  · exact fun hover => ⟨c, call, hc, hpc hover⟩

/-- A call that begins, or was in progress. -/
theorem inProgress_of_begin {s s' : Sys} {c : ℕ} {call : Call}
    (hcalls : s'.calls = Function.update s.calls c (some call)) (h : s'.InProgress) :
    s.InProgress ∨ call.pc.over = false := by
  obtain ⟨d, call', hd, hover⟩ := h
  rw [hcalls] at hd
  refine forall_update (P := fun _ q => q.pc.over = false → s.InProgress ∨ call.pc.over = false)
    ?_ ?_ d call' hd hover
  · exact fun d _ call' hd hover => .inl ⟨d, call', hd, hover⟩
  · exact fun hover => .inr hover

theorem inProgress_of_mapPc {s : Sys} {f : Pc → Pc} (hf : ∀ pc, (f pc).over = pc.over)
    (h : (s.mapPc f).InProgress) : s.InProgress := by
  obtain ⟨d, call', hd, hover⟩ := h
  obtain ⟨call, hc, rfl⟩ := Option.map_eq_some_iff.mp hd
  exact ⟨d, call, hc, by rwa [hf] at hover⟩

theorem over_access (fault : Bool) (d : Device) {pc : Pc}
    (h : (Edu.access fault d pc).2.over = false) : pc.over = false := by
  cases pc with
  | returned ret out => exact h
  | idRead | liveWrite | liveRead | openWrite | openRead | factWrite | factWait | factStatus
  | factRead | raise | dmaSrc | dmaDst | dmaSize | dmaCmd | dmaWait => rfl

theorem over_interrupted (d : Device) {pc : Pc} (h : (interrupted d pc).over = false) :
    pc.over = false := by
  cases pc with
  | returned ret out => exact h
  | idRead | liveWrite | liveRead | openWrite | openRead | factWrite | factWait | factStatus
  | factRead | raise | dmaSrc | dmaDst | dmaSize | dmaCmd | dmaWait => rfl

theorem over_wakeFactorialWait (pc : Pc) : (wakeFactorialWait pc).over = pc.over := by
  cases pc <;> rfl

theorem over_wakeDmaWait (pc : Pc) : (wakeDmaWait pc).over = pc.over := by
  cases pc <;> rfl

theorem Probe.live_next {p : Probe} (h : p.live = true) : p.next.live = true := by
  cases p with
  | dmaMask | dmaAlloc | irqVectors | irqLine | requestIrq | bound => rfl
  | enable | map | failed | removed => exact absurd h (by simp [Probe.live])

/-- **A step of a probe that does not take the mapping away leaves one.** -/
theorem live_stepProbe {s : Sys} {k : ℕ} {ok : Bool} (hdriver : s.driver = true)
    (hkeep : ¬s.Unmaps (.probe k ok)) (h : s.live = true) : (stepProbe s k ok).live = true := by
  simp only [Sys.Unmaps, hdriver, true_and, not_and, not_or] at hkeep
  by_cases hmap : s.probes k = .map
  · -- the mapping is a new one
    cases ok with
    | true => simp [stepProbe, Sys.live, hmap, Probe.next, Probe.live]
    | false => exact absurd hmap (hkeep rfl).1
  · rw [Sys.live] at h
    simp only [stepProbe, Sys.live, hmap, if_false]
    rcases hp : s.pIomem with - | - | j
    · simp [hp] at h
    · simp [hp] at h
    · simp only [hp] at h ⊢
      rcases eq_or_ne j k with rfl | hne
      · rw [Function.update_self]
        cases ok with
        | true => exact Probe.live_next h
        | false =>
          have hbound : s.probes j = .bound := by
            by_contra hne
            exact (hkeep rfl).2 hp hne
          simp [hbound, Probe.fail, Probe.live]
      · rwa [Function.update_of_ne hne]

theorem Safe.step {s : Sys} (h : Safe s) (a : Act) (hok : Covered s a) : Safe (step s a) := by
  cases a with
  | deviceCreate | eduRelease => exact h
  | pciRegisterDriver =>
    rw [Mapping.step]
    split <;> exact h
  | probe k ok =>
    rw [Mapping.step]
    split
    · intro hprog
      have hkeep : ¬s.Unmaps (.probe k ok) := fun hun => hok hun hprog
      exact live_stepProbe ‹_› hkeep (h hprog)
    · exact h
  | remove k =>
    rw [Mapping.step]
    split
    · intro hprog
      have hlive := h hprog
      have hne : s.pIomem ≠ .mapped k := fun hp => hok ⟨‹_›, hp⟩ hprog
      rw [Sys.live] at hlive ⊢
      rcases hp : s.pIomem with - | - | j
      · simp [hp] at hlive
      · simp [hp] at hlive
      · have hjk : j ≠ k := fun heq => hne (heq ▸ hp)
        simp only [hp] at hlive ⊢
        rwa [Function.update_of_ne hjk]
    · exact h
  | eduOpen c =>
    rw [Mapping.step]
    split
    · intro _
      exact hok ‹_›
    · exact h
  | eduIoctl c f req fault =>
    rw [Mapping.step]
    split
    · obtain ⟨hc, hopen, hreq⟩ := ‹s.calls c = none ∧ s.Opened f ∧ req ≠ .eduOpen›
      intro hprog
      rcases inProgress_of_begin rfl hprog with hprog | hover
      · exact h hprog
      · exact hok hc hopen hreq hover
    · exact h
  | access c d fault =>
    rcases hc : s.calls c with - | call
    · simpa only [Mapping.step, hc] using h
    · simp only [Mapping.step, hc]
      exact fun hprog => h (inProgress_of_setPc hc (over_access fault d) hprog)
  | signal c d =>
    rcases hc : s.calls c with - | call
    · simpa only [Mapping.step, hc] using h
    · simp only [Mapping.step, hc]
      exact fun hprog => h (inProgress_of_setPc hc (over_interrupted d) hprog)
  | wakeFactorial => exact fun hprog => h (inProgress_of_mapPc over_wakeFactorialWait hprog)
  | wakeDma => exact fun hprog => h (inProgress_of_mapPc over_wakeDmaWait hprog)

/-! ### Calls that meet none -/

theorem step_access {s : Sys} {c : ℕ} {call : Call} (hc : s.calls c = some call) (d : Device)
    (fault : Bool) :
    step s (.access c d fault) = s.setPc c call (Edu.access fault d call.pc).2 := by
  simp only [step, hc]

theorem step_signal {s : Sys} {c : ℕ} {call : Call} (hc : s.calls c = some call) (d : Device) :
    step s (.signal c d) = s.setPc c call (interrupted d call.pc) := by
  simp only [step, hc]

/-- A call whose next step is an access makes it. -/
theorem unmapped_touch {s : Sys} {c : ℕ} {call : Call} (hlive : s.live = false)
    (hc : s.calls c = some call) (ht : call.pc.touches = true) :
    ∃ more, ¬Along step UsesLive s more :=
  ⟨[.access c Device.reset false], fun h => absurd (h.1 call hc ht) (by simp [hlive])⟩

/-- A call that goes on the queue tests its condition next. -/
theorem unmapped_prepare {s : Sys} {c : ℕ} {call : Call} (hlive : s.live = false)
    (hc : s.calls c = some call)
    (hpc : call.pc = .factWait .prepare ∨ call.pc = .dmaWait .prepare) :
    ∃ more, ¬Along step UsesLive s more := by
  refine exists_not_along_cons step (.access c Device.reset false) ?_
  rw [step_access hc]
  refine unmapped_touch hlive (Function.update_self ..) ?_
  rcases hpc with hpc | hpc
  · simp [hpc, Edu.access, Waiter.advance, Pc.touches]
  · simp [hpc, Edu.access, Waiter.advance, Pc.touches]

/-- A call that sleeps, or is about to, is sent round its loop by a signal. -/
theorem unmapped_dozing {s : Sys} {c : ℕ} {call : Call} {t : Waiter} (hlive : s.live = false)
    (hc : s.calls c = some call) (hpc : call.pc = .factWait t ∨ call.pc = .dmaWait t)
    (ht : t.dozing = true) : ∃ more, ¬Along step UsesLive s more := by
  refine exists_not_along_cons step (.signal c Device.reset) ?_
  rw [step_signal hc]
  refine unmapped_prepare hlive (Function.update_self ..) ?_
  cases t with
  | commit | asleep =>
    rcases hpc with hpc | hpc
    · exact .inl (by simp only [hpc, interrupted])
    · exact .inr (by simp only [hpc, interrupted])
  | check | prepare | test => exact absurd ht (by simp [Waiter.dozing])

/-- **A call in progress without a mapping makes an access without one.** -/
theorem unmapped_call {s : Sys} (hlive : s.live = false) (h : s.InProgress) :
    ∃ more, ¬Along step UsesLive s more := by
  obtain ⟨c, ⟨req, pc⟩, hc, hover⟩ := h
  cases pc with
  | factWait t =>
    cases t with
    | check | test => exact unmapped_touch hlive hc rfl
    | prepare => exact unmapped_prepare hlive hc (.inl rfl)
    | commit | asleep => exact unmapped_dozing hlive hc (.inl rfl) rfl
  | dmaWait t =>
    cases t with
    | check | test => exact unmapped_touch hlive hc rfl
    | prepare => exact unmapped_prepare hlive hc (.inr rfl)
    | commit | asleep => exact unmapped_dozing hlive hc (.inr rfl) rfl
  | returned ret out => exact absurd hover (by simp [Pc.over])
  | idRead | liveWrite | liveRead | openWrite | openRead | factWrite | factStatus | factRead
  | raise | dmaSrc | dmaDst | dmaSize | dmaCmd => exact unmapped_touch hlive hc rfl

/-- The mapping is gone. -/
theorem live_of_unmaps {s : Sys} {a : Act} (h : s.Unmaps a) : (step s a).live = false := by
  cases a with
  | probe k ok =>
    obtain ⟨hdriver, rfl, hmap | ⟨hp, hbound⟩⟩ := h
    · simp [step, hdriver, stepProbe, Sys.live, hmap]
    · by_cases hmap : s.probes k = .map
      · simp [step, hdriver, stepProbe, Sys.live, hmap]
      · simp only [step, hdriver, if_true, stepProbe, Sys.live, hmap, if_false, hp,
          Function.update_self]
        cases hk : s.probes k with
        | bound => exact absurd hk hbound
        | enable | map | dmaMask | dmaAlloc | irqVectors | irqLine | requestIrq | failed
        | removed => rfl
  | remove k =>
    obtain ⟨hbound, hp⟩ := h
    simp [step, hbound, Sys.live, hp, Probe.live]
  | deviceCreate | pciRegisterDriver | eduOpen | eduRelease | eduIoctl | access | signal
  | wakeFactorial | wakeDma => exact h.elim

/-- The calls go on as before. -/
theorem inProgress_of_unmaps {s : Sys} {a : Act} (h : s.Unmaps a) (hprog : s.InProgress) :
    (step s a).InProgress := by
  cases a with
  | probe k ok =>
    simp only [step, h.1, if_true]
    exact hprog
  | remove k =>
    simp only [step, h.1, if_true]
    exact hprog
  | deviceCreate | pciRegisterDriver | eduOpen | eduRelease | eduIoctl | access | signal
  | wakeFactorial | wakeDma => exact h.elim

/-- **A step that breaks the condition leaves a call in progress without a mapping.** -/
theorem uncovered {s : Sys} {a : Act} (ha : ¬Covered s a) :
    (step s a).live = false ∧ (step s a).InProgress := by
  cases a with
  | eduOpen c =>
    simp only [Covered, Classical.not_imp, Bool.not_eq_true] at ha
    obtain ⟨hc, hlive⟩ := ha
    simp only [step, hc, if_true]
    exact ⟨hlive, c, _, Function.update_self .., rfl⟩
  | eduIoctl c f req fault =>
    simp only [Covered, Classical.not_imp, Bool.not_eq_true] at ha
    obtain ⟨hc, hopen, hreq, hover, hlive⟩ := ha
    simp only [step, if_pos (And.intro hc (And.intro hopen hreq))]
    exact ⟨hlive, c, _, Function.update_self .., hover⟩
  | probe k ok =>
    simp only [Covered, Classical.not_imp, not_not] at ha
    exact ⟨live_of_unmaps ha.1, inProgress_of_unmaps ha.1 ha.2⟩
  | remove k =>
    simp only [Covered, Classical.not_imp, not_not] at ha
    exact ⟨live_of_unmaps ha.1, inProgress_of_unmaps ha.1 ha.2⟩
  | deviceCreate | pciRegisterDriver | eduRelease | access | signal | wakeFactorial | wakeDma =>
    exact absurd trivial ha

/-- **The calls use a mapping that is there exactly as long as none of them begins without
one and none is in progress when it is lost**: when a probe fails to map or fails after it,
or the device is removed. A step that breaks this leads to an access through the null
pointer, an error pointer or a mapping that is gone. -/
theorem mapping_exact (acts : List Act) :
    (Along step Covered Sys.published acts → Along step UsesLive Sys.published acts) ∧
    ∀ a, ¬Covered (run step Sys.published acts) a →
      ∃ more, ¬Along step UsesLive Sys.published (acts ++ a :: more) := by
  refine ⟨fun hok => ?_, fun a ha => ?_⟩
  · exact along_of_invariant step (fun s a hok h => h.step a hok) (fun s a _ h => h.usesLive a)
      acts hok safe_published
  · obtain ⟨hlive, hprog⟩ := uncovered ha
    exact exists_not_along_of_next step (unmapped_call hlive hprog)

/-- The device file is opened before any device has been probed. -/
theorem mapping_null : ¬∀ acts, Along step UsesLive Sys.published acts := by
  intro h
  have hrun := h ([Act.eduOpen 0] ++ [Act.access 0 Device.reset false])
  have huse := ((along_append step).mp hrun).2.1
  exact absurd (huse _ rfl rfl) (by decide)

/-- A device is probed, opened and asked for its identification. -/
theorem mapping_covered :
    Along step UsesLive Sys.published
      [.deviceCreate, .pciRegisterDriver, .probe 0 true, .probe 0 true, .probe 0 true,
        .probe 0 true, .probe 0 true, .probe 0 true, .probe 0 true, .eduOpen 0,
        .access 0 Device.reset false,
        .access 0 { Device.reset with live := ~~~17 } false, .eduIoctl 1 0 .deviceId false,
        .access 1 Device.reset false] := by
  refine (mapping_exact _).1 ?_
  have hok : ∀ s : Sys, ¬s.Unmaps (.probe 0 true) := fun s h => absurd h.2.1 (by simp)
  simp only [along_cons, along_nil, Covered, hok, false_implies, true_and, and_true]
  exact ⟨fun _ => by decide, fun _ _ _ _ => by decide⟩

end Mapping

end Edu

end KernelModules
