import KernelModules.Lib.Run
import KernelModules.Lib.TryLock
import KernelModules.Lib.Wakeup
import KernelModules.So2Cdev.Device

/-!
# Waiting on `so2_cdev`

`MY_IOCTL_DOWN` clears `flag` and waits until it is set; `MY_IOCTL_UP` sets it and wakes
whoever waits. This file is the step function of any number of calls doing so, on files
opened and released by `so2_cdev_open` and `so2_cdev_release`
(`KernelModules.So2Cdev.step`): the store to `flag`, each test of it, and the wake-up are
steps of their own. A call waits as `KernelModules.Waiter` does.

Threads may share a file, and then calls of both kinds meet. A call that waits is owed its
return once `MY_IOCTL_UP` has set `flag`, but `flag` is all there is to tell it so, and the
next `MY_IOCTL_DOWN` clears it: `KernelModules.So2Cdev.released_exact` says exactly when this
comes to matter. The state keeps, for each call that waits, which calls of `MY_IOCTL_UP` have
set `flag` in the meantime.

Processes that do not share files never meet at all. A file is held open by one process at a
time, and the one that waits holds it: nobody is left to call `MY_IOCTL_UP`
(`KernelModules.So2Cdev.blocked_for_good`).
-/

namespace KernelModules

namespace So2Cdev

/-! ### States and steps -/

/-- `ERESTARTSYS`. -/
def erestartsys : ℤ := 512

/-- Where a call of `so2_cdev_ioctl` stands. -/
inductive Pc where
  /-- `MY_IOCTL_DOWN`, before the store to `flag`. -/
  | clear : Pc
  /-- In `wait_event_interruptible`; `signalled` says that a signal is pending. -/
  | wait (t : Waiter) (signalled : Bool) : Pc
  /-- `MY_IOCTL_UP`, before the store to `flag`. -/
  | set : Pc
  /-- Before `wake_up_interruptible`. -/
  | wake : Pc
  /-- Over. -/
  | returned (ret : ℤ) : Pc
deriving DecidableEq

/-- A call. -/
structure Call where
  /-- The file it is made on. -/
  file : ℕ
  /-- Where it stands. -/
  pc : Pc
  /-- The calls of `MY_IOCTL_UP` that have set `flag` while it was waiting. Not in the
  source. -/
  due : List ℕ
deriving DecidableEq

/-- The call has returned. -/
def Call.over (call : Call) : Bool :=
  match call.pc with
  | .returned _ => true
  | _ => false

/-- The call is in `wait_event_interruptible`. -/
def Call.waits (call : Call) : Bool :=
  match call.pc with
  | .wait _ _ => true
  | _ => false

/-- Where a file stands. -/
inductive File where
  /-- `so2_cdev_open` has got the device and sleeps. -/
  | opening : File
  /-- `so2_cdev_open` has returned `-EBUSY`. -/
  | refused : File
  /-- Open. -/
  | opened : File
  /-- After `so2_cdev_release`. -/
  | closed : File
deriving DecidableEq

/-- The device, its files and the calls on them. -/
structure Sys where
  /-- The device. -/
  data : DeviceData
  /-- The files, by number. -/
  files : ℕ → Option File
  /-- The calls, in the order they were made. -/
  calls : List Call

/-- The module, just loaded. -/
def Sys.start : Sys := ⟨so2CdevInit, fun _ => none, []⟩

/-- What can happen next. -/
inductive Act where
  /-- `so2_cdev_open` is called. -/
  | openFile (f : ℕ) : Act
  /-- The sleep of `so2_cdev_open` is over. -/
  | openEnd (f : ℕ) : Act
  /-- `so2_cdev_release` is called: no call on the file is in progress. -/
  | release (f : ℕ) : Act
  /-- `MY_IOCTL_DOWN` is called. -/
  | down (f : ℕ) : Act
  /-- `MY_IOCTL_UP` is called. -/
  | up (f : ℕ) : Act
  /-- Call `c` goes on. -/
  | go (c : ℕ) : Act
  /-- A signal reaches call `c`. -/
  | signal (c : ℕ) : Act
  /-- Call `c` is woken by somebody else. -/
  | wakeUp (c : ℕ) : Act
deriving DecidableEq

namespace Sys

/-- A file is now elsewhere. -/
def setFile (s : Sys) (f : ℕ) (file : File) : Sys :=
  { s with files := Function.update s.files f (some file) }

/-- A call is now elsewhere. -/
def setPc (s : Sys) (c : ℕ) (pc : Pc) : Sys :=
  { s with calls := s.calls.modify c fun call => { call with pc := pc } }

/-- The store to `flag`. -/
def setFlag (s : Sys) (flag : ℤ) : Sys := { s with data := { s.data with flag := flag } }

/-- A call is made. -/
def addCall (s : Sys) (f : ℕ) (pc : Pc) : Sys := { s with calls := s.calls ++ [⟨f, pc, []⟩] }

/-- The calls that wait are owed their return by call `u`. -/
def owe (s : Sys) (u : ℕ) : Sys :=
  { s with
    calls := s.calls.map fun call =>
      if call.waits then { call with due := u :: call.due } else call }

/-- The queue is woken. -/
def wakeAll (s : Sys) : Sys :=
  { s with
    calls := s.calls.map fun call =>
      match call.pc with
      | .wait t signalled => { call with pc := .wait t.wake signalled }
      | _ => call }

/-- A call on the file is in progress. -/
def InUse (s : Sys) (f : ℕ) : Prop := ∃ call ∈ s.calls, call.file = f ∧ call.over = false

instance (s : Sys) (f : ℕ) : Decidable (s.InUse f) :=
  inferInstanceAs (Decidable (∃ call ∈ s.calls, _))

end Sys

/-- **One step of a wait.** With a signal pending, a test that fails is the last. -/
def stepWait (s : Sys) (c : ℕ) (t : Waiter) (signalled : Bool) : Sys :=
  match t.advance (s.data.flag ≠ 0) with
  | none => s.setPc c (.returned 0)
  | some .commit =>
    if signalled then s.setPc c (.returned (-erestartsys)) else s.setPc c (.wait .commit signalled)
  | some t => s.setPc c (.wait t signalled)

/-- **One step of a call.** -/
def stepCall (s : Sys) (c : ℕ) : Pc → Sys
  | .clear => (s.setPc c (.wait .check false)).setFlag 0
  | .wait t signalled => stepWait s c t signalled
  | .set => ((s.owe c).setPc c .wake).setFlag 1
  | .wake => (s.wakeAll).setPc c (.returned 0)
  | .returned _ => s

/-- **One step.** -/
def step (s : Sys) : Act → Sys
  | .openFile f =>
    match s.files f with
    | none =>
      let after := so2CdevOpen s.data
      { s.setFile f (if after.1 = 0 then .opening else .refused) with data := after.2 }
    | some _ => s
  | .openEnd f => if s.files f = some .opening then s.setFile f .opened else s
  | .release f =>
    if s.files f = some .opened ∧ ¬s.InUse f then
      { s.setFile f .closed with data := so2CdevRelease s.data }
    else s
  | .down f => if s.files f = some .opened then s.addCall f .clear else s
  | .up f => if s.files f = some .opened then s.addCall f .set else s
  | .go c =>
    match s.calls[c]? with
    | none => s
    | some call => stepCall s c call.pc
  | .signal c =>
    match s.calls[c]? with
    | some ⟨_, .wait t _, _⟩ => s.setPc c (.wait t.wake true)
    | _ => s
  | .wakeUp c =>
    match s.calls[c]? with
    | some ⟨_, .wait t signalled, _⟩ => s.setPc c (.wait t.wake signalled)
    | _ => s

/-! ### What a step can do -/

/-- **The steps, one by one.** -/
inductive Step (s : Sys) : Act → Sys → Prop
  /-- Nothing happens. -/
  | stutter (a : Act) : Step s a s
  /-- An open is refused. -/
  | refused {f : ℕ} (hf : s.files f = none) (hd : s.data.devOpend ≠ 0) :
      Step s (.openFile f) (s.setFile f .refused)
  /-- An open gets the device. -/
  | opening {f : ℕ} (hf : s.files f = none) (hd : s.data.devOpend = 0) :
      Step s (.openFile f) { s.setFile f .opening with data := { s.data with devOpend := 1 } }
  /-- An open returns. -/
  | opened {f : ℕ} (hf : s.files f = some .opening) : Step s (.openEnd f) (s.setFile f .opened)
  /-- A file is released. -/
  | released {f : ℕ} (hf : s.files f = some .opened) (hcalls : ¬s.InUse f) :
      Step s (.release f) { s.setFile f .closed with data := { s.data with devOpend := 0 } }
  /-- `MY_IOCTL_DOWN` is called. -/
  | down {f : ℕ} (hf : s.files f = some .opened) : Step s (.down f) (s.addCall f .clear)
  /-- `MY_IOCTL_UP` is called. -/
  | up {f : ℕ} (hf : s.files f = some .opened) : Step s (.up f) (s.addCall f .set)
  /-- A call clears `flag`. -/
  | clear {c : ℕ} {call : Call} (hc : s.calls[c]? = some call) (hpc : call.pc = .clear) :
      Step s (.go c) ((s.setPc c (.wait .check false)).setFlag 0)
  /-- A call finds `flag` set. -/
  | leave {c : ℕ} {call : Call} {t : Waiter} {signalled : Bool} (hc : s.calls[c]? = some call)
      (hpc : call.pc = .wait t signalled) (hadv : t.advance (s.data.flag ≠ 0) = none) :
      Step s (.go c) (s.setPc c (.returned 0))
  /-- A call finds `flag` clear, and a signal. -/
  | interrupted {c : ℕ} {call : Call} {t : Waiter} {signalled : Bool}
      (hc : s.calls[c]? = some call) (hpc : call.pc = .wait t signalled) :
      Step s (.go c) (s.setPc c (.returned (-erestartsys)))
  /-- A call goes on waiting. -/
  | wait {c : ℕ} {call : Call} {t t' : Waiter} {signalled : Bool} (hc : s.calls[c]? = some call)
      (hpc : call.pc = .wait t signalled) (hadv : t.advance (s.data.flag ≠ 0) = some t') :
      Step s (.go c) (s.setPc c (.wait t' signalled))
  /-- A call sets `flag`. -/
  | set {c : ℕ} {call : Call} (hc : s.calls[c]? = some call) (hpc : call.pc = .set) :
      Step s (.go c) (((s.owe c).setPc c .wake).setFlag 1)
  /-- A call wakes the queue. -/
  | wake {c : ℕ} {call : Call} (hc : s.calls[c]? = some call) (hpc : call.pc = .wake) :
      Step s (.go c) ((s.wakeAll).setPc c (.returned 0))
  /-- A call is woken by a signal, or otherwise. -/
  | stirred {a : Act} {c : ℕ} {call : Call} {t t' : Waiter} {signalled signalled' : Bool}
      (hc : s.calls[c]? = some call) (hpc : call.pc = .wait t signalled) (ht : t'.dozing = false) :
      Step s a (s.setPc c (.wait t' signalled'))

theorem stepWait_cases {s : Sys} {c : ℕ} {call : Call} {t : Waiter} {signalled : Bool}
    (hc : s.calls[c]? = some call) (hpc : call.pc = .wait t signalled) :
    Step s (.go c) (stepWait s c t signalled) := by
  rw [stepWait]
  rcases hadv : t.advance (s.data.flag ≠ 0) with - | t'
  · exact .leave hc hpc hadv
  · cases t' with
    | commit =>
      cases signalled with
      | true => exact .interrupted hc hpc
      | false => exact .wait hc hpc hadv
    | check | prepare | test | asleep => exact .wait hc hpc hadv

/-- **A step is one of those.** -/
theorem step_cases (s : Sys) (a : Act) : Step s a (step s a) := by
  cases a with
  | openFile f =>
    rcases hf : s.files f with - | file
    · by_cases hd : s.data.devOpend = 0
      · simp only [step, hf, so2CdevOpen, hd, ne_eq, not_true_eq_false, if_false, if_true]
        exact .opening hf hd
      · simp only [step, hf, so2CdevOpen, hd, ne_eq, not_false_eq_true, if_true]
        exact .refused hf hd
    · simp only [step, hf]
      exact .stutter _
  | openEnd f =>
    rw [step]
    split
    · exact .opened ‹_›
    · exact .stutter _
  | release f =>
    rw [step]
    split
    · obtain ⟨hf, hcalls⟩ := ‹s.files f = some .opened ∧ ¬s.InUse f›
      exact .released hf hcalls
    · exact .stutter _
  | down f =>
    rw [step]
    split
    · exact .down ‹_›
    · exact .stutter _
  | up f =>
    rw [step]
    split
    · exact .up ‹_›
    · exact .stutter _
  | go c =>
    rcases hc : s.calls[c]? with - | ⟨f, pc, due⟩
    · simp only [step, hc]
      exact .stutter _
    · simp only [step, hc]
      cases pc with
      | clear => exact .clear hc rfl
      | wait t signalled => exact stepWait_cases hc rfl
      | set => exact .set hc rfl
      | wake => exact .wake hc rfl
      | returned ret => exact .stutter _
  | signal c =>
    rcases hc : s.calls[c]? with - | ⟨f, pc, due⟩
    · simp only [step, hc]
      exact .stutter _
    · simp only [step, hc]
      cases pc with
      | wait t signalled => exact .stirred hc rfl t.dozing_wake
      | clear | set | wake | returned => exact .stutter _
  | wakeUp c =>
    rcases hc : s.calls[c]? with - | ⟨f, pc, due⟩
    · simp only [step, hc]
      exact .stutter _
    · simp only [step, hc]
      cases pc with
      | wait t signalled => exact .stirred hc rfl t.dozing_wake
      | clear | set | wake | returned => exact .stutter _

/-! ### The calls after a step -/

/-- A call stands at a given place. -/
def Sys.At (s : Sys) (c : ℕ) (pc : Pc) : Prop := ∃ call, s.calls[c]? = some call ∧ call.pc = pc

section Calls

variable {s : Sys} {c d : ℕ} {call : Call} {pc : Pc}

theorem calls_setPc_self (hc : s.calls[c]? = some call) (pc : Pc) :
    (s.setPc c pc).calls[c]? = some { call with pc := pc } := by
  simp [Sys.setPc, hc]

theorem calls_setPc_of_ne (hne : d ≠ c) (pc : Pc) :
    (s.setPc c pc).calls[d]? = s.calls[d]? := by
  simp [Sys.setPc, List.getElem?_modify_ne _ _ hne.symm]

/-- The calls after one of them has moved. -/
theorem forall_setPc {P : ℕ → Call → Prop} (hc : s.calls[c]? = some call)
    (h : ∀ d, d ≠ c → ∀ other, s.calls[d]? = some other → P d other)
    (hself : P c { call with pc := pc }) :
    ∀ d other, (s.setPc c pc).calls[d]? = some other → P d other := by
  intro d other hd
  rcases eq_or_ne d c with rfl | hne
  · rw [calls_setPc_self hc] at hd
    exact Option.some.inj hd ▸ hself
  · rw [calls_setPc_of_ne hne] at hd
    exact h d hne other hd

/-- The calls after one more has been made. -/
theorem forall_addCall {P : ℕ → Call → Prop} {f : ℕ}
    (h : ∀ d other, s.calls[d]? = some other → P d other) (hnew : P s.calls.length ⟨f, pc, []⟩) :
    ∀ d other, (s.addCall f pc).calls[d]? = some other → P d other := by
  intro d other hd
  rw [Sys.addCall, List.getElem?_append] at hd
  split at hd
  · exact h d other hd
  · rw [List.getElem?_singleton] at hd
    split at hd
    · obtain rfl : d = s.calls.length := by omega
      exact Option.some.inj hd ▸ hnew
    · exact absurd hd (by simp)

/-- A call that moves from elsewhere leaves the others where they are. -/
theorem Sys.At.setPc {pc' : Pc} (h : s.At d pc') (hc : s.calls[c]? = some call)
    (hne : call.pc ≠ pc') : (s.setPc c pc).At d pc' := by
  obtain ⟨other, hd, hpc⟩ := h
  have hdc : d ≠ c := by
    rintro rfl
    exact hne ((congrArg Call.pc (Option.some.inj (hc.symm.trans hd))).trans hpc)
  exact ⟨other, (calls_setPc_of_ne hdc pc).trans hd, hpc⟩

theorem Sys.At.addCall {pc' : Pc} (h : s.At d pc') (f : ℕ) : (s.addCall f pc).At d pc' := by
  obtain ⟨other, hd, hpc⟩ := h
  refine ⟨other, ?_, hpc⟩
  rw [Sys.addCall, List.getElem?_append_left (List.getElem?_eq_some_iff.mp hd).1, hd]

/-- The calls after those that wait have been noted. -/
theorem calls_of_owe {u : ℕ} {other : Call} (h : (s.owe u).calls[d]? = some other) :
    ∃ call, s.calls[d]? = some call ∧
      other = if call.waits then { call with due := u :: call.due } else call := by
  rw [Sys.owe, List.getElem?_map, Option.map_eq_some_iff] at h
  obtain ⟨call, hd, heq⟩ := h
  exact ⟨call, hd, heq.symm⟩

/-- The calls after the queue has been woken. -/
theorem calls_of_wakeAll {other : Call} (h : (s.wakeAll).calls[d]? = some other) :
    ∃ call, s.calls[d]? = some call ∧
      ((∃ t signalled, call.pc = .wait t signalled ∧
          other = { call with pc := .wait t.wake signalled }) ∨
        call.waits = false ∧ other = call) := by
  rw [Sys.wakeAll, List.getElem?_map, Option.map_eq_some_iff] at h
  obtain ⟨⟨f, pc, due⟩, hd, rfl⟩ := h
  refine ⟨⟨f, pc, due⟩, hd, ?_⟩
  cases pc with
  | wait t signalled => exact .inl ⟨t, signalled, rfl, rfl⟩
  | clear | set | wake | returned => exact .inr ⟨rfl, rfl⟩

/-- A call that does not wait is left alone by both. -/
theorem calls_owe_self (hc : s.calls[c]? = some call) (hw : call.waits = false) (u : ℕ) :
    (s.owe u).calls[c]? = some call := by
  rw [Sys.owe, List.getElem?_map, hc]
  simp [hw]

theorem calls_wakeAll_self (hc : s.calls[c]? = some call) (hw : call.waits = false) :
    (s.wakeAll).calls[c]? = some call := by
  obtain ⟨f, pc, due⟩ := call
  rw [Sys.wakeAll, List.getElem?_map, hc]
  cases pc with
  | wait t signalled => exact absurd hw (by simp [Call.waits])
  | clear | set | wake | returned => rfl

theorem Sys.At.owe {pc' : Pc} (h : s.At d pc') (u : ℕ) : (s.owe u).At d pc' := by
  obtain ⟨other, hd, hpc⟩ := h
  refine ⟨_, by rw [Sys.owe, List.getElem?_map, hd]; rfl, ?_⟩
  dsimp only
  split
  · exact hpc
  · exact hpc

theorem Sys.At.wakeAll {pc' : Pc} (h : s.At d pc') (hpc' : ∀ t signalled, pc' ≠ .wait t signalled) :
    (s.wakeAll).At d pc' := by
  obtain ⟨⟨f, pc, due⟩, hd, hpc⟩ := h
  obtain rfl : pc = pc' := hpc
  refine ⟨_, by rw [Sys.wakeAll, List.getElem?_map, hd]; rfl, ?_⟩
  cases pc with
  | wait t signalled => exact absurd rfl (hpc' t signalled)
  | clear | set | wake | returned => rfl

end Calls

/-! ### What is owed to a call that waits -/

theorem Call.waits_iff {call : Call} :
    call.waits = true ↔ ∃ t signalled, call.pc = .wait t signalled := by
  obtain ⟨f, pc, due⟩ := call
  cases pc with
  | wait t signalled => exact iff_of_true rfl ⟨t, signalled, rfl⟩
  | clear | set | wake | returned => exact iff_of_false (by simp [Call.waits]) (by simp)

/-- **What is noted is right**: nothing is owed to a call that has not cleared `flag` yet, and
the calls noted are calls of `MY_IOCTL_UP` that have set it. -/
structure Noted (s : Sys) : Prop where
  fresh : ∀ (c : ℕ) (call : Call), s.calls[c]? = some call → call.pc = .clear → call.due = []
  ups : ∀ (c : ℕ) (call : Call), s.calls[c]? = some call →
    ∀ u ∈ call.due, s.At u .wake ∨ s.At u (.returned 0)

/-- A call that moves, from no place of `MY_IOCTL_UP` and not to the start of `MY_IOCTL_DOWN`. -/
theorem Noted.setPc {s : Sys} (h : Noted s) {c : ℕ} {call : Call} {pc : Pc}
    (hc : s.calls[c]? = some call) (hwake : call.pc ≠ .wake) (hret : call.pc ≠ .returned 0)
    (hpc : pc ≠ .clear) : Noted (s.setPc c pc) where
  fresh := forall_setPc hc (fun d _ => h.fresh d) fun hclear => absurd hclear hpc
  ups := by
    have hold : ∀ u, s.At u .wake ∨ s.At u (.returned 0) →
        (s.setPc c pc).At u .wake ∨ (s.setPc c pc).At u (.returned 0) :=
      fun u hu => hu.imp (·.setPc hc hwake) (·.setPc hc hret)
    exact forall_setPc hc (fun d _ other hd u hu => hold u (h.ups d other hd u hu))
      fun u hu => hold u (h.ups c call hc u hu)

theorem Noted.addCall {s : Sys} (h : Noted s) (f : ℕ) (pc : Pc) : Noted (s.addCall f pc) where
  fresh := forall_addCall h.fresh fun _ => rfl
  ups := forall_addCall
    (fun d other hd u hu => (h.ups d other hd u hu).imp (·.addCall f) (·.addCall f))
    fun _ hu => absurd hu List.not_mem_nil

/-- A call of `MY_IOCTL_UP` sets `flag`: those that wait are owed their return by it. -/
theorem Noted.set {s : Sys} (h : Noted s) {c : ℕ} {call : Call} (hc : s.calls[c]? = some call)
    (hpc : call.pc = .set) : Noted ((s.owe c).setPc c .wake) := by
  have howe : (s.owe c).calls[c]? = some call := calls_owe_self hc (by simp [Call.waits, hpc]) c
  have hold : ∀ u, s.At u .wake ∨ s.At u (.returned 0) →
      ((s.owe c).setPc c .wake).At u .wake ∨ ((s.owe c).setPc c .wake).At u (.returned 0) := by
    intro u hu
    refine hu.imp (fun hu => (hu.owe c).setPc howe ?_) fun hu => (hu.owe c).setPc howe ?_
    · simp [hpc]
    · simp [hpc]
  have hself : ((s.owe c).setPc c .wake).At c .wake := ⟨_, calls_setPc_self howe .wake, rfl⟩
  refine ⟨forall_setPc howe (fun d _ other hd hclear => ?_) fun hclear => absurd hclear (by simp),
    forall_setPc howe (fun d _ other hd u hu => ?_) fun u hu => hold u (h.ups c call hc u hu)⟩
  · obtain ⟨call', hd', rfl⟩ := calls_of_owe hd
    by_cases hw : call'.waits = true
    · rw [if_pos hw] at hclear
      obtain ⟨t, signalled, hwait⟩ := Call.waits_iff.mp hw
      exact absurd (hwait.symm.trans hclear) (by simp)
    · rw [if_neg hw] at hclear ⊢
      exact h.fresh d call' hd' hclear
  · obtain ⟨call', hd', rfl⟩ := calls_of_owe hd
    by_cases hw : call'.waits = true
    · rw [if_pos hw] at hu
      rcases List.mem_cons.mp hu with rfl | hu
      · exact .inl hself
      · exact hold u (h.ups d call' hd' u hu)
    · rw [if_neg hw] at hu
      exact hold u (h.ups d call' hd' u hu)

/-- It wakes the queue and returns. -/
theorem Noted.wake {s : Sys} (h : Noted s) {c : ℕ} {call : Call} (hc : s.calls[c]? = some call)
    (hpc : call.pc = .wake) : Noted ((s.wakeAll).setPc c (.returned 0)) := by
  have hcalls : (s.wakeAll).calls[c]? = some call :=
    calls_wakeAll_self hc (by simp [Call.waits, hpc])
  have hold : ∀ u, s.At u .wake ∨ s.At u (.returned 0) →
      ((s.wakeAll).setPc c (.returned 0)).At u .wake ∨
        ((s.wakeAll).setPc c (.returned 0)).At u (.returned 0) := by
    intro u hu
    rcases eq_or_ne u c with rfl | hne
    · exact .inr ⟨_, calls_setPc_self hcalls _, rfl⟩
    · have hmove : ∀ {pc'}, (s.wakeAll).At u pc' →
          ((s.wakeAll).setPc c (.returned 0)).At u pc' := fun ⟨other, hother, hpc'⟩ =>
        ⟨other, (calls_setPc_of_ne hne _).trans hother, hpc'⟩
      exact hu.imp (fun hu => hmove (hu.wakeAll (by simp))) fun hu => hmove (hu.wakeAll (by simp))
  refine ⟨forall_setPc hcalls (fun d _ other hd hclear => ?_) fun hclear => absurd hclear (by simp),
    forall_setPc hcalls (fun d _ other hd u hu => ?_) fun u hu => hold u (h.ups c call hc u hu)⟩
  · obtain ⟨call', hd', ⟨t, signalled, -, rfl⟩ | ⟨-, rfl⟩⟩ := calls_of_wakeAll hd
    · exact absurd hclear (by simp)
    · exact h.fresh d _ hd' hclear
  · obtain ⟨call', hd', ⟨t, signalled, -, rfl⟩ | ⟨-, rfl⟩⟩ := calls_of_wakeAll hd
    · exact hold u (h.ups d call' hd' u hu)
    · exact hold u (h.ups d _ hd' u hu)

theorem Step.noted {s s' : Sys} {a : Act} (hs : Step s a s') (h : Noted s) : Noted s' := by
  cases hs with
  | stutter | refused | opening | opened | released => exact ⟨h.fresh, h.ups⟩
  | down | up => exact h.addCall _ _
  | @clear c call hc hpc =>
    have hmoved : Noted (s.setPc c (.wait .check false)) :=
      h.setPc hc (by simp [hpc]) (by simp [hpc]) (by simp)
    exact ⟨hmoved.fresh, hmoved.ups⟩
  | leave hc hpc => exact h.setPc hc (by simp [hpc]) (by simp [hpc]) (by simp)
  | interrupted hc hpc => exact h.setPc hc (by simp [hpc]) (by simp [hpc]) (by simp)
  | wait hc hpc => exact h.setPc hc (by simp [hpc]) (by simp [hpc]) (by simp)
  | stirred hc hpc => exact h.setPc hc (by simp [hpc]) (by simp [hpc]) (by simp)
  | set hc hpc =>
    have hmoved := h.set hc hpc
    exact ⟨hmoved.fresh, hmoved.ups⟩
  | wake hc hpc => exact h.wake hc hpc

theorem noted_run (acts : List Act) : Noted (run step Sys.start acts) := by
  refine run_invariant step (fun s a => (step_cases s a).noted) acts ⟨?_, ?_⟩
  · exact fun c call hc => absurd hc (by simp [Sys.start])
  · exact fun c call hc => absurd hc (by simp [Sys.start])

/-! ### When what is owed is kept -/

/-- **A call that is owed its return gets it**: once a call of `MY_IOCTL_UP` that has set
`flag` while it was waiting is over, it does not sleep, and returns 0 as soon as it runs. -/
def Released (s : Sys) : Prop :=
  ∀ (c : ℕ) (call : Call) (t : Waiter) (signalled : Bool) (u : ℕ), s.calls[c]? = some call →
    call.pc = .wait t signalled → u ∈ call.due → s.At u (.returned 0) →
      t.dozing = false ∧ (run step s [.go c, .go c]).At c (.returned 0)

/-- **No call clears `flag` while another is owed its return.** -/
def Patient (s : Sys) : Act → Prop
  | .go d => s.At d .clear → ∀ call ∈ s.calls, call.waits = true → call.due = []
  | _ => True

/-- **What is owed is kept**: with a call that is owed its return `flag` is set, and such a
call sleeps only if the wake-up is still to come. -/
structure Kept (s : Sys) : Prop where
  flag : ∀ (c : ℕ) (call : Call), s.calls[c]? = some call → call.waits = true → call.due ≠ [] →
    s.data.flag ≠ 0
  awake : ∀ (c : ℕ) (call : Call) (t : Waiter) (signalled : Bool), s.calls[c]? = some call →
    call.pc = .wait t signalled → t.dozing = true → ∀ u ∈ call.due, s.At u .wake

theorem kept_start : Kept Sys.start where
  flag c call hc := absurd hc (by simp [Sys.start])
  awake c call t signalled hc := absurd hc (by simp [Sys.start])

/-- A call outside `MY_IOCTL_UP` moves to where it does not wait, or waits and was waiting. -/
theorem Kept.setPc {s : Sys} (h : Kept s) {c : ℕ} {call : Call} {pc : Pc}
    (hc : s.calls[c]? = some call) (hwake : call.pc ≠ .wake)
    (hwaits : ∀ t signalled, pc = .wait t signalled → call.waits = true)
    (hdozing : ∀ t signalled, pc = .wait t signalled → t.dozing = true →
      ∀ u ∈ call.due, s.At u .wake) : Kept (s.setPc c pc) where
  flag := by
    refine forall_setPc hc (fun d _ => h.flag d) fun hw hdue => ?_
    obtain ⟨t, signalled, hpc⟩ := Call.waits_iff.mp hw
    exact h.flag c call hc (hwaits t signalled hpc) hdue
  awake := by
    intro d other t signalled hd
    refine forall_setPc (P := fun _ other => other.pc = .wait t signalled → t.dozing = true →
      ∀ u ∈ other.due, (s.setPc c pc).At u .wake) hc ?_ ?_ d other hd
    · intro d _ other hd hpc ht u hu
      exact (h.awake d other t signalled hd hpc ht u hu).setPc hc hwake
    · exact fun hpc ht u hu => (hdozing t signalled hpc ht u hu).setPc hc hwake

theorem Kept.addCall {s : Sys} (h : Kept s) (f : ℕ) {pc : Pc}
    (hpc : ∀ t signalled, pc ≠ .wait t signalled) : Kept (s.addCall f pc) where
  flag := forall_addCall h.flag fun _ hdue => absurd rfl hdue
  awake := by
    intro d other t signalled hd
    refine forall_addCall (P := fun _ other => other.pc = .wait t signalled → t.dozing = true →
      ∀ u ∈ other.due, (s.addCall f pc).At u .wake) ?_ ?_ d other hd
    · exact fun d other hd hpc ht u hu => (h.awake d other t signalled hd hpc ht u hu).addCall f
    · exact fun heq => absurd heq (hpc t signalled)

/-- A test that fails has found `flag` clear. -/
theorem flag_of_dozing {s : Sys} {t t' : Waiter} (hadv : t.advance (s.data.flag ≠ 0) = some t')
    (ht' : t'.dozing = true) : t.dozing = true ∨ s.data.flag = 0 := by
  refine (Waiter.dozing_of_advance hadv ht').imp_right fun hcond => ?_
  simpa using hcond

/-- A call of `MY_IOCTL_UP` sets `flag`, and is to wake those that sleep. -/
theorem Kept.set {s : Sys} (h : Kept s) {c : ℕ} {call : Call} (hc : s.calls[c]? = some call)
    (hpc : call.pc = .set) : Kept (((s.owe c).setPc c .wake).setFlag 1) := by
  have howe : (s.owe c).calls[c]? = some call := calls_owe_self hc (by simp [Call.waits, hpc]) c
  have hself : ((s.owe c).setPc c .wake).At c .wake := ⟨_, calls_setPc_self howe .wake, rfl⟩
  refine ⟨fun _ _ _ _ _ => by simp [Sys.setFlag], fun d other t signalled hd => ?_⟩
  refine forall_setPc (P := fun _ other => other.pc = .wait t signalled → t.dozing = true →
    ∀ u ∈ other.due, ((s.owe c).setPc c .wake).At u .wake) howe ?_ ?_ d other hd
  · intro d _ other hd hwait ht u hu
    obtain ⟨call', hd', rfl⟩ := calls_of_owe hd
    have hwait' : call'.pc = .wait t signalled := by
      by_cases hw : call'.waits = true
      · rwa [if_pos hw] at hwait
      · rwa [if_neg hw] at hwait
    rw [if_pos (Call.waits_iff.mpr ⟨t, signalled, hwait'⟩)] at hu
    rcases List.mem_cons.mp hu with rfl | hu
    · exact hself
    · refine ((h.awake d call' t signalled hd' hwait' ht u hu).owe c).setPc howe ?_
      simp [hpc]
  · exact fun hwait => absurd hwait (by simp)

/-- It wakes the queue: nobody sleeps. -/
theorem Kept.wake {s : Sys} (h : Kept s) {c : ℕ} {call : Call} (hc : s.calls[c]? = some call)
    (hpc : call.pc = .wake) : Kept ((s.wakeAll).setPc c (.returned 0)) := by
  have hcalls : (s.wakeAll).calls[c]? = some call :=
    calls_wakeAll_self hc (by simp [Call.waits, hpc])
  constructor
  · refine forall_setPc hcalls (fun d _ other hd hw hdue => ?_) fun hw =>
      absurd hw (by simp [Call.waits])
    obtain ⟨call', hd', ⟨t, signalled, hpc', rfl⟩ | ⟨-, rfl⟩⟩ := calls_of_wakeAll hd
    · exact h.flag d call' hd' (Call.waits_iff.mpr ⟨t, signalled, hpc'⟩) hdue
    · exact h.flag d _ hd' hw hdue
  · intro d other t signalled hd
    refine forall_setPc (P := fun _ other => other.pc = .wait t signalled → t.dozing = true →
      ∀ u ∈ other.due, ((s.wakeAll).setPc c (.returned 0)).At u .wake) hcalls ?_ ?_ d other hd
    · intro d _ other hd hwait ht
      obtain ⟨call', hd', ⟨t', signalled', -, rfl⟩ | ⟨hw, rfl⟩⟩ := calls_of_wakeAll hd
      · obtain ⟨rfl, -⟩ := Pc.wait.inj hwait
        exact absurd ht (by simp)
      · exact absurd (Call.waits_iff.mpr ⟨t, signalled, hwait⟩) (by simp [hw])
    · exact fun hwait => absurd hwait (by simp)

theorem Step.kept {s s' : Sys} {a : Act} (hs : Step s a s') (hok : Patient s a) (hn : Noted s)
    (h : Kept s) : Kept s' := by
  cases hs with
  | stutter | refused | opening | opened | released => exact ⟨h.flag, h.awake⟩
  | down | up => exact h.addCall _ (by simp)
  | @clear c call hc hpc =>
    -- nobody is owed anything
    have hnone : ∀ (d : ℕ) (other : Call),
        ((s.setPc c (.wait .check false)).setFlag 0).calls[d]? = some other →
          other.waits = true → other.due = [] := by
      refine forall_setPc hc (fun d _ other hd => ?_) fun _ => hn.fresh c call hc hpc
      exact hok ⟨call, hc, hpc⟩ other (List.mem_of_getElem? hd)
    refine ⟨fun d other hd hw hdue => absurd (hnone d other hd hw) hdue,
      fun d other t signalled hd hpc' _ u hu => ?_⟩
    rw [hnone d other hd (Call.waits_iff.mpr ⟨t, signalled, hpc'⟩)] at hu
    exact absurd hu List.not_mem_nil
  | leave hc hpc => exact h.setPc hc (by simp [hpc]) (by simp) (by simp)
  | interrupted hc hpc => exact h.setPc hc (by simp [hpc]) (by simp) (by simp)
  | @wait c call t t' signalled hc hpc hadv =>
    have hwaits : call.waits = true := Call.waits_iff.mpr ⟨t, signalled, hpc⟩
    refine h.setPc hc (by simp [hpc]) (fun _ _ _ => hwaits) fun t₁ signalled₁ heq ht u hu => ?_
    obtain ⟨rfl, rfl⟩ := Pc.wait.inj heq
    rcases flag_of_dozing hadv ht with ht | hflag
    · exact h.awake c call t signalled hc hpc ht u hu
    · exact absurd hflag (h.flag c call hc hwaits (List.ne_nil_of_mem hu))
  | @stirred a c call t t' signalled signalled' hc hpc ht =>
    have hwaits : call.waits = true := Call.waits_iff.mpr ⟨t, signalled, hpc⟩
    refine h.setPc hc (by simp [hpc]) (fun _ _ _ => hwaits) fun t₁ signalled₁ heq ht₁ => ?_
    obtain ⟨rfl, rfl⟩ := Pc.wait.inj heq
    exact absurd ht₁ (by simp [ht])
  | set hc hpc => exact h.set hc hpc
  | wake hc hpc => exact h.wake hc hpc

/-- **With `flag` set, a call that does not doze returns 0 as soon as it runs.** -/
theorem returns_of_flag {s : Sys} {c : ℕ} {call : Call} {t : Waiter} {signalled : Bool}
    (hc : s.calls[c]? = some call) (hpc : call.pc = .wait t signalled) (ht : t.dozing = false)
    (hflag : s.data.flag ≠ 0) : (run step s [.go c, .go c]).At c (.returned 0) := by
  -- a call that has returned stays where it is
  have hover : ∀ s' : Sys, s'.At c (.returned 0) → (step s' (.go c)).At c (.returned 0) := by
    rintro s' ⟨⟨f, pc, due⟩, hc', rfl⟩
    simp only [step, hc', stepCall]
    exact ⟨_, hc', rfl⟩
  have hleave : ∀ s' : Sys, s'.data.flag ≠ 0 → ∀ call' : Call, s'.calls[c]? = some call' →
      call'.pc = .wait .check signalled ∨ call'.pc = .wait .test signalled →
        (step s' (.go c)).At c (.returned 0) := by
    rintro s' hflag' call' hc' (hpc' | hpc')
    · simp only [step, hc', hpc', stepCall, stepWait, Waiter.advance, hflag', ne_eq,
        not_false_eq_true, decide_true, if_true]
      exact ⟨_, calls_setPc_self hc' _, rfl⟩
    · simp only [step, hc', hpc', stepCall, stepWait, Waiter.advance, hflag', ne_eq,
        not_false_eq_true, decide_true, if_true]
      exact ⟨_, calls_setPc_self hc' _, rfl⟩
  rw [run_cons, run_cons, run_nil]
  cases t with
  | check => exact hover _ (hleave s hflag call hc (.inl hpc))
  | test => exact hover _ (hleave s hflag call hc (.inr hpc))
  | prepare =>
    have hstep : step s (.go c) = s.setPc c (.wait .test signalled) := by
      simp [step, hc, hpc, stepCall, stepWait, Waiter.advance]
    rw [hstep]
    exact hleave _ hflag _ (calls_setPc_self hc _) (.inr rfl)
  | commit | asleep => exact absurd ht (by simp [Waiter.dozing])

theorem Kept.released {s : Sys} (h : Kept s) : Released s := by
  intro c call t signalled u hc hpc hu hover
  have hflag : s.data.flag ≠ 0 :=
    h.flag c call hc (Call.waits_iff.mpr ⟨t, signalled, hpc⟩) (List.ne_nil_of_mem hu)
  have ht : t.dozing = false := by
    -- the call that owes it its return has woken it
    by_contra ht
    obtain ⟨up, hup, hwake⟩ := h.awake c call t signalled hc hpc (by simpa using ht) u hu
    obtain ⟨up', hup', hret⟩ := hover
    obtain rfl := Option.some.inj (hup.symm.trans hup')
    exact absurd (hwake.symm.trans hret) (by simp)
  exact ⟨ht, returns_of_flag hc hpc ht hflag⟩

/-- The call waits, or has been interrupted. -/
def Stuck (s : Sys) (c : ℕ) : Prop :=
  ∃ call, s.calls[c]? = some call ∧ (call.waits = true ∨ call.pc = .returned (-erestartsys))

theorem Stuck.not_returned {s : Sys} {c : ℕ} (h : Stuck s c) : ¬s.At c (.returned 0) := by
  rintro ⟨call, hc, hpc⟩
  obtain ⟨call', hc', hw⟩ := h
  obtain rfl := Option.some.inj (hc.symm.trans hc')
  simp [Call.waits, hpc, erestartsys] at hw

/-- **With `flag` clear, a call that waits does not return 0.** -/
theorem Stuck.go {s : Sys} {c : ℕ} (h : Stuck s c) (hflag : s.data.flag = 0) :
    Stuck (step s (.go c)) c ∧ (step s (.go c)).data.flag = 0 := by
  obtain ⟨⟨f, pc, due⟩, hc, hw⟩ := h
  cases pc with
  | wait t signalled =>
    have hself : ∀ pc', (s.setPc c pc').calls[c]? = some ⟨f, pc', due⟩ := fun pc' =>
      calls_setPc_self hc pc'
    simp only [step, hc, stepCall, stepWait, hflag, ne_eq, not_true_eq_false, decide_false]
    cases t with
    | test =>
      cases signalled with
      | true => exact ⟨⟨_, hself _, .inr rfl⟩, hflag⟩
      | false => exact ⟨⟨_, hself _, .inl rfl⟩, hflag⟩
    | check | prepare | commit | asleep => exact ⟨⟨_, hself _, .inl rfl⟩, hflag⟩
  | returned ret =>
    simp only [step, hc, stepCall]
    exact ⟨⟨_, hc, hw⟩, hflag⟩
  | clear | set | wake => exact absurd hw (by simp [Call.waits])

theorem step_go {s : Sys} {c : ℕ} {call : Call} (hc : s.calls[c]? = some call) :
    step s (.go c) = stepCall s c call.pc := by
  simp only [step, hc]

/-- Call `c` waits, and is owed its return by call `u`, with `flag` clear. -/
def Forgotten (s : Sys) (c u : ℕ) : Prop :=
  s.data.flag = 0 ∧ ∃ call, s.calls[c]? = some call ∧ call.waits = true ∧ u ∈ call.due

/-- A call clears `flag` while another is owed its return. -/
theorem Forgotten.of_clear {s : Sys} {c d u : ℕ} {call : Call} (hd : s.At d .clear)
    (hc : s.calls[c]? = some call) (hw : call.waits = true) (hu : u ∈ call.due) :
    Forgotten (step s (.go d)) c u := by
  obtain ⟨clears, hd, hclear⟩ := hd
  have hne : c ≠ d := by
    rintro rfl
    obtain rfl := Option.some.inj (hc.symm.trans hd)
    simp [Call.waits, hclear] at hw
  rw [step_go hd, hclear]
  exact ⟨rfl, call, (calls_setPc_of_ne hne _).trans hc, hw, hu⟩

/-- The call that owes it its return ends. -/
theorem Forgotten.go {s : Sys} {c u : ℕ} (h : Forgotten s c u)
    (hu : s.At u .wake ∨ s.At u (.returned 0)) :
    Forgotten (step s (.go u)) c u ∧ (step s (.go u)).At u (.returned 0) := by
  obtain ⟨hflag, call, hc, hw, hdue⟩ := h
  rcases hu with ⟨up, hup, hwake⟩ | ⟨up, hup, hret⟩
  · have hne : c ≠ u := by
      rintro rfl
      obtain rfl := Option.some.inj (hc.symm.trans hup)
      simp [Call.waits, hwake] at hw
    have hcalls : (s.wakeAll).calls[u]? = some up :=
      calls_wakeAll_self hup (by simp [Call.waits, hwake])
    obtain ⟨t, signalled, hpc⟩ := Call.waits_iff.mp hw
    rw [step_go hup, hwake]
    refine ⟨⟨hflag, { call with pc := .wait t.wake signalled }, ?_, rfl, hdue⟩,
      _, calls_setPc_self hcalls _, rfl⟩
    refine (calls_setPc_of_ne hne _).trans ?_
    rw [Sys.wakeAll, List.getElem?_map, hc]
    simp [hpc]
  · rw [step_go hup, hret]
    exact ⟨⟨hflag, call, hc, hw, hdue⟩, up, hup, hret⟩

/-- A call that is owed its return when another clears `flag` does not get it. -/
theorem exists_not_released {s : Sys} (hn : Noted s) {d : ℕ} (hd : s.At d .clear) {call : Call}
    (hcall : call ∈ s.calls) (hw : call.waits = true) (hdue : call.due ≠ []) :
    ∃ more, ¬Released (run step (step s (.go d)) more) := by
  obtain ⟨c, hc⟩ := List.mem_iff_getElem?.mp hcall
  obtain ⟨u, hu⟩ := List.exists_mem_of_ne_nil _ hdue
  have hforgotten : Forgotten (step s (.go d)) c u := .of_clear hd hc hw hu
  have hup : (step s (.go d)).At u .wake ∨ (step s (.go d)).At u (.returned 0) := by
    obtain ⟨clears, hd, hclear⟩ := hd
    rw [step_go hd, hclear]
    exact (hn.ups c call hc u hu).imp (·.setPc hd (by simp [hclear]))
      (·.setPc hd (by simp [hclear]))
  obtain ⟨⟨hflag, other, hc', hw', hu'⟩, hover⟩ := hforgotten.go hup
  obtain ⟨t, signalled, hpc⟩ := Call.waits_iff.mp hw'
  refine ⟨[.go u], fun hrel => ?_⟩
  have hbad : Stuck (step (step s (.go d)) (.go u)) c := ⟨other, hc', .inl hw'⟩
  obtain ⟨hbad', hflag'⟩ := hbad.go hflag
  exact (hbad'.go hflag').1.not_returned (hrel c other t signalled u hc' hpc hu' hover).2

/-- **`MY_IOCTL_UP` releases the calls that wait as long as no other clears `flag` first.** In
a run in which no call of `MY_IOCTL_DOWN` clears `flag` while another, that was waiting when
some call of `MY_IOCTL_UP` set it, is still waiting, such a call does not sleep once that call
of `MY_IOCTL_UP` is over, and returns 0 as soon as it runs. After any other step there is a
way to go on that leaves it waiting. -/
theorem released_exact (acts : List Act) :
    (Along step Patient Sys.start acts → Released (run step Sys.start acts)) ∧
      ∀ a, ¬Patient (run step Sys.start acts) a →
        ∃ more, ¬Released (run step Sys.start (acts ++ a :: more)) := by
  refine ⟨fun hok => ?_, fun a ha => ?_⟩
  · have hstep : ∀ s a, Patient s a → Noted s ∧ Kept s → Noted (step s a) ∧ Kept (step s a) :=
      fun s a hok h => ⟨(step_cases s a).noted h.1, (step_cases s a).kept hok h.1 h.2⟩
    exact (run_invariant_along step hstep acts hok ⟨noted_run [], kept_start⟩).2.released
  · refine exists_run_of_next step (P := fun s => ¬Released s) ?_
    cases a with
    | go d =>
      rw [Patient] at ha
      push Not at ha
      obtain ⟨hd, call, hcall, hw, hdue⟩ := ha
      exact exists_not_released (noted_run acts) hd hcall hw hdue
    | openFile | openEnd | release | down | up | signal | wakeUp => exact absurd trivial ha

/-- A call sleeps, and `MY_IOCTL_UP` sets `flag` and wakes it. -/
def wokenUp : List Act :=
  [.openFile 0, .openEnd 0, .down 0, .go 0, .go 0, .go 0, .go 0, .go 0, .up 0, .go 1, .go 1]

/-- The call that has slept returns 0. -/
theorem released_exact_wokenUp :
    (run step Sys.start wokenUp).calls[0]? = some ⟨0, .wait .prepare false, [1]⟩ ∧
      (run step Sys.start (wokenUp ++ [Act.go 0, Act.go 0])).At 0 (.returned 0) := by
  have hcall : (run step Sys.start wokenUp).calls[0]? = some ⟨0, .wait .prepare false, [1]⟩ := by
    decide
  have hclear : Along step Patient Sys.start wokenUp := by
    refine ⟨trivial, trivial, trivial, ?_, ?_, ?_, ?_, ?_, trivial, ?_, ?_, trivial⟩
    · rintro -
      decide
    all_goals
      rintro ⟨call, hc, hpc⟩
      obtain rfl := Option.some.inj hc
      exact absurd hpc (by decide)
  refine ⟨hcall, ?_⟩
  rw [run_append]
  exact ((released_exact wokenUp).1 hclear 0 _ .prepare false 1 hcall rfl (by simp)
    ⟨⟨0, .returned 0, []⟩, by decide, rfl⟩).2

/-- **A new call of `MY_IOCTL_DOWN` comes first.** The call that has been woken finds `flag`
clear again, and goes back to sleep after `MY_IOCTL_UP` is over. -/
theorem asleep_after_up :
    ¬Released (run step Sys.start (wokenUp ++ [Act.down 0, Act.go 2])) ∧
      (run step Sys.start (wokenUp ++ [Act.down 0, Act.go 2])).calls[0]?
        = some ⟨0, .wait .prepare false, [1]⟩ ∧
      (run step Sys.start (wokenUp ++ [Act.down 0, Act.go 2])).calls[1]?
        = some ⟨0, .returned 0, []⟩ ∧
      (run step Sys.start
        (wokenUp ++ [Act.down 0, Act.go 2, Act.go 0, Act.go 0, Act.go 0])).calls[0]?
        = some ⟨0, .wait .asleep false, [1]⟩ := by
  refine ⟨fun h => ?_, by decide, by decide, by decide⟩
  obtain ⟨call, hc, hpc⟩ := (h 0 ⟨0, .wait .prepare false, [1]⟩ .prepare false 1 (by decide) rfl
    (by simp) ⟨⟨0, .returned 0, []⟩, by decide, rfl⟩).2
  obtain rfl := Option.some.inj hc
  exact absurd hpc (by decide)

/-! ### Processes that share no file -/

/-- **A file belongs to one process**, which makes one call at a time. -/
def Unshared (s : Sys) : Act → Prop
  | .down f => ¬s.InUse f
  | .up f => ¬s.InUse f
  | _ => True

/-- A call is blocked in `MY_IOCTL_DOWN`. -/
def Blocked (s : Sys) (c : ℕ) : Prop := ∃ call, s.calls[c]? = some call ∧ call.waits = true

/-- A file that `so2_cdev_open` has got the device for. -/
def File.holds : File → Bool
  | .opening => true
  | .opened => true
  | _ => false

/-- `dev_opend` is a lock that is tried. -/
def openLock : TryLock Unit File where
  inside := File.holds
  free _ := True
  own _ _ := True

/-- `dev_opend` and the files. -/
def Sys.view (s : Sys) : LockView Unit File := ⟨s.data.devOpend ≠ 0, (), s.files⟩

/-- **The device has one user.** One file holds it, the calls in progress are on that file,
there is at most one of them, and if it waits then `flag` is clear. -/
structure Alone (s : Sys) : Prop where
  owned : openLock.Owned s.view
  live : ∀ (c : ℕ) (call : Call), s.calls[c]? = some call → call.over = false →
    s.files call.file = some .opened
  one : ∀ (c d : ℕ) (call other : Call), s.calls[c]? = some call → s.calls[d]? = some other →
    call.over = false → other.over = false → c = d
  clear : ∀ (c : ℕ) (call : Call), s.calls[c]? = some call → call.waits = true →
    s.data.flag = 0

theorem alone_start : Alone Sys.start where
  owned := TryLock.owned_nobody trivial
  live c call hc := absurd hc (by simp [Sys.start])
  one c d call other hc := absurd hc (by simp [Sys.start])
  clear c call hc := absurd hc (by simp [Sys.start])

/-- A call in progress goes on. -/
theorem Alone.setPc {s : Sys} (h : Alone s) {c : ℕ} {call : Call} {pc : Pc}
    (hc : s.calls[c]? = some call) (hover : call.over = false)
    (hclear : ∀ t signalled, pc = .wait t signalled → s.data.flag = 0) :
    Alone (s.setPc c pc) where
  owned := h.owned
  live := forall_setPc hc (fun d _ => h.live d) fun _ => h.live c call hc hover
  one := by
    intro d e call' other hd he hd' he'
    -- a call in progress now was in progress before
    have hold : ∀ (d : ℕ) (other : Call), (s.setPc c pc).calls[d]? = some other →
        other.over = false → d = c := by
      refine forall_setPc hc (fun d _ other hd hover' => ?_) fun _ => rfl
      exact h.one d c other call hd hc hover' hover
    rw [hold d call' hd hd', hold e other he he']
  clear := by
    refine forall_setPc hc (fun d _ => h.clear d) fun hw => ?_
    obtain ⟨t, signalled, hpc⟩ := Call.waits_iff.mp hw
    exact hclear t signalled hpc

/-- A call is made on a file that is not in use. -/
theorem Alone.addCall {s : Sys} (h : Alone s) {f : ℕ} (hf : s.files f = some .opened)
    (hfree : ¬s.InUse f) {pc : Pc} (hpc : ∀ t signalled, pc ≠ .wait t signalled) :
    Alone (s.addCall f pc) where
  owned := h.owned
  live := forall_addCall h.live fun _ => hf
  one := by
    -- the files of the calls in progress are open, and only one file is
    have hnone : ∀ (d : ℕ) (other : Call), s.calls[d]? = some other → other.over = false →
        False := by
      intro d other hd hover
      have hfile : other.file = f := h.owned.unique other.file f .opened .opened
        (h.live d other hd hover) rfl hf rfl
      exact hfree ⟨other, List.mem_of_getElem? hd, hfile, hover⟩
    have hnew : ∀ (d : ℕ) (other : Call), (s.addCall f pc).calls[d]? = some other →
        other.over = false → d = s.calls.length :=
      forall_addCall (fun d other hd hover => (hnone d other hd hover).elim) fun _ => rfl
    intro d e call other hd he hd' he'
    rw [hnew d call hd hd', hnew e other he he']
  clear := by
    refine forall_addCall h.clear fun hw => ?_
    obtain ⟨t, signalled, hwait⟩ := Call.waits_iff.mp hw
    exact absurd hwait (hpc t signalled)

/-- A file without calls in progress changes. -/
theorem Alone.setFile {s : Sys} (h : Alone s) {f : ℕ} {file : File} {data : DeviceData}
    (hflag : data.flag = s.data.flag)
    (hmove : openLock.Move s.view { s.setFile f file with data := data }.view)
    (hfree : ∀ (c : ℕ) (call : Call), s.calls[c]? = some call → call.over = false →
      call.file ≠ f) : Alone { s.setFile f file with data := data } where
  owned := hmove.owned h.owned
  live c call hc hover := by
    refine (Function.update_of_ne (hfree c call hc hover) ..).trans ?_
    exact h.live c call hc hover
  one := h.one
  clear c call hc hw := hflag.trans (h.clear c call hc hw)

/-- The calls in progress are not on a file that is not open. -/
theorem Alone.file_ne {s : Sys} (h : Alone s) {f : ℕ} (hf : s.files f ≠ some .opened) (c : ℕ)
    (call : Call) (hc : s.calls[c]? = some call) (hover : call.over = false) :
    call.file ≠ f := by
  rintro rfl
  exact hf (h.live c call hc hover)

theorem Call.over_of_pc {call : Call} {pc : Pc} (hpc : call.pc = pc)
    (hret : ∀ ret, pc ≠ .returned ret) : call.over = false := by
  obtain ⟨f, pc', due⟩ := call
  obtain rfl : pc' = pc := hpc
  cases pc' with
  | returned ret => exact absurd rfl (hret ret)
  | clear | wait | set | wake => rfl

/-- The only call in progress does not wait: nobody does. -/
theorem Alone.waits_eq_false {s : Sys} (h : Alone s) {c : ℕ} {call : Call}
    (hc : s.calls[c]? = some call) (hover : call.over = false) (hw : call.waits = false) :
    ∀ other ∈ s.calls, other.waits = false := by
  intro other hother
  obtain ⟨d, hd⟩ := List.mem_iff_getElem?.mp hother
  by_contra hwaits
  obtain ⟨t, signalled, hpc⟩ := Call.waits_iff.mp (by simpa using hwaits)
  obtain rfl := h.one c d call other hc hd hover (Call.over_of_pc hpc (by simp))
  obtain rfl := Option.some.inj (hc.symm.trans hd)
  exact hwaits hw

/-- With nobody waiting, nothing is noted. -/
theorem owe_eq_self {s : Sys} (h : ∀ call ∈ s.calls, call.waits = false) (u : ℕ) :
    s.owe u = s := by
  have hcalls : s.calls.map (fun call =>
      if call.waits then { call with due := u :: call.due } else call) = s.calls := by
    refine (List.map_congr_left fun call hcall => ?_).trans (List.map_id s.calls)
    rw [if_neg (by simp [h call hcall]), id]
  simp only [Sys.owe, hcalls]

/-- With nobody waiting, nobody is woken. -/
theorem wakeAll_eq_self {s : Sys} (h : ∀ call ∈ s.calls, call.waits = false) :
    s.wakeAll = s := by
  have hcalls : s.calls.map (fun call => match call.pc with
      | .wait t signalled => { call with pc := .wait t.wake signalled }
      | _ => call) = s.calls := by
    refine (List.map_congr_left fun call hcall => ?_).trans (List.map_id s.calls)
    obtain ⟨f, pc, due⟩ := call
    cases pc with
    | wait t signalled => exact absurd (h _ hcall) (by simp [Call.waits])
    | clear | set | wake | returned => rfl
  simp only [Sys.wakeAll, hcalls]

/-- **The device keeps to its one user.** -/
theorem Step.alone {s s' : Sys} {a : Act} (hs : Step s a s') (hok : Unshared s a) (h : Alone s) :
    Alone s' := by
  cases hs with
  | stutter => exact h
  | @refused f hf hd =>
    refine h.setFile rfl (.outside (fun p hp => ?_) rfl) (h.file_ne (by simp [hf]))
    exact absurd (hf.symm.trans hp) (by simp)
  | @opening f hf hd =>
    refine h.setFile rfl (.acquire (by simp [Sys.view, hd]) (fun p hp => ?_) rfl id)
      (h.file_ne (by simp [hf]))
    exact absurd (hf.symm.trans hp) (by simp)
  | @opened f hf => exact h.setFile rfl (.work hf rfl rfl id) (h.file_ne (by simp [hf]))
  | @released f hf hcalls =>
    refine h.setFile rfl (.release hf rfl rfl id) fun c call hc hover hfile => ?_
    exact hcalls ⟨call, List.mem_of_getElem? hc, hfile, hover⟩
  | down hf => exact h.addCall hf hok (by simp)
  | up hf => exact h.addCall hf hok (by simp)
  | @clear c call hc hpc =>
    have hover : call.over = false := Call.over_of_pc hpc (by simp)
    have hset : Alone (s.setFlag 0) := ⟨h.owned, h.live, h.one, fun _ _ _ _ => rfl⟩
    have hmoved : Alone ((s.setFlag 0).setPc c (.wait .check false)) :=
      hset.setPc hc hover fun _ _ _ => rfl
    exact hmoved
  | leave hc hpc => exact h.setPc hc (Call.over_of_pc hpc (by simp)) (by simp)
  | interrupted hc hpc => exact h.setPc hc (Call.over_of_pc hpc (by simp)) (by simp)
  | @wait c call t t' signalled hc hpc =>
    refine h.setPc hc (Call.over_of_pc hpc (by simp)) fun _ _ _ => ?_
    exact h.clear c call hc (Call.waits_iff.mpr ⟨t, signalled, hpc⟩)
  | @stirred a c call t t' signalled signalled' hc hpc =>
    refine h.setPc hc (Call.over_of_pc hpc (by simp)) fun _ _ _ => ?_
    exact h.clear c call hc (Call.waits_iff.mpr ⟨t, signalled, hpc⟩)
  | @set c call hc hpc =>
    have hover : call.over = false := Call.over_of_pc hpc (by simp)
    have hnone := h.waits_eq_false hc hover (by simp [Call.waits, hpc])
    have hset : Alone (s.setFlag 1) := by
      refine ⟨h.owned, h.live, h.one, fun d other hd hw => ?_⟩
      exact absurd hw (by simp [hnone other (List.mem_of_getElem? hd)])
    rw [owe_eq_self hnone]
    have hmoved : Alone ((s.setFlag 1).setPc c .wake) := hset.setPc hc hover (by simp)
    exact hmoved
  | @wake c call hc hpc =>
    have hover : call.over = false := Call.over_of_pc hpc (by simp)
    rw [wakeAll_eq_self (h.waits_eq_false hc hover (by simp [Call.waits, hpc]))]
    exact h.setPc hc hover (by simp)

/-- A call moves, and if it is this one then it goes on waiting or is interrupted. -/
theorem Stuck.setPc {s : Sys} {c d : ℕ} (h : Stuck s c) {pc : Pc}
    (hself : c = d → (∃ t signalled, pc = .wait t signalled) ∨ pc = .returned (-erestartsys)) :
    Stuck (s.setPc d pc) c := by
  obtain ⟨call, hc, hw⟩ := h
  rcases eq_or_ne c d with rfl | hne
  · exact ⟨_, calls_setPc_self hc pc, (hself rfl).imp_left Call.waits_iff.mpr⟩
  · exact ⟨call, (calls_setPc_of_ne hne pc).trans hc, hw⟩

/-- A call at another place is another call. -/
theorem Stuck.ne {s : Sys} {c d : ℕ} (h : Stuck s c) {call : Call} (hd : s.calls[d]? = some call)
    (hw : call.waits = false) (hover : call.over = false) : c ≠ d := by
  rintro rfl
  obtain ⟨call', hc, hstuck⟩ := h
  obtain rfl := Option.some.inj (hc.symm.trans hd)
  simp only [hw, Bool.false_eq_true, false_or] at hstuck
  simp [Call.over, hstuck] at hover

/-- **A call that is blocked does not return 0.** -/
theorem Step.stuck {s s' : Sys} {a : Act} (hs : Step s a s') (h : Alone s) {c : ℕ}
    (hstuck : Stuck s c) : Stuck s' c := by
  cases hs with
  | stutter | refused | opening | opened | released => exact hstuck
  | down | up =>
    obtain ⟨call, hc, hw⟩ := hstuck
    refine ⟨call, ?_, hw⟩
    rw [Sys.addCall, List.getElem?_append_left (List.getElem?_eq_some_iff.mp hc).1, hc]
  | clear hd hpc =>
    have hne : c ≠ _ :=
      hstuck.ne hd (by simp [Call.waits, hpc]) (Call.over_of_pc hpc (by simp))
    exact hstuck.setPc fun heq => absurd heq hne
  | @leave d call t signalled hd hpc hadv =>
    -- `flag` is clear: the wait does not end
    have hflag := h.clear d call hd (Call.waits_iff.mpr ⟨t, signalled, hpc⟩)
    exact absurd (Waiter.cond_of_advance_eq_none hadv) (by simp [hflag])
  | interrupted => exact hstuck.setPc fun _ => .inr rfl
  | wait => exact hstuck.setPc fun _ => .inl ⟨_, _, rfl⟩
  | stirred => exact hstuck.setPc fun _ => .inl ⟨_, _, rfl⟩
  | @set d call hd hpc =>
    have hover : call.over = false := Call.over_of_pc hpc (by simp)
    have hw : call.waits = false := by simp [Call.waits, hpc]
    rw [owe_eq_self (h.waits_eq_false hd hover hw)]
    exact hstuck.setPc fun heq => absurd heq (hstuck.ne hd hw hover)
  | @wake d call hd hpc =>
    have hover : call.over = false := Call.over_of_pc hpc (by simp)
    have hw : call.waits = false := by simp [Call.waits, hpc]
    rw [wakeAll_eq_self (h.waits_eq_false hd hover hw)]
    exact hstuck.setPc fun heq => absurd heq (hstuck.ne hd hw hover)

theorem alone_run {acts : List Act} (hok : Along step Unshared Sys.start acts) :
    Alone (run step Sys.start acts) :=
  run_invariant_along step (fun s a hok => (step_cases s a).alone hok) acts hok alone_start

/-- Whatever comes after. -/
theorem Stuck.run {s : Sys} (h : Alone s) {c : ℕ} (hstuck : Stuck s c) {more : List Act}
    (hok : Along step Unshared s more) : Stuck (run step s more) c := by
  have hstep : ∀ s a, Unshared s a → Alone s ∧ Stuck s c →
      Alone (step s a) ∧ Stuck (step s a) c :=
    fun s a hok h => ⟨(step_cases s a).alone hok h.1, (step_cases s a).stuck h.1 h.2⟩
  exact (run_invariant_along step hstep more hok ⟨h, hstuck⟩).2

/-- **A process that waits in `MY_IOCTL_DOWN` waits for good.** It holds the device open, so
every other process is refused it, and nobody else has a file to call `MY_IOCTL_UP` on: no way
to go on makes the call return 0, whether or not the process that waits is sent signals. -/
theorem blocked_for_good (acts : List Act) (hok : Along step Unshared Sys.start acts) (c : ℕ)
    (hc : Blocked (run step Sys.start acts) c) :
    ¬∃ more, Along step Unshared (run step Sys.start acts) more ∧
      (run step Sys.start (acts ++ more)).At c (.returned 0) := by
  rintro ⟨more, hmore, hret⟩
  obtain ⟨call, hc, hw⟩ := hc
  have hstuck : Stuck (run step (run step Sys.start acts) more) c :=
    Stuck.run (alone_run hok) ⟨call, hc, .inl hw⟩ hmore
  rw [run_append] at hret
  exact hstuck.not_returned hret

/-- A process opens the device and goes to sleep in `MY_IOCTL_DOWN`. -/
def sleepsDown : List Act :=
  [.openFile 0, .openEnd 0, .down 0, .go 0, .go 0, .go 0, .go 0, .go 0]

theorem sleepsDown_unshared : Along step Unshared Sys.start sleepsDown := by
  refine ⟨trivial, trivial, ?_, trivial, trivial, trivial, trivial, trivial, trivial⟩
  rintro ⟨call, hcall, -⟩
  exact absurd hcall List.not_mem_nil

theorem blocked_for_good_sleepsDown :
    ¬∃ more, Along step Unshared (run step Sys.start sleepsDown) more ∧
      (run step Sys.start (sleepsDown ++ more)).At 0 (.returned 0) :=
  blocked_for_good sleepsDown sleepsDown_unshared 0 ⟨⟨0, .wait .asleep false, []⟩, by decide, rfl⟩

/-- **It is not so that somebody can always help**: here is a process that is blocked, and
the open of the one that would call `MY_IOCTL_UP` is refused. -/
theorem nobody_to_call_up :
    (run step Sys.start (sleepsDown ++ [.openFile 1])).files 1 = some .refused ∧
    ¬∀ (acts : List Act), Along step Unshared Sys.start acts →
      ∀ c, Blocked (run step Sys.start acts) c →
        ∃ more, Along step Unshared (run step Sys.start acts) more ∧
          (run step Sys.start (acts ++ more)).At c (.returned 0) := by
  refine ⟨by decide, fun h => ?_⟩
  have hcall : (run step Sys.start sleepsDown).calls[0]? = some ⟨0, .wait .asleep false, []⟩ := by
    decide
  obtain ⟨more, hmore, hret⟩ := h sleepsDown sleepsDown_unshared 0 ⟨_, hcall, rfl⟩
  rw [run_append] at hret
  exact (Stuck.run (alone_run sleepsDown_unshared) ⟨_, hcall, .inl rfl⟩ hmore).not_returned hret

end So2Cdev

end KernelModules
