import Mathlib.Algebra.Order.Group.Int
import Mathlib.Data.List.Basic
import Mathlib.Logic.Function.Basic
import KernelModules.Lib.Census
import KernelModules.Lib.Run

/-!
# The deferred-work device

`deferred_work/deferred/kernel/deferred.c`: a character device whose `ioctl` calls arm
one timer for three different purposes – to print a message, to queue work, to watch
over a list of processes –, a timer handler that looks at a flag to know which, and the
functions that load and unload the module.

A step is one access to what is shared: one statement of an `ioctl`, one locked
section, one step of the handler, of the load or of the unload
(`KernelModules.Deferred.step`). Any number of calls may be anywhere in their code.
The kernel's side is there as far as the module depends on it: tasks die, leave the pid
table and are freed when nothing keeps them; the timer expires; queued work runs.

The expiry of the timer carries, in `KernelModules.Deferred.Expiry.by_`, the kind of the
request that has set it. The module keeps no such thing, and nothing it does depends on
it.
-/

namespace KernelModules

namespace Deferred

/-! ### The timer, the requests and the tasks -/

/-- What the timer is for: `TIMER_TYPE_NONE`, `TIMER_TYPE_SET`, `TIMER_TYPE_ALLOC`,
`TIMER_TYPE_MON`. -/
inductive TimerType where
  /-- Nothing. -/
  | none : TimerType
  /-- A message. -/
  | set : TimerType
  /-- Work to queue. -/
  | alloc : TimerType
  /-- The processes on the list. -/
  | mon : TimerType
deriving DecidableEq

/-- When the timer expires, and the kind of the request that has set it so. -/
structure Expiry (w : ℕ) where
  /-- The value of `jiffies`. -/
  expires : BitVec w
  /-- The kind of the request. -/
  by_ : TimerType
deriving DecidableEq

/-- The commands of `deferred_ioctl`, each with its argument. -/
inductive Command (w : ℕ) where
  /-- `MY_IOCTL_TIMER_SET`. -/
  | timerSet (arg : BitVec w) : Command w
  /-- `MY_IOCTL_TIMER_CANCEL`. -/
  | timerCancel : Command w
  /-- `MY_IOCTL_TIMER_ALLOC`. -/
  | timerAlloc (arg : BitVec w) : Command w
  /-- `MY_IOCTL_TIMER_MON`. -/
  | timerMon (arg : BitVec w) : Command w
  /-- Any other. -/
  | other : Command w
deriving DecidableEq

/-- Where a call of `deferred_ioctl` stands. -/
inductive Pc (w : ℕ) where
  /-- `get_proc`, before `rcu_read_lock`. -/
  | rcuLock : Pc w
  /-- Before the lookup of the task. -/
  | lookup : Pc w
  /-- Before `rcu_read_unlock`, with the task found. -/
  | rcuUnlock (task : Option ℕ) : Pc w
  /-- Before `kmalloc`. -/
  | kmalloc (task : ℕ) : Pc w
  /-- Before `get_task_struct`. -/
  | getTask (task : ℕ) : Pc w
  /-- Before the locked section that links the entry. -/
  | insert (task : ℕ) : Pc w
  /-- Before the store of `flag`, with what the timer is going to be set to run after. -/
  | setFlag (ty : TimerType) (delay : BitVec w) : Pc w
  /-- Before `mod_timer`. -/
  | modTimer (ty : TimerType) (delay : BitVec w) : Pc w
  /-- Before `timer_delete_sync`. -/
  | cancel : Pc w
  /-- Over. -/
  | returned (ret : ℤ) : Pc w
deriving DecidableEq

/-- Where `timer_handler` stands. The timer does not run twice at once. -/
inductive Handler where
  /-- Not running. -/
  | idle : Handler
  /-- Before the `switch` on `flag`; the expiry that has fired was set by a request of
  this kind. -/
  | start (by_ : TimerType) : Handler
  /-- Before `schedule_work`. -/
  | schedule : Handler
  /-- Before the locked section that goes through the list. -/
  | sweep : Handler
  /-- Before `mod_timer`. -/
  | rearm : Handler
deriving DecidableEq

/-- Where the module stands in `deferred_init` and `deferred_exit`: the step it makes
next. -/
inductive Phase where
  /-- `register_chrdev_region`. -/
  | register : Phase
  /-- The store of `TIMER_TYPE_NONE`. -/
  | initFlag : Phase
  /-- `INIT_WORK`. -/
  | initWork : Phase
  /-- `spin_lock_init` and `INIT_LIST_HEAD`. -/
  | initList : Phase
  /-- `cdev_init` and `cdev_add`. -/
  | cdevAdd : Phase
  /-- `class_create` and `device_create`. -/
  | deviceCreate : Phase
  /-- `timer_setup`. -/
  | timerSetup : Phase
  /-- `deferred_init` has returned 0. -/
  | loaded : Phase
  /-- `device_destroy` and `class_destroy`. -/
  | deviceDestroy : Phase
  /-- `cdev_del`. -/
  | cdevDel : Phase
  /-- `unregister_chrdev_region`. -/
  | unregister : Phase
  /-- `timer_delete_sync`. -/
  | timerDelete : Phase
  /-- `flush_scheduled_work`. -/
  | flush : Phase
  /-- In `flush_scheduled_work`, which waits for the work queued before this one. -/
  | flushing (barrier : ℕ) : Phase
  /-- The loop that drops the list. -/
  | drop : Phase
  /-- `deferred_exit` has returned. -/
  | unloaded : Phase
  /-- `deferred_init` has failed. -/
  | failed : Phase
deriving DecidableEq

/-- `ESRCH`. -/
def esrch : ℤ := 3
/-- `ENOMEM`. -/
def enomem : ℤ := 12
/-- `ENOTTY`. -/
def enotty : ℤ := 25

/-! ### The state -/

/-- The module, its callers, and the kernel as it sees it. -/
structure Sys (w : ℕ) where
  /-- How far the module is loaded. -/
  phase : Phase
  /-- How many times the device is open. -/
  files : ℕ
  /-- The calls of `deferred_ioctl`, by number. -/
  calls : ℕ → Option (Pc w)
  /-- Those that have not returned. -/
  active : List ℕ
  /-- `flag`. -/
  flag : TimerType
  /-- `timer_setup` has run. -/
  timerReady : Bool
  /-- The timer, when it is pending. -/
  pending : Option (Expiry w)
  /-- `timer_handler`. -/
  handler : Handler
  /-- `INIT_WORK` has run. -/
  workReady : Bool
  /-- The number of the work item queued. -/
  queued : Option ℕ
  /-- The number of the work item running. -/
  running : Option ℕ
  /-- How many have been queued. -/
  works : ℕ
  /-- `list`: the tasks of its entries. -/
  list : List ℕ
  /-- How many references to a task the module has taken, less those it has dropped. -/
  refs : ℕ → ℤ
  /-- The tasks that are `TASK_DEAD`. -/
  dead : List ℕ
  /-- The tasks that are no longer in the pid table. -/
  exited : List ℕ
  /-- The tasks whose `task_struct` has been freed. -/
  freed : List ℕ
  /-- The calls in an RCU read-side section. -/
  readers : List ℕ
  /-- Those that were when a task left the pid table. -/
  grace : ℕ → List ℕ

variable {w : ℕ}

/-- The module, about to be loaded: static variables are zero. -/
def Sys.start : Sys w where
  phase := .register
  files := 0
  calls := fun _ => none
  active := []
  flag := .set
  timerReady := false
  pending := none
  handler := .idle
  workReady := false
  queued := none
  running := none
  works := 0
  list := []
  refs := fun _ => 0
  dead := []
  exited := []
  freed := []
  readers := []
  grace := fun _ => []

/-- What `deferred_init` establishes. -/
def Sys.loaded : Sys w :=
  { Sys.start with phase := .loaded, flag := .none, timerReady := true, workReady := true }

/-- What a call meets with. -/
structure Env (w : ℕ) where
  /-- The task with the pid looked up. -/
  found : Option ℕ
  /-- `kmalloc` finds memory. -/
  allocated : Bool
  /-- `jiffies`. -/
  now : BitVec w

/-- What can happen next. -/
inductive Act (w : ℕ) where
  /-- `deferred_init` goes on; `err` is what `register_chrdev_region` returns. -/
  | load (err : ℤ) : Act w
  /-- `deferred_exit` begins or goes on. -/
  | unload : Act w
  /-- The device is opened. -/
  | openFile : Act w
  /-- A file is closed. -/
  | closeFile : Act w
  /-- Call `c` of `deferred_ioctl` begins. -/
  | ioctl (c : ℕ) (cmd : Command w) : Act w
  /-- Call `c` goes on. -/
  | call (c : ℕ) (env : Env w) : Act w
  /-- The timer expires. -/
  | fire : Act w
  /-- `timer_handler` goes on; `deaths` are the tasks that die before each inspection of
  a sweep, and `now` is `jiffies`. -/
  | handle (deaths : List (List ℕ)) (now : BitVec w) : Act w
  /-- The work item queued begins to run. -/
  | workBegin : Act w
  /-- The work item running is over. -/
  | workEnd : Act w
  /-- A task becomes `TASK_DEAD`. -/
  | dies (t : ℕ) : Act w
  /-- A task leaves the pid table. -/
  | exits (t : ℕ) : Act w
  /-- The `task_struct` of a task is freed. -/
  | frees (t : ℕ) : Act w

/-! ### The functions of the module -/

/-- `put_task_struct`. -/
def putTask (refs : ℕ → ℤ) (t : ℕ) : ℕ → ℤ := Function.update refs t (refs t - 1)

/-- The loop of `timer_handler`: the entries that stay, the references, and the tasks
dead by the end. Before each inspection some more tasks may die. -/
def sweep : List (List ℕ) → List ℕ → (ℕ → ℤ) → List ℕ → List ℕ × (ℕ → ℤ) × List ℕ
  | _, dead, refs, [] => ([], refs, dead)
  | deaths, dead, refs, t :: list =>
    let dead := deaths.headD [] ++ dead
    if t ∈ dead then sweep deaths.tail dead (putTask refs t) list
    else
      let rest := sweep deaths.tail dead refs list
      (t :: rest.1, rest.2)

/-- The loop of `deferred_exit`: the references it leaves. -/
def putAll (refs : ℕ → ℤ) (list : List ℕ) : ℕ → ℤ := list.foldl putTask refs

namespace Sys

/-- The call is now elsewhere. -/
def setPc (s : Sys w) (c : ℕ) (pc : Pc w) : Sys w :=
  { s with calls := Function.update s.calls c (some pc) }

/-- The call returns. -/
def ret (s : Sys w) (c : ℕ) (ret : ℤ) : Sys w :=
  { s with
    calls := Function.update s.calls c (some (.returned ret))
    active := s.active.filter (· ≠ c) }

/-- `mod_timer`. A timer that has not been set up is left alone. -/
def modTimer (s : Sys w) (expires : BitVec w) (by_ : TimerType) : Sys w :=
  if s.timerReady then { s with pending := some ⟨expires, by_⟩ } else s

/-- `schedule_work`: nothing if the item is queued already. -/
def scheduleWork (s : Sys w) : Sys w :=
  match s.queued with
  | none => { s with queued := some s.works, works := s.works + 1 }
  | some _ => s

/-- `mod_timer` changes nothing but the expiry. -/
theorem modTimer_eq (s : Sys w) (expires : BitVec w) (by_ : TimerType) :
    s.modTimer expires by_ =
      { s with pending := if s.timerReady then some ⟨expires, by_⟩ else s.pending } := by
  rw [modTimer]
  split <;> rfl

/-- `schedule_work` changes nothing but the queue. -/
theorem scheduleWork_eq (s : Sys w) :
    s.scheduleWork =
      { s with
        queued := some (s.queued.getD s.works)
        works := if s.queued = none then s.works + 1 else s.works } := by
  obtain ⟨phase, files, calls, active, flag, timerReady, pending, handler, workReady, queued⟩ := s
  cases queued with
  | none => rfl
  | some n => rfl

/-- The task is in the pid table. -/
def Present (s : Sys w) (t : ℕ) : Prop := t ∉ s.exited ∧ t ∉ s.freed

instance (s : Sys w) (t : ℕ) : Decidable (s.Present t) := inferInstanceAs (Decidable (_ ∧ _))

/-- Nothing keeps the `task_struct`: its task has left the pid table, no reference is held,
and every read-side section that was open then has been closed. -/
def Freeable (s : Sys w) (t : ℕ) : Prop :=
  t ∈ s.exited ∧ t ∉ s.freed ∧ s.refs t = 0 ∧ ∀ c ∈ s.grace t, c ∉ s.readers

instance (s : Sys w) (t : ℕ) : Decidable (s.Freeable t) :=
  inferInstanceAs (Decidable (_ ∧ _ ∧ _ ∧ _))

/-- The work queued before a given item has finished. -/
def Flushed (s : Sys w) (barrier : ℕ) : Prop :=
  (∀ n ∈ s.queued, barrier ≤ n) ∧ ∀ n ∈ s.running, barrier ≤ n

instance (s : Sys w) (barrier : ℕ) : Decidable (s.Flushed barrier) :=
  inferInstanceAs (Decidable (_ ∧ _))

end Sys

/-- The device can be opened: `cdev_add` has run and `deferred_exit` has not begun. -/
def Phase.published : Phase → Bool
  | .deviceCreate => true
  | .timerSetup => true
  | .loaded => true
  | _ => false

/-- One step of `deferred_init`. -/
def stepLoad (s : Sys w) (err : ℤ) : Phase → Sys w
  | .register => { s with phase := if err ≠ 0 then .failed else .initFlag }
  | .initFlag => { s with phase := .initWork, flag := .none }
  | .initWork => { s with phase := .initList, workReady := true }
  | .initList => { s with phase := .cdevAdd }
  | .cdevAdd => { s with phase := .deviceCreate }
  | .deviceCreate => { s with phase := .timerSetup }
  | .timerSetup => { s with phase := .loaded, timerReady := true }
  | _ => s

/-- One step of `deferred_exit`, which begins once no file is open. -/
def stepUnload (s : Sys w) : Phase → Sys w
  | .loaded => if s.files = 0 ∧ s.active = [] then { s with phase := .deviceDestroy } else s
  | .deviceDestroy => { s with phase := .cdevDel }
  | .cdevDel => { s with phase := .unregister }
  | .unregister => { s with phase := .timerDelete }
  -- `timer_delete_sync` waits for the handler
  | .timerDelete => if s.handler = .idle then { s with phase := .flush, pending := none } else s
  | .flush => { s with phase := .flushing s.works }
  | .flushing barrier => if s.Flushed barrier then { s with phase := .drop } else s
  | .drop => { s with phase := .unloaded, list := [], refs := putAll s.refs s.list }
  | _ => s

section Step

variable (hz : BitVec w)

/-- Where a call begins. -/
def enter : Command w → Pc w
  | .timerSet arg => .setFlag .set (arg * hz)
  | .timerCancel => .cancel
  | .timerAlloc arg => .setFlag .alloc (arg * hz)
  | .timerMon _ => .rcuLock
  | .other => .returned (-enotty)

/-- **One step of a call.** -/
def stepCall (s : Sys w) (c : ℕ) (env : Env w) : Pc w → Sys w
  | .rcuLock => { s.setPc c .lookup with readers := c :: s.readers }
  | .lookup => s.setPc c (.rcuUnlock (env.found.filter fun t => s.Present t))
  | .rcuUnlock none => { s.ret c (-esrch) with readers := s.readers.filter (· ≠ c) }
  | .rcuUnlock (some t) => { s.setPc c (.kmalloc t) with readers := s.readers.filter (· ≠ c) }
  | .kmalloc t => if env.allocated then s.setPc c (.getTask t) else s.ret c (-enomem)
  | .getTask t =>
    { s.setPc c (.insert t) with refs := Function.update s.refs t (s.refs t + 1) }
  | .insert t => { s.setPc c (.setFlag .mon hz) with list := t :: s.list }
  | .setFlag ty delay => { s.setPc c (.modTimer ty delay) with flag := ty }
  | .modTimer ty delay => (s.modTimer (env.now + delay) ty).ret c 0
  -- `timer_delete_sync` waits for the handler
  | .cancel => if s.handler = .idle then { s.ret c 0 with pending := none } else s
  | .returned _ => s

/-- The `switch` of `timer_handler`. -/
def switch : TimerType → Handler
  | .alloc => .schedule
  | .mon => .sweep
  | .none => .idle
  | .set => .idle

/-- **One step of `timer_handler`.** -/
def stepHandler (s : Sys w) (deaths : List (List ℕ)) (now : BitVec w) : Handler → Sys w
  | .idle => s
  | .start _ => { s with handler := switch s.flag }
  | .schedule => { s.scheduleWork with handler := .idle }
  | .sweep =>
    let swept := sweep deaths s.dead s.refs s.list
    { s with handler := .rearm, list := swept.1, refs := swept.2.1, dead := swept.2.2 }
  | .rearm => { s.modTimer (now + hz) .mon with handler := .idle }

/-- **One step.** -/
def step (s : Sys w) : Act w → Sys w
  | .load err => stepLoad s err s.phase
  | .unload => stepUnload s s.phase
  | .openFile => if s.phase.published then { s with files := s.files + 1 } else s
  | .closeFile => { s with files := s.files - 1 }
  | .ioctl c cmd =>
    if s.files ≠ 0 ∧ s.calls c = none then
      match cmd with
      | .other => s.setPc c (enter hz cmd)
      | cmd => { s.setPc c (enter hz cmd) with active := c :: s.active }
    else s
  | .call c env =>
    match s.calls c with
    | none => s
    | some pc => stepCall hz s c env pc
  | .fire =>
    match s.pending, s.handler with
    | some e, .idle => { s with pending := none, handler := .start e.by_ }
    | _, _ => s
  | .handle deaths now => stepHandler hz s deaths now s.handler
  | .workBegin =>
    match s.queued, s.running with
    | some n, none => { s with queued := none, running := some n }
    | _, _ => s
  | .workEnd => { s with running := none }
  | .dies t => { s with dead := t :: s.dead }
  | .exits t =>
    if t ∈ s.exited then s
    else { s with exited := t :: s.exited, grace := Function.update s.grace t s.readers }
  | .frees t => if s.Freeable t then { s with freed := t :: s.freed } else s

end Step

/-! ### What a step can do -/

/-- The steps of `deferred_init` and `deferred_exit` that change nothing but where the
module stands. -/
inductive Phase.Next (s : Sys w) : Phase → Phase → Prop
  /-- `register_chrdev_region` fails. -/
  | failed : Next s .register .failed
  /-- `register_chrdev_region` succeeds. -/
  | register : Next s .register .initFlag
  /-- `INIT_LIST_HEAD`; the list is empty as it is. -/
  | initList : Next s .initList .cdevAdd
  /-- The device is published. -/
  | cdevAdd : Next s .cdevAdd .deviceCreate
  /-- `device_create`. -/
  | deviceCreate : Next s .deviceCreate .timerSetup
  /-- `deferred_exit` begins. -/
  | unload (hfiles : s.files = 0) (hactive : s.active = []) : Next s .loaded .deviceDestroy
  /-- `device_destroy`. -/
  | deviceDestroy : Next s .deviceDestroy .cdevDel
  /-- `cdev_del`. -/
  | cdevDel : Next s .cdevDel .unregister
  /-- `unregister_chrdev_region`. -/
  | unregister : Next s .unregister .timerDelete
  /-- `flush_scheduled_work` begins. -/
  | flush : Next s .flush (.flushing s.works)
  /-- `flush_scheduled_work` is over. -/
  | flushed {barrier : ℕ} (h : s.Flushed barrier) : Next s (.flushing barrier) .drop

/-- **The steps, one by one.** -/
inductive Step (hz : BitVec w) (s : Sys w) : Act w → Sys w → Prop
  /-- Nothing happens. -/
  | stutter (a : Act w) : Step hz s a s
  /-- The module goes on to its next step. -/
  | phase {a : Act w} {p : Phase} (h : Phase.Next s s.phase p) : Step hz s a { s with phase := p }
  /-- The store of `TIMER_TYPE_NONE`. -/
  | initFlag {err : ℤ} (hp : s.phase = .initFlag) :
      Step hz s (.load err) { s with phase := .initWork, flag := .none }
  /-- `INIT_WORK`. -/
  | initWork {err : ℤ} (hp : s.phase = .initWork) :
      Step hz s (.load err) { s with phase := .initList, workReady := true }
  /-- `timer_setup`. -/
  | timerSetup {err : ℤ} (hp : s.phase = .timerSetup) :
      Step hz s (.load err) { s with phase := .loaded, timerReady := true }
  /-- `timer_delete_sync`, in `deferred_exit`. -/
  | timerDelete (hp : s.phase = .timerDelete) (hh : s.handler = .idle) :
      Step hz s .unload { s with phase := .flush, pending := none }
  /-- The list is dropped. -/
  | drop (hp : s.phase = .drop) :
      Step hz s .unload { s with phase := .unloaded, list := [], refs := putAll s.refs s.list }
  /-- The device is opened. -/
  | openFile (hp : s.phase.published = true) :
      Step hz s .openFile { s with files := s.files + 1 }
  /-- A file is closed. -/
  | closeFile : Step hz s .closeFile { s with files := s.files - 1 }
  /-- An unknown command. -/
  | other {c : ℕ} (hf : s.files ≠ 0) (hc : s.calls c = none) :
      Step hz s (.ioctl c .other) (s.setPc c (.returned (-enotty)))
  /-- A call begins. -/
  | ioctl {c : ℕ} {cmd : Command w} (hf : s.files ≠ 0) (hc : s.calls c = none)
      (hcmd : cmd ≠ .other) :
      Step hz s (.ioctl c cmd) { s.setPc c (enter hz cmd) with active := c :: s.active }
  /-- `rcu_read_lock`. -/
  | rcuLock {c : ℕ} {env : Env w} (hc : s.calls c = some .rcuLock) :
      Step hz s (.call c env) { s.setPc c .lookup with readers := c :: s.readers }
  /-- The lookup. -/
  | lookup {c : ℕ} {env : Env w} (hc : s.calls c = some .lookup) :
      Step hz s (.call c env) (s.setPc c (.rcuUnlock (env.found.filter fun t => s.Present t)))
  /-- `rcu_read_unlock`, with no task found. -/
  | missed {c : ℕ} {env : Env w} (hc : s.calls c = some (.rcuUnlock none)) :
      Step hz s (.call c env) { s.ret c (-esrch) with readers := s.readers.filter (· ≠ c) }
  /-- `rcu_read_unlock`, with a task found. -/
  | rcuUnlock {c t : ℕ} {env : Env w} (hc : s.calls c = some (.rcuUnlock (some t))) :
      Step hz s (.call c env) { s.setPc c (.kmalloc t) with readers := s.readers.filter (· ≠ c) }
  /-- `kmalloc`. -/
  | kmalloc {c t : ℕ} {env : Env w} (hc : s.calls c = some (.kmalloc t)) :
      Step hz s (.call c env) (s.setPc c (.getTask t))
  /-- `kmalloc` fails. -/
  | nomem {c t : ℕ} {env : Env w} (hc : s.calls c = some (.kmalloc t)) :
      Step hz s (.call c env) (s.ret c (-enomem))
  /-- `get_task_struct`. -/
  | getTask {c t : ℕ} {env : Env w} (hc : s.calls c = some (.getTask t)) :
      Step hz s (.call c env)
        { s.setPc c (.insert t) with refs := Function.update s.refs t (s.refs t + 1) }
  /-- The entry is linked. -/
  | insert {c t : ℕ} {env : Env w} (hc : s.calls c = some (.insert t)) :
      Step hz s (.call c env) { s.setPc c (.setFlag .mon hz) with list := t :: s.list }
  /-- The store of `flag`. -/
  | setFlag {c : ℕ} {env : Env w} {ty : TimerType} {delay : BitVec w}
      (hc : s.calls c = some (.setFlag ty delay)) :
      Step hz s (.call c env) { s.setPc c (.modTimer ty delay) with flag := ty }
  /-- `mod_timer`. -/
  | modTimer {c : ℕ} {env : Env w} {ty : TimerType} {delay : BitVec w}
      (hc : s.calls c = some (.modTimer ty delay)) :
      Step hz s (.call c env) ((s.modTimer (env.now + delay) ty).ret c 0)
  /-- `timer_delete_sync`, in `deferred_ioctl`. -/
  | cancel {c : ℕ} {env : Env w} (hc : s.calls c = some .cancel) (hh : s.handler = .idle) :
      Step hz s (.call c env) { s.ret c 0 with pending := none }
  /-- The timer expires. -/
  | fire {e : Expiry w} (hp : s.pending = some e) (hh : s.handler = .idle) :
      Step hz s .fire { s with pending := none, handler := .start e.by_ }
  /-- The handler looks at `flag`. -/
  | switch {deaths : List (List ℕ)} {now : BitVec w} {ty : TimerType} (hh : s.handler = .start ty) :
      Step hz s (.handle deaths now) { s with handler := Deferred.switch s.flag }
  /-- `schedule_work`. -/
  | schedule {deaths : List (List ℕ)} {now : BitVec w} (hh : s.handler = .schedule) :
      Step hz s (.handle deaths now) { s.scheduleWork with handler := .idle }
  /-- The list is swept. -/
  | sweep {deaths : List (List ℕ)} {now : BitVec w} (hh : s.handler = .sweep) :
      Step hz s (.handle deaths now)
        { s with
          handler := .rearm
          list := (Deferred.sweep deaths s.dead s.refs s.list).1
          refs := (Deferred.sweep deaths s.dead s.refs s.list).2.1
          dead := (Deferred.sweep deaths s.dead s.refs s.list).2.2 }
  /-- The handler sets the timer again. -/
  | rearm {deaths : List (List ℕ)} {now : BitVec w} (hh : s.handler = .rearm) :
      Step hz s (.handle deaths now) { s.modTimer (now + hz) .mon with handler := .idle }
  /-- Work begins. -/
  | workBegin {n : ℕ} (hq : s.queued = some n) (hr : s.running = none) :
      Step hz s .workBegin { s with queued := none, running := some n }
  /-- Work is over. -/
  | workEnd : Step hz s .workEnd { s with running := none }
  /-- A task dies. -/
  | dies {t : ℕ} : Step hz s (.dies t) { s with dead := t :: s.dead }
  /-- A task leaves the pid table. -/
  | exits {t : ℕ} (ht : t ∉ s.exited) :
      Step hz s (.exits t)
        { s with exited := t :: s.exited, grace := Function.update s.grace t s.readers }
  /-- A `task_struct` is freed. -/
  | frees {t : ℕ} (ht : s.Freeable t) : Step hz s (.frees t) { s with freed := t :: s.freed }

theorem stepLoad_cases (hz : BitVec w) (s : Sys w) (err : ℤ) :
    Step hz s (.load err) (stepLoad s err s.phase) := by
  rcases hp : s.phase with _ | _ | _ | _ | _ | _ | _ | _ | _ | _ | _ | _ | _ | _ | _ | _ | _
  case register =>
    simp only [stepLoad]
    split
    · exact .phase (hp ▸ .failed)
    · exact .phase (hp ▸ .register)
  case initFlag => exact .initFlag hp
  case initWork => exact .initWork hp
  case initList => exact .phase (hp ▸ .initList)
  case cdevAdd => exact .phase (hp ▸ .cdevAdd)
  case deviceCreate => exact .phase (hp ▸ .deviceCreate)
  case timerSetup => exact .timerSetup hp
  all_goals exact .stutter _

theorem stepUnload_cases (hz : BitVec w) (s : Sys w) :
    Step hz s .unload (stepUnload s s.phase) := by
  rcases hp : s.phase with _ | _ | _ | _ | _ | _ | _ | _ | _ | _ | _ | _ | _ | _ | _ | _ | _
  case loaded =>
    simp only [stepUnload]
    split
    · obtain ⟨hfiles, hactive⟩ := ‹s.files = 0 ∧ s.active = []›
      exact .phase (hp ▸ .unload hfiles hactive)
    · exact .stutter _
  case deviceDestroy => exact .phase (hp ▸ .deviceDestroy)
  case cdevDel => exact .phase (hp ▸ .cdevDel)
  case unregister => exact .phase (hp ▸ .unregister)
  case timerDelete =>
    simp only [stepUnload]
    split
    · exact .timerDelete hp ‹_›
    · exact .stutter _
  case flush => exact .phase (hp ▸ .flush)
  case flushing =>
    simp only [stepUnload]
    split
    · exact .phase (hp ▸ .flushed ‹_›)
    · exact .stutter _
  case drop => exact .drop hp
  all_goals exact .stutter _

theorem stepCall_cases (hz : BitVec w) {s : Sys w} {c : ℕ} {pc : Pc w} (env : Env w)
    (hc : s.calls c = some pc) : Step hz s (.call c env) (stepCall hz s c env pc) := by
  cases pc with
  | rcuLock => exact .rcuLock hc
  | lookup => exact .lookup hc
  | rcuUnlock task =>
    cases task with
    | none => exact .missed hc
    | some t => exact .rcuUnlock hc
  | kmalloc t =>
    simp only [stepCall]
    split
    · exact .kmalloc hc
    · exact .nomem hc
  | getTask t => exact .getTask hc
  | insert t => exact .insert hc
  | setFlag ty delay => exact .setFlag hc
  | modTimer ty delay => exact .modTimer hc
  | cancel =>
    simp only [stepCall]
    split
    · exact .cancel hc ‹_›
    · exact .stutter _
  | returned ret => exact .stutter _

theorem stepHandler_cases (hz : BitVec w) (s : Sys w) (deaths : List (List ℕ)) (now : BitVec w) :
    Step hz s (.handle deaths now) (stepHandler hz s deaths now s.handler) := by
  cases hh : s.handler with
  | idle => exact .stutter _
  | start ty => exact .switch hh
  | schedule => exact .schedule hh
  | sweep => exact .sweep hh
  | rearm => exact .rearm hh

/-- **A step is one of those.** -/
theorem step_cases (hz : BitVec w) (s : Sys w) (a : Act w) : Step hz s a (step hz s a) := by
  cases a with
  | load err => exact stepLoad_cases hz s err
  | unload => exact stepUnload_cases hz s
  | openFile =>
    simp only [step]
    split
    · exact .openFile ‹_›
    · exact .stutter _
  | closeFile => exact .closeFile
  | ioctl c cmd =>
    simp only [step]
    split
    · obtain ⟨hf, hc⟩ := ‹s.files ≠ 0 ∧ s.calls c = none›
      cases cmd with
      | other => exact .other hf hc
      | timerSet | timerCancel | timerAlloc | timerMon => exact .ioctl hf hc (by simp)
    · exact .stutter _
  | call c env =>
    rcases hc : s.calls c with - | pc
    · simp only [step, hc]
      exact .stutter _
    · simp only [step, hc]
      exact stepCall_cases hz env hc
  | fire =>
    rcases hp : s.pending with - | e
    · simp only [step, hp]
      exact .stutter _
    · cases hh : s.handler with
      | idle =>
        simp only [step, hp, hh]
        exact .fire hp hh
      | start | schedule | sweep | rearm =>
        simp only [step, hp, hh]
        exact .stutter _
  | handle deaths now => exact stepHandler_cases hz s deaths now
  | workBegin =>
    rcases hq : s.queued with - | n
    · simp only [step, hq]
      exact .stutter _
    · rcases hr : s.running with - | m
      · simp only [step, hq, hr]
        exact .workBegin hq hr
      · simp only [step, hq, hr]
        exact .stutter _
  | workEnd => exact .workEnd
  | dies t => exact .dies
  | exits t =>
    simp only [step]
    split
    · exact .stutter _
    · exact .exits ‹_›
  | frees t =>
    simp only [step]
    split
    · exact .frees ‹_›
    · exact .stutter _

/-- **From one point of a call to the next.** -/
inductive Pc.Next (hz : BitVec w) : Pc w → Pc w → Prop
  | rcuLock : Next hz .rcuLock .lookup
  | lookup {task : Option ℕ} : Next hz .lookup (.rcuUnlock task)
  | missed : Next hz (.rcuUnlock none) (.returned (-esrch))
  | rcuUnlock {t : ℕ} : Next hz (.rcuUnlock (some t)) (.kmalloc t)
  | kmalloc {t : ℕ} : Next hz (.kmalloc t) (.getTask t)
  | nomem {t : ℕ} : Next hz (.kmalloc t) (.returned (-enomem))
  | getTask {t : ℕ} : Next hz (.getTask t) (.insert t)
  | insert {t : ℕ} : Next hz (.insert t) (.setFlag .mon hz)
  | setFlag {ty : TimerType} {delay : BitVec w} : Next hz (.setFlag ty delay) (.modTimer ty delay)
  | modTimer {ty : TimerType} {delay : BitVec w} : Next hz (.modTimer ty delay) (.returned 0)
  | cancel : Next hz .cancel (.returned 0)

/-- **A step moves at most one call**, which begins or goes on. -/
theorem Step.calls_cases {hz : BitVec w} {s s' : Sys w} {a : Act w} (hs : Step hz s a s') :
    s'.calls = s.calls ∨
    (∃ c cmd, a = .ioctl c cmd ∧ s.calls c = none ∧
      s'.calls = Function.update s.calls c (some (enter hz cmd))) ∨
    ∃ c env pc pc', a = .call c env ∧ s.calls c = some pc ∧ Pc.Next hz pc pc' ∧
      s'.calls = Function.update s.calls c (some pc') := by
  cases hs with
  | other hf hc => exact .inr (.inl ⟨_, _, rfl, hc, rfl⟩)
  | ioctl hf hc hcmd => exact .inr (.inl ⟨_, _, rfl, hc, rfl⟩)
  | rcuLock hc => exact .inr (.inr ⟨_, _, _, _, rfl, hc, .rcuLock, rfl⟩)
  | lookup hc => exact .inr (.inr ⟨_, _, _, _, rfl, hc, .lookup, rfl⟩)
  | missed hc => exact .inr (.inr ⟨_, _, _, _, rfl, hc, .missed, rfl⟩)
  | rcuUnlock hc => exact .inr (.inr ⟨_, _, _, _, rfl, hc, .rcuUnlock, rfl⟩)
  | kmalloc hc => exact .inr (.inr ⟨_, _, _, _, rfl, hc, .kmalloc, rfl⟩)
  | nomem hc => exact .inr (.inr ⟨_, _, _, _, rfl, hc, .nomem, rfl⟩)
  | getTask hc => exact .inr (.inr ⟨_, _, _, _, rfl, hc, .getTask, rfl⟩)
  | insert hc => exact .inr (.inr ⟨_, _, _, _, rfl, hc, .insert, rfl⟩)
  | setFlag hc => exact .inr (.inr ⟨_, _, _, _, rfl, hc, .setFlag, rfl⟩)
  | modTimer hc =>
    rw [Sys.modTimer_eq]
    exact .inr (.inr ⟨_, _, _, _, rfl, hc, .modTimer, rfl⟩)
  | cancel hc hh => exact .inr (.inr ⟨_, _, _, _, rfl, hc, .cancel, rfl⟩)
  | schedule hh =>
    rw [Sys.scheduleWork_eq]
    exact .inl rfl
  | rearm hh =>
    rw [Sys.modTimer_eq]
    exact .inl rfl
  | stutter | phase | initFlag | initWork | timerSetup | timerDelete | drop | openFile | closeFile
  | fire | switch | sweep | workBegin | workEnd | dies | exits | frees => exact .inl rfl

/-! ### The calls in progress -/

/-- The call has returned. -/
def Pc.over : Pc w → Bool
  | .returned _ => true
  | _ => false

/-- **The calls in progress are those listed**, each once. -/
structure Tracked (active : List ℕ) (calls : ℕ → Option (Pc w)) : Prop where
  nodup : active.Nodup
  mem_iff : ∀ c, c ∈ active ↔ ∃ pc, calls c = some pc ∧ pc.over = false

namespace Tracked

variable {active : List ℕ} {calls : ℕ → Option (Pc w)} {c : ℕ} {pc pc' : Pc w}

theorem mem (h : Tracked active calls) (hc : calls c = some pc) (hpc : pc.over = false) :
    c ∈ active := (h.mem_iff c).mpr ⟨pc, hc, hpc⟩

theorem notMem (h : Tracked active calls) (hc : calls c = none) : c ∉ active := by
  intro hmem
  obtain ⟨pc, hpc, -⟩ := (h.mem_iff c).mp hmem
  exact absurd (hc.symm.trans hpc) (by simp)

/-- A call goes on. -/
theorem move (h : Tracked active calls) (hc : calls c = some pc) (hpc : pc.over = false)
    (hpc' : pc'.over = false) : Tracked active (Function.update calls c (some pc')) where
  nodup := h.nodup
  mem_iff x := by
    rcases eq_or_ne x c with rfl | hne
    · simpa [hpc'] using h.mem hc hpc
    · rw [h.mem_iff, Function.update_of_ne hne]

/-- A call returns. -/
theorem ret (h : Tracked active calls) (r : ℤ) :
    Tracked (active.filter (· ≠ c)) (Function.update calls c (some (.returned r))) where
  nodup := h.nodup.filter _
  mem_iff x := by
    rcases eq_or_ne x c with rfl | hne
    · simp [Pc.over]
    · simp [hne, h.mem_iff]

/-- A call begins. -/
theorem enter (h : Tracked active calls) (hc : calls c = none) (hpc : pc.over = false) :
    Tracked (c :: active) (Function.update calls c (some pc)) where
  nodup := List.nodup_cons.mpr ⟨h.notMem hc, h.nodup⟩
  mem_iff x := by
    rcases eq_or_ne x c with rfl | hne
    · simp [hpc]
    · simp [hne, h.mem_iff]

/-- A call returns at once. -/
theorem other (h : Tracked active calls) (hc : calls c = none) (r : ℤ) :
    Tracked active (Function.update calls c (some (.returned r))) where
  nodup := h.nodup
  mem_iff x := by
    rcases eq_or_ne x c with rfl | hne
    · simpa [Pc.over] using h.notMem hc
    · rw [h.mem_iff, Function.update_of_ne hne]

end Tracked

theorem over_enter (hz : BitVec w) {cmd : Command w} (h : cmd ≠ .other) :
    (enter hz cmd).over = false := by
  cases cmd with
  | other => exact absurd rfl h
  | timerSet | timerCancel | timerAlloc | timerMon => rfl

theorem Step.tracked {hz : BitVec w} {s s' : Sys w} {a : Act w} (hs : Step hz s a s')
    (h : Tracked s.active s.calls) : Tracked s'.active s'.calls := by
  cases hs with
  | other hf hc => exact h.other hc _
  | ioctl hf hc hcmd => exact h.enter hc (over_enter hz hcmd)
  | rcuLock hc | lookup hc | rcuUnlock hc | kmalloc hc | getTask hc | insert hc | setFlag hc =>
    exact h.move hc rfl rfl
  | missed | nomem | cancel => exact h.ret _
  | modTimer hc =>
    rw [Sys.modTimer_eq]
    exact h.ret _
  | schedule hh =>
    rw [Sys.scheduleWork_eq]
    exact h
  | rearm hh =>
    rw [Sys.modTimer_eq]
    exact h
  | stutter | phase | initFlag | initWork | timerSetup | timerDelete | drop | openFile | closeFile
  | fire | switch | sweep | workBegin | workEnd | dies | exits | frees => exact h

/-- The module is being unloaded. -/
def Phase.leaving : Phase → Bool
  | .deviceDestroy => true
  | .cdevDel => true
  | .unregister => true
  | .timerDelete => true
  | .flush => true
  | .flushing _ => true
  | .drop => true
  | .unloaded => true
  | _ => false

theorem Phase.not_leaving_of_published {p : Phase} (h : p.published = true) :
    p.leaving = false := by
  cases p with
  | register | initFlag | initWork | initList | cdevAdd | deviceCreate | timerSetup | loaded
  | failed => rfl
  | deviceDestroy | cdevDel | unregister | timerDelete | flush | flushing | drop | unloaded =>
    exact absurd h Bool.false_ne_true

/-- **While the module is unloaded nobody uses it.** -/
structure Attended (s : Sys w) : Prop where
  tracked : Tracked s.active s.calls
  left : s.phase.leaving = true → s.files = 0 ∧ s.active = []

theorem Attended.not_leaving {s : Sys w} (h : Attended s) {c : ℕ} {pc : Pc w}
    (hc : s.calls c = some pc) (hpc : pc.over = false) : s.phase.leaving = false := by
  by_contra hl
  have hmem := h.tracked.mem hc hpc
  rw [(h.left (by simpa using hl)).2] at hmem
  exact absurd hmem List.not_mem_nil

theorem Step.attended {hz : BitVec w} {s s' : Sys w} {a : Act w} (hs : Step hz s a s')
    (h : Attended s) : Attended s' := by
  refine ⟨hs.tracked h.tracked, ?_⟩
  -- a call in progress is enough for the module not to be leaving
  have hlive : ∀ {c pc}, s.calls c = some pc → pc.over = false → ∀ {P : Prop},
      s.phase.leaving = true → P :=
    fun hc hpc _ hl => absurd hl (by simp [h.not_leaving hc hpc])
  cases hs with
  | phase hp =>
    intro hl
    generalize hq : s.phase = q at hp
    cases hp with
    | unload hfiles hactive => exact ⟨hfiles, hactive⟩
    | failed | register | initList | cdevAdd | deviceCreate =>
      exact absurd hl (by simp [Phase.leaving])
    | deviceDestroy | cdevDel | unregister | flush | flushed => exact h.left (by rw [hq]; rfl)
  | initFlag | initWork | timerSetup => exact fun hl => absurd hl (by simp [Phase.leaving])
  | timerDelete hp | drop hp => exact fun _ => h.left (by rw [hp]; rfl)
  | openFile hp => exact fun hl => absurd hl (by simp [Phase.not_leaving_of_published hp])
  | closeFile =>
    intro hl
    obtain ⟨hf, ha⟩ := h.left hl
    exact ⟨by simp [hf], ha⟩
  | other hf hc | ioctl hf hc => exact fun hl => absurd (h.left hl).1 hf
  | rcuLock hc | lookup hc | missed hc | rcuUnlock hc | kmalloc hc | nomem hc | getTask hc
  | insert hc | setFlag hc | cancel hc => exact hlive hc rfl
  | modTimer hc =>
    rw [Sys.modTimer_eq]
    exact hlive hc rfl
  | schedule =>
    rw [Sys.scheduleWork_eq]
    exact h.left
  | rearm =>
    rw [Sys.modTimer_eq]
    exact h.left
  | stutter | fire | switch | sweep | workBegin | workEnd | dies | exits | frees => exact h.left

theorem attended_start : Attended (Sys.start : Sys w) where
  tracked := ⟨List.nodup_nil, fun c => by simp [Sys.start]⟩
  left hl := absurd hl (by simp [Sys.start, Phase.leaving])

end Deferred

end KernelModules
