import KernelModules.Lib.Run
import Mathlib.Data.BitVec

/-!
# The values of `ioctltest`

`device_drivers/chardev/ioctl.c`: every open file has a value of its own, which `ioctl` sets
and gets and which `read(2)` fills its buffer with, and there is one number that they all
share. A step is an access to the user's memory, a section under the lock of a file or an
access to `ioctl_num`; calls on any number of files take turns in any order.

What the calls are to return is read off the schedule: the requests to set something that
have succeeded, and the opens, are the history of the device
(`KernelModules.CharDevice.Ioctltest.history`), which the module does not keep. A value is an
`unsigned int` where it comes from the user and where it goes back to, and an `unsigned char`
in between: what `IOCTL_VALGET` returns is the value last set only if it is below 256, whereas
the number and the bytes of a read are always right:
`KernelModules.CharDevice.Ioctltest.values_exact`.
-/

namespace KernelModules

namespace CharDevice

namespace Ioctltest

/-! ### Calls -/

/-- `EFAULT`. -/
def efault : ℤ := 14

/-- `ENOTTY`. -/
def enotty : ℤ := 25

/-- `MAX_RW_COUNT`: the kernel cuts the count of a `read(2)` down to it. -/
def maxRwCount : ℕ := 0x7ffff000

/-- `struct test_ioctl_data`; its lock is in the steps. -/
structure Data where
  /-- `val`. -/
  val : BitVec 8
deriving DecidableEq

/-- The data of a file that has just been opened. -/
def Data.start : Data := ⟨0xFF⟩

/-- `IOCTL_VALSET`, under the lock. -/
def Data.set (v : BitVec 32) : Data := ⟨v.setWidth 8⟩

/-- What a process asks for. -/
inductive Request where
  /-- `IOCTL_VALSET`, with the value in the user's memory. -/
  | valset (v : BitVec 32) : Request
  /-- `IOCTL_VALGET`. -/
  | valget : Request
  /-- `IOCTL_VALGET_NUM`. -/
  | valgetNum : Request
  /-- `IOCTL_VALSET_NUM`, with its argument. -/
  | valsetNum (arg : BitVec 64) : Request
  /-- Any other command. -/
  | other : Request
  /-- `read(2)`. -/
  | read (count : ℕ) : Request
deriving DecidableEq

/-- What a call has got for the process. -/
inductive Answer where
  /-- Nothing. -/
  | nothing : Answer
  /-- `IOCTL_VALGET`: `data.val`. -/
  | val (v : BitVec 32) : Answer
  /-- `IOCTL_VALGET_NUM`: the number. -/
  | num (n : BitVec 32) : Answer
  /-- `read(2)`: the bytes. -/
  | bytes (out : List (BitVec 8)) : Answer
deriving DecidableEq

/-- Where a call stands. -/
inductive Pc where
  /-- `IOCTL_VALSET`, before `copy_from_user`. -/
  | copyFromUser (v : BitVec 32) : Pc
  /-- `IOCTL_VALSET`, before `write_lock`. -/
  | writeLock (v : BitVec 32) : Pc
  /-- `IOCTL_VALGET`, before `read_lock`. -/
  | readLock : Pc
  /-- `IOCTL_VALGET`, before `copy_to_user`. -/
  | copyToUser (val : BitVec 8) : Pc
  /-- `IOCTL_VALGET_NUM`, before it reads `ioctl_num`. -/
  | getNum : Pc
  /-- `IOCTL_VALGET_NUM`, before `__put_user`. -/
  | putUser (n : BitVec 32) : Pc
  /-- `IOCTL_VALSET_NUM`, before it sets `ioctl_num`. -/
  | setNum (arg : BitVec 64) : Pc
  /-- `test_ioctl_read`, before `read_lock`. -/
  | fileLock (count : ℕ) : Pc
  /-- In its loop; `out` has been copied. -/
  | fill (val : BitVec 8) (count : ℕ) (out : List (BitVec 8)) : Pc
  /-- Over. -/
  | returned (ret : ℤ) (answer : Answer) : Pc
deriving DecidableEq

/-- A call. -/
structure Call where
  /-- Its file. -/
  file : ℕ
  /-- The request. -/
  req : Request
  /-- Where it stands. -/
  pc : Pc
deriving DecidableEq

/-- The call is in progress. -/
def Pc.active : Pc → Bool
  | .returned _ _ => false
  | _ => true

/-- Where a request leads to: the `switch`, and `vfs_read`. -/
def enter : Request → Pc
  | .valset v => .copyFromUser v
  | .valget => .readLock
  | .valgetNum => .getNum
  | .valsetNum arg => .setNum arg
  | .other => .returned (-enotty) .nothing
  | .read count => .fileLock (min count maxRwCount)

/-! ### States and steps -/

/-- The files and their callers. -/
structure Sys where
  /-- The data of each open file: its `private_data`. -/
  files : ℕ → Option Data
  /-- `ioctl_num`. -/
  ioctlNum : BitVec 32
  /-- The calls, in the order in which they have begun. -/
  calls : List Call

/-- The module, just loaded. -/
def Sys.start : Sys := ⟨fun _ => none, 0, []⟩

/-- What a step of a call leads to: the data of its file, the number and where it stands. -/
structure Effect where
  /-- The data of its file. -/
  data : Data
  /-- `ioctl_num`. -/
  ioctlNum : BitVec 32
  /-- Where the call stands. -/
  pc : Pc

/-- **One step of a call**; `fault` says that the user's memory cannot be accessed. -/
def body (d : Data) (n : BitVec 32) (fault : Bool) : Pc → Effect
  | .copyFromUser v => ⟨d, n, if fault then .returned (-efault) .nothing else .writeLock v⟩
  | .writeLock v => ⟨.set v, n, .returned 0 .nothing⟩
  | .readLock => ⟨d, n, .copyToUser d.val⟩
  | .copyToUser val =>
    ⟨d, n,
      if fault then .returned (-efault) .nothing else .returned 0 (.val (val.setWidth 32))⟩
  | .getNum => ⟨d, n, .putUser n⟩
  | .putUser n' => ⟨d, n, if fault then .returned (-efault) .nothing else .returned 0 (.num n')⟩
  | .setNum arg => ⟨d, arg.setWidth 32, .returned 0 .nothing⟩
  | .fileLock count => ⟨d, n, .fill d.val count []⟩
  | .fill val count out =>
    ⟨d, n,
      if out.length < count then
        if fault then .returned (-efault) (.bytes out) else .fill val count (out ++ [val])
      else .returned (BitVec.ofNat 32 count).toInt (.bytes out)⟩
  | .returned ret answer => ⟨d, n, .returned ret answer⟩

/-- What can happen next. -/
inductive Act where
  /-- `test_ioctl_open`; `kmalloc` may fail. -/
  | openFile (f : ℕ) (kmalloc : Bool) : Act
  /-- `test_ioctl_close`. -/
  | closeFile (f : ℕ) : Act
  /-- A call begins. -/
  | call (f : ℕ) (req : Request) : Act
  /-- Call `c` goes on. -/
  | go (c : ℕ) (fault : Bool) : Act
deriving DecidableEq

/-- It is a step of call `c`. -/
def Act.goes (c : ℕ) : Act → Bool
  | .go c' _ => c' = c
  | _ => false

/-- A call is in progress on the file. -/
def Sys.busy (s : Sys) (f : ℕ) : Bool := s.calls.any fun call => call.file = f && call.pc.active

/-- Call `c` goes on. -/
def Sys.go (s : Sys) (c : ℕ) (fault : Bool) : Sys :=
  match s.calls[c]? with
  | none => s
  | some call =>
    match s.files call.file with
    | none => s
    | some d =>
      { files := Function.update s.files call.file
          (some (body d s.ioctlNum fault call.pc).data)
        ioctlNum := (body d s.ioctlNum fault call.pc).ioctlNum
        calls := s.calls.set c { call with pc := (body d s.ioctlNum fault call.pc).pc } }

/-- **One step.** A file is closed when no call on it is in progress, as the kernel sees to. -/
def step (s : Sys) : Act → Sys
  | .openFile f kmalloc =>
    match s.files f with
    | none => if kmalloc then { s with files := Function.update s.files f (some .start) } else s
    | some _ => s
  | .closeFile f =>
    if s.busy f then s else { s with files := Function.update s.files f none }
  | .call f req =>
    match s.files f with
    | none => s
    | some _ => { s with calls := s.calls ++ [⟨f, req, enter req⟩] }
  | .go c fault => s.go c fault

/-! ### The history of the device -/

/-- What has come about that a later call can tell. -/
inductive Event where
  /-- The file has been opened. -/
  | opened (f : ℕ) : Event
  /-- `IOCTL_VALSET` has succeeded on the file. -/
  | valset (f : ℕ) (v : BitVec 32) : Event
  /-- `IOCTL_VALSET_NUM` has succeeded. -/
  | valsetNum (arg : BitVec 64) : Event

/-- The call has returned 0. -/
def Pc.succeeded : Pc → Bool
  | .returned ret _ => ret == 0
  | _ => false

/-- What a call that succeeds has set, by what it was asked for. -/
def Call.event (call : Call) : Option Event :=
  match call.req with
  | .valset v => some (.valset call.file v)
  | .valsetNum arg => some (.valsetNum arg)
  | _ => none

/-- The files that are opened, and the requests to set something, each where it succeeds. -/
def event (s : Sys) : Act → Option Event
  | .openFile f kmalloc => if (s.files f).isNone && kmalloc then some (.opened f) else none
  | .go c fault =>
    match s.calls[c]?, (s.go c fault).calls[c]? with
    | some before, some call =>
      if before.pc.active && call.pc.succeeded then call.event else none
    | _, _ => none
  | .closeFile _ | .call _ _ => none

/-- The value of each file since it was opened, and the number. -/
structure History where
  /-- The value of each file. -/
  values : ℕ → BitVec 32
  /-- The number, an `int`. -/
  num : BitVec 32

/-- Nothing has been set. -/
def History.start : History := ⟨fun _ => 0xFF, 0⟩

/-- What is set stays set, until the file is opened anew. -/
def History.note (h : History) : Event → History
  | .opened f => { h with values := Function.update h.values f 0xFF }
  | .valset f v => { h with values := Function.update h.values f v }
  | .valsetNum arg => { h with num := arg.setWidth 32 }

/-- **The history of a run**: what was last set, on each file since it was opened. -/
def history (acts : List Act) : History :=
  run History.note .start (trace step event Sys.start acts)

/-- Call `c`, of a request on a file, takes its first step after `pre`: it takes the lock of the
file, or gets at the number. -/
def Looks (acts pre : List Act) (c f : ℕ) (req : Request) : Prop :=
  (∃ fault post, acts = pre ++ .go c fault :: post) ∧
    (run step Sys.start pre).calls[c]? = some ⟨f, req, enter req⟩

/-- What the process is to have for its request. -/
def Request.Expects (h : History) (f : ℕ) (ret : ℤ) (answer : Answer) : Request → Prop
  | .valset _ | .valsetNum _ => ret = 0
  | .valget => ret = 0 ∧ answer = .val (h.values f)
  | .valgetNum => ret = 0 ∧ answer = .num h.num
  | .other => ret = -enotty
  | .read count =>
    ret = min count maxRwCount ∧
      answer = .bytes (List.replicate (min count maxRwCount) ((h.values f).setWidth 8))

/-- **What was set last is returned**: a call that is over without a fault has for the process
what the history was when it looked – the value of its file, all of it; the number; or, for a
read, the low byte of the value as often as the process has asked for. -/
def Truthful (acts : List Act) : Prop :=
  ∀ c f req ret answer,
    (run step Sys.start acts).calls[c]? = some ⟨f, req, .returned ret answer⟩ → ret ≠ -efault →
      ∀ pre, Looks acts pre c f req → req.Expects (history pre) f ret answer

/-! ### The value of a file -/

/-- A step leaves the data of its file alone, or it sets the value. -/
theorem data_body (d : Data) (n : BitVec 32) (fault : Bool) (pc : Pc) :
    (body d n fault pc).data = d ∨
      ∃ v, pc = .writeLock v ∧ (body d n fault pc).data = .set v := by
  cases pc with
  | writeLock v => exact .inr ⟨v, rfl, rfl⟩
  | copyFromUser | readLock | copyToUser | getNum | putUser | setNum | fileLock | fill | returned =>
    exact .inl rfl

/-- What is over stays so. -/
theorem active_body {d : Data} {n : BitVec 32} {fault : Bool} {pc : Pc}
    (h : (body d n fault pc).pc.active = true) : pc.active = true := by
  cases pc with
  | returned => exact h
  | copyFromUser | writeLock | readLock | copyToUser | getNum | putUser | setNum | fileLock
  | fill => rfl

section

variable {s : Sys} {c : ℕ} {call : Call} {d : Data}

/-- Call `c` goes on, on its file. -/
theorem go_of_open (hc : s.calls[c]? = some call) (hd : s.files call.file = some d) (fault : Bool) :
    s.go c fault =
      { files := Function.update s.files call.file
          (some (body d s.ioctlNum fault call.pc).data)
        ioctlNum := (body d s.ioctlNum fault call.pc).ioctlNum
        calls := s.calls.set c { call with pc := (body d s.ioctlNum fault call.pc).pc } } := by
  simp only [Sys.go, hc, hd]

/-- A call goes on, if its file is open. -/
theorem go_cases (s : Sys) (c : ℕ) (fault : Bool) :
    (s.go c fault = s ∧ ∀ call, s.calls[c]? = some call → s.files call.file = none) ∨
      ∃ call d, s.calls[c]? = some call ∧ s.files call.file = some d := by
  rcases hc : s.calls[c]? with - | call
  · exact .inl ⟨by simp only [Sys.go, hc], fun call h => absurd h (by simp)⟩
  · rcases hd : s.files call.file with - | d
    · refine .inl ⟨by simp only [Sys.go, hc, hd], fun call' h => ?_⟩
      obtain rfl := Option.some.inj h
      exact hd
    · exact .inr ⟨call, d, rfl, hd⟩

/-- **What a step does to the calls**: nothing, or one begins, or one goes on. -/
theorem step_cases (s : Sys) (a : Act) :
    ((∀ c, a.goes c = false) ∧ (step s a).calls = s.calls ∧
        (step s a).ioctlNum = s.ioctlNum) ∨
      (∃ f req, a = .call f req ∧ s.files f ≠ none ∧
        step s a = { s with calls := s.calls ++ [⟨f, req, enter req⟩] }) ∨
      ∃ c fault, a = .go c fault := by
  cases a with
  | openFile f kmalloc =>
    refine .inl ⟨fun _ => rfl, ?_⟩
    rw [step]
    split
    · split <;> exact ⟨rfl, rfl⟩
    · exact ⟨rfl, rfl⟩
  | closeFile f =>
    refine .inl ⟨fun _ => rfl, ?_⟩
    rw [step]
    split <;> exact ⟨rfl, rfl⟩
  | call f req =>
    rcases hf : s.files f with - | d
    · have hstep : step s (.call f req) = s := by simp only [step, hf]
      rw [hstep]
      exact .inl ⟨fun _ => rfl, rfl, rfl⟩
    · exact .inr (.inl ⟨f, req, rfl, by simp [hf], by simp only [step, hf]⟩)
  | go c fault => exact .inr (.inr ⟨c, fault, rfl⟩)

/-- **What can happen to the data of a file**: it is opened, it is closed, or a call on it sets
its value. -/
theorem files_step (s : Sys) (a : Act) (f : ℕ) :
    (step s a).files f = s.files f ∨
      s.files f = none ∧ (step s a).files f = some .start ∨
      s.busy f = false ∧ (step s a).files f = none ∨
      ∃ call ∈ s.calls, ∃ v, call.file = f ∧ call.pc = .writeLock v ∧
        (step s a).files f = some (.set v) := by
  cases a with
  | openFile f' kmalloc =>
    rw [step]
    split
    · split
      · rcases eq_or_ne f f' with rfl | hne
        · exact .inr (.inl ⟨‹_›, Function.update_self ..⟩)
        · exact .inl (Function.update_of_ne hne ..)
      · exact .inl rfl
    · exact .inl rfl
  | closeFile f' =>
    rw [step]
    split
    · exact .inl rfl
    · rcases eq_or_ne f f' with rfl | hne
      · exact .inr (.inr (.inl ⟨by simpa using ‹¬s.busy f = true›, Function.update_self ..⟩))
      · exact .inl (Function.update_of_ne hne ..)
  | call f' req =>
    rw [step]
    split <;> exact .inl rfl
  | go c fault =>
    rw [step]
    rcases go_cases s c fault with ⟨hgo, -⟩ | ⟨call, d, hc, hd⟩
    · exact .inl (by rw [hgo])
    · rw [go_of_open hc hd]
      rcases eq_or_ne f call.file with rfl | hne
      · simp only [Function.update_self]
        rcases data_body d s.ioctlNum fault call.pc with hdata | ⟨v, hpc, hdata⟩
        · exact .inl (by rw [hdata, hd])
        · exact .inr (.inr (.inr ⟨call, List.mem_of_getElem? hc, v, rfl, hpc, by rw [hdata]⟩))
      · exact .inl (Function.update_of_ne hne ..)

end

/-! ### What a call keeps to -/

/-- **What a call keeps to**, by where it stands. -/
def Noted (req : Request) : Pc → Prop
  | .copyFromUser v | .writeLock v => req = .valset v
  | .readLock | .copyToUser _ => req = .valget
  | .getNum | .putUser _ => req = .valgetNum
  | .setNum arg => req = .valsetNum arg
  | .fileLock count | .fill _ count _ => ∃ asked, req = .read asked ∧ count = min asked maxRwCount
  | .returned _ _ => True

theorem noted_enter (req : Request) : Noted req (enter req) := by
  cases req with
  | valset | valget | valgetNum | valsetNum => rfl
  | other => trivial
  | read count => exact ⟨count, rfl, rfl⟩

/-- **A step keeps to it.** -/
theorem noted_body {req : Request} {pc : Pc} (h : Noted req pc) (d : Data) (n : BitVec 32)
    (fault : Bool) : Noted req (body d n fault pc).pc := by
  cases pc with
  | copyFromUser | copyToUser | putUser => cases fault <;> first | exact h | trivial
  | readLock | getNum | fileLock => exact h
  | writeLock | setNum | returned => trivial
  | fill val count out =>
    simp only [body]
    split
    · cases fault <;> first | exact h | trivial
    · trivial

/-! ### Whole runs -/

/-- **What holds on every run.** -/
structure Kept (s : Sys) : Prop where
  noted : ∀ call ∈ s.calls, Noted call.req call.pc
  -- a call in progress finds its `private_data`
  opened : ∀ call ∈ s.calls, call.pc.active = true → s.files call.file ≠ none

theorem kept_start : Kept Sys.start :=
  ⟨fun _ h => absurd h List.not_mem_nil, fun _ h => absurd h List.not_mem_nil⟩

/-- What is so of every call, and of the one that goes on where it goes, is so of every call. -/
theorem forall_set {P : Call → Prop} {calls : List Call} (h : ∀ call ∈ calls, P call) {c : ℕ}
    {call' : Call} (hc : P call') : ∀ call ∈ calls.set c call', P call := by
  intro call hcall
  rcases List.mem_or_eq_of_mem_set hcall with hold | rfl
  · exact h call hold
  · exact hc

section

variable {s : Sys}

/-- The file of a call in progress stays open. -/
theorem Kept.open_step (h : Kept s) (a : Act) {call : Call} (hcall : call ∈ s.calls)
    (hactive : call.pc.active = true) : (step s a).files call.file ≠ none := by
  have hopen := h.opened call hcall hactive
  rcases files_step s a call.file with heq | ⟨hnone, -⟩ | ⟨hidle, -⟩ | ⟨_, -, v, -, -, heq⟩
  · rwa [heq]
  · exact absurd hnone hopen
  · have hbusy : s.busy call.file = true :=
      List.any_eq_true.mpr ⟨call, hcall, by simp [hactive]⟩
    exact absurd (hbusy.symm.trans hidle) (by simp)
  · rw [heq]
    exact Option.some_ne_none _

theorem Kept.go (h : Kept s) (c : ℕ) (fault : Bool) : Kept (s.go c fault) := by
  have hopen : ∀ call ∈ s.calls, call.pc.active = true → (s.go c fault).files call.file ≠ none :=
    fun call hcall => h.open_step (.go c fault) hcall
  rcases go_cases s c fault with ⟨hgo, -⟩ | ⟨call, d, hc, hd⟩
  · rwa [hgo]
  · have hcall := List.mem_of_getElem? hc
    rw [go_of_open hc hd] at hopen ⊢
    refine ⟨forall_set h.noted ?_, forall_set hopen ?_⟩
    · exact noted_body (h.noted call hcall) d s.ioctlNum fault
    · exact fun hactive => hopen call hcall (active_body hactive)

/-- **Every step keeps to it.** -/
theorem Kept.step (h : Kept s) (a : Act) : Kept (Ioctltest.step s a) := by
  have hopen : ∀ call ∈ s.calls, call.pc.active = true →
      (Ioctltest.step s a).files call.file ≠ none := fun call hcall => h.open_step a hcall
  rcases step_cases s a with ⟨-, hcalls, -⟩ | ⟨f, req, rfl, hf, hstep⟩ | ⟨c, fault, rfl⟩
  · refine ⟨fun call hcall => ?_, fun call hcall => ?_⟩
    · exact h.noted call (hcalls ▸ hcall)
    · exact hopen call (hcalls ▸ hcall)
  · rw [hstep]
    refine ⟨List.forall_mem_append.mpr ⟨h.noted, ?_⟩, List.forall_mem_append.mpr ⟨h.opened, ?_⟩⟩
    · exact List.forall_mem_singleton.mpr (noted_enter req)
    · exact List.forall_mem_singleton.mpr fun _ => hf
  · exact h.go c fault

end

theorem kept_run (acts : List Act) : Kept (run step Sys.start acts) :=
  run_invariant step (fun _ a h => h.step a) acts kept_start

/-! ### The state and the history -/

/-- **The state is what is left of the history**: the low bytes of the values, and the
number. -/
structure Matches (s : Sys) (h : History) : Prop where
  values : ∀ f d, s.files f = some d → d.val = (h.values f).setWidth 8
  num : s.ioctlNum = h.num

section

variable {s : Sys} {h : History}

/-- What a step of a call on its file is noted as. -/
def Call.observed (call : Call) (pc' : Pc) : Option Event :=
  if call.pc.active && pc'.succeeded then call.event else none

theorem event_go {c : ℕ} {call : Call} {d : Data} (hc : s.calls[c]? = some call)
    (hd : s.files call.file = some d) (fault : Bool) :
    event s (.go c fault) = call.observed (body d s.ioctlNum fault call.pc).pc := by
  obtain ⟨hlt, -⟩ := List.getElem?_eq_some_iff.mp hc
  simp only [event, hc, go_of_open hc hd, List.getElem?_set_self hlt]
  rfl

/-- A step that sets nothing is not noted. -/
theorem observed_eq_none {call : Call} {pc' : Pc}
    (hcall : call.event = none ∨ pc'.succeeded = false ∨ call.pc.active = false) :
    call.observed pc' = none := by
  rw [Call.observed]
  rcases hcall with hevent | hpc | hpc <;> simp [*]

/-- **A step of a call changes the data of its file and the number as it is noted.** -/
theorem matches_body {call : Call} {d : Data} (hnoted : Noted call.req call.pc)
    (hd : d.val = (h.values call.file).setWidth 8) (fault : Bool) :
    let e := body d h.num fault call.pc
    let h' := run History.note h (call.observed e.pc).toList
    e.data.val = (h'.values call.file).setWidth 8 ∧ e.ioctlNum = h'.num ∧
      ∀ f, f ≠ call.file → h'.values f = h.values f := by
  obtain ⟨f, req, pc⟩ := call
  have hquiet : ∀ {e : Effect}, (⟨f, req, pc⟩ : Call).observed e.pc = none → e.data = d →
      e.ioctlNum = h.num →
      let h' := run History.note h ((⟨f, req, pc⟩ : Call).observed e.pc).toList
      e.data.val = (h'.values f).setWidth 8 ∧ e.ioctlNum = h'.num ∧
        ∀ f', f' ≠ f → h'.values f' = h.values f' := by
    intro e hnone hdata hnum h'
    have hsame : h' = h := by simp only [h', hnone, Option.toList_none, run_nil]
    rw [hsame, hdata, hnum]
    exact ⟨hd, rfl, fun _ _ => rfl⟩
  cases pc with
  | writeLock v =>
    obtain rfl : req = .valset v := hnoted
    refine ⟨?_, rfl, fun f' hne => Function.update_of_ne hne ..⟩
    exact congrArg (BitVec.setWidth 8) (Function.update_self f v h.values).symm
  | setNum arg =>
    obtain rfl : req = .valsetNum arg := hnoted
    exact ⟨hd, rfl, fun _ _ => rfl⟩
  | copyFromUser v => exact hquiet (observed_eq_none (.inr (.inl (by cases fault <;> rfl)))) rfl rfl
  | readLock | getNum | fileLock => exact hquiet (observed_eq_none (.inr (.inl rfl))) rfl rfl
  | copyToUser | putUser =>
    obtain rfl := hnoted
    exact hquiet (observed_eq_none (.inl rfl)) rfl rfl
  | fill val count out =>
    obtain ⟨asked, rfl, -⟩ := hnoted
    exact hquiet (observed_eq_none (.inl rfl)) rfl rfl
  | returned => exact hquiet (observed_eq_none (.inr (.inr rfl))) rfl rfl

/-- A call that does not go on sets nothing. -/
theorem event_of_same {c : ℕ} {fault : Bool} (hgo : s.go c fault = s) :
    event s (.go c fault) = none := by
  simp only [event, hgo]
  rcases hc : s.calls[c]? with - | ⟨f, req, pc⟩
  · rfl
  · cases pc with
    | returned => simp [Pc.active]
    | _ => simp [Pc.succeeded]

/-- **Every step is noted as it is.** -/
theorem Matches.step (hm : Matches s h) (hkept : Kept s) (a : Act) :
    Matches (Ioctltest.step s a) (run History.note h (event s a).toList) := by
  cases a with
  | openFile f kmalloc =>
    rcases hf : s.files f with - | d
    · cases kmalloc with
      | false => simpa [Ioctltest.step, event, hf] using hm
      | true =>
        simp only [Ioctltest.step, event, hf, Option.isNone_none, Bool.and_self, if_true,
          Option.toList_some, run_cons, run_nil]
        refine ⟨fun f' d hd => ?_, hm.num⟩
        replace hd : Function.update s.files f (some .start) f' = some d := hd
        rcases eq_or_ne f' f with rfl | hne
        · rw [Function.update_self] at hd
          obtain rfl := Option.some.inj hd
          simp only [History.note, Function.update_self]
          rfl
        · rw [Function.update_of_ne hne] at hd
          refine (hm.values f' d hd).trans ?_
          exact congrArg (BitVec.setWidth 8) (Function.update_of_ne hne _ h.values).symm
    · simpa [Ioctltest.step, event, hf] using hm
  | closeFile f =>
    simp only [Ioctltest.step, event, Option.toList_none, run_nil]
    split
    · exact hm
    · refine ⟨fun f' d hd => ?_, hm.num⟩
      rcases eq_or_ne f' f with rfl | hne
      · exact absurd hd (by simp)
      · exact hm.values f' d (by simpa [hne] using hd)
  | call f req =>
    simp only [Ioctltest.step, event, Option.toList_none, run_nil]
    split
    · exact hm
    · exact ⟨hm.values, hm.num⟩
  | go c fault =>
    rw [Ioctltest.step]
    rcases go_cases s c fault with ⟨hgo, -⟩ | ⟨call, d, hc, hd⟩
    · rw [event_of_same hgo, hgo]
      exact hm
    · obtain ⟨hval, hnum, hothers⟩ := matches_body (h := h)
        (hkept.noted call (List.mem_of_getElem? hc)) (hm.values call.file d hd) fault
      rw [event_go hc hd, go_of_open hc hd, hm.num]
      refine ⟨fun f d' hd' => ?_, hnum⟩
      replace hd' : Function.update s.files call.file
        (some (body d h.num fault call.pc).data) f = some d' := hd'
      rcases eq_or_ne f call.file with rfl | hne
      · rw [Function.update_self] at hd'
        obtain rfl := Option.some.inj hd'
        exact hval
      · rw [Function.update_of_ne hne] at hd'
        rw [hothers f hne]
        exact hm.values f d' hd'

end

/-- **On every run the state is what is left of the history.** -/
theorem matches_run (acts : List Act) : Matches (run step Sys.start acts) (history acts) := by
  have hstart : Kept Sys.start ∧ Matches Sys.start History.start :=
    ⟨kept_start, fun _ _ h => absurd h (by simp [Sys.start]), rfl⟩
  exact (run_observed step (R := fun s h => Kept s ∧ Matches s h) acts
    (fun a _ _ _ h => ⟨h.1.step a, h.2.step h.1 a⟩) hstart).2

/-! ### What a call comes back with -/

/-- What a call that is over without a fault has for the process. -/
def Request.Gets (h : History) (f : ℕ) (ret : ℤ) (answer : Answer) : Request → Prop
  | .valget => ret = 0 ∧ answer = .val (((h.values f).setWidth 8).setWidth 32)
  | req => req.Expects h f ret answer

/-- **What a call that has looked carries**, by where it stands. -/
def Carries (h : History) (f : ℕ) (req : Request) : Pc → Prop
  | .writeLock v => req = .valset v
  | .copyToUser val => req = .valget ∧ val = (h.values f).setWidth 8
  | .putUser n => req = .valgetNum ∧ n = h.num
  | .fill val count out =>
    (∃ asked, req = .read asked ∧ count = min asked maxRwCount) ∧ val = (h.values f).setWidth 8 ∧
      ∃ i ≤ count, out = List.replicate i val
  | .returned ret answer => ret = -efault ∨ req.Gets h f ret answer
  | _ => False

/-- A count fits an `int`. -/
theorem toInt_count {count : ℕ} (h : count ≤ maxRwCount) :
    (BitVec.ofNat 32 count).toInt = count := by
  have hmax : maxRwCount < 2 ^ 31 := by decide
  rw [BitVec.toInt_ofNat', Int.bmod_eq_of_le] <;> omega

section

variable {h : History} {f : ℕ} {req : Request} {d : Data} (fault : Bool)

/-- A call that looks finds what the history is. -/
theorem carries_enter (hd : d.val = (h.values f).setWidth 8) :
    Carries h f req (body d h.num fault (enter req)).pc := by
  cases req with
  | valset v =>
    cases fault with
    | false => rfl
    | true => exact .inl rfl
  | valget => exact ⟨rfl, hd⟩
  | valgetNum => exact ⟨rfl, rfl⟩
  | valsetNum arg => exact .inr rfl
  | other => exact .inr rfl
  | read count => exact ⟨⟨count, rfl, rfl⟩, hd, 0, Nat.zero_le _, rfl⟩

/-- **A step carries it on.** -/
theorem carries_body {pc : Pc} (hpc : Carries h f req pc) (d : Data) (n : BitVec 32) :
    Carries h f req (body d n fault pc).pc := by
  cases pc with
  | writeLock v =>
    obtain rfl : req = .valset v := hpc
    exact .inr rfl
  | copyToUser val =>
    obtain ⟨rfl, rfl⟩ := hpc
    cases fault with
    | false => exact .inr ⟨rfl, rfl⟩
    | true => exact .inl rfl
  | putUser n' =>
    obtain ⟨rfl, rfl⟩ := hpc
    cases fault with
    | false => exact .inr ⟨rfl, rfl⟩
    | true => exact .inl rfl
  | fill val count out =>
    obtain ⟨⟨asked, rfl, rfl⟩, rfl, i, hi, rfl⟩ := hpc
    simp only [body, List.length_replicate]
    split
    · cases fault with
      | false =>
        exact ⟨⟨asked, rfl, rfl⟩, rfl, i + 1, ‹i < _›, List.replicate_succ'.symm⟩
      | true => exact .inl rfl
    · obtain rfl : i = min asked maxRwCount := by omega
      exact .inr ⟨toInt_count (min_le_right _ _), rfl⟩
  | returned => exact hpc
  | copyFromUser | readLock | getNum | setNum | fileLock => exact hpc.elim

end

/-! ### A call comes to an end -/

/-- How many steps a call has to go at most. -/
def Pc.steps : Pc → ℕ
  | .copyFromUser _ | .readLock | .getNum => 2
  | .writeLock _ | .copyToUser _ | .putUser _ | .setNum _ => 1
  | .fileLock count => count + 2
  | .fill _ count out => count - out.length + 1
  | .returned _ _ => 0

/-- A call with no step to go is over. -/
theorem active_eq_false_iff {pc : Pc} : pc.active = false ↔ pc.steps = 0 := by
  cases pc with
  | returned => exact ⟨fun _ => rfl, fun _ => rfl⟩
  | copyFromUser | writeLock | readLock | copyToUser | getNum | putUser | setNum | fileLock
  | fill => exact ⟨fun h => absurd h (by simp [Pc.active]), fun h => absurd h (Nat.succ_ne_zero _)⟩

/-- A step is one less to go. -/
theorem steps_body (d : Data) (n : BitVec 32) (fault : Bool) (pc : Pc) :
    (body d n fault pc).pc.steps ≤ pc.steps - 1 := by
  cases pc with
  | copyFromUser | copyToUser | putUser => cases fault <;> simp [body, Pc.steps]
  | fill val count out =>
    simp only [body]
    split
    · cases fault with
      | true => exact Nat.zero_le _
      | false =>
        simp only [Pc.steps, Bool.false_eq_true, if_false, List.length_append,
          List.length_singleton]
        omega
    · exact Nat.zero_le _
  | writeLock | readLock | getNum | setNum | fileLock | returned => exact le_rfl

/-- How many steps call `c` has to go at most. -/
def Sys.stepsOf (c : ℕ) (s : Sys) : ℕ := (s.calls[c]?.map fun call => call.pc.steps).getD 0

/-- Call `c` is the one of a request on a file. -/
def Asked (c f : ℕ) (req : Request) (s : Sys) : Prop :=
  Kept s ∧ ∃ pc, s.calls[c]? = some ⟨f, req, pc⟩

section

variable {s : Sys} {c f : ℕ} {req : Request} {pc : Pc}

theorem stepsOf_of_asked (hc : s.calls[c]? = some ⟨f, req, pc⟩) : s.stepsOf c = pc.steps := by
  rw [Sys.stepsOf, hc]
  rfl

/-- **What a step does to a call**: it is its own, or it leaves it where it is. -/
theorem calls_step (h : Kept s) (hc : s.calls[c]? = some ⟨f, req, pc⟩) (a : Act) :
    (step s a).calls[c]? = some ⟨f, req, pc⟩ ∧ (a.goes c = false ∨ pc.active = false) ∨
      ∃ fault d, a = .go c fault ∧ s.files f = some d ∧
        (step s a).calls[c]? = some ⟨f, req, (body d s.ioctlNum fault pc).pc⟩ := by
  obtain ⟨hlt, -⟩ := List.getElem?_eq_some_iff.mp hc
  rcases step_cases s a with ⟨hgoes, hcalls, -⟩ | ⟨f', req', rfl, -, hstep⟩ | ⟨c', fault, rfl⟩
  · rw [hcalls]
    exact .inl ⟨hc, .inl (hgoes c)⟩
  · rw [hstep]
    exact .inl ⟨(List.getElem?_append_left hlt).trans hc, .inl rfl⟩
  · rw [step]
    rcases eq_or_ne c' c with rfl | hne
    · rcases go_cases s c' fault with ⟨hgo, hclosed⟩ | ⟨call, d, hc', hd⟩
      · -- the file is not open: the call is over
        have hover : pc.active = false := Bool.eq_false_iff.mpr fun hactive =>
          h.opened _ (List.mem_of_getElem? hc) hactive (hclosed _ hc)
        rw [hgo]
        exact .inl ⟨hc, .inr hover⟩
      · obtain rfl := Option.some.inj (hc.symm.trans hc')
        rw [go_of_open hc hd]
        exact .inr ⟨fault, d, rfl, hd, List.getElem?_set_self hlt⟩
    · refine .inl ⟨?_, .inl (decide_eq_false hne)⟩
      rcases go_cases s c' fault with ⟨hgo, -⟩ | ⟨call, d, hc', hd⟩
      · rwa [hgo]
      · rw [go_of_open hc' hd]
        exact (List.getElem?_set_ne hne).trans hc

theorem Asked.step (h : Asked c f req s) (a : Act) :
    Asked c f req (Ioctltest.step s a) ∧
      (Ioctltest.step s a).stepsOf c ≤ s.stepsOf c - (a.goes c).toNat := by
  obtain ⟨hkept, pc, hc⟩ := h
  rw [stepsOf_of_asked hc]
  rcases calls_step hkept hc a with ⟨hc', hquiet⟩ | ⟨fault, d, rfl, -, hc'⟩
  · rw [stepsOf_of_asked hc']
    refine ⟨⟨hkept.step a, pc, hc'⟩, ?_⟩
    rcases hquiet with hgoes | hover
    · rw [hgoes]
      exact le_rfl
    · rw [active_eq_false_iff.mp hover]
      exact Nat.zero_le _
  · have hgoes : (Act.go c fault).goes c = true := decide_eq_true rfl
    rw [stepsOf_of_asked hc', hgoes]
    exact ⟨⟨hkept.step _, _, hc'⟩, steps_body d s.ioctlNum fault pc⟩

end

/-- **A call is over after as many steps of its own as it has to go**, whatever the others do. -/
theorem call_over (pre post : List Act) {c f : ℕ} {req : Request} {pc : Pc}
    (hc : (run step Sys.start pre).calls[c]? = some ⟨f, req, pc⟩)
    (hmany : pc.steps ≤ post.countP (Act.goes c)) :
    ∃ pc', (run step Sys.start (pre ++ post)).calls[c]? = some ⟨f, req, pc'⟩ ∧
      pc'.active = false := by
  have hasked : Asked c f req (run step Sys.start pre) := ⟨kept_run pre, pc, hc⟩
  obtain ⟨⟨-, pc', hc'⟩, hsteps⟩ :=
    run_countdown step (Asked c f req) (Sys.stepsOf c) (Act.goes c) (fun _ a hs => hs.step a) post
      hasked
  rw [stepsOf_of_asked hc, stepsOf_of_asked hc'] at hsteps
  rw [run_append]
  exact ⟨pc', hc', active_eq_false_iff.mpr (by omega)⟩

/-! ### Where a call has looked -/

section

variable {s : Sys} {c f : ℕ} {req : Request}

/-- **A call carries what it has found to its end.** -/
theorem carries_run {h : History} (acts : List Act) (hkept : Kept s) {pc : Pc}
    (hc : s.calls[c]? = some ⟨f, req, pc⟩) (hcarries : Carries h f req pc) :
    ∃ pc', (run step s acts).calls[c]? = some ⟨f, req, pc'⟩ ∧ Carries h f req pc' := by
  have hstep : ∀ (s : Sys) (a : Act),
      (Kept s ∧ ∃ pc, s.calls[c]? = some ⟨f, req, pc⟩ ∧ Carries h f req pc) →
      Kept (step s a) ∧ ∃ pc, (step s a).calls[c]? = some ⟨f, req, pc⟩ ∧ Carries h f req pc := by
    rintro s a ⟨hkept, pc, hc, hcarries⟩
    refine ⟨hkept.step a, ?_⟩
    rcases calls_step hkept hc a with ⟨hc', -⟩ | ⟨fault, d, -, -, hc'⟩
    · exact ⟨pc, hc', hcarries⟩
    · exact ⟨_, hc', carries_body fault hcarries d s.ioctlNum⟩
  exact (run_invariant step hstep acts ⟨hkept, pc, hc, hcarries⟩).2

/-- **Where a call stands after a step**: where it stood, at its beginning, or one step on. -/
theorem calls_back (hkept : Kept s) {a : Act} {pc' : Pc}
    (h : (step s a).calls[c]? = some ⟨f, req, pc'⟩) :
    s.calls[c]? = some ⟨f, req, pc'⟩ ∨ pc' = enter req ∨
      ∃ fault pc d, a = .go c fault ∧ s.calls[c]? = some ⟨f, req, pc⟩ ∧
        pc' = (body d s.ioctlNum fault pc).pc := by
  rcases hc : s.calls[c]? with - | ⟨f₀, req₀, pc⟩
  · -- the call begins
    refine .inr (.inl ?_)
    rcases step_cases s a with ⟨-, hcalls, -⟩ | ⟨f', req', rfl, -, hstep⟩ | ⟨c', fault, rfl⟩
    · exact absurd ((hcalls ▸ h).symm.trans hc) (by simp)
    · rw [hstep, List.getElem?_append_right (List.getElem?_eq_none_iff.mp hc)] at h
      have hmem := List.mem_singleton.mp (List.mem_of_getElem? h)
      obtain ⟨-, rfl, rfl⟩ := Call.mk.inj hmem
      rfl
    · have hlength : (step s (.go c' fault)).calls.length = s.calls.length := by
        rw [step]
        rcases go_cases s c' fault with ⟨hgo, -⟩ | ⟨call, d, hc', hd⟩
        · rw [hgo]
        · rw [go_of_open hc' hd]
          exact List.length_set
      have hout := List.getElem?_eq_none_iff.mp hc
      rw [← hlength] at hout
      exact absurd ((List.getElem?_eq_none_iff.mpr hout).symm.trans h) (by simp)
  · rcases calls_step hkept hc a with ⟨hc', -⟩ | ⟨fault, d, rfl, -, hc'⟩
    · obtain ⟨rfl, rfl, rfl⟩ := Call.mk.inj (Option.some.inj (hc'.symm.trans h))
      exact .inl rfl
    · obtain ⟨rfl, rfl, rfl⟩ := Call.mk.inj (Option.some.inj (hc'.symm.trans h))
      exact .inr (.inr ⟨fault, pc, d, rfl, rfl, rfl⟩)

/-- **A call that is not at its beginning has looked.** -/
theorem looked_run : ∀ (acts : List Act) {s : Sys} {pc : Pc}, Kept s →
    (run step s acts).calls[c]? = some ⟨f, req, pc⟩ → pc ≠ enter req →
      (∃ pc₀, s.calls[c]? = some ⟨f, req, pc₀⟩ ∧ pc₀ ≠ enter req) ∨
      ∃ pre, (∃ fault post, acts = pre ++ .go c fault :: post) ∧
        (run step s pre).calls[c]? = some ⟨f, req, enter req⟩
  | [], s, pc, _, hc, hne => .inl ⟨pc, hc, hne⟩
  | a :: acts, s, pc, hkept, hc, hne => by
    rcases looked_run acts (hkept.step a) hc hne with
      ⟨pc₁, hc₁, hne₁⟩ | ⟨pre, ⟨fault, post, rfl⟩, hpre⟩
    · rcases calls_back hkept hc₁ with hc₀ | henter | ⟨fault, pc₀, d, rfl, hc₀, -⟩
      · exact .inl ⟨pc₁, hc₀, hne₁⟩
      · exact absurd henter hne₁
      · by_cases hbegins : pc₀ = enter req
        · subst hbegins
          exact .inr ⟨[], ⟨fault, acts, rfl⟩, hc₀⟩
        · exact .inl ⟨pc₀, hc₀, hbegins⟩
    · exact .inr ⟨a :: pre, ⟨fault, post, rfl⟩, hpre⟩

/-- A call fails where the user's memory cannot be accessed. -/
theorem efault_body {pc : Pc} (h : Noted req pc) {d : Data} {n : BitVec 32} {fault : Bool}
    {answer : Answer} (hpc : (body d n fault pc).pc = .returned (-efault) answer) :
    fault = true ∨ pc = .returned (-efault) answer := by
  cases fault with
  | true => exact .inl rfl
  | false =>
    refine .inr ?_
    cases pc with
    | returned ret answer' => exact hpc
    | fill val count out =>
      obtain ⟨asked, -, rfl⟩ := h
      simp only [body, Bool.false_eq_true, if_false] at hpc
      split at hpc
      · exact absurd hpc (by simp)
      · rw [toInt_count (min_le_right _ _)] at hpc
        obtain ⟨hret, -⟩ := Pc.returned.inj hpc
        rw [efault] at hret
        omega
    | copyFromUser | writeLock | readLock | copyToUser | getNum | putUser | setNum | fileLock =>
      exact absurd hpc (by simp [body, efault])

theorem efault_run : ∀ (acts : List Act) {s : Sys} {answer : Answer}, Kept s →
    (run step s acts).calls[c]? = some ⟨f, req, .returned (-efault) answer⟩ →
      s.calls[c]? = some ⟨f, req, .returned (-efault) answer⟩ ∨ .go c true ∈ acts
  | [], _, _, _, hc => .inl hc
  | a :: acts, s, answer, hkept, hc => by
    rcases efault_run acts (hkept.step a) hc with hc₁ | hmem
    · rcases calls_back hkept hc₁ with hc₀ | henter | ⟨fault, pc₀, d, rfl, hc₀, hpc⟩
      · exact .inl hc₀
      · exact absurd henter (by cases req <;> simp [enter, efault, enotty])
      · rcases efault_body (hkept.noted _ (List.mem_of_getElem? hc₀)) hpc.symm with rfl | rfl
        · exact .inr List.mem_cons_self
        · exact .inl hc₀
    · exact .inr (List.mem_cons_of_mem a hmem)

end

/-! ### What the calls return -/

/-- **A call comes back with what is left of the history** when it looked. -/
theorem gets_of_looks {acts pre : List Act} {c f : ℕ} {req : Request} {ret : ℤ} {answer : Answer}
    (hlooks : Looks acts pre c f req)
    (hc : (run step Sys.start acts).calls[c]? = some ⟨f, req, .returned ret answer⟩)
    (hret : ret ≠ -efault) : req.Gets (history pre) f ret answer := by
  obtain ⟨⟨fault, post, rfl⟩, hbegins⟩ := hlooks
  have hkept := kept_run pre
  have hmatches := matches_run pre
  have hfirst : ∃ pc, (step (run step Sys.start pre) (.go c fault)).calls[c]? = some ⟨f, req, pc⟩ ∧
      Carries (history pre) f req pc := by
    rcases calls_step hkept hbegins (.go c fault) with ⟨hc', hquiet⟩ | ⟨fault', d, -, hd, hc'⟩
    · -- only an unknown command is over when it begins
      have hover : (enter req).active = false :=
        hquiet.resolve_left (by simp [Act.goes])
      cases req with
      | other => exact ⟨_, hc', .inr rfl⟩
      | valset | valget | valgetNum | valsetNum | read =>
        exact absurd hover (by simp [enter, Pc.active])
    · rw [hmatches.num] at hc'
      exact ⟨_, hc', carries_enter fault' (hmatches.values f d hd)⟩
  obtain ⟨pc, hpc, hcarries⟩ := hfirst
  obtain ⟨pc', hpc', hcarries'⟩ := carries_run post (hkept.step (.go c fault)) hpc hcarries
  rw [run_append, run_cons] at hc
  obtain rfl : pc' = .returned ret answer :=
    (Call.mk.inj (Option.some.inj (hpc'.symm.trans hc))).2.2
  exact hcarries'.resolve_left hret

/-- What is left of a value is the value if it fits a byte. -/
theorem narrow_eq_iff (v : BitVec 32) : (v.setWidth 8).setWidth 32 = v ↔ v.toNat < 256 := by
  rw [← BitVec.toNat_inj]
  simp only [BitVec.toNat_setWidth]
  omega

/-- **The low byte is what the process is to have** if the value fits a byte; nothing else is
cut. -/
theorem expects_of_gets {h : History} {f : ℕ} {req : Request} {ret : ℤ} {answer : Answer}
    (hgets : req.Gets h f ret answer) (hsmall : req = .valget → (h.values f).toNat < 256) :
    req.Expects h f ret answer := by
  cases req with
  | valget =>
    obtain ⟨rfl, rfl⟩ := hgets
    exact ⟨rfl, congrArg Answer.val ((narrow_eq_iff _).mpr (hsmall rfl))⟩
  | valset | valgetNum | valsetNum | other | read => exact hgets

/-- Values below 256 come back as they were set. -/
theorem truthful_of_forall_small {acts : List Act}
    (hsmall : ∀ c f answer,
      (run step Sys.start acts).calls[c]? = some ⟨f, .valget, .returned 0 answer⟩ →
        ∀ pre, Looks acts pre c f .valget → ((history pre).values f).toNat < 256) :
    Truthful acts := by
  intro c f req ret answer hc hret pre hlooks
  have hgets := gets_of_looks hlooks hc hret
  refine expects_of_gets hgets ?_
  rintro rfl
  obtain ⟨rfl, -⟩ := hgets
  exact hsmall c f answer hc pre hlooks

/-- **The values are returned as they were set if they fit a byte, and only then**, however the
calls on all the files take turns. A call that goes on often enough returns; it fails only where
the user's memory cannot be accessed, and one that returns has looked at its file or at the
number. The number and the reads are always what the history was when the call looked; all the
calls are exactly if each `IOCTL_VALGET` that has succeeded has looked at a file whose value, as
it was set last, was below 256. -/
theorem values_exact (acts : List Act) :
    let s := run step Sys.start acts
    (∀ pre f req post, acts = pre ++ .call f req :: post →
      (run step Sys.start pre).files f ≠ none →
        let c := (run step Sys.start pre).calls.length
        (enter req).steps ≤ post.countP (Act.goes c) →
          ∃ ret answer, s.calls[c]? = some ⟨f, req, .returned ret answer⟩) ∧
    (∀ c f req ret answer, s.calls[c]? = some ⟨f, req, .returned ret answer⟩ →
      (ret = -efault → .go c true ∈ acts) ∧ (req ≠ .other → ∃ pre, Looks acts pre c f req)) ∧
    (∀ c f req ret answer, s.calls[c]? = some ⟨f, req, .returned ret answer⟩ → ret ≠ -efault →
      req ≠ .valget → ∀ pre, Looks acts pre c f req → req.Expects (history pre) f ret answer) ∧
    (Truthful acts ↔ ∀ c f answer, s.calls[c]? = some ⟨f, .valget, .returned 0 answer⟩ →
      ∀ pre, Looks acts pre c f .valget → ((history pre).values f).toNat < 256) := by
  intro s
  refine ⟨?_, ?_, ?_, ?_, truthful_of_forall_small⟩
  · rintro pre f req post hacts hopen c hmany
    have hbegun : (run step Sys.start (pre ++ [.call f req])).calls[c]? =
        some ⟨f, req, enter req⟩ := by
      rw [run_append, run_cons, run_nil, step]
      split
      · exact absurd ‹_› hopen
      · exact List.getElem?_concat_length
    obtain ⟨pc, hc, hover⟩ := call_over _ post hbegun hmany
    have hsame : s = run step Sys.start (pre ++ [.call f req] ++ post) := by
      rw [List.append_assoc, List.singleton_append, ← hacts]
    cases pc with
    | returned ret answer => exact ⟨ret, answer, hsame ▸ hc⟩
    | _ => exact absurd hover (by simp [Pc.active])
  · intro c f req ret answer hc
    constructor
    · rintro rfl
      exact (efault_run acts kept_start hc).resolve_left (by simp [Sys.start])
    · intro hreq
      have hne : Pc.returned ret answer ≠ enter req := by
        cases req <;> first | exact absurd rfl hreq | simp [enter]
      rcases looked_run acts kept_start hc hne with ⟨pc₀, hc₀, -⟩ | ⟨pre, hgo, hpre⟩
      · exact absurd hc₀ (by simp [Sys.start])
      · exact ⟨pre, hgo, hpre⟩
  · intro c f req ret answer hc hret hreq pre hlooks
    exact expects_of_gets (gets_of_looks hlooks hc hret) fun heq => absurd heq hreq
  · intro htrue c f answer hc pre hlooks
    have hret : (0 : ℤ) ≠ -efault := by decide
    obtain ⟨-, hanswer⟩ := htrue c f .valget 0 answer hc hret pre hlooks
    obtain ⟨-, hlow⟩ := gets_of_looks hlooks hc hret
    exact (narrow_eq_iff _).mp (Answer.val.inj (hlow.symm.trans hanswer))

/-- Of `0x1234` the process gets back `0x34`. -/
theorem valset_truncated :
    let pre := [.openFile 0 true, .call 0 (.valset 0x1234), .go 0 false, .go 0 false,
      .call 0 .valget]
    let acts := pre ++ [.go 1 false, .go 1 false]
    (run step Sys.start acts).calls =
        [⟨0, .valset 0x1234, .returned 0 .nothing⟩, ⟨0, .valget, .returned 0 (.val 0x34)⟩] ∧
      Looks acts pre 1 0 .valget ∧ (history pre).values 0 = 0x1234 ∧ ¬Truthful acts := by
  intro pre acts
  have hcalls : (run step Sys.start acts).calls =
      [⟨0, .valset 0x1234, .returned 0 .nothing⟩, ⟨0, .valget, .returned 0 (.val 0x34)⟩] := by
    decide
  have hlooks : Looks acts pre 1 0 .valget := ⟨⟨false, [.go 1 false], rfl⟩, by decide⟩
  have hvalue : (history pre).values 0 = 0x1234 := by decide
  refine ⟨hcalls, hlooks, hvalue, fun htrue => ?_⟩
  have hc : (run step Sys.start acts).calls[1]? = some ⟨0, .valget, .returned 0 (.val 0x34)⟩ := by
    rw [hcalls]
    rfl
  obtain ⟨-, hanswer⟩ := htrue 1 0 .valget 0 _ hc (by decide) pre hlooks
  rw [hvalue] at hanswer
  exact absurd (Answer.val.inj hanswer) (by decide)

section

variable {P : BitVec 32 → Prop} {s : Sys}

/-- What is set has been asked for. -/
theorem asked_of_event {a : Act} {f : ℕ} {v : BitVec 32} (h : event s a = some (.valset f v)) :
    ∃ call ∈ (step s a).calls, call.req = .valset v := by
  cases a with
  | openFile f' kmalloc =>
    simp only [event] at h
    split at h <;> simp at h
  | closeFile | call => exact absurd h (by simp [event])
  | go c fault =>
    rw [step]
    rcases hc : s.calls[c]? with - | before
    · simp [event, hc] at h
    · rcases hc' : (s.go c fault).calls[c]? with - | ⟨f', req, pc⟩
      · simp [event, hc, hc'] at h
      · refine ⟨_, List.mem_of_getElem? hc', ?_⟩
        simp only [event, hc, hc', Call.event] at h
        split at h
        · cases req with
          | valset v' =>
            obtain ⟨-, rfl⟩ := Event.valset.inj (Option.some.inj h)
            rfl
          | valget | valgetNum | valsetNum | other | read => simp at h
        · simp at h

/-- A call keeps to what it was asked for. -/
theorem forall_valset_step (h : ∀ call ∈ s.calls, ∀ v, call.req = .valset v → P v) {a : Act}
    (ha : ∀ f v, a = .call f (.valset v) → P v) :
    ∀ call ∈ (step s a).calls, ∀ v, call.req = .valset v → P v := by
  rcases step_cases s a with ⟨-, hcalls, -⟩ | ⟨f, req, rfl, -, hstep⟩ | ⟨c, fault, rfl⟩
  · rwa [hcalls]
  · rw [hstep]
    refine List.forall_mem_append.mpr ⟨h, List.forall_mem_singleton.mpr fun v hreq => ?_⟩
    exact ha f v (congrArg (Act.call f) hreq)
  · rw [step]
    rcases go_cases s c fault with ⟨hgo, -⟩ | ⟨call, d, hc, hd⟩
    · rwa [hgo]
    · rw [go_of_open hc hd]
      exact forall_set h (h call (List.mem_of_getElem? hc))

end

/-- **The values of the files** are those they are opened with, and those that are set. -/
theorem values_history {P : BitVec 32 → Prop} (hstart : P 0xFF) {acts : List Act}
    (hacts : ∀ f v, .call f (.valset v) ∈ acts → P v) (f : ℕ) : P ((history acts).values f) := by
  refine (run_observed step (R := fun (s : Sys) (h : History) =>
    (∀ call ∈ s.calls, ∀ v, call.req = .valset v → P v) ∧ ∀ f, P (h.values f)) acts ?_
    ⟨fun _ h => absurd h List.not_mem_nil, fun _ => hstart⟩).2 f
  rintro a ha s h ⟨hcalls, hvalues⟩
  have hcalls' := forall_valset_step hcalls fun f v heq => hacts f v (heq ▸ ha)
  refine ⟨hcalls', fun f => ?_⟩
  rcases he : event s a with - | ⟨f'⟩ | ⟨f', v⟩ | arg
  · exact hvalues f
  · rcases eq_or_ne f f' with rfl | hne
    · simpa [History.note] using hstart
    · simpa [History.note, hne] using hvalues f
  · rcases eq_or_ne f f' with rfl | hne
    · obtain ⟨call, hcall, hreq⟩ := asked_of_event he
      simpa [History.note] using hcalls' call hcall v hreq
    · simpa [History.note, hne] using hvalues f
  · exact hvalues f

/-- **Where no value is set that does not fit a byte**, all of them come back. -/
theorem truthful_of_small (acts : List Act)
    (hacts : ∀ f v, .call f (.valset v) ∈ acts → v.toNat < 256) : Truthful acts := by
  refine truthful_of_forall_small fun c f answer _ pre hlooks => ?_
  obtain ⟨⟨fault, post, rfl⟩, -⟩ := hlooks
  exact values_history (by decide) (fun f v hmem => hacts f v (List.mem_append_left _ hmem)) f

end Ioctltest

end CharDevice

end KernelModules
