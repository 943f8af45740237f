import KernelModules.CharDevice.Ioctl
import KernelModules.Lib.Census

/-!
# The NUL behind the message

`already_open` keeps the `ioctl` calls of `char_device.c` apart, but `device_read` and
`device_write` are also reached by `read(2)` and `write(2)`, which do not ask for it. Here
nothing keeps the executions apart: any number of them go on byte by byte, in any order, and
every `get_user` returns whatever it likes.

`device_read` has no bound of its own. It stops at the first NUL, and what keeps it inside
`message` is the last byte of it, which is one at the beginning and which no execution
writes: `KernelModules.CharDevice.Sentinel.sentinel_kept`.
-/

namespace KernelModules

namespace CharDevice

namespace Sentinel

/-! ### Executions -/

/-- Who has called `device_read` or `device_write`. -/
inductive Caller where
  /-- The kernel, for `read(2)` or `write(2)`. -/
  | file : Caller
  /-- `device_ioctl`. -/
  | ioctl : Caller

/-- The variables of `device_read`. -/
structure Read where
  /-- Its caller. -/
  caller : Caller
  /-- `*offset`, at the beginning. -/
  offset : ℕ
  /-- `length`, at the beginning. -/
  asked : ℕ
  /-- `length`. -/
  length : ℕ
  /-- What it has put in the user's buffer: `bytes_read` bytes. -/
  out : List (BitVec 8)

/-- Where `msg_ptr` points, from `message` on. -/
def Read.pos (r : Read) : ℕ := r.offset + r.out.length

/-- The variables of `device_write`. -/
structure Write where
  /-- Its caller. -/
  caller : Caller
  /-- `length`. -/
  length : ℕ
  /-- `i`. -/
  i : ℕ

/-- Where an execution stands. -/
inductive Place where
  /-- `device_read`, before the test for the end of the message. -/
  | readFirst (r : Read) : Place
  /-- In its loop, before the test. -/
  | readTest (r : Read) : Place
  /-- In its loop, before `put_user`. -/
  | readCopy (r : Read) : Place
  /-- `device_read` has returned `bytes_read`; for `IOCTL_GET_MSG`, before its `put_user`. -/
  | readOver (r : Read) : Place
  /-- `IOCTL_SET_MSG`, before the first `get_user`. -/
  | setFirst : Place
  /-- In the loop that looks for the end of the string. -/
  | setScan (i : ℕ) (ch : BitVec 8) : Place
  /-- `device_write`, in its loop. -/
  | write (w : Write) : Place
  /-- Over. -/
  | returned (ret : ℕ) : Place

/-- A byte of `message` that is looked at or written. -/
inductive Access where
  /-- It is looked at. -/
  | load (i : ℕ) : Access
  /-- It is written. -/
  | store (i : ℕ) : Access

/-- The byte of `message` that the next step needs. -/
def Place.access : Place → Option Access
  | .readFirst r => some (.load r.offset)
  | .readTest r => if r.length ≠ 0 then some (.load r.pos) else none
  | .readCopy r => some (.load r.pos)
  | .write w => if w.i < w.length ∧ w.i < bufLen then some (.store w.i) else none
  | _ => none

/-- What a step of an execution leads to. -/
structure Effect where
  /-- `message`. -/
  message : ℕ → BitVec 8
  /-- `*offset`, where `device_read` leaves it. -/
  left : Option ℕ
  /-- Where the execution stands. -/
  place : Place

/-- **One step of an execution**; `byte` is what `get_user` returns, if there is one. -/
def body (message : ℕ → BitVec 8) (byte : BitVec 8) : Place → Effect
  | .readFirst r =>
    if message r.offset = 0 then ⟨message, some 0, .readOver r⟩ else ⟨message, none, .readTest r⟩
  | .readTest r =>
    if r.length ≠ 0 ∧ message r.pos ≠ 0 then ⟨message, none, .readCopy r⟩
    else ⟨message, some (r.offset + r.out.length), .readOver r⟩
  | .readCopy r =>
    ⟨message, none, .readTest { r with length := r.length - 1, out := r.out ++ [message r.pos] }⟩
  | .readOver r =>
    match r.caller with
    | .file => ⟨message, none, .readOver r⟩
    | .ioctl => ⟨message, none, .returned 0⟩
  | .setFirst => ⟨message, none, .setScan 0 byte⟩
  | .setScan i ch =>
    if ch ≠ 0 ∧ i < bufLen then ⟨message, none, .setScan (i + 1) byte⟩
    else ⟨message, none, .write ⟨.ioctl, i, 0⟩⟩
  | .write w =>
    if w.i < w.length ∧ w.i < bufLen then
      ⟨Function.update message w.i byte, none, .write { w with i := w.i + 1 }⟩
    else
      match w.caller with
      | .file => ⟨message, none, .returned w.i⟩
      | .ioctl => ⟨message, none, .returned 0⟩
  | .returned ret => ⟨message, none, .returned ret⟩

/-! ### Schedules -/

/-- The device and the executions. -/
structure Sys where
  /-- `message`, and the memory behind it. -/
  message : ℕ → BitVec 8
  /-- The offsets that executions of `device_read` have left. -/
  left : List ℕ
  /-- The executions, by number. -/
  calls : ℕ → Option Place

/-- The module, just loaded; `beyond` is the memory behind `message`. -/
def Sys.start (beyond : ℕ → BitVec 8) : Sys :=
  ⟨fun i => if i ≤ bufLen then 0 else beyond i, [], fun _ => none⟩

/-- What can happen next. -/
inductive Act where
  /-- `read(2)`, from some offset on. -/
  | read (c length offset : ℕ) : Act
  /-- `write(2)`. -/
  | write (c length : ℕ) : Act
  /-- `IOCTL_SET_MSG`. -/
  | setMsg (c : ℕ) : Act
  /-- `IOCTL_GET_MSG`. -/
  | getMsg (c : ℕ) : Act
  /-- Execution `c` goes on. -/
  | go (c : ℕ) (byte : BitVec 8) : Act

/-- Execution `c` begins, if that number is free. -/
def Sys.begin (s : Sys) (c : ℕ) (p : Place) : Sys :=
  match s.calls c with
  | none => { s with calls := Function.update s.calls c (some p) }
  | some _ => s

/-- Execution `c` goes on. -/
def Sys.go (s : Sys) (c : ℕ) (byte : BitVec 8) : Sys :=
  match s.calls c with
  | none => s
  | some p =>
    { message := (body s.message byte p).message
      left := (body s.message byte p).left.toList ++ s.left
      calls := Function.update s.calls c (some (body s.message byte p).place) }

/-- **One step.** A file is read from its start, or from where it was left. -/
def step (s : Sys) : Act → Sys
  | .read c length offset =>
    if offset = 0 ∨ offset ∈ s.left then
      s.begin c (.readFirst ⟨.file, offset, length, length, []⟩)
    else s
  | .write c length => s.begin c (.write ⟨.file, length, 0⟩)
  | .setMsg c => s.begin c .setFirst
  | .getMsg c => s.begin c (.readFirst ⟨.ioctl, 0, 99, 99, []⟩)
  | .go c byte => s.go c byte

/-! ### What an execution counts on -/

/-- An index that may be looked at, or written. -/
def Access.Inside : Access → Prop
  | .load i => i ≤ bufLen
  | .store i => i < bufLen

/-- A read is inside `message`, and has copied what it has counted. -/
structure Read.Fits (r : Read) : Prop where
  inside : r.pos ≤ bufLen
  counted : r.length + r.out.length = r.asked

/-- **What an execution keeps to**, whatever the others do. -/
def Place.Ok : Place → Prop
  | .readFirst r | .readTest r | .readOver r => r.Fits
  | .readCopy r => r.Fits ∧ r.length ≠ 0 ∧ r.pos < bufLen
  | .write w => w.i ≤ bufLen
  | _ => True

/-- **What holds on every run.** -/
structure Kept (beyond : ℕ → BitVec 8) (s : Sys) : Prop where
  final : s.message bufLen = 0
  beyond : ∀ i, bufLen < i → s.message i = beyond i
  left : ∀ o ∈ s.left, o ≤ bufLen
  ok : ∀ c p, s.calls c = some p → p.Ok

theorem kept_start (beyond : ℕ → BitVec 8) : Kept beyond (Sys.start beyond) where
  final := by simp [Sys.start]
  beyond i hi := by simp [Sys.start, Nat.not_le.mpr hi]
  left o ho := absurd ho List.not_mem_nil
  ok c p hc := absurd hc (by simp [Sys.start])

/-- What an execution does next is inside. -/
theorem Place.Ok.access {p : Place} (h : p.Ok) {a : Access} (ha : p.access = some a) :
    a.Inside := by
  cases p with
  | readFirst r =>
    obtain rfl := Option.some.inj ha
    have hr : r.Fits := h
    exact (Nat.le_add_right _ _).trans hr.inside
  | readTest r =>
    rw [Place.access] at ha
    split at ha
    · obtain rfl := Option.some.inj ha
      have hr : r.Fits := h
      exact hr.inside
    · exact absurd ha (by simp)
  | readCopy r =>
    obtain rfl := Option.some.inj ha
    exact h.1.inside
  | write w =>
    rw [Place.access] at ha
    split at ha
    · obtain rfl := Option.some.inj ha
      exact ‹w.i < w.length ∧ w.i < bufLen›.2
    · exact absurd ha (by simp)
  | readOver | setFirst | setScan | returned => exact absurd ha (by simp [Place.access])

/-- Nothing is copied yet. -/
theorem fits_first {caller : Caller} {offset : ℕ} (h : offset ≤ bufLen) (length : ℕ) :
    Read.Fits ⟨caller, offset, length, length, []⟩ := ⟨h, rfl⟩

/-- One byte is copied. -/
theorem Read.Fits.copied {r : Read} (h : r.Fits) (hlength : r.length ≠ 0) (hpos : r.pos < bufLen)
    (b : BitVec 8) : Read.Fits { r with length := r.length - 1, out := r.out ++ [b] } where
  inside := by
    rw [Read.pos, List.length_append, List.length_singleton, ← Nat.add_assoc]
    exact hpos
  counted := by
    have hcounted := h.counted
    simp only [List.length_append, List.length_singleton]
    omega

section

variable {message : ℕ → BitVec 8} {p : Place}

/-- **A step keeps to it as long as the last byte is a NUL**: a read does not go past one. -/
theorem Place.Ok.body (hfinal : message bufLen = 0) (h : p.Ok) (byte : BitVec 8) :
    (Sentinel.body message byte p).place.Ok := by
  cases p with
  | readFirst r =>
    rw [Sentinel.body]
    split <;> exact h
  | readTest r =>
    have hr : r.Fits := h
    rw [Sentinel.body]
    split
    · obtain ⟨hlength, hbyte⟩ := ‹r.length ≠ 0 ∧ message r.pos ≠ 0›
      refine ⟨hr, hlength, lt_of_le_of_ne hr.inside fun heq => hbyte ?_⟩
      rw [heq, hfinal]
    · exact hr
  | readCopy r => exact h.1.copied h.2.1 h.2.2 _
  | readOver r =>
    rw [Sentinel.body]
    cases r.caller with
    | file => exact h
    | ioctl => trivial
  | setFirst | returned => trivial
  | setScan i ch =>
    rw [Sentinel.body]
    split
    · trivial
    · exact Nat.zero_le _
  | write w =>
    rw [Sentinel.body]
    split
    · exact ‹w.i < w.length ∧ w.i < bufLen›.2
    · cases w.caller <;> trivial

/-- What `device_read` leaves is an offset inside. -/
theorem Place.Ok.left (h : p.Ok) (byte : BitVec 8) :
    ∀ o ∈ (Sentinel.body message byte p).left, o ≤ bufLen := by
  intro o ho
  cases p with
  | readFirst r =>
    rw [Sentinel.body] at ho
    split at ho
    · obtain rfl := Option.some.inj ho
      exact Nat.zero_le _
    · exact absurd ho (by simp)
  | readTest r =>
    have hr : r.Fits := h
    rw [Sentinel.body] at ho
    split at ho
    · exact absurd ho (by simp)
    · obtain rfl := Option.some.inj ho
      exact hr.inside
  | readOver r =>
    rw [Sentinel.body] at ho
    cases hcaller : r.caller <;> simp [hcaller] at ho
  | setScan i ch =>
    rw [Sentinel.body] at ho
    split at ho <;> exact absurd ho (by simp)
  | write w =>
    rw [Sentinel.body] at ho
    split at ho
    · exact absurd ho (by simp)
    · cases hcaller : w.caller <;> simp [hcaller] at ho
  | readCopy | setFirst | returned => exact absurd ho (by simp [Sentinel.body])

/-- Only the byte of its access is written. -/
theorem body_frame {i : ℕ} (hi : p.access ≠ some (.store i)) (byte : BitVec 8) :
    (body message byte p).message i = message i := by
  cases p with
  | write w =>
    rw [body]
    split
    · have hgo : w.i < w.length ∧ w.i < bufLen := ‹_›
      rw [Place.access, if_pos hgo] at hi
      exact Function.update_of_ne (fun heq => hi (by rw [heq])) ..
    · cases w.caller <;> rfl
  | readFirst | readTest | setScan =>
    rw [body]
    split <;> rfl
  | readOver r =>
    rw [body]
    cases r.caller <;> rfl
  | readCopy | setFirst | returned => rfl

/-- What is written does not depend on what was there. -/
theorem body_store {i : ℕ} (hi : p.access = some (.store i)) (byte : BitVec 8) :
    (body message byte p).message i = byte := by
  cases p with
  | write w =>
    rw [Place.access] at hi
    split at hi
    · have hgo : w.i < w.length ∧ w.i < bufLen := ‹_›
      obtain rfl := Access.store.inj (Option.some.inj hi)
      rw [body, if_pos hgo]
      exact Function.update_self ..
    · exact absurd hi (by simp)
  | readTest r =>
    rw [Place.access] at hi
    split at hi <;> exact absurd hi (by simp)
  | readFirst | readCopy | readOver | setFirst | setScan | returned =>
    exact absurd hi (by simp [Place.access])

/-- Only the byte of its access is looked at. -/
theorem body_congr {message' : ℕ → BitVec 8}
    (h : ∀ i, p.access = some (.load i) → message' i = message i) (byte : BitVec 8) :
    (body message' byte p).place = (body message byte p).place ∧
      (body message' byte p).left = (body message byte p).left := by
  cases p with
  | readFirst r =>
    rw [body, body, h _ rfl]
    split <;> exact ⟨rfl, rfl⟩
  | readTest r =>
    by_cases hlength : r.length = 0
    · rw [body, body, if_neg fun hgo => hgo.1 hlength, if_neg fun hgo => hgo.1 hlength]
      exact ⟨rfl, rfl⟩
    · rw [body, body, h _ (if_pos hlength)]
      split <;> exact ⟨rfl, rfl⟩
  | readCopy r =>
    rw [body, body, h _ rfl]
    exact ⟨rfl, rfl⟩
  | readOver r =>
    rw [body, body]
    cases r.caller <;> exact ⟨rfl, rfl⟩
  | setScan i ch =>
    rw [body, body]
    split <;> exact ⟨rfl, rfl⟩
  | write w =>
    rw [body, body]
    split
    · exact ⟨rfl, rfl⟩
    · cases w.caller <;> exact ⟨rfl, rfl⟩
  | setFirst | returned => exact ⟨rfl, rfl⟩

end

/-! ### Whole runs -/

section

variable {beyond : ℕ → BitVec 8} {s : Sys} {c : ℕ} {p : Place}

theorem begin_of_free (h : s.calls c = none) (p : Place) :
    s.begin c p = { s with calls := Function.update s.calls c (some p) } := by
  rw [Sys.begin, h]

theorem begin_of_taken (h : s.calls c = some p) (q : Place) : s.begin c q = s := by
  rw [Sys.begin, h]

theorem go_of_free (h : s.calls c = none) (byte : BitVec 8) : s.go c byte = s := by
  rw [Sys.go, h]

theorem go_of_taken (h : s.calls c = some p) (byte : BitVec 8) :
    s.go c byte = ⟨(body s.message byte p).message, (body s.message byte p).left.toList ++ s.left,
      Function.update s.calls c (some (body s.message byte p).place)⟩ := by
  rw [Sys.go, h]

theorem Kept.begin (h : Kept beyond s) (hp : p.Ok) (c : ℕ) : Kept beyond (s.begin c p) := by
  rcases hc : s.calls c with - | q
  · rw [begin_of_free hc]
    exact ⟨h.final, h.beyond, h.left,
      forall_update (fun d _ q hd => h.ok d q hd) hp⟩
  · rwa [begin_of_taken hc]

theorem Kept.go (h : Kept beyond s) (c : ℕ) (byte : BitVec 8) : Kept beyond (s.go c byte) := by
  rcases hc : s.calls c with - | p
  · rwa [go_of_free hc]
  · rw [go_of_taken hc]
    have hp := h.ok c p hc
    -- no access is a store to the last byte, or behind it
    have hframe : ∀ i, bufLen ≤ i → (body s.message byte p).message i = s.message i := by
      intro i hi
      refine body_frame (fun ha => ?_) byte
      exact absurd (hp.access ha) (Nat.not_lt.mpr hi)
    refine ⟨(hframe _ le_rfl).trans h.final, fun i hi => (hframe i hi.le).trans (h.beyond i hi),
      fun o ho => ?_, forall_update (fun d _ q hd => h.ok d q hd) (hp.body h.final byte)⟩
    rcases List.mem_append.mp ho with ho | ho
    · exact hp.left byte o (Option.mem_toList.mp ho)
    · exact h.left o ho

/-- **Every step keeps the NUL.** -/
theorem Kept.step (h : Kept beyond s) (a : Act) : Kept beyond (Sentinel.step s a) := by
  cases a with
  | read c length offset =>
    rw [Sentinel.step]
    split
    · have hle : offset ≤ bufLen := by
        rcases ‹offset = 0 ∨ offset ∈ s.left› with rfl | hleft
        · exact Nat.zero_le _
        · exact h.left offset hleft
      have hp : Place.Ok (.readFirst ⟨.file, offset, length, length, []⟩) := fits_first hle length
      exact h.begin hp c
    · exact h
  | write c length =>
    have hp : Place.Ok (.write ⟨.file, length, 0⟩) := Nat.zero_le _
    exact h.begin hp c
  | setMsg c =>
    have hp : Place.Ok .setFirst := trivial
    exact h.begin hp c
  | getMsg c =>
    have hp : Place.Ok (.readFirst ⟨.ioctl, 0, 99, 99, []⟩) := fits_first (Nat.zero_le _) 99
    exact h.begin hp c
  | go c byte => exact h.go c byte

end

theorem kept_run (beyond : ℕ → BitVec 8) (acts : List Act) :
    Kept beyond (run step (Sys.start beyond) acts) :=
  run_invariant step (fun _ a h => h.step a) acts (kept_start beyond)

/-! ### A read comes to an end -/

/-- The variables of `device_read`, while it runs and when it is over. -/
def Place.copied : Place → Option Read
  | .readFirst r | .readTest r | .readCopy r | .readOver r => some r
  | _ => none

/-- `device_read` runs. -/
def Place.reading : Place → Bool
  | .readFirst _ | .readTest _ | .readCopy _ => true
  | _ => false

/-- How many steps `device_read` has to go at most. -/
def Place.steps : Place → ℕ
  | .readFirst r => 2 * (bufLen - r.pos) + 2
  | .readTest r => 2 * (bufLen - r.pos) + 1
  | .readCopy r => 2 * (bufLen - r.pos)
  | _ => 0

theorem steps_le (p : Place) : p.steps ≤ 2 * bufLen + 2 := by
  cases p <;> simp only [Place.steps] <;> omega

/-- It is a step of execution `c`. -/
def Act.goes (c : ℕ) : Act → Bool
  | .go c' _ => c' = c
  | _ => false

section

variable {message : ℕ → BitVec 8} {p : Place}

/-- A step of a read is one less to go. -/
theorem Place.Ok.steps (h : p.Ok) (byte : BitVec 8) :
    (Sentinel.body message byte p).place.steps ≤ p.steps - 1 := by
  cases p with
  | readFirst r =>
    rw [Sentinel.body]
    split
    · exact Nat.zero_le _
    · exact le_rfl
  | readTest r =>
    rw [Sentinel.body]
    split
    · exact le_rfl
    · exact Nat.zero_le _
  | readCopy r =>
    have hpos : Read.pos { r with length := r.length - 1, out := r.out ++ [message r.pos] } =
        r.pos + 1 := by
      simp [Read.pos, Nat.add_assoc]
    have hlt := h.2.2
    simp only [Sentinel.body, Place.steps, hpos]
    omega
  | readOver r =>
    rw [Sentinel.body]
    cases r.caller <;> exact le_rfl
  | setScan i ch =>
    rw [Sentinel.body]
    split <;> exact le_rfl
  | write w =>
    rw [Sentinel.body]
    split
    · exact le_rfl
    · cases w.caller <;> exact le_rfl
  | setFirst | returned => exact le_rfl

/-- A read keeps what it was asked. -/
theorem copied_body {byte : BitVec 8} {r : Read}
    (hr : (body message byte p).place.copied = some r) :
    ∃ r', p.copied = some r' ∧ r'.offset = r.offset ∧ r'.asked = r.asked := by
  cases p with
  | readFirst r' | readTest r' =>
    rw [body] at hr
    split at hr <;> exact ⟨r, hr, rfl, rfl⟩
  | readCopy r' =>
    obtain rfl := Option.some.inj hr
    exact ⟨r', rfl, rfl, rfl⟩
  | readOver r' =>
    rw [body] at hr
    cases hcaller : r'.caller with
    | file =>
      rw [hcaller] at hr
      exact ⟨r, hr, rfl, rfl⟩
    | ioctl =>
      rw [hcaller] at hr
      exact absurd hr (by simp [Place.copied])
  | setScan i ch =>
    rw [body] at hr
    split at hr <;> exact absurd hr (by simp [Place.copied])
  | write w =>
    rw [body] at hr
    split at hr
    · exact absurd hr (by simp [Place.copied])
    · cases hcaller : w.caller <;> simp [hcaller, Place.copied] at hr
  | setFirst | returned => exact absurd hr (by simp [body, Place.copied])

/-- A read that runs has something to do. -/
theorem Place.Ok.steps_pos (h : p.Ok) (hreading : p.reading = true) : 0 < p.steps := by
  cases p with
  | readFirst r | readTest r => exact Nat.succ_pos _
  | readCopy r =>
    have hlt := h.2.2
    rw [Place.steps]
    omega
  | readOver | setFirst | setScan | write | returned => exact absurd hreading (by simp [reading])

/-- **What a read has copied** is no more than it was asked for, and than there is. -/
theorem Place.Ok.copied (h : p.Ok) {r : Read} (hr : p.copied = some r) :
    r.out.length ≤ min r.asked (bufLen - r.offset) := by
  have hfits : r.Fits := by
    cases p with
    | readFirst | readTest | readOver =>
      obtain rfl := Option.some.inj hr
      exact h
    | readCopy =>
      obtain rfl := Option.some.inj hr
      exact h.1
    | setFirst | setScan | write | returned => exact absurd hr (by simp [Place.copied])
  have hinside := hfits.inside
  have hcounted := hfits.counted
  rw [Read.pos] at hinside
  omega

end

section

variable {beyond : ℕ → BitVec 8} {s : Sys} {c : ℕ} {p : Place}

theorem calls_begin (hc : s.calls c = some p) (d : ℕ) (q : Place) :
    (s.begin d q).calls c = some p := by
  rcases hd : s.calls d with - | q'
  · have hne : c ≠ d := fun heq => absurd (hc.symm.trans (heq ▸ hd)) (by simp)
    rw [begin_of_free hd]
    exact (Function.update_of_ne hne ..).trans hc
  · rwa [begin_of_taken hd]

/-- **What a step does to an execution**: it is its own, or it leaves it where it is. -/
theorem calls_step (hc : s.calls c = some p) (a : Act) :
    a.goes c = false ∧ (step s a).calls c = some p ∨
      a.goes c = true ∧ ∃ byte, (step s a).calls c = some (body s.message byte p).place := by
  cases a with
  | read d length offset =>
    refine .inl ⟨rfl, ?_⟩
    rw [step]
    split
    · exact calls_begin hc _ _
    · exact hc
  | write | setMsg | getMsg => exact .inl ⟨rfl, calls_begin hc _ _⟩
  | go d byte =>
    rcases eq_or_ne d c with rfl | hne
    · refine .inr ⟨decide_eq_true rfl, byte, ?_⟩
      rw [step, go_of_taken hc]
      exact Function.update_self ..
    · refine .inl ⟨decide_eq_false hne, ?_⟩
      rcases hd : s.calls d with - | q
      · rwa [step, go_of_free hd]
      · rw [step, go_of_taken hd]
        exact (Function.update_of_ne hne.symm ..).trans hc

/-- Execution `c` is the one that began with `p`: a read of it is the read of `p`. -/
def Follows (beyond : ℕ → BitVec 8) (c : ℕ) (p : Place) (s : Sys) : Prop :=
  Kept beyond s ∧ ∃ p', s.calls c = some p' ∧ ∀ r', p'.copied = some r' →
    ∃ r, p.copied = some r ∧ r.offset = r'.offset ∧ r.asked = r'.asked

/-- How many steps execution `c` has to go at most, if it is a read. -/
def Sys.stepsOf (c : ℕ) (s : Sys) : ℕ := ((s.calls c).map Place.steps).getD 0

theorem stepsOf_of_taken (hc : s.calls c = some p) : s.stepsOf c = p.steps := by
  rw [Sys.stepsOf, hc]
  rfl

/-- **Every step of its own brings a read nearer to its end.** -/
theorem Follows.step (h : Follows beyond c p s) (a : Act) :
    Follows beyond c p (Sentinel.step s a) ∧
      (Sentinel.step s a).stepsOf c ≤ s.stepsOf c - (a.goes c).toNat := by
  obtain ⟨hkept, p', hp', hcopied⟩ := h
  rw [stepsOf_of_taken hp']
  rcases calls_step hp' a with ⟨hgoes, hnext⟩ | ⟨hgoes, byte, hnext⟩
  · rw [stepsOf_of_taken hnext, hgoes]
    exact ⟨⟨hkept.step a, p', hnext, hcopied⟩, le_rfl⟩
  · rw [stepsOf_of_taken hnext, hgoes]
    refine ⟨⟨hkept.step a, _, hnext, fun r' hr' => ?_⟩, (hkept.ok c p' hp').steps byte⟩
    obtain ⟨r₀, hr₀, hoffset₀, hasked₀⟩ := copied_body hr'
    obtain ⟨r, hr, hoffset, hasked⟩ := hcopied r₀ hr₀
    exact ⟨r, hr, hoffset.trans hoffset₀, hasked.trans hasked₀⟩

theorem Kept.follow (h : Kept beyond s) (hc : s.calls c = some p) (acts : List Act) :
    ∃ p', (run Sentinel.step s acts).calls c = some p' ∧
      p'.steps ≤ p.steps - acts.countP (Act.goes c) ∧
      ∀ r', p'.copied = some r' →
        ∃ r, p.copied = some r ∧ r.offset = r'.offset ∧ r.asked = r'.asked := by
  have hself : Follows beyond c p s := ⟨h, p, hc, fun r hr => ⟨r, hr, rfl, rfl⟩⟩
  obtain ⟨⟨-, p', hp', hcopied⟩, hsteps⟩ :=
    run_countdown Sentinel.step (Follows beyond c p) (Sys.stepsOf c) (Act.goes c)
      (fun _ a hs => hs.step a) acts hself
  rw [stepsOf_of_taken hp', stepsOf_of_taken hc] at hsteps
  exact ⟨p', hp', hsteps, hcopied⟩

end

/-! ### What is behind the message -/

/-- **Two devices alike**, but for the memory behind the message. -/
structure Twins (s s' : Sys) : Prop where
  message : ∀ i, i ≤ bufLen → s'.message i = s.message i
  left : s'.left = s.left
  calls : s'.calls = s.calls

section

variable {beyond : ℕ → BitVec 8} {s s' : Sys}

theorem Twins.begin (h : Twins s s') (c : ℕ) (p : Place) : Twins (s.begin c p) (s'.begin c p) := by
  rcases hc : s.calls c with - | q
  · rw [begin_of_free hc, begin_of_free (h.calls ▸ hc)]
    exact ⟨h.message, h.left, by rw [h.calls]⟩
  · rwa [begin_of_taken hc, begin_of_taken (h.calls ▸ hc)]

/-- A step does not look behind the message. -/
theorem Twins.step (h : Twins s s') (hkept : Kept beyond s) (a : Act) :
    Twins (Sentinel.step s a) (Sentinel.step s' a) := by
  cases a with
  | read c length offset =>
    rw [Sentinel.step, Sentinel.step, h.left]
    split
    · exact h.begin _ _
    · exact h
  | write | setMsg | getMsg => exact h.begin _ _
  | go c byte =>
    rw [Sentinel.step, Sentinel.step]
    rcases hc : s.calls c with - | p
    · rwa [go_of_free hc, go_of_free (h.calls ▸ hc)]
    · have hp := hkept.ok c p hc
      have hload : ∀ i, p.access = some (.load i) → s'.message i = s.message i :=
        fun i ha => h.message i (hp.access ha)
      obtain ⟨hplace, hleft⟩ := body_congr hload byte
      rw [go_of_taken hc, go_of_taken (h.calls ▸ hc), hplace, hleft, h.left, h.calls]
      refine ⟨fun i hi => ?_, rfl, rfl⟩
      by_cases ha : p.access = some (.store i)
      · exact (body_store ha byte).trans (body_store ha byte).symm
      · exact (body_frame ha byte).trans ((h.message i hi).trans (body_frame ha byte).symm)

theorem twins_start (beyond beyond' : ℕ → BitVec 8) :
    Twins (Sys.start beyond) (Sys.start beyond') where
  message i hi := by simp [Sys.start, hi]
  left := rfl
  calls := rfl

theorem Twins.run (h : Twins s s') (hkept : Kept beyond s) (acts : List Act) :
    Twins (run Sentinel.step s acts) (run Sentinel.step s' acts) := by
  induction acts generalizing s s' with
  | nil => exact h
  | cons a acts ih => exact ih (h.step hkept a) (hkept.step a)

end

/-! ### The invariant -/

/-- **The NUL behind the message stays, and nothing goes past it.** However any number of
executions of `device_read`, `device_write`, `IOCTL_SET_MSG` and `IOCTL_GET_MSG` take turns,
byte by byte, and whatever each `get_user` returns: the last byte of `message` is a NUL; the
offsets left behind are no more than 80; what an execution is about to look at is no more
than 80, and what it is about to write less; and a `device_read` that runs comes to its end
within 162 steps of its own, having copied no more than `length` bytes, and no more than
there are from its offset to the last byte. The memory behind is neither written nor looked
at. -/
theorem sentinel_kept (beyond : ℕ → BitVec 8) (acts : List Act) :
    let s := run step (Sys.start beyond) acts
    s.message bufLen = 0 ∧
    (∀ o ∈ s.left, o ≤ bufLen) ∧
    (∀ c p a, s.calls c = some p → p.access = some a → a.Inside) ∧
    (∀ pre post c p r, acts = pre ++ post →
      (run step (Sys.start beyond) pre).calls c = some p → p.copied = some r →
        ∃ p', s.calls c = some p' ∧
          (∀ r', p'.copied = some r' → r'.offset = r.offset ∧ r'.asked = r.asked ∧
            r'.out.length ≤ min r.asked (bufLen - r.offset)) ∧
          (2 * bufLen + 2 ≤ post.countP (Act.goes c) → p'.reading = false)) ∧
    (∀ i, bufLen < i → s.message i = beyond i) ∧
    ∀ beyond', (run step (Sys.start beyond') acts).calls = s.calls ∧
      (run step (Sys.start beyond') acts).left = s.left := by
  intro s
  have h : Kept beyond s := kept_run beyond acts
  refine ⟨h.final, h.left, fun c p a hc ha => (h.ok c p hc).access ha, ?_, h.beyond,
    fun beyond' => ?_⟩
  · rintro pre post c p r rfl hc hr
    obtain ⟨p', hp', hsteps, hcopied⟩ := (kept_run beyond pre).follow hc post
    rw [← run_append] at hp'
    have hok : p'.Ok := h.ok c p' hp'
    refine ⟨p', hp', fun r' hr' => ?_, fun hmany => ?_⟩
    · obtain ⟨r₀, hr₀, hoffset, hasked⟩ := hcopied r' hr'
      obtain rfl : r = r₀ := Option.some.inj (hr.symm.trans hr₀)
      rw [hoffset, hasked]
      exact ⟨rfl, rfl, hok.copied hr'⟩
    · by_contra hreading
      have hpos := hok.steps_pos (Bool.not_eq_false _ ▸ hreading)
      have hmost : p.steps ≤ 2 * bufLen + 2 := steps_le p
      omega
  · have htwins := (twins_start beyond beyond').run (kept_start beyond) acts
    exact ⟨htwins.calls, htwins.left⟩

/-! ### The calls that ask for `already_open` -/

/-- The same place, with `already_open` and without. -/
inductive Matches : Pc → Place → Prop
  /-- Before the first `get_user`. -/
  | setFirst (t : Text) : Matches (.setFirst t) .setFirst
  /-- In the loop that looks for the end of the string. -/
  | setScan (t : Text) (i : ℕ) (ch : BitVec 8) : Matches (.setScan t i ch) (.setScan i ch)
  /-- In the loop of `device_write`. -/
  | setWrite (t : Text) (i length : ℕ) : Matches (.setWrite t i length) (.write ⟨.ioctl, length, i⟩)
  /-- `device_read`, before the test for the end of the message. -/
  | getFirst : Matches .getFirst (.readFirst ⟨.ioctl, 0, 99, 99, []⟩)
  /-- In its loop, before the test. -/
  | getTest (length : ℕ) (out : List (BitVec 8)) :
      Matches (.getTest length out) (.readTest ⟨.ioctl, 0, 99, length, out⟩)
  /-- In its loop, before `put_user`. -/
  | getCopy (length : ℕ) (out : List (BitVec 8)) :
      Matches (.getCopy length out) (.readCopy ⟨.ioctl, 0, 99, length, out⟩)
  /-- Before the `put_user` of the NUL. -/
  | getNul (length : ℕ) (out : List (BitVec 8)) :
      Matches (.getNul out) (.readOver ⟨.ioctl, 0, 99, length, out⟩)

/-- The call writes nothing any more. -/
def settled : Pc → Bool
  | .nth _ | .release _ _ | .returned _ _ => true
  | _ => false

/-- **An execution does the same in both**, with the bytes of the user's string. -/
theorem Matches.body {pc : Pc} {p : Place} (h : Matches pc p) (signed : Bool)
    (message : ℕ → BitVec 8) :
    ∃ byte, (Sentinel.body message byte p).message = (CharDevice.body signed message pc).1 ∧
      (Matches (CharDevice.body signed message pc).2 (Sentinel.body message byte p).place ∨
        settled (CharDevice.body signed message pc).2 = true) := by
  cases h with
  | setFirst t => exact ⟨t.user 0, rfl, .inl (.setScan t 0 _)⟩
  | setScan t i ch =>
    refine ⟨t.user i, ?_⟩
    rw [Sentinel.body, CharDevice.body]
    split
    · exact ⟨rfl, .inl (.setScan t (i + 1) _)⟩
    · exact ⟨rfl, .inl (.setWrite t 0 i)⟩
  | setWrite t i length =>
    refine ⟨t.user i, ?_⟩
    rw [Sentinel.body, CharDevice.body]
    by_cases hgo : i < length ∧ i < bufLen
    · rw [if_pos hgo, if_pos hgo]
      exact ⟨rfl, .inl (.setWrite t (i + 1) length)⟩
    · rw [if_neg hgo, if_neg hgo]
      exact ⟨rfl, .inr rfl⟩
  | getFirst =>
    refine ⟨0, ?_⟩
    simp only [Sentinel.body, CharDevice.body]
    split
    · exact ⟨rfl, .inl (.getNul 99 [])⟩
    · exact ⟨rfl, .inl (.getTest 99 [])⟩
  | getTest length out =>
    refine ⟨0, ?_⟩
    simp only [Sentinel.body, CharDevice.body, Read.pos, Nat.zero_add]
    split
    · exact ⟨rfl, .inl (.getCopy length out)⟩
    · exact ⟨rfl, .inl (.getNul length out)⟩
  | getCopy length out =>
    refine ⟨0, rfl, .inl ?_⟩
    simp only [Sentinel.body, CharDevice.body, Read.pos, Nat.zero_add]
    exact .getTest (length - 1) _
  | getNul length out => exact ⟨0, rfl, .inr rfl⟩

/-- Where a call stands, and the execution of it. -/
inductive Tracks : Option Call → Option Place → Prop
  /-- There is none. -/
  | none : Tracks none none
  /-- It has not got `already_open` yet. -/
  | waiting (req : Request) : Tracks (some ⟨req, .cmpxchg⟩) none
  /-- It is inside. -/
  | inside (req : Request) {pc : Pc} {p : Place} (h : Matches pc p) :
      Tracks (some ⟨req, pc⟩) (some p)
  /-- It writes nothing any more. -/
  | settled (req : Request) {pc : Pc} (q : Option Place) (h : settled pc = true) :
      Tracks (some ⟨req, pc⟩) q

/-- **The device with `already_open`, and without.** -/
structure Simulates (s : CharDevice.Sys) (u : Sys) : Prop where
  message : u.message = s.message
  calls : ∀ c, Tracks (s.calls c) (u.calls c)

section

variable {s : CharDevice.Sys} {u : Sys} {c : ℕ}

/-- One call moves. -/
theorem Simulates.move (h : Simulates s u) {s' : CharDevice.Sys} {u' : Sys} {call : Call}
    {q : Option Place} (hmessage : u'.message = s'.message)
    (hs : s'.calls = Function.update s.calls c (some call))
    (hu : u'.calls = Function.update u.calls c q) (htracks : Tracks (some call) q) :
    Simulates s' u' := by
  refine ⟨hmessage, fun d => ?_⟩
  rw [hs, hu]
  rcases eq_or_ne d c with rfl | hne
  · rwa [Function.update_self, Function.update_self]
  · rw [Function.update_of_ne hne, Function.update_of_ne hne]
    exact h.calls d

/-- A call that does not need the message moves. -/
theorem Simulates.aside (h : Simulates s u) {s' : CharDevice.Sys} {call : Call}
    (hmessage : s'.message = s.message) (hs : s'.calls = Function.update s.calls c (some call))
    (htracks : Tracks (some call) (u.calls c)) : Simulates s' u :=
  h.move (h.message.trans hmessage.symm) hs (Function.update_eq_self c u.calls).symm htracks

/-- A call inside moves, and the execution of it with it. -/
theorem Simulates.both (h : Simulates s u) (signed : Bool) {req : Request} {pc : Pc} {p : Place}
    (hp : Matches pc p) (hu : u.calls c = some p) {s' : CharDevice.Sys}
    (hmessage : s'.message = (CharDevice.body signed s.message pc).1)
    (hs : s'.calls =
      Function.update s.calls c (some ⟨req, (CharDevice.body signed s.message pc).2⟩)) :
    ∃ byte, Simulates s' (u.go c byte) := by
  obtain ⟨byte, hbody, hnext⟩ := hp.body signed s.message
  refine ⟨byte, ?_⟩
  rw [go_of_taken hu, h.message]
  refine h.move (hbody.trans hmessage.symm) hs rfl ?_
  rcases hnext with hmatch | hsettled
  · exact .inside req hmatch
  · exact .settled req _ hsettled

/-- A call tries to take `already_open`; with it, its execution begins. -/
theorem Simulates.enter (h : Simulates s u) (signed : Bool) (req : Request)
    (hu : u.calls c = none) :
    ∃ acts, Simulates (stepCall signed s c ⟨req, .cmpxchg⟩) (run Sentinel.step u acts) := by
  rw [stepCall]
  cases s.alreadyOpen with
  | exclusiveOpen => exact ⟨[], h.aside rfl rfl (.settled req _ rfl)⟩
  | notUsed =>
    cases req with
    | setMsg t =>
      refine ⟨[.setMsg c], ?_⟩
      show Simulates _ (u.begin c .setFirst)
      rw [begin_of_free hu]
      exact h.move h.message rfl rfl (.inside _ (.setFirst t))
    | getMsg =>
      refine ⟨[.getMsg c], ?_⟩
      show Simulates _ (u.begin c (.readFirst ⟨.ioctl, 0, 99, 99, []⟩))
      rw [begin_of_free hu]
      exact h.move h.message rfl rfl (.inside _ .getFirst)
    | getNthByte i => exact ⟨[], h.aside rfl rfl (.settled _ _ rfl)⟩
    | other => exact ⟨[], h.aside rfl rfl (.settled _ _ rfl)⟩

/-- A call that writes nothing any more goes on. -/
theorem Simulates.rest (h : Simulates s u) (signed : Bool) {req : Request} {pc : Pc}
    (hc : s.calls c = some ⟨req, pc⟩) (hpc : settled pc = true) :
    Simulates (stepCall signed s c ⟨req, pc⟩) u := by
  cases pc with
  | nth | release => exact h.aside rfl rfl (.settled req _ rfl)
  | returned => exact h
  | cmpxchg | setFirst | setScan | setWrite | getFirst | getTest | getCopy | getNul =>
    exact absurd hpc (by simp [settled])

/-- **A step with `already_open` is one without, or none.** -/
theorem Simulates.step (h : Simulates s u) (signed : Bool) (a : CharDevice.Act) :
    ∃ acts, Simulates (CharDevice.step signed s a) (run Sentinel.step u acts) := by
  cases a with
  | ioctl c req =>
    refine ⟨[], ?_⟩
    have hcalls := h.calls c
    rw [CharDevice.step]
    split
    · have hnone : s.calls c = none := ‹_›
      rw [hnone] at hcalls
      cases hu : u.calls c with
      | none => exact h.aside rfl rfl (hu ▸ .waiting req)
      | some p => exact absurd (hu ▸ hcalls) (by rintro ⟨⟩)
    · exact h
  | go c =>
    have hcalls := h.calls c
    rw [CharDevice.step]
    cases hc : s.calls c with
    | none => exact ⟨[], h⟩
    | some call =>
      obtain ⟨req, pc⟩ := call
      rw [hc] at hcalls
      generalize hu : u.calls c = q at hcalls
      cases hcalls with
      | waiting => exact h.enter signed req hu
      | inside _ hp =>
        have hstep : stepCall signed s c ⟨req, pc⟩ =
            { s with
              message := (CharDevice.body signed s.message pc).1
              calls := Function.update s.calls c
                (some ⟨req, (CharDevice.body signed s.message pc).2⟩) } := by
          cases hp <;> rfl
        obtain ⟨byte, hboth⟩ := h.both signed hp hu (congrArg _ hstep) (congrArg _ hstep)
        exact ⟨[.go c byte], hboth⟩
      | settled _ _ hsettled => exact ⟨[], h.rest signed hc hsettled⟩

theorem Simulates.run (h : Simulates s u) (signed : Bool) (acts : List CharDevice.Act) :
    ∃ acts', Simulates (run (CharDevice.step signed) s acts) (run Sentinel.step u acts') := by
  induction acts generalizing s u with
  | nil => exact ⟨[], h⟩
  | cons a acts ih =>
    obtain ⟨first, hfirst⟩ := h.step signed a
    obtain ⟨rest, hrest⟩ := ih hfirst
    exact ⟨first ++ rest, by rwa [run_append]⟩

end

theorem simulates_start (beyond : ℕ → BitVec 8) :
    Simulates (CharDevice.Sys.start beyond) (Sys.start beyond) := ⟨rfl, fun _ => .none⟩

/-- **With `already_open` too the NUL stays**, and the memory behind the message is as it was:
the calls of `device_ioctl` are among the executions here. -/
theorem message_within (signed : Bool) (beyond : ℕ → BitVec 8) (acts : List CharDevice.Act) :
    let s := run (CharDevice.step signed) (CharDevice.Sys.start beyond) acts
    s.message bufLen = 0 ∧ ∀ i, bufLen < i → s.message i = beyond i := by
  intro s
  obtain ⟨acts', hsim⟩ := (simulates_start beyond).run signed acts
  have hkept := kept_run beyond acts'
  rw [show s.message = _ from hsim.message.symm]
  exact ⟨hkept.final, hkept.beyond⟩

end Sentinel

end CharDevice

end KernelModules
