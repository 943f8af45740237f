import Mathlib.Data.Int.Notation
import KernelModules.Lib.Run
import KernelModules.Lib.Wakeup

/-!
# The kernel thread of a module

`my_kthread_init` starts a kernel thread, which sleeps until `flag_stop_thread` is set or
`kthread_stop` has been called; `my_kthread_exit` sets the flag, wakes the queue and then calls
`kthread_stop`, which waits for the end of the thread. The module is unloaded when
`my_kthread_exit` has returned, and the code of `my_thread_fn` goes with it.

The thread is over by then, and what it reports when it wakes up is always that the flag is
set: `KernelModules.Kthread.my_thread_confined`. A module whose `kthread_run` failed is loaded
all the same, since `my_kthread_init` returns the error of a pointer it has just cleared.
-/

namespace KernelModules

namespace Kthread

/-! ### The module -/

/-- What `my_thread` holds. -/
inductive TaskPtr where
  /-- `NULL`. -/
  | null : TaskPtr
  /-- The thread that was created last. -/
  | task : TaskPtr
  /-- An error pointer. -/
  | err (errno : ℕ) : TaskPtr
deriving DecidableEq

/-- `PTR_ERR`, the error of a pointer; that of `NULL` is zero. -/
def TaskPtr.ptrErr : TaskPtr → ℤ
  | null => 0
  | task => 0
  | err errno => -(errno : ℤ)

/-- Where the kernel thread stands. -/
inductive Thread where
  /-- There is none. -/
  | none : Thread
  /-- It was created, and has not run yet. -/
  | created : Thread
  /-- At the beginning of `my_thread_fn`. -/
  | started : Thread
  /-- In `wait_event_interruptible`. Kernel threads ignore signals. -/
  | waiting (t : Waiter) : Thread
  /-- Past it. -/
  | woken : Thread
  /-- It has come to its end, which wakes whoever waits for that. -/
  | exited : Thread
deriving DecidableEq

namespace Thread

/-- The thread has still to run code of the module. -/
def live : Thread → Bool
  | none => false
  | exited => false
  | _ => true

/-- The thread is not past its wait. -/
def held : Thread → Bool
  | created => true
  | started => true
  | waiting _ => true
  | _ => false

/-- The thread has found nothing to stop for and will not look again until it is woken. -/
def dozing : Thread → Bool
  | waiting t => t.dozing
  | _ => false

/-- The thread is woken: `wake_up_interruptible` on its queue, or `wake_up_process`. -/
def wake : Thread → Thread
  | waiting t => waiting t.wake
  | t => t

@[simp] theorem live_wake (t : Thread) : t.wake.live = t.live := by
  cases t <;> rfl

@[simp] theorem dozing_wake (t : Thread) : t.wake.dozing = false := by
  cases t with
  | waiting t => exact t.dozing_wake
  | _ => rfl

@[simp] theorem wake_eq_none {t : Thread} : t.wake = none ↔ t = none := by
  cases t <;> simp [wake]

theorem not_dozing_of_not_live {t : Thread} (h : t.live = false) : t.dozing = false := by
  cases t with
  | waiting => exact absurd h (by simp [live])
  | _ => rfl

theorem ne_woken_of_not_live {t : Thread} (h : t.live = false) : t ≠ woken := by
  rintro rfl
  exact absurd h (by simp [live])

end Thread

/-- How far the module has come. -/
inductive Phase where
  /-- It is not loaded. -/
  | absent : Phase
  /-- `my_kthread_init`, before `kthread_run`. -/
  | create : Phase
  /-- `my_kthread_init`, before the message with `my_thread->pid`. -/
  | pid : Phase
  /-- `my_kthread_init` has returned zero. -/
  | loaded : Phase
  /-- `my_kthread_exit` has set the flag. -/
  | wake : Phase
  /-- Before the test of `my_thread`. -/
  | test : Phase
  /-- `kthread_stop`, before `get_task_struct`. -/
  | getTask : Phase
  /-- Before `KTHREAD_SHOULD_STOP` is set. -/
  | setStop : Phase
  /-- Before `wake_up_process`. -/
  | wakeTask : Phase
  /-- In `wait_for_completion`. -/
  | waitExit : Phase
  /-- Before `put_task_struct`. -/
  | putTask : Phase
  /-- A `task_struct` that was freed has been accessed. -/
  | freedUse : Phase
deriving DecidableEq

/-- The module and its thread. -/
structure Sys where
  phase : Phase
  my_thread : TaskPtr
  /-- `flag_stop_thread`. -/
  flag : Bool
  /-- `KTHREAD_SHOULD_STOP` of the thread. -/
  shouldStop : Bool
  thread : Thread
  /-- `kthread_stop` holds a reference to the `task_struct`. -/
  ref : Bool
  /-- The `task_struct` has been freed. -/
  freed : Bool
  /-- The messages `wakeup: flag=%d should_stop=%d`, the last one first. -/
  log : List (Bool × Bool)

/-- What can happen next. -/
inductive Act where
  /-- The next step of `my_kthread_init`, with the error if `kthread_run` fails. -/
  | init (failure : Option ℕ) : Act
  /-- The next step of `my_kthread_exit`. -/
  | exit : Act
  /-- The next step of the thread. -/
  | thread : Act
  /-- The `task_struct` of a thread that is over is freed, if nobody has a reference. -/
  | reap : Act
deriving DecidableEq

namespace Sys

/-- The condition the thread waits for. -/
def told (s : Sys) : Bool := s.flag || s.shouldStop

/-- `my_kthread_init`, one step. -/
def init (s : Sys) (failure : Option ℕ) : Sys :=
  match s.phase with
  | .absent => { s with phase := .create, my_thread := .null, flag := false }
  | .create =>
    match failure with
    | none =>
      { s with
          phase := .pid
          my_thread := .task
          thread := .created
          shouldStop := false
          freed := false }
    | some _ =>
      -- `my_thread` is cleared before its error is taken
      let my_thread := TaskPtr.null
      { s with phase := if my_thread.ptrErr = 0 then .loaded else .absent, my_thread }
  | .pid => { s with phase := if s.freed then .freedUse else .loaded }
  | _ => s

/-- `my_kthread_exit`, one step, with those of `kthread_stop`. -/
def exit (s : Sys) : Sys :=
  match s.phase with
  | .loaded => { s with flag := true, phase := .wake }
  | .wake => { s with thread := s.thread.wake, phase := .test }
  | .test => { s with phase := if s.my_thread = .null then .absent else .getTask }
  | .getTask =>
    if s.freed then { s with phase := .freedUse }
    else { s with ref := true, phase := .setStop }
  | .setStop => { s with shouldStop := true, phase := .wakeTask }
  | .wakeTask => { s with thread := s.thread.wake, phase := .waitExit }
  | .waitExit => if s.thread = .exited then { s with phase := .putTask } else s
  | .putTask => { s with ref := false, phase := .absent }
  | _ => s

/-- `my_thread_fn`, one step. A thread that is to stop before it has run does not call it. -/
def runThread (s : Sys) : Sys :=
  match s.thread with
  | .created => { s with thread := if s.shouldStop then .exited else .started }
  | .started => { s with thread := .waiting .check }
  | .waiting t =>
    match t.advance s.told with
    | some t' => { s with thread := .waiting t' }
    | none => { s with thread := .woken }
  | .woken => { s with log := (s.flag, s.shouldStop) :: s.log, thread := .exited }
  | _ => s

/-- Before the module is first loaded. -/
def start : Sys := ⟨.absent, .null, false, false, .none, false, false, []⟩

end Sys

/-- The thread is over and nobody has a reference to its `task_struct`. -/
def Sys.Loose (s : Sys) : Prop := s.thread = .exited ∧ s.ref = false

instance (s : Sys) : Decidable s.Loose := inferInstanceAs (Decidable (_ ∧ _))

/-- **One step.** -/
def step (s : Sys) : Act → Sys
  | .init failure => s.init failure
  | .exit => s.exit
  | .thread => s.runThread
  | .reap => if s.Loose then { s with freed := true } else s

/-! ### What holds in every state -/

/-- `my_kthread_exit` has begun, and has not returned. -/
def Phase.exiting : Phase → Bool
  | absent => false
  | create => false
  | pid => false
  | loaded => false
  | _ => true

/-- **What holds of the module and its thread.** -/
structure Inv (s : Sys) : Prop where
  ended : s.phase = .absent ∨ s.phase = .create ∨ s.phase = .putTask ∨ s.my_thread ≠ .task →
    s.thread.live = false
  freed : s.freed = true → s.thread.live = false
  fresh : s.phase = .pid ∨ s.phase = .loaded ∧ s.my_thread = .task →
    s.my_thread = .task ∧ s.thread.held = true ∧ s.shouldStop = false ∧ s.freed = false
  quiet : s.phase.exiting = false → s.phase ≠ .absent → s.flag = false
  told : s.phase.exiting = true → s.flag = true
  aware : s.thread.dozing = true → s.flag = true → s.phase = .wake
  stop : s.thread.live = true → s.shouldStop = true → s.flag = true
  woken : s.thread = .woken → s.flag = true
  log : ∀ m ∈ s.log, m.1 = true

/-- **A thread that is over** leaves only the flag and the messages to account for. -/
theorem Inv.of_over {s : Sys} (hover : s.thread.live = false) (hpid : s.phase ≠ .pid)
    (hloaded : s.phase = .loaded → s.my_thread ≠ .task)
    (hquiet : s.phase.exiting = false → s.phase ≠ .absent → s.flag = false)
    (htold : s.phase.exiting = true → s.flag = true) (hlog : ∀ m ∈ s.log, m.1 = true) : Inv s where
  ended _ := hover
  freed _ := hover
  fresh hp := by
    rcases hp with hp | ⟨hp, htask⟩
    · exact absurd hp hpid
    · exact absurd htask (hloaded hp)
  quiet := hquiet
  told := htold
  aware hd := by
    rw [Thread.not_dozing_of_not_live hover] at hd
    contradiction
  stop hl := by
    rw [hover] at hl
    contradiction
  woken hw := absurd hw (Thread.ne_woken_of_not_live hover)
  log := hlog

theorem inv_start : Inv Sys.start := by
  refine .of_over rfl ?_ ?_ ?_ ?_ ?_ <;> simp [Sys.start, Phase.exiting]

/-- `my_kthread_init` keeps the invariant: a thread is created only when the last one is over,
and the new one cannot be over before `my_thread->pid` is read. -/
theorem Inv.init {s : Sys} (h : Inv s) (failure : Option ℕ) : Inv (s.init failure) := by
  cases hp : s.phase with
  | absent =>
    simp only [Sys.init, hp]
    exact .of_over (h.ended (.inl hp)) (by simp) (by simp) (fun _ _ => rfl)
      (by simp [Phase.exiting]) h.log
  | create =>
    have hover := h.ended (.inr (.inl hp))
    have hflag := h.quiet (by rw [hp]; rfl) (by simp [hp])
    cases failure with
    | none =>
      simp only [Sys.init, hp]
      exact
        { ended := by simp
          freed := by simp
          fresh := fun _ => ⟨rfl, rfl, rfl, rfl⟩
          quiet := fun _ _ => hflag
          told := by simp [Phase.exiting]
          aware := by simp [Thread.dozing]
          stop := by simp
          woken := by simp
          log := h.log }
    | some errno =>
      simp only [Sys.init, hp, TaskPtr.ptrErr, if_true]
      exact .of_over hover (by simp) (fun _ => by simp) (fun _ _ => hflag)
        (by simp [Phase.exiting]) h.log
  | pid =>
    obtain ⟨htask, hheld, hstop, hfreed⟩ := h.fresh (.inl hp)
    have hflag := h.quiet (by rw [hp]; rfl) (by simp [hp])
    simp only [Sys.init, hp, hfreed, Bool.false_eq_true, if_false]
    exact
      { ended := by simp [htask]
        freed := by simp
        fresh := fun _ => ⟨htask, hheld, hstop, rfl⟩
        quiet := fun _ _ => hflag
        told := by simp [Phase.exiting]
        aware := fun _ hf => absurd hf (by simp [hflag])
        stop := h.stop
        woken := h.woken
        log := h.log }
  | loaded | wake | test | getTask | setStop | wakeTask | waitExit | putTask | freedUse =>
    simpa only [Sys.init, hp] using h

/-- While `my_kthread_exit` goes on, the flag is set; what counts is that the thread does not
doze. -/
theorem Inv.exits {s s' : Sys} (h : Inv s) (hs : s.phase.exiting = true)
    (hs' : s'.phase.exiting = true) (hput : s'.phase ≠ .putTask)
    (htask : s'.my_thread = s.my_thread) (hflag : s'.flag = s.flag) (hfreed : s'.freed = s.freed)
    (hlive : s'.thread.live = s.thread.live) (hdoze : s'.thread.dozing = false)
    (hlog : s'.log = s.log) : Inv s' := by
  have hset : s'.flag = true := hflag.trans (h.told hs)
  refine ⟨fun hp => ?_, fun hf => ?_, fun hp => ?_, fun hp => ?_, fun _ => hset, fun hd => ?_,
    fun _ _ => hset, fun _ => hset, ?_⟩
  · rw [hlive]
    rcases hp with hp | hp | hp | hp
    · rw [hp] at hs'
      contradiction
    · rw [hp] at hs'
      contradiction
    · exact absurd hp hput
    · exact h.ended (.inr (.inr (.inr (htask ▸ hp))))
  · rw [hlive]
    exact h.freed (hfreed ▸ hf)
  · rcases hp with hp | ⟨hp, -⟩ <;>
    · rw [hp] at hs'
      contradiction
  · rw [hs'] at hp
    contradiction
  · rw [hdoze] at hd
    contradiction
  · rw [hlog]
    exact h.log

/-- In the rest of `my_kthread_exit` the thread does not doze. -/
theorem Inv.alert {s : Sys} (h : Inv s) (hs : s.phase.exiting = true) (hwake : s.phase ≠ .wake) :
    s.thread.dozing = false := by
  rw [Bool.eq_false_iff]
  exact fun hd => hwake (h.aware hd (h.told hs))

/-- `my_kthread_exit` keeps the invariant. -/
theorem Inv.exit {s : Sys} (h : Inv s) : Inv s.exit := by
  cases hp : s.phase with
  | loaded =>
    simp only [Sys.exit, hp]
    exact
      { ended := fun hq => h.ended (.inr (.inr (.inr (by simpa using hq))))
        freed := h.freed
        fresh := by simp
        quiet := by simp [Phase.exiting]
        told := fun _ => rfl
        aware := fun _ _ => rfl
        stop := fun _ _ => rfl
        woken := fun _ => rfl
        log := h.log }
  | wake =>
    simp only [Sys.exit, hp]
    exact h.exits (by rw [hp]; rfl) rfl (by simp) rfl rfl rfl (Thread.live_wake _)
      (Thread.dozing_wake _) rfl
  | test =>
    have halert := h.alert (by rw [hp]; rfl) (by simp [hp])
    by_cases hnull : s.my_thread = .null
    · simp only [Sys.exit, hp, hnull, if_true]
      exact .of_over (h.ended (.inr (.inr (.inr (by simp [hnull]))))) (by simp) (by simp)
        (fun _ hne => absurd rfl hne) (by simp [Phase.exiting]) h.log
    · simp only [Sys.exit, hp, hnull, if_false]
      exact h.exits (by rw [hp]; rfl) rfl (by simp) rfl rfl rfl rfl halert rfl
  | getTask =>
    have halert := h.alert (by rw [hp]; rfl) (by simp [hp])
    simp only [Sys.exit, hp]
    split
    · exact h.exits (by rw [hp]; rfl) rfl (by simp) rfl rfl rfl rfl halert rfl
    · exact h.exits (by rw [hp]; rfl) rfl (by simp) rfl rfl rfl rfl halert rfl
  | setStop =>
    have halert := h.alert (by rw [hp]; rfl) (by simp [hp])
    simp only [Sys.exit, hp]
    exact h.exits (by rw [hp]; rfl) rfl (by simp) rfl rfl rfl rfl halert rfl
  | wakeTask =>
    simp only [Sys.exit, hp]
    exact h.exits (by rw [hp]; rfl) rfl (by simp) rfl rfl rfl (Thread.live_wake _)
      (Thread.dozing_wake _) rfl
  | waitExit =>
    by_cases hover : s.thread = .exited
    · simp only [Sys.exit, hp, hover, if_true]
      exact .of_over rfl (by simp) (by simp) (by simp [Phase.exiting])
        (fun _ => h.told (by rw [hp]; rfl)) h.log
    · simpa only [Sys.exit, hp, hover, if_false] using h
  | putTask =>
    simp only [Sys.exit, hp]
    exact .of_over (h.ended (.inr (.inr (.inl hp)))) (by simp) (by simp)
      (fun _ hne => absurd rfl hne) (by simp [Phase.exiting]) h.log
  | absent | create | pid | freedUse => simpa only [Sys.exit, hp] using h

/-- A thread that stays before the end of its wait dozes off only on a flag that is not set. -/
theorem Inv.stays {s : Sys} {t : Thread} (h : Inv s) (hlive : s.thread.live = true)
    (ht : t.held = true) (hdoze : t.dozing = true → s.thread.dozing = true ∨ s.flag = false) :
    Inv { s with thread := t } where
  ended hp := absurd (h.ended hp) (by simp [hlive])
  freed hf := absurd (h.freed hf) (by simp [hlive])
  fresh hp := by
    obtain ⟨htask, -, hrest⟩ := h.fresh hp
    exact ⟨htask, ht, hrest⟩
  quiet := h.quiet
  told := h.told
  aware hd hf := by
    rcases hdoze hd with hs | hs
    · exact h.aware hs hf
    · exact absurd hf (by simp [hs])
  stop _ := h.stop hlive
  woken hw := absurd ht (by simp [show t = .woken from hw, Thread.held])
  log := h.log

/-- A thread leaves its wait, or ends, with the flag set. -/
theorem Inv.leaves {s : Sys} {t : Thread} {log : List (Bool × Bool)} (h : Inv s)
    (hlive : s.thread.live = true) (ht : t = .woken ∨ t = .exited) (hflag : s.flag = true)
    (hlog : ∀ m ∈ log, m.1 = true) : Inv { s with thread := t, log := log } where
  ended hp := absurd (h.ended hp) (by simp [hlive])
  freed hf := absurd (h.freed hf) (by simp [hlive])
  fresh hp := by
    have hclear : s.flag = false := by
      rcases hp with hp | ⟨hp, -⟩ <;>
      · have hp' : s.phase = _ := hp
        exact h.quiet (by rw [hp']; rfl) (by simp [hp'])
    exact absurd hflag (by simp [hclear])
  quiet := h.quiet
  told := h.told
  aware hd := by
    rcases ht with rfl | rfl <;> contradiction
  stop _ _ := hflag
  woken _ := hflag
  log := hlog

/-- The condition the thread waits for comes down to the flag. -/
theorem Inv.flag_of_told {s : Sys} (h : Inv s) (hlive : s.thread.live = true)
    (ht : s.told = true) : s.flag = true := by
  rcases (Bool.or_eq_true _ _).mp ht with hflag | hstop
  · exact hflag
  · exact h.stop hlive hstop

/-- **The thread keeps the invariant.** -/
theorem Inv.runThread {s : Sys} (h : Inv s) : Inv s.runThread := by
  cases ht : s.thread with
  | none | exited => simpa only [Sys.runThread, ht] using h
  | created =>
    have hlive : s.thread.live = true := by rw [ht]; rfl
    simp only [Sys.runThread, ht]
    split
    · exact h.leaves hlive (.inr rfl) (h.stop hlive ‹_›) h.log
    · exact h.stays hlive rfl (by simp [Thread.dozing])
  | started =>
    simp only [Sys.runThread, ht]
    exact h.stays (by rw [ht]; rfl) rfl (by simp [Thread.dozing, Waiter.dozing])
  | waiting t =>
    have hlive : s.thread.live = true := by rw [ht]; rfl
    simp only [Sys.runThread, ht]
    cases hadv : t.advance s.told with
    | none =>
      have hflag := h.flag_of_told hlive (Waiter.cond_of_advance_eq_none hadv)
      exact h.leaves hlive (.inl rfl) hflag h.log
    | some t' =>
      refine h.stays hlive rfl fun hd => ?_
      rcases Waiter.dozing_of_advance hadv hd with hdoze | hcond
      · exact .inl (by rw [ht]; exact hdoze)
      · exact .inr (Bool.or_eq_false_iff.mp hcond).1
  | woken =>
    have hflag := h.woken ht
    simp only [Sys.runThread, ht]
    refine h.leaves (by rw [ht]; rfl) (.inr rfl) hflag fun m hm => ?_
    rcases List.mem_cons.mp hm with rfl | hm
    · exact hflag
    · exact h.log m hm

/-- Only the `task_struct` of a thread that is over is freed. -/
theorem Inv.reap {s : Sys} (h : Inv s) (hover : s.thread = .exited) :
    Inv { s with freed := true } where
  ended := h.ended
  freed _ := by
    rw [hover]
    rfl
  fresh hp := by
    obtain ⟨-, hheld, -⟩ := h.fresh hp
    rw [hover] at hheld
    contradiction
  quiet := h.quiet
  told := h.told
  aware := h.aware
  stop := h.stop
  woken := h.woken
  log := h.log

/-- **Every step keeps the invariant.** -/
theorem Inv.step {s : Sys} (h : Inv s) (a : Act) : Inv (Kthread.step s a) := by
  cases a with
  | init failure => exact h.init failure
  | exit => exact h.exit
  | thread => exact h.runThread
  | reap =>
    simp only [Kthread.step]
    split
    · exact h.reap ‹s.Loose›.1
    · exact h

theorem inv_run (acts : List Act) : Inv (run step Sys.start acts) :=
  run_invariant step (fun _ a hs => hs.step a) acts inv_start

/-- **The thread does not outlive its module**, leaves its wait only when the module is being
unloaded, and its message always says that the flag is set. -/
theorem my_thread_confined (acts : List Act) :
    let s := run step Sys.start acts
    (s.phase = .absent → s.thread.live = false) ∧
      (s.thread = .woken → s.phase.exiting = true) ∧ ∀ m ∈ s.log, m.1 = true := by
  intro s
  have h : Inv s := inv_run acts
  refine ⟨fun hp => h.ended (.inl hp), fun hw => ?_, h.log⟩
  have hlive : s.thread.live ≠ false := by
    rw [hw]
    simp [Thread.live]
  rw [← Bool.not_eq_false]
  intro hquiet
  have hclear := h.quiet hquiet fun hp => hlive (h.ended (.inl hp))
  exact absurd (h.woken hw) (by simp [hclear])

end Kthread

end KernelModules
