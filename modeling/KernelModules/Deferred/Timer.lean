import KernelModules.Deferred.Monitor

/-!
# One timer for three kinds of requests

The module has one timer and one `flag`. Each request stores its kind and sets the timer
over whatever it was set to before, and the handler looks at `flag` to know what it has
been called for.

Requests made one after the other are served as the last of them says
(`KernelModules.Deferred.monitoring_kept`): a list that is watched over is so until a
request of another kind comes. Requests that overlap are a different matter, since the
store of `flag` and `mod_timer` are two steps. What is needed for each expiry to be served
as the request that has set it, no more and no less, is that `flag` is stored over nothing
of another kind: `KernelModules.Deferred.Uncrossed`.
-/

namespace KernelModules

namespace Deferred

variable {w : ℕ}

/-! ### Requests made one after the other -/

/-- A request that succeeds, or the timer that expires, from beginning to end. -/
inductive Op (w : ℕ) where
  /-- `MY_IOCTL_TIMER_SET`. -/
  | set (arg now : BitVec w) : Op w
  /-- `MY_IOCTL_TIMER_ALLOC`. -/
  | alloc (arg now : BitVec w) : Op w
  /-- `MY_IOCTL_TIMER_MON`, with the task found. -/
  | mon (arg : BitVec w) (t : ℕ) (now : BitVec w) : Op w
  /-- The timer expires, if it is pending, and the handler runs. -/
  | expire (deaths : List (List ℕ)) (now : BitVec w) : Op w

/-- What a request sets the timer for. -/
def Op.kind : Op w → Option TimerType
  | .set _ _ => some .set
  | .alloc _ _ => some .alloc
  | .mon _ _ _ => some .mon
  | .expire _ _ => none

/-- The steps, for a request that is call `n`. -/
def Op.acts (n : ℕ) : Op w → List (Act w)
  | .set arg now => .ioctl n (.timerSet arg) :: List.replicate 2 (.call n ⟨none, true, now⟩)
  | .alloc arg now => .ioctl n (.timerAlloc arg) :: List.replicate 2 (.call n ⟨none, true, now⟩)
  | .mon arg t now => .ioctl n (.timerMon arg) :: List.replicate 8 (.call n ⟨some t, true, now⟩)
  | .expire deaths now => .fire :: List.replicate 3 (.handle deaths now)

/-- **From beginning to end**: the requests are calls 0, 1, 2 and so on. -/
def perform (hz : BitVec w) (s : Sys w × ℕ) (op : Op w) : Sys w × ℕ :=
  (run (step hz) s.1 (op.acts s.2), s.2 + 1)

/-- The device, just loaded and open. -/
def Sys.opened : Sys w := { Sys.loaded with files := 1 }

/-- The kind of the last request. -/
def lastKind (ops : List (Op w)) : Option TimerType := (ops.filterMap Op.kind).getLast?

theorem lastKind_concat (ops : List (Op w)) (op : Op w) :
    lastKind (ops ++ [op]) = op.kind.or (lastKind ops) := by
  cases hk : op.kind with
  | none => simp [lastKind, hk]
  | some ty => simp [lastKind, hk]

/-- Nothing is going on: the next call may be made. -/
structure Quiet (s : Sys w) (n : ℕ) : Prop where
  files : s.files ≠ 0
  ready : s.timerReady = true
  handler : s.handler = .idle
  exited : s.exited = []
  freed : s.freed = []
  calls : ∀ c, n ≤ c → s.calls c = none

/-- What a request leaves. -/
structure Served (s' : Sys w) (n : ℕ) (list : List ℕ) (ty : TimerType) : Prop where
  quiet : Quiet s' (n + 1)
  returned : s'.calls n = some (.returned 0)
  list : s'.list = list
  flag : s'.flag = ty
  pending : ∃ e, s'.pending = some e

theorem calls_fresh {s : Sys w} {n : ℕ} (h : Quiet s n) (pc : Option (Pc w)) :
    ∀ c, n + 1 ≤ c → Function.update s.calls n pc c = none := by
  intro c hc
  rw [Function.update_of_ne (by omega), h.calls c (by omega)]

/-- The end of each request: the store of `flag` and `mod_timer`. -/
theorem run_arm (hz : BitVec w) {s : Sys w} {n : ℕ} {ty : TimerType} {delay : BitVec w}
    (hc : s.calls n = some (.setFlag ty delay)) (hready : s.timerReady = true) (env : Env w) :
    run (step hz) s (List.replicate 2 (.call n env)) =
      { s with
        calls := Function.update s.calls n (some (.returned 0))
        active := s.active.filter (· ≠ n)
        flag := ty
        pending := some ⟨env.now + delay, ty⟩ } := by
  simp only [List.replicate, run_cons, run_nil, step, hc, stepCall, Sys.setPc,
    Function.update_self, Sys.modTimer_eq, hready, if_true, Sys.ret, Function.update_idem]

/-- The beginning of a request to monitor: the task is found and its entry linked. -/
theorem run_link (hz : BitVec w) {s : Sys w} {n : ℕ} (h : Quiet s n) (arg : BitVec w) (t : ℕ)
    (now : BitVec w) :
    run (step hz) s (.ioctl n (.timerMon arg) :: List.replicate 6 (.call n ⟨some t, true, now⟩)) =
      { s with
        calls := Function.update s.calls n (some (.setFlag .mon hz))
        active := n :: s.active
        list := t :: s.list
        refs := Function.update s.refs t (s.refs t + 1)
        readers := s.readers.filter (· ≠ n) } := by
  have hlookup : run (step hz) s
      (.ioctl n (.timerMon arg) :: List.replicate 2 (.call n ⟨some t, true, now⟩)) =
      { s with
        calls := Function.update s.calls n (some (.rcuUnlock (some t)))
        active := n :: s.active
        readers := n :: s.readers } := by
    simp only [List.replicate, run_cons, run_nil, step, ne_eq, h.files, not_false_eq_true,
      h.calls n le_rfl, and_self, if_true, enter, Sys.setPc, Function.update_self, stepCall,
      Function.update_idem]
    rw [Option.filter_some_pos]
    simp [Sys.Present, h.exited, h.freed]
  rw [show 6 = 2 + 4 from rfl, List.replicate_add, ← List.cons_append, run_append, hlookup]
  simp [List.replicate, step, Sys.setPc, stepCall]

/-- A request, seen from where its call is about to store `flag`. -/
theorem Quiet.served {s s' : Sys w} {n : ℕ} {list : List ℕ} {ty : TimerType}
    (h : Quiet s n) (delay : BitVec w)
    (hcalls : s'.calls = Function.update s.calls n (some (.setFlag ty delay)))
    (hlist : s'.list = list)
    (hfiles : s'.files = s.files) (hready : s'.timerReady = s.timerReady)
    (hhandler : s'.handler = s.handler) (hexited : s'.exited = s.exited)
    (hfreed : s'.freed = s.freed) (hz : BitVec w) (env : Env w) :
    Served (run (step hz) s' (List.replicate 2 (.call n env))) n list ty := by
  rw [run_arm hz (by rw [hcalls, Function.update_self]) (by rw [hready, h.ready])]
  refine ⟨⟨?_, ?_, ?_, ?_, ?_, ?_⟩, ?_, hlist, rfl, _, rfl⟩
  · exact hfiles.symm ▸ h.files
  · exact hready.trans h.ready
  · exact hhandler.trans h.handler
  · exact hexited.trans h.exited
  · exact hfreed.trans h.freed
  · simp only [hcalls, Function.update_idem]
    exact calls_fresh h _
  · simp

theorem perform_set (hz : BitVec w) {s : Sys w} {n : ℕ} (h : Quiet s n) (arg now : BitVec w) :
    Served (perform hz (s, n) (.set arg now)).1 n s.list .set := by
  simp only [perform, Op.acts, run_cons, step, ne_eq, h.files, not_false_eq_true,
    h.calls n le_rfl, and_self, if_true, enter, Sys.setPc]
  refine h.served (arg * hz) ?_ ?_ ?_ ?_ ?_ ?_ ?_ hz _ <;> rfl

theorem perform_alloc (hz : BitVec w) {s : Sys w} {n : ℕ} (h : Quiet s n) (arg now : BitVec w) :
    Served (perform hz (s, n) (.alloc arg now)).1 n s.list .alloc := by
  simp only [perform, Op.acts, run_cons, step, ne_eq, h.files, not_false_eq_true,
    h.calls n le_rfl, and_self, if_true, enter, Sys.setPc]
  refine h.served (arg * hz) ?_ ?_ ?_ ?_ ?_ ?_ ?_ hz _ <;> rfl

theorem perform_mon (hz : BitVec w) {s : Sys w} {n : ℕ} (h : Quiet s n) (arg : BitVec w) (t : ℕ)
    (now : BitVec w) : Served (perform hz (s, n) (.mon arg t now)).1 n (t :: s.list) .mon := by
  simp only [perform, Op.acts]
  rw [show 8 = 6 + 2 from rfl, List.replicate_add, ← List.cons_append, run_append, run_link hz h]
  refine h.served hz ?_ ?_ ?_ ?_ ?_ ?_ ?_ hz _ <;> rfl

/-- The timer is not pending: nothing happens. -/
theorem perform_expire_none (hz : BitVec w) {s : Sys w} {n : ℕ} (h : Quiet s n)
    (hp : s.pending = none) (deaths : List (List ℕ)) (now : BitVec w) :
    (perform hz (s, n) (.expire deaths now)).1 = s := by
  simp [perform, Op.acts, List.replicate, step, hp, h.handler, stepHandler]

/-- What the handler leaves of the list, and of the timer. -/
theorem perform_expire (hz : BitVec w) {s : Sys w} {n : ℕ} (h : Quiet s n) {e : Expiry w}
    (hp : s.pending = some e) (deaths : List (List ℕ)) (now : BitVec w) :
    Quiet (perform hz (s, n) (.expire deaths now)).1 (n + 1) ∧
    (perform hz (s, n) (.expire deaths now)).1.flag = s.flag ∧
    if s.flag = .mon then
      (perform hz (s, n) (.expire deaths now)).1.list = kept deaths s.dead s.list ∧
        (perform hz (s, n) (.expire deaths now)).1.pending.isSome = true
    else (perform hz (s, n) (.expire deaths now)).1.list = s.list := by
  have hlater : ∀ c, n + 1 ≤ c → s.calls c = none := fun c hc => h.calls c (by omega)
  cases hflag : s.flag with
  | none | set =>
    simp only [perform, Op.acts, List.replicate, run_cons, run_nil, step, hp, h.handler,
      stepHandler, hflag, switch]
    exact ⟨⟨h.files, h.ready, rfl, h.exited, h.freed, hlater⟩, trivial, by simp⟩
  | alloc =>
    simp only [perform, Op.acts, List.replicate, run_cons, run_nil, step, hp, h.handler,
      stepHandler, hflag, switch, Sys.scheduleWork_eq]
    exact ⟨⟨h.files, h.ready, rfl, h.exited, h.freed, hlater⟩, trivial, by simp⟩
  | mon =>
    simp only [perform, Op.acts, List.replicate, run_cons, run_nil, step, hp, h.handler,
      stepHandler, hflag, switch, Sys.modTimer_eq, h.ready, sweep_list]
    exact ⟨⟨h.files, rfl, rfl, h.exited, h.freed, hlater⟩, trivial, by simp⟩

/-- **While the last request is one to monitor, the list is watched over.** -/
structure Watched (s : Sys w × ℕ) (last : Option TimerType) : Prop where
  quiet : Quiet s.1 s.2
  flag : s.1.flag = last.getD .none
  unasked : last = none → s.1.list = []
  pending : last = some .mon → s.1.pending.isSome = true

theorem watched_opened : Watched ((Sys.opened : Sys w), 0) (lastKind ([] : List (Op w))) where
  quiet := ⟨by simp [Sys.opened], rfl, rfl, rfl, rfl, fun _ _ => rfl⟩
  flag := rfl
  unasked _ := rfl
  pending h := absurd h (by simp [lastKind])

/-- A request, one after the others. -/
theorem Served.watched {s' : Sys w} {n : ℕ} {list : List ℕ} {ty : TimerType}
    (h : Served s' n list ty) : Watched (s', n + 1) (some ty) where
  quiet := h.quiet
  flag := h.flag
  unasked hn := absurd hn (by simp)
  pending _ := by
    obtain ⟨e, he⟩ := h.pending
    simp [he]

theorem Watched.perform {s : Sys w × ℕ} {last : Option TimerType} (h : Watched s last)
    (hz : BitVec w) (op : Op w) : Watched (perform hz s op) (op.kind.or last) := by
  obtain ⟨s, n⟩ := s
  cases op with
  | set arg now => exact (perform_set hz h.quiet arg now).watched
  | alloc arg now => exact (perform_alloc hz h.quiet arg now).watched
  | mon arg t now => exact (perform_mon hz h.quiet arg t now).watched
  | expire deaths now =>
    rw [Op.kind, Option.none_or]
    rcases hp : s.pending with - | e
    · have hsame := perform_expire_none hz h.quiet hp deaths now
      refine ⟨?_, by rw [hsame]; exact h.flag, by rw [hsame]; exact h.unasked,
        by rw [hsame]; exact h.pending⟩
      rw [hsame]
      exact ⟨h.quiet.files, h.quiet.ready, h.quiet.handler, h.quiet.exited, h.quiet.freed,
        fun c hc => h.quiet.calls c (Nat.le_of_succ_le hc)⟩
    · obtain ⟨hquiet, hflag, hswept⟩ := perform_expire hz h.quiet hp deaths now
      refine ⟨hquiet, hflag.trans h.flag, fun hlast => ?_, fun hlast => ?_⟩
      · have hne : s.flag ≠ .mon := by
          rw [h.flag, hlast]
          simp
        rw [if_neg hne] at hswept
        exact hswept.trans (h.unasked hlast)
      · have heq : s.flag = .mon := by
          rw [h.flag, hlast]
          rfl
        rw [if_pos heq] at hswept
        exact hswept.2

theorem watched_run (hz : BitVec w) (ops : List (Op w)) :
    Watched (run (perform hz) (Sys.opened, 0) ops) (lastKind ops) := by
  induction ops using List.reverseRecOn with
  | nil => exact watched_opened
  | append_singleton ops op ih =>
    rw [run_append, lastKind_concat]
    exact ih.perform hz op

theorem Watched.returned {s : Sys w × ℕ} {last : Option TimerType} (h : Watched s last)
    (hz : BitVec w) {op : Op w} (hop : op.kind ≠ none) :
    (Deferred.perform hz s op).1.calls s.2 = some (.returned 0) := by
  cases op with
  | set arg now => exact (perform_set hz h.quiet arg now).returned
  | alloc arg now => exact (perform_alloc hz h.quiet arg now).returned
  | mon arg t now => exact (perform_mon hz h.quiet arg t now).returned
  | expire deaths now => exact absurd rfl hop

/-- **The last request decides.** After any requests and expiries, one after the other, each
request returning 0, and with a list that is not empty: the timer is pending and `flag` is
`TIMER_TYPE_MON` exactly if the last request was one to monitor, and then the next expiry
inspects every task on the list. -/
theorem monitoring_kept (hz : BitVec w) (ops : List (Op w)) :
    let s := run (perform hz) (Sys.opened, 0) ops
    (∀ op, op.kind ≠ none → (perform hz s op).1.calls s.2 = some (.returned 0)) ∧
    (s.1.list ≠ [] →
      (s.1.pending.isSome = true ∧ s.1.flag = .mon ↔ lastKind ops = some .mon) ∧
      (lastKind ops = some .mon → ∀ deaths now,
        (perform hz s (.expire deaths now)).1.list = kept deaths s.1.dead s.1.list)) := by
  intro s
  have h : Watched s (lastKind ops) := watched_run hz ops
  refine ⟨fun op => h.returned hz, fun hlist => ?_⟩
  have hflag : lastKind ops = some .mon → s.1.flag = .mon := fun hlast => by
    rw [h.flag, hlast]
    rfl
  refine ⟨⟨fun hmon => ?_, fun hlast => ⟨h.pending hlast, hflag hlast⟩⟩, fun hlast deaths now => ?_⟩
  · rcases hlast : lastKind ops with - | ty
    · exact absurd (h.unasked hlast) hlist
    · rw [← hmon.2, h.flag, hlast]
      rfl
  · obtain ⟨e, hp⟩ := Option.isSome_iff_exists.mp (h.pending hlast)
    have hswept := (perform_expire hz h.quiet hp deaths now).2.2
    rw [if_pos (hflag hlast)] at hswept
    exact hswept.1

/-- The process with pid 7 is to be monitored, then a message printed in 5 seconds. -/
theorem monitoring_dropped :
    ¬∀ ops : List (Op 64),
      let s := (run (perform 100) (Sys.opened, 0) ops).1
      s.list ≠ [] → s.pending.isSome = true ∧ s.flag = .mon := by
  intro h
  exact absurd (h [.mon 7 7 0, .set 5 0]) (by decide)

/-- A request to monitor, after one for a message. -/
theorem monitoring_kept_last :
    let s := (run (perform (100 : BitVec 64)) (Sys.opened, 0) [.set 5 0, .mon 7 7 0]).1
    s.list = [7] ∧ s.pending.isSome = true ∧ s.flag = .mon :=
  ⟨by decide, ((monitoring_kept 100 [.set 5 0, .mon 7 7 0]).2 (by decide)).1.mpr rfl⟩

/-! ### Requests that overlap -/

/-- **Each expiry is served as the request that has set it**: a handler that starts finds
its kind in `flag`, and a handler that sets the timer again sets it over nothing but a
request to monitor. -/
def Serves (s : Sys w) : Act w → Prop
  | .handle _ _ =>
    (∀ ty, s.handler = .start ty → s.flag = ty) ∧
    (s.handler = .rearm → ∀ e, s.pending = some e → e.by_ = .mon)
  | _ => True

/-- Everything that goes on is of one kind: the expiry that is pending, the calls about to
set one, the expiry being served. -/
structure Alike (s : Sys w) (ty : TimerType) : Prop where
  pending : ∀ e, s.pending = some e → e.by_ = ty
  calls : ∀ c ty' delay, s.calls c = some (.modTimer ty' delay) → ty' = ty
  start : ∀ ty', s.handler = .start ty' → ty' = ty
  again : s.handler = .sweep ∨ s.handler = .rearm → ty = .mon

/-- **`flag` is stored over nothing of another kind.** -/
def Uncrossed (s : Sys w) : Act w → Prop
  | .call c _ => ∀ ty delay, s.calls c = some (.setFlag ty delay) → Alike s ty
  | _ => True

/-- The module has been loaded. -/
structure Running (s : Sys w) : Prop where
  ready : s.timerReady = true
  phase : s.phase = .loaded ∨ s.phase.leaving = true

theorem running_loaded : Running (Sys.loaded : Sys w) := ⟨rfl, .inl rfl⟩

theorem Step.running {hz : BitVec w} {s s' : Sys w} {a : Act w} (hs : Step hz s a s')
    (h : Running s) : Running s' := by
  cases hs with
  | phase hp =>
    refine ⟨h.ready, .inr ?_⟩
    have hphase := h.phase
    generalize s.phase = q at hp hphase
    cases hp with
    | failed | register | initList | cdevAdd | deviceCreate => simp [Phase.leaving] at hphase
    | unload | deviceDestroy | cdevDel | unregister | flush | flushed => rfl
  | initFlag hp | initWork hp | timerSetup hp =>
    have hphase := h.phase
    simp [hp, Phase.leaving] at hphase
  | timerDelete hp | drop hp => exact ⟨h.ready, .inr rfl⟩
  | modTimer | rearm =>
    rw [Sys.modTimer_eq]
    exact ⟨h.ready, h.phase⟩
  | schedule =>
    rw [Sys.scheduleWork_eq]
    exact ⟨h.ready, h.phase⟩
  | stutter | openFile | closeFile | other | ioctl | rcuLock | lookup | missed | rcuUnlock | kmalloc
  | nomem | getTask | insert | setFlag | cancel | fire | switch | sweep | workBegin | workEnd | dies
  | exits | frees => exact ⟨h.ready, h.phase⟩

/-- The calls about to set the timer, when one of them moves. -/
theorem alike_calls {calls : ℕ → Option (Pc w)} {ty : TimerType} {c : ℕ} {pc : Pc w}
    (h : ∀ c ty' delay, calls c = some (.modTimer ty' delay) → ty' = ty)
    (hpc : ∀ ty' delay, pc = .modTimer ty' delay → ty' = ty) :
    ∀ d ty' delay, Function.update calls c (some pc) d = some (.modTimer ty' delay) → ty' = ty := by
  intro d ty' delay hd
  exact forall_update (P := fun _ q => ∀ ty' delay, q = .modTimer ty' delay → ty' = ty)
    (fun d _ q hd ty' delay hq => h d ty' delay (hd.trans (congrArg some hq))) hpc d _ hd ty' delay
    rfl

theorem switch_ne_start (flag ty : TimerType) : switch flag ≠ .start ty := by
  cases flag with
  | none | set | alloc | mon => simp [switch]

theorem switch_again {flag : TimerType} (h : switch flag = .sweep ∨ switch flag = .rearm) :
    flag = .mon := by
  cases flag with
  | none | set | alloc => simp [switch] at h
  | mon => rfl

/-- **What goes on stays as `flag` says.** -/
theorem Step.alike {hz : BitVec w} {s s' : Sys w} {a : Act w} (hs : Step hz s a s')
    (hrun : Running s) (hok : Uncrossed s a) (h : Alike s s.flag) : Alike s' s'.flag := by
  cases hs with
  | initFlag hp =>
    have hphase := hrun.phase
    simp [hp, Phase.leaving] at hphase
  | timerDelete => exact ⟨fun e he => absurd he (by simp), h.calls, h.start, h.again⟩
  | other hf hc =>
    exact ⟨h.pending, alike_calls h.calls (by simp), h.start, h.again⟩
  | @ioctl c cmd hf hc hcmd =>
    refine ⟨h.pending, alike_calls h.calls ?_, h.start, h.again⟩
    cases cmd with
    | timerSet | timerCancel | timerAlloc | timerMon | other => simp [enter]
  | rcuLock hc | lookup hc | missed hc | rcuUnlock hc | kmalloc hc | nomem hc | getTask hc
  | insert hc => exact ⟨h.pending, alike_calls h.calls (by simp), h.start, h.again⟩
  | @setFlag c env ty delay hc =>
    have hty : Alike s ty := hok ty delay hc
    refine ⟨hty.pending, alike_calls hty.calls ?_, hty.start, hty.again⟩
    intro ty' delay' he
    exact ((Pc.modTimer.injEq ..).mp he).1.symm
  | @modTimer c env ty delay hc =>
    rw [Sys.modTimer_eq]
    refine ⟨fun e he => ?_, alike_calls h.calls (by simp), h.start, h.again⟩
    simp only [Sys.ret, hrun.ready, if_true, Option.some.injEq] at he
    rw [← he]
    exact h.calls c ty delay hc
  | cancel hc hh =>
    exact ⟨fun e he => absurd he (by simp), alike_calls h.calls (by simp), h.start, h.again⟩
  | @fire e hp hh =>
    refine ⟨fun e he => absurd he (by simp), h.calls, fun ty' hty => ?_, fun hag => ?_⟩
    · rw [← Handler.start.inj hty]
      exact h.pending e hp
    · simp at hag
  | switch hh =>
    exact ⟨h.pending, h.calls, fun ty' hty => absurd hty (switch_ne_start _ _), switch_again⟩
  | schedule hh =>
    rw [Sys.scheduleWork_eq]
    exact ⟨h.pending, h.calls, by simp, by simp⟩
  | sweep hh => exact ⟨h.pending, h.calls, by simp, fun _ => h.again (.inl hh)⟩
  | rearm hh =>
    rw [Sys.modTimer_eq]
    refine ⟨fun e he => ?_, h.calls, by simp, by simp⟩
    simp only [hrun.ready, if_true, Option.some.injEq] at he
    rw [← he]
    exact (h.again (.inr hh)).symm
  | stutter | phase | initWork | timerSetup | drop | openFile | closeFile | workBegin | workEnd
  | dies | exits | frees => exact ⟨h.pending, h.calls, h.start, h.again⟩

theorem Alike.serves {s : Sys w} (h : Alike s s.flag) (a : Act w) : Serves s a := by
  cases a with
  | handle deaths now =>
    exact ⟨fun ty hty => (h.start ty hty).symm,
      fun hh e he => (h.pending e he).trans (h.again (.inr hh))⟩
  | load | unload | openFile | closeFile | ioctl | call | fire | workBegin | workEnd | dies | exits
  | frees => trivial

theorem alike_loaded : Alike (Sys.loaded : Sys w) (Sys.loaded : Sys w).flag where
  pending e he := absurd he (by simp [Sys.loaded, Sys.start])
  calls c ty' delay hc := absurd hc (by simp [Sys.loaded, Sys.start])
  start ty' hty := absurd hty (by simp [Sys.loaded, Sys.start])
  again hag := absurd hag (by simp [Sys.loaded, Sys.start])

/-! ### Where a crossing leads -/

/-- A handler that starts for a request of another kind than `flag`. -/
theorem misserved_start (hz : BitVec w) {s : Sys w} {ty : TimerType} (hh : s.handler = .start ty)
    (hne : s.flag ≠ ty) : ∃ more, ¬Along (step hz) Serves s more :=
  ⟨[.handle [] 0], fun h => hne (h.1.1 ty hh)⟩

/-- A handler that is about to set the timer over a request of another kind. -/
theorem misserved_rearm (hz : BitVec w) {s : Sys w} {e : Expiry w} (hh : s.handler = .rearm)
    (hp : s.pending = some e) (hne : e.by_ ≠ .mon) : ∃ more, ¬Along (step hz) Serves s more :=
  ⟨[.handle [] 0], fun h => hne (h.1.2 hh e hp)⟩

/-- An expiry of another kind than `flag`, with the handler at rest. -/
theorem misserved_idle (hz : BitVec w) {s : Sys w} {e : Expiry w} (hh : s.handler = .idle)
    (hp : s.pending = some e) (hne : e.by_ ≠ s.flag) :
    ∃ more, ¬Along (step hz) Serves s more := by
  refine exists_not_along_cons (step hz) .fire ?_
  simp only [step, hp, hh]
  exact misserved_start hz rfl hne.symm

/-- **An expiry of another kind than `flag` is not served as it should be**, wherever the
handler stands. -/
theorem misserved_pending (hz : BitVec w) {s : Sys w} {e : Expiry w} (hready : s.timerReady = true)
    (hp : s.pending = some e) (hne : e.by_ ≠ s.flag) :
    ∃ more, ¬Along (step hz) Serves s more := by
  -- the handler that is about to set the timer again either replaces it or makes it
  -- `TIMER_TYPE_MON`
  have hrearm : ∀ {s : Sys w}, s.timerReady = true → s.pending = some e → e.by_ ≠ s.flag →
      s.handler = .rearm → ∃ more, ¬Along (step hz) Serves s more := by
    intro s hready hp hne hh
    by_cases hmon : e.by_ = .mon
    · refine exists_not_along_cons (step hz) (.handle [] 0) ?_
      simp only [step, hh, stepHandler, Sys.modTimer, hready, if_true]
      exact misserved_idle hz rfl rfl (hmon ▸ hne)
    · exact misserved_rearm hz hh hp hmon
  have hsweep : ∀ {s : Sys w}, s.timerReady = true → s.pending = some e → e.by_ ≠ s.flag →
      s.handler = .sweep → ∃ more, ¬Along (step hz) Serves s more := by
    intro s hready hp hne hh
    refine exists_not_along_cons (step hz) (.handle [] 0) ?_
    simp only [step, hh, stepHandler]
    exact hrearm hready hp hne rfl
  have hschedule : ∀ {s : Sys w}, s.pending = some e → e.by_ ≠ s.flag →
      s.handler = .schedule → ∃ more, ¬Along (step hz) Serves s more := by
    intro s hp hne hh
    refine exists_not_along_cons (step hz) (.handle [] 0) ?_
    simp only [step, hh, stepHandler, Sys.scheduleWork_eq]
    exact misserved_idle hz rfl hp hne
  cases hh : s.handler with
  | idle => exact misserved_idle hz hh hp hne
  | start ty =>
    refine exists_not_along_cons (step hz) (.handle [] 0) ?_
    simp only [step, hh, stepHandler]
    cases hflag : s.flag with
    | none | set => exact misserved_idle hz (by simp only [switch]) hp (by simpa [hflag] using hne)
    | alloc => exact hschedule hp (by simpa [hflag] using hne) (by simp only [switch])
    | mon => exact hsweep hready hp (by simpa [hflag] using hne) (by simp only [switch])
  | schedule => exact hschedule hp hne hh
  | sweep => exact hsweep hready hp hne hh
  | rearm => exact hrearm hready hp hne hh

/-- A call that is about to set the timer does. -/
theorem step_modTimer (hz : BitVec w) {s : Sys w} {c : ℕ} {ty : TimerType} {delay : BitVec w}
    (hc : s.calls c = some (.modTimer ty delay)) (hready : s.timerReady = true) (env : Env w) :
    step hz s (.call c env) = { s with pending := some ⟨env.now + delay, ty⟩ }.ret c 0 := by
  simp only [step, hc, stepCall, Sys.modTimer, hready, if_true]

/-- A call about to set the timer for another kind than `flag`. -/
theorem misserved_call (hz : BitVec w) {s : Sys w} {c : ℕ} {ty : TimerType} {delay : BitVec w}
    (hready : s.timerReady = true) (hc : s.calls c = some (.modTimer ty delay))
    (hne : ty ≠ s.flag) : ∃ more, ¬Along (step hz) Serves s more := by
  refine exists_not_along_cons (step hz) (.call c ⟨none, false, 0⟩) ?_
  rw [step_modTimer hz hc hready]
  exact misserved_pending hz hready rfl hne

/-- A call about to set the timer for something else than to monitor, during a sweep. -/
theorem misserved_again (hz : BitVec w) {s : Sys w} {c : ℕ} {ty : TimerType} {delay : BitVec w}
    (hready : s.timerReady = true) (hc : s.calls c = some (.modTimer ty delay))
    (hh : s.handler = .sweep ∨ s.handler = .rearm) (hne : ty ≠ .mon) :
    ∃ more, ¬Along (step hz) Serves s more := by
  refine exists_not_along_cons (step hz) (.call c ⟨none, false, 0⟩) ?_
  rw [step_modTimer hz hc hready]
  rcases hh with hh | hh
  · refine exists_not_along_cons (step hz) (.handle [] 0) ?_
    simp only [step, Sys.ret, hh, stepHandler]
    exact misserved_rearm hz rfl rfl hne
  · exact misserved_rearm hz hh rfl hne

/-- **A store of `flag` over something of another kind leads to an expiry that is not
served as it should be.** -/
theorem misserved_crossed (hz : BitVec w) {s : Sys w} (hready : s.timerReady = true) {a : Act w}
    (ha : ¬Uncrossed s a) : ∃ more, ¬Along (step hz) Serves (step hz s a) more := by
  cases a with
  | call c env =>
    simp only [Uncrossed, not_forall] at ha
    obtain ⟨ty, delay, hc, hcross⟩ := ha
    simp only [step, hc, stepCall]
    by_contra hserves
    -- the store done, each of the four would lead there
    refine hcross ⟨fun e he => ?_, fun d ty' delay' hd => ?_, fun ty' hh => ?_, fun hh => ?_⟩
    · by_contra hne
      exact hserves (misserved_pending hz hready he hne)
    · by_contra hne
      have hdc : d ≠ c := fun heq => absurd (hd.symm.trans (heq ▸ hc)) (by simp)
      exact hserves (misserved_call hz hready ((Function.update_of_ne hdc ..).trans hd) hne)
    · by_contra hne
      exact hserves (misserved_start hz hh (Ne.symm hne))
    · by_contra hne
      exact hserves (misserved_again hz hready (Function.update_self ..) hh hne)
  | load | unload | openFile | closeFile | ioctl | fire | handle | workBegin | workEnd | dies
  | exits | frees => exact absurd trivial ha

/-- **Each expiry is served as the request that has set it, as long as requests do not
cross**: in every run in which `flag` is only ever stored while the expiry that is pending,
the calls about to set one and the handler are all of the kind being stored. A store that
finds one of another kind can be followed by a handler that starts with the wrong `flag`, or
that replaces the expiry of another request. -/
theorem serves_exact (hz : BitVec w) :
    (∀ acts, Along (step hz) Uncrossed Sys.loaded acts →
      Along (step hz) Serves Sys.loaded acts) ∧
    ∀ acts a, ¬Uncrossed (run (step hz) Sys.loaded acts) a →
      ∃ more, ¬Along (step hz) Serves Sys.loaded (acts ++ a :: more) := by
  refine ⟨fun acts hok => ?_, fun acts a ha => ?_⟩
  · refine along_of_invariant (step hz) (I := fun s => Running s ∧ Alike s s.flag) ?_ ?_ acts hok
      ⟨running_loaded, alike_loaded⟩
    · intro s a hok h
      have hs := step_cases hz s a
      exact ⟨hs.running h.1, hs.alike h.1 hok h.2⟩
    · exact fun s a _ h => h.2.serves a
  · have hrun : Running (run (step hz) Sys.loaded acts) :=
      run_invariant (step hz) (fun s a => (step_cases hz s a).running) acts running_loaded
    exact exists_not_along_of_next (step hz) (misserved_crossed hz hrun.ready ha)

/-- A request for a message and a request for work cross: the timer of the first is set,
and expires, with the `flag` of the second. -/
theorem serves_crossed :
    ¬∀ acts : List (Act 64), Along (step 100) Serves Sys.loaded acts := by
  intro h
  have hrun := h ([Act.openFile, Act.ioctl 0 (.timerSet 1), Act.ioctl 1 (.timerAlloc 5),
    Act.call 0 ⟨none, true, 0⟩, Act.call 1 ⟨none, true, 0⟩, Act.call 0 ⟨none, true, 0⟩, Act.fire]
      ++ [Act.handle [] 100])
  have hstart := ((along_append (step 100)).mp hrun).2.1.1
  exact absurd (hstart .set rfl) (by decide)

/-- A message is asked for, the timer expires and is served. -/
theorem serves_alone :
    Along (step (100 : BitVec 64)) Serves Sys.loaded
      [.openFile, .ioctl 0 (.timerSet 1), .call 0 ⟨none, true, 0⟩, .call 0 ⟨none, true, 0⟩, .fire,
        .handle [] 100] := by
  refine (serves_exact 100).1 _ ⟨trivial, trivial, fun ty delay hc => ⟨fun e he => ?_,
    fun c ty' delay' hd => ?_, fun ty' hh => ?_, fun hh => absurd hh (by decide)⟩,
    fun ty delay hc => ?_, trivial, trivial, trivial⟩
  · simp [step, Sys.loaded, Sys.start, Phase.published, Sys.setPc] at he
  · simp [step, Sys.loaded, Sys.start, Phase.published, Sys.setPc, enter, Function.update_apply]
      at hd
  · simp [step, Sys.loaded, Sys.start, Phase.published, Sys.setPc] at hh
  · simp [step, Sys.loaded, Sys.start, Phase.published, Sys.setPc, enter, stepCall] at hc

end Deferred

end KernelModules
