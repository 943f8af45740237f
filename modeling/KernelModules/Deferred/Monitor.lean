import Mathlib.Data.Set.Card
import Mathlib.Tactic.Ring
import KernelModules.Lib.Census
import KernelModules.Deferred.Device

/-!
# The references to monitored tasks

A monitored task is kept by a reference, which `get_proc` takes and which goes with the
entry of the list: the handler drops it when it finds the task dead, `deferred_exit`
drops those that are left. Between `get_task_struct` and the locked section that links
the entry, the reference belongs to the call.

No step changes the balance (`KernelModules.Deferred.Step.balance`): what is held, less
what the list and the calls account for.
-/

namespace KernelModules

namespace Deferred

variable {w : ℕ}

/-! ### The loops over the list -/

/-- The tasks dead by the time the handler inspects entry `i` of the list. -/
def deadAt (deaths : List (List ℕ)) (dead : List ℕ) (i : ℕ) : List ℕ :=
  (deaths.take (i + 1)).flatten ++ dead

/-- The entries a sweep is to keep: those whose task is not dead when it is inspected. -/
def kept (deaths : List (List ℕ)) (dead list : List ℕ) : List ℕ :=
  (list.zipIdx.filter fun e => e.1 ∉ deadAt deaths dead e.2).map Prod.fst

theorem mem_deadAt_zero {deaths : List (List ℕ)} {dead : List ℕ} {t : ℕ} :
    t ∈ deadAt deaths dead 0 ↔ t ∈ deaths.headD [] ++ dead := by
  cases deaths with
  | nil => simp [deadAt]
  | cons d deaths => simp [deadAt]

theorem mem_deadAt_succ {deaths : List (List ℕ)} {dead : List ℕ} {i t : ℕ} :
    t ∈ deadAt deaths dead (i + 1) ↔ t ∈ deadAt deaths.tail (deaths.headD [] ++ dead) i := by
  cases deaths with
  | nil => simp [deadAt]
  | cons d deaths =>
    simp only [deadAt, List.take_succ_cons, List.flatten_cons, List.mem_append, List.tail_cons,
      List.headD_cons]
    tauto

/-- What is kept is decided entry by entry. -/
theorem kept_cons {deaths : List (List ℕ)} {dead list : List ℕ} {t : ℕ} :
    kept deaths dead (t :: list) =
      if t ∈ deaths.headD [] ++ dead then kept deaths.tail (deaths.headD [] ++ dead) list
      else t :: kept deaths.tail (deaths.headD [] ++ dead) list := by
  have hrest : ((list.zipIdx.map (Prod.map id (· + 1))).filter
      fun e => e.1 ∉ deadAt deaths dead e.2).map Prod.fst
        = kept deaths.tail (deaths.headD [] ++ dead) list := by
    rw [List.filter_map, List.map_map, kept]
    congr 1
    refine List.filter_congr fun e _ => ?_
    simp only [Function.comp_apply, Prod.map_fst, id_eq, Prod.map_snd, mem_deadAt_succ]
  rw [kept, List.zipIdx_cons', List.filter_cons]
  by_cases ht : t ∈ deaths.headD [] ++ dead
  · have hdead : t ∈ deadAt deaths dead 0 := mem_deadAt_zero.mpr ht
    rw [if_neg (by simpa using hdead), hrest, if_pos ht]
  · have halive : t ∉ deadAt deaths dead 0 := mt mem_deadAt_zero.mp ht
    rw [if_pos (by simpa using halive), List.map_cons, hrest, if_neg ht]

/-- **A sweep keeps the entries whose task is alive when it is inspected**, in their
order. -/
theorem sweep_list (deaths : List (List ℕ)) (dead : List ℕ) (refs : ℕ → ℤ) (list : List ℕ) :
    (sweep deaths dead refs list).1 = kept deaths dead list := by
  induction list generalizing deaths dead refs with
  | nil => simp [sweep, kept]
  | cons t list ih =>
    rw [kept_cons, sweep]
    split
    · exact ih _ _ _
    · exact congrArg (t :: ·) (ih _ _ _)

theorem putTask_apply (refs : ℕ → ℤ) (t u : ℕ) :
    putTask refs t u = refs u - if t = u then 1 else 0 := by
  rcases eq_or_ne u t with rfl | hne
  · simp [putTask]
  · simp [putTask, hne, hne.symm]

/-- **A sweep drops the reference of each entry it removes.** -/
theorem sweep_refs (deaths : List (List ℕ)) (dead : List ℕ) (refs : ℕ → ℤ) (list : List ℕ)
    (u : ℕ) :
    (sweep deaths dead refs list).2.1 u - ((sweep deaths dead refs list).1.count u : ℤ)
      = refs u - (list.count u : ℤ) := by
  induction list generalizing deaths dead refs with
  | nil => rfl
  | cons t list ih =>
    rw [sweep]
    split
    · rw [ih, putTask_apply, List.count_cons]
      simp only [beq_iff_eq]
      split <;> omega
    · have hrest := ih deaths.tail (deaths.headD [] ++ dead) refs
      simp only [List.count_cons, beq_iff_eq]
      split <;> omega

/-- **`deferred_exit` drops the reference of each entry.** -/
theorem putAll_apply (refs : ℕ → ℤ) (list : List ℕ) (u : ℕ) :
    putAll refs list u = refs u - (list.count u : ℤ) := by
  induction list generalizing refs with
  | nil => simp [putAll]
  | cons t list ih =>
    have hrest := ih (putTask refs t)
    rw [putAll, List.foldl_cons, ← putAll, hrest, putTask_apply, List.count_cons]
    simp only [beq_iff_eq]
    split <;> omega

/-! ### The balance -/

/-- The calls that have taken their reference to a task and have not linked their entry. -/
def Sys.inFlight (s : Sys w) (t : ℕ) : ℕ := census s.active s.calls (· = some (.insert t))

/-- The references to a task that are held, less those the list and the calls account
for. -/
def Sys.balance (s : Sys w) (t : ℕ) : ℤ :=
  s.refs t - (s.list.count t : ℤ) - (s.inFlight t : ℤ)

/-- The calls in flight, counted among all of them. -/
theorem inFlight_eq_ncard {s : Sys w} (h : Tracked s.active s.calls) (t : ℕ) :
    s.inFlight t = Set.ncard {c | s.calls c = some (.insert t)} := by
  have hset : {c | s.calls c = some (.insert t)}
      = ↑(s.active.filter fun c => s.calls c = some (.insert t)).toFinset := by
    ext c
    simp only [Set.mem_ofPred_eq, List.coe_toFinset, List.mem_filter, decide_eq_true_eq]
    exact ⟨fun hc => ⟨h.mem hc rfl, hc⟩, And.right⟩
  rw [hset, Set.ncard_coe_finset, List.toFinset_card_of_nodup (h.nodup.filter _), Sys.inFlight,
    census, List.countP_eq_length_filter]

/-- A call that goes on: only the locked section counts, where it was and where it is. -/
theorem inFlight_update {active : List ℕ} {calls : ℕ → Option (Pc w)} {c : ℕ} {pc : Pc w}
    (h : Tracked active calls) (hc : calls c = some pc) (hpc : pc.over = false) (pc' : Pc w)
    (t : ℕ) :
    census active (Function.update calls c (some pc')) (· = some (.insert t))
        + (if pc = .insert t then 1 else 0)
      = census active calls (· = some (.insert t)) + if pc' = .insert t then 1 else 0 := by
  have hmove := census_update (f := calls) (v := some pc') (· = some (.insert t)) h.nodup
    (h.mem hc hpc)
  simpa only [hc, Option.some.injEq, decide_eq_true_eq] using hmove

/-- A call that goes on, neither from nor to the locked section. -/
theorem inFlight_move {active : List ℕ} {calls : ℕ → Option (Pc w)} {c t : ℕ} {pc pc' : Pc w}
    (h : Tracked active calls) (hc : calls c = some pc) (hpc : pc.over = false)
    (hne : pc ≠ .insert t) (hne' : pc' ≠ .insert t) :
    census active (Function.update calls c (some pc')) (· = some (.insert t))
      = census active calls (· = some (.insert t)) := by
  have hmove := inFlight_update h hc hpc pc' t
  rwa [if_neg hne, if_neg hne'] at hmove

/-- A call that returns, from elsewhere than the locked section. -/
theorem inFlight_leave {active : List ℕ} {calls : ℕ → Option (Pc w)} {c t : ℕ} {pc : Pc w}
    (hc : calls c = some pc) (hne : pc ≠ .insert t) (pc' : Option (Pc w)) :
    census (active.filter (· ≠ c)) (Function.update calls c pc') (· = some (.insert t))
      = census active calls (· = some (.insert t)) :=
  census_leave _ (by simpa [hc] using hne)

theorem balance_congr {s s' : Sys w} {t : ℕ} (hrefs : s'.refs = s.refs) (hlist : s'.list = s.list)
    (hflight : s'.inFlight t = s.inFlight t) : s'.balance t = s.balance t := by
  rw [Sys.balance, hrefs, hlist, hflight, Sys.balance]

/-- **No step changes the balance.** -/
theorem Step.balance {hz : BitVec w} {s s' : Sys w} {a : Act w} (hs : Step hz s a s')
    (h : Tracked s.active s.calls) (t : ℕ) : s'.balance t = s.balance t := by
  cases hs with
  | other hf hc => exact balance_congr rfl rfl (census_update_of_notMem _ (h.notMem hc))
  | @ioctl c cmd hf hc hcmd =>
    have henter : enter hz cmd ≠ .insert t := by
      cases cmd with
      | timerSet | timerCancel | timerAlloc | timerMon | other => simp [enter]
    exact balance_congr rfl rfl (census_join _ (h.notMem hc) (by simpa using henter))
  | rcuLock hc | lookup hc | rcuUnlock hc | kmalloc hc | setFlag hc =>
    exact balance_congr rfl rfl (inFlight_move h hc rfl (by simp) (by simp))
  | missed hc | nomem hc | cancel hc =>
    exact balance_congr rfl rfl (inFlight_leave hc (by simp) _)
  | modTimer hc =>
    rw [Sys.modTimer_eq]
    exact balance_congr rfl rfl (inFlight_leave hc (by simp) _)
  | @getTask c u env hc =>
    have hmove := inFlight_update h hc rfl (.insert u) t
    simp only [reduceCtorEq, if_false, add_zero, Pc.insert.injEq] at hmove
    simp only [Sys.balance, Sys.inFlight, Sys.setPc, hmove]
    rcases eq_or_ne u t with rfl | hne
    · rw [Function.update_self, if_pos rfl]
      omega
    · rw [Function.update_of_ne hne.symm, if_neg hne, add_zero]
  | @insert c u env hc =>
    have hmove := inFlight_update h hc rfl (.setFlag .mon hz) t
    simp only [reduceCtorEq, if_false, add_zero, Pc.insert.injEq] at hmove
    simp only [Sys.balance, Sys.inFlight, Sys.setPc, List.count_cons, beq_iff_eq, ← hmove]
    omega
  | @sweep deaths now hh =>
    have hrefs := sweep_refs deaths s.dead s.refs s.list t
    simp only [Sys.balance, Sys.inFlight]
    omega
  | drop hp =>
    simp only [Sys.balance, Sys.inFlight, putAll_apply, List.count_nil]
    omega
  | schedule =>
    rw [Sys.scheduleWork_eq]
    rfl
  | rearm =>
    rw [Sys.modTimer_eq]
    rfl
  | stutter | phase | initFlag | initWork | timerSetup | timerDelete | openFile | closeFile
  | fire | switch | workBegin | workEnd | dies | exits | frees => rfl

/-! ### Calls that fail -/

/-- The call a step belongs to. -/
def Act.caller : Act w → Option ℕ
  | .ioctl c _ => some c
  | .call c _ => some c
  | _ => none

/-- From here on the call can only succeed. -/
def Pc.committed : Pc w → Bool
  | .insert _ => true
  | .setFlag _ _ => true
  | .modTimer _ _ => true
  | .returned ret => ret == 0
  | _ => false

/-- The call can only succeed. -/
def Sys.Committed (s : Sys w) (c : ℕ) : Prop := ∃ pc, s.calls c = some pc ∧ pc.committed = true

theorem Pc.Next.committed {hz : BitVec w} {pc pc' : Pc w} (h : Pc.Next hz pc pc')
    (hpc : pc.committed = true) : pc'.committed = true := by
  cases h with
  | rcuLock | lookup | missed | rcuUnlock | kmalloc | nomem | getTask =>
    exact absurd hpc (by simp [Pc.committed])
  | insert | setFlag | modTimer | cancel => rfl

/-- What can only succeed still can. -/
theorem Step.committed {hz : BitVec w} {s s' : Sys w} {a : Act w} (hs : Step hz s a s') {c : ℕ}
    (h : s.Committed c) : s'.Committed c := by
  obtain ⟨pc, hc, hpc⟩ := h
  obtain hcalls | ⟨d, cmd, -, hd, hcalls⟩ | ⟨d, env, pc₀, pc', -, hd, hnext, hcalls⟩ :=
    hs.calls_cases
  · exact ⟨pc, by rw [hcalls, hc], hpc⟩
  · have hne : c ≠ d := fun he => absurd (hd.symm.trans (he ▸ hc)) (by simp)
    exact ⟨pc, by rw [hcalls, Function.update_of_ne hne, hc], hpc⟩
  · rcases eq_or_ne c d with rfl | hne
    · obtain rfl : pc = pc₀ := Option.some.inj (hc.symm.trans hd)
      exact ⟨pc', by rw [hcalls, Function.update_self], hnext.committed hpc⟩
    · exact ⟨pc, by rw [hcalls, Function.update_of_ne hne, hc], hpc⟩

/-- **A call touches the list or a reference only when it can no longer fail.** -/
theorem Step.untouched {hz : BitVec w} {s s' : Sys w} {a : Act w} (hs : Step hz s a s') {c : ℕ}
    (ha : a.caller = some c) : s'.list = s.list ∧ s'.refs = s.refs ∨ s'.Committed c := by
  cases hs with
  | getTask | insert =>
    obtain rfl := Option.some.inj ha
    exact .inr ⟨_, Function.update_self .., rfl⟩
  | modTimer =>
    rw [Sys.modTimer_eq]
    exact .inl ⟨rfl, rfl⟩
  | sweep | drop => exact absurd ha (by simp [Act.caller])
  | schedule =>
    rw [Sys.scheduleWork_eq]
    exact .inl ⟨rfl, rfl⟩
  | rearm =>
    rw [Sys.modTimer_eq]
    exact .inl ⟨rfl, rfl⟩
  | stutter | phase | initFlag | initWork | timerSetup | timerDelete | openFile | closeFile | other
  | ioctl | rcuLock | lookup | missed | rcuUnlock | kmalloc | nomem | setFlag | cancel | fire
  | switch | workBegin | workEnd | dies | exits | frees => exact .inl ⟨rfl, rfl⟩

/-- A call that has failed has touched neither the list nor a reference. -/
theorem untouched_of_failed (hz : BitVec w) {s : Sys w} {a : Act w} {post : List (Act w)} {c : ℕ}
    {ret : ℤ} (ha : a.caller = some c)
    (hret : (run (step hz) s (a :: post)).calls c = some (.returned ret)) (hne : ret ≠ 0) :
    (step hz s a).list = s.list ∧ (step hz s a).refs = s.refs := by
  refine resolve_of_run (step hz) (fun s a => (step_cases hz s a).committed) post
    ((step_cases hz s a).untouched ha) ?_
  rintro ⟨pc, hc, hpc⟩
  obtain rfl : Pc.returned ret = pc := Option.some.inj (hret.symm.trans hc)
  exact hne (by simpa [Pc.committed] using hpc)

/-! ### Whole runs -/

/-- **The ledger**: nothing is held that is not accounted for, and the list is empty once
the module is unloaded. -/
structure Ledger (s : Sys w) : Prop where
  attended : Attended s
  balance : ∀ t, s.balance t = 0
  emptied : s.phase = .unloaded → s.list = []

theorem ledger_start : Ledger (Sys.start : Sys w) where
  attended := attended_start
  balance t := by simp [Sys.balance, Sys.inFlight, Sys.start, census]
  emptied _ := rfl

theorem sweep_nil (deaths : List (List ℕ)) (dead : List ℕ) (refs : ℕ → ℤ) :
    (sweep deaths dead refs []).1 = [] := rfl

/-- Once unloaded, the module does not link entries. -/
theorem Step.emptied {hz : BitVec w} {s s' : Sys w} {a : Act w} (hs : Step hz s a s')
    (h : Attended s) (hlist : s.phase = .unloaded → s.list = []) :
    s'.phase = .unloaded → s'.list = [] := by
  cases hs with
  | phase hp =>
    intro hu
    generalize s.phase = q at hp
    subst hu
    cases hp
  | initFlag | initWork | timerSetup | timerDelete => exact fun hu => absurd hu (by simp)
  | drop hp => exact fun _ => rfl
  | insert hc =>
    intro hu
    have hleft := h.not_leaving hc rfl
    rw [show s.phase = .unloaded from hu] at hleft
    exact absurd hleft (by simp [Phase.leaving])
  | sweep hh =>
    intro hu
    simp only [hlist hu, sweep_nil]
  | modTimer | rearm =>
    rw [Sys.modTimer_eq]
    exact hlist
  | schedule =>
    rw [Sys.scheduleWork_eq]
    exact hlist
  | stutter | openFile | closeFile | other | ioctl | rcuLock | lookup | missed | rcuUnlock | kmalloc
  | nomem | getTask | setFlag | cancel | fire | switch | workBegin | workEnd | dies | exits
  | frees => exact hlist

theorem Step.ledger {hz : BitVec w} {s s' : Sys w} {a : Act w} (hs : Step hz s a s')
    (h : Ledger s) : Ledger s' where
  attended := hs.attended h.attended
  balance t := (hs.balance h.attended.tracked t).trans (h.balance t)
  emptied := hs.emptied h.attended h.emptied

theorem ledger_run (hz : BitVec w) (acts : List (Act w)) : Ledger (run (step hz) Sys.start acts) :=
  run_invariant (step hz) (fun s a => (step_cases hz s a).ledger) acts ledger_start

/-- When the module is unloaded nothing is held. -/
theorem Ledger.unloaded {s : Sys w} (h : Ledger s) (hp : s.phase = .unloaded) :
    s.list = [] ∧ ∀ t, s.refs t = 0 := by
  have hlist := h.emptied hp
  have hactive := (h.attended.left (by rw [hp]; rfl)).2
  refine ⟨hlist, fun t => ?_⟩
  have hbal := h.balance t
  rw [Sys.balance, Sys.inFlight, hlist, hactive] at hbal
  simpa [census] using hbal

/-- **The references the module holds are those of its list, and one for each call about
to link its entry.** On every run: a call that returns an error has changed neither the
list nor a reference, a handler that finds `TIMER_TYPE_MON` goes on to remove the entries
whose task is dead when it is inspected and keeps the others in order, and
`deferred_exit` leaves nothing. -/
theorem monitor_ledger (hz : BitVec w) (acts : List (Act w)) :
    let s := run (step hz) Sys.start acts
    (∀ t, s.refs t = s.list.count t + Set.ncard {c | s.calls c = some (.insert t)}) ∧
    (∀ pre a post c ret, acts = pre ++ a :: post → a.caller = some c →
      s.calls c = some (.returned ret) → ret ≠ 0 →
        (step hz (run (step hz) Sys.start pre) a).list = (run (step hz) Sys.start pre).list ∧
        (step hz (run (step hz) Sys.start pre) a).refs = (run (step hz) Sys.start pre).refs) ∧
    (∀ ty deaths now, s.handler = .start ty → s.flag = .mon →
      (step hz s (.handle deaths now)).handler = .sweep) ∧
    (∀ deaths now, s.handler = .sweep →
      (step hz s (.handle deaths now)).list = kept deaths s.dead s.list) ∧
    (s.phase = .unloaded → s.list = [] ∧ ∀ t, s.refs t = 0) := by
  intro s
  have h : Ledger s := ledger_run hz acts
  refine ⟨fun t => ?_, ?_, ?_, ?_, h.unloaded⟩
  · have hbal := h.balance t
    rw [← inFlight_eq_ncard h.attended.tracked]
    rw [Sys.balance] at hbal
    omega
  · intro pre a post c ret hacts ha hret hne
    rw [show s = _ from run_split (step hz) hacts Sys.start] at hret
    exact untouched_of_failed hz ha hret hne
  · intro ty deaths now hh hflag
    simp only [step, hh, stepHandler, hflag, switch]
  · intro deaths now hh
    simp only [step, hh, stepHandler, sweep_list]

/-- Two calls monitor process 7, and the second has its reference and has not linked its entry
yet; then both are over, and the module is unloaded. -/
theorem monitor_ledger_unloaded :
    let held : List (Act 64) :=
      List.replicate 7 (.load 0) ++ [.openFile, .ioctl 0 (.timerMon 7), .ioctl 1 (.timerMon 7)] ++
      List.replicate 8 (.call 0 ⟨some 7, true, 0⟩) ++ List.replicate 5 (.call 1 ⟨some 7, true, 0⟩)
    let acts := held ++ (List.replicate 3 (.call 1 ⟨some 7, true, 0⟩) ++
      .closeFile :: List.replicate 8 .unload)
    let s := run (step 100) Sys.start held
    let s' := run (step 100) Sys.start acts
    (s.refs 7 = 2 ∧ s.list = [7] ∧ Set.ncard {c | s.calls c = some (.insert 7)} = 1) ∧
      s'.phase = .unloaded ∧ s'.list = [] ∧ ∀ t, s'.refs t = 0 := by
  intro held acts s s'
  have hrefs : s.refs 7 = 2 := by decide
  have hlist : s.list = [7] := by decide
  have hledger := (monitor_ledger 100 held).1 7
  rw [show run (step 100) Sys.start held = s from rfl, hrefs, hlist] at hledger
  refine ⟨⟨hrefs, hlist, ?_⟩, by decide, (monitor_ledger 100 acts).2.2.2.2 (by decide)⟩
  simp only [List.count_singleton_self] at hledger
  omega

end Deferred

end KernelModules
