import KernelModules.Deferred.Device

/-!
# The tasks `get_proc` pins

`get_proc` looks its task up under `rcu_read_lock`, and takes the reference after
`rcu_read_unlock` and `kmalloc`. Inside the read-side section the task cannot be freed: a
task that leaves the pid table while it is in the hands of a reader waits for that reader.
Past its end nothing keeps it, until `get_task_struct` does.

So `get_task_struct` is applied to a task that is there exactly if no task is freed in
between: `KernelModules.Deferred.Spared`.
-/

namespace KernelModules

namespace Deferred

variable {w : ℕ}

/-- **`get_task_struct` is applied to a task that has not been freed.** -/
def PinsLive (s : Sys w) : Act w → Prop
  | .call c _ => ∀ t, s.calls c = some (.getTask t) → t ∉ s.freed
  | _ => True

/-- A call has the task and nothing that keeps it. -/
def Exposed (s : Sys w) (t : ℕ) : Prop :=
  ∃ c, s.calls c = some (.kmalloc t) ∨ s.calls c = some (.getTask t)

/-- **A task is only freed while no call is between `rcu_read_unlock` and
`get_task_struct` with it.** -/
def Spared (s : Sys w) : Act w → Prop
  | .frees t => s.Freeable t → ¬Exposed s t
  | _ => True

/-! ### What the read-side section keeps -/

/-- What holds of a call in `get_proc`: in its read-side section it is a reader, and a task
that has left the pid table since waits for it; after it the task has not been freed. -/
def Sys.Holds (s : Sys w) (c : ℕ) : Pc w → Prop
  | .lookup => c ∈ s.readers
  | .rcuUnlock none => c ∈ s.readers
  | .rcuUnlock (some t) => c ∈ s.readers ∧ t ∉ s.freed ∧ (t ∈ s.exited → c ∈ s.grace t)
  | .kmalloc t => t ∉ s.freed
  | .getTask t => t ∉ s.freed
  | _ => True

/-- **The tasks in the hands of calls have not been freed.** -/
def Pinned (s : Sys w) : Prop := ∀ c pc, s.calls c = some pc → s.Holds c pc

theorem pinned_start : Pinned (Sys.start : Sys w) := by
  intro c pc hc
  simp [Sys.start] at hc

/-- What the other calls have is still there. -/
theorem Sys.Holds.mono {s s' : Sys w} {c : ℕ} {pc : Pc w} (h : s.Holds c pc)
    (hreaders : c ∈ s.readers → c ∈ s'.readers) (hexited : s'.exited = s.exited)
    (hgrace : s'.grace = s.grace) (hfreed : s'.freed = s.freed) : s'.Holds c pc := by
  cases pc with
  | lookup => exact hreaders h
  | rcuUnlock task =>
    cases task with
    | none => exact hreaders h
    | some t =>
      obtain ⟨hreader, hfree, hwait⟩ := h
      refine ⟨hreaders hreader, ?_, ?_⟩
      · rwa [hfreed]
      · rwa [hexited, hgrace]
  | kmalloc t | getTask t =>
    rw [Holds, hfreed]
    exact h
  | rcuLock | insert | setFlag | modTimer | cancel | returned => trivial

/-- A call goes on, and leaves the tasks alone. -/
theorem Pinned.move {s s' : Sys w} (h : Pinned s) {c : ℕ} {pc : Pc w}
    (hcalls : s'.calls = Function.update s.calls c (some pc)) (hpc : s'.Holds c pc)
    (hreaders : ∀ d, d ≠ c → d ∈ s.readers → d ∈ s'.readers) (hexited : s'.exited = s.exited)
    (hgrace : s'.grace = s.grace) (hfreed : s'.freed = s.freed) : Pinned s' := by
  rw [Pinned, hcalls]
  exact forall_update (fun d hne pc' hd =>
    (h d pc' hd).mono (hreaders d hne) hexited hgrace hfreed) hpc

/-- A task leaves the pid table: the readers that have it are waited for. -/
theorem Pinned.exits {s : Sys w} (h : Pinned s) (t : ℕ) :
    Pinned { s with exited := t :: s.exited, grace := Function.update s.grace t s.readers } := by
  intro c pc hc
  have hold := h c pc hc
  cases pc with
  | rcuUnlock task =>
    cases task with
    | none => exact hold
    | some u =>
      obtain ⟨hreader, hfree, hwait⟩ := hold
      refine ⟨hreader, hfree, fun hu => ?_⟩
      rcases eq_or_ne u t with rfl | hne
      · simpa using hreader
      · simpa [hne] using hwait ((List.mem_cons.mp hu).resolve_left hne)
  | lookup | kmalloc | getTask => exact hold
  | rcuLock | insert | setFlag | modTimer | cancel | returned => trivial

/-- **A task that is freed is in nobody's hands.** The readers have been waited for, and the
condition is about the others. -/
theorem Pinned.frees {s : Sys w} (h : Pinned s) {t : ℕ} (ht : s.Freeable t) (hok : ¬Exposed s t) :
    Pinned { s with freed := t :: s.freed } := by
  intro c pc hc
  have hold := h c pc hc
  have hcons : ∀ {u}, u ≠ t → u ∉ s.freed → u ∉ t :: s.freed := by
    intro u hne hu hmem
    exact hu ((List.mem_cons.mp hmem).resolve_left hne)
  cases pc with
  | rcuUnlock task =>
    cases task with
    | none => exact hold
    | some u =>
      obtain ⟨hreader, hfree, hwait⟩ := hold
      refine ⟨hreader, hcons ?_ hfree, hwait⟩
      rintro rfl
      exact ht.2.2.2 c (hwait ht.1) hreader
  | kmalloc u =>
    refine hcons ?_ hold
    rintro rfl
    exact hok ⟨c, .inl hc⟩
  | getTask u =>
    refine hcons ?_ hold
    rintro rfl
    exact hok ⟨c, .inr hc⟩
  | lookup => exact hold
  | rcuLock | insert | setFlag | modTimer | cancel | returned => trivial

theorem holds_enter (hz : BitVec w) (s : Sys w) (c : ℕ) (cmd : Command w) :
    s.Holds c (enter hz cmd) := by
  cases cmd with
  | timerSet | timerCancel | timerAlloc | timerMon | other => trivial

theorem mem_filter_of_ne {readers : List ℕ} {c d : ℕ} (hne : d ≠ c) (hd : d ∈ readers) :
    d ∈ readers.filter (· ≠ c) := List.mem_filter.mpr ⟨hd, by simpa using hne⟩

/-- **As long as no exposed task is freed, the tasks in the hands of calls are there.** -/
theorem Step.pinned {hz : BitVec w} {s s' : Sys w} {a : Act w} (hs : Step hz s a s')
    (hok : Spared s a) (h : Pinned s) : Pinned s' := by
  have hsame : ∀ {c : ℕ} d, d ≠ c → d ∈ s.readers → d ∈ s.readers := fun _ _ hd => hd
  cases hs with
  | other hf hc => exact h.move rfl trivial hsame rfl rfl rfl
  | ioctl hf hc hcmd => exact h.move rfl (holds_enter hz _ _ _) hsame rfl rfl rfl
  | rcuLock hc =>
    exact h.move rfl List.mem_cons_self (fun d _ hd => List.mem_cons_of_mem _ hd) rfl rfl rfl
  | @lookup c env hc =>
    refine h.move rfl ?_ hsame rfl rfl rfl
    rcases hfound : env.found.filter (fun t => s.Present t) with - | t
    · exact h c _ hc
    · have hpresent : s.Present t := by
        simpa using (Option.filter_eq_some_iff.mp hfound).2
      exact ⟨h c _ hc, hpresent.2, fun hex => absurd hex hpresent.1⟩
  | missed hc => exact h.move rfl trivial (fun d hne hd => mem_filter_of_ne hne hd) rfl rfl rfl
  | @rcuUnlock c t env hc =>
    exact h.move rfl (h c _ hc).2.1 (fun d hne hd => mem_filter_of_ne hne hd) rfl rfl rfl
  | @kmalloc c t env hc => exact h.move rfl (h c _ hc) hsame rfl rfl rfl
  | nomem hc | getTask hc | insert hc | setFlag hc | cancel hc =>
    exact h.move rfl trivial hsame rfl rfl rfl
  | modTimer hc =>
    rw [Sys.modTimer_eq]
    exact h.move rfl trivial hsame rfl rfl rfl
  | exits ht => exact h.exits _
  | frees ht => exact h.frees ht (hok ht)
  | schedule =>
    rw [Sys.scheduleWork_eq]
    exact h
  | rearm =>
    rw [Sys.modTimer_eq]
    exact h
  | stutter | phase | initFlag | initWork | timerSetup | timerDelete | drop | openFile | closeFile
  | fire | switch | sweep | workBegin | workEnd | dies => exact h

theorem Pinned.pinsLive {s : Sys w} (h : Pinned s) (a : Act w) : PinsLive s a := by
  cases a with
  | call c env => exact fun t hc => h c _ hc
  | load | unload | openFile | closeFile | ioctl | fire | handle | workBegin | workEnd | dies
  | exits | frees => trivial

/-! ### Where the loss of a task leads -/

/-- **A call whose task has been freed goes on to pin it**, if `kmalloc` finds memory. -/
theorem mispinned (hz : BitVec w) {s : Sys w} {t : ℕ} (hexp : Exposed s t) (hfreed : t ∈ s.freed) :
    ∃ more, ¬Along (step hz) PinsLive s more := by
  have hpin : ∀ {s : Sys w} {c : ℕ}, s.calls c = some (.getTask t) → t ∈ s.freed →
      ∃ more, ¬Along (step hz) PinsLive s more :=
    fun {s c} hc hfreed => ⟨[.call c ⟨none, true, 0⟩], fun h => h.1 t hc hfreed⟩
  obtain ⟨c, hc | hc⟩ := hexp
  · refine exists_not_along_cons (step hz) (.call c ⟨none, true, 0⟩) ?_
    simp only [step, hc, stepCall, if_true]
    exact hpin (Function.update_self ..) hfreed
  · exact hpin hc hfreed

/-- **`get_task_struct` is applied to tasks that have not been freed exactly as long as no
task is freed between the `rcu_read_unlock` and the `get_task_struct` of a call that has
found it.** Where one is, the call goes on to apply it to what has been freed. -/
theorem pins_exact (hz : BitVec w) :
    (∀ acts, Along (step hz) Spared Sys.start acts → Along (step hz) PinsLive Sys.start acts) ∧
    ∀ acts a, ¬Spared (run (step hz) Sys.start acts) a →
      ∃ more, ¬Along (step hz) PinsLive Sys.start (acts ++ a :: more) := by
  refine ⟨fun acts hok => ?_, fun acts a ha => ?_⟩
  · exact along_of_invariant (step hz) (fun s a hok => (step_cases hz s a).pinned hok)
      (fun s a _ h => h.pinsLive a) acts hok pinned_start
  · refine exists_not_along_of_next (step hz) ?_
    cases a with
    | frees t =>
      simp only [Spared, not_forall, not_not] at ha
      obtain ⟨ht, hexp⟩ := ha
      simp only [step, if_pos ht]
      exact mispinned hz hexp List.mem_cons_self
    | load | unload | openFile | closeFile | ioctl | call | fire | handle | workBegin | workEnd
    | dies | exits => exact absurd trivial ha

/-- Process 7 is found, exits, and is freed before its reference is taken. -/
theorem pins_freed : ¬∀ acts : List (Act 64), Along (step 100) PinsLive Sys.start acts := by
  intro h
  have hrun := h (List.replicate 7 (Act.load 0) ++ [Act.openFile, Act.ioctl 0 (.timerMon 7)]
    ++ List.replicate 3 (Act.call 0 ⟨some 7, true, 0⟩)
    ++ [Act.exits 7, Act.frees 7, Act.call 0 ⟨none, true, 0⟩] ++ [Act.call 0 ⟨none, true, 0⟩])
  have hpin := ((along_append (step 100)).mp hrun).2.1
  exact absurd (hpin 7 rfl) (by decide)

/-- Process 7 exits while it is looked up, and is only freed once it is not monitored any
more. -/
theorem pins_waited :
    Along (step (100 : BitVec 64)) PinsLive Sys.start
      [.load 0, .load 0, .load 0, .load 0, .load 0, .load 0, .load 0, .openFile,
        .ioctl 0 (.timerMon 7), .call 0 ⟨none, true, 0⟩, .call 0 ⟨some 7, true, 0⟩, .exits 7,
        .frees 7, .call 0 ⟨none, true, 0⟩, .call 0 ⟨none, true, 0⟩, .call 0 ⟨none, true, 0⟩,
        .frees 7] := by
  refine (pins_exact 100).1 _ ?_
  simp only [along_cons, along_nil, Spared, true_and, and_true]
  exact ⟨fun h => absurd h (by decide), fun h => absurd h (by decide)⟩

end Deferred

end KernelModules
