import Mathlib.Data.List.Basic
import Mathlib.Logic.Function.Basic

/-!
# Runs of a labelled system

A concurrent component is given here by a state type, a type of actions and a
*total* step function: an action that is not possible in a state – the next
access of a call that has already returned – leaves it as it is. A schedule is
then just a list of actions, every list is a schedule, and “for every
interleaving” is a quantification over lists.

| notion | what it is |
|---|---|
| `KernelModules.run` | the state a schedule leads to |
| `KernelModules.Along` | every step of a schedule meets a condition on the state it is taken from |
| `KernelModules.trace` | what an observer records along a schedule |

The induction rules are `KernelModules.run_invariant`,
`KernelModules.run_invariant_along`, `KernelModules.along_of_invariant`,
`KernelModules.along_trace`, `KernelModules.run_observed` and `KernelModules.run_trace`: what
one step preserves, a whole run preserves. `KernelModules.run_countdown` is the rule for what
comes to an end.
-/

namespace KernelModules

variable {σ α ε : Type*} (step : σ → α → σ)

/-! ### The state a schedule leads to -/

/-- **The run of a schedule**: the actions taken one after the other. -/
def run (s : σ) (acts : List α) : σ := acts.foldl step s

@[simp] theorem run_nil (s : σ) : run step s [] = s := rfl

@[simp] theorem run_cons (s : σ) (a : α) (acts : List α) :
    run step s (a :: acts) = run step (step s a) acts := rfl

theorem run_append (s : σ) (acts more : List α) :
    run step s (acts ++ more) = run step (run step s acts) more :=
  List.foldl_append

/-- A run, from one of its steps on. -/
theorem run_split {acts pre post : List α} {a : α} (h : acts = pre ++ a :: post) (s : σ) :
    run step s acts = run step (run step s pre) (a :: post) := by
  rw [h, run_append]

/-- What a step can lead to from the state at the end of a run, the run can lead to. -/
theorem exists_run_of_next {P : σ → Prop} {s : σ} {acts : List α} {a : α}
    (h : ∃ more, P (run step (run step s acts) (a :: more))) :
    ∃ more, P (run step s (acts ++ a :: more)) := by
  obtain ⟨more, hmore⟩ := h
  refine ⟨more, ?_⟩
  rwa [run_append]

/-- **What every step preserves, every run preserves.** -/
theorem run_invariant {Inv : σ → Prop} (hstep : ∀ s a, Inv s → Inv (step s a)) :
    ∀ (acts : List α) {s : σ}, Inv s → Inv (run step s acts)
  | [], _, h => h
  | a :: acts, s, h => run_invariant hstep acts (hstep s a h)

/-- **A countdown along schedules of a kind**: what a party's own steps bring down, and no other
step of that kind raises, runs out when the party has gone on often enough. -/
theorem run_countdown_of (Inv : σ → Prop) (μ : σ → ℕ) (own : α → Bool) (kind : α → Prop)
    (hstep : ∀ s a, kind a → Inv s → Inv (step s a) ∧ μ (step s a) ≤ μ s - (own a).toNat) :
    ∀ (acts : List α) {s : σ}, (∀ a ∈ acts, kind a) → Inv s →
      Inv (run step s acts) ∧ μ (run step s acts) ≤ μ s - acts.countP own
  | [], _, _, h => ⟨h, Nat.le_refl _⟩
  | a :: acts, s, hkind, h => by
    obtain ⟨hinv, hone⟩ := hstep s a (hkind a List.mem_cons_self) h
    obtain ⟨hinv', hrest⟩ := run_countdown_of Inv μ own kind hstep acts
      (fun b hb => hkind b (List.mem_cons_of_mem a hb)) hinv
    refine ⟨hinv', Nat.le_trans hrest ?_⟩
    cases hown : own a with
    | false =>
      rw [hown, Bool.toNat_false] at hone
      rw [List.countP_cons_of_neg (by simp [hown])]
      omega
    | true =>
      rw [hown, Bool.toNat_true] at hone
      rw [List.countP_cons_of_pos hown]
      omega

/-- **A countdown**: what a party's own steps bring down and what no other step raises runs out
when the party has gone on often enough. -/
theorem run_countdown (Inv : σ → Prop) (μ : σ → ℕ) (own : α → Bool)
    (hstep : ∀ s a, Inv s → Inv (step s a) ∧ μ (step s a) ≤ μ s - (own a).toNat) :
    ∀ (acts : List α) {s : σ}, Inv s →
      Inv (run step s acts) ∧ μ (run step s acts) ≤ μ s - acts.countP own :=
  fun acts _ h =>
    run_countdown_of step Inv μ own (fun _ => True) (fun s a _ hs => hstep s a hs) acts
      (fun _ _ => trivial) h

/-- A step that does one thing, or else leads to what every step preserves, has done the one
if the other is not so at the end. -/
theorem resolve_of_run {I : σ → Prop} {P : Prop} (hstep : ∀ s a, I s → I (step s a)) {s : σ}
    {a : α} (post : List α) (h : P ∨ I (step s a)) (hend : ¬I (run step s (a :: post))) : P :=
  h.resolve_right fun hI => hend (run_invariant step hstep post hI)

/-! ### Schedules whose steps meet a condition -/

/-- **Every step of the schedule meets the condition**, read on the state the
step is taken from. -/
def Along (ok : σ → α → Prop) : σ → List α → Prop
  | _, [] => True
  | s, a :: acts => ok s a ∧ Along ok (step s a) acts

@[simp] theorem along_nil (ok : σ → α → Prop) (s : σ) : Along step ok s [] := trivial

@[simp] theorem along_cons {ok : σ → α → Prop} {s : σ} {a : α} {acts : List α} :
    Along step ok s (a :: acts) ↔ ok s a ∧ Along step ok (step s a) acts := Iff.rfl

/-- A schedule in two parts. -/
theorem along_append {ok : σ → α → Prop} :
    ∀ {acts more : List α} {s : σ}, Along step ok s (acts ++ more) ↔
      Along step ok s acts ∧ Along step ok (run step s acts) more
  | [], _, _ => by simp
  | a :: acts, more, s => by
    simp only [List.cons_append, along_cons, run_cons, along_append, and_assoc]

/-- A weaker condition. -/
theorem Along.mono {ok ok' : σ → α → Prop} (hok : ∀ s a, ok s a → ok' s a) :
    ∀ {acts : List α} {s : σ}, Along step ok s acts → Along step ok' s acts
  | [], _, _ => trivial
  | _ :: _, _, h => ⟨hok _ _ h.1, h.2.mono hok⟩

/-- **What every step that meets the condition preserves, every run made of such
steps preserves.** -/
theorem run_invariant_along {ok : σ → α → Prop} {Inv : σ → Prop}
    (hstep : ∀ s a, ok s a → Inv s → Inv (step s a)) :
    ∀ (acts : List α) {s : σ}, Along step ok s acts → Inv s → Inv (run step s acts)
  | [], _, _, h => h
  | a :: acts, s, hok, h => run_invariant_along hstep acts hok.2 (hstep s a hok.1 h)

/-- **What an invariant gives at every state, it gives along every run.** -/
theorem along_of_invariant {ok good : σ → α → Prop} {I : σ → Prop}
    (hstep : ∀ s a, ok s a → I s → I (step s a)) (hgood : ∀ s a, ok s a → I s → good s a) :
    ∀ (acts : List α) {s : σ}, Along step ok s acts → I s → Along step good s acts
  | [], _, _, _ => trivial
  | a :: acts, s, hok, h =>
    ⟨hgood s a hok.1 h, along_of_invariant hstep hgood acts hok.2 (hstep s a hok.1 h)⟩

/-- **Conditions that an invariant makes equivalent** are so along every run. -/
theorem along_congr {ok good : σ → α → Prop} {I : σ → Prop}
    (hstep : ∀ s a, I s → I (step s a)) (hiff : ∀ s a, I s → (good s a ↔ ok s a)) :
    ∀ (acts : List α) {s : σ}, I s → (Along step good s acts ↔ Along step ok s acts)
  | [], _, _ => Iff.rfl
  | a :: acts, s, h => and_congr (hiff s a h) (along_congr hstep hiff acts (hstep s a h))

/-- A condition that does not look at the state is a condition on the actions of
the schedule. -/
theorem along_of_forall {p : α → Prop} :
    ∀ {acts : List α} {s : σ}, (∀ a ∈ acts, p a) → Along step (fun _ a => p a) s acts
  | [], _, _ => trivial
  | a :: _, _, h =>
    ⟨h a List.mem_cons_self, along_of_forall fun b hb => h b (List.mem_cons_of_mem a hb)⟩

/-- **What a step that misses the condition leads to, and every good step keeps**, holds at the
end of a run of good steps with such a step. -/
theorem run_of_miss {I D : σ → Prop} {good ok : σ → α → Prop}
    (hinv : ∀ s a, I s → I (step s a)) (hmiss : ∀ s a, I s → ¬ok s a → D (step s a))
    (hstep : ∀ s a, I s → good s a → D s → D (step s a)) :
    ∀ (acts : List α) {s : σ}, I s → Along step good s acts → ¬Along step ok s acts →
      D (run step s acts)
  | [], _, _, _, h => absurd trivial h
  | a :: acts, s, hI, hgood, h => by
    by_cases hok : ok s a
    · exact run_of_miss hinv hmiss hstep acts (hinv s a hI) hgood.2 fun hrest => h ⟨hok, hrest⟩
    · have hboth : ∀ s a, good s a → I s ∧ D s → I (step s a) ∧ D (step s a) :=
        fun s a hok hs => ⟨hinv s a hs.1, hstep s a hs.1 hok hs.2⟩
      exact (run_invariant_along step hboth acts hgood.2 ⟨hinv s a hI, hmiss s a hI hok⟩).2

/-- What a step that misses the condition leads to, and every step keeps, holds at the end of a
run with such a step. -/
theorem run_of_not_along {ok : σ → α → Prop} {D : σ → Prop}
    (hmiss : ∀ s a, ¬ok s a → D (step s a)) (hstep : ∀ s a, D s → D (step s a))
    (acts : List α) {s : σ} (h : ¬Along step ok s acts) : D (run step s acts) := by
  have hall : Along step (fun _ _ => True) s acts := along_of_forall step fun _ _ => trivial
  exact run_of_miss step (I := fun _ => True) (fun _ _ _ => trivial) (fun s a _ => hmiss s a)
    (fun s a _ _ => hstep s a) acts trivial hall h

/-- What goes wrong one step later goes wrong. -/
theorem exists_not_along_cons {good : σ → α → Prop} {s : σ} (a : α)
    (h : ∃ more, ¬Along step good (step s a) more) : ∃ more, ¬Along step good s more := by
  obtain ⟨more, hmore⟩ := h
  exact ⟨a :: more, fun hall => hmore hall.2⟩

/-- What can go wrong after one more step can go wrong in the whole run. -/
theorem exists_not_along_of_next {good : σ → α → Prop} {s : σ} {acts : List α} {a : α}
    (h : ∃ more, ¬Along step good (step (run step s acts) a) more) :
    ∃ more, ¬Along step good s (acts ++ a :: more) := by
  obtain ⟨more, hmore⟩ := h
  exact ⟨more, fun hall => hmore ((along_append step).mp hall).2.2⟩

/-! ### What is observed along a schedule -/

/-- **The trace of a schedule**: the events its steps emit, a step emitting at
most one. -/
def trace (emit : σ → α → Option ε) : σ → List α → List ε
  | _, [] => []
  | s, a :: acts => (emit s a).toList ++ trace emit (step s a) acts

/-- **What is observed is what an abstract machine could do.** If every step that is observed
is one of the abstract machine, taken at the abstract value `f`, and every other step leaves
that value alone, then the trace is a schedule of the abstract machine whose steps are all
good. -/
theorem along_trace {τ : Type*} {act : τ → ε → τ} {good : τ → ε → Prop} {emit : σ → α → Option ε}
    {I : σ → Prop} {f : σ → τ} (hinv : ∀ s a, I s → I (step s a))
    (hnone : ∀ s a, emit s a = none → f (step s a) = f s)
    (hsome : ∀ s a e, I s → emit s a = some e → good (f s) e ∧ f (step s a) = act (f s) e) :
    ∀ (acts : List α) {s : σ}, I s → Along act good (f s) (trace step emit s acts)
  | [], _, _ => trivial
  | a :: acts, s, h => by
    have hrest := along_trace hinv hnone hsome acts (hinv s a h)
    rcases he : emit s a with - | e
    · rw [hnone s a he] at hrest
      simpa only [trace, he, Option.toList_none, List.nil_append] using hrest
    · obtain ⟨hgood, hf⟩ := hsome s a e h he
      rw [hf] at hrest
      simpa only [trace, he, Option.toList_some, List.singleton_append, along_cons] using
        And.intro hgood hrest

/-- **What an observer makes of a schedule.** A relation between the state and what the observer
has noted of the events so far, kept by every step of the schedule, is kept by the schedule. -/
theorem run_observed {τ : Type*} {emit : σ → α → Option ε} {note : τ → ε → τ} {R : σ → τ → Prop} :
    ∀ (acts : List α), (∀ a ∈ acts, ∀ s t, R s t → R (step s a) (run note t (emit s a).toList)) →
      ∀ {s : σ} {t : τ}, R s t → R (run step s acts) (run note t (trace step emit s acts))
  | [], _, _, _, h => h
  | a :: acts, hstep, s, t, h => by
    rw [trace, run_append]
    exact run_observed acts (fun b hb => hstep b (List.mem_cons_of_mem a hb))
      (hstep a List.mem_cons_self s t h)

/-- **A simulation, step by step, is a simulation of runs.** If every step keeps
the invariant and moves the abstract value `f` along the event it emits, then the
abstract value at the end of a run is reached along the trace. `replay` is the
abstract system: partial, since it refuses the events it could not have
emitted. -/
theorem run_trace {τ : Type*} {emit : σ → α → Option ε} {replay : τ → List ε → Option τ}
    {Inv : σ → Prop} {f : σ → τ} (hnil : ∀ t, replay t [] = some t)
    (happ : ∀ t es es', replay t (es ++ es') = (replay t es).bind fun t' => replay t' es')
    (hstep : ∀ s a, Inv s → Inv (step s a) ∧
      replay (f s) (emit s a).toList = some (f (step s a))) :
    ∀ (acts : List α) {s : σ}, Inv s →
      Inv (run step s acts) ∧ replay (f s) (trace step emit s acts) = some (f (run step s acts))
  | [], _, h => ⟨h, hnil _⟩
  | a :: acts, s, h => by
    obtain ⟨hinv, hone⟩ := hstep s a h
    obtain ⟨hinv', hrest⟩ := run_trace hnil happ hstep acts hinv
    refine ⟨hinv', ?_⟩
    rw [trace, happ, hone]
    exact hrest

end KernelModules
