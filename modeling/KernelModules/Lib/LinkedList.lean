import Mathlib.Data.List.Nodup
import Mathlib.Logic.Function.Basic

/-!
# Circular lists with a head

A doubly linked list whose ends meet in a head that is no element of it: an address is
`none` for the head and `some x` for element `x`, and each has a pointer either way
(`KernelModules.Links`). `KernelModules.Links.Ring` says which elements the pointers
string together, and in what order.

The two updates are `KernelModules.Links.listAdd`, right after the head, and
`KernelModules.Links.listDel`, of an element wherever it is. The two ways of going through
the list are the plain one, which stops at the first element asked for
(`KernelModules.Links.find`), and the one that reads the pointer of the next element before
it looks at this one, and so may unlink and free it (`KernelModules.Links.sweep`).

Each comes with what it touches (`KernelModules.Access`), and a sequence of accesses is
`KernelModules.Safe` if it touches nothing that has been freed. A loop runs on fuel; that a
list of `n` elements takes no more than `n + 1` is part of what is proved about it.
-/

namespace KernelModules

/-! ### What is touched -/

/-- An access to an element. -/
inductive Access (α : Type*) where
  /-- It is read or written. -/
  | use (x : α) : Access α
  /-- It is linked. -/
  | link (x : α) : Access α
  /-- It is freed. -/
  | free (x : α) : Access α

/-- **Nothing that has been freed is touched**, linked or freed again. -/
def Safe {α : Type*} (freed : α → Prop) : List (Access α) → Prop
  | [] => True
  | .use x :: rest => ¬freed x ∧ Safe freed rest
  | .link x :: rest => ¬freed x ∧ Safe freed rest
  | .free x :: rest => ¬freed x ∧ Safe (fun y => y = x ∨ freed y) rest

variable {α : Type*}

/-! ### Pointers -/

/-- The pointers, of the head and of the elements. -/
structure Links (α : Type*) where
  /-- `next`. -/
  next : Option α → Option α
  /-- `prev`. -/
  prev : Option α → Option α

namespace Links

/-- **A stretch of the list**: from `a`, through the elements of `l`, to `b`. -/
def Seg (m : Links α) : Option α → List α → Option α → Prop
  | a, [], b => m.next a = b ∧ m.prev b = a
  | a, x :: l, b => m.next a = some x ∧ m.prev (some x) = a ∧ m.Seg (some x) l b

/-- **The list**: from the head round to the head. -/
def Ring (m : Links α) (l : List α) : Prop := m.Seg none l none

/-- A stretch, in two. -/
theorem seg_append {m : Links α} {x : α} {back : List α} {b : Option α} :
    ∀ {a : Option α} {front : List α},
      m.Seg a (front ++ x :: back) b ↔ m.Seg a front (some x) ∧ m.Seg (some x) back b
  | _, [] => and_assoc.symm
  | a, y :: front => by
    simp only [List.cons_append, Seg, seg_append, and_assoc]

/-- A stretch depends on the pointers onwards of all but the last and on those back of all
but the first. -/
theorem Seg.congr {m m' : Links α} {b : Option α} :
    ∀ {a : Option α} {l : List α}, m.Seg a l b → (∀ u ∈ a :: l.map some, m'.next u = m.next u) →
      (∀ v ∈ l.map some ++ [b], m'.prev v = m.prev v) → m'.Seg a l b
  | a, [], h, hnext, hprev =>
    ⟨(hnext a (by simp)).trans h.1, (hprev b (by simp)).trans h.2⟩
  | a, x :: l, ⟨hx, hx', h⟩, hnext, hprev => by
    refine ⟨(hnext a (by simp)).trans hx, (hprev (some x) (by simp)).trans hx', h.congr ?_ ?_⟩
    · exact fun u hu => hnext u (List.mem_cons_of_mem a hu)
    · exact fun v hv => hprev v (List.mem_cons_of_mem (some x) hv)

/-- What comes before the end. -/
theorem Seg.prev_mem {m : Links α} {b : Option α} :
    ∀ {a : Option α} {l : List α}, m.Seg a l b → m.prev b ∈ a :: l.map some
  | _, [], h => by simp [h.2]
  | a, _ :: _, h => List.mem_cons_of_mem a h.2.2.prev_mem

/-- What comes after the start. -/
theorem Seg.next_mem {m : Links α} {a b : Option α} {l : List α} (h : m.Seg a l b) :
    m.next a ∈ l.map some ++ [b] := by
  cases l with
  | nil => simp [h.1]
  | cons x l => simp [h.1]

/-- The pointers say what the list is. -/
theorem Seg.unique {m : Links α} : ∀ {a : Option α} {l l' : List α}, m.Seg a l none →
    m.Seg a l' none → l = l'
  | _, [], [], _, _ => rfl
  | _, [], x :: l', h, h' => absurd (h.1.symm.trans h'.1) (by simp)
  | _, x :: l, [], h, h' => absurd (h'.1.symm.trans h.1) (by simp)
  | _, x :: l, y :: l', h, h' => by
    obtain rfl : x = y := Option.some.inj (h.1.symm.trans h'.1)
    rw [h.2.2.unique h'.2.2]

/-! ### Going through the list -/

/-- An access to what a pointer points to, unless that is the head. -/
def touched : Option α → List (Access α)
  | none => []
  | some x => [.use x]

theorem safe_touched {freed : α → Prop} {p : Option α} (h : ∀ x, p = some x → ¬freed x)
    {rest : List (Access α)} (hrest : Safe freed rest) : Safe freed (touched p ++ rest) := by
  cases p with
  | none => exact hrest
  | some x => exact ⟨h x rfl, hrest⟩

/-- The pointer to the first element. -/
theorem Seg.next_eq {m : Links α} {a : Option α} {l : List α} (h : m.Seg a l none) :
    m.next a = l.head? := by
  cases l with
  | nil => exact h.1
  | cons x l => exact h.1

/-- **`list_for_each`**, up to the first element asked for: which one that is, and what the
loop has touched. -/
def find (m : Links α) (wanted : α → Bool) : ℕ → Option α → Option (Option α × List (Access α))
  | 0, _ => none
  | _ + 1, none => some (none, [])
  | fuel + 1, some x =>
    if wanted x then some (some x, [.use x])
    else (m.find wanted fuel (m.next (some x))).map fun r => (r.1, .use x :: r.2)

/-- **The loop ends**, with the first element asked for, and touches elements of the list:
whatever is safe, is safe after it. -/
theorem Seg.find {m : Links α} {freed : α → Prop} (wanted : α → Bool) :
    ∀ {l : List α} {a : Option α} {fuel : ℕ}, m.Seg a l none → l.length < fuel →
      (∀ x ∈ l, ¬freed x) → ∃ accesses,
        m.find wanted fuel (m.next a) = some (l.find? wanted, accesses) ∧
          ∀ rest, Safe freed rest → Safe freed (accesses ++ rest)
  | [], a, fuel + 1, h, _, _ => by
    rw [h.1]
    exact ⟨[], rfl, fun _ => id⟩
  | x :: l, a, fuel + 1, ⟨hnext, _, h⟩, hfuel, hlive => by
    rw [hnext, Links.find]
    by_cases hx : wanted x = true
    · rw [if_pos hx, List.find?_cons_of_pos hx]
      exact ⟨_, rfl, fun _ hrest => ⟨hlive x List.mem_cons_self, hrest⟩⟩
    · have hlen : l.length < fuel := by simpa using hfuel
      obtain ⟨accesses, hfind, hsafe⟩ :=
        h.find wanted hlen fun y hy => hlive y (List.mem_cons_of_mem x hy)
      rw [if_neg hx, hfind, List.find?_cons_of_neg hx]
      exact ⟨_, rfl, fun rest hrest => ⟨hlive x List.mem_cons_self, hsafe rest hrest⟩⟩

/-! ### The two updates -/

variable [DecidableEq α]

/-- `list_add`: a new element, right after the head. -/
def listAdd (m : Links α) (x : α) : Links α where
  next := Function.update (Function.update m.next (some x) (m.next none)) none (some x)
  prev := Function.update (Function.update m.prev (m.next none) (some x)) (some x) none

/-- `list_del`: the neighbours of an element are made each other's. What becomes of its own
pointers does not matter. -/
def listDel (m : Links α) (x : α) : Links α where
  next := Function.update m.next (m.prev (some x)) (m.next (some x))
  prev := Function.update m.prev (m.next (some x)) (m.prev (some x))

theorem Ring.listAdd {m : Links α} {l : List α} {x : α} (h : m.Ring l) (hx : x ∉ l)
    (hl : l.Nodup) : (m.listAdd x).Ring (x :: l) := by
  refine ⟨by simp [Links.listAdd], by simp [Links.listAdd], ?_⟩
  cases l with
  | nil =>
    obtain ⟨hnext, -⟩ := h
    refine ⟨by simp [Links.listAdd, hnext], ?_⟩
    simp [Links.listAdd, hnext]
  | cons y l =>
    obtain ⟨hnext, hprev, h⟩ := h
    have hxy : y ≠ x := fun heq => hx (heq ▸ List.mem_cons_self)
    have hy : y ∉ l := (List.nodup_cons.mp hl).1
    have hxl : x ∉ l := fun hmem => hx (List.mem_cons_of_mem y hmem)
    refine ⟨by simp [Links.listAdd, hnext], by simp [Links.listAdd, hnext, hxy], h.congr ?_ ?_⟩
    · intro u hu
      have hne : u ≠ none ∧ u ≠ some x := by
        rcases List.mem_cons.mp hu with rfl | hu
        · simp [hxy]
        · obtain ⟨z, hz, rfl⟩ := List.mem_map.mp hu
          exact ⟨by simp, fun heq => hxl (Option.some.inj heq ▸ hz)⟩
      simp [Links.listAdd, Function.update_of_ne hne.1, Function.update_of_ne hne.2]
    · intro v hv
      have hne : v ≠ some y ∧ v ≠ some x := by
        rcases List.mem_append.mp hv with hv | hv
        · obtain ⟨z, hz, rfl⟩ := List.mem_map.mp hv
          exact ⟨fun heq => hy (Option.some.inj heq ▸ hz),
            fun heq => hxl (Option.some.inj heq ▸ hz)⟩
        · obtain rfl := List.mem_singleton.mp hv
          simp
      simp [Links.listAdd, hnext, Function.update_of_ne hne.1, Function.update_of_ne hne.2]

/-- An element is taken out of a stretch. -/
theorem Seg.listDel {m : Links α} {x : α} {back : List α} {b : Option α}
    (hback : m.Seg (some x) back b) : ∀ {a : Option α} {front : List α},
      m.Seg a front (some x) → (a :: (front ++ x :: back).map some).Nodup →
        ((front ++ x :: back).map some ++ [b]).Nodup → (m.listDel x).Seg a (front ++ back) b
  | a, [], ⟨hnext, hprev⟩, hsources, htargets => by
    have hself : (m.listDel x).next a = m.next (some x) := by simp [Links.listDel, hprev]
    have hother : (m.listDel x).prev (m.next (some x)) = a := by simp [Links.listDel, hprev]
    cases back with
    | nil =>
      rw [hback.1] at hself hother
      exact ⟨hself, hother⟩
    | cons y back =>
      rw [hback.1] at hself hother
      refine ⟨hself, hother, hback.2.2.congr (fun u hu => ?_) fun v hv => ?_⟩
      · have hne : u ≠ m.prev (some x) := by
          rw [hprev]
          rintro rfl
          exact (List.nodup_cons.mp hsources).1 (List.mem_cons_of_mem (some x) hu)
        exact Function.update_of_ne hne ..
      · have hne : v ≠ m.next (some x) := by
          rw [hback.1]
          rintro rfl
          refine (List.nodup_cons.mp (List.nodup_cons.mp htargets).2).1 ?_
          simpa using hv
        exact Function.update_of_ne hne ..
  | a, z :: front, ⟨hnext, hprev, hfront⟩, hsources, htargets => by
    simp only [List.cons_append, List.map_cons] at hsources htargets
    obtain ⟨ha, hsources⟩ := List.nodup_cons.mp hsources
    obtain ⟨hz, htargets⟩ := List.nodup_cons.mp htargets
    refine ⟨?_, ?_, Seg.listDel hback hfront hsources htargets⟩
    · have hne : a ≠ m.prev (some x) := by
        rintro rfl
        refine ha ?_
        have hmem := hfront.prev_mem
        rw [List.map_append]
        rcases List.mem_cons.mp hmem with heq | hmem
        · rw [heq]
          exact List.mem_cons_self
        · exact List.mem_cons_of_mem _ (List.mem_append_left _ hmem)
      exact (Function.update_of_ne hne ..).trans hnext
    · have hne : some z ≠ m.next (some x) := by
        intro heq
        refine hz ?_
        rw [heq, List.map_append, List.append_assoc]
        exact List.mem_append_right _ (List.mem_cons_of_mem _ hback.next_mem)
      exact (Function.update_of_ne hne ..).trans hprev

theorem Ring.listDel {m : Links α} {front back : List α} {x : α}
    (h : m.Ring (front ++ x :: back)) (hl : (front ++ x :: back).Nodup) :
    (m.listDel x).Ring (front ++ back) := by
  obtain ⟨hfront, hback⟩ := seg_append.mp h
  have hnodup : ((front ++ x :: back).map some).Nodup :=
    hl.map fun _ _ => Option.some.inj
  refine hback.listDel hfront (List.nodup_cons.mpr ⟨by simp, hnodup⟩) ?_
  refine List.nodup_append.mpr ⟨hnodup, List.nodup_singleton none, ?_⟩
  intro u hu v hv
  obtain ⟨z, -, rfl⟩ := List.mem_map.mp hu
  obtain rfl := List.mem_singleton.mp hv
  simp

/-! ### Going through the list, and freeing -/

/-- What a loop that frees elements leaves behind. -/
structure Swept (α : Type*) where
  /-- The pointers. -/
  links : Links α
  /-- The elements freed, in turn. -/
  freed : List α
  /-- What the loop has touched. -/
  accesses : List (Access α)

/-- **`list_for_each_safe`** with a body that unlinks and frees an element, or does not: `p` is
the element the body is about to look at, and `q` the next. -/
def sweep (del : ℕ → α → Bool) :
    ℕ → ℕ → Links α → Option α → Option α → Option (Swept α)
  | 0, _, _, _, _ => none
  | _ + 1, _, m, none, _ => some ⟨m, [], []⟩
  | fuel + 1, i, m, some x, q =>
    if del i x then
      let m' := m.listDel x
      (sweep del fuel (i + 1) m' q (m'.next q)).map fun r =>
        ⟨r.links, x :: r.freed, .use x :: (touched (m.prev (some x)) ++
          (touched (m.next (some x)) ++ .free x :: (touched q ++ r.accesses)))⟩
    else
      (sweep del fuel (i + 1) m q (m.next q)).map fun r =>
        ⟨r.links, r.freed, .use x :: (touched q ++ r.accesses)⟩

/-- What is kept and what is freed. -/
def parts (del : ℕ → α → Bool) : ℕ → List α → List α × List α
  | _, [] => ([], [])
  | i, x :: l =>
    let rest := parts del (i + 1) l
    if del i x then (rest.1, x :: rest.2) else (x :: rest.1, rest.2)

/-- **The loop ends.** It keeps and frees what it should, strings together what it keeps, and
touches nothing it has freed. -/
theorem Ring.sweep (del : ℕ → α → Bool) : ∀ {back front : List α} {m : Links α} {fuel : ℕ}
    {freed : α → Prop} (i : ℕ), m.Ring (front ++ back) → (front ++ back).Nodup →
      back.length < fuel → (∀ x ∈ front ++ back, ¬freed x) →
        ∃ r, Links.sweep del fuel i m back.head? (m.next back.head?) = some r ∧
          r.links.Ring (front ++ (parts del i back).1) ∧ r.freed = (parts del i back).2 ∧
            Safe freed r.accesses
  | [], front, m, fuel + 1, freed, i, h, _, _, _ => ⟨⟨m, [], []⟩, rfl, h, rfl, trivial⟩
  | x :: back, front, m, fuel + 1, freed, i, h, hnodup, hfuel, hlive => by
    obtain ⟨hfront, hback⟩ := seg_append.mp h
    have hlen : back.length < fuel := by simpa using hfuel
    have hq : m.next (some x) = back.head? := hback.next_eq
    have hx : ¬freed x := hlive x (by simp)
    have hnext : ∀ y, back.head? = some y → ¬freed y := by
      intro y hy
      exact hlive y (by simp [List.mem_of_mem_head? hy])
    rw [List.head?_cons, Links.sweep, parts, hq]
    by_cases hdel : del i x = true
    · -- the element is unlinked and freed
      obtain ⟨hnodup', hxl⟩ : (front ++ back).Nodup ∧ x ∉ front ++ back := by
        have hmoved : (x :: (front ++ back)).Nodup := List.perm_middle.nodup_iff.mp hnodup
        exact ⟨(List.nodup_cons.mp hmoved).2, (List.nodup_cons.mp hmoved).1⟩
      have hlive' : ∀ y ∈ front ++ back, ¬(y = x ∨ freed y) := by
        rintro y hy (rfl | hfreed)
        · exact hxl hy
        · refine hlive y ?_ hfreed
          rcases List.mem_append.mp hy with hy | hy
          · exact List.mem_append_left _ hy
          · exact List.mem_append_right _ (List.mem_cons_of_mem x hy)
      obtain ⟨r, hr, hring, hfreed, hsafe⟩ :=
        Ring.sweep del (i + 1) (h.listDel hnodup) hnodup' hlen hlive'
      simp only [hdel, if_true, hr, Option.map_some]
      refine ⟨_, rfl, hring, congrArg (x :: ·) hfreed, hx, ?_⟩
      refine safe_touched (fun y hy => ?_) (safe_touched hnext ⟨hx, safe_touched ?_ hsafe⟩)
      · have hmem := hfront.prev_mem
        rw [hy] at hmem
        have hy : y ∈ front := by simpa using hmem
        exact hlive y (List.mem_append_left _ hy)
      · intro y hy
        exact hlive' y (List.mem_append_right _ (List.mem_of_mem_head? hy))
    · have hcons : front ++ x :: back = (front ++ [x]) ++ back := by simp
      rw [hcons] at h hnodup hlive
      obtain ⟨r, hr, hring, hfreed, hsafe⟩ := Ring.sweep del (i + 1) h hnodup hlen hlive
      simp only [hdel, Bool.false_eq_true, if_false, hr, Option.map_some]
      refine ⟨_, rfl, ?_, hfreed, hx, safe_touched hnext hsafe⟩
      rwa [List.append_assoc] at hring

end Links

end KernelModules
