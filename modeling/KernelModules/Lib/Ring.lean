import Mathlib.Data.List.Basic
import Mathlib.Data.List.Range
import Mathlib.Data.Nat.ModEq
import Mathlib.Logic.Function.Basic

/-!
# Circular buffers and bounded queues

The arithmetic a circular buffer rests on, over an arbitrary capacity and an
arbitrary element type, and the queue it stands for.

A circular buffer is an array with three counters: where the next element goes
in, where the next one comes out, and how many there are. Nothing relates the
three but the invariant `KernelModules.Linked`; a full buffer and an empty one
have the same two indices, and only the count tells them apart. What the buffer
holds is its `KernelModules.window`, read off the array from the output index on,
and storing and taking an element act on the window as the operations of a queue
(`KernelModules.window_push`, `KernelModules.window_pop`).

The queue itself is `KernelModules.Fifo.replay`: it reads a list of events – an
insertion, an extraction *with the answer it gave*, a clearing – and refuses the
lists no bounded queue could have produced.
-/

namespace KernelModules

variable {α : Type*}

/-! ### The window of a circular buffer -/

/-- **What a circular buffer holds**: `count` elements, from index `get` on and
around the end of the array. -/
def window (n : ℕ) (buf : ℕ → α) (get count : ℕ) : List α :=
  (List.range count).map fun i => buf ((get + i) % n)

@[simp] theorem length_window (n : ℕ) (buf : ℕ → α) (get count : ℕ) :
    (window n buf get count).length = count := by
  simp [window]

/-- Two offsets below the capacity land on the same cell only when they are
equal. -/
theorem mod_add_ne {n get i count : ℕ} (hi : i < count) (hc : count < n) :
    (get + i) % n ≠ (get + count) % n := by
  intro h
  have hdvd : n ∣ get + count - (get + i) := (Nat.modEq_iff_dvd' (by omega)).mp h
  have hzero : get + count - (get + i) = 0 := Nat.eq_zero_of_dvd_of_lt hdvd (by omega)
  omega

/-- **Writing at the input index appends**: the cell written is none of those the
window reads. -/
theorem window_push {n get count : ℕ} (buf : ℕ → α) (c : α) (hc : count < n) :
    window n (Function.update buf ((get + count) % n) c) get (count + 1)
      = window n buf get count ++ [c] := by
  have hold : ∀ i ∈ List.range count,
      Function.update buf ((get + count) % n) c ((get + i) % n) = buf ((get + i) % n) :=
    fun i hi => Function.update_of_ne (mod_add_ne (List.mem_range.mp hi) hc) _ _
  rw [window, List.range_succ, List.map_append, List.map_congr_left hold]
  simp [window]

/-- **Moving the output index forward drops the first element**, which is the one
it pointed at. -/
theorem window_pop {n get : ℕ} (buf : ℕ → α) (count : ℕ) (hg : get < n) :
    window n buf get (count + 1) = buf get :: window n buf ((get + 1) % n) count := by
  rw [window, List.range_succ_eq_map, List.map_cons, List.map_map, Nat.add_zero,
    Nat.mod_eq_of_lt hg]
  refine congrArg (buf get :: ·) (List.map_congr_left fun i _ => ?_)
  change buf ((get + (i + 1)) % n) = buf (((get + 1) % n + i) % n)
  rw [Nat.mod_add_mod]
  congr 2
  omega

/-- The window of a buffer whose elements are replaced one by one. -/
theorem map_window {β : Type*} (f : α → β) (n : ℕ) (buf : ℕ → α) (get count : ℕ) :
    (window n buf get count).map f = window n (f ∘ buf) get count := by
  simp [window]

/-! ### The coupling of the three counters -/

/-- **The invariant of a circular buffer** of capacity `n`: the indices are
inside the array, the count is at most the capacity, and the input index is
`count` cells past the output one. -/
structure Linked (n put get count : ℕ) : Prop where
  /-- The input index is a cell of the array. -/
  put_lt : put < n
  /-- The output index is a cell of the array. -/
  get_lt : get < n
  /-- There are no more elements than cells. -/
  count_le : count ≤ n
  /-- The input index is where the elements end. -/
  put_eq : put = (get + count) % n

namespace Linked

variable {n put get count : ℕ}

theorem zero (h : 0 < n) : Linked n 0 0 0 := ⟨h, h, Nat.zero_le n, by simp⟩

theorem push (h : Linked n put get count) (hc : count < n) :
    Linked n ((put + 1) % n) get (count + 1) where
  put_lt := Nat.mod_lt _ (by omega)
  get_lt := h.get_lt
  count_le := hc
  put_eq := by rw [h.put_eq, Nat.mod_add_mod, Nat.add_assoc]

theorem pop (h : Linked n put get count) (hc : 0 < count) :
    Linked n put ((get + 1) % n) (count - 1) where
  put_lt := h.put_lt
  get_lt := Nat.mod_lt _ (by have := h.get_lt; omega)
  count_le := by have := h.count_le; omega
  put_eq := by
    rw [h.put_eq, Nat.mod_add_mod]
    congr 1
    omega

end Linked

/-! ### The bounded queue -/

namespace Fifo

/-- What can be seen of a queue at work. -/
inductive Event (α : Type*) where
  /-- An element offered to the queue. -/
  | push (c : α) : Event α
  /-- An extraction, with its answer: `none` when there was nothing to take. -/
  | pop (r : Option α) : Event α
  /-- The queue emptied at once. -/
  | clear : Event α

variable [DecidableEq α]

/-- **One event of a queue of capacity `cap`**: a full queue ignores what it is
offered, and an extraction is only possible with the answer the queue gives. -/
def step (cap : ℕ) (q : List α) : Event α → Option (List α)
  | .push c => some (if q.length < cap then q ++ [c] else q)
  | .pop r => if r = q.head? then some q.tail else none
  | .clear => some []

/-- **A history of the bounded queue**: the contents it leads to, if it is a
history at all. -/
def replay (cap : ℕ) (q : List α) (es : List (Event α)) : Option (List α) :=
  es.foldlM (step cap) q

@[simp] theorem replay_nil (cap : ℕ) (q : List α) : replay cap q [] = some q := rfl

@[simp] theorem replay_singleton (cap : ℕ) (q : List α) (e : Event α) :
    replay cap q [e] = step cap q e := by
  simp [replay]

theorem replay_append (cap : ℕ) (q : List α) (es es' : List (Event α)) :
    replay cap q (es ++ es') = (replay cap q es).bind fun q' => replay cap q' es' := by
  simp [replay, List.foldlM_append, Option.bind_eq_bind]

end Fifo

end KernelModules
