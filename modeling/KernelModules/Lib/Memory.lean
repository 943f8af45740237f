import Mathlib.Data.List.Range
import KernelModules.Lib.Run

/-!
# Stretches of a memory

A memory is a function from positions to bytes, or to anything else.
`KernelModules.load` is what a stretch of it holds and `KernelModules.store` what it
becomes when a stretch is overwritten. A stretch can be read and written in one piece or in
several: `KernelModules.load_add` and `KernelModules.store_add`. So can one that is cut off
at the end of a file of fixed length, where `KernelModules.clip` is what is left of it:
`KernelModules.clip_add` and `KernelModules.store_clip_add`.

`KernelModules.latest` says what a memory holds after a list of stretches have been stored in
it, byte by byte: what the last of them to cover the byte has put there. A system whose
every step stores a stretch or leaves the memory alone is described by what it has stored
(`KernelModules.latest_trace`).
-/

namespace KernelModules

variable {β : Type*} {m : ℕ → β} {p n : ℕ} {u : ℕ → β}

/-- **What a stretch holds**: `n` bytes from position `p` on. -/
def load (m : ℕ → β) (p n : ℕ) : List β := (List.range n).map fun i => m (p + i)

/-- **A stretch is overwritten**: `n` bytes from position `p` on, with the bytes of `u`. -/
def store (m : ℕ → β) (p n : ℕ) (u : ℕ → β) : ℕ → β := fun i =>
  if p ≤ i ∧ i < p + n then u (i - p) else m i

@[simp] theorem load_zero (m : ℕ → β) (p : ℕ) : load m p 0 = [] := rfl

@[simp] theorem store_zero (m : ℕ → β) (p : ℕ) (u : ℕ → β) : store m p 0 u = m := by
  funext i
  exact if_neg (by omega)

/-- One byte. -/
theorem store_one (m : ℕ → β) (p : ℕ) (u : ℕ → β) :
    store m p 1 u = Function.update m p (u 0) := by
  funext i
  rcases eq_or_ne i p with rfl | hne
  · rw [store, if_pos (by omega), Nat.sub_self, Function.update_self]
  · rw [store, if_neg (by omega), Function.update_of_ne hne]

theorem store_inside {i : ℕ} (hp : p ≤ i) (hn : i < p + n) : store m p n u i = u (i - p) :=
  if_pos ⟨hp, hn⟩

theorem store_outside {i : ℕ} (h : ¬(p ≤ i ∧ i < p + n)) : store m p n u i = m i := if_neg h

/-- **A stretch, in two pieces.** -/
theorem load_add (m : ℕ → β) (p a b : ℕ) : load m p (a + b) = load m p a ++ load m (p + a) b := by
  simp only [load, List.range_add, List.map_append, List.map_map, Function.comp_def, Nat.add_assoc]

/-- **A stretch overwritten in two pieces.** -/
theorem store_add (m : ℕ → β) (p a b : ℕ) (u : ℕ → β) :
    store (store m p a u) (p + a) b (fun i => u (a + i)) = store m p (a + b) u := by
  funext i
  rcases Nat.lt_or_ge i (p + a) with hlt | hge
  · rw [store_outside (by omega)]
    rcases Nat.lt_or_ge i p with hlow | hp
    · rw [store_outside (by omega), store_outside (by omega)]
    · rw [store_inside hp hlt, store_inside hp (by omega)]
  · rcases Nat.lt_or_ge i (p + a + b) with hin | hout
    · rw [store_inside hge hin, store_inside (by omega) (by omega)]
      congr 1
      omega
    · rw [store_outside (by omega), store_outside (by omega), store_outside (by omega)]

/-! ### The end of a file -/

/-- **What is left of a stretch** of `n` bytes from position `p` on, in a file of length
`length`. -/
def clip (length p n : ℕ) : ℕ := min n (length - p)

theorem add_clip_le {length : ℕ} (hp : p ≤ length) : p + clip length p n ≤ length := by
  rw [clip]
  omega

/-- A stretch cut off at the end, in two pieces. -/
theorem clip_add (length p a b : ℕ) :
    clip length p (a + b) = clip length p a + clip length (p + clip length p a) b := by
  simp only [clip]
  omega

/-- **A file written in two pieces**: the second is what comes after the first, whether or
not all of the first has been stored. -/
theorem store_clip_add (m : ℕ → β) (length p a b : ℕ) (u : ℕ → β) :
    store (store m p (clip length p a) u) (p + clip length p a)
        (clip length (p + clip length p a) b) (fun i => u (a + i)) =
      store m p (clip length p (a + b)) u := by
  rw [clip_add]
  rcases Nat.lt_or_ge (length - p) a with hlt | hge
  · -- the first reaches the end
    have hrest : clip length (p + clip length p a) b = 0 := by
      simp only [clip]
      omega
    rw [hrest, store_zero, Nat.add_zero]
  · have hall : clip length p a = a := by
      rw [clip]
      omega
    rw [hall, store_add]

/-! ### What was stored last -/

/-- A stretch to be stored. -/
structure Stretch (β : Type*) where
  /-- The position it starts at. -/
  pos : ℕ
  /-- Its length. -/
  len : ℕ
  /-- Its bytes. -/
  bytes : ℕ → β

namespace Stretch

/-- The byte it stores at a position. -/
def at? (r : Stretch β) (i : ℕ) : Option β :=
  if r.pos ≤ i ∧ i < r.pos + r.len then some (r.bytes (i - r.pos)) else none

/-- The memory it leaves. -/
def put (r : Stretch β) (m : ℕ → β) : ℕ → β := store m r.pos r.len r.bytes

theorem put_apply (r : Stretch β) (m : ℕ → β) (i : ℕ) : r.put m i = (r.at? i).getD (m i) := by
  rw [put, store, at?]
  split
  · rfl
  · rfl

end Stretch

/-- **What was stored last**: each byte is the one the last of the stretches that cover it
stores, or the one that was there. -/
def latest (m : ℕ → β) (log : List (Stretch β)) (i : ℕ) : β :=
  (log.reverse.findSome? fun r => r.at? i).getD (m i)

theorem latest_cons (m : ℕ → β) (r : Stretch β) (log : List (Stretch β)) :
    latest m (r :: log) = latest (r.put m) log := by
  funext i
  rw [latest, latest, List.reverse_cons, List.findSome?_append, r.put_apply]
  rcases hlast : log.reverse.findSome? (fun r => r.at? i) with - | byte
  · simp
  · simp

/-- **A memory that only stores change holds what was stored last.** -/
theorem latest_trace {σ α : Type*} {step : σ → α → σ} {M : σ → ℕ → β}
    {emit : σ → α → Option (Stretch β)} {I : σ → Prop} (hinv : ∀ s a, I s → I (step s a))
    (hnone : ∀ s a, I s → emit s a = none → M (step s a) = M s)
    (hsome : ∀ s a r, I s → emit s a = some r → M (step s a) = r.put (M s)) :
    ∀ (acts : List α) {s : σ}, I s →
      M (run step s acts) = latest (M s) (trace step emit s acts)
  | [], _, _ => rfl
  | a :: acts, s, h => by
    have hrest := latest_trace hinv hnone hsome acts (hinv s a h)
    rw [run_cons, hrest, trace]
    rcases he : emit s a with - | r
    · rw [hnone s a h he]
      rfl
    · rw [hsome s a r h he, Option.toList_some, List.singleton_append, latest_cons]

end KernelModules
