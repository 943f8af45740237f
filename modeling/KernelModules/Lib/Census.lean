import Mathlib.Data.List.Nodup
import Mathlib.Logic.Function.Basic

/-!
# Counting the parties at a point

A system of numbered parties, each somewhere in its code: `f c` is where party `c`
stands, and `l` lists those that take part. How many of them are at a point of a kind
changes by the one that moves, and by nothing else. These are the rules for a party that
moves (`KernelModules.census_update`), that leaves (`KernelModules.census_leave`) and
that joins (`KernelModules.census_join`). What holds of every party is kept in the same
way: `KernelModules.forall_update`.
-/

namespace KernelModules

variable {β : Type*} {l : List ℕ} {f : ℕ → β} {c : ℕ} {v : β} (p : β → Bool)

/-- **What holds of every party, and of the one that moves where it goes, still holds of
every party.** -/
theorem forall_update {f : ℕ → Option β} {P : ℕ → β → Prop} {v : β}
    (h : ∀ d, d ≠ c → ∀ u, f d = some u → P d u) (hv : P c v) :
    ∀ d u, Function.update f c (some v) d = some u → P d u := by
  intro d u hd
  rcases eq_or_ne d c with rfl | hne
  · rw [Function.update_self] at hd
    exact Option.some.inj hd ▸ hv
  · rw [Function.update_of_ne hne] at hd
    exact h d hne u hd

/-- How many of the parties are at a point of a kind. -/
def census (l : List ℕ) (f : ℕ → β) (p : β → Bool) : ℕ := l.countP fun c => p (f c)

/-- A party that is not listed does not count. -/
theorem census_update_of_notMem (hc : c ∉ l) :
    census l (Function.update f c v) p = census l f p := by
  refine List.countP_congr fun x hx => ?_
  have hne : x ≠ c := fun h => hc (h ▸ hx)
  rw [Function.update_of_ne hne]

/-- **A party moves.** -/
theorem census_update (hl : l.Nodup) (hc : c ∈ l) :
    census l (Function.update f c v) p + (if p (f c) then 1 else 0)
      = census l f p + if p v then 1 else 0 := by
  induction l with
  | nil => exact absurd hc List.not_mem_nil
  | cons x l ih =>
    obtain ⟨hx, hl⟩ := List.nodup_cons.mp hl
    simp only [census, List.countP_cons]
    rcases List.mem_cons.mp hc with rfl | hc
    · have hrest := census_update_of_notMem (v := v) (f := f) p hx
      rw [census, census] at hrest
      rw [Function.update_self, hrest]
      omega
    · have hne : x ≠ c := fun h => hx (h ▸ hc)
      have hrest := ih hl hc
      rw [census, census] at hrest
      rw [Function.update_of_ne hne]
      omega

/-- **A party leaves**, from a point that does not count. -/
theorem census_leave (hp : p (f c) = false) :
    census (l.filter (· ≠ c)) (Function.update f c v) p = census l f p := by
  induction l with
  | nil => rfl
  | cons x l ih =>
    rw [census, census] at ih
    rcases eq_or_ne x c with rfl | hne
    · rw [List.filter_cons_of_neg (by simp), census, census, List.countP_cons, hp, ih]
      simp
    · rw [List.filter_cons_of_pos (by simpa using hne), census, census, List.countP_cons,
        List.countP_cons, Function.update_of_ne hne, ih]

/-- **A party joins**, at a point that does not count. -/
theorem census_join (hc : c ∉ l) (hv : p v = false) :
    census (c :: l) (Function.update f c v) p = census l f p := by
  have hrest := census_update_of_notMem (v := v) (f := f) p hc
  rw [census, List.countP_cons, Function.update_self, hv]
  simpa [census] using hrest

end KernelModules
