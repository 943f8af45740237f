import Mathlib.Data.Nat.Notation
import Mathlib.Logic.Function.Basic

/-!
# A lock that is tried and not waited for

Numbered parties and a flag: a party that finds the flag down raises it and goes in, one
that finds it up turns away, and the one inside takes the flag down when it leaves. The
flag guards a shared value: what must hold of it while nobody is inside
(`KernelModules.TryLock.free`) is what a party that goes in may count on, and what it has
to leave behind; in between it is the party's own (`KernelModules.TryLock.own`).

`KernelModules.TryLock.Move` is what the parties may do, and
`KernelModules.TryLock.Move.owned` the rule: they stay out of each other's way.
-/

namespace KernelModules

/-- The flag, the value it guards, and where the parties stand. -/
structure LockView (σ π : Type*) where
  /-- The flag is up. -/
  held : Bool
  /-- The value. -/
  shared : σ
  /-- The parties. -/
  parties : ℕ → Option π

/-- What a try-lock is for: which places are inside, and what holds of the value. -/
structure TryLock (σ π : Type*) where
  /-- A party at this place is inside. -/
  inside : π → Bool
  /-- What holds while nobody is inside. -/
  free : σ → Prop
  /-- What holds while a party is inside, at a place. -/
  own : π → σ → Prop

namespace TryLock

variable {σ π : Type*} (L : TryLock σ π)

/-- **The flag is up exactly while one party is inside**, and the value is as that party, or
nobody, has left it. -/
structure Owned (s : LockView σ π) : Prop where
  held_iff : s.held = true ↔ ∃ c p, s.parties c = some p ∧ L.inside p = true
  unique : ∀ c d p q, s.parties c = some p → L.inside p = true → s.parties d = some q →
    L.inside q = true → c = d
  own : ∀ c p, s.parties c = some p → L.inside p = true → L.own p s.shared
  free : s.held = false → L.free s.shared

/-- **What the parties may do.** -/
inductive Move (s : LockView σ π) : LockView σ π → Prop
  /-- A party outside stays outside: it comes, or turns away. -/
  | outside {c : ℕ} {p' : π} (hc : ∀ p, s.parties c = some p → L.inside p = false)
      (hp' : L.inside p' = false) :
      Move s { s with parties := Function.update s.parties c (some p') }
  /-- A party outside finds the flag down and goes in. -/
  | acquire {c : ℕ} {p' : π} (hheld : s.held = false)
      (hc : ∀ p, s.parties c = some p → L.inside p = false) (hp' : L.inside p' = true)
      (hown : L.free s.shared → L.own p' s.shared) :
      Move s ⟨true, s.shared, Function.update s.parties c (some p')⟩
  /-- The party inside works. -/
  | work {c : ℕ} {p p' : π} {shared' : σ} (hc : s.parties c = some p) (hp : L.inside p = true)
      (hp' : L.inside p' = true) (hown : L.own p s.shared → L.own p' shared') :
      Move s ⟨s.held, shared', Function.update s.parties c (some p')⟩
  /-- The party inside leaves. -/
  | release {c : ℕ} {p p' : π} {shared' : σ} (hc : s.parties c = some p) (hp : L.inside p = true)
      (hp' : L.inside p' = false) (hfree : L.own p s.shared → L.free shared') :
      Move s ⟨false, shared', Function.update s.parties c (some p')⟩

variable {L} {s s' : LockView σ π}

/-- With the flag down nobody is inside. -/
theorem Owned.outside (h : L.Owned s) (hheld : s.held = false) {c : ℕ} {p : π}
    (hc : s.parties c = some p) : L.inside p = false := by
  by_contra hp
  have hup := h.held_iff.mpr ⟨c, p, hc, by simpa using hp⟩
  rw [hheld] at hup
  exact absurd hup (by simp)

/-- The party inside is the only one. -/
theorem Owned.outside_of_ne (h : L.Owned s) {c d : ℕ} {p q : π} (hc : s.parties c = some p)
    (hp : L.inside p = true) (hne : d ≠ c) (hd : s.parties d = some q) : L.inside q = false := by
  by_contra hq
  exact hne (h.unique d c q p hd (by simpa using hq) hc hp)

/-- Where a party stands after one of them has moved. -/
theorem parties_update {parties : ℕ → Option π} {c d : ℕ} {p' q : π}
    (hd : Function.update parties c (some p') d = some q) :
    d = c ∧ q = p' ∨ d ≠ c ∧ parties d = some q := by
  rcases eq_or_ne d c with rfl | hne
  · rw [Function.update_self] at hd
    exact .inl ⟨rfl, (Option.some.inj hd).symm⟩
  · rw [Function.update_of_ne hne] at hd
    exact .inr ⟨hne, hd⟩

/-- **The party that moves is inside, and no other**: the flag is up, and the value as it has
left it. -/
theorem owned_inside {held : Bool} {shared : σ} {parties : ℕ → Option π} {c : ℕ} {p' : π}
    (hheld : held = true) (hp' : L.inside p' = true) (hown : L.own p' shared)
    (hothers : ∀ d, d ≠ c → ∀ q, parties d = some q → L.inside q = false) :
    L.Owned ⟨held, shared, Function.update parties c (some p')⟩ := by
  have hone : ∀ {d q}, Function.update parties c (some p') d = some q → L.inside q = true →
      d = c ∧ q = p' := by
    intro d q hd hq
    refine (parties_update hd).resolve_right fun hold => ?_
    exact absurd hq (by simp [hothers d hold.1 q hold.2])
  refine ⟨iff_of_true hheld ⟨c, p', Function.update_self .., hp'⟩, ?_, ?_, fun hdown => ?_⟩
  · intro d e p q hd hp he hq
    rw [(hone hd hp).1, (hone he hq).1]
  · intro d q hd hq
    rw [(hone hd hq).2]
    exact hown
  · exact absurd (hheld.symm.trans hdown) (by simp)

/-- **Nobody is inside**: the flag is down, and it is enough that the value is as it should
be. -/
theorem owned_outside {shared : σ} {parties : ℕ → Option π}
    (hnone : ∀ d q, parties d = some q → L.inside q = false) (hfree : L.free shared) :
    L.Owned ⟨false, shared, parties⟩ := by
  refine ⟨iff_of_false (by simp) ?_, ?_, ?_, fun _ => hfree⟩
  · rintro ⟨d, q, hd, hq⟩
    exact absurd hq (by simp [hnone d q hd])
  · exact fun d e p q hd hp => absurd hp (by simp [hnone d p hd])
  · exact fun d q hd hq => absurd hq (by simp [hnone d q hd])

/-- **The parties stay out of each other's way.** -/
theorem Move.owned (hm : L.Move s s') (h : L.Owned s) : L.Owned s' := by
  cases hm with
  | @outside c p' hc hp' =>
    -- whoever is inside was, and is another
    have hold : ∀ {d q}, Function.update s.parties c (some p') d = some q → L.inside q = true →
        s.parties d = some q := by
      intro d q hd hq
      obtain ⟨-, rfl⟩ | ⟨-, hd⟩ := parties_update hd
      · exact absurd hq (by simp [hp'])
      · exact hd
    refine ⟨h.held_iff.trans ⟨?_, ?_⟩, ?_, ?_, h.free⟩
    · rintro ⟨d, q, hd, hq⟩
      have hne : d ≠ c := by
        rintro rfl
        exact absurd hq (by simp [hc q hd])
      exact ⟨d, q, (Function.update_of_ne hne ..).trans hd, hq⟩
    · rintro ⟨d, q, hd, hq⟩
      exact ⟨d, q, hold hd hq, hq⟩
    · exact fun d e p q hd hp he hq => h.unique d e p q (hold hd hp) hp (hold he hq) hq
    · exact fun d q hd hq => h.own d q (hold hd hq) hq
  | @acquire c p' hheld hc hp' hown =>
    exact owned_inside rfl hp' (hown (h.free hheld)) fun d _ q hd => h.outside hheld hd
  | @work c p p' shared' hc hp hp' hown =>
    have hheld : s.held = true := h.held_iff.mpr ⟨c, p, hc, hp⟩
    exact owned_inside hheld hp' (hown (h.own c p hc hp)) fun d hne q hd =>
      h.outside_of_ne hc hp hne hd
  | @release c p p' shared' hc hp hp' hfree =>
    refine owned_outside (fun d q hd => ?_) (hfree (h.own c p hc hp))
    obtain ⟨-, rfl⟩ | ⟨hne, hd⟩ := parties_update hd
    · exact hp'
    · exact h.outside_of_ne hc hp hne hd

/-- With nobody there, it is enough that the value is as it should be. -/
theorem owned_nobody {shared : σ} (hfree : L.free shared) :
    L.Owned ⟨false, shared, fun _ => none⟩ :=
  owned_outside (fun _ _ hd => absurd hd (by simp)) hfree

/-- **A system whose steps are moves of its parties, or nothing, keeps them out of each
other's way.** -/
theorem Owned.step {S A : Type*} {view : S → LockView σ π} {step : S → A → S} {t : S}
    (h : L.Owned (view t)) {a : A}
    (hmove : step t a = t ∨ L.Move (view t) (view (step t a))) : L.Owned (view (step t a)) := by
  rcases hmove with heq | hmove
  · rwa [heq]
  · exact hmove.owned h

end TryLock

end KernelModules
