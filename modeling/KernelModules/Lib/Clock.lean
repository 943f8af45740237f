import Mathlib.Algebra.Order.Group.Nat
import Mathlib.Data.Nat.Notation

/-!
# A clock that wraps

A counter of `w` bits is the low part of a clock that never turns back, and all a program can
do with two readings of it is to subtract them. Read as an unsigned number, the difference is
what has passed, as long as that fits (`KernelModules.Clock.toNat_sub_ofNat`). Read as a
signed one, it tells whether a time has come (`KernelModules.Clock.Reached`), as long as the
time was set no more than half a turn ahead (`KernelModules.Clock.not_reached`); one set
further ahead has come at once (`KernelModules.Clock.reached_far`). How long that makes one
wait is `KernelModules.Clock.wait`.
-/

namespace KernelModules

namespace Clock

variable {w : ℕ}

/-- **The difference of two readings** is what has passed between them, as long as that
fits. -/
theorem toNat_sub_ofNat {now since : ℕ} (hle : since ≤ now) (hlt : now < since + 2 ^ w) :
    (BitVec.ofNat w now - BitVec.ofNat w since).toNat = now - since := by
  obtain ⟨age, rfl⟩ := Nat.exists_eq_add_of_le' hle
  rw [BitVec.ofNat_add, BitVec.add_sub_cancel, BitVec.toNat_ofNat, Nat.add_sub_cancel]
  exact Nat.mod_eq_of_lt (by omega)

/-- **A time has come**: the difference is not negative. -/
def Reached (now expires : BitVec w) : Prop := 0 ≤ (now - expires).toInt

instance (now expires : BitVec w) : Decidable (Reached now expires) :=
  inferInstanceAs (Decidable (_ ≤ _))

theorem reached_iff {now expires : BitVec w} :
    Reached now expires ↔ 2 * (now - expires).toNat < 2 ^ w := BitVec.toInt_pos_iff

/-- The difference of a reading and a time not further than one turn ahead of it. -/
theorem toNat_sub_ahead {now ahead : ℕ} (hpos : 0 < ahead) (hlt : ahead < 2 ^ w) :
    (BitVec.ofNat w now - BitVec.ofNat w (now + ahead)).toNat = 2 ^ w - ahead := by
  have hsub : BitVec.ofNat w now - BitVec.ofNat w (now + ahead) = -BitVec.ofNat w ahead := by
    rw [BitVec.ofNat_add, BitVec.sub_eq_add_neg, BitVec.neg_add, BitVec.sub_eq_add_neg,
      ← BitVec.add_assoc, BitVec.add_right_neg, BitVec.zero_add]
  rw [hsub, BitVec.toNat_neg, BitVec.toNat_ofNat, Nat.mod_eq_of_lt hlt]
  exact Nat.mod_eq_of_lt (by omega)

/-- **A time that was set no more than half a turn ahead** has not come before it comes. -/
theorem not_reached {now expires : ℕ} (hlt : now < expires) (hhalf : 2 * (expires - now) ≤ 2 ^ w) :
    ¬Reached (BitVec.ofNat w now) (BitVec.ofNat w expires) := by
  obtain ⟨ahead, rfl⟩ := Nat.exists_eq_add_of_le hlt.le
  rw [Nat.add_sub_cancel_left] at hhalf
  rw [reached_iff, toNat_sub_ahead (by omega) (by omega)]
  omega

/-- It has come when it comes. -/
theorem reached_self (now : BitVec w) : Reached now now := by
  rw [Reached, BitVec.sub_self, BitVec.toInt_zero]

/-- **A time more than half a turn ahead**, and less than a whole one, has come. -/
theorem reached_far {now ahead : ℕ} (hhalf : 2 ^ w < 2 * ahead) (hlt : ahead < 2 ^ w) :
    Reached (BitVec.ofNat w now) (BitVec.ofNat w (now + ahead)) := by
  rw [reached_iff, toNat_sub_ahead (by omega) hlt]
  omega

/-- **How many ticks pass** before a time set some ticks ahead has come: all of them, or none. -/
def wait (delay : BitVec w) : ℕ := if 2 * delay.toNat ≤ 2 ^ w then delay.toNat else 0

theorem two_mul_wait_le (delay : BitVec w) : 2 * wait delay ≤ 2 ^ w := by
  rw [wait]
  split
  · assumption
  · exact Nat.zero_le _

/-- A delay of no more than half a turn is waited for. -/
theorem wait_ofNat {ahead : ℕ} (hhalf : 2 * ahead ≤ 2 ^ w) :
    wait (BitVec.ofNat w ahead) = ahead := by
  have hpos : 0 < 2 ^ w := Nat.two_pow_pos w
  rw [wait, BitVec.toNat_ofNat, Nat.mod_eq_of_lt (by omega), if_pos hhalf]

theorem ofNat_add_toNat (now : ℕ) (delay : BitVec w) :
    BitVec.ofNat w now + delay = BitVec.ofNat w (now + delay.toNat) := by
  rw [BitVec.ofNat_add, BitVec.ofNat_toNat, BitVec.setWidth_eq]

/-- It has not come before. -/
theorem not_reached_of_lt_wait {now later : ℕ} {delay : BitVec w} (hle : now ≤ later)
    (hlt : later < now + wait delay) :
    ¬Reached (BitVec.ofNat w later) (BitVec.ofNat w now + delay) := by
  rw [ofNat_add_toNat]
  rw [wait] at hlt
  split at hlt
  · exact not_reached hlt (by omega)
  · omega

/-- It has come then. -/
theorem reached_wait (now : ℕ) (delay : BitVec w) :
    Reached (BitVec.ofNat w (now + wait delay)) (BitVec.ofNat w now + delay) := by
  rw [ofNat_add_toNat, wait]
  split
  · exact reached_self _
  · rw [Nat.add_zero]
    exact reached_far (by omega) delay.isLt

end Clock

end KernelModules
