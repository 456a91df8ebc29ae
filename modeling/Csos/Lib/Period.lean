import Mathlib.Data.BitVec
import Mathlib.Logic.Function.Iterate

/-!
# Periodic timers in bit fields

A timer counts up in a field of `w` bits. When it comes to its period it
expires and starts again at 0. It may be set to anything before, also behind
its period: then it goes round first. A period of 0 is one of `2 ^ w`.
-/

namespace Csos

namespace Lib

variable {w : Nat}

structure FieldTimer (w : Nat) where
  now : BitVec w
  period : BitVec w
deriving DecidableEq

namespace FieldTimer

/-- The next tick expires the timer. -/
def expires (t : FieldTimer w) : Bool := t.now + 1 = t.period

def tick (t : FieldTimer w) : FieldTimer w :=
  { t with now := if t.now + 1 = t.period then 0 else t.now + 1 }

/-- After how many ticks it expires. -/
def left (t : FieldTimer w) : Nat := (t.period - (t.now + 1)).toNat + 1

/-- How many ticks there are between two expiries. -/
def interval (t : FieldTimer w) : Nat := (t.period - 1).toNat + 1

variable (t : FieldTimer w)

@[simp] theorem tick_interval : t.tick.interval = t.interval := rfl

/-- The next tick is the one. -/
theorem expires_iff_left : t.expires = true ↔ t.left = 1 := by
  have hzero : ∀ x : BitVec w, x.toNat = 0 ↔ x = 0 := fun x =>
    ⟨fun h => BitVec.eq_of_toNat_eq (h.trans BitVec.toNat_zero.symm),
      fun h => h ▸ BitVec.toNat_zero⟩
  rw [expires, decide_eq_true_iff, left, Nat.add_eq_right, hzero, sub_eq_zero]
  exact eq_comm

theorem tick_left_of_expires (h : t.expires = true) : t.tick.left = t.interval := by
  rw [expires, decide_eq_true_iff] at h
  rw [tick, if_pos h, left, interval, zero_add]

theorem tick_left_of_not_expires (h : ¬ t.expires = true) : t.tick.left + 1 = t.left := by
  have hne := mt (expires_iff_left t).mpr h
  rw [expires, decide_eq_true_iff] at h
  rw [left, Nat.add_eq_right] at hne
  rw [tick, if_neg h, left, left, ← sub_sub t.period]
  generalize t.period - (t.now + 1) = x at hne ⊢
  have hlt := x.isLt
  have hone : (1 : BitVec w).toNat = 1 :=
    (BitVec.toNat_ofNat 1 w).trans (Nat.mod_eq_of_lt (by omega))
  have hle : (1 : BitVec w) ≤ x := by
    rw [BitVec.le_def, hone]
    omega
  rw [BitVec.toNat_sub_of_le hle, hone]
  omega

/-- The tick behind `n` others expires the timer exactly if its number is
the first one, or some intervals later. -/
theorem expires_iterate (n : Nat) : (tick^[n] t).expires = true
    ↔ t.left ≤ n + 1 ∧ (n + 1 - t.left) % t.interval = 0 := by
  induction n generalizing t with
  | zero =>
      have hpos : 0 < t.left := Nat.succ_pos _
      rw [Function.iterate_zero_apply, expires_iff_left]
      constructor
      · intro h
        rw [h]
        exact ⟨Nat.le_refl 1, Nat.zero_mod _⟩
      · rintro ⟨hle, -⟩
        omega
  | succ n ih =>
      have hpos : 0 < t.left := Nat.succ_pos _
      have hint : 0 < t.interval := Nat.succ_pos _
      rw [Function.iterate_succ_apply, ih, tick_interval]
      by_cases h : t.expires = true
      · -- the first expiry is over
        rw [tick_left_of_expires t h, (expires_iff_left t).mp h, Nat.add_sub_cancel]
        constructor
        · rintro ⟨hle, hmod⟩
          exact ⟨by omega, (Nat.mod_eq_sub_mod hle).trans hmod⟩
        · rintro ⟨-, hmod⟩
          have hle : t.interval ≤ n + 1 := by
            by_contra hlt
            rw [Nat.mod_eq_of_lt (Nat.not_le.mp hlt)] at hmod
            omega
          exact ⟨hle, (Nat.mod_eq_sub_mod hle).symm.trans hmod⟩
      · have hleft := tick_left_of_not_expires t h
        have hsub : n + 1 + 1 - t.left = n + 1 - t.tick.left := by omega
        rw [hsub]
        exact and_congr_left' (by omega)

end FieldTimer

end Lib

end Csos
