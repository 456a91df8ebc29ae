import Mathlib.Tactic.Common

/-!
# Counters of type `int`

One more and one less, as long as the counter stays in range.
-/

namespace Csos

namespace Lib

theorem toInt_sub_one {c : Int32} (h : 0 < c.toInt) : (c - 1).toInt = c.toInt - 1 := by
  have hlt := c.toInt_lt
  rw [Int32.toInt_sub, Int32.toInt_one]
  exact Int.bmod_eq_of_le (by omega) (by omega)

theorem toInt_add_one {c : Int32} (h : c.toInt < 2147483647) : (c + 1).toInt = c.toInt + 1 := by
  have hle := c.le_toInt
  rw [Int32.toInt_add, Int32.toInt_one]
  exact Int.bmod_eq_of_le (by omega) (by omega)

theorem toInt_lt_max {c : Int32} (h : c ≠ Int32.maxValue) : c.toInt < 2147483647 := by
  have hle := c.toInt_lt
  have hne : c.toInt ≠ 2147483647 := fun he => h (Int32.toInt_inj.mp he)
  omega

/-- A counter is positive when it counts something. -/
theorem toInt_pos_of_ne_zero {c : Int32} {n : Nat} (h : c.toInt = n) (hc : c ≠ 0) :
    0 < c.toInt := by
  have hne : c.toInt ≠ 0 := fun he => hc (Int32.toInt_inj.mp he)
  omega

end Lib

end Csos
