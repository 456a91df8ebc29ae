import Mathlib.Data.List.TakeWhile
import Mathlib.Data.Nat.Digits.Lemmas

/-!
# Numerals

A numeral is a row of digits with the highest one first. `horner b` is what
a reader makes of it who multiplies by `b` and adds, digit after digit;
`numeral b n` is the row without leading zeros, and a single zero for 0.
A reader that counts in another type makes the image of that number.
-/

namespace Csos

namespace Lib

variable {b n v : Nat} {ds es : List Nat}

/-- The value of the digits `ds` behind a numeral of the value `v`. -/
def horner (b v : Nat) (ds : List Nat) : Nat := ds.foldl (fun v d => v * b + d) v

/-- The digits of `n`. -/
def numeral (b n : Nat) : List Nat := if n = 0 then [0] else (Nat.digits b n).reverse

@[simp]
theorem horner_nil : horner b v [] = v := rfl

@[simp]
theorem horner_cons {d : Nat} : horner b v (d :: ds) = horner b (v * b + d) ds := rfl

theorem horner_zeros (k : Nat) : horner b 0 (List.replicate k 0 ++ ds) = horner b 0 ds := by
  induction k with
  | zero => rfl
  | succ k ih => rw [List.replicate_succ, List.cons_append, horner_cons, Nat.zero_mul, ih]

/-- A reader whose steps are those of `φ` makes `φ` of the value. -/
theorem foldl_horner {α β : Type} {φ : Nat → α} {step : α → β → α} {digit : β → Nat} {cs : List β}
    (hstep : ∀ v, ∀ c ∈ cs, step (φ v) c = φ (v * b + digit c)) :
    cs.foldl step (φ v) = φ (horner b v (cs.map digit)) := by
  induction cs generalizing v with
  | nil => rfl
  | cons c cs ih =>
      rw [List.foldl_cons, hstep v c List.mem_cons_self,
        ih fun v c hc => hstep v c (List.mem_cons_of_mem _ hc), List.map_cons, horner_cons]

/-! ## The digits of a number -/

theorem horner_numeral (b n : Nat) : horner b 0 (numeral b n) = n := by
  rw [numeral]
  split
  case isTrue h0 => simp [h0]
  case isFalse h0 =>
    rw [horner, List.foldl_reverse]
    calc (Nat.digits b n).foldr (fun d v => v * b + d) 0
        = (Nat.digits b n).foldr (fun d v => d + b * v) 0 := by
          simp only [Nat.add_comm, Nat.mul_comm]
      _ = Nat.ofDigits b (Nat.digits b n) := (Nat.ofDigits_eq_foldr b _).symm
      _ = n := Nat.ofDigits_digits b n

theorem numeral_lt (hb : 1 < b) : ∀ d ∈ numeral b n, d < b := by
  intro d hd
  rw [numeral] at hd
  split at hd
  case isTrue => rw [List.mem_singleton.mp hd]; omega
  case isFalse => exact Nat.digits_lt_base hb (List.mem_reverse.mp hd)

theorem numeral_ne_nil : numeral b n ≠ [] := by
  rw [numeral]
  split
  case isTrue => exact List.cons_ne_nil 0 []
  case isFalse h0 =>
    exact fun h => h0 (Nat.digits_eq_nil_iff_eq_zero.mp (List.reverse_eq_nil_iff.mp h))

theorem numeral_of_lt (h : n < b) : numeral b n = [n] := by
  rw [numeral]
  split
  case isTrue h0 => rw [h0]
  case isFalse h0 => rw [Nat.digits_of_lt b n h0 h, List.reverse_singleton]

/-- The last digit behind the others. -/
theorem numeral_of_ge (hb : 1 < b) (h : b ≤ n) : numeral b n = numeral b (n / b) ++ [n % b] := by
  have hdiv : n / b ≠ 0 := Nat.ne_of_gt (Nat.div_pos h (by omega))
  rw [numeral, if_neg (by omega), numeral, if_neg hdiv, Nat.digits_eq_cons_digits_div hb (by omega),
    List.reverse_cons]

/-- A number above 0 has no leading zero. -/
theorem numeral_head (h0 : n ≠ 0) : (numeral b n).head numeral_ne_nil ≠ 0 := by
  simp only [numeral, h0, if_false, List.head_reverse]
  exact Nat.getLast_digit_ne_zero b h0

/-- How many digits there are for a number below `b ^ k`. -/
theorem numeral_length (hb : 1 < b) {k : Nat} (hk : 0 < k) (h : n < b ^ k) :
    (numeral b n).length ≤ k := by
  induction k generalizing n with
  | zero => exact absurd hk (Nat.lt_irrefl 0)
  | succ k ih =>
      rcases Nat.lt_or_ge n b with hlt | hge
      · rw [numeral_of_lt hlt]
        exact Nat.succ_le_succ (Nat.zero_le k)
      · have hk' : 0 < k := by
          refine Nat.pos_of_ne_zero fun hk0 => ?_
          rw [hk0, Nat.zero_add, pow_one] at h
          omega
        have hdiv : n / b < b ^ k := by
          rw [Nat.div_lt_iff_lt_mul (by omega), ← pow_succ]
          exact h
        rw [numeral_of_ge hb hge, List.length_append, List.length_singleton]
        exact Nat.succ_le_succ (ih hk' hdiv)

end Lib

end Csos
