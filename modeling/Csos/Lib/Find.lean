import Mathlib.Algebra.Ring.Nat
import Mathlib.Tactic.Common

/-!
# The first element of a kind

Where `find?` stops in a list that is put together from pieces, and what it finds when
the kind is a choice of two.
-/

namespace Csos

namespace Lib

variable {α β : Type} {p q r : β → Bool} {l as bs : List β} {a b : β}

/-- The piece where `find?` stops, and what stands before. -/
theorem find?_flatMap_split {f : α → List β} {ps : List α} (h : (ps.flatMap f).find? p = some b) :
    ∃ ps₁ x ps₂ as bs, ps = ps₁ ++ x :: ps₂ ∧ f x = as ++ b :: bs
      ∧ ∀ y ∈ ps₁.flatMap f ++ as, ¬ p y := by
  induction ps with
  | nil => cases h
  | cons x ps ih =>
      rw [List.flatMap_cons, List.find?_append] at h
      cases hx : (f x).find? p with
      | some b' =>
          rw [hx, Option.some_or] at h
          obtain rfl := Option.some.inj h
          obtain ⟨-, as, bs, hsplit, hbefore⟩ := List.find?_eq_some_iff_append.mp hx
          exact ⟨[], x, ps, as, bs, rfl, hsplit, fun y hy => by simpa using hbefore y hy⟩
      | none =>
          rw [hx, Option.none_or] at h
          obtain ⟨ps₁, x', ps₂, as, bs, rfl, hsplit, hbefore⟩ := ih h
          refine ⟨x :: ps₁, x', ps₂, as, bs, rfl, hsplit, fun y hy => ?_⟩
          rw [List.flatMap_cons, List.append_assoc] at hy
          rcases List.mem_append.mp hy with hy | hy
          · exact List.find?_eq_none.mp hx y hy
          · exact hbefore y hy

/-- What is found of two kinds and is of the first one is the first of that. -/
theorem find?_of_or (h : l.find? (fun x => q x || r x) = some a) (ha : q a) :
    l.find? q = some a := by
  obtain ⟨-, as, bs, rfl, hbefore⟩ := List.find?_eq_some_iff_append.mp h
  refine List.find?_eq_some_iff_append.mpr ⟨ha, as, bs, rfl, fun x hx => ?_⟩
  have hx' := hbefore x hx
  simp only [Bool.not_or, Bool.and_eq_true] at hx'
  exact hx'.1

/-- What is found of two kinds and is not of the first one stands before the first of
that. -/
theorem find?_before (h : (l ++ b :: bs).find? (fun x => q x || r x) = some a) (ha : ¬ q a)
    (hb : q b) : a ∈ l := by
  rw [List.find?_append] at h
  cases hl : l.find? fun x => q x || r x with
  | some a' =>
      rw [hl, Option.some_or] at h
      exact Option.some.inj h ▸ List.mem_of_find?_eq_some hl
  | none =>
      rw [hl, Option.none_or, List.find?_cons_of_pos (by simp [hb])] at h
      exact absurd (Option.some.inj h ▸ hb) ha

/-- The elements before the first one of a kind. -/
theorem takeWhile_before (has : ∀ x ∈ as, ¬ q x) (hb : q b) :
    (as ++ b :: bs).takeWhile (fun x => !q x) = as := by
  rw [List.takeWhile_append_of_pos fun x hx => by simpa using has x hx,
    List.takeWhile_cons_of_neg (by simpa using hb), List.append_nil]

/-- The first element of a kind in a range, and the others behind it. -/
theorem filter_range'_cons {P : Nat → Bool} {n i x : Nat} {xs : List Nat}
    (h : (List.range' i n).filter P = x :: xs) :
    i ≤ x ∧ x < i + n ∧ P x ∧ (List.range' (x + 1) (i + n - (x + 1))).filter P = xs := by
  induction n generalizing i with
  | zero => cases h
  | succ n ih =>
      rw [List.range'_succ, List.filter_cons] at h
      by_cases hi : P i
      · rw [if_pos hi] at h
        obtain ⟨rfl, hrest⟩ := List.cons.inj h
        refine ⟨Nat.le_refl i, by omega, hi, ?_⟩
        rwa [show i + (n + 1) - (i + 1) = n by omega]
      · rw [if_neg hi] at h
        obtain ⟨hle, hlt, hx, hrest⟩ := ih h
        refine ⟨by omega, by omega, hx, ?_⟩
        rwa [show i + (n + 1) - (x + 1) = i + 1 + n - (x + 1) by omega]

end Lib

end Csos
