import Mathlib.Data.List.DropRight
import Mathlib.Data.List.GetD

/-!
# Lines of a text

A text that grows at its end, and the last lines of it: a separator opens a
new line, and everything else is put at the end of the last one.
-/

namespace Csos

namespace Lib

variable {α : Type*}

theorem getD_concat (xs : List α) (x d : α) (i : Nat) :
    (xs ++ [x]).getD i d = if i = xs.length then x else xs.getD i d := by
  rcases Nat.lt_trichotomy i xs.length with hlt | rfl | hgt
  · rw [if_neg (Nat.ne_of_lt hlt), List.getD_append _ _ _ _ hlt]
  · rw [if_pos rfl, List.getD_append_right _ _ _ _ (Nat.le_refl _), Nat.sub_self,
      List.getD_cons_zero]
  · rw [if_neg (Nat.ne_of_gt hgt), List.getD_eq_default _ _ (Nat.le_of_lt hgt),
      List.getD_eq_default _ _ (by rw [List.length_append, List.length_singleton]; omega)]

theorem getD_rtake (n : Nat) (xs : List α) (i : Nat) (d : α) :
    (xs.rtake n).getD i d = xs.getD (xs.length - n + i) d := by
  rw [List.rtake, List.getD_eq_getElem?_getD, List.getElem?_drop, List.getD_eq_getElem?_getD]

section Split

variable [BEq α] {sep x : α}

/-- A separator opens a new line. -/
theorem splitOn_concat_self [ReflBEq α] (xs : List α) :
    (xs ++ [sep]).splitOn sep = xs.splitOn sep ++ [[]] := by
  rw [List.splitOn_append_cons_self, List.splitOn_nil]

/-- Everything else goes to the last line. -/
theorem splitOn_concat (h : (x == sep) = false) (xs : List α) : ∃ lines l,
    xs.splitOn sep = lines ++ [l] ∧ (xs ++ [x]).splitOn sep = lines ++ [l ++ [x]] := by
  induction xs with
  | nil => exact ⟨[], [], List.splitOn_nil sep, by
      rw [List.nil_append, List.splitOn_cons_eq_if_modifyHead, h, List.splitOn_nil]; rfl⟩
  | cons y ys ih =>
      obtain ⟨lines, l, hys, hx⟩ := ih
      rw [List.cons_append, List.splitOn_cons_eq_if_modifyHead, List.splitOn_cons_eq_if_modifyHead,
        hys, hx]
      cases y == sep with
      | true => exact ⟨[] :: lines, l, rfl, rfl⟩
      | false =>
          cases lines with
          | nil => exact ⟨[], y :: l, rfl, rfl⟩
          | cons l₀ lines => exact ⟨(y :: l₀) :: lines, l, rfl, rfl⟩

end Split

end Lib

end Csos
