import Mathlib.Algebra.Ring.Nat
import Mathlib.Data.List.Basic
import Mathlib.Data.Nat.ModEq
import Mathlib.Logic.Function.Basic

/-!
# Circular arrays

A queue of at most `n` elements in an array of `n` cells, from the index
`r` on and around the end. The cells outside the queue are arbitrary.
-/

namespace Csos

namespace Lib

/-- The index after `i` in an array of `n` cells. -/
def next (n i : Nat) : Nat := if n ≤ i + 1 then 0 else i + 1

theorem next_eq {n i : Nat} (h : i < n) : next n i = (i + 1) % n := by
  unfold next
  split
  case isTrue hle =>
    have he : i + 1 = n := by omega
    rw [he, Nat.mod_self]
  case isFalse hlt => exact (Nat.mod_eq_of_lt (by omega)).symm

theorem next_lt {n i : Nat} (h : i < n) : next n i < n := by
  rw [next_eq h]
  exact Nat.mod_lt _ (by omega)

/-- Two cells of the ring are the same only at the same distance. -/
theorem ring_index_inj {n r i j : Nat} (hi : i < n) (hj : j < n) :
    (r + i) % n = (r + j) % n ↔ i = j := by
  refine ⟨fun h => ?_, fun h => by rw [h]⟩
  have hmod : i % n = j % n := Nat.ModEq.add_left_cancel' r h
  rwa [Nat.mod_eq_of_lt hi, Nat.mod_eq_of_lt hj] at hmod

variable {α : Type} {buf : Nat → α} {n r : Nat} {x : α} {xs : List α}

/-- The queue `xs` lies in the cells of `buf` from `r` on. -/
structure Ring (buf : Nat → α) (n r : Nat) (xs : List α) : Prop where
  start : r < n
  fits : xs.length ≤ n
  cells : ∀ i (h : i < xs.length), buf ((r + i) % n) = xs[i]

theorem Ring.nil (h : r < n) : Ring buf n r [] :=
  ⟨h, Nat.zero_le n, fun _ hi => absurd hi (by simp)⟩

/-- Write the cell behind the last element. -/
theorem Ring.push (h : Ring buf n r xs) (hroom : xs.length < n) :
    Ring (Function.update buf ((r + xs.length) % n) x) n r (xs ++ [x]) := by
  refine ⟨h.start, by simp; omega, fun i hi => ?_⟩
  rw [List.length_append, List.length_singleton] at hi
  rcases Nat.lt_succ_iff_lt_or_eq.mp hi with hlt | rfl
  · have hne : (r + i) % n ≠ (r + xs.length) % n := by
      rw [Ne, ring_index_inj (by omega) hroom]
      omega
    rw [Function.update_of_ne hne, h.cells i hlt, List.getElem_append_left hlt]
  · rw [Function.update_self, List.getElem_append_right (Nat.le_refl _)]
    simp

/-- Read the first element and move on. -/
theorem Ring.pop (h : Ring buf n r (x :: xs)) : buf r = x ∧ Ring buf n (next n r) xs := by
  refine ⟨?_, next_lt h.start, ?_, fun i hi => ?_⟩
  · have := h.cells 0 (by simp)
    rwa [Nat.add_zero, Nat.mod_eq_of_lt h.start] at this
  · have := h.fits
    rw [List.length_cons] at this
    omega
  · have := h.cells (i + 1) (by simpa using hi)
    rw [List.getElem_cons_succ] at this
    rw [next_eq h.start, ← this, Nat.mod_add_mod, Nat.add_assoc, Nat.add_comm 1 i]

/-- The cell behind the last element, one further. -/
theorem ring_next {k : Nat} (h : 0 < n) : next n ((r + k) % n) = (r + (k + 1)) % n := by
  rw [next_eq (Nat.mod_lt _ h), Nat.mod_add_mod, Nat.add_assoc]

end Lib

end Csos
