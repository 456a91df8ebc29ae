import Mathlib.Algebra.Ring.Nat
import Mathlib.Tactic.Common

/-!
# Loops that may not end

The body of a loop takes a state and either leaves the loop with a result
or goes round again. `loopFor` runs it for a number of rounds, and a loop
ends with a result when some number of rounds is enough for it. How a
round goes decides how the loop goes: `ends_leave_iff`, `ends_again_iff`. A loop
has one result (`Ends.unique`), and it is where the invariant of its rounds
leads (`Ends.invariant`).
-/

namespace Csos

namespace Lib

/-- What a round of a loop does. -/
inductive Round (S R : Type) where
  | leave (r : R)
  | again (s : S)

variable {S R : Type} {body : S → Round S R} {s s' : S} {r r' : R}

/-- At most `n` rounds. -/
def loopFor (body : S → Round S R) : Nat → S → Option R
  | 0, _ => none
  | n + 1, s =>
      match body s with
      | .leave r => some r
      | .again s' => loopFor body n s'

/-- More rounds change nothing. -/
theorem loopFor_le {n m : Nat} (h : loopFor body n s = some r) (hle : n ≤ m) :
    loopFor body m s = some r := by
  induction n generalizing m s with
  | zero => cases h
  | succ n ih =>
      obtain ⟨m, rfl⟩ : ∃ m', m = m' + 1 := ⟨m - 1, by omega⟩
      rw [loopFor] at h ⊢
      cases hb : body s with
      | leave r₀ =>
          rw [hb] at h
          exact h
      | again s₀ =>
          rw [hb] at h
          exact ih h (by omega)

/-- The loop, begun with `s`, ends with `r`. -/
def Ends (body : S → Round S R) (s : S) (r : R) : Prop := ∃ n, loopFor body n s = some r

theorem ends_leave_iff (h : body s = .leave r) : Ends body s r' ↔ r' = r := by
  constructor
  · rintro ⟨n, hn⟩
    cases n with
    | zero => exact absurd hn (by simp [loopFor])
    | succ n =>
        rw [loopFor, h] at hn
        exact (Option.some.inj hn).symm
  · rintro rfl
    exact ⟨1, by rw [loopFor, h]⟩

theorem ends_again_iff (h : body s = .again s') : Ends body s r ↔ Ends body s' r := by
  constructor
  · rintro ⟨n, hn⟩
    cases n with
    | zero => exact absurd hn (by simp [loopFor])
    | succ n => exact ⟨n, by rwa [loopFor, h] at hn⟩
  · rintro ⟨n, hn⟩
    exact ⟨n + 1, by rwa [loopFor, h]⟩

theorem Ends.of_leave (h : body s = .leave r) : Ends body s r := (ends_leave_iff h).mpr rfl

/-- A loop ends with one result. -/
theorem Ends.unique (h : Ends body s r) (h' : Ends body s r') : r = r' := by
  obtain ⟨n, hn⟩ := h
  induction n generalizing s with
  | zero => cases hn
  | succ n ih =>
      rw [loopFor] at hn
      cases hb : body s with
      | leave r₀ =>
          rw [hb] at hn
          obtain rfl := Option.some.inj hn
          exact ((ends_leave_iff hb).mp h').symm
      | again s₀ =>
          rw [hb] at hn
          exact ih ((ends_again_iff hb).mp h') hn

/-- A round that comes back to where it began comes back forever. -/
theorem not_ends_of_again_self (h : body s = .again s) : ¬ Ends body s r := by
  rintro ⟨n, hn⟩
  induction n with
  | zero => cases hn
  | succ n ih =>
      rw [loopFor, h] at hn
      exact ih hn

/-- The loop, begun with the first state, passes the second one. -/
inductive Passes (body : S → Round S R) : S → S → Prop
  | refl (s : S) : Passes body s s
  | head {s s' t : S} (h : body s = .again s') (hrest : Passes body s' t) : Passes body s t

/-- What every round keeps holds wherever the loop passes. -/
theorem Passes.invariant {I : S → Prop} (hagain : ∀ s s', I s → body s = .again s' → I s')
    (h : Passes body s s') (hs : I s) : I s' := by
  induction h with
  | refl => exact hs
  | head h _ ih => exact ih (hagain _ _ hs h)

/-- What every round keeps holds where the loop is left. -/
theorem Ends.invariant {I : S → Prop} {Q : R → Prop}
    (hagain : ∀ s s', I s → body s = .again s' → I s')
    (hleave : ∀ s r, I s → body s = .leave r → Q r) (h : Ends body s r) (hs : I s) : Q r := by
  obtain ⟨n, hn⟩ := h
  induction n generalizing s with
  | zero => cases hn
  | succ n ih =>
      rw [loopFor] at hn
      cases hb : body s with
      | leave r₀ =>
          rw [hb] at hn
          obtain rfl := Option.some.inj hn
          exact hleave s r₀ hs hb
      | again s₀ =>
          rw [hb] at hn
          exact ih (hagain s s₀ hs hb) hn

end Lib

end Csos
