import Mathlib.Logic.Function.Basic

/-!
# Ownership that is recorded twice

A resource names its owner, and an owner names its resource. The two
records agree when the owner that a resource names is exactly the one that
names it. What an owner names need not be owned: only the resources are
checked.

Each lemma says when one change of the records keeps the agreement, given
that it held before.
-/

namespace Csos

namespace Lib

variable {P I : Type} [DecidableEq P] [DecidableEq I]

/-- `owner p` is the one that names `p`, and the only one. -/
def OwnedOnce (owner : P → Option I) (claim : I → Option P) : Prop :=
  ∀ p i, owner p = some i → ∀ j, claim j = some p ↔ j = i

namespace OwnedOnce

variable {owner : P → Option I} {claim : I → Option P} {p q : P} {i j k : I}

omit [DecidableEq P] [DecidableEq I] in
theorem claim_owner (h : OwnedOnce owner claim) (hp : owner p = some i) : claim i = some p :=
  (h p i hp i).mpr rfl

omit [DecidableEq P] [DecidableEq I] in
theorem eq_of_claim (h : OwnedOnce owner claim) (hp : owner p = some i) (hj : claim j = some p) :
    j = i := (h p i hp j).mp hj

/-- `i` names `q` without taking it. -/
theorem name_iff (h : OwnedOnce owner claim) :
    OwnedOnce owner (Function.update claim i (some q))
      ↔ claim i = some q ∨ (∀ p, claim i = some p → owner p = none) ∧ owner q = none := by
  constructor
  · intro h'
    by_cases hi : claim i = some q
    · exact Or.inl hi
    refine Or.inr ⟨fun p hp => ?_, ?_⟩
    · rw [Option.eq_none_iff_forall_ne_some]
      intro k hk
      obtain rfl := h.eq_of_claim hk hp
      have hnew := h'.claim_owner hk
      rw [Function.update_self] at hnew
      rw [← Option.some.inj hnew] at hp
      exact hi hp
    · rw [Option.eq_none_iff_forall_ne_some]
      intro k hk
      obtain rfl : i = k := h'.eq_of_claim hk (Function.update_self _ _ _)
      exact hi (h.claim_owner hk)
  · rintro (hi | ⟨hfree, hq⟩)
    · rw [← hi, Function.update_eq_self]
      exact h
    · intro p k hk j
      by_cases hji : j = i
      · subst hji
        rw [Function.update_self]
        refine iff_of_false (fun heq => ?_) (fun heq => ?_)
        · rw [← Option.some.inj heq, hq] at hk
          cases hk
        · rw [← heq] at hk
          cases (hfree p (h.claim_owner hk)).symm.trans hk
      · rw [Function.update_of_ne hji]
        exact h p k hk j

/-- `i` gives up what it names, and goes. -/
theorem release (h : OwnedOnce owner claim) (hi : claim i = some q ∨ claim i = none) :
    OwnedOnce (Function.update owner q none) (Function.update claim i none) := by
  intro p k hk j
  have hpq : p ≠ q := by
    rintro rfl
    rw [Function.update_self] at hk
    cases hk
  rw [Function.update_of_ne hpq] at hk
  have hclaim : claim i ≠ some p := by
    intro hip
    rcases hi with hi | hi
    · exact hpq (Option.some.inj (hip.symm.trans hi))
    · cases hip.symm.trans hi
  by_cases hji : j = i
  · subst hji
    rw [Function.update_self]
    refine iff_of_false nofun (fun heq => ?_)
    rw [← heq] at hk
    exact hclaim (h.claim_owner hk)
  · rw [Function.update_of_ne hji]
    exact h p k hk j

end OwnedOnce

end Lib

end Csos
