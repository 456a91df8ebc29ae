import Mathlib.Data.Set.Basic

/-!
# Resources that are free or have one owner

Owners take what is free and give back what is theirs. As long as a step
does no more than that, no two owners ever share a resource
(`Partition.step`), and what a step writes to its owner's resources, or to
free ones, no other owner sees (`Partition.outside`).
-/

namespace Csos

namespace Lib

variable {O R : Type}

/-- What is free belongs to nobody, and nothing belongs to two owners. -/
structure Partition (free : Set R) (owns : O → Set R) : Prop where
  used : ∀ o, ∀ r ∈ owns o, r ∉ free
  unique : ∀ o o', ∀ r ∈ owns o, r ∈ owns o' → o = o'

/-- A step of the owner `o`: nothing becomes free that somebody else has,
and what `o` has got was its own or free. -/
structure StepOf (o : O) (free : Set R) (owns : O → Set R) (free' : Set R) (owns' : O → Set R) :
    Prop where
  others : ∀ o', o' ≠ o → owns' o' ⊆ owns o'
  taken : ∀ r ∈ owns' o, r ∈ owns o ∨ r ∈ free
  kept : ∀ r ∈ owns' o, r ∉ free'
  freed : ∀ r ∈ free', r ∈ free ∨ ∀ o', o' ≠ o → r ∉ owns o'

namespace Partition

variable {free free' : Set R} {owns owns' : O → Set R} {o o' : O} {r : R}

/-- What belongs to somebody else does not become free. -/
theorem other_used (h : Partition free owns) (hs : StepOf o free owns free' owns') (hne : o' ≠ o)
    (hr : r ∈ owns o') : r ∉ free' := by
  intro hfree
  rcases hs.freed r hfree with hold | hnone
  · exact h.used o' r hr hold
  · exact hnone o' hne hr

/-- What `o` has after its step belonged to nobody else. -/
theorem taken_unique (h : Partition free owns) (hs : StepOf o free owns free' owns') (hne : o' ≠ o)
    (hr : r ∈ owns' o) : r ∉ owns o' := by
  intro hr'
  rcases hs.taken r hr with hold | hfree
  · exact hne (h.unique o' o r hr' hold)
  · exact h.used o' r hr' hfree

theorem step (h : Partition free owns) (hs : StepOf o free owns free' owns') :
    Partition free' owns' where
  used := fun o' r hr => by
    by_cases hne : o' = o
    · subst hne
      exact hs.kept r hr
    · exact h.other_used hs hne (hs.others o' hne hr)
  unique := fun o₁ o₂ r h₁ h₂ => by
    by_cases hne₁ : o₁ = o
    · subst hne₁
      by_contra hne
      exact h.taken_unique hs (Ne.symm hne) h₁ (hs.others o₂ (Ne.symm hne) h₂)
    · have hold := hs.others o₁ hne₁ h₁
      by_cases hne₂ : o₂ = o
      · subst hne₂
        exact absurd hold (h.taken_unique hs hne₁ h₂)
      · exact h.unique o₁ o₂ r hold (hs.others o₂ hne₂ h₂)

/-- A step that writes only what is free or its own does not write what
belongs to somebody else. -/
theorem outside (h : Partition free owns) (hne : o' ≠ o) (hr : r ∈ owns o') :
    r ∉ free ∧ r ∉ owns o :=
  ⟨h.used o' r hr, fun hown => hne (h.unique o' o r hr hown)⟩

end Partition

end Lib

end Csos
