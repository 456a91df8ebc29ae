import Mathlib.Data.Finset.Card

/-!
# Counting tasks by where they are

The tasks whose place passes a test, counted over steps that move one task
at a time. There may be infinitely many tasks; those that count are
finitely many.

`Waiters` is the same for a queue of tasks: those that wait are in it, once
each.
-/

namespace Csos

namespace Lib

variable {T A : Type} [DecidableEq T]

/-- `who` are the tasks whose place passes the test. -/
def Census (who : Finset T) (test : A → Bool) (place : T → A) : Prop :=
  ∀ t, t ∈ who ↔ test (place t) = true

namespace Census

variable {who : Finset T} {test : A → Bool} {place : T → A} {t : T} {a : A}

omit [DecidableEq T] in
theorem empty (h : ∀ t, test (place t) = false) : Census ∅ test place :=
  fun t => iff_of_false (Finset.notMem_empty t) (by rw [h t]; exact Bool.false_ne_true)

omit [DecidableEq T] in
theorem mem (h : Census who test place) (ht : test (place t) = true) : t ∈ who := (h t).mpr ht

omit [DecidableEq T] in
theorem card_pos (h : Census who test place) (ht : test (place t) = true) : 0 < who.card :=
  Finset.card_pos.mpr ⟨t, h.mem ht⟩

omit [DecidableEq T] in
/-- At most one set of tasks is the census. -/
theorem unique {who' : Finset T} (h : Census who test place) (h' : Census who' test place) :
    who = who' := Finset.ext fun t => (h t).trans (h' t).symm

/-- One task moves. -/
theorem move (h : Census who test place) (t : T) (a : A) :
    ∃ who', Census who' test (Function.update place t a)
      ∧ who'.card + (test (place t)).toNat = who.card + (test a).toNat := by
  have hother : ∀ u, u ≠ t → Function.update place t a u = place u :=
    fun u hu => Function.update_of_ne hu _ _
  cases hold : test (place t) with
  | false =>
      have hnot : t ∉ who := fun ht => by
        rw [h t, hold] at ht
        cases ht
      cases hnew : test a with
      | false =>
          refine ⟨who, fun u => ?_, rfl⟩
          by_cases hu : u = t
          · rw [hu, Function.update_self, hnew]
            exact iff_of_false hnot Bool.false_ne_true
          · rw [hother u hu]
            exact h u
      | true =>
          refine ⟨insert t who, fun u => ?_, by simp [hnot]⟩
          by_cases hu : u = t
          · rw [hu, Function.update_self]
            exact iff_of_true (Finset.mem_insert_self t who) hnew
          · rw [hother u hu, Finset.mem_insert, h u]
            exact or_iff_right hu
  | true =>
      have hmem := h.mem hold
      cases hnew : test a with
      | false =>
          refine ⟨who.erase t, fun u => ?_, ?_⟩
          · by_cases hu : u = t
            · rw [hu, Function.update_self, hnew]
              exact iff_of_false (Finset.notMem_erase t who) Bool.false_ne_true
            · rw [hother u hu, Finset.mem_erase, h u]
              exact and_iff_right hu
          · simpa using Finset.card_erase_add_one hmem
      | true =>
          refine ⟨who, fun u => ?_, rfl⟩
          by_cases hu : u = t
          · rw [hu, Function.update_self, hnew]
            exact iff_of_true hmem rfl
          · rw [hother u hu]
            exact h u

end Census

/-- The queue `ts` holds the tasks whose place passes the test, each once. -/
structure Waiters (ts : List T) (test : A → Bool) (place : T → A) : Prop where
  mem : ∀ t, t ∈ ts ↔ test (place t) = true
  once : ts.Nodup

namespace Waiters

variable {ts : List T} {test : A → Bool} {place : T → A} {t u : T} {a : A}

omit [DecidableEq T] in
theorem empty (h : ∀ t, test (place t) = false) : Waiters [] test place where
  mem := fun t => iff_of_false List.not_mem_nil (by rw [h t]; exact Bool.false_ne_true)
  once := List.nodup_nil

/-- A task that does not wait moves to a place where it does not wait. -/
theorem move (h : Waiters ts test place) (ht : test (place t) = false) (ha : test a = false) :
    Waiters ts test (Function.update place t a) where
  once := h.once
  mem := fun u => by
    by_cases hu : u = t
    · rw [hu, Function.update_self, ha, h.mem t, ht]
    · rw [Function.update_of_ne hu]
      exact h.mem u

/-- A task joins the queue. -/
theorem join (h : Waiters ts test place) (ht : test (place t) = false) (ha : test a = true) :
    Waiters (ts ++ [t]) test (Function.update place t a) where
  once := by
    have hnot : t ∉ ts := fun hmem => by
      rw [h.mem t, ht] at hmem
      cases hmem
    refine List.nodup_append.mpr ⟨h.once, List.nodup_singleton t, fun u hu v hv => ?_⟩
    rintro rfl
    exact hnot (List.mem_singleton.mp hv ▸ hu)
  mem := fun u => by
    rw [List.mem_append, List.mem_singleton]
    by_cases hu : u = t
    · rw [hu, Function.update_self]
      exact iff_of_true (Or.inr rfl) ha
    · rw [Function.update_of_ne hu]
      exact (or_iff_left hu).trans (h.mem u)

omit [DecidableEq T] in
theorem head (h : Waiters (t :: ts) test place) : test (place t) = true :=
  (h.mem t).mp List.mem_cons_self

/-- The first one leaves the queue. -/
theorem leave (h : Waiters (t :: ts) test place) (ha : test a = false) :
    Waiters ts test (Function.update place t a) where
  once := (List.nodup_cons.mp h.once).2
  mem := fun u => by
    by_cases hu : u = t
    · rw [hu, Function.update_self]
      exact iff_of_false (List.nodup_cons.mp h.once).1 (by rw [ha]; exact Bool.false_ne_true)
    · rw [Function.update_of_ne hu, ← h.mem u, List.mem_cons, or_iff_right hu]

end Waiters

end Lib

end Csos
