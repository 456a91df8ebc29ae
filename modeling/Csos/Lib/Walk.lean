import Mathlib.Data.List.Forall2

/-!
# Walks along names

In a directory `find` looks a name up, and `enter` says which entries are
directories themselves. A walk takes a list of names from a directory: all
but the last of its entries are entered.
-/

namespace Csos

namespace Lib

variable {D N E : Type} (find : D → N → Option E) (enter : E → Option D)

/-- The entry that the names lead to. -/
def walk : D → List N → Option E
  | _, [] => none
  | d, [n] => find d n
  | d, n :: names => ((find d n).bind enter).bind fun d' => walk d' names

/-- The entries that the names pass. -/
def trail : D → List N → Option (List E)
  | _, [] => some []
  | d, [n] => (find d n).map fun e => [e]
  | d, n :: names =>
      (find d n).bind fun e => ((enter e).bind fun d' => trail d' names).map fun es => e :: es

variable {find enter} {d d' : D} {n : N} {names : List N} {e : E}

@[simp] theorem walk_single : walk find enter d [n] = find d n := rfl

theorem walk_cons (h : names ≠ []) :
    walk find enter d (n :: names)
      = ((find d n).bind enter).bind fun d' => walk find enter d' names := by
  cases names with
  | nil => exact absurd rfl h
  | cons m names => rfl

/-- What is not found leads nowhere. -/
theorem walk_of_find_none (h : find d n = none) : walk find enter d (n :: names) = none := by
  cases names with
  | nil => exact h
  | cons m names => rw [walk_cons (List.cons_ne_nil _ _), h]; rfl

/-- Nothing lies below an entry that is no directory. -/
theorem walk_of_enter_none (h : find d n = some e) (he : enter e = none) (hnames : names ≠ []) :
    walk find enter d (n :: names) = none := by
  rw [walk_cons hnames, h, Option.bind_some, he]
  rfl

theorem walk_of_enter (h : find d n = some e) (he : enter e = some d') (hnames : names ≠ []) :
    walk find enter d (n :: names) = walk find enter d' names := by
  rw [walk_cons hnames, h, Option.bind_some, he, Option.bind_some]

/-- Where a walk ends, something has been found. -/
theorem exists_find_of_walk (h : walk find enter d names = some e) :
    ∃ d' n, find d' n = some e := by
  induction names generalizing d with
  | nil => cases h
  | cons n names ih =>
      by_cases hnames : names = []
      · subst hnames
        exact ⟨d, n, h⟩
      · rw [walk_cons hnames] at h
        obtain ⟨d', -, hrest⟩ := Option.bind_eq_some_iff.mp h
        exact ih hrest

theorem trail_cons (h : names ≠ []) :
    trail find enter d (n :: names)
      = (find d n).bind fun e =>
          ((enter e).bind fun d' => trail find enter d' names).map fun es => e :: es := by
  cases names with
  | nil => exact absurd rfl h
  | cons m names => rfl

/-- The entries of a trail are found under their names. -/
theorem forall₂_of_trail {P : N → E → Prop} (hP : ∀ d n e, find d n = some e → P n e) {es : List E}
    (h : trail find enter d names = some es) : List.Forall₂ P names es := by
  induction names generalizing d es with
  | nil =>
      obtain rfl := Option.some.inj h
      exact .nil
  | cons n names ih =>
      by_cases hnames : names = []
      · subst hnames
        obtain ⟨e, he, rfl⟩ := Option.map_eq_some_iff.mp h
        exact .cons (hP d n e he) .nil
      · rw [trail_cons hnames] at h
        obtain ⟨e, he, hrest⟩ := Option.bind_eq_some_iff.mp h
        obtain ⟨es', hes', rfl⟩ := Option.map_eq_some_iff.mp hrest
        obtain ⟨d', -, htrail⟩ := Option.bind_eq_some_iff.mp hes'
        exact .cons (hP d n e he) (ih htrail)

theorem length_of_trail {es : List E} (h : trail find enter d names = some es) :
    names.length = es.length :=
  (forall₂_of_trail (P := fun _ _ => True) (fun _ _ _ _ => trivial) h).length_eq

/-- A trail ends where the walk does. -/
theorem walk_of_trail {es : List E} (h : trail find enter d names = some es) :
    walk find enter d names = es.getLast? := by
  induction names generalizing d es with
  | nil =>
      obtain rfl := Option.some.inj h
      rfl
  | cons n names ih =>
      by_cases hnames : names = []
      · subst hnames
        obtain ⟨e, he, rfl⟩ := Option.map_eq_some_iff.mp h
        exact he
      · rw [trail_cons hnames] at h
        obtain ⟨e, he, hrest⟩ := Option.bind_eq_some_iff.mp h
        obtain ⟨es', hes', rfl⟩ := Option.map_eq_some_iff.mp hrest
        obtain ⟨d', hd', htrail⟩ := Option.bind_eq_some_iff.mp hes'
        have hne : es' ≠ [] := by
          rintro rfl
          exact hnames (List.length_eq_zero_iff.mp (length_of_trail htrail))
        rw [walk_of_enter he hd' hnames, ih htrail, List.getLast?_cons_of_ne_nil hne]

end Lib

end Csos
