import Mathlib.Algebra.Ring.Nat
import Mathlib.Data.List.Basic

/-!
# Runs, invariants and refinement

A machine is a partial step function: `none` is a step that does not
come back (a fault, or a loop that does not end). `run` iterates it
over a list of actions and `exec` does so for steps with an output.

`run_invariant` is the induction over runs; `throughout_iff_always` says
when a law holds all along a run. `exec_refines` is forward
simulation against a total specification: if every step that the
specification admits is matched and keeps the simulation relation, then
every admitted run is matched, outputs included.
-/

namespace Csos

namespace Lib

variable {S T A O : Type}

/-! ## Runs without output -/

/-- The state after the actions `as`, if every step comes back. -/
def run (step : S → A → Option S) : S → List A → Option S
  | s, [] => some s
  | s, a :: as => (step s a).bind fun s' => run step s' as

section Run

variable {step : S → A → Option S} {I : S → Prop}

@[simp] theorem run_nil (s : S) : run step s [] = some s := rfl

theorem run_cons (s : S) (a : A) (as : List A) :
    run step s (a :: as) = (step s a).bind fun s' => run step s' as := rfl

theorem run_append (s : S) (as bs : List A) :
    run step s (as ++ bs) = (run step s as).bind fun s' => run step s' bs := by
  induction as generalizing s with
  | nil => rfl
  | cons a as ih => simp only [List.cons_append, run_cons, ih, Option.bind_assoc]

theorem run_concat_eq_some {s s' : S} {as : List A} {a : A} :
    run step s (as ++ [a]) = some s' ↔ ∃ s₁, run step s as = some s₁ ∧ step s₁ a = some s' := by
  rw [run_append, Option.bind_eq_some_iff]
  refine exists_congr fun s₁ => and_congr_right fun _ => ?_
  rw [run_cons]
  simp only [run_nil, Option.bind_fun_some]

/-- What every step preserves, every run preserves. -/
theorem run_invariant (hstep : ∀ s a s', I s → step s a = some s' → I s')
    {s s' : S} {as : List A} (hs : I s) (hrun : run step s as = some s') : I s' := by
  induction as generalizing s with
  | nil =>
      obtain rfl := Option.some.inj hrun
      exact hs
  | cons a as ih =>
      rw [run_cons, Option.bind_eq_some_iff] at hrun
      obtain ⟨s₁, h₁, hrest⟩ := hrun
      exact ih (hstep s a s₁ hs h₁) hrest

/-- Every step along the run is taken with `P`. -/
def Always (step : S → A → Option S) (P : S → A → Prop) : S → List A → Prop
  | _, [] => True
  | s, a :: as => P s a ∧ ∀ s', step s a = some s' → Always step P s' as

instance decidableAlways {P : S → A → Prop} [∀ s a, Decidable (P s a)] :
    ∀ s as, Decidable (Always step P s as)
  | _, [] => isTrue trivial
  | s, a :: as =>
      match h : step s a with
      | none => decidable_of_iff (P s a) (by simp [Always, h])
      | some s' =>
          have : Decidable (Always step P s' as) := decidableAlways s' as
          decidable_of_iff (P s a ∧ Always step P s' as) (by simp [Always, h])

/-- A condition on the actions alone can be added. -/
theorem Always.and_of_forall {P : S → A → Prop} {Q : A → Prop} {s : S} {as : List A}
    (h : Always step P s as) (hQ : ∀ a ∈ as, Q a) : Always step (fun s a => P s a ∧ Q a) s as := by
  induction as generalizing s with
  | nil => trivial
  | cons a as ih =>
      exact ⟨⟨h.1, hQ a List.mem_cons_self⟩,
        fun s' h' => ih (h.2 s' h') fun b hb => hQ b (List.mem_cons_of_mem a hb)⟩

/-- The step after the first actions of a run. -/
theorem Always.after {P : S → A → Prop} {s s' : S} {a : A} {as bs : List A}
    (h : Always step P s (as ++ a :: bs)) (hrun : run step s as = some s') : P s' a := by
  induction as generalizing s with
  | nil =>
      obtain rfl := Option.some.inj hrun
      exact h.1
  | cons b as ih =>
      obtain ⟨s₁, h₁, hrest⟩ := Option.bind_eq_some_iff.mp hrun
      exact ih (h.2 s₁ h₁) hrest

/-- One step of a run that can be computed. -/
theorem always_cons_get {P : S → A → Prop} {s : S} {a : A} {as : List A} (hP : P s a)
    (h : (step s a).isSome) (hrest : Always step P ((step s a).get h) as) :
    Always step P s (a :: as) := by
  refine ⟨hP, fun s' hs' => ?_⟩
  rwa [Option.get_of_eq_some h hs'] at hrest

/-- What every step taken with `P` preserves, every run that only takes
such steps preserves. -/
theorem run_invariant_of_always {P : S → A → Prop}
    (hstep : ∀ s a s', I s → P s a → step s a = some s' → I s')
    {s s' : S} {as : List A} (hs : I s) (hP : Always step P s as)
    (hrun : run step s as = some s') : I s' := by
  induction as generalizing s with
  | nil =>
      obtain rfl := Option.some.inj hrun
      exact hs
  | cons a as ih =>
      rw [run_cons, Option.bind_eq_some_iff] at hrun
      obtain ⟨s₁, h₁, hrest⟩ := hrun
      exact ih (hstep s a s₁ hs hP.1 h₁) (hP.2 s₁ h₁) hrest

/-- If every step taken with `P` comes back and keeps `I`, so does every
run that only takes such steps. -/
theorem run_total_of_always {P : S → A → Prop}
    (hstep : ∀ s a, I s → P s a → ∃ s', step s a = some s' ∧ I s')
    {s : S} {as : List A} (hs : I s) (hP : Always step P s as) :
    ∃ s', run step s as = some s' ∧ I s' := by
  induction as generalizing s with
  | nil => exact ⟨s, rfl, hs⟩
  | cons a as ih =>
      obtain ⟨s₁, h₁, hs₁⟩ := hstep s a hs hP.1
      obtain ⟨s', h', hs'⟩ := ih hs₁ (hP.2 s₁ h₁)
      exact ⟨s', by rw [run_cons, h₁, Option.bind_some, h'], hs'⟩

/-- `L` holds in every state that the run passes. -/
def Throughout (step : S → A → Option S) (L : S → Prop) (s : S) (as : List A) : Prop :=
  ∀ bs s', bs <+: as → run step s bs = some s' → L s'

theorem throughout_nil {L : S → Prop} {s : S} : Throughout step L s [] ↔ L s := by
  refine ⟨fun h => h [] s List.prefix_rfl rfl, fun h bs s' hbs hrun => ?_⟩
  obtain rfl := List.prefix_nil.mp hbs
  obtain rfl := Option.some.inj hrun
  exact h

theorem throughout_cons {L : S → Prop} {s : S} {a : A} {as : List A} :
    Throughout step L s (a :: as)
      ↔ L s ∧ ∀ s', step s a = some s' → Throughout step L s' as := by
  refine ⟨fun h => ⟨h [] s (List.nil_prefix) rfl, fun s₁ h₁ bs s' hbs hrun => ?_⟩, ?_⟩
  · refine h (a :: bs) s' ((List.prefix_cons_inj a).mpr hbs) ?_
    rw [run_cons, h₁, Option.bind_some, hrun]
  · rintro ⟨hs, hrest⟩ bs s' hbs hrun
    cases bs with
    | nil =>
        obtain rfl := Option.some.inj hrun
        exact hs
    | cons b bs =>
        obtain ⟨rfl, htail⟩ := List.cons_prefix_cons.mp hbs
        rw [run_cons, Option.bind_eq_some_iff] at hrun
        obtain ⟨s₁, h₁, hrun⟩ := hrun
        exact hrest s₁ h₁ bs s' htail hrun

/-- When a step with `P` keeps the invariant, and one without `P` breaks
`L` at once, a run has `L` throughout exactly when all its steps have `P`.
All of this is about steps with `B`. -/
theorem throughout_iff_always {B P : S → A → Prop} {I L : S → Prop} (hL : ∀ s, I s → L s)
    (hkeep : ∀ s a s', I s → B s a → P s a → step s a = some s' → I s')
    (hbreak : ∀ s a, I s → B s a → ¬ P s a → ∃ s', step s a = some s' ∧ ¬ L s')
    {s : S} {as : List A} (hs : I s) (hB : Always step B s as) :
    Throughout step L s as ↔ Always step P s as := by
  induction as generalizing s with
  | nil =>
      rw [throughout_nil]
      exact ⟨fun _ => trivial, fun _ => hL s hs⟩
  | cons a as ih =>
      rw [throughout_cons]
      constructor
      · rintro ⟨-, hrest⟩
        have hP : P s a := by
          by_contra hn
          obtain ⟨s', h', hbad⟩ := hbreak s a hs hB.1 hn
          exact hbad (hrest s' h' [] s' List.nil_prefix rfl)
        refine ⟨hP, fun s₁ h₁ => ?_⟩
        exact (ih (hkeep s a s₁ hs hB.1 hP h₁) (hB.2 s₁ h₁)).mp (hrest s₁ h₁)
      · rintro ⟨hP, hrest⟩
        refine ⟨hL s hs, fun s₁ h₁ => ?_⟩
        exact (ih (hkeep s a s₁ hs hB.1 hP h₁) (hB.2 s₁ h₁)).mpr (hrest s₁ h₁)

/-- When `L` holds after a step exactly if it held before and the step has
`P`, it holds at the end of a run exactly if it held at the start and all
the steps have `P`. All of this is about steps with `B`. -/
theorem run_iff_always {B P : S → A → Prop} {I L : S → Prop}
    (hstep : ∀ s a s', I s → B s a → step s a = some s' → I s' ∧ (L s' ↔ L s ∧ P s a))
    {s s' : S} {as : List A} (hs : I s) (hB : Always step B s as)
    (hrun : run step s as = some s') : L s' ↔ L s ∧ Always step P s as := by
  induction as generalizing s with
  | nil =>
      obtain rfl := Option.some.inj hrun
      exact ⟨fun h => ⟨h, trivial⟩, And.left⟩
  | cons a as ih =>
      obtain ⟨s₁, h₁, hrest⟩ := Option.bind_eq_some_iff.mp hrun
      obtain ⟨hs₁, hiff⟩ := hstep s a s₁ hs hB.1 h₁
      have htail : Always step P s (a :: as) ↔ P s a ∧ Always step P s₁ as := by
        refine and_congr_right fun _ => ⟨fun h => h s₁ h₁, fun h s₂ h₂ => ?_⟩
        obtain rfl := Option.some.inj (h₁.symm.trans h₂)
        exact h
      rw [ih hs₁ (hB.2 s₁ h₁) hrest, hiff, htail, and_assoc]

/-- What holds wherever the invariant does, holds throughout a run whose
steps keep it. -/
theorem throughout_of_invariant {P : S → A → Prop} {I L : S → Prop} (hL : ∀ s, I s → L s)
    (hkeep : ∀ s a s', I s → P s a → step s a = some s' → I s') {s : S} {as : List A} (hs : I s)
    (hP : Always step P s as) : Throughout step L s as := by
  induction as generalizing s with
  | nil => exact throughout_nil.mpr (hL s hs)
  | cons a as ih =>
      refine throughout_cons.mpr ⟨hL s hs, fun s' h' => ?_⟩
      exact ih (hkeep s a s' hs hP.1 h') (hP.2 s' h')

/-- Two conditions that say the same of every step with `B` wherever the
invariant holds. It need only be kept by the steps that meet them. -/
theorem always_congr_of_invariant {B P Q : S → A → Prop}
    (hkeep : ∀ s a s', I s → B s a → Q s a → step s a = some s' → I s')
    (hPQ : ∀ s a, I s → B s a → (P s a ↔ Q s a)) {s : S} {as : List A} (hs : I s)
    (hB : Always step B s as) : Always step P s as ↔ Always step Q s as := by
  induction as generalizing s with
  | nil => exact Iff.rfl
  | cons a as ih =>
      have hiff := hPQ s a hs hB.1
      refine ⟨fun h => ⟨hiff.mp h.1, fun s' h' => ?_⟩, fun h => ⟨hiff.mpr h.1, fun s' h' => ?_⟩⟩
      · exact (ih (hkeep s a s' hs hB.1 (hiff.mp h.1) h') (hB.2 s' h')).mp (h.2 s' h')
      · exact (ih (hkeep s a s' hs hB.1 h.1 h') (hB.2 s' h')).mpr (h.2 s' h')

/-- If the actions that are not `shown` only take steps with `P`, and these
do not show, then a run is related to the run of the `shown` actions
alone. All of this is about actions with `B`. -/
theorem run_filter {R : S → S → Prop} {shown : A → Bool} {B : A → Prop} {P : S → A → Prop}
    (hshown : ∀ s t a s' t', R s t → B a → shown a = true → step s a = some s' →
      step t a = some t' → R s' t')
    (hhidden : ∀ s t a s', R s t → B a → shown a = false → P s a → step s a = some s' → R s' t)
    {s t s' t' : S} {as : List A} (hR : R s t) (hB : ∀ a ∈ as, B a)
    (hP : Always step (fun s a => shown a = false → P s a) s as)
    (hrun : run step s as = some s') (hrun' : run step t (as.filter shown) = some t') :
    R s' t' := by
  induction as generalizing s t with
  | nil =>
      obtain rfl := Option.some.inj hrun
      obtain rfl := Option.some.inj hrun'
      exact hR
  | cons a as ih =>
      obtain ⟨s₁, h₁, hrest⟩ := Option.bind_eq_some_iff.mp hrun
      have hBa := hB a List.mem_cons_self
      have hBas := fun b hb => hB b (List.mem_cons_of_mem a hb)
      cases ha : shown a with
      | false =>
          rw [List.filter_cons_of_neg (Bool.not_eq_true _ ▸ ha)] at hrun'
          exact ih (hhidden s t a s₁ hR hBa ha (hP.1 ha) h₁) hBas (hP.2 s₁ h₁) hrest hrun'
      | true =>
          rw [List.filter_cons_of_pos ha] at hrun'
          obtain ⟨t₁, ht₁, hrest'⟩ := Option.bind_eq_some_iff.mp hrun'
          exact ih (hshown s t a s₁ t₁ hR hBa ha h₁ ht₁) hBas (hP.2 s₁ h₁) hrest hrest'

/-- A condition that every step meets. -/
theorem always_of_forall {P : S → A → Prop} (h : ∀ s a, P s a) {s : S} {as : List A} :
    Always step P s as := by
  induction as generalizing s with
  | nil => trivial
  | cons a as ih => exact ⟨h s a, fun _ _ => ih⟩

end Run

/-! ## Runs with output, against a total specification -/

/-- The state and the outputs after the actions `as`. -/
def exec (step : S → A → Option (S × O)) : S → List A → Option (S × List O)
  | s, [] => some (s, [])
  | s, a :: as =>
      (step s a).bind fun r => (exec step r.1 as).map fun q => (q.1, r.2 :: q.2)

/-- The run of a total specification. -/
def specRun (spec : T → A → T × O) : T → List A → T × List O
  | t, [] => (t, [])
  | t, a :: as => ((specRun spec (spec t a).1 as).1, (spec t a).2 :: (specRun spec (spec t a).1 as).2)

/-- The specification admits every action of the run. -/
def Admitted (valid : T → A → Prop) (spec : T → A → T × O) : T → List A → Prop
  | _, [] => True
  | t, a :: as => valid t a ∧ Admitted valid spec (spec t a).1 as

theorem admitted_of_forall {valid : T → A → Prop} {spec : T → A → T × O}
    (h : ∀ t a, valid t a) {t : T} {as : List A} : Admitted valid spec t as := by
  induction as generalizing t with
  | nil => trivial
  | cons a as ih => exact ⟨h t a, ih⟩

theorem Admitted.and_of_forall {valid : T → A → Prop} {spec : T → A → T × O}
    {P : A → Prop} {t : T} {as : List A} (hv : Admitted valid spec t as)
    (hP : ∀ a ∈ as, P a) : Admitted (fun t a => valid t a ∧ P a) spec t as := by
  induction as generalizing t with
  | nil => trivial
  | cons a as ih =>
      exact ⟨⟨hv.1, hP a (by simp)⟩,
        ih hv.2 fun b hb => hP b (List.mem_cons_of_mem _ hb)⟩

/-- Forward simulation: the machine matches every admitted run. -/
theorem exec_refines {step : S → A → Option (S × O)} {spec : T → A → T × O}
    {valid : T → A → Prop} {R : S → T → Prop}
    (hstep : ∀ s t a, R s t → valid t a →
      ∃ s', step s a = some (s', (spec t a).2) ∧ R s' (spec t a).1)
    {s : S} {t : T} {as : List A} (hR : R s t) (hv : Admitted valid spec t as) :
    ∃ s', exec step s as = some (s', (specRun spec t as).2)
      ∧ R s' (specRun spec t as).1 := by
  induction as generalizing s t with
  | nil => exact ⟨s, rfl, hR⟩
  | cons a as ih =>
      obtain ⟨s₁, h₁, hR₁⟩ := hstep s t a hR hv.1
      obtain ⟨s', h', hR'⟩ := ih hR₁ hv.2
      exact ⟨s', by rw [exec, h₁, Option.bind_some, h']; rfl, hR'⟩

end Lib

end Csos
