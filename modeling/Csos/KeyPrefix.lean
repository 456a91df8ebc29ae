import Csos.TtyInput
import Mathlib.Data.Bool.AllAny
import Mathlib.Data.List.Chain
import Mathlib.Data.List.Induction

/-!
# The prefix of the extended keys (`handle_normal_key`)

`ks.e0` is set by 0xE0, and is cleared by the keys that ask for it: an arrow
that is pressed, Ctrl and Alt. Every other key behind the prefix leaves it
set, for whatever comes next. A key that is not in a `case` of its own is
looked up in `kmt`, which ends at 0x53.
-/

namespace Csos

open Lib

/-- The bytes that clear `ks.e0`, or are the prefix again. -/
def clearers : List UInt8 := [0xE0, 0x48, 0x4B, 0x4D, 0x50, 0x1D, 0x9D, 0x38, 0xB8]

/-- The element of `kmt` that is looked up for the byte `rc`, if one is. -/
def kmtIndex (rc : UInt8) : Option UInt8 :=
  match keyCase (keyCode rc) with
  | .default => if makeCode rc then some (keyCode rc) else none
  | _ => none

/-- `rc` is not the press of a key behind the table that has no `case`. -/
def InTable (rc : UInt8) : Prop := rc ≤ 0x53 ∨ 0x80 ≤ rc ∨ rc = 0x57 ∨ rc = 0x58

instance (rc : UInt8) : Decidable (InTable rc) := inferInstanceAs (Decidable (_ ∨ _))

/-- Does the `case` of `rc` clear `ks.e0`? -/
def clears (rc : UInt8) : Bool :=
  match keyCase (keyCode rc) with
  | .arrow => makeCode rc
  | .ctrl | .alt => true
  | _ => false

theorem forall_uint8 {P : UInt8 → Prop} (h : ∀ n < 256, P (UInt8.ofNat n)) (c : UInt8) : P c := by
  have hc := h c.toNat c.toNat_lt
  rwa [UInt8.ofNat_toNat] at hc

theorem clears_iff (rc : UInt8) : rc = keyE0 ∨ clears rc = true ↔ rc ∈ clearers :=
  @forall_uint8 (fun rc => rc = keyE0 ∨ clears rc = true ↔ rc ∈ clearers) (by decide +kernel) rc

theorem kmtIndex_le_iff (rc : UInt8) : (∀ key ∈ kmtIndex rc, key ≤ 0x53) ↔ InTable rc :=
  @forall_uint8 (fun rc => (∀ key ∈ kmtIndex rc, key ≤ 0x53) ↔ InTable rc) (by decide +kernel) rc

namespace InputState

variable {T : Type} [DecidableEq T] {past past' : UInt8 → KeyMap} {s s' : InputState T}
  {as : List (InputAction T)} {rc : UInt8}

/-- The bytes of the keyboard among the actions. -/
def typed (as : List (InputAction T)) : List UInt8 :=
  as.filterMap fun
    | .kbd rc => some rc
    | .call .. | .step _ => none

/-- Without the prefix. -/
def unprefixed (s : InputState T) : InputState T := { s with ks := { s.ks with e0 := false } }

/-! ## One byte -/

theorem notifyIsem_ks (s : InputState T) (n : Nat) : (s.notifyIsem n).ks = s.ks := by
  unfold notifyIsem
  cases (s.ttys n).isem.notify.2 <;> rfl

theorem ttyPut_ks (s : InputState T) (ch : UInt8) : (s.ttyPut ch).ks = s.ks := by
  unfold ttyPut
  split
  · rfl
  · rw [notifyIsem_ks, putIfifo]
    split <;> rfl

theorem handleFx_ks (s : InputState T) (key : UInt8) : (s.handleFx key).ks = s.ks := by
  rw [handleFx, notifyIsem_ks]
  split <;> rfl

/-- The prefix is there when it has just come, or was not asked for. -/
theorem e0_handleNormalKey (s : InputState T) (past : UInt8 → KeyMap) (rc : UInt8) :
    (s.handleNormalKey past rc).ks.e0 = true ↔ rc = keyE0 ∨ s.ks.e0 = true ∧ rc ∉ clearers := by
  by_cases he : rc = keyE0
  · subst he
    exact iff_of_true rfl (Or.inl rfl)
  rw [← clears_iff, or_iff_right he, or_iff_right he]
  unfold handleNormalKey clears
  rw [if_neg he]
  dsimp only
  cases keyCase (keyCode rc) with
  | fx => simp [handleFx_ks]
  | log | leftShift | rightShift => simp
  | arrow =>
      cases hs : s.ks.e0 with
      | false => simp [hs]
      | true =>
          cases hmake : makeCode rc with
          | false => simp [hs]
          | true => simp
  | plain ch => cases makeCode rc <;> simp [ttyPut_ks]
  | caps => cases makeCode rc <;> simp
  | ctrl | alt => cases s.ks.e0 <;> simp
  | default => cases makeCode rc <;> simp [ttyPut_ks]

/-- Nobody but the keyboard changes the state of the keys. -/
theorem step_ks {a : InputAction T} (h : s.step past a = some s') (ha : ∀ rc, a ≠ .kbd rc) :
    s'.ks = s.ks := by
  cases a with
  | kbd rc => exact absurd rfl (ha rc)
  | call t tty size =>
      rw [step] at h
      split at h
      case h_1 =>
        obtain rfl := Option.some.inj h
        unfold devTtyRead
        split <;> rfl
      case h_2 => cases h
  | step t =>
      rw [step] at h
      split at h
      case h_4 r _ =>
        obtain rfl := Option.some.inj h
        unfold stepFetch
        dsimp only
        split <;> rfl
      case h_3 | h_5 | h_6 =>
        obtain rfl := Option.some.inj h
        rfl
      all_goals cases h

/-- As long as every element that is looked up is in the table, what lies
behind the table does not matter. -/
theorem handleNormalKey_inTable (s : InputState T) (h : InTable rc) :
    s.handleNormalKey past rc = s.handleNormalKey past' rc := by
  have hindex := (kmtIndex_le_iff rc).mpr h
  unfold kmtIndex at hindex
  unfold handleNormalKey
  dsimp only
  cases hcase : keyCase (keyCode rc) with
  | default =>
      rw [hcase] at hindex
      cases hmake : makeCode rc with
      | false => rfl
      | true =>
          rw [hmake] at hindex
          have hle : ¬ keyCode rc > 0x53 := UInt8.not_lt.mpr (hindex _ rfl)
          simp only [KeyState.char, kmt, if_neg hle]
  | _ => rfl

/-! ## Runs -/

/-- All along the run of `as`: the prefix is there exactly behind an 0xE0,
a byte that stands behind another one is handled as if no prefix had ever
come, and `kmt` is read within its bounds. -/
structure Decodes (past : UInt8 → KeyMap) (s : InputState T) (as : List (InputAction T)) :
    Prop where
  prefixed : ∀ bs s', bs <+: as → run (step past) s bs = some s' →
    (s'.ks.e0 = true ↔ (typed bs).getLast? = some keyE0)
  plain : ∀ bs rc s', bs ++ [.kbd rc] <+: as → run (step past) s bs = some s' →
    (typed bs).getLast? ≠ some keyE0 →
      s'.handleNormalKey past rc = s'.unprefixed.handleNormalKey past rc
  table : ∀ rc ∈ typed as, ∀ key ∈ kmtIndex rc, key ≤ 0x53

omit [DecidableEq T] in
theorem typed_append (as bs : List (InputAction T)) : typed (as ++ bs) = typed as ++ typed bs :=
  List.filterMap_append

omit [DecidableEq T] in
theorem typed_prefix {as bs : List (InputAction T)} (h : bs <+: as) : typed bs <+: typed as :=
  h.filterMap _

/-- The bytes behind a prefix ask for it. -/
def Asked (rcs : List UInt8) : Prop := rcs.IsChain fun rc rc' => rc = keyE0 → rc' ∈ clearers

theorem asked_concat {rcs : List UInt8} :
    Asked (rcs ++ [rc]) ↔ Asked rcs ∧ (rcs.getLast? = some keyE0 → rc ∈ clearers) := by
  unfold Asked
  rw [List.isChain_append, and_iff_right (List.isChain_singleton rc)]
  simp only [List.head?_cons, Option.mem_some_iff, forall_eq']
  refine and_congr_right fun _ => ⟨fun h hlast => h _ hlast rfl, ?_⟩
  rintro h rc' hlast rfl
  exact h hlast

/-- Then the prefix is there exactly behind an 0xE0. -/
theorem e0_run (hs : s.ks.e0 = false) (h : Asked (typed as))
    (hrun : run (step past) s as = some s') :
    s'.ks.e0 = true ↔ (typed as).getLast? = some keyE0 := by
  induction as using List.reverseRecOn generalizing s' with
  | nil =>
      obtain rfl := Option.some.inj hrun
      simp [hs, typed]
  | append_singleton as a ih =>
      obtain ⟨s₁, h₁, ha⟩ := run_concat_eq_some.mp hrun
      rw [typed_append] at h ⊢
      cases a with
      | kbd rc =>
          obtain ⟨hbefore, hrc⟩ := asked_concat.mp h
          obtain rfl := Option.some.inj ha
          have hlast : (typed as ++ typed [InputAction.kbd (T := T) rc]).getLast? = some rc :=
            List.getLast?_concat
          rw [e0_handleNormalKey, ih hbefore h₁, hlast, Option.some_inj]
          exact or_iff_left fun hboth => hboth.2 (hrc hboth.1)
      | call | step =>
          have hks := step_ks ha nofun
          change Asked (typed as ++ []) at h
          change _ ↔ (typed as ++ []).getLast? = _
          rw [List.append_nil] at h ⊢
          rw [hks, ih h h₁]

/-- Where the prefix is there exactly behind an 0xE0, it is asked for. -/
theorem asked_of_prefixed (hrun : run (step past) s as = some s')
    (h : ∀ bs s', bs <+: as → run (step past) s bs = some s' →
      (s'.ks.e0 = true ↔ (typed bs).getLast? = some keyE0)) : Asked (typed as) := by
  induction as using List.reverseRecOn generalizing s' with
  | nil => exact List.isChain_nil
  | append_singleton as a ih =>
      obtain ⟨s₁, h₁, ha⟩ := run_concat_eq_some.mp hrun
      have hbefore := ih h₁ fun bs s' hbs => h bs s' (hbs.trans (List.prefix_append as [a]))
      rw [typed_append]
      cases a with
      | kbd rc =>
          refine asked_concat.mpr ⟨hbefore, fun hlast => ?_⟩
          by_contra hrc
          -- it stays, and so `rc` is one itself
          have he0 := (h as s₁ (List.prefix_append _ _) h₁).mpr hlast
          have hafter := h _ s' List.prefix_rfl hrun
          obtain rfl := Option.some.inj ha
          have hlast' : (typed (as ++ [.kbd rc])).getLast? = some rc := by
            rw [typed_append]
            exact List.getLast?_concat
          rw [e0_handleNormalKey, hlast', Option.some_inj] at hafter
          obtain rfl := hafter.mp (Or.inr ⟨he0, hrc⟩)
          exact hrc (by decide)
      | call | step =>
          change Asked (typed as ++ [])
          rwa [List.append_nil]

/-- From a state without a prefix, as `kbd_init` leaves it, a run decodes
its bytes if and only if each 0xE0 has a byte behind it that asks for it and
no key behind the table is pressed. -/
theorem decodes_iff (hs : s.ks.e0 = false) (hrun : run (step past) s as = some s') :
    Decodes past s as ↔ Asked (typed as) ∧ ∀ rc ∈ typed as, InTable rc := by
  constructor
  · intro h
    exact ⟨asked_of_prefixed hrun h.prefixed,
      fun rc hrc => (kmtIndex_le_iff rc).mp (h.table rc hrc)⟩
  · rintro ⟨hasked, htable⟩
    have he0 : ∀ bs s', bs <+: as → run (step past) s bs = some s' →
        (s'.ks.e0 = true ↔ (typed bs).getLast? = some keyE0) := by
      intro bs s' hbs hrun'
      have hfront : Asked (typed bs) := List.IsChain.prefix hasked <| typed_prefix hbs
      exact e0_run hs hfront hrun'
    refine ⟨he0, fun bs rc s' hbs hrun' hlast => ?_,
      fun rc hrc => (kmtIndex_le_iff rc).mpr (htable rc hrc)⟩
    have hoff : s'.ks.e0 = false := by
      rw [← Bool.not_eq_true, he0 bs s' ((List.prefix_append _ _).trans hbs) hrun']
      exact hlast
    have hsame : s'.unprefixed = s' := by
      rw [unprefixed, ← hoff]
    rw [hsame]

/-- The arrow upwards, and the 8 of the keypad. -/
theorem decodes_up : Decodes (fun _ => ⟨0, 0⟩) (boot : InputState Unit)
    [.kbd 0xE0, .kbd 0x48, .kbd 0x48] :=
  (decodes_iff rfl rfl).mpr ⟨by unfold Asked; decide, List.all_iff_forall_prop.mp (by decide)⟩

/-- The release of the arrow leaves the prefix to the 8 of the keypad. -/
theorem decodes_up_released : ¬ ∀ (past : UInt8 → KeyMap) (s s' : InputState Unit)
    (as : List (InputAction Unit)), s.ks.e0 = false → run (step past) s as = some s' →
    Decodes past s as := by
  intro h
  have hdecodes := h (fun _ => ⟨0, 0⟩) boot _ [.kbd 0xE0, .kbd 0xC8, .kbd 0x48] rfl rfl
  have hlast := (hdecodes.prefixed [.kbd 0xE0, .kbd 0xC8] _ ⟨[.kbd 0x48], rfl⟩ rfl).mp rfl
  exact absurd hlast (by decide)

end InputState

end Csos
