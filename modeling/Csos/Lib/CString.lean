import Mathlib.Data.List.GetD
import Csos.Lib.Bytes

/-!
# Strings that end in a zero byte

`IsString m a l` says that a reader who starts at `a` and stops at the
first zero finds the characters `l`. `Shows m a n l` is what a buffer of
`n` bytes is like while one edits the end of `l`: all of its bytes behind
the characters are zero. If `l` is too long for it, its first characters
are there.
-/

namespace Csos

namespace Lib

namespace Bytes

variable {m m' : Bytes} {a n : Nat} {l l' : List (BitVec 8)} {c : BitVec 8}

/-- The characters from `a` up to the first zero are `l`. -/
def IsString (m : Bytes) (a : Nat) (l : List (BitVec 8)) : Prop :=
  0 ∉ l ∧ ∀ i ≤ l.length, m (a + i) = l.getD i 0

instance : Decidable (IsString m a l) := inferInstanceAs (Decidable (_ ∧ _))

/-- The `n` bytes from `a` on are those of `l` with zeros behind it. -/
def Shows (m : Bytes) (a n : Nat) (l : List (BitVec 8)) : Prop :=
  0 ∉ l ∧ ∀ i < n, m (a + i) = l.getD i 0

/-- The characters from `a` up to the first zero, of `n` bytes at most. -/
def stringAt (m : Bytes) (a : Nat) : Nat → List (BitVec 8)
  | 0 => []
  | n + 1 => if m a = 0 then [] else m a :: stringAt m (a + 1) n

/-! ## Reading -/

theorem Shows.isString (h : Shows m a n l) (hl : l.length < n) : IsString m a l :=
  ⟨h.1, fun i hi => h.2 i (Nat.lt_of_le_of_lt hi hl)⟩

theorem getD_ne_zero (h : 0 ∉ l) {i : Nat} (hi : i < l.length) : l.getD i 0 ≠ 0 := by
  rw [List.getD_eq_getElem l 0 hi]
  exact fun h0 => h (h0 ▸ List.getElem_mem hi)

theorem IsString.nul (h : IsString m a l) : m (a + l.length) = 0 := by
  rw [h.2 l.length (Nat.le_refl _), List.getD_eq_default _ _ (Nat.le_refl _)]

theorem IsString.length_le (h : IsString m a l) (h' : IsString m a l') : l.length ≤ l'.length := by
  refine Nat.le_of_not_lt fun hlt => ?_
  have hne := getD_ne_zero h.1 hlt
  rw [← h.2 l'.length (by omega), h'.nul] at hne
  exact hne rfl

/-- There is one string at an address. -/
theorem IsString.unique (h : IsString m a l) (h' : IsString m a l') : l = l' := by
  have hlen := Nat.le_antisymm (h.length_le h') (h'.length_le h)
  refine List.ext_getElem hlen fun i hi hi' => ?_
  have hbyte := h.2 i (by omega)
  rw [h'.2 i (by omega), List.getD_eq_getElem l' 0 hi', List.getD_eq_getElem l 0 hi] at hbyte
  exact hbyte.symm

theorem isString_nil : IsString m a [] ↔ m a = 0 := by
  simp [IsString]

theorem isString_cons : IsString m a (c :: l) ↔ m a = c ∧ c ≠ 0 ∧ IsString m (a + 1) l := by
  constructor
  · rintro ⟨h0, h⟩
    have hc := h 0 (Nat.zero_le _)
    refine ⟨by simpa using hc, fun hz => h0 (by simp [hz]),
      fun hl => h0 (List.mem_cons_of_mem c hl), fun i hi => ?_⟩
    rw [Nat.add_assoc, Nat.add_comm 1 i]
    simpa using h (i + 1) (by simpa using hi)
  · rintro ⟨hc, h0, hl, h⟩
    refine ⟨?_, fun i hi => ?_⟩
    · rw [List.mem_cons]
      rintro (hz | hz)
      · exact h0 hz.symm
      · exact hl hz
    · cases i with
      | zero => simpa using hc
      | succ i =>
          rw [Nat.add_comm i 1, ← Nat.add_assoc, h i (by simpa using hi), Nat.add_comm 1 i]
          rfl

/-- The end of a string is one. -/
theorem IsString.of_append (h : IsString m a (l ++ l')) : IsString m (a + l.length) l' := by
  refine ⟨fun h0 => h.1 (List.mem_append_right l h0), fun i hi => ?_⟩
  rw [Nat.add_assoc, h.2 _ (by rw [List.length_append]; omega),
    List.getD_append_right _ _ _ _ (Nat.le_add_right _ _), Nat.add_sub_cancel_left]

/-- The beginning of a string is one where a zero stands behind it. -/
theorem IsString.cut (h : IsString m a (l ++ l')) (hm : ∀ i < l.length, m' (a + i) = m (a + i))
    (hzero : m' (a + l.length) = 0) : IsString m' a l := by
  refine ⟨fun h0 => h.1 (List.mem_append_left l' h0), fun i hi => ?_⟩
  rcases Nat.lt_or_eq_of_le hi with hlt | rfl
  · rw [hm i hlt, h.2 i (by rw [List.length_append]; omega), List.getD_append _ _ _ _ hlt]
  · rw [hzero, List.getD_eq_default _ _ (Nat.le_refl _)]

theorem IsString.stringAt_eq (h : IsString m a l) (hn : l.length < n) : stringAt m a n = l := by
  induction l generalizing a n with
  | nil =>
      obtain ⟨n, rfl⟩ := Nat.exists_eq_succ_of_ne_zero (Nat.ne_of_gt hn)
      exact if_pos (isString_nil.mp h)
  | cons c l ih =>
      obtain ⟨n, rfl⟩ := Nat.exists_eq_succ_of_ne_zero (Nat.ne_of_gt (Nat.zero_lt_of_lt hn))
      obtain ⟨hc, h0, hl⟩ := isString_cons.mp h
      rw [stringAt, if_neg (hc ▸ h0), hc, ih hl (by simpa using hn)]

theorem IsString.congr (h : IsString m a l) (hm : ∀ i ≤ l.length, m' (a + i) = m (a + i)) :
    IsString m' a l :=
  ⟨h.1, fun i hi => (hm i hi).trans (h.2 i hi)⟩

theorem Shows.congr (h : Shows m a n l) (hm : ∀ i < n, m' (a + i) = m (a + i)) :
    Shows m' a n l :=
  ⟨h.1, fun i hi => (hm i hi).trans (h.2 i hi)⟩

theorem Shows.stringAt_eq (h : Shows m a n l) : stringAt m a n = l.take n := by
  induction n generalizing a l with
  | zero => rfl
  | succ n ih =>
      have hfirst := h.2 0 (Nat.zero_lt_succ n)
      rw [Nat.add_zero] at hfirst
      cases l with
      | nil => exact if_pos hfirst
      | cons c l =>
          have hc : m a = c := hfirst
          have h0 : c ≠ 0 := fun hz => h.1 (by simp [hz])
          have htail : Shows m (a + 1) n l := by
            refine ⟨fun hl => h.1 (List.mem_cons_of_mem c hl), fun i hi => ?_⟩
            rw [Nat.add_assoc, Nat.add_comm 1 i]
            exact h.2 (i + 1) (by omega)
          rw [stringAt, if_neg (hc ▸ h0), hc, ih htail, List.take_succ_cons]

/-! ## Editing the end -/

theorem shows_fill : Shows (fill m a 0 n) a n [] :=
  ⟨List.not_mem_nil, fun _ _ => if_pos (by omega)⟩

/-- One character more. -/
theorem Shows.push (h : Shows m a n l) (hc : c ≠ 0) :
    Shows (store8 m (a + l.length) c) a n (l ++ [c]) := by
  refine ⟨?_, fun i hi => ?_⟩
  · rw [List.mem_append, List.mem_singleton]
    rintro (h0 | h0)
    · exact h.1 h0
    · exact hc h0.symm
  · rcases eq_or_ne i l.length with rfl | hne
    · rw [store8_self, List.getD_append_right _ _ _ _ (Nat.le_refl _)]
      simp
    · rw [store8_of_ne (by omega), h.2 i hi]
      rcases Nat.lt_or_gt_of_ne hne with hlt | hgt
      · rw [List.getD_append _ _ _ _ hlt]
      · rw [List.getD_eq_default _ _ (by omega), List.getD_eq_default _ _
          (by rw [List.length_append, List.length_singleton]; omega)]

/-- The last character is gone. -/
theorem Shows.pop (h : Shows m a n l) :
    Shows (store8 m (a + (l.length - 1)) 0) a n l.dropLast := by
  refine ⟨fun h0 => h.1 (List.dropLast_subset l h0), fun i hi => ?_⟩
  rcases eq_or_ne i (l.length - 1) with rfl | hne
  · rw [store8_self, List.getD_eq_default _ _ (by simp)]
  · rw [store8_of_ne (by omega), h.2 i hi]
    rcases Nat.lt_or_ge i (l.length - 1) with hlt | hge
    · rw [List.getD_eq_getElem l.dropLast 0 (by simpa using hlt), List.getElem_dropLast,
        List.getD_eq_getElem]
    · rw [List.getD_eq_default _ _ (by omega), List.getD_eq_default _ _ (by simpa using hge)]

/-! ## Copies -/

/-- The copy of a string with its zero. -/
theorem IsString.copy (h : IsString m' 0 l) : IsString (copy m a m' (l.length + 1)) a l := by
  refine ⟨h.1, fun i hi => ?_⟩
  rw [copy_inside (by omega) (by omega), Nat.add_sub_cancel_left, ← h.2 i hi, Nat.zero_add]

/-- The copy of a string over one of the same length. -/
theorem Shows.copy (h : Shows m a n l) (h' : IsString m' 0 l') (hlen : l'.length = l.length) :
    Shows (copy m a m' (l'.length + 1)) a n l' := by
  refine ⟨h'.1, fun i hi => ?_⟩
  rcases Nat.lt_or_ge l'.length i with hlt | hge
  · rw [copy_outside (Or.inr (by omega)), h.2 i hi, List.getD_eq_default _ _ (by omega),
      List.getD_eq_default _ _ (by omega)]
  · exact h'.copy.2 i hge

/-- A copy that grows by one byte. -/
theorem store8_copy (m m' : Bytes) (a n : Nat) :
    store8 (copy m a m' n) (a + n) (m' n) = copy m a m' (n + 1) := by
  funext b
  rcases eq_or_ne b (a + n) with rfl | hne
  · rw [store8_self, copy_inside (by omega) (by omega), Nat.add_sub_cancel_left]
  · rw [store8_of_ne hne]
    simp only [Bytes.copy]
    exact if_congr (by omega) rfl rfl

/-- A copy that begins with one byte. -/
theorem copy_store8 (m data : Bytes) (a n : Nat) :
    copy (store8 m a (data 0)) (a + 1) (fun i => data (i + 1)) n = copy m a data (n + 1) := by
  funext b
  rcases eq_or_ne b a with rfl | hne
  · rw [copy_outside (by omega), store8_self, copy_inside (by omega) (by omega), Nat.sub_self]
  · by_cases hin : a + 1 ≤ b ∧ b < a + 1 + n
    · rw [copy_inside hin.1 hin.2, copy_inside (by omega) (by omega)]
      exact congrArg data (by omega)
    · rw [copy_outside (by omega), store8_of_ne hne, copy_outside (by omega)]

/-- A fill that grows by one byte. -/
theorem store8_fill (m : Bytes) (a : Nat) (c : BitVec 8) (n : Nat) :
    store8 (fill m a c n) (a + n) c = fill m a c (n + 1) := by
  funext b
  rcases eq_or_ne b (a + n) with rfl | hne
  · rw [store8_self, fill, if_pos (by omega)]
  · rw [store8_of_ne hne]
    simp only [fill]
    exact if_congr (by omega) rfl rfl

theorem fill_zero (m : Bytes) (a : Nat) (c : BitVec 8) : fill m a c 0 = m := by
  funext b
  exact fill_outside (by omega)

theorem copy_zero (m m' : Bytes) (a : Nat) : copy m a m' 0 = m := by
  funext b
  exact copy_outside (by omega)

end Bytes

end Lib

end Csos
