import Csos.FormatItems
import Csos.Lib.CString

/-!
# Addresses in text

`inet_pton` reads an address from its text. Each character that is no `.` is
a digit to it, each `.` moves to the next byte, and nothing checks how many
there are: `dottedField` is what ends up in which byte. What `%d.%d.%d.%d`
prints is read back (`inetPton_prints`), and a text stays inside of the four
bytes exactly when nothing stands behind its fourth `.` (`inetPton_inside`).
-/

namespace Csos

open Lib Lib.Bytes

/-- The loop of `inet_pton` with `idx` and `p`. -/
def inetPtonLoop (m : Bytes) (ipv idx : Nat) : List (BitVec 8) → Bytes
  | [] => m
  | c :: p =>
      if c = 0x2E then inetPtonLoop m ipv (idx + 1) p
      else inetPtonLoop (store8 m (ipv + idx) (m (ipv + idx) * 10 + (c - 0x30))) ipv idx p

/-- `inet_pton`, on a text that does not lie in the memory it writes to. -/
def inetPton (m : Bytes) (ipv : Nat) (ipstr : List (BitVec 8)) : Bytes :=
  inetPtonLoop (fill m ipv 0 4) ipv 0 ipstr

/-- What stands between two dots, nothing from the last one on. -/
def dottedField (k : Nat) (p : List (BitVec 8)) : List (BitVec 8) := (p.splitOn 0x2E).getD k []

/-- The byte that a field leaves behind in place of `v`. -/
def fieldByte (v : BitVec 8) (cs : List (BitVec 8)) : BitVec 8 :=
  cs.foldl (fun v c => v * 10 + (c - 0x30)) v

theorem dot_ne_percent : (0x2E : BitVec 8) ≠ 0x25 := by decide

/-- The text of four numbers. -/
def dottedText (v₀ v₁ v₂ v₃ : BitVec 8) : List FormatItem :=
  let number (v : BitVec 8) := FormatItem.number .plain .d (v.setWidth 32)
  let dot := FormatItem.char 0x2E dot_ne_percent
  [number v₀, dot, number v₁, dot, number v₂, dot, number v₃]

section DottedQuad

variable {m : Bytes} {ipv idx b k : Nat} {v : BitVec 8} {cs p : List (BitVec 8)}

theorem dottedField_nil (k : Nat) : dottedField k [] = [] := by
  cases k <;> rfl

theorem dottedField_dot (k : Nat) (p : List (BitVec 8)) :
    dottedField k (0x2E :: p) = if k = 0 then [] else dottedField (k - 1) p := by
  rw [dottedField, List.splitOn_cons_eq_if_modifyHead, if_pos (beq_self_eq_true _)]
  cases k <;> rfl

theorem dottedField_digit {c : BitVec 8} (h : c ≠ 0x2E) (k : Nat) (p : List (BitVec 8)) :
    dottedField k (c :: p) = if k = 0 then c :: dottedField 0 p else dottedField k p := by
  obtain ⟨t, ts, hts⟩ := List.exists_cons_of_ne_nil (List.splitOn_ne_nil (0x2E : BitVec 8) p)
  rw [dottedField, dottedField, dottedField, List.splitOn_cons_eq_if_modifyHead,
    if_neg (by simpa using h), hts, List.modifyHead_cons]
  cases k <;> rfl

theorem inetPtonLoop_below (h : b < ipv + idx) : inetPtonLoop m ipv idx p b = m b := by
  induction p generalizing m idx with
  | nil => rfl
  | cons c p ih =>
      rw [inetPtonLoop]
      split
      case isTrue => exact ih (by omega)
      case isFalse => rw [ih h, store8_of_ne (by omega)]

/-- The byte of each field, whether it is one of the four or not. -/
theorem inetPtonLoop_field : inetPtonLoop m ipv idx p (ipv + idx + k)
    = fieldByte (m (ipv + idx + k)) (dottedField k p) := by
  induction p generalizing m idx k with
  | nil => rw [inetPtonLoop, dottedField_nil]; rfl
  | cons c p ih =>
      rw [inetPtonLoop]
      split
      case isTrue hdot =>
        rw [hdot, dottedField_dot]
        cases k with
        | zero =>
            rw [inetPtonLoop_below (by omega), if_pos rfl]
            rfl
        | succ k =>
            rw [if_neg (Nat.succ_ne_zero k), Nat.add_sub_cancel,
              show ipv + idx + (k + 1) = ipv + (idx + 1) + k by omega, ih]
      case isFalse hdot =>
        rw [ih, dottedField_digit hdot]
        cases k with
        | zero =>
            rw [if_pos rfl, Nat.add_zero, store8_self]
            rfl
        | succ k => rw [if_neg (Nat.succ_ne_zero k), store8_of_ne (by omega)]

theorem inetPton_below (h : b < ipv) : inetPton m ipv p b = m b := by
  rw [inetPton, inetPtonLoop_below h, fill_outside (.inl h)]

theorem inetPton_field (h : k < 4) :
    inetPton m ipv p (ipv + k) = fieldByte 0 (dottedField k p) := by
  have hfield := @inetPtonLoop_field (fill m ipv 0 4) ipv 0 k p
  rw [Nat.add_zero] at hfield
  rw [inetPton, hfield, fill, if_pos (by omega)]

theorem inetPton_behind (h : 4 ≤ k) :
    inetPton m ipv p (ipv + k) = fieldByte (m (ipv + k)) (dottedField k p) := by
  have hfield := @inetPtonLoop_field (fill m ipv 0 4) ipv 0 k p
  rw [Nat.add_zero] at hfield
  rw [inetPton, hfield, fill_outside (.inr (by omega))]

/-! ## What is written behind the four bytes -/

/-- A digit step forgets all of the old value but that it is even or odd,
and then that as well. -/
theorem digit_step_even (v v' c : BitVec 8) :
    (v * 10 + (c - 0x30)).toNat % 2 = (v' * 10 + (c - 0x30)).toNat % 2 := by
  have h10 : (10 : BitVec 8).toNat = 10 := rfl
  rw [BitVec.toNat_add, BitVec.toNat_add, BitVec.toNat_mul, BitVec.toNat_mul, h10]
  omega

theorem fieldByte_even {v v' : BitVec 8} (h : v.toNat % 2 = v'.toNat % 2) (cs : List (BitVec 8)) :
    (fieldByte v cs).toNat % 2 = (fieldByte v' cs).toNat % 2 := by
  induction cs generalizing v v' with
  | nil => exact h
  | cons c cs ih => exact ih (digit_step_even v v' c)

/-- A field changes some byte, if there is anything in it. -/
theorem fieldByte_fixes : (∀ v, fieldByte v cs = v) ↔ cs = [] := by
  constructor
  · intro h
    cases cs with
    | nil => rfl
    | cons c cs =>
        have heven : (fieldByte 0 (c :: cs)).toNat % 2 = (fieldByte 1 (c :: cs)).toNat % 2 :=
          fieldByte_even (digit_step_even 0 1 c) cs
        rw [h, h] at heven
        exact absurd heven (by decide)
  · rintro rfl v
    rfl

/-- Whatever stands in the memory behind the address, it is left alone
exactly if no field comes behind the fourth. -/
theorem inetPton_inside : (∀ m b, b < ipv ∨ ipv + 4 ≤ b → inetPton m ipv p b = m b)
    ↔ ∀ k, 4 ≤ k → dottedField k p = [] := by
  constructor
  · intro h k hk
    refine fieldByte_fixes.mp fun v => ?_
    have hv := h (fun _ => v) (ipv + k) (.inr (by omega))
    rwa [inetPton_behind hk] at hv
  · intro h m b hb
    rcases hb with hb | hb
    · exact inetPton_below hb
    · obtain ⟨k, rfl⟩ := Nat.exists_eq_add_of_le (Nat.le_trans (Nat.le_add_right ipv 4) hb)
      have hk : 4 ≤ k := by omega
      rw [inetPton_behind hk, h k hk]
      rfl

/-! ## What is printed -/

theorem digitChar_sub : ∀ d < 10, digitChar false d - 0x30 = BitVec.ofNat 8 d := by
  decide

/-- The reader's number is the value of the digits. -/
theorem fieldByte_decimal (n : Nat) : fieldByte 0 (decimalChars n) = BitVec.ofNat 8 n := by
  have hstep : ∀ v, ∀ d ∈ numeral 10 n, BitVec.ofNat 8 v * 10 + (digitChar false d - 0x30)
      = BitVec.ofNat 8 (v * 10 + d) := by
    intro v d hd
    have hd10 : d < 10 := numeral_lt (by decide) d hd
    rw [digitChar_sub d hd10, BitVec.ofNat_add, BitVec.ofNat_mul]
    rfl
  have hfold : (numeral 10 n).foldl (fun v d => v * 10 + (digitChar false d - 0x30))
      (BitVec.ofNat 8 0) = BitVec.ofNat 8 (horner 10 0 ((numeral 10 n).map id)) :=
    foldl_horner hstep
  rw [List.map_id, horner_numeral] at hfold
  rw [fieldByte, decimalChars, List.foldl_map]
  exact hfold

theorem decimalChars_ne_dot (n : Nat) : 0x2E ∉ decimalChars n := by
  intro h
  obtain ⟨d, hd, hdot⟩ := List.mem_map.mp h
  have hd10 : d < 10 := numeral_lt (by decide) d hd
  have hdigit := digitChar_sub d hd10
  rw [hdot] at hdigit
  have hvalue := congrArg BitVec.toNat hdigit
  rw [BitVec.toNat_ofNat, Nat.mod_eq_of_lt (Nat.lt_trans hd10 (by decide))] at hvalue
  exact absurd (hvalue ▸ hd10) (by decide)

/-- Texts with dots between them are the fields. -/
theorem dottedField_intercalate {ts : List (List (BitVec 8))} (h : ∀ t ∈ ts, 0x2E ∉ t)
    (h0 : ts ≠ []) (k : Nat) : dottedField k (List.intercalate [0x2E] ts) = ts.getD k [] := by
  rw [dottedField, List.splitOn_intercalate 0x2E h h0]

/-- A byte prints as its decimal digits. -/
theorem numberText_byte (v : BitVec 8) :
    numberText (v.setWidth 32) 10 (-1) (-1) { sign := true } = decimalChars v.toNat := by
  have hv : (v.setWidth 32).toNat = v.toNat := by
    rw [BitVec.toNat_setWidth, Nat.mod_eq_of_lt (by omega)]
  have hpos : ¬ (v.setWidth 32).toInt < 0 := by
    rw [BitVec.toInt_eq_toNat_cond, hv]
    have hlt := v.isLt
    split <;> omega
  have hfront : frontChars (v.setWidth 32) 10 { sign := true } = [] := by
    rw [frontChars, signChars, if_neg fun h => hpos h.2]
    rfl
  have hbody : bodyChars (v.setWidth 32) 10 (-1) { sign := true } = decimalChars v.toNat := by
    rw [bodyChars, magnitude, if_neg fun h => hpos h.2, hv]
    dsimp only
    rw [Int.toNat_of_nonpos (by omega)]
    rfl
  rw [numberText, hfront, hbody]
  dsimp only
  rw [Int.toNat_of_nonpos (by omega)]
  rfl

theorem dottedText_render (v₀ v₁ v₂ v₃ : BitVec 8) :
    (dottedText v₀ v₁ v₂ v₃).flatMap FormatItem.render
      = List.intercalate [0x2E] ([v₀, v₁, v₂, v₃].map fun v => decimalChars v.toNat) := by
  simp only [List.map_cons, List.map_nil, ← numberText_byte]
  rfl

/-- An address that is printed is read back: the four bytes are the same,
and no other byte changes. -/
theorem inetPton_prints (mem m₀ m : Bytes) (a ipv : Nat) :
    ∃ cs, vsprintf (fun i => (m₀ (a + i)).setWidth 32) mem
        [0x25, 0x64, 0x2E, 0x25, 0x64, 0x2E, 0x25, 0x64, 0x2E, 0x25, 0x64] = some ⟨cs, 4, mem⟩
      ∧ inetPton m ipv cs = copy m ipv (fun k => m₀ (a + k)) 4 := by
  let vs : List (BitVec 8) := [m₀ (a + 0), m₀ (a + 1), m₀ (a + 2), m₀ (a + 3)]
  let items := dottedText (m₀ (a + 0)) (m₀ (a + 1)) (m₀ (a + 2)) (m₀ (a + 3))
  have hprints : vsprintfLoop (fun i => (m₀ (a + i)).setWidth 32) (items.length + 4) ⟨[], 0, mem⟩
      (items.flatMap FormatItem.text ++ []) = _ :=
    vsprintfLoop_items ⟨rfl, trivial, rfl, trivial, rfl, trivial, rfl, trivial⟩
  have hdots : ∀ cs ∈ vs.map fun v => decimalChars v.toNat, (0x2E : BitVec 8) ∉ cs := by
    intro cs hcs
    obtain ⟨v, -, rfl⟩ := List.mem_map.mp hcs
    exact decimalChars_ne_dot v.toNat
  have hfield (k : Nat) := dottedField_intercalate hdots (List.cons_ne_nil _ _) k
  refine ⟨items.flatMap FormatItem.render, hprints, ?_⟩
  rw [dottedText_render]
  funext b
  rcases Nat.lt_or_ge b ipv with hb | hb
  · rw [inetPton_below hb, copy_outside (.inl hb)]
  · obtain ⟨k, rfl⟩ := Nat.exists_eq_add_of_le hb
    rcases Nat.lt_or_ge k 4 with hk | hk
    · rw [inetPton_field hk, copy_inside (by omega) (by omega), Nat.add_sub_cancel_left, hfield]
      have hget : (vs.map fun v => decimalChars v.toNat).getD k []
          = decimalChars (m₀ (a + k)).toNat := by
        match k, hk with
        | 0, _ | 1, _ | 2, _ | 3, _ => rfl
      rw [hget, fieldByte_decimal, BitVec.ofNat_toNat, BitVec.setWidth_eq]
    · have hget : (vs.map fun v => decimalChars v.toNat).getD k [] = [] :=
        List.getD_eq_default _ _ hk
      rw [inetPton_behind hk, hfield, hget, copy_outside (.inr (by omega))]
      rfl

end DottedQuad

end Csos
