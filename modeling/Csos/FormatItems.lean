import Csos.FormatLaw

/-!
# What a format prints

A format is a row of items: characters, `%%`, and conversions with their
flags, width and precision. `vsprintf` reads an item back from its text and
prints it, one after the other, with the words of the arguments in the same
order (`vsprintf_items`). On any text at all it comes to an end and never
looks behind the NUL (`vsprintf_total`).
-/

namespace Csos

open Lib Lib.Bytes

/-- A flag of a conversion. -/
inductive FormatFlag where
  | left
  | plus
  | space
  | special
  | zeropad

namespace FormatFlag

def char : FormatFlag → BitVec 8
  | left => 0x2D
  | plus => 0x2B
  | space => 0x20
  | special => 0x23
  | zeropad => 0x30

def set (flags : NumFlags) : FormatFlag → NumFlags
  | left => { flags with left := true }
  | plus => { flags with plus := true }
  | space => { flags with space := true }
  | special => { flags with special := true }
  | zeropad => { flags with zeropad := true }

theorem flagOf_char (flags : NumFlags) (f : FormatFlag) :
    flagOf flags f.char = some (f.set flags) := by
  cases f <;> rfl

end FormatFlag

/-- The decimal digits of a number, as they stand in a format. -/
def decimalChars (n : Nat) : List (BitVec 8) := (numeral 10 n).map (digitChar false)

/-- What stands between `%` and the conversion. -/
structure FormatField where
  flags : List FormatFlag
  width : Option Nat
  precision : Option Nat
  width_pos : ∀ w ∈ width, 0 < w
  width_le : ∀ w ∈ width, w ≤ 0x20000000
  precision_le : ∀ p ∈ precision, p ≤ 0x20000000

namespace FormatField

def widthText (f : FormatField) : List (BitVec 8) := f.width.elim [] decimalChars

def precisionText (f : FormatField) : List (BitVec 8) :=
  f.precision.elim [] fun p => 0x2E :: decimalChars p

def text (f : FormatField) : List (BitVec 8) :=
  f.flags.map FormatFlag.char ++ (f.widthText ++ f.precisionText)

/-- The values of `flags`, `field_width` and `precision`. -/
def numFlags (f : FormatField) : NumFlags := f.flags.foldl FormatFlag.set {}

def widthValue (f : FormatField) : Int := f.width.elim (-1) fun w => w

def precisionValue (f : FormatField) : Int := f.precision.elim (-1) fun p => p

theorem forall_none {P : Nat → Prop} : ∀ n ∈ (none : Option Nat), P n := by
  simp

/-- No flags, no width, no precision. -/
def plain : FormatField where
  flags := []
  width := none
  precision := none
  width_pos := forall_none
  width_le := forall_none
  precision_le := forall_none

end FormatField

/-- The conversions of numbers. -/
inductive NumberConversion where
  | d
  | i
  | u
  | o
  | x
  | X

namespace NumberConversion

def char : NumberConversion → BitVec 8
  | d => 0x64
  | i => 0x69
  | u => 0x75
  | o => 0x6F
  | x => 0x78
  | X => 0x58

def base : NumberConversion → Nat
  | d | i | u => 10
  | o => 8
  | x | X => 16

def type (flags : NumFlags) : NumberConversion → NumFlags
  | d | i => { flags with sign := true }
  | x => { flags with small := true }
  | u | o | X => flags

end NumberConversion

/-- A piece of a format, with the argument that is passed for it. -/
inductive FormatItem where
  | char (c : BitVec 8) (h : c ≠ 0x25)
  | percent
  | number (f : FormatField) (conversion : NumberConversion) (num : BitVec 32)
  | letter (f : FormatField) (c : BitVec 32)
  | string (f : FormatField) (p : BitVec 32) (s : List (BitVec 8))

/-- Some characters in a field. -/
def fieldText (flags : NumFlags) (width : Int) (cs : List (BitVec 8)) : List (BitVec 8) :=
  let blanks := List.replicate (width - cs.length).toNat 0x20
  if flags.left then cs ++ blanks else blanks ++ cs

namespace FormatItem

/-- The item in the format. -/
def text : FormatItem → List (BitVec 8)
  | char c _ => [c]
  | percent => [0x25, 0x25]
  | number f conversion _ => 0x25 :: (f.text ++ [conversion.char])
  | letter f _ => 0x25 :: (f.text ++ [0x63])
  | string f _ _ => 0x25 :: (f.text ++ [0x73])

/-- The item in the output. -/
def render : FormatItem → List (BitVec 8)
  | char c _ => [c]
  | percent => [0x25]
  | number f conversion num =>
      numberText num conversion.base f.widthValue f.precisionValue (conversion.type f.numFlags)
  | letter f c => fieldText f.numFlags f.widthValue [c.setWidth 8]
  | string f _ s =>
      fieldText f.numFlags f.widthValue (f.precision.elim s fun p => s.take p)

/-- The words that are passed for it. -/
def words : FormatItem → Nat
  | char _ _ | percent => 0
  | number _ _ _ | letter _ _ | string _ _ _ => 1

/-- The argument at `ap` is that of the item. -/
def Passed (va : Nat → BitVec 32) (m : Bytes) (ap : Nat) : FormatItem → Prop
  | char _ _ | percent => True
  | number _ _ num => va ap = num
  | letter _ c => va ap = c
  | string _ p s => va ap = p ∧ p ≠ 0 ∧ IsString m p.toNat s ∧ s.length < 0x20000000

end FormatItem

/-- The arguments from `ap` on are those of the items. -/
def ArgsPass (va : Nat → BitVec 32) (m : Bytes) : Nat → List FormatItem → Prop
  | _, [] => True
  | ap, item :: items => item.Passed va m ap ∧ ArgsPass va m (ap + item.words) items

/-! ## Reading a directive -/

section Directive

variable {va : Nat → BitVec 32} {s : Printing} {ap : Nat} {flags : NumFlags} {c : BitVec 8}
  {rest : List (BitVec 8)} {v : Int} {f : FormatField}

/-- A character that ends the field of a directive. -/
def IsConversion (c : BitVec 8) : Prop :=
  flagOf {} c = none ∧ isDigitChar c = false ∧ c ≠ 0x2A ∧ c ≠ 0x2E ∧ c ≠ 0x68 ∧ c ≠ 0x6C
    ∧ c ≠ 0x4C

instance : Decidable (IsConversion c) := inferInstanceAs (Decidable (_ ∧ _))

/-- Whether a character is a flag does not depend on the flags before it. -/
theorem flagOf_eq_none (h : flagOf {} c = none) (flags : NumFlags) : flagOf flags c = none := by
  unfold flagOf at h ⊢
  split_ifs at h ⊢
  rfl

theorem flagsLoop_flags (fs : List FormatFlag) (hrest : rest.head?.bind (flagOf {}) = none) :
    flagsLoop (c :: (fs.map FormatFlag.char ++ rest)) flags
      = some (fs.foldl FormatFlag.set flags, rest) := by
  induction fs generalizing c flags with
  | nil =>
      have hnone : rest.head?.bind (flagOf flags) = none := by
        cases rest with
        | nil => rfl
        | cons c rest => exact flagOf_eq_none hrest flags
      rw [List.map_nil, List.nil_append, flagsLoop, hnone, List.foldl_nil]
  | cons f fs ih =>
      rw [List.map_cons, List.cons_append, flagsLoop, List.head?_cons, Option.bind_some,
        FormatFlag.flagOf_char]
      exact ih

theorem i32_step (v : Int) (d : Int) : i32 (i32 v * 10 + d) = i32 (v * 10 + d) := by
  rw [i32, i32, i32, ← Int.bmod_add_bmod, Int.bmod_mul_bmod, Int.bmod_add_bmod]

theorem isDigitChar_digitChar : ∀ d < 10, isDigitChar (digitChar false d) = true
    ∧ (digitChar false d).toNat = 48 + d := by
  decide

theorem skipAtoi_digits {ds : List Nat} (hds : ∀ d ∈ ds, d < 10)
    (hrest : ∀ c ∈ rest.head?, isDigitChar c = false) (v : Nat) :
    skipAtoi (ds.map (digitChar false) ++ rest) (i32 v) = (i32 (horner 10 v ds), rest) := by
  induction ds generalizing v with
  | nil =>
      cases rest with
      | nil => rfl
      | cons c rest =>
          have hc : isDigitChar c = false := hrest c rfl
          simp [skipAtoi, hc]
  | cons d ds ih =>
      obtain ⟨hdigit, hvalue⟩ := isDigitChar_digitChar d (hds d List.mem_cons_self)
      have hstep : i32 (i32 v * 10 + (48 + d : Nat) - 48) = i32 ((v * 10 + d : Nat) : Int) := by
        rw [show i32 v * 10 + ((48 + d : Nat) : Int) - 48 = i32 v * 10 + d by push_cast; omega,
          i32_step]
        push_cast
        rfl
      rw [List.map_cons, List.cons_append, skipAtoi, if_pos hdigit, hvalue, hstep, horner_cons]
      exact ih (fun d hd => hds d (List.mem_cons_of_mem _ hd)) _

theorem skipAtoi_decimal {n : Nat} (hn : n ≤ 0x20000000)
    (hrest : ∀ c ∈ rest.head?, isDigitChar c = false) :
    skipAtoi (decimalChars n ++ rest) 0 = ((n : Int), rest) := by
  have h := skipAtoi_digits (numeral_lt (b := 10) (n := n) (by decide)) hrest 0
  rw [horner_numeral, i32_of_range (x := n) (by omega) (by omega)] at h
  exact h

theorem decimalChars_head (n : Nat) : ∃ d < 10, (n ≠ 0 → d ≠ 0) ∧ ∃ cs,
    decimalChars n = digitChar false d :: cs := by
  obtain ⟨d, ds, hds⟩ := List.exists_cons_of_ne_nil (@numeral_ne_nil 10 n)
  refine ⟨d, @numeral_lt 10 n (by decide) d (hds ▸ List.mem_cons_self), fun h0 => ?_,
    ds.map (digitChar false), by rw [decimalChars, hds, List.map_cons]⟩
  have hhead := numeral_head (b := 10) h0
  simpa only [hds, List.head_cons] using hhead

/-- No digit but 0 is a flag. -/
theorem flagOf_digit : ∀ d < 10, d ≠ 0 → flagOf {} (digitChar false d) = none := by
  decide

theorem fieldWidth_text (hw : ∀ w ∈ f.width, w ≤ 0x20000000)
    (hrest : ∀ c ∈ rest.head?, isDigitChar c = false ∧ c ≠ 0x2A) :
    fieldWidth va ap flags (f.widthText ++ rest) = (f.widthValue, flags, ap, rest) := by
  unfold FormatField.widthText FormatField.widthValue
  cases hwidth : f.width with
  | none =>
      rw [Option.elim_none, Option.elim_none, List.nil_append, fieldWidth]
      cases rest with
      | nil => rfl
      | cons c rest =>
          obtain ⟨hdigit, hstar⟩ := hrest c rfl
          simp only [List.head?_cons, hdigit, Bool.false_eq_true, if_false, if_neg hstar]
  | some w =>
      obtain ⟨d, hd, -, cs, hcs⟩ := decimalChars_head w
      have hskip := skipAtoi_decimal (hw w hwidth) fun c hc => (hrest c hc).1
      rw [Option.elim_some, Option.elim_some]
      rw [hcs, List.cons_append] at hskip ⊢
      simp only [fieldWidth, List.head?_cons, (isDigitChar_digitChar d hd).1, if_true, hskip]

theorem precisionOf_text (hp : ∀ p ∈ f.precision, p ≤ 0x20000000)
    (hrest : ∀ c ∈ rest.head?, isDigitChar c = false ∧ c ≠ 0x2E) :
    precisionOf va ap (f.precisionText ++ rest) = some (f.precisionValue, ap, rest) := by
  unfold FormatField.precisionText FormatField.precisionValue
  cases hprec : f.precision with
  | none =>
      rw [Option.elim_none, Option.elim_none, List.nil_append, precisionOf, if_neg]
      intro hdot
      exact (hrest 0x2E hdot).2 rfl
  | some p =>
      obtain ⟨d, hd, -, cs, hcs⟩ := decimalChars_head p
      have hskip := skipAtoi_decimal (hp p hprec) fun c hc => (hrest c hc).1
      have hneg : ¬ (p : Int) < 0 := by omega
      rw [Option.elim_some, Option.elim_some, List.cons_append]
      rw [hcs, List.cons_append] at hskip ⊢
      simp only [precisionOf, nextChar, List.head?_cons, if_true, Option.bind_eq_bind,
        Option.bind_some, (isDigitChar_digitChar d hd).1, hskip, if_neg hneg, Option.pure_def]

/-- The field of a directive is read back from its text. -/
theorem directive_field (hc : IsConversion c) :
    directive va s (0x25 :: (f.text ++ c :: rest))
      = (convert va s f.numFlags f.widthValue f.precisionValue c).map fun s => (s, rest) := by
  obtain ⟨hflag, hdigit, hstar, hdot, hh, hl, hL⟩ := hc
  have hheadP : ∀ a ∈ (f.precisionText ++ c :: rest).head?, flagOf {} a = none
      ∧ isDigitChar a = false ∧ a ≠ 0x2A := by
    unfold FormatField.precisionText
    cases f.precision with
    | none =>
        intro a ha
        obtain rfl : c = a := Option.some.inj ha
        exact ⟨hflag, hdigit, hstar⟩
    | some p =>
        intro a ha
        obtain rfl : 0x2E = a := Option.some.inj ha
        decide
  have hheadW : (f.widthText ++ (f.precisionText ++ c :: rest)).head?.bind (flagOf {}) = none := by
    rw [FormatField.widthText]
    cases hwidth : f.width with
    | none =>
        rw [Option.elim_none, List.nil_append, Option.bind_eq_none_iff]
        exact fun a ha => (hheadP a ha).1
    | some w =>
        obtain ⟨d, hd, hd0, cs, hcs⟩ := decimalChars_head w
        rw [Option.elim_some, hcs]
        exact flagOf_digit d hd (hd0 (Nat.ne_of_gt (f.width_pos w hwidth)))
  have hheadC : ∀ a ∈ (c :: rest).head?, isDigitChar a = false ∧ a ≠ 0x2E := fun a ha => by
    obtain rfl : c = a := Option.some.inj ha
    exact ⟨hdigit, hdot⟩
  rw [directive, FormatField.text, List.append_assoc, List.append_assoc,
    flagsLoop_flags f.flags hheadW, Option.bind_eq_bind, Option.bind_some]
  dsimp only
  rw [fieldWidth_text f.width_le fun a ha => (hheadP a ha).2]
  dsimp only
  rw [precisionOf_text f.precision_le hheadC]
  have hqual : qualifier (c :: rest) = some (c :: rest) := by
    rw [qualifier, List.head?_cons, if_neg]
    rintro (h | h | h)
    · exact hh (Option.some.inj h)
    · exact hl (Option.some.inj h)
    · exact hL (Option.some.inj h)
  simp only [Option.bind_eq_bind, Option.bind_some, hqual, FormatField.numFlags]
  rw [Option.map_eq_bind]
  rfl

end Directive

/-! ## Items -/

section Items

variable {va : Nat → BitVec 32} {m : Bytes} {n : Nat} {s : Printing} {items : List FormatItem}

theorem convertNumber_eq {base : Nat} {flags : NumFlags} {width precision : Int} (hb : 2 ≤ base)
    (hb' : base ≤ 36) (hsize : -0x20000000 ≤ width) (hsize' : width ≤ 0x20000000)
    (hprec : precision ≤ 0x20000000) :
    convertNumber va s base flags width precision
      = some { s.put (numberText (va s.ap) base width precision flags) with ap := s.ap + 1 } := by
  rw [convertNumber, number_eq hb hb' hsize hsize' hprec]
  rfl

theorem convertChar_eq {flags : NumFlags} {width : Int} (hlo : -0x20000000 ≤ width)
    (hhi : width ≤ 0x20000000) : convertChar va s flags width
      = { s.put (fieldText flags width [(va s.ap).setWidth 8]) with ap := s.ap + 1 } := by
  have hfirst : beforeLoop width = (List.replicate (width - 1).toNat 0x20, min (width - 1) 0) := by
    rw [beforeLoop, i32_of_range (by omega) (by omega)]
  have hsecond : (beforeLoop (min (width - 1) 0)).1 = [] := by
    rw [beforeLoop, i32_of_range (by omega) (by omega), Int.toNat_of_nonpos (by omega)]
    rfl
  unfold convertChar fieldText
  cases hl : flags.left with
  | true => simp [hfirst]
  | false => simp [hfirst, hsecond]

theorem strlenLoop_eq {a : Nat} {l : List (BitVec 8)} (h : IsString m a l) (hn : l.length < n) :
    strlenLoop m n a = some l.length := by
  induction l generalizing a n with
  | nil =>
      obtain ⟨n, rfl⟩ := Nat.exists_eq_succ_of_ne_zero (Nat.ne_of_gt hn)
      rw [strlenLoop, if_pos (isString_nil.mp h)]
      rfl
  | cons c l ih =>
      obtain ⟨n, rfl⟩ := Nat.exists_eq_succ_of_ne_zero (Nat.ne_of_gt (Nat.zero_lt_of_lt hn))
      obtain ⟨hc, h0, hl⟩ := isString_cons.mp h
      rw [strlenLoop, if_neg (hc ▸ h0), ih hl (Nat.lt_of_succ_lt_succ hn)]
      rfl

/-- The first characters of a string. -/
theorem range_map_string {a k : Nat} {l : List (BitVec 8)} (h : IsString m a l)
    (hk : k ≤ l.length) : (List.range k).map (fun i => m (a + i)) = l.take k := by
  refine List.ext_getElem (by simp [hk]) fun i hi _ => ?_
  have hik : i < k := by simpa using hi
  rw [List.getElem_map, List.getElem_range, List.getElem_take, h.2 i (by omega),
    List.getD_eq_getElem]

theorem convertString_eq {flags : NumFlags} {f : FormatField} {p : BitVec 32}
    {l : List (BitVec 8)} (hp : va s.ap = p) (h0 : p ≠ 0) (hl : IsString s.mem p.toNat l)
    (hlen : l.length < 0x20000000) :
    convertString va s flags f.widthValue f.precisionValue
      = some { s.put (fieldText flags f.widthValue (f.precision.elim l fun p => l.take p)) with
          ap := s.ap + 1 } := by
  have hp0 : p.toNat ≠ 0 := fun h => h0 (BitVec.eq_of_toNat_eq h)
  have hstrlen : strlen s.mem p.toNat = some l.length := by
    rw [strlen, if_neg hp0]
    exact strlenLoop_eq hl (by omega)
  have hshown : (if f.precisionValue < 0 then (l.length : Int) else
      if (l.length : Int) > f.precisionValue then f.precisionValue else l.length)
      = ((f.precision.elim l fun p => l.take p).length : Int) := by
    unfold FormatField.precisionValue
    cases f.precision with
    | none => rfl
    | some p =>
        rw [Option.elim_some, Option.elim_some, if_neg (by omega), List.length_take]
        split <;> omega
  have htake : (f.precision.elim l fun p => l.take p)
      = l.take (f.precision.elim l fun p => l.take p).length := by
    cases f.precision with
    | none => exact (List.take_length).symm
    | some p =>
        rw [Option.elim_some, List.length_take, ← List.take_take, List.take_length]
  have hle : (f.precision.elim l fun p => l.take p).length ≤ l.length := by
    rw [htake, List.length_take]
    exact Nat.min_le_right _ _
  have hwidth : -1 ≤ f.widthValue ∧ f.widthValue ≤ 0x20000000 := by
    unfold FormatField.widthValue
    cases hw : f.width with
    | none => decide
    | some w =>
        have hw' := f.width_le w hw
        rw [Option.elim_some]
        omega
  rw [convertString, hp, hstrlen, Option.bind_eq_bind, Option.bind_some]
  generalize (f.precision.elim l fun p => l.take p) = shown at *
  have hchars : (List.range shown.length).map (fun i => s.mem (p.toNat + i)) = shown := by
    rw [range_map_string hl hle, ← htake]
  have hi : i32 (l.length : Int) = l.length := i32_of_range (by omega) (by omega)
  have hfirst : aroundLoop shown.length f.widthValue
      = (List.replicate (f.widthValue - shown.length).toNat 0x20,
        min f.widthValue shown.length - 1) := by
    rw [aroundLoop, i32_of_range (by omega) (by omega)]
  have hsecond : (aroundLoop shown.length (min f.widthValue shown.length - 1)).1 = [] := by
    rw [aroundLoop, Int.toNat_of_nonpos (by omega)]
    rfl
  simp only [hi, hshown, Int.toNat_natCast, hchars]
  unfold fieldText
  cases hleft : flags.left with
  | true => simp [hfirst]
  | false => simp [hfirst, hsecond]

theorem FormatField.widthValue_le (f : FormatField) :
    -0x20000000 ≤ f.widthValue ∧ f.widthValue ≤ 0x20000000 := by
  unfold FormatField.widthValue
  cases hw : f.width with
  | none => decide
  | some w =>
      have hw' := f.width_le w hw
      rw [Option.elim_some]
      omega

theorem FormatField.precisionValue_le (f : FormatField) : f.precisionValue ≤ 0x20000000 := by
  unfold FormatField.precisionValue
  cases hp : f.precision with
  | none => decide
  | some p =>
      have hp' := f.precision_le p hp
      rw [Option.elim_some]
      omega

/-- The conversions of numbers, each with its base and the flags it adds. -/
theorem convert_number {f : FormatField} {conversion : NumberConversion} {num : BitVec 32}
    (h : va s.ap = num) :
    convert va s f.numFlags f.widthValue f.precisionValue conversion.char
      = some { s.put (numberText num conversion.base f.widthValue f.precisionValue
          (conversion.type f.numFlags)) with ap := s.ap + 1 } := by
  obtain ⟨hlo, hhi⟩ := f.widthValue_le
  have hprec := f.precisionValue_le
  subst h
  cases conversion with
  | d => exact convertNumber_eq (by decide) (by decide) hlo hhi hprec
  | i => exact convertNumber_eq (by decide) (by decide) hlo hhi hprec
  | u => exact convertNumber_eq (by decide) (by decide) hlo hhi hprec
  | o => exact convertNumber_eq (by decide) (by decide) hlo hhi hprec
  | x => exact convertNumber_eq (by decide) (by decide) hlo hhi hprec
  | X => exact convertNumber_eq (by decide) (by decide) hlo hhi hprec

theorem NumberConversion.isConversion (conversion : NumberConversion) :
    IsConversion conversion.char := by
  cases conversion <;> decide

theorem vsprintfLoop_directive {c : BitVec 8} {f : FormatField} {s' : Printing}
    {rest : List (BitVec 8)} (hc : IsConversion c)
    (h : convert va s f.numFlags f.widthValue f.precisionValue c = some s') :
    vsprintfLoop va (n + 1) s (0x25 :: (f.text ++ c :: rest)) = vsprintfLoop va n s' rest := by
  rw [vsprintfLoop, if_neg (not_not_intro rfl), directive_field hc, h]
  rfl

/-- One item takes one round. -/
theorem vsprintfLoop_item {item : FormatItem} {rest : List (BitVec 8)}
    (h : item.Passed va s.mem s.ap) : vsprintfLoop va (n + 1) s (item.text ++ rest)
      = vsprintfLoop va n { s.put item.render with ap := s.ap + item.words } rest := by
  cases item with
  | char c hc =>
      rw [FormatItem.text, List.singleton_append, vsprintfLoop, if_pos hc]
      rfl
  | percent => exact vsprintfLoop_directive (f := .plain) (by decide) rfl
  | number f conversion num =>
      rw [FormatItem.text, List.cons_append, List.append_assoc]
      exact vsprintfLoop_directive conversion.isConversion (convert_number h)
  | letter f c =>
      obtain ⟨hlo, hhi⟩ := f.widthValue_le
      obtain rfl : va s.ap = c := h
      rw [FormatItem.text, List.cons_append, List.append_assoc]
      exact vsprintfLoop_directive (by decide) (congrArg some (convertChar_eq hlo hhi))
  | string f p l =>
      obtain ⟨hp, h0, hl, hlen⟩ := h
      rw [FormatItem.text, List.cons_append, List.append_assoc]
      exact vsprintfLoop_directive (by decide) (convertString_eq hp h0 hl hlen)

theorem FormatItem.text_ne_nil (item : FormatItem) : 0 < item.text.length := by
  cases item <;> exact Nat.succ_pos _

/-- Items in front of any other text. -/
theorem vsprintfLoop_items {rest : List (BitVec 8)} (h : ArgsPass va s.mem s.ap items) :
    vsprintfLoop va (items.length + n) s (items.flatMap FormatItem.text ++ rest)
      = vsprintfLoop va n { s.put (items.flatMap FormatItem.render) with
          ap := s.ap + (items.map FormatItem.words).sum } rest := by
  induction items generalizing s with
  | nil => simp [Printing.put]
  | cons item items ih =>
      rw [List.flatMap_cons, List.append_assoc, List.length_cons,
        Nat.add_right_comm items.length 1 n, vsprintfLoop_item h.1, ih h.2]
      simp [Printing.put, Nat.add_assoc]

theorem length_le_text (items : List FormatItem) :
    items.length ≤ (items.flatMap FormatItem.text).length := by
  induction items with
  | nil => exact Nat.le_refl 0
  | cons item items ih =>
      have hitem := item.text_ne_nil
      rw [List.flatMap_cons, List.length_append, List.length_cons]
      omega

/-- A call prints its items in order, each with its own argument, and
leaves memory as it is. -/
theorem vsprintf_items (h : ArgsPass va m 0 items) :
    vsprintf va m (items.flatMap FormatItem.text)
      = some ⟨items.flatMap FormatItem.render, (items.map FormatItem.words).sum, m⟩ := by
  obtain ⟨k, hk⟩ := Nat.exists_eq_add_of_le (length_le_text items)
  have hloop : vsprintfLoop va (items.length + k) ⟨[], 0, m⟩
      (items.flatMap FormatItem.text ++ []) = _ := vsprintfLoop_items h
  rw [List.append_nil, Printing.put, List.nil_append, Nat.zero_add] at hloop
  rw [vsprintf, hk, hloop, vsprintfLoop]

/-- `printf("%d%%", -7)`. -/
theorem vsprintf_items_percent :
    vsprintf (fun _ => 0xFFFFFFF9) (fun _ => 0)
        ([.number .plain .d 0xFFFFFFF9, .percent].flatMap FormatItem.text)
      = some ⟨[.number .plain .d 0xFFFFFFF9, .percent].flatMap FormatItem.render,
          ([.number .plain .d 0xFFFFFFF9, .percent].map FormatItem.words).sum, fun _ => 0⟩ :=
  vsprintf_items ⟨rfl, trivial, trivial⟩

end Items

/-! ## Any format -/

section Any

variable {va : Nat → BitVec 32} {m : Bytes} {n ap : Nat} {s : Printing} {flags : NumFlags}
  {fmt : List (BitVec 8)} {c : BitVec 8}

theorem flagsLoop_suffix (c : BitVec 8) (fmt : List (BitVec 8)) (flags : NumFlags) :
    ∃ flags' fmt', flagsLoop (c :: fmt) flags = some (flags', fmt') ∧ fmt' <:+ fmt := by
  induction fmt generalizing c flags with
  | nil => exact ⟨flags, [], rfl, List.suffix_rfl⟩
  | cons a fmt ih =>
      rw [flagsLoop, List.head?_cons, Option.bind_some]
      cases hflag : flagOf flags a with
      | none => exact ⟨flags, a :: fmt, rfl, List.suffix_rfl⟩
      | some flags' =>
          obtain ⟨flags'', fmt', heq, hsuffix⟩ := ih a flags'
          exact ⟨flags'', fmt', heq, hsuffix.trans (List.suffix_cons a fmt)⟩

theorem skipAtoi_suffix (fmt : List (BitVec 8)) (i : Int) : (skipAtoi fmt i).2 <:+ fmt := by
  induction fmt generalizing i with
  | nil => exact List.suffix_rfl
  | cons a fmt ih =>
      rw [skipAtoi]
      split
      case isTrue => exact (ih _).trans (List.suffix_cons a fmt)
      case isFalse => exact List.suffix_rfl

theorem fieldWidth_suffix : (fieldWidth va ap flags fmt).2.2.2 <:+ fmt := by
  unfold fieldWidth
  cases fmt with
  | nil => exact List.suffix_rfl
  | cons a fmt =>
      dsimp only [List.head?_cons]
      split_ifs
      · exact skipAtoi_suffix (a :: fmt) 0
      · exact List.suffix_rfl
      · exact List.suffix_rfl
      · exact List.suffix_rfl

theorem nextChar_suffix (h : fmt.head? = some c) :
    ∃ fmt', nextChar fmt = some fmt' ∧ fmt' <:+ fmt := by
  cases fmt with
  | nil => cases h
  | cons a fmt => exact ⟨fmt, rfl, List.suffix_cons a fmt⟩

theorem precisionOf_suffix : ∃ r, precisionOf va ap fmt = some r ∧ r.2.2 <:+ fmt := by
  unfold precisionOf
  split
  case isFalse => exact ⟨_, rfl, List.suffix_rfl⟩
  case isTrue hdot =>
    obtain ⟨fmt', hnext, hsuffix⟩ := nextChar_suffix hdot
    rw [hnext]
    refine ⟨_, rfl, List.IsSuffix.trans ?_ hsuffix⟩
    cases fmt' with
    | nil => exact List.suffix_rfl
    | cons a fmt' =>
        dsimp only [List.head?_cons]
        split_ifs
        · exact skipAtoi_suffix (a :: fmt') 0
        · exact List.suffix_rfl
        · exact List.suffix_rfl

theorem qualifier_suffix : ∃ fmt', qualifier fmt = some fmt' ∧ fmt' <:+ fmt := by
  unfold qualifier
  split
  case isFalse => exact ⟨fmt, rfl, List.suffix_rfl⟩
  case isTrue h =>
    rcases h with h | h | h
    · exact nextChar_suffix h
    · exact nextChar_suffix h
    · exact nextChar_suffix h

/-- `tmp` never overflows, whatever the field is. -/
theorem convertNumber_some {base : Nat} {width precision : Int} (hb : 2 ≤ base) (hb' : base ≤ 36) :
    ∃ s', convertNumber va s base flags width precision = some s' ∧ s'.mem = s.mem := by
  have hbase : ¬ (base < 2 ∨ 36 < base) := by omega
  have hnumber : ∃ cs, number (va s.ap) base width precision flags = some cs := by
    unfold number
    dsimp only
    rw [if_neg hbase]
    obtain ⟨tmp, htmp, -, -⟩ := @tmpOf_eq base hb
      (magnitude (va s.ap) (if flags.left = true then { flags with zeropad := false } else flags))
    rw [htmp]
    exact ⟨_, rfl⟩
  obtain ⟨cs, hcs⟩ := hnumber
  rw [convertNumber, hcs]
  exact ⟨_, rfl, rfl⟩

theorem convertString_some {width precision : Int} (h : (strlen s.mem (va s.ap).toNat).isSome) :
    ∃ s', convertString va s flags width precision = some s' ∧ s'.mem = s.mem := by
  obtain ⟨len, hlen⟩ := Option.isSome_iff_exists.mp h
  rw [convertString, hlen]
  cases flags.left with
  | true => exact ⟨_, rfl, rfl⟩
  | false => exact ⟨_, rfl, rfl⟩

theorem convert_some {width precision : Int} (hc : c ≠ 0x6E)
    (h : (strlen s.mem (va s.ap).toNat).isSome) :
    ∃ s', convert va s flags width precision c = some s' ∧ s'.mem = s.mem := by
  unfold convert
  split_ifs
  · exact ⟨_, rfl, rfl⟩
  · exact convertString_some h
  · exact convertNumber_some (by decide) (by decide)
  · exact convertNumber_some (by decide) (by decide)
  · exact convertNumber_some (by decide) (by decide)
  · exact convertNumber_some (by decide) (by decide)
  · exact convertNumber_some (by decide) (by decide)
  · exact convertNumber_some (by decide) (by decide)
  · exact convertNumber_some (by decide) (by decide)
  · exact ⟨_, rfl, rfl⟩
  · exact ⟨_, rfl, rfl⟩

/-- A directive goes on behind what it has read. -/
theorem directive_some (hn : 0x6E ∉ fmt) (h : ∀ k, (strlen s.mem (va k).toNat).isSome) :
    ∃ s' fmt', directive va s (c :: fmt) = some (s', fmt') ∧ fmt' <:+ fmt ∧ s'.mem = s.mem := by
  obtain ⟨flags, fmt₁, hflags, hsuffix₁⟩ := flagsLoop_suffix c fmt {}
  have hsuffix₂ := @fieldWidth_suffix va s.ap flags fmt₁
  rw [directive, hflags, Option.bind_eq_bind, Option.bind_some]
  dsimp only
  generalize fieldWidth va s.ap flags fmt₁ = r₂ at hsuffix₂ ⊢
  obtain ⟨width, flags₂, ap₂, fmt₂⟩ := r₂
  obtain ⟨⟨precision, ap₃, fmt₃⟩, hprec, hsuffix₃⟩ := @precisionOf_suffix va ap₂ fmt₂
  obtain ⟨fmt₄, hqual, hsuffix₄⟩ := @qualifier_suffix fmt₃
  have hsuffix := hsuffix₄.trans (hsuffix₃.trans (hsuffix₂.trans hsuffix₁))
  simp only [hprec, hqual, Option.bind_eq_bind, Option.bind_some]
  cases fmt₄ with
  | nil => exact ⟨_, _, rfl, List.nil_suffix, rfl⟩
  | cons a fmt₄ =>
      have ha : a ≠ 0x6E := fun hne => hn (hne ▸ hsuffix.subset List.mem_cons_self)
      obtain ⟨s', hs', hmem⟩ := @convert_some va { s with ap := ap₃ } flags₂ a width precision ha
        (h ap₃)
      refine ⟨s', fmt₄, ?_, (List.suffix_cons a fmt₄).trans hsuffix, hmem⟩
      dsimp only
      rw [hs']
      rfl

theorem vsprintfLoop_some (hn : 0x6E ∉ fmt) (h : ∀ k, (strlen s.mem (va k).toNat).isSome)
    (hfuel : fmt.length ≤ n) :
    ∃ s', vsprintfLoop va n s fmt = some s' ∧ s'.mem = s.mem := by
  induction n generalizing s fmt with
  | zero =>
      obtain rfl := List.eq_nil_of_length_eq_zero (Nat.le_zero.mp hfuel)
      exact ⟨s, by rw [vsprintfLoop], rfl⟩
  | succ n ih =>
      cases fmt with
      | nil => exact ⟨s, by rw [vsprintfLoop], rfl⟩
      | cons a fmt =>
          have hn' : 0x6E ∉ fmt := fun hmem => hn (List.mem_cons_of_mem a hmem)
          have hle : fmt.length ≤ n := Nat.le_of_succ_le_succ hfuel
          rw [vsprintfLoop]
          split
          case isTrue =>
            obtain ⟨s', hs', hmem⟩ := @ih (s.put [a]) fmt hn' h hle
            exact ⟨s', hs', hmem⟩
          case isFalse =>
            obtain ⟨s₁, fmt₁, hdir, hsuffix, hmem₁⟩ := @directive_some va s fmt a hn' h
            obtain ⟨s', hs', hmem⟩ := @ih s₁ fmt₁ (fun hin => hn' (hsuffix.subset hin))
              (hmem₁.symm ▸ h) (Nat.le_trans hsuffix.length_le hle)
            exact ⟨s', by rw [hdir]; exact hs', hmem.trans hmem₁⟩

/-- Without `%n`, and with every argument that may be a string ended by a
NUL, each format comes to its end: no `++fmt` goes behind the NUL, and no
number is too long for `tmp`. -/
theorem vsprintf_total (hn : 0x6E ∉ fmt) (h : ∀ k, (strlen m (va k).toNat).isSome) :
    ∃ s, vsprintf va m fmt = some s ∧ s.mem = m :=
  vsprintfLoop_some hn h (Nat.le_refl _)

/-- A format that is cut off behind a flag. -/
theorem vsprintf_total_cut :
    ∃ s, vsprintf (fun _ => 0) (fun _ => 0) [0x25, 0x73, 0x25, 0x2D] = some s
    ∧ s.mem = fun _ => 0 :=
  vsprintf_total (by decide) fun _ => rfl

end Any

end Csos
