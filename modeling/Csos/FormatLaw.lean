import Csos.Format

/-!
# What a number prints as

`numberText` is the layout of a number: the sign and the base in front of
the digits, and room up to the field width on the left, on the right, or in
between as zeros. Whatever the flags are, a reader who knows the base finds
the number in it again (`number_reads`).
-/

namespace Csos

open Lib Lib.Bytes

/-- The digits of a number, with zeros up to the precision. -/
def bodyChars (num : BitVec 32) (base : Nat) (precision : Int) (type : NumFlags) :
    List (BitVec 8) :=
  let ds := numeral base (magnitude num type).toNat
  List.replicate (precision - ds.length).toNat 0x30 ++ ds.map (digitChar type.small)

def frontChars (num : BitVec 32) (base : Nat) (type : NumFlags) : List (BitVec 8) :=
  signChars num type ++ baseChars base type

/-- A number in a field of the width `size`. -/
def numberText (num : BitVec 32) (base : Nat) (size precision : Int) (type : NumFlags) :
    List (BitVec 8) :=
  let front := frontChars num base type
  let body := bodyChars num base precision type
  let room := (size - (front.length + body.length : Nat)).toNat
  if type.left then front ++ body ++ List.replicate room 0x20
  else if type.zeropad then front ++ List.replicate room 0x30 ++ body
  else List.replicate room 0x20 ++ front ++ body

/-- A number as it stands in `cs`: blanks, a sign, the base and digits. -/
def charDigit (small : Bool) (c : BitVec 8) : Option Nat :=
  if isDigitChar c then some (c.toNat - 0x30)
  else
    let a : BitVec 8 := if small then 0x61 else 0x41
    if a ≤ c ∧ c < a + 26 then some (c.toNat - a.toNat + 10) else none

def isDigitOf (base : Nat) (small : Bool) (c : BitVec 8) : Bool :=
  (charDigit small c).any fun d => d < base

def readDigits (base : Nat) (small : Bool) (cs : List (BitVec 8)) : Nat :=
  horner base 0 ((cs.takeWhile (isDigitOf base small)).map fun c => (charDigit small c).getD 0)

def readUnsigned (base : Nat) (type : NumFlags) (cs : List (BitVec 8)) : BitVec 32 :=
  BitVec.ofNat 32
    (readDigits base type.small (if type.special ∧ base = 16 then cs.drop 2 else cs))

def readNumber (base : Nat) (type : NumFlags) (cs : List (BitVec 8)) : BitVec 32 :=
  match cs.dropWhile (· = 0x20) with
  | [] => 0
  | c :: rest =>
      if c = 0x2D then -readUnsigned base type rest
      else if c = 0x2B then readUnsigned base type rest
      else readUnsigned base type (c :: rest)

/-! ## The layout -/

section Layout

variable {num : BitVec 32} {base k n : Nat} {size precision : Int} {type : NumFlags} {c : BitVec 8}

theorem fillLoop_eq (hlo : -0x7FFFFFFF ≤ size) (hhi : size < 0x80000000) :
    fillLoop c size = (List.replicate size.toNat c, min size 0 - 1) := by
  rw [fillLoop, i32_of_range (by omega) (by omega)]

theorem tmpDigits_eq (hb : 2 ≤ base) (h : n < base ^ k) :
    tmpDigits base k n = some (Nat.digits base n) := by
  induction k generalizing n with
  | zero =>
      rw [pow_zero, Nat.lt_one_iff] at h
      rw [tmpDigits, if_pos h, h, Nat.digits_zero]
  | succ k ih =>
      rw [tmpDigits]
      split
      case isTrue h0 => rw [h0, Nat.digits_zero]
      case isFalse h0 =>
        have hdiv : n / base < base ^ k := by
          rw [Nat.div_lt_iff_lt_mul (by omega), ← pow_succ]
          exact h
        rw [ih hdiv, Option.map_some, Nat.digits_eq_cons_digits_div (by omega) h0]

/-- `tmp` is long enough for every base. -/
theorem tmpOf_eq (hb : 2 ≤ base) (num : BitVec 32) :
    ∃ tmp, tmpOf base num = some tmp ∧ tmp.reverse = numeral base num.toNat
      ∧ tmp.length ≤ 36 := by
  have hlt : num.toNat < base ^ 36 :=
    calc num.toNat < 2 ^ 32 := num.isLt
      _ ≤ 2 ^ 36 := by decide
      _ ≤ base ^ 36 := Nat.pow_le_pow_left hb 36
  have hlen : (numeral base num.toNat).length ≤ 36 := numeral_length hb (by decide) hlt
  suffices h : ∃ tmp, tmpOf base num = some tmp ∧ tmp.reverse = numeral base num.toNat by
    obtain ⟨tmp, htmp, hrev⟩ := h
    refine ⟨tmp, htmp, hrev, ?_⟩
    rw [← List.length_reverse, hrev]
    exact hlen
  rw [tmpOf]
  split
  case isTrue h0 =>
    subst h0
    exact ⟨[0], rfl, rfl⟩
  case isFalse h0 =>
    have hnum : num.toNat ≠ 0 := fun h => h0 (BitVec.eq_of_toNat_eq h)
    refine ⟨_, tmpDigits_eq hb hlt, ?_⟩
    rw [numeral, if_neg hnum]

theorem signChars_length : (signChars num type).length ≤ 1 := by
  unfold signChars
  split_ifs <;> decide

theorem signChars_ne_nil : (if signChars num type ≠ [] then size - 1 else size)
    = size - (signChars num type).length := by
  unfold signChars
  split_ifs <;> simp_all

theorem baseChars_length : (baseChars base type).length
    = if type.special then if base = 16 then 2 else if base = 8 then 1 else 0 else 0 := by
  unfold baseChars
  split_ifs <;> simp_all

theorem bodyChars_length (num : BitVec 32) (base : Nat) (precision : Int) (type : NumFlags) :
    ((bodyChars num base precision type).length : Int)
      = max precision (numeral base (magnitude num type).toNat).length := by
  simp only [bodyChars, List.length_append, List.length_replicate, List.length_map]
  omega

theorem numberText_length : (numberText num base size precision type).length
    = max size.toNat ((frontChars num base type).length
      + (bodyChars num base precision type).length) := by
  unfold numberText
  split_ifs
  · simp only [List.length_append, List.length_replicate]
    omega
  · simp only [List.length_append, List.length_replicate]
    omega
  · simp only [List.length_append, List.length_replicate]
    omega

theorem sizeLeft_eq (hsize : -0x20000000 ≤ size) (hsize' : size ≤ 0x20000000) :
    sizeLeft num base size type = size - (frontChars num base type).length := by
  have hsign := @signChars_length num type
  have hne := @signChars_ne_nil num size type
  rw [sizeLeft, i32_of_range (x := size - 1) (by omega) (by omega), hne, frontChars,
    List.length_append, baseChars_length]
  generalize (signChars num type).length = n at hsign ⊢
  split_ifs
  · rw [i32_of_range (by omega) (by omega)]
    omega
  · rw [i32_of_range (by omega) (by omega)]
    omega
  · omega
  · omega

/-- The loops write the layout, where `size` is the room that is left. -/
theorem numberLoops_eq {front : List (BitVec 8)} {tmp : List Nat} (hlo : -0x7FFFFFF0 ≤ size)
    (hhi : size < 0x80000000) (hzero : type.left → type.zeropad = false) :
    let body := List.replicate (precision - tmp.length).toNat 0x30
      ++ tmp.reverse.map (digitChar type.small)
    numberLoops type size precision front tmp
      = if type.left then front ++ body ++ List.replicate size.toNat 0x20
        else if type.zeropad then front ++ List.replicate size.toNat 0x30 ++ body
        else List.replicate size.toNat 0x20 ++ front ++ body := by
  have hdone : ∀ c, fillLoop c (min size 0 - 1) = ([], min size 0 - 2) := fun c => by
    rw [fillLoop_eq (by omega) (by omega), Int.toNat_of_nonpos (by omega), List.replicate_zero]
    congr 1
    omega
  have hdone' : (fillLoop 32#8 (min size 0 - 2)).1 = [] := by
    rw [fillLoop_eq (by omega) (by omega), Int.toNat_of_nonpos (by omega), List.replicate_zero]
  unfold numberLoops
  cases hl : type.left with
  | true => simp [hzero hl, fillLoop_eq (by omega : -0x7FFFFFFF ≤ size) hhi]
  | false =>
      cases hz : type.zeropad with
      | true =>
          simp [fillLoop_eq (by omega : -0x7FFFFFFF ≤ size) hhi, hdone,
            -List.replicate_append_replicate]
      | false => simp [fillLoop_eq (by omega : -0x7FFFFFFF ≤ size) hhi, hdone, hdone']

/-- What `number` does behind `type &= ~ZEROPAD`. -/
theorem numberLoops_text (hb : 2 ≤ base) (hsize : -0x20000000 ≤ size) (hsize' : size ≤ 0x20000000)
    (hprec : precision ≤ 0x20000000) (hzero : type.left → type.zeropad = false) :
    (tmpOf base (magnitude num type)).map (fun tmp =>
      let i : Int := tmp.length
      let precision := if i > precision then i else precision
      numberLoops type (i32 (sizeLeft num base size type - precision)) precision
        (signChars num type ++ baseChars base type) tmp)
      = some (numberText num base size precision type) := by
  obtain ⟨tmp, htmp, hrev, hi⟩ := @tmpOf_eq base hb (magnitude num type)
  have hlen : tmp.length = (numeral base (magnitude num type).toNat).length := by
    rw [← hrev, List.length_reverse]
  have hbody := bodyChars_length num base precision type
  rw [← hlen] at hbody
  have hmax : (if (tmp.length : Int) > precision then (tmp.length : Int) else precision)
      = (bodyChars num base precision type).length := by
    rw [hbody]
    split <;> omega
  have hfront : (frontChars num base type).length ≤ 3 := by
    have hsign := @signChars_length num type
    have hbase := @baseChars_length base type
    rw [frontChars, List.length_append]
    split_ifs at hbase <;> omega
  have hroom : i32 (sizeLeft num base size type - (bodyChars num base precision type).length)
      = size - ((frontChars num base type).length
        + (bodyChars num base precision type).length : Nat) := by
    rw [sizeLeft_eq hsize hsize', i32_of_range (by omega) (by omega)]
    omega
  have hdigits : List.replicate
      ((bodyChars num base precision type).length - (tmp.length : Int)).toNat 0x30
      ++ tmp.reverse.map (digitChar type.small) = bodyChars num base precision type := by
    rw [hbody, hrev, hlen, bodyChars]
    congr 2
    omega
  rw [htmp, Option.map_some]
  refine congrArg some ?_
  dsimp only
  rw [hmax, hroom, numberLoops_eq (by omega) (by omega) hzero, hdigits]
  rfl

theorem number_eq (hb : 2 ≤ base) (hb' : base ≤ 36) (hsize : -0x20000000 ≤ size)
    (hsize' : size ≤ 0x20000000) (hprec : precision ≤ 0x20000000) :
    number num base size precision type = some (numberText num base size precision type) := by
  have hbase : ¬ (base < 2 ∨ 36 < base) := by omega
  rw [number]
  cases hl : type.left with
  | true =>
      refine (if_neg hbase).trans ?_
      refine (numberLoops_text hb hsize hsize' hprec fun _ => rfl).trans ?_
      simp only [numberText, hl, if_true]
      rfl
  | false =>
      refine (if_neg hbase).trans (numberLoops_text hb hsize hsize' hprec fun h => ?_)
      exact absurd (hl.symm.trans h) (by decide)

end Layout

/-! ## Reading it back -/

section Reads

variable {num : BitVec 32} {base d t z : Nat} {size precision : Int} {type : NumFlags}
  {small : Bool} {ds : List Nat}

theorem charDigit_digitChar (small : Bool) :
    ∀ d < 36, charDigit small (digitChar small d) = some d := by
  cases small <;> decide

/-- No digit is a blank or a sign. -/
theorem digitChar_ne (small : Bool) : ∀ d < 36, digitChar small d ≠ 0x20 ∧ digitChar small d ≠ 0x2D
    ∧ digitChar small d ≠ 0x2B := by
  cases small <;> decide

theorem isDigitOf_blank (base : Nat) (small : Bool) : isDigitOf base small 0x20 = false := by
  cases small <;> rfl

theorem readDigits_digits (hbase : base ≤ 36) (hds : ∀ d ∈ ds, d < base) :
    readDigits base small (ds.map (digitChar small) ++ List.replicate t 0x20)
      = horner base 0 ds := by
  have hdigit : ∀ d ∈ ds, charDigit small (digitChar small d) = some d := fun d hd =>
    charDigit_digitChar small d (Nat.lt_of_lt_of_le (hds d hd) hbase)
  have hall : ∀ c ∈ ds.map (digitChar small), isDigitOf base small c = true := by
    intro c hc
    obtain ⟨d, hd, rfl⟩ := List.mem_map.mp hc
    rw [isDigitOf, hdigit d hd]
    exact decide_eq_true (hds d hd)
  have hblanks : (List.replicate t (0x20 : BitVec 8)).takeWhile (isDigitOf base small) = [] := by
    cases t with
    | zero => rfl
    | succ t =>
        rw [List.replicate_succ,
          List.takeWhile_cons_of_neg (by rw [isDigitOf_blank]; exact Bool.false_ne_true)]
  have hvalues : ds.map ((fun c => (charDigit small c).getD 0) ∘ digitChar small) = ds :=
    (List.map_congr_left fun d hd => by
      rw [Function.comp_apply, hdigit d hd, Option.getD_some, id]).trans (List.map_id ds)
  rw [readDigits, List.takeWhile_append_of_pos hall, hblanks, List.append_nil, List.map_map,
    hvalues]

theorem replicate_zero_chars (small : Bool) (z : Nat) (ds : List Nat) :
    List.replicate z 0x30 ++ ds.map (digitChar small)
      = (List.replicate z 0 ++ ds).map (digitChar small) := by
  rw [List.map_append, List.map_replicate]
  rfl

/-- Behind the sign: the base, zeros, the digits, and blanks. -/
def unsignedChars (num : BitVec 32) (base : Nat) (type : NumFlags) (z t : Nat) : List (BitVec 8) :=
  baseChars base type ++ (List.replicate z 0x30
    ++ (numeral base (magnitude num type).toNat).map (digitChar type.small))
    ++ List.replicate t 0x20

/-- The sign stands between blanks and the rest. -/
theorem numberText_parts (num : BitVec 32) (base : Nat) (size precision : Int) (type : NumFlags) :
    ∃ k z t, numberText num base size precision type
      = List.replicate k 0x20 ++ (signChars num type ++ unsignedChars num base type z t) := by
  simp only [numberText, bodyChars, frontChars, unsignedChars]
  split_ifs
  · exact ⟨0, _, _, by simp only [List.replicate_zero, List.nil_append, List.append_assoc]; rfl⟩
  · exact ⟨0, _, 0, by
      simp only [List.replicate_zero, List.nil_append, List.append_assoc, List.append_nil]
      rw [← List.append_assoc (List.replicate _ _) (List.replicate _ _),
        List.replicate_append_replicate]⟩
  · exact ⟨_, _, 0, by simp only [List.replicate_zero, List.append_assoc, List.append_nil]; rfl⟩

theorem readUnsigned_chars (hb : 2 ≤ base) (hbase : base ≤ 36) :
    readUnsigned base type (unsignedChars num base type z t) = magnitude num type := by
  have hds := @numeral_lt base (magnitude num type).toNat (by omega)
  have hall : ∀ z, ∀ d ∈ List.replicate z 0 ++ numeral base (magnitude num type).toNat,
      d < base := by
    intro z d hd
    rcases List.mem_append.mp hd with hd | hd
    · rw [List.eq_of_mem_replicate hd]
      omega
    · exact hds d hd
  have hread : ∀ z, readDigits base type.small ((List.replicate z 0x30
      ++ (numeral base (magnitude num type).toNat).map (digitChar type.small))
        ++ List.replicate t 0x20) = (magnitude num type).toNat := fun z => by
    rw [replicate_zero_chars, readDigits_digits hbase (hall z), horner_zeros, horner_numeral]
  suffices h : readDigits base type.small (if type.special = true ∧ base = 16 then
      (unsignedChars num base type z t).drop 2 else unsignedChars num base type z t)
      = (magnitude num type).toNat by
    rw [readUnsigned, h, BitVec.ofNat_toNat, BitVec.setWidth_eq]
  by_cases h16 : type.special = true ∧ base = 16
  · rw [if_pos h16, unsignedChars, baseChars, if_pos h16.1, if_neg (by omega), if_pos h16.2,
      List.append_assoc]
    exact hread z
  · rw [if_neg h16]
    unfold unsignedChars baseChars
    split_ifs with hspecial h8 hbase16
    · exact hread (z + 1)
    · exact absurd ⟨hspecial, hbase16⟩ h16
    · exact hread z
    · exact hread z

/-- The first character behind the sign is a digit. -/
theorem unsignedChars_head (hb : 2 ≤ base) (hbase : base ≤ 36) :
    ∃ d < 36, ∃ cs, unsignedChars num base type z t = digitChar type.small d :: cs := by
  obtain ⟨d, ds, hds⟩ :=
    List.exists_cons_of_ne_nil (@numeral_ne_nil base (magnitude num type).toNat)
  have hd := @numeral_lt base (magnitude num type).toNat (by omega) d (hds ▸ List.mem_cons_self)
  unfold unsignedChars baseChars
  rw [hds]
  split_ifs
  · exact ⟨0, by decide, _, rfl⟩
  · exact ⟨0, by decide, _, rfl⟩
  · cases z with
    | zero => exact ⟨d, by omega, _, rfl⟩
    | succ z => exact ⟨0, by decide, _, rfl⟩
  · cases z with
    | zero => exact ⟨d, by omega, _, rfl⟩
    | succ z => exact ⟨0, by decide, _, rfl⟩

theorem magnitude_of_sign (h : type.sign ∧ num.toInt < 0) : -magnitude num type = num := by
  rw [magnitude, if_pos h, BitVec.neg_neg]

/-- Whatever the flags, the field width and the precision are, the number is
found again in what `number` writes, and the field is as wide as asked for
when there is room for its digits. -/
theorem number_reads (hb : 2 ≤ base) (hbase : base ≤ 36) (hsize : -0x20000000 ≤ size)
    (hsize' : size ≤ 0x20000000) (hprec : precision ≤ 0x20000000) :
    ∃ cs, number num base size precision type = some cs ∧ readNumber base type cs = num
      ∧ (cs.length : Int) = max size ((frontChars num base type).length
        + max precision (numeral base (magnitude num type).toNat).length) := by
  refine ⟨_, number_eq hb hbase hsize hsize' hprec, ?_, ?_⟩
  · obtain ⟨k, z, t, htext⟩ := numberText_parts num base size precision type
    obtain ⟨d, hd, cs, hcs⟩ := @unsignedChars_head num base t z type hb hbase
    obtain ⟨hblank, hminus, hplus⟩ := digitChar_ne type.small d hd
    have hread := @readUnsigned_chars num base t z type hb hbase
    have hblanks : ∀ l : List (BitVec 8), (List.replicate k 0x20 ++ l).dropWhile (· = 0x20)
        = l.dropWhile (· = 0x20) := fun l =>
      List.dropWhile_append_of_pos fun c hc => decide_eq_true (List.eq_of_mem_replicate hc)
    rw [readNumber, htext, hblanks]
    unfold signChars
    split_ifs with hsign hsp hspace
    · exact (congrArg Neg.neg hread).trans (magnitude_of_sign hsign)
    · exact hread.trans (if_neg hsign)
    · rw [List.singleton_append, List.dropWhile_cons_of_pos (by decide), hcs,
        List.dropWhile_cons_of_neg (by simpa using hblank)]
      dsimp only
      rw [if_neg hminus, if_neg hplus, ← hcs]
      exact hread.trans (if_neg hsign)
    · rw [List.nil_append, hcs, List.dropWhile_cons_of_neg (by simpa using hblank)]
      dsimp only
      rw [if_neg hminus, if_neg hplus, ← hcs]
      exact hread.trans (if_neg hsign)
  · have hbody := bodyChars_length num base precision type
    rw [numberText_length]
    push_cast
    rw [hbody]
    omega

/-- The least `int` in a field of 12 characters. -/
theorem number_reads_least : ∃ cs, number 0x80000000 10 12 (-1) { sign := true } = some cs
    ∧ readNumber 10 { sign := true } cs = 0x80000000
    ∧ (cs.length : Int) = max 12 ((frontChars 0x80000000 10 { sign := true }).length
      + max (-1 : Int) (numeral 10 (magnitude 0x80000000 { sign := true }).toNat).length) :=
  number_reads (by decide) (by decide) (by decide) (by decide) (by decide)

end Reads

end Csos
