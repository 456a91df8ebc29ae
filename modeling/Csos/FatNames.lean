import Csos.FatCwd
import Mathlib.Data.List.TakeWhile

/-!
# Short names (`kernel32/fs/fat.c`, `lib/string.c`)

The name of an entry is eleven characters, filled with blanks. What
`fat_to_sfn` makes of a name determines the name up to the case of its
letters (`matchFatName_iff`). The way back is taken by two loops:
`read_fat_fname` for a listing, `fat_to_lfn` for an open file and for the
working directory. Both add 0x20 to every character, and they put the point
at a fixed place, so that few names come back from both (`shortName_law`).
-/

namespace Csos

open Lib Lib.Bytes

/-! ## The code -/

/-- The loop of `kernel_memcmp`. -/
def kernelMemcmpLoop : Nat → Chars → Chars → Int
  | size + 1, a :: p1, b :: p2 => if a ≠ b then 1 else kernelMemcmpLoop size p1 p2
  | _, _, _ => 0

/-- `kernel_memcmp` of two buffers that are not NULL. -/
def kernelMemcmp (v1 v2 : Chars) (size : Nat) : Int :=
  if size = 0 then -1 else kernelMemcmpLoop size v1 v2

/-- The loop of `read_fat_fname`: what stands in `dst`, and `ext` counted
from `dst`. -/
def readFatFnameLoop : Nat → Chars → Chars → Option Nat → Chars × Option Nat
  | _, [], written, ext => (written, ext)
  | i, c :: name, written, ext =>
      if c = 0x2E then readFatFnameLoop (i + 1) name (written ++ [c]) ext
      else if c ≠ 0x20 then readFatFnameLoop (i + 1) name (written ++ [c - 0x41 + 0x61]) ext
      else if i = 7 then
        readFatFnameLoop (i + 1) name (written ++ [0x2E]) (some written.length)
      else readFatFnameLoop (i + 1) name written ext

/-- The twelve bytes of `dst` after `read_fat_fname`. -/
def readFatFname (name : Vector (BitVec 8) 11) : Chars :=
  let (written, ext) := readFatFnameLoop 0 name.toList [] none
  let dst := written ++ List.replicate (12 - written.length) 0
  match ext with
  | some ext => if dst.getD (ext + 1) 0 = 0 then dst.set ext 0 else dst
  | none => dst

/-! ## `kernel_memcmp` -/

theorem kernelMemcmpLoop_eq_zero {size : Nat} {v1 v2 : Chars} (h1 : v1.length = size)
    (h2 : v2.length = size) : kernelMemcmpLoop size v1 v2 = 0 ↔ v1 = v2 := by
  induction size generalizing v1 v2 with
  | zero => simp [kernelMemcmpLoop, List.length_eq_zero_iff.mp h1, List.length_eq_zero_iff.mp h2]
  | succ size ih =>
      cases v1 with
      | nil => cases h1
      | cons a v1 =>
          cases v2 with
          | nil => cases h2
          | cons b v2 =>
              rw [List.length_cons] at h1 h2
              have hrest := ih (Nat.succ.inj h1) (Nat.succ.inj h2)
              rw [kernelMemcmpLoop]
              by_cases hab : a = b
              · rw [if_neg (not_not_intro hab), hrest, hab, List.cons.injEq]
                simp
              · rw [if_pos hab]
                simp [hab]

/-- `!kernel_memcmp(buf, fdir->name, FAT_FILE_NAME_SIZE)`. -/
theorem matchFatName_eq_memcmp (fdir : FatDir) (name : Chars) :
    matchFatName fdir name
      = (kernelMemcmp (fatToSfn name).toList fdir.name.toList fatFileNameSize == 0) := by
  have hzero : kernelMemcmp (fatToSfn name).toList fdir.name.toList fatFileNameSize = 0
      ↔ fatToSfn name = fdir.name := by
    rw [kernelMemcmp, if_neg (by decide),
      kernelMemcmpLoop_eq_zero (by simp [fatFileNameSize]) (by simp [fatFileNameSize]),
      Vector.toList_inj]
  rw [matchFatName, Bool.eq_iff_iff, beq_iff_eq, beq_iff_eq, hzero]

/-! ## Matching -/

/-- Equal up to the case of an ASCII letter. -/
def SameLetter (c d : BitVec 8) : Prop :=
  c = d ∨ 0x41 ≤ c ∧ c ≤ 0x5A ∧ d = c + 0x20 ∨ 0x41 ≤ d ∧ d ≤ 0x5A ∧ c = d + 0x20

/-- What stands behind a name: its NUL, or a slash and anything. -/
def nameTail : Option Chars → Chars
  | none => []
  | some rest => 0x2F :: rest

theorem upperChar_eq_iff {c d : BitVec 8} : upperChar c = upperChar d ↔ SameLetter c d := by
  simp only [upperChar, SameLetter]
  split <;> split <;> bv_omega

theorem map_upperChar_eq_iff {s t : Chars} :
    s.map upperChar = t.map upperChar ↔ List.Forall₂ SameLetter s t := by
  rw [← List.forall₂_eq_eq_eq, List.forall₂_map_left_iff, List.forall₂_map_right_iff]
  simp only [upperChar_eq_iff]

/-- `fat_to_sfn` stops at a slash. -/
theorem fatToSfnLoop_tail {src : Chars} (rest : Option Chars) (pc : Nat)
    (dst : Vector (BitVec 8) 11) :
    fatToSfnLoop (src ++ nameTail rest) pc dst = fatToSfnLoop src pc dst := by
  induction src generalizing pc dst with
  | nil =>
      cases rest with
      | none => rfl
      | some rest => simp [nameTail, fatToSfnLoop]
  | cons c src ih => simp only [List.cons_append, fatToSfnLoop, ih]

theorem fatToSfn_tail (n : Name83) (rest : Option Chars) :
    fatToSfn (n.text ++ nameTail rest) = n.entryName := by
  rw [fatToSfn, fatToSfnLoop_tail, ← fatToSfn, fatToSfn_text]

/-- The name of an entry: base and extension in upper case, each filled with
blanks. -/
theorem entryName_toList_split (n : Name83) :
    n.entryName.toList
      = (n.base.map upperChar ++ List.replicate (8 - n.base.length) 0x20)
        ++ (n.ext.map upperChar ++ List.replicate (3 - n.ext.length) 0x20) := by
  have hbase := n.base_length
  have hext := n.ext_length
  refine List.ext_getElem (by simp; omega) fun i hi hi' => ?_
  rw [Vector.getElem_toList, n.getElem_entryName]
  have hfill : ∀ (cs : Chars) (m i : Nat), cs.length ≤ m →
      ∀ h : i < (cs.map upperChar ++ List.replicate (m - cs.length) 0x20).length,
        (cs.map upperChar).getD i 0x20
          = (cs.map upperChar ++ List.replicate (m - cs.length) 0x20)[i] := by
    intro cs m i hm h
    by_cases hlt : i < (cs.map upperChar).length
    · rw [List.getElem_append_left hlt, List.getD_eq_getElem _ _ hlt]
    · rw [List.getElem_append_right (Nat.le_of_not_lt hlt), List.getElem_replicate,
        List.getD_eq_default _ _ (Nat.le_of_not_lt hlt)]
  have hlen : (n.base.map upperChar ++ List.replicate (8 - n.base.length) 0x20).length = 8 := by
    rw [List.length_append, List.length_map, List.length_replicate]
    omega
  by_cases h8 : i < 8
  · rw [if_pos h8, List.getElem_append_left (by omega)]
    exact hfill n.base 8 i hbase (by omega)
  · rw [if_neg h8, List.getElem_append_right (by omega)]
    simp only [hlen]
    exact hfill n.ext 3 (i - 8) hext (by simp at hi ⊢; omega)

theorem upperChar_ne_blank : ∀ c : BitVec 8, IsNameChar c → upperChar c ≠ 0x20 := by decide

theorem upperChar_ne_point : ∀ c : BitVec 8, IsNameChar c → upperChar c ≠ 0x2E := by decide

/-- What stands before the blanks. -/
theorem append_blanks_inj {s t : Chars} {j k : Nat} (hs : 0x20 ∉ s) (ht : 0x20 ∉ t)
    (h : s ++ List.replicate j 0x20 = t ++ List.replicate k 0x20) : s = t := by
  have htake : ∀ {u : Chars} (m : Nat), 0x20 ∉ u →
      (u ++ List.replicate m 0x20).takeWhile (fun c => c ≠ 0x20) = u := by
    intro u m hu
    rw [List.takeWhile_append_of_pos fun c hc => by
      simpa using fun he : c = 0x20 => hu (he ▸ hc), List.takeWhile_replicate]
    simp
  rw [← htake j hs, h, htake k ht]

theorem blank_notMem {cs : Chars} (h : ∀ c ∈ cs, IsNameChar c) : 0x20 ∉ cs.map upperChar := by
  rintro hmem
  obtain ⟨c, hc, heq⟩ := List.mem_map.mp hmem
  exact upperChar_ne_blank c (h c hc) heq

theorem point_notMem {cs : Chars} (h : ∀ c ∈ cs, IsNameChar c) : 0x2E ∉ cs.map upperChar := by
  rintro hmem
  obtain ⟨c, hc, heq⟩ := List.mem_map.mp hmem
  exact upperChar_ne_point c (h c hc) heq

/-- The name of an entry keeps base and extension apart. -/
theorem entryName_eq_iff {a b : Name83} :
    a.entryName = b.entryName
      ↔ a.base.map upperChar = b.base.map upperChar
        ∧ a.ext.map upperChar = b.ext.map upperChar := by
  constructor
  · intro h
    have hlist := congrArg Vector.toList h
    have ha := a.base_length
    have hb := b.base_length
    rw [entryName_toList_split, entryName_toList_split] at hlist
    obtain ⟨hbase, hext⟩ := List.append_inj hlist (by simp; omega)
    exact ⟨append_blanks_inj (blank_notMem a.base_chars) (blank_notMem b.base_chars) hbase,
      append_blanks_inj (blank_notMem a.ext_chars) (blank_notMem b.ext_chars) hext⟩
  · rintro ⟨hbase, hext⟩
    have hl := congrArg List.length hbase
    have hl' := congrArg List.length hext
    rw [List.length_map, List.length_map] at hl hl'
    rw [← Vector.toList_inj, entryName_toList_split, entryName_toList_split, hbase, hext, hl, hl']

/-- So does the name in a path: the point is no character of either. -/
theorem map_upperChar_text_eq_iff {a b : Name83} :
    a.text.map upperChar = b.text.map upperChar
      ↔ a.base.map upperChar = b.base.map upperChar
        ∧ a.ext.map upperChar = b.ext.map upperChar := by
  have hsplit : ∀ n : Name83, n.base.map upperChar
      = (n.text.map upperChar).takeWhile (fun c => c ≠ 0x2E) := by
    intro n
    have hpos : ∀ c ∈ n.base.map upperChar, decide (c ≠ 0x2E) = true := by
      intro c hc
      exact decide_eq_true fun he => point_notMem n.base_chars (he ▸ hc)
    rw [Name83.text]
    split
    · rw [List.takeWhile_eq_self_iff.mpr hpos]
    · rw [List.map_append, List.takeWhile_append_of_pos hpos]
      simp [upperChar]
  have hdrop : ∀ n : Name83, n.ext.map upperChar
      = (n.text.map upperChar).drop (n.base.length + 1) := by
    intro n
    rw [Name83.text]
    split
    case isTrue he => rw [he, List.drop_of_length_le (by simp)]; rfl
    case isFalse => simp [List.drop_append]
  constructor
  · intro h
    have hbase : a.base.map upperChar = b.base.map upperChar := by rw [hsplit a, hsplit b, h]
    have hlen := congrArg List.length hbase
    rw [List.length_map, List.length_map] at hlen
    exact ⟨hbase, by rw [hdrop a, hdrop b, h, hlen]⟩
  · rintro ⟨hbase, hext⟩
    have hnil : a.ext = [] ↔ b.ext = [] := by
      rw [← List.map_eq_nil_iff (f := upperChar), hext, List.map_eq_nil_iff]
    rw [Name83.text, Name83.text]
    by_cases he : a.ext = []
    · rw [if_pos he, if_pos (hnil.mp he), hbase]
    · rw [if_neg he, if_neg fun h => he (hnil.mpr h), List.map_append, List.map_append,
        List.map_cons, List.map_cons, hbase, hext]

/-- An entry that was filled from one name matches another name if and only
if the two names are equal up to the case of their letters. -/
theorem matchFatName_iff (a b : Name83) (ra rb : Option Chars) (fdir : FatDir) :
    matchFatName { fdir with name := fatToSfn (a.text ++ nameTail ra) } (b.text ++ nameTail rb)
      ↔ List.Forall₂ SameLetter a.text b.text := by
  rw [matchFatName, beq_iff_eq, fatToSfn_tail, fatToSfn_tail, eq_comm, entryName_eq_iff,
    ← map_upperChar_text_eq_iff, map_upperChar_eq_iff]

/-! ## The way back -/

/-- A name of small letters and digits. -/
structure SmallName extends Name83 where
  small : ∀ c ∈ base ++ ext, (0x61 ≤ c ∧ c ≤ 0x7A) ∨ (0x30 ≤ c ∧ c ≤ 0x39)

/-- The character that both loops show for one in a path. -/
def shownChar (c : BitVec 8) : BitVec 8 := upperChar c - 0x41 + 0x61

/-- The bytes hold the string, with its NUL. -/
def HoldsString (dst s : Chars) : Prop := ∃ rest, dst = s ++ 0 :: rest

/-- An entry with that name is shown under it, by a listing and by
`fat_to_lfn`; what `fat_to_lfn` leaves in the eleven bytes ends at a NUL or
with them. -/
structure ComesBack (n : Name83) : Prop where
  fname : HoldsString (readFatFname (fatToSfn n.text)) n.text
  lfn_length : (fatToLfn (fatToSfn n.text)).length ≤ fatFileNameSize
  lfn : (fatToLfn (fatToSfn n.text)).takeWhile (fun c => c ≠ 0) = n.text

theorem takeWhile_nul {s rest : Chars} (hs : 0 ∉ s) :
    (s ++ 0 :: rest).takeWhile (fun c => c ≠ 0) = s := by
  rw [List.takeWhile_append_of_pos fun c hc => by simpa using fun he : c = 0 => hs (he ▸ hc)]
  simp

theorem holdsString_iff {s t rest : Chars} (hs : 0 ∉ s) (ht : 0 ∉ t) :
    HoldsString (t ++ 0 :: rest) s ↔ t = s := by
  constructor
  · rintro ⟨rest', h⟩
    rw [← @takeWhile_nul t rest ht, h, takeWhile_nul hs]
  · rintro rfl
    exact ⟨rest, rfl⟩

/-! ### The loops -/

theorem readFatFnameLoop_chars {cs : Chars} (rest : Chars) (i : Nat) (written : Chars)
    (ext : Option Nat) (h : ∀ c ∈ cs, IsNameChar c) :
    readFatFnameLoop i (cs.map upperChar ++ rest) written ext
      = readFatFnameLoop (i + cs.length) rest (written ++ cs.map shownChar) ext := by
  induction cs generalizing i written with
  | nil => simp
  | cons c cs ih =>
      have hc := h c List.mem_cons_self
      rw [List.map_cons, List.cons_append, readFatFnameLoop, if_neg (upperChar_ne_point c hc),
        if_pos (upperChar_ne_blank c hc), ih _ _ fun b hb => h b (List.mem_cons_of_mem c hb)]
      simp [shownChar, Nat.add_assoc, Nat.add_comm 1]

/-- A blank at the eighth place is shown as the point. -/
theorem readFatFnameLoop_blanks (k : Nat) (rest : Chars) (i : Nat) (written : Chars)
    (ext : Option Nat) :
    readFatFnameLoop i (List.replicate k 0x20 ++ rest) written ext
      = if i ≤ 7 ∧ 7 < i + k
        then readFatFnameLoop (i + k) rest (written ++ [0x2E]) (some written.length)
        else readFatFnameLoop (i + k) rest written ext := by
  induction k generalizing i written ext with
  | zero =>
      have hout : ¬ (i ≤ 7 ∧ 7 < i + 0) := by omega
      rw [if_neg hout]
      rfl
  | succ k ih =>
      rw [List.replicate_succ, List.cons_append, readFatFnameLoop, if_neg (by decide),
        if_neg (by decide), ih, ih, Nat.add_right_comm, Nat.add_assoc i k 1]
      by_cases hi : i = 7
      · have hout : ¬ (i + 1 ≤ 7 ∧ 7 < i + (k + 1)) := by omega
        have hin : i ≤ 7 ∧ 7 < i + (k + 1) := by omega
        rw [if_pos hi, if_neg hout, if_pos hin]
      · have hiff : (i + 1 ≤ 7 ∧ 7 < i + (k + 1)) ↔ (i ≤ 7 ∧ 7 < i + (k + 1)) := by omega
        rw [if_neg hi]
        simp only [hiff]

/-- Away from the eighth place. -/
theorem fatToLfnLoop_chars {cs : Chars} (rest : Chars) (i : Nat) (h : ∀ c ∈ cs, IsNameChar c)
    (hi : ¬ (i ≤ 7 ∧ 7 < i + cs.length)) :
    fatToLfnLoop i (cs.map upperChar ++ rest)
      = cs.map shownChar ++ fatToLfnLoop (i + cs.length) rest := by
  induction cs generalizing i with
  | nil => rfl
  | cons c cs ih =>
      rw [List.length_cons] at hi
      have hne : i ≠ 7 := by omega
      rw [List.map_cons, List.cons_append, fatToLfnLoop, if_neg hne,
        if_neg (upperChar_ne_blank c (h c List.mem_cons_self)),
        ih (i + 1) (fun b hb => h b (List.mem_cons_of_mem c hb)) (by omega), List.length_cons,
        Nat.add_right_comm]
      rfl

theorem fatToLfnLoop_blanks (k : Nat) (rest : Chars) (i : Nat) :
    fatToLfnLoop i (List.replicate k 0x20 ++ rest)
      = (if i ≤ 7 ∧ 7 < i + k then [0x2E] else []) ++ fatToLfnLoop (i + k) rest := by
  induction k generalizing i with
  | zero =>
      have hout : ¬ (i ≤ 7 ∧ 7 < i + 0) := by omega
      rw [if_neg hout]
      rfl
  | succ k ih =>
      rw [List.replicate_succ, List.cons_append, fatToLfnLoop, if_pos rfl, ih,
        Nat.add_right_comm, Nat.add_assoc i k 1]
      by_cases hi : i = 7
      · have hout : ¬ (i + 1 ≤ 7 ∧ 7 < i + (k + 1)) := by omega
        have hin : i ≤ 7 ∧ 7 < i + (k + 1) := by omega
        rw [if_pos hi, if_neg hout, if_pos hin]
        rfl
      · have hiff : (i + 1 ≤ 7 ∧ 7 < i + (k + 1)) ↔ (i ≤ 7 ∧ 7 < i + (k + 1)) := by omega
        rw [if_neg hi]
        simp only [hiff]
        rfl

/-! ### What comes back -/

section Back

variable {n : Name83}

/-- What `read_fat_fname` writes: no point behind a base of eight characters. -/
theorem readFatFnameLoop_entryName :
    readFatFnameLoop 0 n.entryName.toList [] none
      = if n.base.length = 8 then ((n.base ++ n.ext).map shownChar, none)
        else (n.base.map shownChar ++ 0x2E :: n.ext.map shownChar, some n.base.length) := by
  have hb := n.base_length
  have htail : ∀ i written ext, 7 < i →
      readFatFnameLoop i (n.ext.map upperChar ++ List.replicate (3 - n.ext.length) 0x20)
          written ext
        = (written ++ n.ext.map shownChar, ext) := by
    intro i written ext hi
    have hblanks := readFatFnameLoop_blanks (3 - n.ext.length) [] (i + n.ext.length)
      (written ++ n.ext.map shownChar) ext
    rw [List.append_nil, if_neg (by omega), readFatFnameLoop] at hblanks
    rw [readFatFnameLoop_chars _ _ _ _ n.ext_chars, hblanks]
  rw [entryName_toList_split, List.append_assoc, readFatFnameLoop_chars _ _ _ _ n.base_chars,
    readFatFnameLoop_blanks, htail _ _ _ (by omega), htail _ _ _ (by omega)]
  by_cases h8 : n.base.length = 8
  · rw [if_neg (by omega), if_pos h8]
    simp
  · rw [if_pos (by omega), if_neg h8]
    simp

/-- What `fat_to_lfn` writes: the point stands before the eighth character
of the base. -/
theorem fatToLfnLoop_entryName :
    fatToLfnLoop 0 n.entryName.toList
      = (n.base.take 7).map shownChar
        ++ 0x2E :: ((n.base.drop 7).map shownChar ++ n.ext.map shownChar) := by
  have hb := n.base_length
  have htail : ∀ i, 7 < i →
      fatToLfnLoop i (n.ext.map upperChar ++ List.replicate (3 - n.ext.length) 0x20)
        = n.ext.map shownChar := by
    intro i hi
    have hblanks := fatToLfnLoop_blanks (3 - n.ext.length) [] (i + n.ext.length)
    rw [List.append_nil, if_neg (by omega), fatToLfnLoop, List.append_nil] at hblanks
    rw [fatToLfnLoop_chars _ _ n.ext_chars (by omega), hblanks, List.append_nil]
  rw [entryName_toList_split, List.append_assoc]
  by_cases h8 : n.base.length = 8
  · obtain ⟨c, hc⟩ : ∃ c, n.base.drop 7 = [c] :=
      List.length_eq_one_iff.mp (by rw [List.length_drop]; omega)
    have hmem : c ∈ n.base := List.mem_of_mem_drop (hc ▸ List.mem_singleton_self c)
    have htake : ∀ d ∈ n.base.take 7, IsNameChar d := fun d hd =>
      n.base_chars d (List.mem_of_mem_take hd)
    have hlen : (n.base.take 7).length = 7 := by rw [List.length_take]; omega
    have hbase : ∀ rest, n.base.map upperChar ++ rest
        = (n.base.take 7).map upperChar ++ (upperChar c :: rest) := by
      intro rest
      conv_lhs => rw [← List.take_append_drop 7 n.base, hc]
      simp
    rw [hbase, fatToLfnLoop_chars _ _ htake (by omega), hlen, fatToLfnLoop, if_pos rfl,
      if_neg (upperChar_ne_blank c (n.base_chars c hmem)), h8, Nat.sub_self, List.replicate_zero,
      List.nil_append, htail _ (by omega), hc]
    rfl
  · rw [fatToLfnLoop_chars _ _ n.base_chars (by omega), fatToLfnLoop_blanks,
      if_pos (by omega), htail _ (by omega), List.take_of_length_le (by omega),
      List.drop_of_length_le (by omega)]
    rfl

end Back

theorem shownChar_small :
    ∀ c : BitVec 8, (0x61 ≤ c ∧ c ≤ 0x7A) ∨ (0x30 ≤ c ∧ c ≤ 0x39) →
      shownChar c ≠ 0 ∧ shownChar c ≠ 0x2E ∧ (shownChar c = c ↔ 0x61 ≤ c) := by decide

namespace SmallName

variable {n : SmallName} {cs : Chars}

theorem shown_ne_nul (h : ∀ c ∈ cs, c ∈ n.base ++ n.ext) : 0 ∉ cs.map shownChar := by
  intro hmem
  obtain ⟨c, hc, heq⟩ := List.mem_map.mp hmem
  exact (shownChar_small c (n.small c (h c hc))).1 heq

theorem shown_eq_iff (h : ∀ c ∈ cs, c ∈ n.base ++ n.ext) :
    cs.map shownChar = cs ↔ ∀ c ∈ cs, 0x61 ≤ c := by
  nth_rewrite 2 [← List.map_id cs]
  rw [List.map_inj_left]
  exact forall₂_congr fun c hc => (shownChar_small c (n.small c (h c hc))).2.2

theorem text_ne_nul (n : SmallName) : 0 ∉ n.text := by
  intro hmem
  rw [Name83.text] at hmem
  split at hmem
  · exact (n.base_chars 0 hmem).1 rfl
  · rcases List.mem_append.mp hmem with h | h
    · exact (n.base_chars 0 h).1 rfl
    · rcases List.mem_cons.mp h with h | h
      · exact absurd h (by decide)
      · exact (n.ext_chars 0 h).1 rfl

/-- The string that a listing shows. -/
def listed (n : SmallName) : Chars :=
  if n.base.length = 8 then (n.base ++ n.ext).map shownChar
  else if n.ext = [] then n.base.map shownChar
  else n.base.map shownChar ++ 0x2E :: n.ext.map shownChar

/-- What `fat_to_lfn` writes. -/
def written (n : SmallName) : Chars :=
  (n.base.take 7).map shownChar ++ 0x2E :: ((n.base.drop 7).map shownChar ++ n.ext.map shownChar)

theorem length_written (n : SmallName) :
    n.written.length = n.base.length + n.ext.length + 1 := by
  simp [written]
  omega

theorem listed_ne_nul (n : SmallName) : 0 ∉ n.listed := by
  have hbase : 0 ∉ n.base.map shownChar :=
    shown_ne_nul fun c hc => List.mem_append_left n.ext hc
  have hext : 0 ∉ n.ext.map shownChar :=
    shown_ne_nul fun c hc => List.mem_append_right n.base hc
  rw [listed]
  split
  · exact shown_ne_nul fun c hc => hc
  · split
    · exact hbase
    · simp only [List.mem_append, List.mem_cons, not_or]
      exact ⟨hbase, by decide, hext⟩

theorem written_ne_nul (n : SmallName) : 0 ∉ n.written := by
  have hext : 0 ∉ n.ext.map shownChar :=
    shown_ne_nul fun c hc => List.mem_append_right n.base hc
  simp only [written, List.mem_append, List.mem_cons, not_or]
  exact ⟨shown_ne_nul fun c hc => List.mem_append_left n.ext (List.mem_of_mem_take hc),
    by decide, shown_ne_nul fun c hc => List.mem_append_left n.ext (List.mem_of_mem_drop hc), hext⟩

theorem holdsString_listed (n : SmallName) : HoldsString (readFatFname n.entryName) n.listed := by
  have hb := n.base_length
  have he := n.ext_length
  have hzeros : ∀ (w : Chars), w.length < 12 →
      w ++ List.replicate (12 - w.length) 0 = w ++ 0 :: List.replicate (11 - w.length) 0 := by
    intro w hw
    rw [← List.replicate_succ]
    congr 2
    omega
  rw [readFatFname, readFatFnameLoop_entryName, listed]
  by_cases h8 : n.base.length = 8
  · simp only [if_pos h8]
    exact ⟨_, hzeros _ (by simp; omega)⟩
  · simp only [if_neg h8]
    rw [hzeros _ (by simp; omega)]
    cases hext : n.ext with
    | nil =>
        rw [List.map_nil, if_pos (by simp), if_pos rfl]
        exact ⟨_, by rw [List.append_assoc, List.set_append_right _ _ (by simp),
          List.length_map, Nat.sub_self]; rfl⟩
    | cons c ext =>
        have hc : shownChar c ≠ 0 := by
          refine (shownChar_small c (n.small c ?_)).1
          rw [hext]
          simp
        rw [if_neg (by simpa using hc), if_neg (List.cons_ne_nil c ext)]
        exact ⟨_, rfl⟩

/-- A name without an extension: the point at the end becomes the NUL. -/
theorem fatToLfn_of_point (hext : n.ext = []) (hb : n.base.length ≤ 7) :
    fatToLfn n.entryName
      = n.base.map shownChar ++ 0 :: List.replicate (10 - n.base.length) 0x20 := by
  have hw : fatToLfnLoop 0 n.entryName.toList = n.base.map shownChar ++ [0x2E] := by
    rw [fatToLfnLoop_entryName, hext, List.take_of_length_le hb, List.drop_of_length_le hb]
    rfl
  rw [fatToLfn, hw, if_pos (by simp), List.append_assoc, List.set_append_right _ _ (by simp)]
  simp only [List.length_append, List.length_map, List.length_singleton, Nat.add_sub_cancel,
    Nat.sub_self, List.singleton_append, List.set_cons_zero]
  congr 3
  omega

/-- Any other name stands among blanks. -/
theorem fatToLfn_of_rest (h : n.ext = [] → 7 < n.base.length) :
    fatToLfn n.entryName
      = n.written ++ List.replicate (11 - n.written.length) 0x20 := by
  have hlast : n.written.getLast? ≠ some 0x2E := by
    intro hpoint
    have hne : n.base.drop 7 ++ n.ext ≠ [] := by
      intro hnil
      obtain ⟨hdrop, hext⟩ := List.append_eq_nil_iff.mp hnil
      have := h hext
      have := List.drop_eq_nil_iff.mp hdrop
      omega
    have hmap : (n.base.drop 7).map shownChar ++ n.ext.map shownChar ≠ [] := by
      rw [← List.map_append]
      exact mt List.map_eq_nil_iff.mp hne
    rw [written, List.getLast?_append_cons, List.getLast?_cons_of_ne_nil hmap,
      ← List.map_append] at hpoint
    obtain ⟨c, hc, heq⟩ := List.mem_map.mp (List.mem_of_getLast? hpoint)
    refine (shownChar_small c (n.small c ?_)).2.1 heq
    rcases List.mem_append.mp hc with hc | hc
    · exact List.mem_append_left _ (List.mem_of_mem_drop hc)
    · exact List.mem_append_right _ hc
  rw [fatToLfn, fatToLfnLoop_entryName]
  exact if_neg hlast

/-- The base and the extension show as they stand in the path if and only if
both are of letters. -/
theorem listed_eq_text (h : n.base.length = 8 → n.ext = []) :
    n.listed = n.text ↔ ∀ c ∈ n.base ++ n.ext, 0x61 ≤ c := by
  have hbase : n.base.map shownChar = n.base ↔ ∀ c ∈ n.base, 0x61 ≤ c :=
    shown_eq_iff fun c hc => List.mem_append_left n.ext hc
  have hext : n.ext.map shownChar = n.ext ↔ ∀ c ∈ n.ext, 0x61 ≤ c :=
    shown_eq_iff fun c hc => List.mem_append_right n.base hc
  rw [listed, Name83.text, List.forall_mem_append, ← hbase, ← hext]
  by_cases hnil : n.ext = []
  · simp [hnil]
  · have h8 : n.base.length ≠ 8 := fun h8 => hnil (h h8)
    rw [if_neg h8, if_neg hnil, if_neg hnil]
    constructor
    · intro heq
      obtain ⟨hb, hr⟩ := List.append_inj heq (List.length_map _)
      exact ⟨hb, (List.cons.inj hr).2⟩
    · rintro ⟨hb, he⟩
      rw [hb, he]

/-- `fat_to_lfn` gives the name back only where no blank stands behind it. -/
theorem shape_of_fatToLfn (h8 : n.base.length = 8 → n.ext = [])
    (hlfn : (fatToLfn n.entryName).takeWhile (fun c => c ≠ 0) = n.text) :
    n.ext = [] ∧ n.base.length ≤ 7 ∨ n.base.length = 7 ∧ n.ext.length = 3 := by
  have hb := n.base_length
  have he := n.ext_length
  by_cases hpoint : n.ext = [] ∧ n.base.length ≤ 7
  · exact Or.inl hpoint
  · refine Or.inr ?_
    have hrest : n.ext = [] → 7 < n.base.length := fun hnil =>
      Nat.lt_of_not_le fun h => hpoint ⟨hnil, h⟩
    have hall : ∀ c ∈ n.written ++ List.replicate (11 - n.written.length) 0x20,
        decide (c ≠ 0) = true := by
      intro c hc
      refine decide_eq_true fun h0 => ?_
      rcases List.mem_append.mp hc with hc | hc
      · exact n.written_ne_nul (h0 ▸ hc)
      · exact absurd (List.eq_of_mem_replicate hc) (h0 ▸ by decide)
    rw [fatToLfn_of_rest hrest, List.takeWhile_eq_self_iff.mpr hall] at hlfn
    have hlen := congrArg List.length hlfn
    have hwlen := n.length_written
    rw [List.length_append, List.length_replicate, Name83.text] at hlen
    split at hlen
    case isTrue hnil =>
      have := hrest hnil
      have := congrArg List.length hnil
      simp only [List.length_nil] at this
      omega
    case isFalse hnil =>
      have hne : n.base.length ≠ 8 := fun h => hnil (h8 h)
      rw [List.length_append, List.length_cons] at hlen
      omega

/-- And there, with letters alone, it does. -/
theorem fatToLfn_of_shape (hletters : ∀ c ∈ n.base ++ n.ext, 0x61 ≤ c)
    (hshape : n.ext = [] ∧ n.base.length ≤ 7 ∨ n.base.length = 7 ∧ n.ext.length = 3) :
    (fatToLfn n.entryName).length = fatFileNameSize
      ∧ (fatToLfn n.entryName).takeWhile (fun c => c ≠ 0) = n.text := by
  have hbase : n.base.map shownChar = n.base :=
    (shown_eq_iff fun c hc => List.mem_append_left n.ext hc).mpr fun c hc =>
      hletters c (List.mem_append_left n.ext hc)
  have hext : n.ext.map shownChar = n.ext :=
    (shown_eq_iff fun c hc => List.mem_append_right n.base hc).mpr fun c hc =>
      hletters c (List.mem_append_right n.base hc)
  have htext := n.text_ne_nul
  rcases hshape with ⟨hnil, h7⟩ | ⟨h7, h3⟩
  · have hlfn := fatToLfn_of_point hnil h7
    have hname : n.text = n.base := if_pos hnil
    rw [hbase] at hlfn
    constructor
    · rw [hlfn]
      simp [fatFileNameSize]
      omega
    · rw [hlfn, takeWhile_nul (hname ▸ htext), hname]
  · have hne : n.ext ≠ [] := fun hnil => by simp [hnil] at h3
    have hname : n.text = n.base ++ 0x2E :: n.ext := if_neg hne
    have hwritten : n.written = n.text := by
      rw [written, List.take_of_length_le (by omega), List.drop_of_length_le (by omega), hbase,
        hext, hname]
      rfl
    have hlfn : fatToLfn n.entryName = n.text := by
      rw [fatToLfn_of_rest fun hnil => absurd hnil hne, n.length_written, hwritten, h7, h3]
      exact List.append_nil _
    constructor
    · rw [hlfn, ← hwritten, n.length_written, h7, h3]
      decide
    · rw [hlfn]
      exact List.takeWhile_eq_self_iff.mpr fun c hc => decide_eq_true fun h0 => htext (h0 ▸ hc)

end SmallName

/-- A name of small letters and digits comes back from both loops if and only
if it is of letters alone and either has at most seven characters and no
extension, or seven and three. -/
theorem shortName_law (n : SmallName) :
    ComesBack n.toName83
      ↔ (∀ c ∈ n.base ++ n.ext, 0x61 ≤ c)
        ∧ (n.ext = [] ∧ n.base.length ≤ 7 ∨ n.base.length = 7 ∧ n.ext.length = 3) := by
  have hfname : HoldsString (readFatFname n.entryName) n.text ↔ n.listed = n.text := by
    obtain ⟨rest, hrest⟩ := n.holdsString_listed
    rw [hrest, holdsString_iff n.text_ne_nul n.listed_ne_nul]
  constructor
  · rintro ⟨hf, -, hlfn⟩
    rw [fatToSfn_text] at hf hlfn
    have hlisted := hfname.mp hf
    have hlen := congrArg List.length hlisted
    have h8 : n.base.length = 8 → n.ext = [] := by
      intro h8
      by_contra hnil
      rw [SmallName.listed, if_pos h8, Name83.text, if_neg hnil] at hlen
      simp at hlen
    exact ⟨(SmallName.listed_eq_text h8).mp hlisted, SmallName.shape_of_fatToLfn h8 hlfn⟩
  · rintro ⟨hletters, hshape⟩
    have h8 : n.base.length = 8 → n.ext = [] := by omega
    obtain ⟨hlen, hlfn⟩ := SmallName.fatToLfn_of_shape hletters hshape
    refine ⟨?_, ?_, ?_⟩ <;> rw [fatToSfn_text]
    · exact hfname.mpr ((SmallName.listed_eq_text h8).mpr hletters)
    · exact hlen.le
    · exact hlfn

/-- `f1`. -/
def nameF1 : SmallName where
  base := [0x66, 0x31]
  ext := []
  base_ne_nil := by decide
  base_length := by decide
  ext_length := by decide
  base_chars := by decide
  ext_chars := noExt_chars
  small := by decide

/-- A listing shows the file `f1` as `fQ`. -/
theorem shortName_law_digit :
    ¬ (∀ n : SmallName, ComesBack n.toName83)
      ∧ HoldsString (readFatFname (fatToSfn nameF1.text)) [0x66, 0x51] := by
  refine ⟨fun h => ?_, List.replicate 9 0, by decide⟩
  obtain ⟨rest, hrest⟩ := (h nameF1).fname
  have hQ : (readFatFname (fatToSfn nameF1.text))[1]? = some 0x51 := by decide
  rw [hrest, show nameF1.text = [0x66, 0x31] from rfl] at hQ
  exact absurd (Option.some.inj hQ) (by decide)

end Csos
