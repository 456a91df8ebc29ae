import Csos.FatTree
import Mathlib.Data.List.GetD

/-!
# `read_fat_path_cluster` and the tree
-/

namespace Csos

open Lib Lib.Bytes

/-! ## Names -/

/-- `src` put over `dst` from `pc` on. -/
def putOver (dst : Vector (BitVec 8) 11) (pc : Nat) (src : Chars) : Vector (BitVec 8) 11 :=
  Vector.ofFn fun i =>
    if pc ≤ i.val ∧ i.val < pc + src.length then src.getD (i.val - pc) 0 else dst[i]

theorem getElem_putOver {dst : Vector (BitVec 8) 11} {pc : Nat} {src : Chars} {i : Nat}
    (hi : i < 11) :
    (putOver dst pc src)[i]
      = if pc ≤ i ∧ i < pc + src.length then src.getD (i - pc) 0 else dst[i] :=
  Vector.getElem_ofFn hi

theorem putOver_nil (dst : Vector (BitVec 8) 11) (pc : Nat) : putOver dst pc [] = dst := by
  refine Vector.ext fun i hi => ?_
  have h : ¬ (pc ≤ i ∧ i < pc + 0) := by omega
  rw [getElem_putOver, List.length_nil, if_neg h]

theorem putOver_cons {dst : Vector (BitVec 8) 11} {pc : Nat} (h : pc < 11) (c : BitVec 8)
    (src : Chars) : putOver (dst.set pc c) (pc + 1) src = putOver dst pc (c :: src) := by
  refine Vector.ext fun i hi => ?_
  rw [getElem_putOver, getElem_putOver, List.length_cons]
  by_cases hlt : pc + 1 ≤ i ∧ i < pc + 1 + src.length
  · have hle : pc ≤ i ∧ i < pc + (src.length + 1) := by omega
    have hsub : i - pc = (i - (pc + 1)) + 1 := by omega
    rw [if_pos hlt, if_pos hle, hsub, List.getD_cons_succ]
  · rw [if_neg hlt, Vector.getElem_set]
    by_cases hi' : pc = i
    · have hle : pc ≤ i ∧ i < pc + (src.length + 1) := by omega
      rw [if_pos hi', if_pos hle, hi', Nat.sub_self, List.getD_cons_zero]
    · have hle : ¬ (pc ≤ i ∧ i < pc + (src.length + 1)) := by omega
      rw [if_neg hi', if_neg hle]

/-- A short string over blanks. -/
theorem getElem_putOver_blank {src : Chars} {i : Nat} (hi : i < 11) :
    (putOver (Vector.replicate 11 0x20) 0 src)[i] = src.getD i 0x20 := by
  rw [getElem_putOver, Nat.zero_add, Nat.sub_zero]
  by_cases h : i < src.length
  · rw [if_pos ⟨i.zero_le, h⟩, List.getD_eq_getElem _ _ h, List.getD_eq_getElem _ _ h]
  · rw [if_neg fun hlt => h hlt.2, Vector.getElem_replicate,
      List.getD_eq_default _ _ (Nat.le_of_not_lt h)]

/-- The characters of a name are put into `dst` one after the other. -/
theorem fatToSfnLoop_append {src : Chars} (rest : Chars) (pc : Nat)
    (dst : Vector (BitVec 8) 11) (hsrc : ∀ c ∈ src, IsNameChar c)
    (hpc : pc + src.length ≤ 11) :
    fatToSfnLoop (src ++ rest) pc dst
      = fatToSfnLoop rest (pc + src.length) (putOver dst pc (src.map upperChar)) := by
  induction src generalizing pc dst with
  | nil => rw [List.map_nil, putOver_nil]; rfl
  | cons c src ih =>
      obtain ⟨-, -, hdot, hslash⟩ := hsrc c List.mem_cons_self
      rw [List.length_cons] at hpc
      have hlt : pc < 11 := by omega
      rw [List.cons_append, fatToSfnLoop, dif_pos hlt, if_neg hslash, if_neg hdot,
        ih _ _ (fun b hb => hsrc b (List.mem_cons_of_mem c hb)) (by omega), putOver_cons hlt,
        List.map_cons, List.length_cons]
      congr 1
      omega

theorem Name83.getElem_entryName (n : Name83) {i : Nat} (hi : i < 11) :
    n.entryName[i] = if i < 8 then (n.base.map upperChar).getD i 0x20
      else (n.ext.map upperChar).getD (i - 8) 0x20 := Vector.getElem_ofFn hi

/-- A name in a path stands for its name in the directory. -/
theorem fatToSfn_text (n : Name83) : fatToSfn n.text = n.entryName := by
  have hbase := n.base_length
  have hext := n.ext_length
  have hsfn : ∀ rest, fatToSfn (n.base ++ rest) = fatToSfnLoop rest n.base.length
      (putOver (Vector.replicate 11 0x20) 0 (n.base.map upperChar)) := by
    intro rest
    rw [fatToSfn, fatToSfnLoop_append _ _ _ n.base_chars (by omega), Nat.zero_add]
  have hblank : ∀ i, 8 ≤ i → (n.base.map upperChar).getD i 0x20 = 0x20 := by
    intro i hi
    exact List.getD_eq_default _ _ (by rw [List.length_map]; omega)
  refine Vector.ext fun i hi => ?_
  rw [n.getElem_entryName]
  by_cases he : n.ext = []
  · have htext : n.text = n.base ++ [] := by rw [Name83.text, if_pos he, List.append_nil]
    rw [htext, hsfn, fatToSfnLoop, getElem_putOver_blank, he]
    by_cases h8 : i < 8
    · rw [if_pos h8]
    · rw [if_neg h8, hblank i (by omega), List.map_nil, List.getD_nil]
  · have hlt : n.base.length < 11 := by omega
    have hsrc := fatToSfnLoop_append [] 8
      (putOver (Vector.replicate 11 0x20) 0 (n.base.map upperChar)) n.ext_chars (by omega)
    have hlen : (n.ext.map upperChar).length = n.ext.length := List.length_map _
    rw [List.append_nil, fatToSfnLoop] at hsrc
    have hdot : ∀ dst, fatToSfnLoop (0x2E :: n.ext) n.base.length dst
        = fatToSfnLoop n.ext 8 dst := by
      intro dst
      rw [fatToSfnLoop, dif_pos hlt, if_neg (by decide), if_pos rfl]
    simp only [Name83.text, if_neg he, hsfn, hdot, hsrc]
    rw [getElem_putOver]
    by_cases h8 : i < 8
    · have hout : ¬ (8 ≤ i ∧ i < 8 + (n.ext.map upperChar).length) := by omega
      rw [if_neg hout, if_pos h8, getElem_putOver_blank]
    · rw [if_neg h8]
      by_cases hin : i < 8 + (n.ext.map upperChar).length
      · have hlt : i - 8 < (n.ext.map upperChar).length := by omega
        rw [if_pos ⟨by omega, hin⟩, List.getD_eq_getElem _ _ hlt, List.getD_eq_getElem _ _ hlt]
      · rw [if_neg fun h => hin h.2, getElem_putOver_blank, hblank i (by omega),
          List.getD_eq_default _ _ (by omega)]

theorem Name83.text_ne_nil (n : Name83) : n.text ≠ [] := by
  rw [Name83.text]
  split
  · exact n.base_ne_nil
  · exact List.append_ne_nil_of_left_ne_nil n.base_ne_nil _

theorem Name83.slash_notMem_text (n : Name83) : ∀ c ∈ n.text, c ≠ 0x2F := by
  intro c hc
  rw [Name83.text] at hc
  split at hc
  · exact (n.base_chars c hc).2.2.2
  · rcases List.mem_append.mp hc with hc | hc
    · exact (n.base_chars c hc).2.2.2
    · rcases List.mem_cons.mp hc with rfl | hc
      · decide
      · exact (n.ext_chars c hc).2.2.2

theorem nameEnds_pathText (slash : Bool) (names : List Name83) :
    nameEnds (pathText slash names) = true := by
  cases names with
  | nil => cases slash <;> rfl
  | cons n names => rfl

/-! ## Copying a name -/

section CopyName

variable {text : Chars}

/-- A name that fits is copied up to the slash or the NUL behind it. -/
theorem copyName_of_fits {rest : Chars} (buf : Chars) (htext : text ≠ [])
    (hslash : ∀ c ∈ text, c ≠ 0x2F) (hrest : nameEnds rest)
    (hlen : buf.length + text.length ≤ 10) :
    copyName buf (text ++ rest) = .ok (buf ++ text, rest) := by
  induction text generalizing buf with
  | nil => exact absurd rfl htext
  | cons c text ih =>
      rw [List.length_cons] at hlen
      have hlt : buf.length < 10 := by omega
      rw [List.cons_append, copyName, if_pos hlt]
      cases text with
      | nil => rw [List.nil_append, if_pos hrest]
      | cons d text =>
          have hd : nameEnds (d :: text ++ rest) = false := by
            have := hslash d (List.mem_cons_of_mem c List.mem_cons_self)
            simpa [nameEnds] using this
          rw [hd, if_neg Bool.false_ne_true, ih _ (List.cons_ne_nil d text)
            (fun b hb => hslash b (List.mem_cons_of_mem c hb)) (by simp at hlen ⊢; omega),
            List.append_assoc]
          rfl

/-- A name that does not fit is stored past `buf`. -/
theorem copyName_of_long (rest buf : Chars) (hslash : ∀ c ∈ text, c ≠ 0x2F)
    (hbuf : buf.length ≤ 10) (hlen : 10 < buf.length + text.length) :
    copyName buf (text ++ rest) = .error .storePastBuf := by
  induction text generalizing buf with
  | nil => simp at hlen; omega
  | cons c text ih =>
      rw [List.length_cons] at hlen
      rw [List.cons_append, copyName]
      by_cases hlt : buf.length < 10
      · rw [if_pos hlt]
        cases text with
        | nil => simp at hlen; omega
        | cons d text =>
            have hd : nameEnds (d :: text ++ rest) = false := by
              have := hslash d (List.mem_cons_of_mem c List.mem_cons_self)
              simpa [nameEnds] using this
            rw [hd, if_neg Bool.false_ne_true]
            exact ih _ (fun b hb => hslash b (List.mem_cons_of_mem c hb)) (by simp; omega)
              (by simp at hlen ⊢; omega)
      · rw [if_neg hlt]

end CopyName

/-! ## Scanning a sector -/

/-- The scan finds an entry. -/
def scanFound (e : DirEntry) : Scan :=
  match treeType e.fdir with
  | .file => .file e.index
  | _ => .dir e.index e.fdir

/-- A read-only entry has no type. -/
theorem readFatFtype_eq (fdir : FatDir) :
    readFatFtype fdir = if fdir.attr &&& 1 = 0 then treeType fdir else .unknown := by
  unfold readFatFtype treeType
  by_cases hhidden : fdir.attr &&& 0x0E ≠ 0
  · rw [if_pos hhidden, if_pos hhidden, ite_self]
  · rw [if_neg hhidden, if_neg hhidden]
    by_cases hro : fdir.attr &&& 1 = 0
    · have hlname : ¬ fdir.attr &&& 0x0F = 0x0F := by
        intro h
        have hone : fdir.attr &&& 1 = (fdir.attr &&& 0x0F) &&& 1 := by
          rw [BitVec.and_assoc]
          rfl
        rw [h, hro] at hone
        exact absurd hone (by decide)
      rw [if_neg (not_not.mpr hro), if_pos hro, if_neg hlname]
    · rw [if_pos hro, if_neg hro]

section ScanDirs

variable {name : Chars} {n : Name83} {sector i : Nat} {fdir : FatDir} {dirs : List FatDir}

theorem scanDirs_end (h : (DirEntry.mk sector i fdir).isEnd) :
    scanDirs name i (fdir :: dirs) = .foundEnd := by
  rw [scanDirs, if_pos (of_decide_eq_true h)]

theorem scanDirs_hit (hname : fatToSfn name = n.entryName)
    (hend : ¬ (DirEntry.mk sector i fdir).isEnd) (h : (DirEntry.mk sector i fdir).isSeen n) :
    scanDirs name i (fdir :: dirs) = scanFound ⟨sector, i, fdir⟩ := by
  obtain ⟨hnamed, hro⟩ := of_decide_eq_true h
  obtain ⟨hfree, heq, htype⟩ := of_decide_eq_true hnamed
  have hend' : ¬ nameFirst fdir.name = fdnEnd := fun he => hend (decide_eq_true he)
  have hmatch : matchFatName fdir name = true := by
    rw [matchFatName, hname]
    exact beq_iff_eq.mpr heq.symm
  rw [scanDirs, if_neg hend', if_neg hfree, if_pos hmatch, readFatFtype_eq, if_pos hro, scanFound]
  dsimp only at htype ⊢
  unfold treeType at htype ⊢
  split_ifs at htype ⊢
  all_goals first | exact absurd rfl htype | rfl

theorem scanDirs_miss (hname : fatToSfn name = n.entryName)
    (hend : ¬ (DirEntry.mk sector i fdir).isEnd)
    (h : ¬ (DirEntry.mk sector i fdir).isSeen n) :
    scanDirs name i (fdir :: dirs) = scanDirs name (i + 1) dirs := by
  have hend' : ¬ nameFirst fdir.name = fdnEnd := fun he => hend (decide_eq_true he)
  rw [scanDirs, if_neg hend']
  by_cases hfree : nameFirst fdir.name = fdnFree
  · rw [if_pos hfree]
  rw [if_neg hfree]
  by_cases hmatch : matchFatName fdir name = true
  · have heq : fdir.name = n.entryName := by
      rw [← hname]
      exact (beq_iff_eq.mp hmatch).symm
    have htype : readFatFtype fdir = .unknown := by
      by_contra htype
      rw [readFatFtype_eq] at htype
      split at htype
      · next hro => exact h (decide_eq_true ⟨decide_eq_true ⟨hfree, heq, htype⟩, hro⟩)
      · exact htype rfl
    rw [if_pos hmatch, htype]
  · rw [if_neg hmatch]

/-- The scan finds what is seen among the entries of a sector; else it finds
the end, or goes on. -/
theorem scanDirs_placed (hname : fatToSfn name = n.entryName) (f : Nat → FatDir) (k : Nat)
    {es : List DirEntry} (hes : es = (List.range' i k).map fun j => ⟨sector, j, f j⟩) :
    scanDirs name i ((List.range' i k).map f ++ dirs)
      = match lookAmong (DirEntry.isSeen n) es with
        | some e => scanFound e
        | none => if es.any DirEntry.isEnd then .foundEnd else scanDirs name (i + k) dirs := by
  induction k generalizing i es with
  | zero =>
      subst hes
      rfl
  | succ k ih =>
      rw [List.range'_succ, List.map_cons] at hes
      rw [hes, List.range'_succ, List.map_cons, List.cons_append, List.any_cons]
      by_cases hend : (DirEntry.mk sector i (f i)).isEnd
      · rw [lookAmong_end hend, scanDirs_end hend, hend, Bool.true_or]
        rfl
      rw [Bool.eq_false_iff.mpr hend, Bool.false_or]
      by_cases hseen : (DirEntry.mk sector i (f i)).isSeen n
      · rw [lookAmong_hit hend hseen, scanDirs_hit hname hend hseen]
      · have hk : i + 1 + k = i + (k + 1) := by omega
        rw [lookAmong_miss hend hseen, scanDirs_miss hname hend hseen, ih rfl, hk]

end ScanDirs

/-! ## The outlook for a path -/

/-- What is to be expected of a path: the code finds what the tree holds, it
does not, or its search leaves the entries it should look at. -/
inductive Outlook where
  | meets
  | breaks
  | strays
deriving DecidableEq

namespace Volume

/-- The sectors of a directory that the code looks into: the first one, and
the second one of the root when a cluster is one sector. -/
def reach (v : Volume) : DirLoc → List Nat
  | .root =>
      ((v.sectors .root).take (if v.fat.spc = 1 then 2 else 1)).takeWhile fun s => s < 0xFFF8
  | .cluster c => (v.sectors (.cluster c)).take 1

/-- `data_start + c - 2` is where the cluster begins. -/
def addressed (v : Volume) : DirLoc → Bool
  | .root => true
  | .cluster c => v.fat.spc = 1 ∨ c = 2

/-- The sector that the code takes for the first one of a cluster. -/
def codeSector (v : Volume) (c : Nat) : UInt32 := v.fat.dataStart + UInt32.ofNat c - 2

/-- The outlook for the names that are left in a directory. A name that the
tree holds may be that of a read-only entry, which the code does not see. -/
def outlook (v : Volume) (stack : PathStack) (slash : Bool) : DirLoc → List Name83 → Outlook
  | _, [] => if slash then .breaks else .meets
  | d, n :: names =>
      if v.reach d = [] then .strays
      else if 10 < n.text.length then .breaks
      else if fatToSfn (stack.string n.text) ≠ n.entryName ∨ ¬ v.addressed d then .strays
      else
        match v.lookIn (DirEntry.isNamed n) (v.reach d) with
        | none => if v.endsIn (v.reach d) then .meets else .strays
        | some e =>
            if e.fdir.attr &&& 1 ≠ 0 then
              if v.lookIn (DirEntry.isSeen n) (v.reach d) = none ∧ v.endsIn (v.reach d) then
                if walk v.find enter d (n :: names) = none then .meets else .breaks
              else .strays
            else if treeType e.fdir = .file then if names = [] then .meets else .breaks
            else if v.codeSector e.fdir.cluster ≥ fatClusterInvalid then .breaks
            else v.outlook stack slash (.cluster e.fdir.cluster) names

/-- The call answers as the tree says. -/
def Answers (found : Option DirEntry) : PathEnd → Prop
  | .returned type sector offset _ =>
      match found with
      | some e => type = treeType e.fdir ∧ sector = e.sector ∧ offset = e.index
      | none => type = .unknown ∧ sector = fatClusterInvalid.toNat
  | .fault _ => False

def read (v : Volume) (s : UInt32) : Option Bytes := some (v.disk s)

/-- The search comes to what the tree says. -/
def Meets (v : Volume) (stack : PathStack) (path : Chars) (found : Option DirEntry)
    (s : Search) : Prop := ∃ r, Ends (Search.round v.read stack path) s r ∧ Answers found r

section Rounds

variable {v : Volume} {stack : PathStack} {path : Chars} {found : Option DirEntry} {s s' : Search}
  {r : PathEnd}

theorem meets_leave (h : s.round v.read stack path = .leave r) :
    v.Meets stack path found s ↔ Answers found r := by
  constructor
  · rintro ⟨r', hr', ha⟩
    rwa [(ends_leave_iff h).mp hr'] at ha
  · exact fun ha => ⟨r, Ends.of_leave h, ha⟩

theorem meets_again (h : s.round v.read stack path = .again s') :
    v.Meets stack path found s ↔ v.Meets stack path found s' := by
  simp only [Meets, ends_again_iff h]

end Rounds

/-! ### The sectors that the code reads -/

section Reach

variable {v : Volume} {stack : PathStack} {n : Name83} {c : Nat}

/-- `dirs` after a sector has been read: its entries, and what was there. -/
theorem stack_read (bytes : Bytes) {k : Nat} (hk : 0 < k) :
    stack.read bytes (16 * k)
      = (List.range' 0 16).map (fun j => dirAt bytes (32 * j))
        ++ (List.range' 16 (16 * k - 16)).map stack.dirs := by
  have hsplit : List.range (16 * k) = List.range' 0 16 ++ List.range' 16 (16 * k - 16) := by
    have happ : List.range' 0 16 ++ List.range' 16 (16 * k - 16)
        = List.range' 0 (16 + (16 * k - 16)) := List.range'_append_1
    have hlen : 16 + (16 * k - 16) = 16 * k := by omega
    rw [happ, hlen, List.range_eq_range']
  have hfirst : ∀ j ∈ List.range' 0 16,
      (if j < 16 then dirAt bytes (32 * j) else stack.dirs j) = dirAt bytes (32 * j) := by
    intro j hj
    have := List.mem_range'_1.mp hj
    exact if_pos (by omega)
  have hrest : ∀ j ∈ List.range' 16 (16 * k - 16),
      (if j < 16 then dirAt bytes (32 * j) else stack.dirs j) = stack.dirs j := by
    intro j hj
    have := List.mem_range'_1.mp hj
    exact if_neg (by omega)
  rw [PathStack.read, hsplit, List.map_append, List.map_congr_left hfirst,
    List.map_congr_left hrest]

theorem scan_sector (hname : fatToSfn (stack.string n.text) = n.entryName) (s : Nat) :
    scanDirs (stack.string n.text) 0 (stack.read (v.disk (UInt32.ofNat s)) v.fat.dcount)
      = match v.lookIn (DirEntry.isSeen n) [s] with
        | some e => scanFound e
        | none =>
            if v.endsIn [s] then .foundEnd
            else scanDirs (stack.string n.text) 16
              ((List.range' 16 (16 * v.fat.spc.toNat - 16)).map stack.dirs) := by
  have hes : v.entriesIn s
      = (List.range' 0 16).map fun j => ⟨s, j, dirAt (v.disk (UInt32.ofNat s)) (32 * j)⟩ := by
    rw [entriesIn, List.range_eq_range']
  rw [v.dcount_eq, stack_read _ v.spc_ne_zero,
    scanDirs_placed hname (fun j => dirAt (v.disk (UInt32.ofNat s)) (32 * j)) 16 hes]
  simp only [lookIn, endsIn, List.flatMap_singleton, Nat.zero_add]

/-- A cluster that the code addresses rightly. -/
theorem reach_cluster (haddr : v.addressed (.cluster c)) :
    v.reach (.cluster c) = []
    ∨ ∃ s, v.reach (.cluster c) = [s] ∧ v.codeSector c = UInt32.ofNat s ∧ s < 2 ^ 32 := by
  have hdata := v.dataStart_lt
  have hspc := v.spc_ne_zero
  have hchain : v.chain 0x10000 c
      = if 2 ≤ c ∧ c < 0xFFF8 then c :: v.chain 0xFFFF (v.fatEntry c) else [] := rfl
  rw [reach, sectors, hchain]
  by_cases hc : 2 ≤ c ∧ c < 0xFFF8
  · right
    obtain ⟨k, hk⟩ : ∃ k, v.fat.spc.toNat = k + 1 := ⟨v.fat.spc.toNat - 1, by omega⟩
    have hfirst : (c - 2) * v.fat.spc.toNat = c - 2 := by
      rcases of_decide_eq_true haddr with h | h
      · rw [h]
        exact Nat.mul_one _
      · rw [h, Nat.sub_self, Nat.zero_mul]
    refine ⟨v.fat.dataStart.toNat + (c - 2), ?_, ?_, by omega⟩
    · rw [if_pos hc, List.flatMap_cons, clusterSectors, hfirst, hk, List.range'_succ,
        List.cons_append, List.take_succ_cons, List.take_zero]
    · have htwo : (2 : UInt32).toNat = 2 := rfl
      rw [codeSector, ← UInt32.toNat_inj, UInt32.toNat_sub, UInt32.toNat_add, UInt32.toNat_ofNat',
        UInt32.toNat_ofNat', htwo]
      omega
  · left
    rw [if_neg hc]
    rfl

end Reach

/-! ### One component -/

/-- The search is at a name, about to read a sector. -/
structure At (v : Volume) (s : Search) (sec : Nat) (suffix : Chars) : Prop where
  sc : s.sc = UInt32.ofNat sec
  valid : s.sc < fatClusterInvalid
  size : sec < 2 ^ 32
  suffix : s.suffix = suffix
  fat : s.fat = v.fat

section Component

variable {v : Volume} {stack : PathStack} {path rest : Chars} {n : Name83} {sec : Nat} {s : Search}

theorem At.toNat (h : At v s sec rest) : s.sc.toNat = sec := by
  rw [h.sc, UInt32.toNat_ofNat', Nat.mod_eq_of_lt h.size]

theorem round_scanned (stack : PathStack) (path : Chars)
    (h : At v s sec (0x2F :: (n.text ++ rest))) (hrest : nameEnds rest)
    (hlen : n.text.length ≤ 10) :
    s.round v.read stack path = s.scanned v.read path rest
      (scanDirs (stack.string n.text) 0
        (stack.read (v.disk (UInt32.ofNat sec)) v.fat.dcount)) := by
  have hcopy := copyName_of_fits [] n.text_ne_nil n.slash_notMem_text hrest
    (by rw [List.length_nil]; omega)
  rw [List.nil_append] at hcopy
  rw [Search.round, if_pos h.valid, h.suffix]
  dsimp only
  rw [hcopy, h.fat, h.sc]
  rfl

theorem round_long (h : At v s sec (0x2F :: (n.text ++ rest))) (hlen : 10 < n.text.length) :
    s.round v.read stack path = .leave (.fault .storePastBuf) := by
  have hcopy := copyName_of_long rest [] n.slash_notMem_text (Nat.zero_le 10)
    (by rw [List.length_nil]; omega)
  rw [Search.round, if_pos h.valid, h.suffix]
  dsimp only
  rw [hcopy]

theorem round_slash (h : At v s sec [0x2F]) :
    s.round v.read stack path = .leave (.fault .readPastPath) := by
  rw [Search.round, if_pos h.valid, h.suffix]
  rfl

theorem round_nul (h : At v s sec []) :
    s.round v.read stack path = .leave (.returned .dir s.sector s.offset s.fat) := by
  rw [Search.round, if_pos h.valid, h.suffix, Search.finish, if_neg (UInt32.not_le.mpr h.valid)]

/-- Behind the last cluster number the loop is left without a result. -/
theorem round_invalid (h : s.sc ≥ fatClusterInvalid) :
    s.round v.read stack path = .leave (.returned .unknown s.sector s.offset s.fat) := by
  rw [Search.round, if_neg (UInt32.not_lt.mpr h), Search.finish, if_pos h]

end Component

/-- The outlook behind an entry that is found. -/
def outlookBehind (v : Volume) (stack : PathStack) (slash : Bool) (e : DirEntry)
    (names : List Name83) : Outlook :=
  if treeType e.fdir = .file then if names = [] then .meets else .breaks
  else if v.codeSector e.fdir.cluster ≥ fatClusterInvalid then .breaks
  else v.outlook stack slash (.cluster e.fdir.cluster) names

/-- The entry that names lead to from the directory of an entry. -/
def below (v : Volume) (e : DirEntry) (names : List Name83) : Option DirEntry :=
  if names = [] then some e else walk v.find enter (.cluster e.fdir.cluster) names

/-- The search does as the outlook says. -/
def Borne (v : Volume) (stack : PathStack) (path : Chars) (o : Outlook)
    (found : Option DirEntry) (s : Search) : Prop :=
  (o = .meets → v.Meets stack path found s) ∧ (o = .breaks → ¬ v.Meets stack path found s)

/-- The search has found the directory `e` and goes on in it. -/
structure Inside (v : Volume) (s : Search) (e : DirEntry) (suffix : Chars) : Prop where
  sc : s.sc = v.codeSector e.fdir.cluster
  valid : s.sc < fatClusterInvalid
  sector : s.sector = e.sector
  offset : s.offset = e.index
  suffix : s.suffix = suffix
  fat : s.fat = v.fat

section Laws

variable {v : Volume} {stack : PathStack} {slash : Bool} {path : Chars} {n : Name83}
  {names : List Name83} {sec : Nat} {s : Search} {e : DirEntry} {d : DirLoc}
  {found : Option DirEntry}

theorem borne_meets (h : v.Meets stack path found s) : v.Borne stack path .meets found s :=
  ⟨fun _ => h, nofun⟩

theorem borne_breaks (h : ¬ v.Meets stack path found s) : v.Borne stack path .breaks found s :=
  ⟨nofun, fun _ => h⟩

theorem borne_strays : v.Borne stack path .strays found s := ⟨nofun, nofun⟩

theorem borne_again {o : Outlook} {s' : Search} (h : s.round v.read stack path = .again s') :
    v.Borne stack path o found s ↔ v.Borne stack path o found s' := by
  rw [Borne, Borne, meets_again h]

/-- What a walk finds has a type. -/
theorem treeType_of_walk (h : walk v.find enter d names = some e) :
    treeType e.fdir ≠ .unknown := by
  obtain ⟨d', n, hfind⟩ := exists_find_of_walk h
  exact (of_decide_eq_true (lookIn_some hfind).2).2.2

/-- A search that ends without a type answers no path. -/
theorem not_answers_unknown {sector offset : Int} {fat : FsFat}
    (hfound : ∀ e, found = some e → treeType e.fdir ≠ .unknown)
    (hsector : sector ≠ fatClusterInvalid.toNat) :
    ¬ Answers found (.returned .unknown sector offset fat) := by
  intro h
  cases found with
  | none => exact hsector h.2
  | some e => exact hfound e rfl h.1.symm

theorem below_cons (hfind : v.find d n = some e) (htype : treeType e.fdir = .dir) :
    walk v.find enter d (n :: names) = v.below e names := by
  by_cases hnames : names = []
  · rw [below, if_pos hnames, hnames, walk_single, hfind]
  · have henter : enter e = some (.cluster e.fdir.cluster) := if_pos htype
    rw [below, if_neg hnames, walk_of_enter hfind henter hnames]

/-- A name that is found: the search does as it does behind the entry. -/
theorem borne_found (hat : At v s sec (pathText slash (n :: names)))
    (hlen : n.text.length ≤ 10) (hname : fatToSfn (stack.string n.text) = n.entryName)
    (hlook : v.lookIn (DirEntry.isSeen n) [sec] = some e) (hfind : v.find d n = some e)
    (ih : ∀ s', treeType e.fdir = .dir → Inside v s' e (pathText slash names) →
      v.Borne stack path (v.outlook stack slash (.cluster e.fdir.cluster) names)
        (v.below e names) s') :
    v.Borne stack path (v.outlookBehind stack slash e names) (walk v.find enter d (n :: names))
      s := by
  have hsec : e.sector = sec := List.mem_singleton.mp (lookIn_some hlook).1
  have hne : treeType e.fdir ≠ .unknown := (of_decide_eq_true (lookIn_some hfind).2).2.2
  have hround := round_scanned stack path hat
    (nameEnds_pathText slash names) hlen
  rw [scan_sector hname sec, hlook] at hround
  dsimp only [scanFound] at hround
  rw [outlookBehind]
  by_cases hfile : treeType e.fdir = .file
  · -- a file ends the search, wherever it stands in the path
    rw [hfile] at hround
    rw [if_pos hfile]
    have hmeets : v.Meets stack path (walk v.find enter d (n :: names)) s ↔ _ :=
      meets_leave hround
    by_cases hnames : names = []
    · rw [if_pos hnames]
      refine borne_meets (hmeets.mpr ?_)
      rw [hnames, walk_single, hfind]
      exact ⟨hfile.symm, by rw [hat.toNat, hsec], rfl⟩
    · rw [if_neg hnames]
      refine borne_breaks fun h => ?_
      have henter : enter e = none := if_neg (by rw [hfile]; decide)
      have hnone := walk_of_enter_none hfind henter hnames
      rw [hmeets, hnone] at h
      exact absurd h.1 (by decide)
  · have htype : treeType e.fdir = .dir := by
      unfold treeType at hne hfile ⊢
      split_ifs at hne hfile ⊢
      all_goals first | rfl | exact absurd rfl hne | exact absurd rfl hfile
    rw [htype] at hround
    rw [if_neg hfile, borne_again hround, below_cons hfind htype]
    by_cases hsc : v.codeSector e.fdir.cluster ≥ fatClusterInvalid
    · rw [if_pos hsc]
      refine borne_breaks fun h => ?_
      rw [codeSector, ← hat.fat] at hsc
      rw [meets_leave (round_invalid hsc)] at h
      refine not_answers_unknown ?_ ?_ h
      · intro e' he'
        rw [below] at he'
        split at he'
        · obtain rfl := Option.some.inj he'
          exact hne
        · exact treeType_of_walk he'
      · have hlt := UInt32.lt_iff_toNat_lt.mp hat.valid
        intro heq
        have := Int.ofNat.inj heq
        omega
    · rw [if_neg hsc]
      exact ih _ htype {
        sc := by rw [codeSector, ← hat.fat]
        valid := by
          rw [hat.fat]
          exact UInt32.not_le.mp hsc
        sector := by rw [hat.toNat, hsec]
        offset := rfl
        suffix := rfl
        fat := hat.fat }

/-- A name that is not seen before the end of the directory. -/
theorem meets_missing (hat : At v s sec (pathText slash (n :: names)))
    (hlen : n.text.length ≤ 10) (hname : fatToSfn (stack.string n.text) = n.entryName)
    (hlook : v.lookIn (DirEntry.isSeen n) [sec] = none) (hend : v.endsIn [sec]) :
    v.Meets stack path (walk v.find enter d (n :: names)) s
      ↔ walk v.find enter d (n :: names) = none := by
  have hround := round_scanned stack path hat
    (nameEnds_pathText slash names) hlen
  rw [scan_sector hname sec, hlook] at hround
  dsimp only at hround
  rw [if_pos hend] at hround
  rw [meets_leave hround]
  cases hwalk : walk v.find enter d (n :: names) with
  | none => exact ⟨fun _ => rfl, fun _ => ⟨rfl, rfl⟩⟩
  | some e => exact ⟨fun h => absurd h.1.symm (treeType_of_walk hwalk), fun h => (by cases h)⟩

theorem outlook_cons : v.outlook stack slash d (n :: names)
    = if v.reach d = [] then .strays
      else if 10 < n.text.length then .breaks
      else if fatToSfn (stack.string n.text) ≠ n.entryName ∨ ¬ v.addressed d then .strays
      else
        match v.lookIn (DirEntry.isNamed n) (v.reach d) with
        | none => if v.endsIn (v.reach d) then .meets else .strays
        | some e =>
            if e.fdir.attr &&& 1 ≠ 0 then
              if v.lookIn (DirEntry.isSeen n) (v.reach d) = none ∧ v.endsIn (v.reach d) then
                if walk v.find enter d (n :: names) = none then .meets else .breaks
              else .strays
            else v.outlookBehind stack slash e names := rfl

/-- A name too long for `buf`. -/
theorem borne_long (hat : At v s sec (pathText slash (n :: names))) (hlen : 10 < n.text.length) :
    v.Borne stack path .breaks found s :=
  borne_breaks fun h => (meets_leave (round_long hat hlen)).mp h

/-- The search for a name does in the sectors `ss` as it does in one. -/
structure Searches (v : Volume) (stack : PathStack) (slash : Bool) (path : Chars) (d : DirLoc)
    (n : Name83) (names : List Name83) (ss : List Nat) (s : Search) : Prop where
  found : ∀ e, v.lookIn (DirEntry.isSeen n) ss = some e → v.find d n = some e →
    v.Borne stack path (v.outlookBehind stack slash e names) (walk v.find enter d (n :: names)) s
  missing : v.lookIn (DirEntry.isSeen n) ss = none → v.endsIn ss →
    (v.Meets stack path (walk v.find enter d (n :: names)) s
      ↔ walk v.find enter d (n :: names) = none)

theorem isNamed_of_isSeen : ∀ e : DirEntry, e.isSeen n → e.isNamed n :=
  fun _ h => (of_decide_eq_true h).1

/-- The search for a name goes as its outlook. -/
theorem borne_name {rest : List Nat} (hat : At v s sec (pathText slash (n :: names)))
    (hreach : v.reach d ≠ []) (hsectors : v.sectors d = v.reach d ++ rest)
    (h : n.text.length ≤ 10 → fatToSfn (stack.string n.text) = n.entryName → v.addressed d →
      Searches v stack slash path d n names (v.reach d) s) :
    v.Borne stack path (v.outlook stack slash d (n :: names)) (walk v.find enter d (n :: names))
      s := by
  rw [outlook_cons, if_neg hreach]
  by_cases hlen : 10 < n.text.length
  · rw [if_pos hlen]
    exact borne_long hat hlen
  rw [if_neg hlen]
  by_cases hok : fatToSfn (stack.string n.text) ≠ n.entryName ∨ ¬ v.addressed d
  · rw [if_pos hok]
    exact borne_strays
  rw [if_neg hok]
  obtain ⟨hname, haddr⟩ := not_or.mp hok
  have hsearch := h (Nat.le_of_not_lt hlen) (not_not.mp hname) (not_not.mp haddr)
  cases hlook : v.lookIn (DirEntry.isNamed n) (v.reach d) with
  | none =>
      dsimp only
      by_cases hend : v.endsIn (v.reach d)
      · have hfind : v.find d n = none := by
          rw [find, hsectors, lookIn_append_none hlook, if_pos hend]
        have hseen := lookIn_narrow_none isNamed_of_isSeen hlook
        rw [if_pos hend]
        exact borne_meets ((hsearch.missing hseen hend).mpr (walk_of_find_none hfind))
      · rw [if_neg hend]
        exact borne_strays
  | some e =>
      have hfind : v.find d n = some e := by
        rw [find, hsectors, lookIn_append_some hlook]
      dsimp only
      by_cases hro : e.fdir.attr &&& 1 = 0
      · rw [if_neg (not_not.mpr hro)]
        have hseen : e.isSeen n := decide_eq_true ⟨(lookIn_some hlook).2, hro⟩
        exact hsearch.found e (lookIn_narrow_some isNamed_of_isSeen hlook hseen) hfind
      · rw [if_pos hro]
        by_cases hblind : v.lookIn (DirEntry.isSeen n) (v.reach d) = none ∧ v.endsIn (v.reach d)
        · -- the code takes the read-only entry for missing
          have hmeets := hsearch.missing hblind.1 hblind.2
          rw [if_pos hblind]
          by_cases hwalk : walk v.find enter d (n :: names) = none
          · rw [if_pos hwalk]
            exact borne_meets (hmeets.mpr hwalk)
          · rw [if_neg hwalk]
            exact borne_breaks fun hm => hwalk (hmeets.mp hm)
        · rw [if_neg hblind]
          exact borne_strays

/-- The search for a name in one sector. -/
theorem searches_sector (hat : At v s sec (pathText slash (n :: names)))
    (hlen : n.text.length ≤ 10) (hname : fatToSfn (stack.string n.text) = n.entryName)
    (ih : ∀ e s', treeType e.fdir = .dir → Inside v s' e (pathText slash names) →
      v.Borne stack path (v.outlook stack slash (.cluster e.fdir.cluster) names)
        (v.below e names) s') :
    Searches v stack slash path d n names [sec] s where
  found := fun e hlook hfind => borne_found hat hlen hname hlook hfind (ih e)
  missing := fun hlook hend => meets_missing hat hlen hname hlook hend

/-- The search in a directory below the root, by induction on the names that
are left. -/
theorem borne_inside (htype : treeType e.fdir = .dir)
    (hin : Inside v s e (pathText slash names)) :
    v.Borne stack path (v.outlook stack slash (.cluster e.fdir.cluster) names)
      (v.below e names) s := by
  induction names generalizing s e with
  | nil =>
      have hat : ∀ suffix, s.suffix = suffix → At v s s.sc.toNat suffix := fun suffix h =>
        ⟨UInt32.ofNat_toNat.symm, hin.valid, s.sc.toNat_lt, h, hin.fat⟩
      cases slash with
      | true =>
          exact borne_breaks fun h => (meets_leave (round_slash (hat _ hin.suffix))).mp h
      | false =>
          refine borne_meets ((meets_leave (round_nul (hat _ hin.suffix))).mpr ?_)
          exact ⟨htype.symm, hin.sector, hin.offset⟩
  | cons n names ih =>
      have hbelow : v.below e (n :: names)
          = walk v.find enter (.cluster e.fdir.cluster) (n :: names) :=
        if_neg (List.cons_ne_nil _ _)
      have hat : ∀ sec, s.sc = UInt32.ofNat sec → sec < 2 ^ 32 →
          At v s sec (pathText slash (n :: names)) := fun sec h hlt =>
        ⟨h, hin.valid, hlt, hin.suffix, hin.fat⟩
      rw [hbelow]
      by_cases hnil : v.reach (.cluster e.fdir.cluster) = []
      · rw [outlook_cons, if_pos hnil]
        exact borne_strays
      refine borne_name (hat _ UInt32.ofNat_toNat.symm s.sc.toNat_lt) hnil
        (List.take_append_drop 1 _).symm fun hlen hname haddr => ?_
      obtain ⟨sec, hreach, hsec, hlt⟩ := (reach_cluster haddr).resolve_left hnil
      rw [hreach]
      exact searches_sector (hat sec (by rw [hin.sc, hsec]) hlt) hlen hname
        fun e' s' htype' hin' => ih htype' hin'

/-- The sectors of the root that the code looks into. -/
theorem reach_root : v.reach .root = []
    ∨ v.reach .root = [v.fat.rootStart.toNat] ∧ v.fat.rootStart < fatClusterInvalid
    ∨ v.reach .root = [v.fat.rootStart.toNat, v.fat.rootStart.toNat + 1] ∧ v.fat.spc = 1
      ∧ v.fat.rootStart.toNat + 1 < 0xFFF8 := by
  rw [reach, sectors]
  have hinvalid : fatClusterInvalid.toNat = 0xFFF8 := rfl
  generalize v.fat.rootTotal.toNat / 16 = total
  cases total with
  | zero => exact Or.inl (by split <;> rfl)
  | succ total =>
      by_cases hlt : v.fat.rootStart.toNat < 0xFFF8
      · have hroot : v.fat.rootStart < fatClusterInvalid :=
          UInt32.lt_iff_toNat_lt.mpr (by rwa [hinvalid])
        by_cases hspc : v.fat.spc = 1
        · rw [if_pos hspc, List.range'_succ, List.take_succ_cons, List.takeWhile_cons,
            decide_eq_true hlt, if_pos rfl]
          cases total with
          | zero => exact Or.inr (Or.inl ⟨rfl, hroot⟩)
          | succ total =>
              rw [List.range'_succ, List.take_succ_cons, List.take_zero, List.takeWhile_cons]
              by_cases hlt' : v.fat.rootStart.toNat + 1 < 0xFFF8
              · rw [decide_eq_true hlt', if_pos rfl]
                exact Or.inr (Or.inr ⟨rfl, hspc, hlt'⟩)
              · rw [decide_eq_false hlt', if_neg Bool.false_ne_true]
                exact Or.inr (Or.inl ⟨rfl, hroot⟩)
        · rw [if_neg hspc, List.range'_succ, List.take_succ_cons, List.take_zero,
            List.takeWhile_cons, decide_eq_true hlt, if_pos rfl]
          exact Or.inr (Or.inl ⟨rfl, hroot⟩)
      · left
        rw [List.range'_succ]
        split
        all_goals rw [List.take_succ_cons, List.takeWhile_cons, decide_eq_false hlt]; rfl

/-- Behind the first sector of the root the search goes on in the second. -/
theorem fatNextCluster_root (hlt : v.fat.rootStart.toNat + 1 < 0xFFF8) :
    ∃ nc, fatNextCluster v.read v.fat v.fat.rootStart.toUInt16 = (v.fat, nc)
      ∧ nc.toUInt32 = UInt32.ofNat (v.fat.rootStart.toNat + 1) := by
  have hle := v.two_le_rootStart
  have hcast : v.fat.rootStart.toUInt16.toNat = v.fat.rootStart.toNat := by
    rw [UInt32.toNat_toUInt16]
    omega
  have hroot : v.fat.rootStart.toUInt16.toUInt32 = v.fat.rootStart := by
    rw [← UInt32.toNat_inj, UInt16.toNat_toUInt32, hcast]
  have hinvalid : fatClusterInvalid.toNat = 0xFFF8 := rfl
  have htwo : (2 : UInt16).toNat = 2 := rfl
  have hverify : fatVerifyCluster v.fat.rootStart.toUInt16 = true := by
    rw [fatVerifyCluster, hroot, Bool.and_eq_true, decide_eq_true_iff, decide_eq_true_iff,
      UInt32.lt_iff_toNat_lt, UInt16.le_iff_toNat_le, hcast, hinvalid, htwo]
    omega
  refine ⟨v.fat.rootStart.toUInt16 + 1, ?_, ?_⟩
  · rw [fatNextCluster, if_neg (not_not.mpr hverify), if_pos hroot]
  · have hone : (1 : UInt16).toNat = 1 := rfl
    rw [← UInt32.toNat_inj, UInt16.toNat_toUInt32, UInt16.toNat_add, hcast, hone,
      UInt32.toNat_ofNat']
    omega

/-- The search for a name in two sectors of the root: when the first one is
full, the path is read again from its beginning. -/
theorem searches_root (hpath : path = pathText slash (n :: names))
    (hat : At v s v.fat.rootStart.toNat path) (hspc : v.fat.spc = 1)
    (hlt : v.fat.rootStart.toNat + 1 < 0xFFF8) (hlen : n.text.length ≤ 10)
    (hname : fatToSfn (stack.string n.text) = n.entryName) :
    Searches v stack slash path d n names
      ([v.fat.rootStart.toNat] ++ [v.fat.rootStart.toNat + 1]) s := by
  subst hpath
  have ih : ∀ e s', treeType e.fdir = .dir → Inside v s' e (pathText slash names) →
      v.Borne stack (pathText slash (n :: names))
        (v.outlook stack slash (.cluster e.fdir.cluster) names) (v.below e names) s' :=
    fun e s' => borne_inside
  have hfirst : Searches v stack slash (pathText slash (n :: names)) d n names
      [v.fat.rootStart.toNat] s :=
    searches_sector hat hlen hname ih
  by_cases hfull : v.lookIn (DirEntry.isSeen n) [v.fat.rootStart.toNat] = none
      ∧ ¬ v.endsIn [v.fat.rootStart.toNat]
  · obtain ⟨hlook, hend⟩ := hfull
    obtain ⟨nc, hnext, hnc⟩ := fatNextCluster_root (v := v) hlt
    have hround := round_scanned stack (pathText slash (n :: names)) hat
      (nameEnds_pathText slash names) hlen
    have hroot : s.sc = v.fat.rootStart := by rw [hat.sc, UInt32.ofNat_toNat]
    have hone : (1 : UInt32).toNat = 1 := rfl
    rw [scan_sector hname, hlook] at hround
    dsimp only at hround
    rw [if_neg hend, hspc, hone] at hround
    dsimp only [scanDirs, List.range', List.map_nil, Search.scanned] at hround
    rw [hat.fat, hroot, hnext] at hround
    have hat' : At v
        { s with suffix := pathText slash (n :: names), sc := nc.toUInt32, fat := v.fat }
        (v.fat.rootStart.toNat + 1) (pathText slash (n :: names)) := by
      refine ⟨hnc, ?_, by omega, rfl, rfl⟩
      dsimp only
      rw [hnc, UInt32.lt_iff_toNat_lt, UInt32.toNat_ofNat', Nat.mod_eq_of_lt (by omega)]
      exact hlt
    have hsecond := searches_sector (d := d) hat' hlen hname ih
    constructor
    · intro e hpair hfind
      rw [lookIn_append_none hlook, if_neg hend] at hpair
      exact (borne_again hround).mpr (hsecond.found e hpair hfind)
    · intro hpair hend'
      rw [lookIn_append_none hlook, if_neg hend] at hpair
      rw [endsIn_append, Bool.eq_false_iff.mpr hend, Bool.false_or] at hend'
      rw [meets_again hround]
      exact hsecond.missing hpair hend'
  · constructor
    · intro e hpair hfind
      cases hlook : v.lookIn (DirEntry.isSeen n) [v.fat.rootStart.toNat] with
      | some e' =>
          rw [lookIn_append_some hlook] at hpair
          exact hfirst.found e (hlook.trans hpair) hfind
      | none =>
          have hend : v.endsIn [v.fat.rootStart.toNat] := by
            by_contra hend
            exact hfull ⟨hlook, hend⟩
          rw [lookIn_append_none hlook, if_pos hend] at hpair
          cases hpair
    · intro hpair _
      cases hlook : v.lookIn (DirEntry.isSeen n) [v.fat.rootStart.toNat] with
      | some e' =>
          rw [lookIn_append_some hlook] at hpair
          cases hpair
      | none =>
          have hend : v.endsIn [v.fat.rootStart.toNat] := by
            by_contra hend
            exact hfull ⟨hlook, hend⟩
          exact hfirst.missing hlook hend

/-- The search in the root, where the loop begins. -/
theorem borne_root (hpath : path = pathText slash (n :: names)) (hsc : s.sc = v.fat.rootStart)
    (hsuffix : s.suffix = path) (hfat : s.fat = v.fat) :
    v.Borne stack path (v.outlook stack slash .root (n :: names)) (v.resolve (n :: names)) s := by
  have hsize := v.rootStart_lt
  have hprefix : v.reach .root <+: v.sectors .root :=
    (List.takeWhile_prefix _).trans (List.take_prefix _ _)
  obtain ⟨rest, hsectors⟩ := hprefix
  by_cases hnil : v.reach .root = []
  · rw [outlook_cons, if_pos hnil]
    exact borne_strays
  have hvalid : v.fat.rootStart < fatClusterInvalid := by
    rcases (reach_root (v := v)).resolve_left hnil with ⟨-, hlt⟩ | ⟨-, -, hlt⟩
    · exact hlt
    · exact UInt32.lt_iff_toNat_lt.mpr (Nat.lt_of_succ_lt hlt)
  have hat : At v s v.fat.rootStart.toNat path :=
    ⟨by rw [hsc, UInt32.ofNat_toNat], by rwa [hsc], by omega, hsuffix, hfat⟩
  refine borne_name (hpath ▸ hat) hnil hsectors.symm fun hlen hname _ => ?_
  rcases (reach_root (v := v)).resolve_left hnil with ⟨hreach, -⟩ | ⟨hreach, hspc, hlt⟩
  · rw [hreach]
    exact searches_sector (hpath ▸ hat) hlen hname fun e s' => borne_inside
  · rw [hreach]
    exact searches_root hpath hat hspc hlt hlen hname

end Laws

/-! ## The law -/

/-- The outlook for a path; `/` is answered without a search. -/
def pathOutlook (v : Volume) (stack : PathStack) (p : AbsPath) : Outlook :=
  if p.names = [] then .meets else v.outlook stack p.slash .root p.names

/-- `read_fat_path_cluster` comes back, with the type and the place of the
entry that the path names, or with `FAT_CLUSTER_INVALID` when there is none.
The root has no entry: `/` is a directory at 0, 0. -/
def Resolves (v : Volume) (stack : PathStack) (sector offset : Int) (p : AbsPath) : Prop :=
  ∃ rounds r, readFatPathCluster v.read stack v.fat p.text sector offset rounds = some r
    ∧ if p.names = [] then ∃ fat, r = .returned .dir 0 0 fat else Answers (v.resolve p.names) r

theorem kernelStrcmp_slash {n : Name83} {rest : Chars} :
    kernelStrcmp (0x2F :: (n.text ++ rest)) [0x2F] ≠ 0 := by
  cases htext : n.text with
  | nil => exact absurd htext n.text_ne_nil
  | cons c text => exact Nat.one_ne_zero

theorem resolves_root {v : Volume} {stack : PathStack} {sector offset : Int} {p : AbsPath}
    (h : p.names = []) : v.Resolves stack sector offset p := by
  refine ⟨0, .returned .dir 0 0 v.fat, ?_, ?_⟩
  · rw [AbsPath.text, h, p.ne_nil h]
    rfl
  · rw [if_pos h]
    exact ⟨v.fat, rfl⟩

/-- Any other path is searched from the root. -/
theorem resolves_iff_meets {v : Volume} {stack : PathStack} {sector offset : Int} {p : AbsPath}
    (h : p.names ≠ []) :
    v.Resolves stack sector offset p
      ↔ v.Meets stack p.text (v.resolve p.names)
          { suffix := p.text, sc := v.fat.rootStart, sector, offset, fat := v.fat } := by
  obtain ⟨n, names, hnames⟩ := List.exists_cons_of_ne_nil h
  have hcmp : kernelStrcmp p.text [0x2F] ≠ 0 := by
    rw [AbsPath.text, hnames]
    exact kernelStrcmp_slash
  simp only [Resolves, Meets, Ends, readFatPathCluster, if_neg hcmp, if_neg h]
  rw [exists_comm]
  exact exists_congr fun r => exists_and_right

/-- The search of a path goes as its outlook. -/
theorem borne_path {v : Volume} {stack : PathStack} {sector offset : Int} {p : AbsPath}
    (h : p.names ≠ []) :
    v.Borne stack p.text (v.pathOutlook stack p) (v.resolve p.names)
      { suffix := p.text, sc := v.fat.rootStart, sector, offset, fat := v.fat } := by
  obtain ⟨n, names, hnames⟩ := List.exists_cons_of_ne_nil h
  rw [pathOutlook, if_neg h, hnames]
  refine borne_root ?_ rfl rfl rfl
  rw [AbsPath.text, hnames]

/-- A path that meets its outlook is resolved as the tree says, and one that
breaks on the way is not. -/
theorem resolve_law (v : Volume) (stack : PathStack) (sector offset : Int) (p : AbsPath) :
    (v.pathOutlook stack p = .meets → v.Resolves stack sector offset p)
    ∧ (v.pathOutlook stack p = .breaks → ¬ v.Resolves stack sector offset p) := by
  by_cases h : p.names = []
  · rw [pathOutlook, if_pos h]
    exact ⟨fun _ => resolves_root h, nofun⟩
  · rw [resolves_iff_meets h]
    exact borne_path h

end Volume

/-! ### A small volume -/

/-- The bytes of an entry. -/
def entryBytes (c : BitVec 8) (rest : Chars) (attr cluster : BitVec 8) : Chars :=
  c :: rest ++ List.replicate (10 - rest.length) 0x20 ++ attr :: List.replicate 14 0
    ++ cluster :: List.replicate 5 0

/-- `FAT16`, filled up with blanks. -/
def fat16Name : Vector (BitVec 8) 8 := #v[0x46, 0x41, 0x54, 0x31, 0x36, 0x20, 0x20, 0x20]

/-- A volume with the directory `/a`, in it the directory `/a/b`, and the
file `/f`. -/
def smallVolume : Volume where
  br := {
    bytesPerSector := 512, sectorsPerCluster := 1, reservedSectors := 1, nocFats := 2
    maxRde := 16, sectorsPerFat := 1
    fatName := fat16Name }
  fat := {
    fatStart := 1, fatTotal := 2, fatSectors := 1, rootStart := 3, rootTotal := 16
    dataStart := 4, bps := 512, spc := 1, buf := fun _ => 0, pcs := -1 }
  disk := fun s i =>
    if s = 1 ∨ s = 2 then if i < 8 then 0xFF else 0
    else if s = 3 then (entryBytes 0x41 [] 0x10 2 ++ entryBytes 0x46 [] 0x20 0).getD i 0
    else if s = 4 then
      (entryBytes 0x2E [] 0x10 2 ++ entryBytes 0x2E [0x2E] 0x10 0
        ++ entryBytes 0x42 [] 0x10 3).getD i 0
    else 0
  mounted := by rfl
  sector_size := rfl
  spc_pos := by decide
  fat_pos := by decide

/-- A stack of zeros. -/
def clearStack : PathStack where
  behind := []
  dirs := fun _ => ⟨Vector.replicate 11 0, 0, 0, 0⟩

theorem noExt_chars : ∀ c ∈ ([] : Chars), IsNameChar c := fun _ hc => absurd hc List.not_mem_nil

/-- A name of one letter. -/
def letterName (c : BitVec 8) (h : IsNameChar c) : Name83 where
  base := [c]
  ext := []
  base_ne_nil := List.cons_ne_nil c []
  base_length := (by decide : 1 ≤ 8)
  ext_length := Nat.zero_le 3
  base_chars := by simpa using h
  ext_chars := noExt_chars

def nameA : Name83 := letterName 0x61 (by decide)

def nameB : Name83 := letterName 0x62 (by decide)

def nameF : Name83 := letterName 0x66 (by decide)

/-- `/a/b` is found. -/
theorem Volume.resolve_law_small :
    smallVolume.Resolves clearStack 0 0 ⟨[nameA, nameB], false, nofun⟩ :=
  (Volume.resolve_law smallVolume clearStack 0 0 _).1 (by decide +kernel)

/-- `/abcdefgh.txt`. -/
def longPath : AbsPath where
  names := [⟨[0x61, 0x62, 0x63, 0x64, 0x65, 0x66, 0x67, 0x68], [0x74, 0x78, 0x74],
    by decide, by decide, by decide, by decide, by decide⟩]
  slash := false
  ne_nil := nofun

/-- A name of twelve characters is stored past `buf`. -/
theorem Volume.resolve_law_long :
    ¬ ∀ (v : Volume) (stack : PathStack) (sector offset : Int) (p : AbsPath),
      v.Resolves stack sector offset p := by
  intro h
  have hmeets := (Volume.resolves_iff_meets (List.cons_ne_nil _ _)).mp
    (h smallVolume clearStack 0 0 longPath)
  have hbreaks : smallVolume.outlook clearStack false .root longPath.names = .breaks := by decide
  exact (Volume.borne_root rfl rfl rfl rfl).2 hbreaks hmeets

end Csos
