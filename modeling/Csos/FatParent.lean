import Csos.FatReaddir
import Csos.Lib.Find
import Mathlib.Data.List.Nodup
import Mathlib.Data.List.ProdSigma

/-!
# The entry that a change begins with (`read_fat_dir_from_parent_path`)

`fat_fs_open`, `fat_fs_mkdir` and `fat_fs_remove` begin with this function. For a
path with one name it scans the root, for a directory of the name or the end; for
any other path it takes what `read_fat_path_cluster` finds. The entry that it
returns stands in `buf`, and a number of a sector is stored in it there.
-/

namespace Csos

open Lib Lib.Bytes

/-! ## The code -/

/-- `type`: 0 is `mkdir`, 1 is `rmdir`. -/
inductive ParentType where
  | mkdir
  | rmdir
deriving DecidableEq

/-- A path up to its last slash, and what stands behind it. -/
def splitPath (path : Chars) : Chars × Chars :=
  let name := (path.reverse.takeWhile fun c => c ≠ 0x2F).reverse
  (path.take (path.length - name.length - 1), name)

/-- How the scan of a sector ends. -/
inductive SectorScan where
  | foundEnd (i : Nat)
  | hit (i : Nat)
  | more

/-- The scan of the sector in `buf` for an entry of a type and a name, with `left`
entries ahead. -/
def scanSector (type : FatType) (buf : Bytes) (name : Chars) : Nat → Nat → SectorScan
  | 0, _ => .more
  | left + 1, i =>
      let pdir := dirAt buf (32 * i)
      if nameFirst pdir.name = fdnEnd then .foundEnd i
      else if nameFirst pdir.name = fdnFree then scanSector type buf name left (i + 1)
      else if matchFatName pdir name ∧ readFatFtype pdir = type then .hit i
      else scanSector type buf name left (i + 1)

/-- `cluster_h` and `cluster_l` of the entry `i` of `buf`. -/
def storeCluster (buf : Bytes) (i : Nat) (c : UInt32) : Bytes :=
  store16 (store16 buf (32 * i + 20) (c >>> 16).toNat) (32 * i + 26) (c &&& 0xFFFF).toNat

/-- `wrt_date` and `wrt_time` of the entry `i` of `buf`. -/
def storeWritten (buf : Bytes) (i : Nat) (c : UInt32) : Bytes :=
  store16 (store16 buf (32 * i + 24) (c >>> 16).toNat) (32 * i + 22) (c &&& 0xFFFF).toNat

/-- The loop over the sectors of the root, with `left` of them ahead: the index in
`buf` of the entry that is returned. -/
def readRootDir (read : UInt32 → Option Bytes) (type : ParentType) (name : Chars) :
    Nat → FsFat → UInt32 → FsFat × Option Nat
  | 0, fat, _ => (fat, none)
  | left + 1, fat, index =>
      match fsBread read fat index with
      | (fat, false) => (fat, none)
      | (fat, true) =>
          match scanSector .dir fat.buf name (fat.bps.toNat / 32) 0 with
          | .foundEnd i =>
              match type with
              | .mkdir => ({ fat with buf := storeCluster fat.buf i index }, some i)
              | .rmdir => (fat, none)
          | .hit i =>
              match type with
              | .mkdir => (fat, none)
              | .rmdir => ({ fat with buf := storeWritten fat.buf i index }, some i)
          | .more => readRootDir read type name left fat (index + 1)

/-- What the call comes to; `dir` is the index in `buf` of the entry. -/
inductive ParentEnd where
  | returned (fat : FsFat) (dir : Option Nat)
  | nullPointer
  | fault (f : PathFault)

/-- `read_fat_dir_from_parent_path`, behind the search of the path. -/
def parentAt (read : UInt32 → Option Bytes) : PathEnd → ParentEnd
  | .fault f => .fault f
  | .returned _ sector offset fat =>
      if sector ≥ fatClusterInvalid.toNat then .returned fat none
      else
        match readFatDir read fat sector offset with
        | (_, none) => .nullPointer
        | (fat, some _) =>
            let buf := storeWritten fat.buf offset.toNat (UInt32.ofInt sector)
            .returned { fat with buf } (some offset.toNat)

/-- `read_fat_dir_from_parent_path`, for a number of rounds of the search. -/
def readFatDirFromParentPath (read : UInt32 → Option Bytes) (stack : PathStack) (fat : FsFat)
    (path : Chars) (type : ParentType) (n : Nat) : Option ParentEnd :=
  let (parent, name) := splitPath path
  if parent = [] then
    let (fat, dir) :=
      readRootDir read type name (fat.dataStart.toNat - fat.rootStart.toNat) fat fat.rootStart
    some (.returned fat dir)
  else
    let path := match type with
      | .mkdir => parent
      | .rmdir => path
    (readFatPathCluster read stack fat path 0 0 n).map (parentAt read)

/-! ## A new entry -/

/-- `fat_time_t`, as `fat_to_dt` fills it. -/
def FatClock.makeTime (t : FatClock) : Nat :=
  t.sec / 2 % 32 + 32 * (t.min % 64) + 2048 * (t.hour % 32)

/-- The entry at `a`, as `fat_alloc_dir` fills it before it takes a cluster. The size
is kept for `FT_FILE` in `attr`, which is 2. -/
def storeDir (m : Bytes) (a : Nat) (name : Chars) (attr : BitVec 8) (size : Nat)
    (clock : FatClock) : Bytes :=
  let m := copy m a (fun i => (fatToSfn name).toList.getD i 0x20) fatFileNameSize
  let m := store8 m (a + 11) attr
  let m := store8 m (a + 12) 0x08
  let m := store32 m (a + 28) (if attr &&& 2 ≠ 0 then size else 0)
  let m := store16 m (a + 16) clock.date
  let m := store16 m (a + 14) clock.makeTime
  let m := store8 m (a + 13) 0
  let m := store16 m (a + 18) clock.date
  let m := store16 m (a + 24) clock.date
  store16 m (a + 22) clock.makeTime

/-- The entry at `a` with its cluster. -/
def newDir (m : Bytes) (a : Nat) (name : Chars) (attr : BitVec 8) (size : Nat) (clock : FatClock)
    (k : Nat) : Bytes :=
  let m := storeDir m a name attr size clock
  store16 (store16 m (a + 26) (UInt32.ofNat k &&& 0xFFFF).toNat) (a + 20)
    (UInt32.ofNat k >>> 16).toNat

/-- `fat_alloc_dir`, for the entry at `a`: the memory, and what is returned. -/
def fatAllocDir (fat : FsFat) (disk : Disk) (m : Bytes) (a : Nat) (name : Chars)
    (attr : BitVec 8) (size : Nat) (clock : FatClock) : FatEnd (Bytes × Int32) :=
  let m := storeDir m a name attr size clock
  match fatAllocCluster fat false disk with
  | .fault => .fault
  | .returned cluster disk =>
      if cluster ≥ fatClusterInvalid then .returned (m, -1) disk
      else
        let m := store16 m (a + 26) (cluster &&& 0xFFFF).toNat
        .returned (store16 m (a + 20) (cluster >>> 16).toNat, 0) disk

/-- The two halves of a number that is stored in an entry. -/
theorem halves (c : UInt32) :
    (c >>> 16).toNat < 2 ^ 16 ∧ (c &&& 0xFFFF).toNat < 2 ^ 16
      ∧ UInt32.ofNat ((c >>> 16).toNat <<< 16 ||| (c &&& 0xFFFF).toNat) = c := by
  have hc := c.toNat_lt
  have hhigh : (c >>> 16).toNat = c.toNat / 2 ^ 16 := by
    rw [UInt32.toNat_shiftRight]
    exact Nat.shiftRight_eq_div_pow c.toNat 16
  have hlow : (c &&& 0xFFFF).toNat = c.toNat % 2 ^ 16 := by
    rw [UInt32.toNat_and]
    exact Nat.and_two_pow_sub_one_eq_mod c.toNat 16
  have hor : (c.toNat / 2 ^ 16) <<< 16 ||| c.toNat % 2 ^ 16 = c.toNat := by
    rw [← Nat.shiftLeft_add_eq_or_of_lt (Nat.mod_lt _ (by decide)), Nat.shiftLeft_eq]
    omega
  rw [hhigh, hlow, hor, UInt32.ofNat_toNat]
  exact ⟨by omega, Nat.mod_lt _ (by decide), rfl⟩

/-- The number that is stored in an entry comes back. -/
theorem cluster_storeCluster (buf : Bytes) (i : Nat) (c : UInt32) :
    UInt32.ofNat (dirAt (storeCluster buf i c) (32 * i)).cluster = c := by
  obtain ⟨hhigh, hlow, hc⟩ := halves c
  have h20 : load16 (storeCluster buf i c) (32 * i + 20) = (c >>> 16).toNat := by
    rw [storeCluster, load16_congr (store16_outside (by omega)) (store16_outside (by omega))]
    exact load16_store16_self hhigh
  have h26 : load16 (storeCluster buf i c) (32 * i + 26) = (c &&& 0xFFFF).toNat := by
    rw [storeCluster]
    exact load16_store16_self hlow
  rw [FatDir.cluster, dirAt]
  dsimp only
  rw [h20, h26, hc]

section NewEntry

variable {m : Bytes} {a b i : Nat} {name : Chars} {attr : BitVec 8} {size : Nat} {clock : FatClock}

theorem storeDir_outside (h : b < a ∨ a + 32 ≤ b) :
    storeDir m a name attr size clock b = m b := by
  simp only [storeDir]
  rw [store16_outside (by omega), store16_outside (by omega), store16_outside (by omega),
    store8_of_ne (by omega), store16_outside (by omega), store16_outside (by omega),
    store32_outside (by omega), store8_of_ne (by omega), store8_of_ne (by omega),
    copy_outside (by rw [fatFileNameSize]; omega)]

theorem storeDir_name (h : i < 11) :
    storeDir m a name attr size clock (a + i) = (fatToSfn name)[i] := by
  simp only [storeDir]
  rw [store16_outside (by omega), store16_outside (by omega), store16_outside (by omega),
    store8_of_ne (by omega), store16_outside (by omega), store16_outside (by omega),
    store32_outside (by omega), store8_of_ne (by omega), store8_of_ne (by omega),
    copy_inside (by omega) (by rw [fatFileNameSize]; omega), Nat.add_sub_cancel_left]
  simp [h]

theorem storeDir_attr : storeDir m a name attr size clock (a + 11) = attr := by
  simp only [storeDir]
  rw [store16_outside (by omega), store16_outside (by omega), store16_outside (by omega),
    store8_of_ne (by omega), store16_outside (by omega), store16_outside (by omega),
    store32_outside (by omega), store8_of_ne (by omega), store8_self]

theorem newDir_outside {k : Nat} (h : b < a ∨ a + 32 ≤ b) :
    newDir m a name attr size clock k b = m b := by
  rw [newDir, store16_outside (by omega), store16_outside (by omega), storeDir_outside (by omega)]

/-- The new entry has the name, the attributes and the cluster. -/
theorem dirAt_newDir {k : Nat} (hk : k < 2 ^ 32) :
    (dirAt (newDir m a name attr size clock k) a).name = fatToSfn name
      ∧ (dirAt (newDir m a name attr size clock k) a).attr = attr
      ∧ (dirAt (newDir m a name attr size clock k) a).cluster = k := by
  obtain ⟨hhigh, hlow, hc⟩ := halves (UInt32.ofNat k)
  have h20 : load16 (newDir m a name attr size clock k) (a + 20)
      = (UInt32.ofNat k >>> 16).toNat := by
    rw [newDir]
    exact load16_store16_self hhigh
  have h26 : load16 (newDir m a name attr size clock k) (a + 26)
      = (UInt32.ofNat k &&& 0xFFFF).toNat := by
    rw [newDir, load16_congr (store16_outside (by omega)) (store16_outside (by omega))]
    exact load16_store16_self hlow
  refine ⟨Vector.ext fun i hi => ?_, ?_, ?_⟩
  · have hname : storeDir m a name attr size clock (a + i) = (fatToSfn name)[i] := storeDir_name hi
    simp only [dirAt, Vector.getElem_ofFn, newDir]
    rw [store16_outside (by omega), store16_outside (by omega), hname]
  · simp only [dirAt, newDir]
    rw [store16_outside (by omega), store16_outside (by omega), storeDir_attr]
  · have hor : (UInt32.ofNat k >>> 16).toNat <<< 16 ||| (UInt32.ofNat k &&& 0xFFFF).toNat
        < 2 ^ 32 := by
      refine Nat.or_lt_two_pow ?_ (Nat.lt_trans hlow (by decide))
      rw [Nat.shiftLeft_eq]
      omega
    have hnat := congrArg UInt32.toNat hc
    rw [UInt32.toNat_ofNat_of_lt' hor, UInt32.toNat_ofNat_of_lt' hk] at hnat
    rw [FatDir.cluster, dirAt]
    dsimp only
    rw [h20, h26, hnat]

end NewEntry

/-! ## The root -/

/-- The entry has the name and is of the type that `read_fat_ftype` gives. -/
def DirEntry.isSeenAs (t : FatType) (sfn : Vector (BitVec 8) 11) (e : DirEntry) : Bool :=
  nameFirst e.fdir.name ≠ fdnFree ∧ e.fdir.name = sfn ∧ readFatFtype e.fdir = t

namespace Volume

/-- The disk of a volume, which answers. -/
def up (v : Volume) : Disk := ⟨v.disk, true⟩

theorem read_up (v : Volume) : v.up.read = v.read := rfl

/-- The entries of a directory, and what stands behind its end. -/
def slots (v : Volume) (d : DirLoc) : List DirEntry := (v.sectors d).flatMap v.entriesIn

/-- What the scan of the root comes to at the entry where it stops. -/
def rootParent (v : Volume) (type : ParentType) (e : DirEntry) : FsFat × Option Nat :=
  let x := UInt32.ofNat e.sector
  match type with
  | .mkdir =>
      if e.isEnd then ({ v.holding x with buf := storeCluster (v.view x) e.index x }, some e.index)
      else (v.holding x, none)
  | .rmdir =>
      if e.isEnd then (v.holding x, none)
      else ({ v.holding x with buf := storeWritten (v.view x) e.index x }, some e.index)

/-- Where the scan of the root stops: at its end, or at a directory of the name. -/
def stopAt (v : Volume) (sfn : Vector (BitVec 8) 11) : Option DirEntry :=
  (v.slots .root).find? fun e => e.isEnd || e.isSeenAs .dir sfn

section Root

variable {v : Volume} {fat : FsFat} {n : Name83} {s o left : Nat} {type : ParentType}
  {e : DirEntry} {t : FatType} {name : Chars}

theorem matchFatName_iff_sfn (fdir : FatDir) (name : Chars) :
    matchFatName fdir name ↔ fdir.name = fatToSfn name := by
  rw [matchFatName, beq_iff_eq, eq_comm]

/-- No name begins like the end of a directory. -/
theorem entryName_ne_end (n : Name83) : nameFirst n.entryName ≠ fdnEnd := by
  obtain ⟨c, base, hbase⟩ := List.exists_cons_of_ne_nil n.base_ne_nil
  have hc : c ≠ 0 := (n.base_chars c (hbase ▸ List.mem_cons_self)).1
  have hupper : ∀ c : BitVec 8, upperChar c = 0 → c = 0 := by decide
  rw [nameFirst, n.getElem_entryName (by omega), if_pos (by omega), hbase]
  exact fun h => hc (hupper c h)

theorem isSeenAs_iff :
    e.isSeenAs t (fatToSfn name) ↔ nameFirst e.fdir.name ≠ fdnFree ∧ matchFatName e.fdir name
      ∧ readFatFtype e.fdir = t := by
  rw [matchFatName_iff_sfn, DirEntry.isSeenAs, decide_eq_true_iff]

/-- The scan of a sector stops where the scan of its entries does. -/
theorem scanSector_eq {m : Bytes} (hm : ∀ i < 512, m i = v.disk (UInt32.ofNat s) i)
    (ho : o + left = 16) :
    scanSector t m name left o
      = match ((v.entriesIn s).drop o).find? fun e => e.isEnd || e.isSeenAs t (fatToSfn name) with
        | none => .more
        | some e => if e.isEnd then .foundEnd e.index else .hit e.index := by
  induction left generalizing o with
  | zero =>
      have hnil : (v.entriesIn s).drop o = [] := by
        rw [List.drop_eq_nil_iff, entriesIn, List.length_map, List.length_range]
        omega
      rw [hnil]
      rfl
  | succ left ih =>
      rw [scanSector, dirAt_agrees hm (by omega), drop_entriesIn (by omega), List.find?_cons]
      generalize hfdir : dirAt (v.disk (UInt32.ofNat s)) (32 * o) = fdir
      by_cases hend : nameFirst fdir.name = fdnEnd
      · have hisEnd : DirEntry.isEnd ⟨s, o, fdir⟩ = true := decide_eq_true hend
        rw [if_pos hend, hisEnd, Bool.true_or]
        exact (if_pos hisEnd).symm
      · have hisEnd : DirEntry.isEnd ⟨s, o, fdir⟩ = false := decide_eq_false hend
        rw [if_neg hend, hisEnd, Bool.false_or]
        by_cases hseen : DirEntry.isSeenAs t (fatToSfn name) ⟨s, o, fdir⟩ = true
        · obtain ⟨hfree, hmatch, htype⟩ := isSeenAs_iff.mp hseen
          rw [if_neg hfree, if_pos ⟨hmatch, htype⟩, hseen]
          exact (if_neg (Bool.eq_false_iff.mp hisEnd)).symm
        · rw [Bool.eq_false_iff.mpr hseen, ih (by omega)]
          by_cases hfree : nameFirst fdir.name = fdnFree
          · rw [if_pos hfree]
          · rw [if_neg hfree, if_neg fun hhit => hseen (isSeenAs_iff.mpr ⟨hfree, hhit⟩)]

/-- The scan of a whole sector. -/
theorem scanSector_start (t : FatType) (name : Chars) {m : Bytes}
    (hm : ∀ i < 512, m i = v.disk (UInt32.ofNat s) i) :
    scanSector t m name 16 0
      = match (v.entriesIn s).find? fun e => e.isEnd || e.isSeenAs t (fatToSfn name) with
        | none => .more
        | some e => if e.isEnd then .foundEnd e.index else .hit e.index := by
  have h : scanSector t m name 16 0
      = match ((v.entriesIn s).drop 0).find? fun e => e.isEnd || e.isSeenAs t (fatToSfn name) with
        | none => .more
        | some e => if e.isEnd then .foundEnd e.index else .hit e.index := scanSector_eq hm rfl
  rwa [List.drop_zero] at h

theorem mem_entriesIn (h : e ∈ v.entriesIn s) :
    e.sector = s ∧ e.index < 16 ∧ e.fdir = dirAt (v.disk (UInt32.ofNat s)) (32 * e.index) := by
  obtain ⟨i, hi, rfl⟩ := List.mem_map.mp h
  exact ⟨rfl, List.mem_range.mp hi, rfl⟩

/-- The loop over the sectors of the root stops where the scan of their entries does. -/
theorem readRootDir_eq (h : v.Cached fat) (hs : s + left < 2 ^ 31) :
    ∃ fat', v.Cached fat' ∧ readRootDir v.read type name left fat (UInt32.ofNat s)
      = match ((List.range' s left).flatMap v.entriesIn).find?
            fun e => e.isEnd || e.isSeenAs .dir (fatToSfn name) with
        | none => (fat', none)
        | some e => v.rootParent type e := by
  induction left generalizing fat s with
  | zero => exact ⟨fat, h, rfl⟩
  | succ left ih =>
      have hne : UInt32.ofNat s ≠ -1 := ofNat_ne_minus (by omega)
      have hbps : (v.holding (UInt32.ofNat s)).bps.toNat / 32 = 16 := by
        have : (v.holding (UInt32.ofNat s)).bps = 512 := v.bps_eq
        rw [this]
        rfl
      have hbuf : (v.holding (UInt32.ofNat s)).buf = v.view (UInt32.ofNat s) := rfl
      have hnext : UInt32.ofNat s + 1 = UInt32.ofNat (s + 1) := by
        rw [UInt32.ofNat_add]
        rfl
      have hscan := scanSector_start .dir name (m := v.view (UInt32.ofNat s))
        fun i hi => view_inside hi
      rw [readRootDir, h.bread hne, List.range'_succ, List.flatMap_cons, List.find?_append]
      dsimp only
      rw [hbps, hbuf, hscan]
      cases hfind : (v.entriesIn s).find? fun e => e.isEnd || e.isSeenAs .dir (fatToSfn name) with
      | none =>
          obtain ⟨fat', hc, heq⟩ := ih (s := s + 1) (cached_holding (UInt32.ofNat s)) (by omega)
          refine ⟨fat', hc, ?_⟩
          rw [Option.none_or, ← heq, ← hnext]
      | some e =>
          obtain ⟨hsector, -, -⟩ := mem_entriesIn (List.mem_of_find?_eq_some hfind)
          refine ⟨v.holding (UInt32.ofNat s), cached_holding _, ?_⟩
          rw [Option.some_or]
          dsimp only
          unfold rootParent
          rw [hsector]
          by_cases hend : e.isEnd
          · rw [if_pos hend]
            cases type with
            | mkdir => exact (if_pos hend).symm
            | rmdir => exact (if_pos hend).symm
          · rw [if_neg hend]
            cases type with
            | mkdir => exact (if_neg hend).symm
            | rmdir => exact (if_neg hend).symm

theorem splitPath_name (n : Name83) : splitPath (0x2F :: n.text) = ([], n.text) := by
  have hno := n.slash_notMem_text
  have hwhile : ((0x2F :: n.text).reverse.takeWhile fun c => c ≠ 0x2F).reverse = n.text := by
    rw [List.reverse_cons, List.takeWhile_append_of_pos]
    · simp
    · intro c hc
      exact decide_eq_true (hno c (List.mem_reverse.mp hc))
  simp only [splitPath, hwhile]
  simp

/-- A path with one slash, which stands in front. -/
theorem parent_root (h : v.Cached v.fat) {path : Chars} (hpath : splitPath path = ([], name))
    (type : ParentType) (stack : PathStack) :
    ∃ fat', v.Cached fat' ∧ ∀ rounds,
      readFatDirFromParentPath v.read stack v.fat path type rounds
        = some (match v.stopAt (fatToSfn name) with
          | none => .returned fat' none
          | some e => .returned (v.rootParent type e).1 (v.rootParent type e).2) := by
  have hroot := v.rootStart_lt
  have hdata := v.dataStart_lt
  have hsum := v.dataStart_eq
  have hleft : v.fat.dataStart.toNat - v.fat.rootStart.toNat = v.fat.rootTotal.toNat / 16 := by
    omega
  have hbound : v.fat.rootStart.toNat + v.fat.rootTotal.toNat / 16 < 2 ^ 31 := by omega
  obtain ⟨fat', hc, heq⟩ := readRootDir_eq h hbound
  rw [UInt32.ofNat_toNat] at heq
  refine ⟨fat', hc, fun rounds => ?_⟩
  rw [readFatDirFromParentPath, hpath]
  dsimp only
  rw [if_pos rfl, hleft, heq, stopAt, slots, sectors]
  cases hfind : ((List.range' v.fat.rootStart.toNat (v.fat.rootTotal.toNat / 16)).flatMap
      v.entriesIn).find? fun e => e.isEnd || e.isSeenAs .dir (fatToSfn name) with
  | none => rfl
  | some e => rfl

end Root

/-! ## Any other path -/

/-- The entry `i` behind the first byte of the sector `s` in the cache. -/
def slotAt (v : Volume) (s i : Nat) : DirEntry := ⟨s, i, dirAt (v.view (UInt32.ofNat s)) (32 * i)⟩

/-- What `read_fat_path_cluster` finds: the entry at the place it gives, if that is one. -/
def LooksUp (v : Volume) (stack : PathStack) (path : Chars) (e : DirEntry) : Prop :=
  ∃ rounds type sector offset fat,
    readFatPathCluster v.read stack v.fat path 0 0 rounds
        = some (.returned type sector offset fat)
      ∧ sector < fatClusterInvalid.toNat ∧ offset < v.fat.rootTotal.toNat
      ∧ e = v.slotAt sector.toNat offset.toNat

/-- `read_fat_dir_from_parent_path` comes to `r`. -/
def ParentEnds (v : Volume) (stack : PathStack) (path : Chars) (type : ParentType)
    (r : ParentEnd) : Prop :=
  ∃ rounds, readFatDirFromParentPath v.read stack v.fat path type rounds = some r

/-- The path that is searched. -/
def searched (path : Chars) : ParentType → Chars
  | .mkdir => (splitPath path).1
  | .rmdir => path

/-- `fs_fat_t` when the number of the sector is stored in the end of the root. -/
def marked (v : Volume) (e : DirEntry) : FsFat :=
  let x := UInt32.ofNat e.sector
  { v.holding x with buf := storeCluster (v.view x) e.index x }

/-- `fs_fat_t` when the number of the sector is stored in the entry. -/
def taken (v : Volume) (e : DirEntry) : FsFat :=
  let x := UInt32.ofNat e.sector
  { v.holding x with buf := storeWritten (v.view x) e.index x }

/-- The search of a path: it has the place of an entry, or none. -/
def PlacedSearch (s : Search) : Prop :=
  0 ≤ s.sector ∧ s.sector < fatClusterInvalid.toNat ∧ 0 ≤ s.offset

def PlacedEnd : PathEnd → Prop
  | .returned _ sector offset _ => 0 ≤ sector ∧ 0 ≤ offset
  | .fault _ => True

def PlacedRound : Round Search PathEnd → Prop
  | .leave r => PlacedEnd r
  | .again s => PlacedSearch s

section Path

variable {v : Volume} {fat : FsFat} {stack : PathStack} {path : Chars} {type : ParentType}
  {e : DirEntry} {s : Search} {r : ParentEnd}

theorem placed_finish (h : PlacedSearch s) : PlacedEnd s.finish := by
  unfold Search.finish
  split
  · exact ⟨h.1, h.2.2⟩
  · exact ⟨h.1, h.2.2⟩

theorem placed_round (read : UInt32 → Option Bytes) (stack : PathStack) (path : Chars)
    (h : PlacedSearch s) : PlacedRound (s.round read stack path) := by
  unfold Search.round
  split
  case isFalse => exact placed_finish h
  case isTrue hsc =>
    have hlt : (s.sc.toNat : Int) < fatClusterInvalid.toNat :=
      Int.ofNat_lt.mpr (UInt32.lt_iff_toNat_lt.mp hsc)
    have hpos : (0 : Int) ≤ s.sc.toNat := Int.natCast_nonneg _
    split
    · exact placed_finish h
    · split
      · trivial
      · split
        · exact ⟨by decide, h.2.2⟩
        · generalize scanDirs _ _ _ = scan
          cases scan with
          | file i => exact ⟨hpos, Int.natCast_nonneg i⟩
          | dir i fdir => exact ⟨hpos, hlt, Int.natCast_nonneg i⟩
          | foundEnd => exact ⟨by decide, h.2.2⟩
          | notFound => exact h

/-- The search of a path comes back with numbers that are not negative. -/
theorem placed_path {sector offset : Int} {rounds : Nat} {type : FatType} {fat : FsFat}
    (h : readFatPathCluster v.read stack v.fat path 0 0 rounds
      = some (.returned type sector offset fat)) : 0 ≤ sector ∧ 0 ≤ offset := by
  rw [readFatPathCluster] at h
  split at h
  · cases h
    exact ⟨le_refl 0, le_refl 0⟩
  · refine Ends.invariant (I := PlacedSearch) (Q := PlacedEnd) (fun s s' hs hround => ?_)
      (fun s r hs hround => ?_) ⟨rounds, h⟩
      ⟨le_refl 0, (by decide : (0 : Int) < fatClusterInvalid.toNat), le_refl 0⟩
    · have := placed_round v.read stack path hs
      rwa [hround] at this
    · have := placed_round v.read stack path hs
      rwa [hround] at this

/-- The entry that the search of a path leads to. -/
theorem parentAt_eq (hcache : v.Cached fat) (type : FatType) {sector offset : Int}
    (hsector : 0 ≤ sector) (hoffset : 0 ≤ offset) :
    parentAt v.read (.returned type sector offset fat)
      = if sector < fatClusterInvalid.toNat then
          if offset < v.fat.rootTotal.toNat then
            .returned (v.taken (v.slotAt sector.toNat offset.toNat)) (some offset.toNat)
          else .nullPointer
        else .returned fat none := by
  have hinvalid : fatClusterInvalid.toNat = 0xFFF8 := rfl
  rw [parentAt]
  by_cases hlt : sector < fatClusterInvalid.toNat
  · have hof : UInt32.ofInt sector = UInt32.ofNat sector.toNat := by
      have hmod : sector % 2 ^ 32 = sector := Int.emod_eq_of_lt hsector (by omega)
      unfold UInt32.ofInt
      rw [hmod]
    have hne : UInt32.ofNat sector.toNat ≠ -1 := ofNat_ne_minus (by omega)
    have htotal : fat.rootTotal = v.fat.rootTotal := by
      obtain ⟨buf, pcs, rfl⟩ := hcache.volume
      rfl
    rw [if_neg (by omega), if_pos hlt, readFatDir, htotal, hof, hcache.bread hne]
    by_cases hin : offset < v.fat.rootTotal.toNat
    · rw [if_neg (by omega), if_pos hin]
      rfl
    · rw [if_pos (by omega), if_neg hin]
  · rw [if_pos (by omega), if_neg hlt]

theorem looksUp_slot (h : v.LooksUp stack path e) :
    e = v.slotAt e.sector e.index ∧ e.sector < 2 ^ 31 := by
  obtain ⟨rounds, type, sector, offset, fat, -, hlt, -, rfl⟩ := h
  have hinvalid : fatClusterInvalid.toNat = 0xFFF8 := rfl
  exact ⟨rfl, (by omega : sector.toNat < 2 ^ 31)⟩

theorem readFatDirFromParentPath_eq (hroot : (splitPath path).1 ≠ []) (rounds : Nat) :
    readFatDirFromParentPath v.read stack v.fat path type rounds
      = (readFatPathCluster v.read stack v.fat (searched path type) 0 0 rounds).map
          (parentAt v.read) := by
  rw [readFatDirFromParentPath]
  dsimp only
  rw [if_neg hroot]
  cases type with
  | mkdir => rfl
  | rmdir => rfl

/-- A path with one slash. -/
theorem parentEnds_root (hcache : v.Cached v.fat) (hroot : (splitPath path).1 = [])
    (type : ParentType) (stack : PathStack) :
    ∃ fat', v.Cached fat' ∧ ∀ r, v.ParentEnds stack path type r
      ↔ r = match v.stopAt (fatToSfn (splitPath path).2) with
        | none => .returned fat' none
        | some e => .returned (v.rootParent type e).1 (v.rootParent type e).2 := by
  have hpath : splitPath path = ([], (splitPath path).2) := Prod.ext hroot rfl
  obtain ⟨fat', hc, hparent⟩ := parent_root hcache hpath type stack
  refine ⟨fat', hc, fun r => ⟨?_, ?_⟩⟩
  · rintro ⟨rounds, hr⟩
    exact (Option.some.inj ((hparent rounds).symm.trans hr)).symm
  · rintro rfl
    exact ⟨0, hparent 0⟩

/-- Any other path, with what its search finds. -/
theorem parentEnds_looksUp (hcache : v.Cached v.fat) (hroot : (splitPath path).1 ≠ [])
    (h : v.LooksUp stack (searched path type) e) :
    v.ParentEnds stack path type r ↔ r = .returned (v.taken e) (some e.index) := by
  obtain ⟨rounds, t, sector, offset, fat, hsearch, hlt, hin, rfl⟩ := h
  obtain ⟨hsector, hoffset⟩ := placed_path hsearch
  have hparent := parentAt_eq (cached_path hcache hsearch) t hsector hoffset
  rw [if_pos hlt, if_pos hin] at hparent
  constructor
  · rintro ⟨rounds', hr⟩
    rw [readFatDirFromParentPath_eq hroot] at hr
    obtain ⟨r', hsearch', rfl⟩ := Option.map_eq_some_iff.mp hr
    obtain rfl := readFatPathCluster_unique hsearch hsearch'
    exact hparent
  · rintro rfl
    refine ⟨rounds, ?_⟩
    rw [readFatDirFromParentPath_eq hroot, hsearch, Option.map_some, hparent]
    rfl

/-- Any other path: its search finds an entry, or NULL is returned, if anything. -/
theorem parentEnds_path (hcache : v.Cached v.fat) (hroot : (splitPath path).1 ≠ [])
    (h : v.ParentEnds stack path type r) :
    (∃ e, v.LooksUp stack (searched path type) e ∧ r = .returned (v.taken e) (some e.index))
      ∨ ∀ fat dir, r = .returned fat dir → dir = none := by
  obtain ⟨rounds, hr⟩ := h
  rw [readFatDirFromParentPath_eq hroot] at hr
  obtain ⟨r', hsearch, rfl⟩ := Option.map_eq_some_iff.mp hr
  cases r' with
  | fault f => exact .inr nofun
  | returned t sector offset fat =>
      obtain ⟨hsector, hoffset⟩ := placed_path hsearch
      rw [parentAt_eq (cached_path hcache hsearch) t hsector hoffset]
      by_cases hlt : sector < fatClusterInvalid.toNat
      · by_cases hin : offset < v.fat.rootTotal.toNat
        · rw [if_pos hlt, if_pos hin]
          exact .inl ⟨_, ⟨rounds, t, sector, offset, fat, hsearch, hlt, hin, rfl⟩, rfl⟩
        · rw [if_pos hlt, if_neg hin]
          exact .inr nofun
      · rw [if_neg hlt]
        refine .inr fun fat' dir heq => ?_
        cases heq
        rfl

end Path

/-! ### The entry in the cache -/

theorem storeWritten_outside {buf : Bytes} {i b : Nat} {x : UInt32}
    (h : b < 32 * i + 22 ∨ 32 * i + 26 ≤ b) : storeWritten buf i x b = buf b := by
  rw [storeWritten, store16_outside (by omega), store16_outside (by omega)]

theorem cluster_storeWritten (buf : Bytes) (i : Nat) (x : UInt32) :
    (dirAt (storeWritten buf i x) (32 * i)).cluster = (dirAt buf (32 * i)).cluster := by
  have hload : ∀ a, a = 32 * i + 20 ∨ a = 32 * i + 26 →
      load16 (storeWritten buf i x) a = load16 buf a :=
    fun a ha => load16_congr (storeWritten_outside (by omega)) (storeWritten_outside (by omega))
  rw [FatDir.cluster, FatDir.cluster]
  simp only [dirAt]
  rw [hload _ (Or.inl rfl), hload _ (Or.inr rfl)]

theorem cluster_lt (m : Bytes) (a : Nat) : (dirAt m a).cluster < 2 ^ 32 := by
  have hhigh := load16_lt m (a + 20)
  have hlow := load16_lt m (a + 26)
  have hshift : load16 m (a + 20) <<< 16 < 2 ^ 32 := by
    rw [Nat.shiftLeft_eq]
    omega
  exact Nat.or_lt_two_pow hshift (Nat.lt_trans hlow (by decide))

/-- With a second slash in the path its parent is not the root. -/
theorem splitPath_ne_nil (t u : Chars) : (splitPath (0x2F :: (t ++ 0x2F :: u))).1 ≠ [] := by
  have hlast : ((0x2F :: (t ++ 0x2F :: u)).reverse.takeWhile fun c => c ≠ 0x2F).length
      ≤ u.length := by
    have hrev : (0x2F :: (t ++ 0x2F :: u)).reverse
        = u.reverse ++ 0x2F :: (t.reverse ++ [0x2F]) := by simp
    rw [hrev, List.takeWhile_append]
    split
    · rw [List.takeWhile_cons_of_neg (by simp), List.append_nil, List.length_reverse]
    · exact (List.takeWhile_sublist _).length_le.trans_eq List.length_reverse
  intro h
  have hlen := congrArg List.length h
  simp only [splitPath, List.length_take, List.length_reverse, List.length_nil, List.length_cons,
    List.length_append] at hlen hlast
  omega

/-! ### A cluster is taken -/

/-- The disk when the cluster `k` has been taken. -/
def taking (v : Volume) (k : Nat) : Disk :=
  v.up.put (fatSector v.fat k) (store16 (v.disk (fatSector v.fat k)) (2 * k) 0xFFFF)

section Taking

variable {v : Volume} {fat : FsFat} {k : Nat}

theorem taking_sectors {s : UInt32} (h : s ≠ fatSector v.fat k) :
    (v.taking k).sectors s = v.disk s := Disk.put_sectors_of_ne _ _ h

/-- A free entry in the first sector of the FAT. -/
theorem fatAllocDir_free (hsame : SameVolume v.fat fat)
    (hfree : ∃ c < 256, Csos.fatEntry v.fat v.up c = 0) (m : Bytes) (a : Nat) (name : Chars)
    (attr : BitVec 8) (size : Nat) (clock : FatClock) :
    ∃ k < 256, FirstFree v.fat v.up k
      ∧ fatAllocDir fat v.up m a name attr size clock
        = .returned (newDir m a name attr size clock k, 0) (v.taking k) := by
  obtain ⟨buf, pcs, rfl⟩ := hsame
  have hsectors : ({ v.fat with buf, pcs } : FsFat).fatSectors ≠ 0 := v.fatSectors_ne
  obtain ⟨k, hk, hfirst, halloc⟩ := fatAllocCluster_free hsectors rfl hfree
  have hvalid : ¬ UInt32.ofNat k ≥ fatClusterInvalid := by
    rw [ge_iff_le, UInt32.le_iff_toNat_le, UInt32.toNat_ofNat_of_lt' (Nat.lt_trans hk (by decide))]
    have hinvalid : fatClusterInvalid.toNat = 0xFFF8 := rfl
    omega
  refine ⟨k, hk, ⟨hfirst.lt, hfirst.free, hfirst.used⟩, ?_⟩
  rw [fatAllocDir, halloc]
  dsimp only
  rw [if_neg hvalid]
  rfl

/-- A first sector of the FAT that is full is read past its end. -/
theorem fatAllocDir_full (hsame : SameVolume v.fat fat)
    (hfull : ∀ c < 256, Csos.fatEntry v.fat v.up c ≠ 0) {m : Bytes} {a : Nat} {name : Chars}
    {attr : BitVec 8} {size : Nat} {clock : FatClock} :
    fatAllocDir fat v.up m a name attr size clock = .fault := by
  obtain ⟨buf, pcs, rfl⟩ := hsame
  have halloc : fatAllocCluster { v.fat with buf, pcs } false v.up = .fault :=
    fatAllocCluster_full false v.fatSectors_ne rfl hfull
  rw [fatAllocDir, halloc]

/-- The FAT stands before the root. -/
theorem outsideFat_of_le {x : UInt32} (h : v.fat.rootStart.toNat ≤ x.toNat) :
    OutsideFat v.fat x := by
  have h1 := v.br.reservedSectors.toNat_lt
  have h2 := v.br.sectorsPerFat.toNat_lt
  have htwo : (2 : UInt32).toNat = 2 := rfl
  have hroot : v.fat.rootStart.toNat
      = v.br.reservedSectors.toNat + v.br.sectorsPerFat.toNat * 2 := by
    rw [v.geometry.rootStart, UInt32.toNat_add, UInt32.toNat_mul, htwo, UInt16.toNat_toUInt32,
      UInt16.toNat_toUInt32]
    omega
  intro i hi heq
  rw [v.fat_geometry.2, UInt16.toNat_toUInt32] at hi
  have hlt : i < 2 ^ 32 := by omega
  rw [heq, UInt32.toNat_add, v.fat_geometry.1, UInt16.toNat_toUInt32,
    UInt32.toNat_ofNat_of_lt' hlt, hroot] at h
  omega

/-- The directories stand behind the FAT. -/
theorem rootStart_le_sector {d : DirLoc} {s : Nat} (h : s ∈ v.sectors d) :
    v.fat.rootStart.toNat ≤ s := by
  cases d with
  | root => exact (List.mem_range'_1.mp h).1
  | cluster c =>
      obtain ⟨c', -, hc'⟩ := List.mem_flatMap.mp h
      have hdata := v.dataStart_eq
      have := List.mem_range'_1.mp hc'
      omega

/-- The FAT has no sector of a directory. -/
theorem outsideFat_sector {d : DirLoc} {s : Nat} (h : s ∈ v.sectors d) :
    OutsideFat v.fat (UInt32.ofNat s) := by
  refine outsideFat_of_le ?_
  rw [UInt32.toNat_ofNat_of_lt' (Nat.lt_trans (sector_lt h) (by decide))]
  exact rootStart_le_sector h

theorem lt_entries (hk : k < 256) : k < v.fat.entries := by
  have hpos : v.fat.fatSectors.toNat ≠ 0 := fun h => v.fatSectors_ne (UInt32.toNat_inj.mp h)
  rw [FsFat.entries]
  omega

theorem fatSector_ne_sector {d : DirLoc} {s : Nat} (hk : k < 256) (h : s ∈ v.sectors d) :
    UInt32.ofNat s ≠ fatSector v.fat k := outsideFat_sector h _ (entry_index_lt (lt_entries hk))

end Taking

/-! ### The end of a directory -/

/-- The entries of a directory. -/
def entriesOf (v : Volume) (d : DirLoc) : List DirEntry := (v.slots d).takeWhile fun e => !e.isEnd

/-- The entries behind the end of a directory, up to the next end. -/
def behindEnd (v : Volume) (d : DirLoc) : List DirEntry :=
  ((v.slots d).dropWhile fun e => !e.isEnd).tail.takeWhile fun e => !e.isEnd

/-- A directory around its end `e`: the sectors before, the sector of the end, and the
sectors behind. -/
structure EndSplit (v : Volume) (d : DirLoc) (e : DirEntry) (before as bs behind : List DirEntry) :
    Prop where
  slots : v.slots d = before ++ as ++ e :: (bs ++ behind)
  sector : v.entriesIn e.sector = as ++ e :: bs
  mem : e.sector ∈ v.sectors d
  isEnd : e.isEnd
  used : ∀ x ∈ before ++ as, ¬ x.isEnd

section End

variable {v : Volume} {d : DirLoc} {sfn : Vector (BitVec 8) 11} {e x : DirEntry}
  {before as bs behind : List DirEntry}

theorem endSplit (h : v.stopAt sfn = some e) (hend : e.isEnd) :
    ∃ before as bs behind, v.EndSplit .root e before as bs behind
      ∧ ∀ x ∈ before ++ as, ¬ x.isSeenAs .dir sfn := by
  obtain ⟨ss₁, s, ss₂, as, bs, hss, hs, hbefore⟩ := find?_flatMap_split h
  obtain ⟨rfl, -, -⟩ := mem_entriesIn (hs ▸ List.mem_append_right as List.mem_cons_self)
  refine ⟨ss₁.flatMap v.entriesIn, as, bs, ss₂.flatMap v.entriesIn, ⟨?_, hs, ?_, hend, ?_⟩, ?_⟩
  · rw [Volume.slots, hss, List.flatMap_append, List.flatMap_cons, hs]
    simp
  · rw [hss]
    exact List.mem_append_right _ List.mem_cons_self
  · intro x hx hx'
    exact hbefore x hx (by rw [hx', Bool.true_or])
  · intro x hx hx'
    exact hbefore x hx (by rw [hx', Bool.or_true])

theorem EndSplit.entriesOf_eq (h : v.EndSplit d e before as bs behind) :
    v.entriesOf d = before ++ as := by
  rw [entriesOf, h.slots]
  exact takeWhile_before h.used h.isEnd

theorem EndSplit.behindEnd_eq (h : v.EndSplit d e before as bs behind) :
    v.behindEnd d = (bs ++ behind).takeWhile fun x => !x.isEnd := by
  rw [behindEnd, h.slots, List.dropWhile_append_of_pos fun x hx => by simpa using h.used x hx,
    List.dropWhile_cons_of_neg (by simpa using h.isEnd), List.tail_cons]

/-- A place of a directory has one entry, when it has no sector twice. -/
theorem slots_nodup (h : (v.sectors d).Nodup) :
    ((v.slots d).map fun e => (e.sector, e.index)).Nodup := by
  have hproduct : ((v.slots d).map fun e => (e.sector, e.index))
      = (v.sectors d).product (List.range 16) := by
    rw [slots, List.map_flatMap, List.product]
    refine List.flatMap_congr fun s _ => ?_
    rw [entriesIn, List.map_map]
    rfl
  rw [hproduct]
  exact h.product List.nodup_range

theorem sectors_root_nodup : (v.sectors .root).Nodup := List.nodup_range'

end End

/-! ### A changed entry -/

def withDisk (v : Volume) (disk : Disk) : Volume := { v with disk := disk.sectors }

/-- In the directory, the disk differs in one entry at most. -/
structure ButOne (v : Volume) (d : DirLoc) (disk : Disk) (e : DirEntry) : Prop where
  sectors : (v.withDisk disk).sectors d = v.sectors d
  bytes : ∀ s ∈ v.sectors d, ∀ i < 512,
    ¬ (s = e.sector ∧ 32 * e.index ≤ i ∧ i < 32 * e.index + 32) →
      disk.sectors (UInt32.ofNat s) i = v.disk (UInt32.ofNat s) i

/-- An entry of a directory with another one in the place of `e`. -/
def replaced (e : DirEntry) (fdir : FatDir) (x : DirEntry) : DirEntry :=
  if (x.sector, x.index) = (e.sector, e.index) then { e with fdir } else x

section Changed

variable {v : Volume} {d : DirLoc} {disk : Disk} {e : DirEntry}
  {before as bs behind : List DirEntry}

theorem slots_butOne (h : v.ButOne d disk e) :
    (v.withDisk disk).slots d
      = (v.slots d).map
          (replaced e (dirAt (disk.sectors (UInt32.ofNat e.sector)) (32 * e.index))) := by
  rw [slots, slots, List.map_flatMap, h.sectors]
  refine List.flatMap_congr fun s hs => ?_
  rw [entriesIn, entriesIn, List.map_map]
  refine List.map_congr_left fun i hi => ?_
  have hi16 := List.mem_range.mp hi
  rw [Function.comp_apply, replaced]
  dsimp only
  by_cases hplace : (s, i) = (e.sector, e.index)
  · rw [if_pos hplace]
    obtain ⟨rfl, rfl⟩ := Prod.mk.inj hplace
    rfl
  · rw [if_neg hplace]
    have hdir : dirAt (disk.sectors (UInt32.ofNat s)) (32 * i)
        = dirAt (v.disk (UInt32.ofNat s)) (32 * i) := by
      refine dirAt_congr fun j hj => h.bytes s hs _ (by omega) fun hin => hplace ?_
      rw [hin.1, (by omega : i = e.index)]
    exact congrArg (DirEntry.mk s i) hdir

/-- A directory with no sector twice, with another entry in the place of `e`. -/
theorem slots_replaced {as bs : List DirEntry} (hslots : v.slots d = as ++ e :: bs)
    (hsectors : (v.sectors d).Nodup) (h : v.ButOne d disk e) :
    (v.withDisk disk).slots d
      = as ++ { e with fdir := dirAt (disk.sectors (UInt32.ofNat e.sector)) (32 * e.index) }
          :: bs := by
  generalize hfdir : dirAt (disk.sectors (UInt32.ofNat e.sector)) (32 * e.index) = fdir
  have hnodup := slots_nodup hsectors
  rw [hslots, List.map_append, List.map_cons] at hnodup
  obtain ⟨-, hright, hdisjoint⟩ := List.nodup_append.mp hnodup
  have hleft : ∀ x ∈ as, replaced e fdir x = x := by
    intro x hx
    refine if_neg fun hplace => ?_
    exact hdisjoint _ (List.mem_map_of_mem hx) _ List.mem_cons_self hplace
  have hbehind : ∀ x ∈ bs, replaced e fdir x = x := by
    intro x hx
    refine if_neg fun hplace => ?_
    exact (List.nodup_cons.mp hright).1 (hplace ▸ List.mem_map_of_mem hx)
  have hself : replaced e fdir e = { e with fdir } := if_pos rfl
  rw [slots_butOne h, hfdir, hslots, List.map_append, List.map_cons,
    List.map_congr_left hleft, List.map_congr_left hbehind, List.map_id', List.map_id', hself]

/-- A new entry at the end: it comes behind the entries of the directory, with what stood
behind the end behind it. -/
theorem EndSplit.entriesOf_new (hsplit : v.EndSplit d e before as bs behind)
    (hsectors : (v.sectors d).Nodup) (h : v.ButOne d disk e)
    (hnew : nameFirst (dirAt (disk.sectors (UInt32.ofNat e.sector)) (32 * e.index)).name ≠ fdnEnd) :
    (v.withDisk disk).entriesOf d
      = v.entriesOf d ++
          { e with fdir := dirAt (disk.sectors (UInt32.ofNat e.sector)) (32 * e.index) }
          :: v.behindEnd d := by
  rw [entriesOf, slots_replaced hsplit.slots hsectors h, hsplit.entriesOf_eq, hsplit.behindEnd_eq,
    List.takeWhile_append_of_pos fun x hx => by simpa using hsplit.used x hx,
    List.takeWhile_cons_of_pos (by simpa [DirEntry.isEnd] using hnew)]

end Changed

end Volume

end Csos
