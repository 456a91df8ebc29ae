import Csos.FatPath

/-!
# The working directory (`kernel32/fs/fat.c`)

`fat_fs_chdir` keeps the place of a directory's entry, and `fat_fs_getcwd`
climbs from there to the root: it takes the second entry of each directory
for `..`, and looks in the parent for the entry that leads back.
-/

namespace Csos

open Lib Lib.Bytes

/-! ## The code -/

/-- What the loop of `fat_to_lfn` writes, from the character `i` of `src` on. -/
def fatToLfnLoop : Nat → Chars → Chars
  | _, [] => []
  | i, c :: src =>
      (if i = 7 then [0x2E] else []) ++ (if c = 0x20 then [] else [c - 0x41 + 0x61])
        ++ fatToLfnLoop (i + 1) src

/-- `dst` after `fat_to_lfn`: a point at the end becomes a NUL. -/
def fatToLfn (src : Vector (BitVec 8) 11) : Chars :=
  let written := fatToLfnLoop 0 src.toList
  let dst := written ++ List.replicate (11 - written.length) 0x20
  if written.getLast? = some 0x2E then dst.set (written.length - 1) 0 else dst

/-- `nbuf` as a string, unless it is stored past its end. -/
def PathStack.nbuf (stack : PathStack) (src : Vector (BitVec 8) 11) : Option Chars :=
  let dst := fatToLfn src
  if dst.length ≤ 11 then some ((dst ++ stack.behind).takeWhile fun c => c ≠ 0) else none

/-- The sector that `dirs[1]` leads up to. -/
def upSector (fat : FsFat) (pdir : FatDir) : UInt32 :=
  let sector := (UInt32.ofNat pdir.clusterH <<< 16) ||| (UInt32.ofNat pdir.clusterL - 2)
  if sector ≥ 0x80000000 then fat.rootStart else sector + fat.dataStart

/-- `data_start + (cluster_h << 16) | cluster_l - 2`. -/
def linkSector (fat : FsFat) (pdir : FatDir) : UInt32 :=
  (fat.dataStart + (UInt32.ofNat pdir.clusterH <<< 16)) ||| (UInt32.ofNat pdir.clusterL - 2)

/-- The scan of the parent for the entry that leads to the sector `lcnum`. -/
def findChild (fat : FsFat) (lcnum : UInt32) : List FatDir → Option FatDir
  | [] => none
  | pdir :: dirs =>
      if nameFirst pdir.name = fdnEnd then none
      else if nameFirst pdir.name = fdnFree then findChild fat lcnum dirs
      else if linkSector fat pdir = lcnum then some pdir
      else findChild fat lcnum dirs

/-- The variables of the loop of `read_fat_path`; `text` stands in `buf`. -/
structure Climb where
  sector : UInt32
  dirs : List FatDir
  text : Chars

inductive CwdEnd where
  | returned (err : Int) (buf : Chars)
  | fault

/-- Behind the loop. -/
def Climb.finish (text : Chars) : CwdEnd := .returned 0 (text ++ [0x2F]).reverse

def Climb.round (read : UInt32 → Option Bytes) (stack : PathStack) (fat : FsFat) (s : Climb) :
    Round Climb CwdEnd :=
  match s.dirs[1]? with
  | none => .leave .fault
  | some pdir =>
      let sector := upSector fat pdir
      match read sector with
      | none => .leave (.returned (-1) s.text)
      | some bytes =>
          let dirs := stack.read bytes fat.dcount
          let text :=
            match findChild fat s.sector dirs with
            | none => some s.text
            | some pdir => (stack.nbuf pdir.name).map fun nbuf => s.text ++ 0x2F :: nbuf.reverse
          match text with
          | none => .leave .fault
          | some text =>
              if sector > fat.rootStart then .again { sector, dirs, text }
              else .leave (Climb.finish text)

/-- `read_fat_path`, for a number of rounds of its loop. -/
def readFatPath (read : UInt32 → Option Bytes) (stack : PathStack) (fat : FsFat) (sector : UInt32)
    (offset n : Nat) : Option CwdEnd :=
  if sector = fat.rootStart ∧ offset = 0 then some (.returned 0 [0x2F])
  else
    match read sector with
    | none => some (.returned (-1) [])
    | some bytes =>
        let dirs := stack.read bytes fat.dcount
        match dirs[offset]?.bind fun pdir => stack.nbuf pdir.name with
        | none => some .fault
        | some nbuf =>
            loopFor (Climb.round read stack fat) n { sector, dirs, text := nbuf.reverse }

/-- `wd` of a task. -/
structure WorkDir where
  sector : Int
  offset : Int

def fatFsInitTaskWd (fat : FsFat) : WorkDir where
  sector := fat.rootStart.toNat
  offset := 0

def fatFsGetcwd (read : UInt32 → Option Bytes) (stack : PathStack) (fat : FsFat) (wd : WorkDir)
    (n : Nat) : Option (WorkDir × CwdEnd) :=
  let wd := if wd.sector ≤ 0 ∨ wd.offset ≤ 0 then fatFsInitTaskWd fat else wd
  (readFatPath read stack fat (UInt32.ofNat wd.sector.toNat) wd.offset.toNat n).map fun r => (wd, r)

inductive ChdirEnd where
  | returned (err : Int) (wd : WorkDir) (fat : FsFat)
  | fault (f : PathFault)

def fatFsChdir (read : UInt32 → Option Bytes) (stack : PathStack) (fat : FsFat) (wd : WorkDir)
    (path : Chars) (n : Nat) : Option ChdirEnd :=
  (readFatPathCluster read stack fat path 0 0 n).map fun r =>
    match r with
    | .fault f => .fault f
    | .returned _ sector offset fat =>
        if sector ≥ fatClusterInvalid.toNat then .returned (-1) wd fat
        else .returned 0 ⟨sector, offset⟩ fat

/-! ## Names -/

/-- A name of one to seven small letters. -/
def Name83.isPlain (n : Name83) : Bool :=
  n.ext = [] ∧ n.base.length ≤ 7 ∧ ∀ c ∈ n.base, 0x61 ≤ c ∧ c ≤ 0x7A

theorem upperChar_small :
    ∀ c : BitVec 8, 0x61 ≤ c → c ≤ 0x7A →
      upperChar c ≠ 0x20 ∧ upperChar c - 0x41 + 0x61 = c := by
  decide

theorem fatToLfnLoop_blank {i k : Nat} :
    fatToLfnLoop i (List.replicate k 0x20) = if i ≤ 7 ∧ 7 < i + k then [0x2E] else [] := by
  induction k generalizing i with
  | zero =>
      have h : ¬ (i ≤ 7 ∧ 7 < i + 0) := by omega
      rw [if_neg h]
      rfl
  | succ k ih =>
      rw [List.replicate_succ, fatToLfnLoop, if_pos rfl, ih, List.append_nil]
      by_cases hi : i = 7
      · have hout : ¬ (i + 1 ≤ 7 ∧ 7 < i + 1 + k) := by omega
        have hin : i ≤ 7 ∧ 7 < i + (k + 1) := by omega
        rw [if_pos hi, if_neg hout, if_pos hin]
        rfl
      · rw [if_neg hi, List.nil_append]
        have hiff : (i + 1 ≤ 7 ∧ 7 < i + 1 + k) ↔ (i ≤ 7 ∧ 7 < i + (k + 1)) := by omega
        simp only [hiff]

/-- Small letters come back from a directory as they stand in a path. -/
theorem fatToLfnLoop_small {cs : Chars} {i k : Nat} (hcs : ∀ c ∈ cs, 0x61 ≤ c ∧ c ≤ 0x7A)
    (hi : i + cs.length ≤ 7) (hk : 7 < i + cs.length + k) :
    fatToLfnLoop i (cs.map upperChar ++ List.replicate k 0x20) = cs ++ [0x2E] := by
  induction cs generalizing i with
  | nil =>
      rw [List.map_nil, List.nil_append, fatToLfnLoop_blank]
      exact if_pos ⟨by simpa using hi, by simpa using hk⟩
  | cons c cs ih =>
      rw [List.length_cons] at hi hk
      obtain ⟨hlow, hhigh⟩ := hcs c List.mem_cons_self
      obtain ⟨hblank, hback⟩ := upperChar_small c hlow hhigh
      have hne : i ≠ 7 := by omega
      rw [List.map_cons, List.cons_append, fatToLfnLoop, if_neg hne, if_neg hblank, hback,
        ih (fun b hb => hcs b (List.mem_cons_of_mem c hb)) (by omega) (by omega)]
      rfl

/-- A name without an extension, as a list of characters. -/
theorem entryName_toList {n : Name83} (hext : n.ext = []) :
    n.entryName.toList = n.base.map upperChar ++ List.replicate (11 - n.base.length) 0x20 := by
  have hlen := n.base_length
  refine List.ext_getElem (by simp; omega) fun i hi hi' => ?_
  rw [Vector.getElem_toList, n.getElem_entryName]
  have hget : (if i < 8 then (n.base.map upperChar).getD i 0x20
      else (n.ext.map upperChar).getD (i - 8) 0x20) = (n.base.map upperChar).getD i 0x20 := by
    by_cases h8 : i < 8
    · rw [if_pos h8]
    · rw [if_neg h8, hext, List.map_nil, List.getD_nil,
        List.getD_eq_default _ _ (by rw [List.length_map]; omega)]
  rw [hget]
  by_cases hlt : i < (n.base.map upperChar).length
  · rw [List.getElem_append_left hlt, List.getD_eq_getElem _ _ hlt]
  · rw [List.getElem_append_right (Nat.le_of_not_lt hlt), List.getElem_replicate,
      List.getD_eq_default _ _ (Nat.le_of_not_lt hlt)]

theorem nbuf_of_isPlain {n : Name83} (stack : PathStack) (h : n.isPlain) :
    stack.nbuf n.entryName = some n.text := by
  obtain ⟨hext, hlen, hchars⟩ := of_decide_eq_true h
  have hwritten : fatToLfnLoop 0 n.entryName.toList = n.base ++ [0x2E] := by
    rw [entryName_toList hext]
    exact fatToLfnLoop_small hchars (by omega) (by omega)
  have hlfn : fatToLfn n.entryName
      = n.base ++ 0 :: List.replicate (11 - (n.base.length + 1)) 0x20 := by
    rw [fatToLfn, hwritten, if_pos (by simp), List.length_append, List.length_singleton,
      Nat.add_sub_cancel, List.append_assoc, List.set_append_right _ _ (Nat.le_refl _),
      Nat.sub_self]
    rfl
  have hzero : ∀ c ∈ n.base, decide (c ≠ 0) = true := by
    intro c hc
    exact decide_eq_true (n.base_chars c hc).1
  have hstring : ∀ rest,
      (n.base ++ 0 :: rest).takeWhile (fun c : BitVec 8 => c ≠ 0) = n.base := by
    intro rest
    rw [List.takeWhile_append_of_pos hzero, List.takeWhile_cons]
    simp
  have htext : n.text = n.base := if_pos hext
  rw [PathStack.nbuf, hlfn, if_pos (by simp; omega), List.append_assoc, List.cons_append, hstring,
    htext]

/-! ## Climbing -/

/-- The path of a list of names: no slash stands behind it, but `/` alone. -/
def cwdPath (names : List Name83) : AbsPath where
  names := names
  slash := names.isEmpty
  ne_nil := by rintro rfl; rfl

namespace Volume

variable (v : Volume) (stack : PathStack)

/-- The first sector of the directory above: the root, or the first one that
the code addresses. -/
def parentSector : List (Name83 × DirEntry) → UInt32
  | [] => v.fat.rootStart
  | (_, e) :: _ => v.codeSector e.fdir.cluster

/-- `dirs[1]` of a sector. -/
def second (s : UInt32) : FatDir := dirAt (v.disk s) 32

/-- The directories of a path from the lowest up can be climbed: `..` of each
leads to the first sector of its parent, where the first entry that leads
back is its own, and the names come back as they are. -/
def climbable : List (Name83 × DirEntry) → Bool
  | [] => true
  | (n, e) :: above =>
      n.isPlain
      ∧ upSector v.fat (v.second (v.codeSector e.fdir.cluster)) = v.parentSector above
      ∧ (above ≠ [] → v.parentSector above > v.fat.rootStart)
      ∧ findChild v.fat (v.codeSector e.fdir.cluster)
          (stack.read (v.disk (v.parentSector above)) v.fat.dcount) = some e.fdir
      ∧ climbable above

/-- What the climb leaves in `buf`. -/
def climbText (above : List (Name83 × DirEntry)) : Chars :=
  above.flatMap fun ne => ne.1.text.reverse ++ [0x2F]

variable {v stack}

theorem dirs_get {s : UInt32} {i : Nat} (hi : i < 16) :
    (stack.read (v.disk s) v.fat.dcount)[i]? = some (dirAt (v.disk s) (32 * i)) := by
  have hpos := v.spc_ne_zero
  rw [v.dcount_eq, PathStack.read, List.getElem?_map, List.getElem?_range (by omega),
    Option.map_some, if_pos hi]

/-- A round that finds its way back in the parent. -/
theorem climb_round {s : UInt32} {fdir : FatDir} {nbuf : Chars} (text : Chars)
    (hchild : findChild v.fat s
      (stack.read (v.disk (upSector v.fat (v.second s))) v.fat.dcount) = some fdir)
    (hnbuf : stack.nbuf fdir.name = some nbuf) :
    Climb.round v.read stack v.fat
        { sector := s, dirs := stack.read (v.disk s) v.fat.dcount, text := text }
      = if upSector v.fat (v.second s) > v.fat.rootStart then
          .again {
            sector := upSector v.fat (v.second s)
            dirs := stack.read (v.disk (upSector v.fat (v.second s))) v.fat.dcount
            text := text ++ 0x2F :: nbuf.reverse }
        else .leave (Climb.finish (text ++ 0x2F :: nbuf.reverse)) := by
  rw [Climb.round, dirs_get (by decide)]
  dsimp only [read]
  rw [← second, hchild]
  dsimp only
  rw [hnbuf]
  rfl

theorem climbText_cons {n : Name83} {e : DirEntry} {above : List (Name83 × DirEntry)} :
    climbText ((n, e) :: above) = n.text.reverse ++ 0x2F :: climbText above := by
  rw [climbText, List.flatMap_cons, List.append_assoc]
  rfl

/-- The climb from the first sector of a directory, by induction on the
directories above it. -/
theorem climb_ends {above : List (Name83 × DirEntry)} {n : Name83} {e : DirEntry} {text : Chars}
    (hnamed : ∀ ne ∈ (n, e) :: above, ne.2.fdir.name = ne.1.entryName)
    (h : v.climbable stack ((n, e) :: above)) :
    Ends (Climb.round v.read stack v.fat)
      { sector := v.codeSector e.fdir.cluster
        dirs := stack.read (v.disk (v.codeSector e.fdir.cluster)) v.fat.dcount
        text := text }
      (.returned 0 (text ++ 0x2F :: climbText ((n, e) :: above)).reverse) := by
  induction above generalizing n e text with
  | nil =>
      obtain ⟨hplain, hup, -, hchild, -⟩ := of_decide_eq_true h
      rw [← hup] at hchild
      have hname := hnamed (n, e) List.mem_cons_self
      have hround := climb_round text hchild
        (by rw [hname]; exact nbuf_of_isPlain stack hplain)
      rw [hup, parentSector, if_neg (UInt32.lt_irrefl _)] at hround
      have hfinish := Ends.of_leave hround
      rw [Climb.finish, List.append_assoc, List.cons_append] at hfinish
      rw [climbText_cons]
      exact hfinish
  | cons ne above ih =>
      obtain ⟨hplain, hup, hroot, hchild, habove⟩ := of_decide_eq_true h
      rw [← hup] at hchild
      have hname := hnamed (n, e) List.mem_cons_self
      have hround := climb_round text hchild
        (by rw [hname]; exact nbuf_of_isPlain stack hplain)
      rw [hup, if_pos (hroot (List.cons_ne_nil _ _))] at hround
      have hnext := @ih ne.1 ne.2 (text ++ 0x2F :: n.text.reverse)
        (fun ne' h' => hnamed ne' (List.mem_cons_of_mem (n, e) h')) habove
      rw [List.append_assoc, List.cons_append] at hnext
      rw [ends_again_iff hround, climbText_cons]
      exact hnext

/-- The text of the climb is the path backwards. -/
theorem reverse_climbText {names : List Name83} {es : List DirEntry}
    (h : names.length = es.length) :
    (climbText (names.zip es).reverse).reverse = pathText false names := by
  have hpath : ∀ names : List Name83,
      pathText false names = names.flatMap fun n => 0x2F :: n.text := by
    intro names
    induction names with
    | nil => rfl
    | cons n names ih => rw [pathText, ih]; rfl
  have hfst : (names.zip es).map Prod.fst = names := List.map_fst_zip h.le
  rw [climbText, List.reverse_flatMap, List.reverse_reverse, hpath]
  conv_rhs => rw [← hfst, List.flatMap_map]
  refine List.flatMap_congr fun ne _ => ?_
  simp

/-! ## The law -/

variable (v stack)

/-- The way up from the entry of a path. -/
def cwdClimbs : List (Name83 × DirEntry) → Bool
  | [] => false
  | [(n, e)] =>
      n.isPlain ∧ upSector v.fat (v.second (UInt32.ofNat e.sector)) = v.fat.rootStart
      ∧ findChild v.fat (UInt32.ofNat e.sector)
          (stack.read (v.disk v.fat.rootStart) v.fat.dcount) = none
  | (n, e) :: (n', e') :: above =>
      n.isPlain ∧ UInt32.ofNat e.sector = v.codeSector e'.fdir.cluster
      ∧ v.climbable stack ((n', e') :: above)

/-- The outlook for the working directory: the search for the path meets its
own outlook, and the climb leads back. -/
def cwdOutlook (stack' : PathStack) (names : List Name83) : Outlook :=
  if names = [] then .meets
  else if v.pathOutlook stack (cwdPath names) ≠ .meets then .strays
  else
    match v.resolve names with
    | none => .meets
    | some e =>
        if treeType e.fdir ≠ .dir ∨ e.index = 0 then .breaks
        else
          match trail v.find enter .root names with
          | none => .strays
          | some es => if v.cwdClimbs stack' (names.zip es).reverse then .meets else .strays

/-- When `fat_fs_chdir` returns 0 the path names a directory, and
`fat_fs_getcwd` gives it back. -/
def RoundTrips (stack' : PathStack) (wd : WorkDir) (names : List Name83) : Prop :=
  ∀ rounds wd' fat', fatFsChdir v.read stack v.fat wd (cwdPath names).text rounds
      = some (.returned 0 wd' fat') →
    (names = [] ∨ ∃ e, v.resolve names = some e ∧ treeType e.fdir = .dir)
    ∧ ∃ rounds' wd'', fatFsGetcwd v.read stack' fat' wd' rounds'
        = some (wd'', .returned 0 (cwdPath names).text)

variable {v stack} {stack' : PathStack} {wd : WorkDir} {names : List Name83}

/-! ### What `fat_fs_chdir` keeps -/

/-- The volume is the same, with the cache in some state. -/
def SameVolume (fat fat' : FsFat) : Prop := ∃ buf pcs, fat' = { fat with buf, pcs }

theorem SameVolume.refl (fat : FsFat) : SameVolume fat fat := ⟨fat.buf, fat.pcs, rfl⟩

theorem SameVolume.trans {fat fat' fat'' : FsFat} (h : SameVolume fat fat')
    (h' : SameVolume fat' fat'') : SameVolume fat fat'' := by
  obtain ⟨buf, pcs, rfl⟩ := h
  obtain ⟨buf', pcs', rfl⟩ := h'
  exact ⟨buf', pcs', rfl⟩

theorem sameVolume_bread (read : UInt32 → Option Bytes) (fat : FsFat) (sector : UInt32) :
    SameVolume fat (fsBread read fat sector).1 := by
  unfold fsBread
  split
  · exact .refl fat
  · split
    · exact ⟨_, _, rfl⟩
    · exact .refl fat

theorem sameVolume_next (read : UInt32 → Option Bytes) (fat : FsFat) (cc : UInt16) :
    SameVolume fat (fatNextCluster read fat cc).1 := by
  unfold fatNextCluster
  dsimp only
  split_ifs
  · exact .refl fat
  · exact .refl fat
  · have h := sameVolume_bread read fat
      (fat.fatStart + UInt32.ofNat (cc.toNat * 2 / fat.bps.toNat))
    split
    all_goals
      next hread =>
        rw [hread] at h
        exact h
  · exact .refl fat

/-- What holds all along a search: the sector it has passed is valid. -/
structure Kept (fat : FsFat) (s : Search) : Prop where
  volume : SameVolume fat s.fat
  sector : s.sector < fatClusterInvalid.toNat

/-- What holds of its result. -/
def KeptEnd (fat : FsFat) : PathEnd → Prop
  | .returned type sector _ fat' =>
      SameVolume fat fat' ∧ (type ≠ .unknown → sector < fatClusterInvalid.toNat)
  | .fault _ => True

def KeptRound (fat : FsFat) : Round Search PathEnd → Prop
  | .leave r => KeptEnd fat r
  | .again s => Kept fat s

theorem kept_finish {fat : FsFat} {s : Search} (h : Kept fat s) : KeptEnd fat s.finish := by
  unfold Search.finish
  split
  · exact ⟨h.volume, fun hne => absurd rfl hne⟩
  · exact ⟨h.volume, fun _ => h.sector⟩

theorem kept_scanned {read : UInt32 → Option Bytes} {path suffix : Chars} {fat : FsFat}
    {s : Search} (h : Kept fat s) (hsc : s.sc < fatClusterInvalid) (scan : Scan) :
    KeptRound fat (s.scanned read path suffix scan) := by
  have hlt : (s.sc.toNat : Int) < fatClusterInvalid.toNat :=
    Int.ofNat_lt.mpr (UInt32.lt_iff_toNat_lt.mp hsc)
  cases scan with
  | file i => exact ⟨h.volume, fun _ => hlt⟩
  | dir i fdir => exact ⟨h.volume, hlt⟩
  | foundEnd => exact ⟨h.volume, fun hne => absurd rfl hne⟩
  | notFound => exact ⟨h.volume.trans (sameVolume_next read s.fat _), h.sector⟩

theorem kept_round (read : UInt32 → Option Bytes) (stack : PathStack) (path : Chars)
    {fat : FsFat} {s : Search} (h : Kept fat s) : KeptRound fat (s.round read stack path) := by
  unfold Search.round
  split
  · next hsc =>
      split
      · exact kept_finish h
      · split
        · trivial
        · split
          · exact ⟨h.volume, fun hne => absurd rfl hne⟩
          · exact kept_scanned h hsc _
  · exact kept_finish h

theorem kept_ends {path : Chars} {fat : FsFat} {s : Search} {r : PathEnd} (h : Kept fat s)
    (hr : Ends (Search.round v.read stack path) s r) : KeptEnd fat r := by
  refine hr.invariant (I := Kept fat) (fun s s' hs hround => ?_) (fun s r hs hround => ?_) h
  · have := kept_round v.read stack path hs
    rwa [hround] at this
  · have := kept_round v.read stack path hs
    rwa [hround] at this

/-! ### `fat_fs_chdir` -/

/-- The search of a path that `fat_fs_chdir` makes. -/
def pathSearch (v : Volume) (names : List Name83) : Search where
  suffix := (cwdPath names).text
  sc := v.fat.rootStart
  sector := 0
  offset := 0
  fat := v.fat

theorem kept_start : Kept v.fat (v.pathSearch names) where
  volume := .refl v.fat
  sector := (by decide : (0 : Int) < fatClusterInvalid.toNat)

theorem readFatPathCluster_search (hnames : names ≠ []) (rounds : Nat) :
    readFatPathCluster v.read stack v.fat (cwdPath names).text 0 0 rounds
      = loopFor (Search.round v.read stack (cwdPath names).text) rounds (v.pathSearch names) := by
  obtain ⟨n, names', rfl⟩ := List.exists_cons_of_ne_nil hnames
  have hcmp : kernelStrcmp (cwdPath (n :: names')).text [0x2F] ≠ 0 := kernelStrcmp_slash
  rw [readFatPathCluster, if_neg hcmp]
  rfl

/-- A `chdir` that succeeds keeps the place that the search comes to. -/
theorem chdir_eq_zero (hnames : names ≠ []) {rounds : Nat} {wd' : WorkDir} {fat' : FsFat}
    (h : fatFsChdir v.read stack v.fat wd (cwdPath names).text rounds
      = some (.returned 0 wd' fat')) :
    ∃ type, Ends (Search.round v.read stack (cwdPath names).text) (v.pathSearch names)
        (.returned type wd'.sector wd'.offset fat')
      ∧ wd'.sector < fatClusterInvalid.toNat := by
  rw [fatFsChdir, readFatPathCluster_search hnames] at h
  obtain ⟨r, hr, hend⟩ := Option.map_eq_some_iff.mp h
  cases r with
  | fault f => cases hend
  | returned type sector offset fat =>
      dsimp only at hend
      split at hend
      · cases hend
      · next hlt =>
          cases hend
          exact ⟨type, ⟨rounds, hr⟩, Int.not_le.mp hlt⟩

/-- A search that finds an entry makes `chdir` succeed. -/
theorem chdir_of_ends (wd : WorkDir) (hnames : names ≠ []) {type : FatType}
    {sector offset : Int} {fat' : FsFat}
    (h : Ends (Search.round v.read stack (cwdPath names).text) (v.pathSearch names)
      (.returned type sector offset fat')) (hlt : sector < fatClusterInvalid.toNat) :
    ∃ rounds, fatFsChdir v.read stack v.fat wd (cwdPath names).text rounds
      = some (.returned 0 ⟨sector, offset⟩ fat') := by
  obtain ⟨rounds, hr⟩ := h
  refine ⟨rounds, ?_⟩
  rw [fatFsChdir, readFatPathCluster_search hnames, hr, Option.map_some]
  dsimp only
  rw [if_neg (Int.not_le.mpr hlt)]

/-! ### `fat_fs_getcwd` -/

theorem findChild_sameVolume {fat : FsFat} {buf : Bytes} {pcs lcnum : UInt32}
    {dirs : List FatDir} :
    findChild { fat with buf, pcs } lcnum dirs = findChild fat lcnum dirs := by
  induction dirs with
  | nil => rfl
  | cons pdir dirs ih =>
      rw [findChild, findChild, ih]
      rfl

/-- The climb does not look at the cache. -/
theorem climbRound_sameVolume {read : UInt32 → Option Bytes} {fat : FsFat} {buf : Bytes}
    {pcs : UInt32} :
    Climb.round read stack { fat with buf, pcs } = Climb.round read stack fat := by
  funext s
  unfold Climb.round
  simp only [findChild_sameVolume]
  rfl

/-- An entry stands where it says. -/
theorem entry_of_lookIn {p : DirEntry → Bool} {ss : List Nat} {e : DirEntry}
    (h : v.lookIn p ss = some e) :
    e.index < 16 ∧ e.fdir = dirAt (v.disk (UInt32.ofNat e.sector)) (32 * e.index) := by
  obtain ⟨s, -, hmem⟩ := List.mem_flatMap.mp (lookAmong_some h).1
  obtain ⟨i, hi, rfl⟩ := List.mem_map.mp hmem
  exact ⟨List.mem_range.mp hi, rfl⟩

/-- No directory has the boot record among its sectors. -/
theorem sector_pos {d : DirLoc} {n : Name83} {e : DirEntry} (h : v.find d n = some e) :
    0 < e.sector := by
  have hroot := v.two_le_rootStart
  have hmem := (lookIn_some h).1
  cases d with
  | root =>
      have := List.mem_range'_1.mp hmem
      omega
  | cluster c =>
      obtain ⟨c', -, hc'⟩ := List.mem_flatMap.mp hmem
      have hdata := v.dataStart_eq
      have := List.mem_range'_1.mp hc'
      omega

/-- The climb of a path with one name: nothing leads back to the root. -/
theorem climb_root {s : UInt32} {text : Chars}
    (hup : upSector v.fat (v.second s) = v.fat.rootStart)
    (hchild : findChild v.fat s (stack.read (v.disk v.fat.rootStart) v.fat.dcount) = none) :
    Climb.round v.read stack v.fat
        { sector := s, dirs := stack.read (v.disk s) v.fat.dcount, text := text }
      = .leave (Climb.finish text) := by
  rw [Climb.round, dirs_get (by decide)]
  dsimp only [read]
  rw [← second, hup, hchild]
  dsimp only
  rw [if_neg (UInt32.lt_irrefl _)]

/-- From the entry of a path that can be climbed the climb gives the path. -/
theorem getcwd_climbs {fat' : FsFat} {n : Name83} {e : DirEntry}
    {above : List (Name83 × DirEntry)} (hfat : SameVolume v.fat fat') (hsector : 0 < e.sector)
    (hindex : 0 < e.index ∧ e.index < 16)
    (hdir : e.fdir = dirAt (v.disk (UInt32.ofNat e.sector)) (32 * e.index))
    (hnamed : ∀ ne ∈ (n, e) :: above, ne.2.fdir.name = ne.1.entryName)
    (h : v.cwdClimbs stack ((n, e) :: above)) :
    ∃ rounds wd', fatFsGetcwd v.read stack fat' ⟨e.sector, e.index⟩ rounds
      = some (wd', .returned 0 (climbText ((n, e) :: above)).reverse) := by
  obtain ⟨buf, pcs, rfl⟩ := hfat
  have hplain : n.isPlain := by
    cases above with
    | nil => exact (of_decide_eq_true h).1
    | cons ne above => exact (of_decide_eq_true h).1
  have hname : e.fdir.name = n.entryName := hnamed (n, e) List.mem_cons_self
  have hends : Ends (Climb.round v.read stack v.fat)
      { sector := UInt32.ofNat e.sector
        dirs := stack.read (v.disk (UInt32.ofNat e.sector)) v.fat.dcount
        text := n.text.reverse }
      (.returned 0 (climbText ((n, e) :: above)).reverse) := by
    rw [climbText_cons]
    cases above with
    | nil =>
        obtain ⟨-, hup, hchild⟩ := of_decide_eq_true h
        exact Ends.of_leave (climb_root hup hchild)
    | cons ne above =>
        obtain ⟨-, hfirst, habove⟩ := of_decide_eq_true h
        rw [hfirst]
        exact climb_ends (fun ne' h' => hnamed ne' (List.mem_cons_of_mem (n, e) h')) habove
  obtain ⟨rounds, hrounds⟩ := hends
  have hwd : ¬ ((e.sector : Int) ≤ 0 ∨ (e.index : Int) ≤ 0) := by omega
  refine ⟨rounds, ⟨e.sector, e.index⟩, ?_⟩
  have hread : readFatPath v.read stack { v.fat with buf, pcs } (UInt32.ofNat e.sector) e.index
      rounds = some (.returned 0 (climbText ((n, e) :: above)).reverse) := by
    have hroot : ¬ (UInt32.ofNat e.sector = v.fat.rootStart ∧ e.index = 0) := by omega
    have hget : (stack.read (v.disk (UInt32.ofNat e.sector)) v.fat.dcount)[e.index]?
        = some e.fdir := by rw [dirs_get hindex.2, hdir]
    rw [readFatPath, if_neg hroot, climbRound_sameVolume]
    dsimp only [read]
    have hdcount : FsFat.dcount { v.fat with buf, pcs } = v.fat.dcount := rfl
    rw [hdcount, hget, Option.bind_some, hname, nbuf_of_isPlain stack hplain]
    exact hrounds
  rw [fatFsGetcwd]
  dsimp only
  rw [if_neg hwd]
  dsimp only [Int.toNat_natCast]
  rw [hread]
  rfl

/-- From the start `getcwd` gives the root. -/
theorem getcwd_start {fat' : FsFat} (hwd : wd.sector ≤ 0 ∨ wd.offset ≤ 0) (rounds : Nat) :
    fatFsGetcwd v.read stack fat' wd rounds
      = some (fatFsInitTaskWd fat', .returned 0 [0x2F]) := by
  have hroot : UInt32.ofNat (fatFsInitTaskWd fat').sector.toNat = fat'.rootStart :=
    UInt32.ofNat_toNat
  rw [fatFsGetcwd, if_pos hwd, readFatPath, if_pos ⟨hroot, rfl⟩]
  rfl

/-! ### The round trip -/

theorem cwdPath_text (hnames : names ≠ []) : (cwdPath names).text = pathText false names := by
  have hslash : (cwdPath names).slash = false := List.isEmpty_eq_false_iff.mpr hnames
  rw [AbsPath.text, hslash]
  rfl

/-- `/` is kept as 0, 0 and comes back as the root. -/
theorem roundTrips_root : v.RoundTrips stack stack' wd [] := by
  intro rounds wd' fat' h
  have hwd : wd' = ⟨0, 0⟩ := by
    cases h
    rfl
  subst hwd
  exact ⟨Or.inl rfl, 0, _, getcwd_start (Or.inl (le_refl 0)) 0⟩

/-- A path that names nothing is refused. -/
theorem roundTrips_none (hnames : names ≠ [])
    (h : v.Meets stack (cwdPath names).text none (v.pathSearch names)) :
    v.RoundTrips stack stack' wd names := by
  intro rounds wd' fat' hchdir
  obtain ⟨type, hends, hlt⟩ := chdir_eq_zero hnames hchdir
  obtain ⟨r, hr, ha⟩ := h
  obtain rfl := hr.unique hends
  have hsector := ha.2
  omega

/-- The entries on the way to a directory, from the lowest up. -/
theorem climbed_trail {e : DirEntry} {es : List DirEntry} (hnames : names ≠ [])
    (htrail : trail v.find enter .root names = some es) (he : v.resolve names = some e) :
    ∃ n above, (names.zip es).reverse = (n, e) :: above
      ∧ ∀ ne ∈ (n, e) :: above, ne.2.fdir.name = ne.1.entryName := by
  have hlen := length_of_trail htrail
  have hlast := walk_of_trail htrail
  rw [← resolve, he] at hlast
  have hzip := forall₂_of_trail (P := fun n e => e.fdir.name = n.entryName)
    (fun d n e hfind => (of_decide_eq_true (lookIn_some hfind).2).2.1) htrail
  obtain ⟨es', rfl⟩ : ∃ es', es = es' ++ [e] :=
    ⟨es.dropLast, (List.dropLast_append_getLast? e hlast.symm).symm⟩
  obtain ⟨names', n, rfl⟩ : ∃ names' n, names = names' ++ [n] :=
    ⟨names.dropLast, names.getLast hnames, (List.dropLast_append_getLast hnames).symm⟩
  have hlen' : names'.length = es'.length := by simpa using hlen
  have hrev : ((names' ++ [n]).zip (es' ++ [e])).reverse = (n, e) :: (names'.zip es').reverse := by
    rw [List.zip_append hlen', List.reverse_append]
    rfl
  refine ⟨n, _, hrev, ?_⟩
  rintro ⟨n', e'⟩ hmem
  rw [← hrev, List.mem_reverse] at hmem
  exact (List.forall₂_iff_zip.mp hzip).2 hmem

/-- A directory whose way up can be climbed comes back. -/
theorem roundTrips_dir {e : DirEntry} {es : List DirEntry} (hnames : names ≠ [])
    (h : v.Meets stack (cwdPath names).text (some e) (v.pathSearch names))
    (he : v.resolve names = some e) (hdir : treeType e.fdir = .dir) (hindex : e.index ≠ 0)
    (htrail : trail v.find enter .root names = some es)
    (hclimbs : v.cwdClimbs stack' (names.zip es).reverse) :
    v.RoundTrips stack stack' wd names := by
  intro rounds wd' fat' hchdir
  obtain ⟨type, hends, -⟩ := chdir_eq_zero hnames hchdir
  obtain ⟨r, hr, ha⟩ := h
  obtain rfl := hr.unique hends
  obtain ⟨-, hsector, hoffset⟩ := ha
  have hkept : KeptEnd v.fat (.returned type wd'.sector wd'.offset fat') :=
    kept_ends kept_start hends
  obtain ⟨n, above, hzip, hnamed⟩ := climbed_trail hnames htrail he
  obtain ⟨d, n', hfind⟩ := exists_find_of_walk he
  obtain ⟨hlt, hfdir⟩ := entry_of_lookIn hfind
  have hwd : wd' = ⟨e.sector, e.index⟩ := by
    rw [← hsector, ← hoffset]
  refine ⟨Or.inr ⟨e, he, hdir⟩, ?_⟩
  rw [hzip] at hclimbs
  obtain ⟨rounds', wd'', hget⟩ := getcwd_climbs hkept.1 (sector_pos hfind)
    ⟨Nat.pos_of_ne_zero hindex, hlt⟩ hfdir hnamed hclimbs
  refine ⟨rounds', wd'', ?_⟩
  rw [hwd, hget, ← hzip, reverse_climbText (length_of_trail htrail), cwdPath_text hnames]

/-- A file, or the first entry of its sector, does not come back. -/
theorem not_roundTrips {e : DirEntry} (hnames : names ≠ [])
    (h : v.Meets stack (cwdPath names).text (some e) (v.pathSearch names))
    (he : v.resolve names = some e) (hbad : treeType e.fdir ≠ .dir ∨ e.index = 0) :
    ¬ v.RoundTrips stack stack' wd names := by
  intro hlaw
  obtain ⟨r, hr, ha⟩ := h
  have hkept : KeptEnd v.fat r := kept_ends kept_start hr
  cases r with
  | fault f => exact ha
  | returned type sector offset fat' =>
      obtain ⟨htype, hsector, hoffset⟩ := ha
      have hlt := hkept.2 (by rw [htype]; exact treeType_of_walk he)
      obtain ⟨rounds, hchdir⟩ := chdir_of_ends wd hnames hr hlt
      obtain ⟨hdir, rounds', wd'', hget⟩ := hlaw rounds _ fat' hchdir
      rcases hbad with hfile | hindex
      · rcases hdir with hnil | ⟨e', he', hdir⟩
        · exact hnames hnil
        · obtain rfl := Option.some.inj (he.symm.trans he')
          exact hfile hdir
      · have hzero : offset ≤ 0 := by rw [hoffset, hindex]; exact le_refl 0
        rw [getcwd_start (Or.inr hzero), cwdPath_text hnames] at hget
        obtain ⟨n, names', rfl⟩ := List.exists_cons_of_ne_nil hnames
        cases htext : n.text with
        | nil => exact n.text_ne_nil htext
        | cons c text =>
            rw [pathText, htext] at hget
            cases hget

variable (v stack stack' wd names)

/-- `fat_fs_chdir` and `fat_fs_getcwd` agree on a path that meets its outlook,
and not on one that breaks. -/
theorem chdir_law :
    (v.cwdOutlook stack stack' names = .meets → v.RoundTrips stack stack' wd names)
    ∧ (v.cwdOutlook stack stack' names = .breaks → ¬ v.RoundTrips stack stack' wd names) := by
  rw [cwdOutlook]
  by_cases hnames : names = []
  · rw [if_pos hnames, hnames]
    exact ⟨fun _ => roundTrips_root, nofun⟩
  rw [if_neg hnames]
  by_cases hpath : v.pathOutlook stack (cwdPath names) = .meets
  · have hmeets : v.Meets stack (cwdPath names).text (v.resolve names) (v.pathSearch names) :=
      (borne_path hnames).1 hpath
    rw [if_neg (not_not.mpr hpath)]
    cases he : v.resolve names with
    | none =>
        rw [he] at hmeets
        exact ⟨fun _ => roundTrips_none hnames hmeets, nofun⟩
    | some e =>
        rw [he] at hmeets
        dsimp only
        by_cases hbad : treeType e.fdir ≠ .dir ∨ e.index = 0
        · rw [if_pos hbad]
          exact ⟨nofun, fun _ => not_roundTrips hnames hmeets he hbad⟩
        obtain ⟨hdir, hindex⟩ := not_or.mp hbad
        rw [if_neg hbad]
        cases htrail : trail v.find enter .root names with
        | none => exact ⟨nofun, nofun⟩
        | some es =>
            dsimp only
            by_cases hclimbs : v.cwdClimbs stack' (names.zip es).reverse
            · rw [if_pos hclimbs]
              exact ⟨fun _ => roundTrips_dir hnames hmeets he (not_not.mp hdir) hindex htrail
                hclimbs, nofun⟩
            · rw [if_neg hclimbs]
              exact ⟨nofun, nofun⟩
  · rw [if_pos hpath]
    exact ⟨nofun, nofun⟩

end Volume

/-- `/a/b` comes back. -/
theorem Volume.chdir_law_small :
    smallVolume.RoundTrips clearStack clearStack ⟨-1, -1⟩ [nameA, nameB] :=
  (Volume.chdir_law smallVolume clearStack clearStack ⟨-1, -1⟩ [nameA, nameB]).1
    (by decide +kernel)

/-- `/f` is a file, and `fat_fs_chdir` takes it. -/
theorem Volume.chdir_law_file :
    ¬ ∀ (v : Volume) (stack stack' : PathStack) (wd : WorkDir) (names : List Name83),
      v.RoundTrips stack stack' wd names := by
  intro h
  have hmeets : smallVolume.Meets clearStack (cwdPath [nameF]).text
      (smallVolume.resolve [nameF]) (smallVolume.pathSearch [nameF]) :=
    (Volume.borne_path (List.cons_ne_nil _ _)).1 (by decide +kernel)
  have hfound : ∃ e, smallVolume.resolve [nameF] = some e ∧ treeType e.fdir ≠ .dir := by
    refine ⟨⟨3, 1, dirAt (smallVolume.disk 3) 32⟩, ?_, ?_⟩
    all_goals decide +kernel
  obtain ⟨e, he, hfile⟩ := hfound
  rw [he] at hmeets
  exact Volume.not_roundTrips (List.cons_ne_nil _ _) hmeets he (Or.inl hfile)
    (h smallVolume clearStack clearStack ⟨-1, -1⟩ [nameF])

end Csos
