import Csos.FatParent

/-!
# Opening a file of the root (`fat_fs_open`)

The parent lookup of `fat_fs_open` is made for `fat_fs_mkdir`: it scans the root
up to its end and hands over the number of the sector where that stands. From this
sector on the file is looked for, so a file that stands in a sector before is not
found; and with the mode `w` a second entry of its name is made.
-/

namespace Csos

open Lib Lib.Bytes

/-! ## The code -/

def fmRead : UInt8 := 1

/-- `fat_set_file_mode`. -/
def fatSetFileMode (file : FatFile) (mode : Chars) : FatFile :=
  if kernelStrcmp mode [0x72] = 0 then { file with mode := file.mode ||| fmRead }
  else if kernelStrcmp mode [0x77] = 0 then { file with mode := file.mode ||| fmWrite }
  else file

/-- `FILE`, as `fat_fs_open` fills it. -/
structure OpenedFile where
  file : FatFile
  type : FatType
  name : Chars

/-- `read_fat_file`, with the entry at `a`. -/
def readFatFile (file : FatFile) (m : Bytes) (a : Nat) : OpenedFile :=
  let pdir := dirAt m a
  let sblk := UInt32.ofNat pdir.cluster
  { file := { file with size := UInt32.ofNat (load32 m (a + 28)), offset := 0, sblk, cblk := sblk }
    type := readFatFtype pdir
    name := fatToLfn pdir.name }

/-- Where the loop stops: in the sector `sector`, which `buf` holds, at the entry `i`. -/
structure OpenPlace where
  buf : Bytes
  sector : UInt32
  i : Nat

/-- A round of `fat_fs_open`, for the sector `sector`; -1 has no place. -/
def openRound (fat : FsFat) (disk : Disk) (mode : UInt8) (name : Chars) (sector : UInt32) :
    Round UInt32 (Option OpenPlace) :=
  match disk.read sector with
  | none => .leave none
  | some buf =>
      match scanSector .file buf name (fat.bps.toNat / 32) 0 with
      | .foundEnd i => .leave (if mode &&& fmWrite ≠ 0 then some ⟨buf, sector, i⟩ else none)
      | .hit i => .leave (some ⟨buf, sector, i⟩)
      | .more => .again (sector + 1)

inductive OpenEnd where
  | returned (ret : Int32) (fat : FsFat) (file : OpenedFile) (disk : Disk)
  | nullPointer
  | pathFault (f : PathFault)
  | fatFault

/-- The end of `fat_fs_open`, behind the loop: a new entry when there is none. -/
def openAt (fat : FsFat) (disk : Disk) (file : OpenedFile) (name : Chars) (clock : FatClock)
    (p : OpenPlace) : OpenEnd :=
  let opened (buf : Bytes) (disk : Disk) : OpenEnd :=
    let file := readFatFile file.file buf (32 * p.i)
    .returned 0 fat
      { file with file := { file.file with dcluster := p.sector, doffset := UInt32.ofNat p.i } } disk
  if nameFirst (dirAt p.buf (32 * p.i)).name = fdnEnd then
    match fatAllocDir fat disk p.buf (32 * p.i) name 0x20 0 clock with
    | .fault => .fatFault
    | .returned (buf, ret) disk =>
        if ret < 0 then .returned (-1) fat file disk
        else
          match disk.write p.sector buf with
          | none => .returned (-1) fat file disk
          | some disk => opened buf disk
  else opened p.buf disk

/-- `fat_fs_open`, for a number of rounds of its loop and of the search of the path. -/
def fatFsOpen (stack : PathStack) (fat : FsFat) (disk : Disk) (file : OpenedFile)
    (path mode : Chars) (clock : FatClock) (n : Nat) : Option OpenEnd :=
  let file := { file with file := fatSetFileMode file.file mode }
  let (parent, name) := splitPath path
  match readFatDirFromParentPath disk.read stack fat path .mkdir n with
  | none => none
  | some (.fault f) => some (.pathFault f)
  | some .nullPointer => some .nullPointer
  | some (.returned fat none) => some (.returned (-1) fat file disk)
  | some (.returned fat (some i)) =>
      let datac := UInt32.ofNat (dirAt fat.buf (32 * i)).cluster
      let datac := if parent = [] then datac else datac + (fat.dataStart - 2)
      (loopFor (openRound fat disk file.file.mode name) n datac).map fun
        | none => .returned (-1) fat file disk
        | some p => openAt fat disk file name clock p

/-! ## What an open should do -/

/-- The entry is a file of the name. -/
def DirEntry.isFile (n : Name83) (e : DirEntry) : Bool := e.isNamed n ∧ treeType e.fdir = .file

namespace Volume

/-- The root holds a regular file of the name. -/
def HoldsFile (v : Volume) (n : Name83) : Prop := ∃ e ∈ v.entriesOf .root, e.isFile n

/-- The files of the name that the root holds. -/
def filesNamed (v : Volume) (n : Name83) : Nat :=
  ((v.entriesOf .root).filter (DirEntry.isFile n)).length

/-- A sector of the root has changed. -/
def RootChanged (v : Volume) (disk : Disk) : Prop :=
  ∃ s ∈ v.sectors .root, ∃ i < 512, disk.sectors (UInt32.ofNat s) i ≠ v.disk (UInt32.ofNat s) i

/-- The first cluster, the size and the position of an entry. -/
structure HandleOf (v : Volume) (e : DirEntry) (file : FatFile) : Prop where
  sblk : file.sblk = UInt32.ofNat e.fdir.cluster
  cblk : file.cblk = file.sblk
  size : file.size.toNat = load32 (v.disk (UInt32.ofNat e.sector)) (32 * e.index + 28)
  offset : file.offset = 0
  dcluster : file.dcluster.toNat = e.sector
  doffset : file.doffset.toNat = e.index

/-- `fat_fs_open` of a name in the root comes to `r`. -/
def Opened (v : Volume) (stack : PathStack) (n : Name83) (file : OpenedFile) (clock : FatClock)
    (mode : Chars) (r : OpenEnd) : Prop :=
  ∃ rounds, fatFsOpen stack v.fat v.up file (0x2F :: n.text) mode clock rounds = some r

/-- `fat_fs_open` of a name in the root finds what the root holds, and makes no second
file of a name. -/
structure OpensWell (v : Volume) (stack : PathStack) (n : Name83) (file : OpenedFile)
    (clock : FatClock) : Prop where
  reads : ∃ ret fat file' disk, v.Opened stack n file clock [0x72] (.returned ret fat file' disk)
    ∧ (ret = 0 ↔ v.HoldsFile n)
    ∧ (ret = 0 → ∃ e ∈ v.entriesOf .root, e.isFile n ∧ v.HandleOf e file'.file)
  writes : ∀ ret fat file' disk, v.Opened stack n file clock [0x77] (.returned ret fat file' disk) →
    (v.RootChanged disk → ¬ v.HoldsFile n)
      ∧ (v.filesNamed n ≤ 1 → (v.withDisk disk).filesNamed n ≤ 1)

/-! ## When it does -/

/-- The first entry of a sector that is the end or a file of the name, not a read-only
one. -/
def firstFile (v : Volume) (n : Name83) (s : Nat) : Option DirEntry :=
  (v.entriesIn s).find? fun e => e.isEnd || e.isSeenAs .file n.entryName

/-- The root has an end, with no directory of the name before it, and the sector of
the end has a file of the name before it. -/
def Finds (v : Volume) (n : Name83) : Prop :=
  ∃ e f, v.stopAt n.entryName = some e ∧ e.isEnd ∧ v.firstFile n e.sector = some f ∧ ¬ f.isEnd

/-- The root has an end, with no directory of the name before it, and the sector of
the end has no file of the name before it; and the first sector of the FAT has a free
entry. -/
def Creates (v : Volume) (n : Name83) : Prop :=
  (∃ e f, v.stopAt n.entryName = some e ∧ e.isEnd ∧ v.firstFile n e.sector = some f ∧ f.isEnd)
    ∧ ∃ c < 256, Csos.fatEntry v.fat v.up c = 0

/-- When an open of the name goes well. -/
structure Opens (v : Volume) (n : Name83) (mode : UInt8) : Prop where
  /-- a file that the root holds is found -/
  found : v.HoldsFile n → v.Finds n
  /-- where there is none, `FILE` is not in the mode `w` already, or the end is not found -/
  reading : ¬ v.HoldsFile n → mode &&& fmWrite = 0 ∨ ∀ e, v.stopAt n.entryName = some e → ¬ e.isEnd
  /-- and where an entry is made, no file of the name stands behind the end -/
  single : v.Creates n → ∀ e ∈ v.behindEnd .root, ¬ e.isFile n

section Open

variable {v : Volume} {fat : FsFat} {n : Name83} {s : Nat} {e f : DirEntry} {mode : UInt8}
  {stack : PathStack} {file : OpenedFile} {clock : FatClock} {rounds : Nat}

theorem openRound_found (hbps : fat.bps = 512) (h : v.firstFile n s = some f) :
    openRound fat v.up mode n.text (UInt32.ofNat s)
      = .leave (if f.isEnd ∧ mode &&& fmWrite = 0 then none
        else some ⟨v.disk (UInt32.ofNat s), UInt32.ofNat s, f.index⟩) := by
  have hscan := scanSector_start .file n.text (m := v.disk (UInt32.ofNat s)) fun i _ => rfl
  rw [fatToSfn_text] at hscan
  have hfind : (v.entriesIn s).find?
      (fun e => e.isEnd || e.isSeenAs .file n.entryName) = some f := h
  have h16 : fat.bps.toNat / 32 = 16 := by
    rw [hbps]
    rfl
  have hread : v.up.read (UInt32.ofNat s) = some (v.disk (UInt32.ofNat s)) := rfl
  rw [openRound, hread]
  dsimp only
  rw [h16, hscan, hfind]
  dsimp only
  by_cases hend : f.isEnd
  · rw [if_pos hend]
    dsimp only
    by_cases hmode : mode &&& fmWrite = 0
    · rw [if_neg (not_not_intro hmode), if_pos ⟨hend, hmode⟩]
    · rw [if_pos hmode, if_neg fun h => hmode h.2]
  · rw [if_neg hend, if_neg fun h => hend h.1]

/-- The sector of the end has an entry where the scan for the file stops. -/
theorem exists_firstFile (h : v.stopAt n.entryName = some e) (hend : e.isEnd) :
    ∃ f, v.firstFile n e.sector = some f := by
  obtain ⟨s, -, hmem⟩ := List.mem_flatMap.mp (List.mem_of_find?_eq_some h)
  obtain ⟨hsector, -, -⟩ := mem_entriesIn hmem
  rw [← hsector] at hmem
  refine Option.isSome_iff_exists.mp (List.find?_isSome.mpr ⟨e, hmem, ?_⟩)
  rw [hend, Bool.true_or]

/-- With the root's end and the scan of its sector at hand. -/
theorem finds_iff (hstop : v.stopAt n.entryName = some e) (hend : e.isEnd)
    (hfirst : v.firstFile n e.sector = some f) : v.Finds n ↔ ¬ f.isEnd := by
  constructor
  · rintro ⟨e', f', hstop', -, hfirst', hend'⟩
    obtain rfl := Option.some.inj (hstop.symm.trans hstop')
    obtain rfl := Option.some.inj (hfirst.symm.trans hfirst')
    exact hend'
  · exact fun hfend => ⟨e, f, hstop, hend, hfirst, hfend⟩

theorem creates_iff (hstop : v.stopAt n.entryName = some e) (hend : e.isEnd)
    (hfirst : v.firstFile n e.sector = some f) :
    v.Creates n ↔ f.isEnd ∧ ∃ c < 256, Csos.fatEntry v.fat v.up c = 0 := by
  constructor
  · rintro ⟨⟨e', f', hstop', -, hfirst', hend'⟩, hfree⟩
    obtain rfl := Option.some.inj (hstop.symm.trans hstop')
    obtain rfl := Option.some.inj (hfirst.symm.trans hfirst')
    exact ⟨hend', hfree⟩
  · exact fun ⟨hfend, hfree⟩ => ⟨⟨e, f, hstop, hend, hfirst, hfend⟩, hfree⟩

variable (stack file clock) in
/-- A root with no end, or with a directory of the name before it. -/
theorem opened_fails (hcache : v.Cached v.fat)
    (hstop : ∀ e, v.stopAt n.entryName = some e → ¬ e.isEnd)
    (mode : Chars) :
    ∃ fat, ∀ r, v.Opened stack n file clock mode r
      ↔ r = .returned (-1) fat { file with file := fatSetFileMode file.file mode } v.up := by
  obtain ⟨fat', -, hparent⟩ := parent_root hcache (splitPath_name n) .mkdir stack
  rw [fatToSfn_text] at hparent
  have hopen : ∃ fat, ∀ rounds, fatFsOpen stack v.fat v.up file (0x2F :: n.text) mode clock rounds
      = some (.returned (-1) fat { file with file := fatSetFileMode file.file mode } v.up) := by
    rw [← read_up] at hparent
    cases h : v.stopAt n.entryName with
    | none =>
        refine ⟨fat', fun rounds => ?_⟩
        rw [fatFsOpen, splitPath_name]
        dsimp only
        rw [hparent, h]
    | some e =>
        have hnone : v.rootParent .mkdir e = (v.holding (UInt32.ofNat e.sector), none) :=
          if_neg (hstop e h)
        refine ⟨v.holding (UInt32.ofNat e.sector), fun rounds => ?_⟩
        rw [fatFsOpen, splitPath_name]
        dsimp only
        rw [hparent, h]
        dsimp only
        rw [hnone]
  obtain ⟨fat, hopen⟩ := hopen
  refine ⟨fat, fun r => ⟨?_, ?_⟩⟩
  · rintro ⟨rounds, hr⟩
    exact (Option.some.inj ((hopen rounds).symm.trans hr)).symm
  · rintro rfl
    exact ⟨0, hopen 0⟩

variable (stack file clock) in
/-- A root with an end: the scan of its sector decides. -/
theorem opened_stops (hcache : v.Cached v.fat) (hstop : v.stopAt n.entryName = some e)
    (hend : e.isEnd)
    (hfirst : v.firstFile n e.sector = some f) (mode : Chars) (r : OpenEnd) :
    v.Opened stack n file clock mode r
      ↔ r = if f.isEnd ∧ (fatSetFileMode file.file mode).mode &&& fmWrite = 0 then
          .returned (-1) (v.marked e) { file with file := fatSetFileMode file.file mode } v.up
        else
          openAt (v.marked e) v.up { file with file := fatSetFileMode file.file mode } n.text clock
            ⟨v.disk (UInt32.ofNat e.sector), UInt32.ofNat e.sector, f.index⟩ := by
  obtain ⟨fat', -, hparent⟩ := parent_root hcache (splitPath_name n) .mkdir stack
  rw [fatToSfn_text] at hparent
  have hsome : v.rootParent .mkdir e = (v.marked e, some e.index) := if_pos hend
  have hcluster : UInt32.ofNat (dirAt (v.marked e).buf (32 * e.index)).cluster
      = UInt32.ofNat e.sector := cluster_storeCluster _ _ _
  have hbps : (v.marked e).bps = 512 := v.bps_eq
  rw [← read_up, hstop] at hparent
  dsimp only at hparent
  rw [hsome] at hparent
  -- the first round leaves the loop
  have hopen : ∀ rounds, fatFsOpen stack v.fat v.up file (0x2F :: n.text) mode clock rounds
      = if rounds = 0 then none
        else some (if f.isEnd ∧ (fatSetFileMode file.file mode).mode &&& fmWrite = 0 then
          .returned (-1) (v.marked e) { file with file := fatSetFileMode file.file mode } v.up
        else
          openAt (v.marked e) v.up { file with file := fatSetFileMode file.file mode } n.text clock
            ⟨v.disk (UInt32.ofNat e.sector), UInt32.ofNat e.sector, f.index⟩) := by
    intro rounds
    rw [fatFsOpen, splitPath_name]
    dsimp only
    rw [hparent]
    dsimp only
    rw [if_pos rfl, hcluster]
    cases rounds with
    | zero => rfl
    | succ rounds =>
        rw [loopFor, openRound_found hbps hfirst]
        dsimp only
        split
        · rfl
        · rfl
  constructor
  · rintro ⟨rounds, hr⟩
    rw [hopen] at hr
    split at hr
    · cases hr
    · exact (Option.some.inj hr).symm
  · rintro rfl
    exact ⟨1, by rw [hopen, if_neg Nat.one_ne_zero]⟩

/-- The handle of a file that is found. -/
theorem openAt_found (hfirst : v.firstFile n s = some f) (hs : s < 2 ^ 31) (hend : ¬ f.isEnd)
    (fat : FsFat) (file : OpenedFile) (clock : FatClock) :
    ∃ file', openAt fat v.up file n.text clock
        ⟨v.disk (UInt32.ofNat s), UInt32.ofNat s, f.index⟩ = .returned 0 fat file' v.up
      ∧ v.HandleOf f file'.file := by
  obtain ⟨hsector, hindex, hfdir⟩ := mem_entriesIn (List.mem_of_find?_eq_some hfirst)
  have hname : nameFirst (dirAt (v.disk (UInt32.ofNat s)) (32 * f.index)).name ≠ fdnEnd := by
    rw [← hfdir]
    exact fun h => hend (decide_eq_true h)
  rw [openAt]
  dsimp only
  rw [if_neg hname]
  refine ⟨_, rfl, ?_, rfl, ?_, rfl, ?_, ?_⟩
  · rw [hfdir]
    rfl
  · rw [hsector]
    exact UInt32.toNat_ofNat_of_lt' (load32_lt _ _)
  · rw [hsector]
    exact UInt32.toNat_ofNat_of_lt' (Nat.lt_trans hs (by decide))
  · exact UInt32.toNat_ofNat_of_lt' (Nat.lt_trans hindex (by decide))

/-! ### A new file -/

/-- The sector of the end with the new entry in it. -/
def newFile (v : Volume) (n : Name83) (clock : FatClock) (e : DirEntry) (k : Nat) : Bytes :=
  newDir (v.disk (UInt32.ofNat e.sector)) (32 * e.index) n.text 0x20 0 clock k

/-- The disk with the new entry, which has the cluster `k`. -/
def created (v : Volume) (n : Name83) (clock : FatClock) (e : DirEntry) (k : Nat) : Disk :=
  (v.taking k).put (UInt32.ofNat e.sector) (v.newFile n clock e k)

/-- A file is made, when the first sector of the FAT has a free entry. -/
theorem openAt_end (n : Name83) (file : OpenedFile) (clock : FatClock) (he : e ∈ v.entriesIn s)
    (hend : e.isEnd) (hfree : ∃ c < 256, Csos.fatEntry v.fat v.up c = 0) :
    ∃ k < 256, ∃ file', openAt (v.marked e) v.up file n.text clock
        ⟨v.disk (UInt32.ofNat e.sector), UInt32.ofNat e.sector, e.index⟩
          = .returned 0 (v.marked e) file' (v.created n clock e k)
      ∧ file'.file.dcluster = UInt32.ofNat e.sector
      ∧ file'.file.doffset = UInt32.ofNat e.index := by
  obtain ⟨hsector, hindex, hfdir⟩ := mem_entriesIn he
  have hsame : SameVolume v.fat (v.marked e) := ⟨_, _, rfl⟩
  obtain ⟨k, hk, -, halloc⟩ := fatAllocDir_free hsame hfree (v.disk (UInt32.ofNat e.sector))
    (32 * e.index) n.text 0x20 0 clock
  have hname : nameFirst (dirAt (v.disk (UInt32.ofNat e.sector)) (32 * e.index)).name = fdnEnd := by
    rw [hsector, ← hfdir]
    exact of_decide_eq_true hend
  refine ⟨k, hk, ?_⟩
  rw [openAt]
  dsimp only
  rw [if_pos hname, halloc]
  dsimp only
  rw [if_neg (by decide), Disk.write_of_up rfl]
  exact ⟨_, rfl, rfl, rfl⟩

/-- A first sector of the FAT that is full is read past its end. -/
theorem openAt_full (he : e ∈ v.entriesIn s) (hend : e.isEnd)
    (hfull : ¬ ∃ c < 256, Csos.fatEntry v.fat v.up c = 0) :
    openAt (v.marked e) v.up file n.text clock
      ⟨v.disk (UInt32.ofNat e.sector), UInt32.ofNat e.sector, e.index⟩ = .fatFault := by
  obtain ⟨hsector, hindex, hfdir⟩ := mem_entriesIn he
  have hname : nameFirst (dirAt (v.disk (UInt32.ofNat e.sector)) (32 * e.index)).name = fdnEnd := by
    rw [hsector, ← hfdir]
    exact of_decide_eq_true hend
  have hsame : SameVolume v.fat (v.marked e) := ⟨_, _, rfl⟩
  rw [openAt]
  dsimp only
  rw [if_pos hname, fatAllocDir_full hsame fun c hc h => hfull ⟨c, hc, h⟩]

theorem newFile_outside {k i : Nat} (h : i < 32 * e.index ∨ 32 * e.index + 32 ≤ i) :
    v.newFile n clock e k i = v.disk (UInt32.ofNat e.sector) i := newDir_outside h

theorem created_sectors {k : Nat} (hk : k < 256) (hs : s ∈ v.sectors .root)
    (he : e.sector ∈ v.sectors .root) {i : Nat} (hi : i < 512) :
    (v.created n clock e k).sectors (UInt32.ofNat s) i
      = if s = e.sector then v.newFile n clock e k i else v.disk (UInt32.ofNat s) i := by
  rw [created]
  by_cases hsame : s = e.sector
  · rw [if_pos hsame, hsame]
    exact Disk.put_sectors_self _ _ _ hi
  · have hne : UInt32.ofNat s ≠ UInt32.ofNat e.sector :=
      fun heq => hsame (ofNat_sector_inj (sector_lt hs) (sector_lt he) heq)
    rw [if_neg hsame, Disk.put_sectors_of_ne _ _ hne, taking_sectors (fatSector_ne_sector hk hs)]

theorem created_butOne (n : Name83) (clock : FatClock) {k : Nat} (hk : k < 256)
    (he : e.sector ∈ v.sectors .root) :
    v.ButOne .root (v.created n clock e k) e := by
  refine ⟨rfl, fun s hs i hi hout => ?_⟩
  rw [created_sectors hk hs he hi]
  by_cases hsame : s = e.sector
  · rw [if_pos hsame, newFile_outside (by omega), hsame]
  · rw [if_neg hsame]

/-- The new entry has the name, and is a file. -/
theorem created_entry (n : Name83) (clock : FatClock) {k : Nat} (hk : k < 256)
    (he : e.sector ∈ v.sectors .root)
    (hindex : e.index < 16) :
    (dirAt ((v.created n clock e k).sectors (UInt32.ofNat e.sector)) (32 * e.index)).name
        = n.entryName
      ∧ (dirAt ((v.created n clock e k).sectors (UInt32.ofNat e.sector)) (32 * e.index)).attr
        = 0x20 := by
  have hsame : dirAt ((v.created n clock e k).sectors (UInt32.ofNat e.sector)) (32 * e.index)
      = dirAt (v.newFile n clock e k) (32 * e.index) := by
    refine dirAt_congr fun i hi => ?_
    rw [created_sectors hk he he (by omega), if_pos rfl]
  obtain ⟨hname, hattr, -⟩ := dirAt_newDir (Nat.lt_trans hk (by decide) : k < 2 ^ 32)
  rw [hsame, ← fatToSfn_text]
  exact ⟨hname, hattr⟩

/-- The root with the new entry. -/
theorem created_filesNamed {k : Nat} {before as bs behind : List DirEntry} (hk : k < 256)
    (hsplit : v.EndSplit .root e before as bs behind) (hholds : ¬ v.HoldsFile n) :
    (v.withDisk (v.created n clock e k)).filesNamed n ≤ 1
      ↔ ∀ x ∈ v.behindEnd .root, ¬ x.isFile n := by
  obtain ⟨-, hindex, -⟩ := mem_entriesIn
    (hsplit.sector ▸ List.mem_append_right as List.mem_cons_self)
  obtain ⟨hname, hattr⟩ := created_entry n clock hk hsplit.mem hindex
  have hnew := hsplit.entriesOf_new sectors_root_nodup (created_butOne n clock hk hsplit.mem)
    (hname ▸ entryName_ne_end n)
  generalize hfdir : dirAt ((v.created n clock e k).sectors (UInt32.ofNat e.sector))
    (32 * e.index) = fdir at hname hattr hnew
  have hold : (v.entriesOf .root).filter (DirEntry.isFile n) = [] :=
    List.filter_eq_nil_iff.mpr fun x hx hfile => hholds ⟨x, hx, hfile⟩
  rw [filesNamed, hnew, List.filter_append, hold, List.nil_append]
  by_cases hfree : nameFirst n.entryName = fdnFree
  · -- a name that begins like a free entry is never there
    have hnone : ∀ x : DirEntry, ¬ x.isFile n := by
      intro x hx
      obtain ⟨hnamed, -⟩ := of_decide_eq_true hx
      obtain ⟨hnot, heq, -⟩ := of_decide_eq_true hnamed
      exact hnot (heq ▸ hfree)
    rw [List.filter_eq_nil_iff.mpr fun x _ => hnone x]
    exact iff_of_true (Nat.zero_le 1) fun x _ => hnone x
  · have htype : treeType fdir = .file := by
      rw [treeType, hattr]
      rfl
    have hfile : DirEntry.isFile n { e with fdir } = true := by
      refine decide_eq_true ⟨decide_eq_true ⟨?_, hname, ?_⟩, htype⟩
      · rw [hname]
        exact hfree
      · rw [htype]
        exact FatType.noConfusion
    rw [List.filter_cons_of_pos hfile, List.length_cons]
    constructor
    · intro hle x hx hxfile
      have hpos := List.length_pos_of_mem (List.mem_filter.mpr ⟨hx, hxfile⟩)
      omega
    · intro h
      rw [List.filter_eq_nil_iff.mpr fun x hx hxfile => h x hx hxfile, List.length_nil]

/-- A file that is seen in the sector of the end, before it, is one of the root's. -/
theorem firstFile_holds {before as bs behind : List DirEntry}
    (hsplit : v.EndSplit .root e before as bs behind) (hfirst : v.firstFile n e.sector = some f)
    (hend : ¬ f.isEnd) : f ∈ v.entriesOf .root ∧ f.isFile n := by
  have hfirst' : (v.entriesIn e.sector).find?
      (fun e => e.isEnd || e.isSeenAs .file n.entryName) = some f :=
    hfirst
  have hseen := List.find?_some hfirst'
  rw [Bool.eq_false_iff.mpr hend, Bool.false_or] at hseen
  obtain ⟨hfree, hname, htype⟩ := of_decide_eq_true hseen
  rw [hsplit.sector] at hfirst'
  have has := find?_before hfirst' hend hsplit.isEnd
  refine ⟨?_, decide_eq_true ⟨decide_eq_true ⟨hfree, hname, ?_⟩, ?_⟩⟩
  · rw [hsplit.entriesOf_eq]
    exact List.mem_append_right before has
  all_goals
    rw [readFatFtype_eq] at htype
    split at htype
  · rw [htype]
    exact FatType.noConfusion
  · cases htype
  · exact htype
  · cases htype

/-- Where no file is seen before the end, the scan comes to the end of the root. -/
theorem firstFile_end {before as bs behind : List DirEntry}
    (hsplit : v.EndSplit .root e before as bs behind) (hfirst : v.firstFile n e.sector = some f)
    (hend : f.isEnd) : f = e := by
  have hq := find?_of_or hfirst hend
  have he : (v.entriesIn e.sector).find? DirEntry.isEnd = some e := by
    rw [hsplit.sector]
    refine List.find?_eq_some_iff_append.mpr ⟨hsplit.isEnd, as, bs, rfl, fun x hx => ?_⟩
    simpa using hsplit.used x (List.mem_append_right before hx)
  exact Option.some.inj (hq.symm.trans he)

theorem mode_read (mode : UInt8) : (mode ||| fmRead) &&& fmWrite = 0 ↔ mode &&& fmWrite = 0 := by
  have h : ∀ b : BitVec 8, (b ||| 1) &&& 2 = 0 ↔ b &&& 2 = 0 := by decide
  rw [← UInt8.toBitVec_inj, ← UInt8.toBitVec_inj]
  exact h mode.toBitVec

theorem mode_write (mode : UInt8) : (mode ||| fmWrite) &&& fmWrite ≠ 0 := by
  have h : ∀ b : BitVec 8, (b ||| 2) &&& 2 ≠ 0 := by decide
  rw [ne_eq, ← UInt8.toBitVec_inj]
  exact h mode.toBitVec

/-- Every entry of the root is the one of its place. -/
theorem mem_slots {x : DirEntry} (h : x ∈ v.slots .root) :
    x.fdir = dirAt (v.disk (UInt32.ofNat x.sector)) (32 * x.index) := by
  obtain ⟨s, -, hmem⟩ := List.mem_flatMap.mp h
  obtain ⟨rfl, -, hfdir⟩ := mem_entriesIn hmem
  exact hfdir

/-- A new file is at none of the places that the root's entries have. -/
theorem not_handleOf_end {x : DirEntry} {file' : FatFile} {before as bs behind : List DirEntry}
    (hsplit : v.EndSplit .root e before as bs behind) (hx : x ∈ v.entriesOf .root)
    (hsector : file'.dcluster = UInt32.ofNat e.sector)
    (hindex : file'.doffset = UInt32.ofNat e.index) : ¬ v.HandleOf x file' := by
  intro h
  have hlt := sector_lt hsplit.mem
  obtain ⟨-, hlt16, -⟩ := mem_entriesIn
    (hsplit.sector ▸ List.mem_append_right as List.mem_cons_self)
  have hsame : x.sector = e.sector := by
    rw [← h.dcluster, hsector, UInt32.toNat_ofNat_of_lt' (Nat.lt_trans hlt (by decide))]
  have hsame' : x.index = e.index := by
    rw [← h.doffset, hindex, UInt32.toNat_ofNat_of_lt' (Nat.lt_trans hlt16 (by decide))]
  have hfdir := mem_slots ((List.takeWhile_sublist _).subset hx)
  have hfdir' : e.fdir = dirAt (v.disk (UInt32.ofNat e.sector)) (32 * e.index) :=
    mem_slots (hsplit.slots ▸ List.mem_append_right _ List.mem_cons_self)
  rw [hsplit.entriesOf_eq] at hx
  refine hsplit.used x hx ?_
  have hend := hsplit.isEnd
  rw [DirEntry.isEnd, hfdir'] at hend
  rw [DirEntry.isEnd, hfdir, hsame, hsame']
  exact hend

/-- An open that comes to the end makes an entry, if it returns, and hands over no file of
the root. -/
theorem openAt_end_returned {fat' : FsFat} {file' : OpenedFile} {disk : Disk} {ret : Int32}
    {before as bs behind : List DirEntry} (hsplit : v.EndSplit .root e before as bs behind)
    (hopen : openAt (v.marked e) v.up file n.text clock
        ⟨v.disk (UInt32.ofNat e.sector), UInt32.ofNat e.sector, e.index⟩
      = .returned ret fat' file' disk) :
    ret = 0 ∧ ∀ x ∈ v.entriesOf .root, ¬ v.HandleOf x file'.file := by
  have hmem : e ∈ v.entriesIn e.sector :=
    hsplit.sector ▸ List.mem_append_right as List.mem_cons_self
  by_cases hfree : ∃ c < 256, Csos.fatEntry v.fat v.up c = 0
  · obtain ⟨k, -, file'', hmade, hsector, hindex⟩ :=
      openAt_end n file clock hmem hsplit.isEnd hfree
    rw [hmade] at hopen
    cases hopen
    exact ⟨rfl, fun x hx => not_handleOf_end hsplit hx hsector hindex⟩
  · rw [openAt_full hmem hsplit.isEnd hfree] at hopen
    cases hopen

/-- Opening with `r`. -/
theorem reads_iff (hcache : v.Cached v.fat) :
    (∃ ret fat file' disk, v.Opened stack n file clock [0x72] (.returned ret fat file' disk)
        ∧ (ret = 0 ↔ v.HoldsFile n)
        ∧ (ret = 0 → ∃ e ∈ v.entriesOf .root, e.isFile n ∧ v.HandleOf e file'.file))
      ↔ (v.HoldsFile n → v.Finds n)
        ∧ (¬ v.HoldsFile n → file.file.mode &&& fmWrite = 0
          ∨ ∀ e, v.stopAt n.entryName = some e → ¬ e.isEnd) := by
  have hmode : (fatSetFileMode file.file [0x72]).mode &&& fmWrite = 0
      ↔ file.file.mode &&& fmWrite = 0 := mode_read file.file.mode
  by_cases hex : ∃ e, v.stopAt n.entryName = some e ∧ e.isEnd
  · obtain ⟨e, hstop, hend⟩ := hex
    obtain ⟨f, hfirst⟩ := exists_firstFile hstop hend
    obtain ⟨before, as, bs, behind, hsplit, -⟩ := endSplit hstop hend
    have hlt := sector_lt hsplit.mem
    have hfinds := finds_iff hstop hend hfirst
    have hreading : (∀ e, v.stopAt n.entryName = some e → ¬ e.isEnd) ↔ False :=
      iff_false_intro fun h => h e hstop hend
    simp only [opened_stops stack file clock hcache hstop hend hfirst, hmode, hfinds, hreading,
      or_false]
    by_cases hfend : f.isEnd
    · obtain rfl := firstFile_end hsplit hfirst hfend
      by_cases hclear : file.file.mode &&& fmWrite = 0
      · rw [if_pos ⟨hfend, hclear⟩]
        constructor
        · rintro ⟨ret, fat, file', disk, heq, hiff, -⟩
          cases heq
          have hnot : ¬ v.HoldsFile n := fun hholds => absurd (hiff.mpr hholds) (by decide)
          exact ⟨fun hholds => absurd hholds hnot, fun _ => hclear⟩
        · rintro ⟨hfound, -⟩
          have hnot : ¬ v.HoldsFile n := fun hholds => hfound hholds hfend
          exact ⟨_, _, _, _, rfl, iff_of_false (by decide) hnot, fun h => absurd h (by decide)⟩
      · rw [if_neg fun h => hclear h.2]
        constructor
        · rintro ⟨ret, fat, file', disk, heq, hiff, hhandle⟩
          obtain ⟨hzero, hnone⟩ := openAt_end_returned hsplit heq.symm
          obtain ⟨x, hx, -, hof⟩ := hhandle hzero
          exact absurd hof (hnone x hx)
        · rintro ⟨hfound, hreads⟩
          by_cases hholds : v.HoldsFile n
          · exact absurd hfend (hfound hholds)
          · exact absurd (hreads hholds) hclear
    · obtain ⟨hmem, hfile⟩ := firstFile_holds hsplit hfirst hfend
      have hholds : v.HoldsFile n := ⟨f, hmem, hfile⟩
      refine iff_of_true ?_ ⟨fun _ => hfend, fun hnot => absurd hholds hnot⟩
      obtain ⟨file', hopen, hof⟩ := openAt_found hfirst hlt hfend (v.marked e)
        { file with file := fatSetFileMode file.file [0x72] } clock
      rw [if_neg fun h => hfend h.1, hopen]
      exact ⟨_, _, _, _, rfl, iff_of_true rfl hholds, fun _ => ⟨f, hmem, hfile, hof⟩⟩
  · have hnone : ∀ e, v.stopAt n.entryName = some e → ¬ e.isEnd :=
      fun e he hend => hex ⟨e, he, hend⟩
    obtain ⟨fat', hopen⟩ := opened_fails stack file clock hcache hnone [0x72]
    have hfinds : ¬ v.Finds n := by
      rintro ⟨e, -, he, hend, -⟩
      exact hex ⟨e, he, hend⟩
    simp only [hopen]
    constructor
    · rintro ⟨ret, fat, file', disk, heq, hiff, -⟩
      cases heq
      exact ⟨fun hholds => absurd (hiff.mpr hholds) (by decide), fun _ => Or.inr hnone⟩
    · rintro ⟨hfound, -⟩
      exact ⟨_, _, _, _, rfl, iff_of_false (by decide) fun hholds => hfinds (hfound hholds),
        fun h => absurd h (by decide)⟩

theorem not_rootChanged_up : ¬ v.RootChanged v.up := by
  rintro ⟨s, -, i, -, hne⟩
  exact hne rfl

/-- Opening with `w`, where a file that the root holds is found. -/
theorem writes_iff (hcache : v.Cached v.fat) (hfound : v.HoldsFile n → v.Finds n) :
    (∀ ret fat file' disk, v.Opened stack n file clock [0x77] (.returned ret fat file' disk) →
        (v.RootChanged disk → ¬ v.HoldsFile n)
          ∧ (v.filesNamed n ≤ 1 → (v.withDisk disk).filesNamed n ≤ 1))
      ↔ (v.Creates n → ∀ e ∈ v.behindEnd .root, ¬ e.isFile n) := by
  have hmode : (fatSetFileMode file.file [0x77]).mode &&& fmWrite ≠ 0 := mode_write file.file.mode
  -- an open that changes nothing
  have hsame : (v.RootChanged v.up → ¬ v.HoldsFile n)
      ∧ (v.filesNamed n ≤ 1 → (v.withDisk v.up).filesNamed n ≤ 1) :=
    ⟨fun hchanged => absurd hchanged not_rootChanged_up, id⟩
  by_cases hex : ∃ e, v.stopAt n.entryName = some e ∧ e.isEnd
  · obtain ⟨e, hstop, hend⟩ := hex
    obtain ⟨f, hfirst⟩ := exists_firstFile hstop hend
    obtain ⟨before, as, bs, behind, hsplit, -⟩ := endSplit hstop hend
    have hlt := sector_lt hsplit.mem
    simp only [opened_stops stack file clock hcache hstop hend hfirst]
    rw [if_neg fun h => hmode h.2]
    by_cases hfend : f.isEnd
    · obtain rfl := firstFile_end hsplit hfirst hfend
      have hmem : f ∈ v.entriesIn f.sector :=
        hsplit.sector ▸ List.mem_append_right as List.mem_cons_self
      have hholds : ¬ v.HoldsFile n :=
        fun hholds => (finds_iff hstop hend hfirst).mp (hfound hholds) hfend
      by_cases hfree : ∃ c < 256, Csos.fatEntry v.fat v.up c = 0
      · obtain ⟨k, hk, file'', hopen, -, -⟩ :=
          openAt_end n { file with file := fatSetFileMode file.file [0x77] } clock hmem hfend hfree
        have hcreates : v.Creates n := (creates_iff hstop hend hfirst).mpr ⟨hfend, hfree⟩
        rw [hopen]
        have hnone : v.filesNamed n ≤ 1 := by
          rw [filesNamed, List.filter_eq_nil_iff.mpr fun x hx hfile => hholds ⟨x, hx, hfile⟩]
          exact Nat.zero_le 1
        constructor
        · intro h _
          exact (created_filesNamed hk hsplit hholds).mp ((h _ _ _ _ rfl).2 hnone)
        · rintro h ret fat file' disk heq
          cases heq
          exact ⟨fun _ => hholds, fun _ => (created_filesNamed hk hsplit hholds).mpr (h hcreates)⟩
      · rw [openAt_full hmem hfend hfree]
        exact iff_of_true (fun ret fat file' disk heq => OpenEnd.noConfusion heq)
          fun hcreates => absurd hcreates.2 hfree
    · obtain ⟨file'', hopen, -⟩ :=
        openAt_found hfirst hlt hfend (v.marked e)
          { file with file := fatSetFileMode file.file [0x77] } clock
      rw [hopen]
      refine iff_of_true (fun ret fat file' disk heq => ?_) fun hcreates => ?_
      · cases heq
        exact hsame
      · exact absurd ((creates_iff hstop hend hfirst).mp hcreates).1 hfend
  · have hnone : ∀ e, v.stopAt n.entryName = some e → ¬ e.isEnd :=
      fun e he hend => hex ⟨e, he, hend⟩
    obtain ⟨fat', hopen⟩ := opened_fails stack file clock hcache hnone [0x77]
    simp only [hopen]
    refine iff_of_true (fun ret fat file' disk heq => ?_) fun hcreates => ?_
    · cases heq
      exact hsame
    · obtain ⟨⟨e, f, hstop, hend, -⟩, -⟩ := hcreates
      exact absurd hend (hnone e hstop)

end Open

/-- An open of a name in the root goes well when `Opens` says so, and only then. -/
theorem open_law {v : Volume} {n : Name83} (stack : PathStack) (file : OpenedFile)
    (clock : FatClock) (hcache : v.Cached v.fat) :
    v.OpensWell stack n file clock ↔ v.Opens n file.file.mode := by
  constructor
  · rintro ⟨hreads, hwrites⟩
    obtain ⟨hfound, hreading⟩ := (reads_iff hcache).mp hreads
    exact ⟨hfound, hreading, (writes_iff hcache hfound).mp hwrites⟩
  · rintro ⟨hfound, hreading, hsingle⟩
    exact ⟨(reads_iff hcache).mpr ⟨hfound, hreading⟩, (writes_iff hcache hfound).mpr hsingle⟩

end Volume

/-- A file that is not opened yet. -/
def freshFile : OpenedFile := ⟨⟨0, 0, 0, 0, 0, 0, 0⟩, .unknown, []⟩

/-- `/f` is opened. -/
theorem Volume.open_law_small :
    smallVolume.OpensWell clearStack nameF freshFile ⟨20, 25, 1, 1, 0, 0, 0⟩ := by
  refine (Volume.open_law clearStack freshFile _ smallVolume_cached).mpr
    ⟨fun _ => ?_, fun _ => ?_, ?_⟩
  · exact ⟨⟨3, 2, dirAt (smallVolume.disk 3) 64⟩, ⟨3, 1, dirAt (smallVolume.disk 3) 32⟩,
      by decide +kernel, by decide +kernel, by decide +kernel, by decide +kernel⟩
  · exact Or.inl rfl
  · intro _
    decide +kernel

/-- The small volume with a root of two sectors: the first is full, and `/f` is the
first entry of it. -/
def wideVolume : Volume where
  br := { smallVolume.br with maxRde := 32 }
  fat := { smallVolume.fat with rootTotal := 32, dataStart := 5 }
  disk := fun s i =>
    if s = 1 ∨ s = 2 then if i < 8 then 0xFF else 0
    else if s = 3 then
      if i < 32 then (entryBytes 0x46 [] 0x20 0).getD i 0
      else (entryBytes 0x47 [] 0x20 0).getD (i % 32) 0
    else 0
  mounted := by rfl
  sector_size := rfl
  spc_pos := by decide
  fat_pos := by decide

/-- A file in the first of two sectors is not found. -/
theorem Volume.open_law_wide :
    ¬ wideVolume.OpensWell clearStack nameF freshFile ⟨20, 25, 1, 1, 0, 0, 0⟩ := by
  have hcache : wideVolume.Cached wideVolume.fat :=
    ⟨.refl _, fun h => absurd rfl h, fun _ _ => rfl⟩
  have hstop : wideVolume.stopAt nameF.entryName = some ⟨4, 0, dirAt (wideVolume.disk 4) 0⟩ := by
    decide +kernel
  have hfirst : wideVolume.firstFile nameF 4 = some ⟨4, 0, dirAt (wideVolume.disk 4) 0⟩ := by
    decide +kernel
  intro h
  obtain ⟨e, f, hstop', -, hfirst', hend⟩ := ((Volume.reads_iff hcache).mp h.reads).1
    ⟨⟨3, 0, dirAt (wideVolume.disk 3) 0⟩, by decide +kernel, by decide +kernel⟩
  obtain rfl := Option.some.inj (hstop.symm.trans hstop')
  obtain rfl := Option.some.inj (hfirst.symm.trans hfirst')
  exact hend (by decide +kernel)

end Csos
