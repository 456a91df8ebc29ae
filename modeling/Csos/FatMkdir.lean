import Csos.FatRemove

/-!
# Making a directory (`fat_fs_mkdir`)

A cluster is taken, and its end mark written to the disk, before the parent is
looked at; a name that is there already is met afterwards, and the cluster stays
taken. Below the root the end of the parent is looked for from `data_start + c - 2`
on, sector by sector.
-/

namespace Csos

open Lib Lib.Bytes

/-! ## The code -/

inductive MkdirEnd where
  | returned (ret : Int32) (fat : FsFat) (disk : Disk)
  | nullPointer
  | pathFault (f : PathFault)
  | fatFault

/-- How the `while` over the entries of `buf` ends: at an entry of the name, or at `cdir`,
which may stand behind the sector. -/
inductive NameScan where
  | isThere
  | stopped (i : Nat)

/-- The `while` over the entries of `buf`, with `left` of them ahead. -/
def scanName (buf : Bytes) (name : Chars) : Nat → Nat → NameScan
  | 0, i => .stopped i
  | left + 1, i =>
      let cdir := dirAt buf (32 * i)
      if nameFirst cdir.name = fdnEnd then .stopped i
      else if matchFatName cdir name then .isThere
      else scanName buf name left (i + 1)

/-- A round of `fat_fs_mkdir`, for the sector `datac`. -/
def mkdirRound (disk : Disk) (name : Chars) (ndir : Bytes) :
    FsFat × UInt32 → Round (FsFat × UInt32) MkdirEnd
  | (fat, datac) =>
      match fsBread disk.read fat datac with
      | (fat, false) => .leave (.returned (-1) fat disk)
      | (fat, true) =>
          match scanName fat.buf name 16 0 with
          | .isThere => .leave (.returned (-1) fat disk)
          | .stopped i =>
              if nameFirst (dirAt fat.buf (32 * i)).name = fdnEnd then
                let buf := copy fat.buf (32 * i) ndir 32
                match disk.write datac buf with
                | none => .leave (.returned (-1) { fat with buf } disk)
                | some disk =>
                    let (ret, disk) := fatFsWriteDirData fat disk ndir datac
                    .leave (.returned ret { fat with buf } disk)
              else .again (fat, datac + 1)

/-- `fat_fs_mkdir`, with the entry `i` of `buf`; `ndir` is what the stack holds. -/
def mkdirAt (fat : FsFat) (disk : Disk) (ndir : Bytes) (name : Chars) (clock : FatClock)
    (i n : Nat) : Option MkdirEnd :=
  match fatAllocDir fat disk ndir 0 name 0x10 0 clock with
  | .fault => some .fatFault
  | .returned (ndir, ret) disk =>
      if ret < 0 then some (.returned (-1) fat disk)
      else
        let dir := dirAt fat.buf (32 * i)
        if nameFirst dir.name = fdnEnd then
          let rdatac := UInt32.ofNat dir.cluster
          let buf := copy fat.buf (32 * i) ndir 32
          match disk.write rdatac buf with
          | none => some (.returned (-1) { fat with buf } disk)
          | some disk =>
              let (ret, disk) := fatFsWriteDirData fat disk ndir 0
              some (.returned ret { fat with buf } disk)
        else
          let datac := fat.dataStart + UInt32.ofNat dir.cluster - 2
          loopFor (mkdirRound disk name ndir) n (fat, datac)

/-- `fat_fs_mkdir`, behind the lookup of the parent. -/
def mkdirFrom (disk : Disk) (ndir : Bytes) (name : Chars) (clock : FatClock) (n : Nat) :
    ParentEnd → Option MkdirEnd
  | .fault f => some (.pathFault f)
  | .nullPointer => some .nullPointer
  | .returned fat none => some (.returned (-1) fat disk)
  | .returned fat (some i) => mkdirAt fat disk ndir name clock i n

/-- `fat_fs_mkdir`, for a number of rounds of its loop and of the search of the path. -/
def fatFsMkdir (stack : PathStack) (fat : FsFat) (disk : Disk) (ndir : Bytes) (path : Chars)
    (clock : FatClock) (n : Nat) : Option MkdirEnd :=
  (readFatDirFromParentPath disk.read stack fat path .mkdir n).bind
    (mkdirFrom disk ndir (splitPath path).2 clock n)

/-- The scan for the name stops at the entry. -/
def DirEntry.stopsName (sfn : Vector (BitVec 8) 11) (e : DirEntry) : Bool :=
  e.isEnd || e.fdir.name = sfn

namespace Volume

/-! ## What making a directory should do -/

/-- `fat_fs_mkdir` comes to `r`. -/
def MkdirEnds (v : Volume) (stack : PathStack) (ndir : Bytes) (path : Chars) (clock : FatClock)
    (r : MkdirEnd) : Prop :=
  ∃ rounds, fatFsMkdir stack v.fat v.up ndir path clock rounds = some r

/-- The parent shows one entry more: a directory of the name, with a cluster that was
free. -/
def Made (v : Volume) (p : AbsPath) (disk : Disk) : Prop :=
  ∃ ps n d e as bs, p.names = ps ++ [n] ∧ v.dirOf ps = some d
    ∧ v.visible d = as ++ bs ∧ (v.withDisk disk).visible d = as ++ e :: bs
    ∧ e.fdir.name = n.entryName ∧ treeType e.fdir = .dir
    ∧ Csos.fatEntry v.fat v.up e.fdir.cluster = 0

/-- The cluster `k` is free, and not in the way of the directory. -/
structure Room (v : Volume) (d : DirLoc) (k : Nat) : Prop where
  two_le : 2 ≤ k
  lt : k < 256
  free : Csos.fatEntry v.fat v.up k = 0
  apart : ∀ s ∈ v.sectors d, UInt32.ofNat s ≠ v.codeSector k
  inFat : ∀ c, d = .cluster c → ∀ c' ∈ v.chain 0x10000 c, c' < v.fat.entries

/-- The entry `q` is found for the parent, and its first cluster gives a sector to look
into, another one than that of `q`. -/
structure Enters (v : Volume) (stack : PathStack) (path : Chars) (q : DirEntry) : Prop where
  below : (splitPath path).1 ≠ []
  looksUp : v.LooksUp stack (splitPath path).1 q
  inUse : ¬ q.isEnd
  index : q.index < 16
  cluster : 2 ≤ q.fdir.cluster ∧ q.fdir.cluster < 0xFFF8
  apart : q.sector ≠ (v.codeSector q.fdir.cluster).toNat

/-- From `data_start + c - 2` on, sector by sector, the first entry that is an end or
has the name is `x`. The byte behind the sector in `buf` is looked at too: it is not zero
where a sector is passed. -/
structure Reaches (v : Volume) (c : Nat) (sfn : Vector (BitVec 8) 11) (x : DirEntry) : Prop where
  le : (v.codeSector c).toNat ≤ x.sector
  lt : x.sector < 2 ^ 31
  full : ∀ s, (v.codeSector c).toNat ≤ s → s < x.sector →
    (v.entriesIn s).find? (DirEntry.stopsName sfn) = none
  behind : (v.codeSector c).toNat < x.sector → v.fat.buf 512 ≠ fdnEnd
  here : (v.entriesIn x.sector).find? (DirEntry.stopsName sfn) = some x

/-- Where the new directory `n` goes in the root: an end `e`, with no directory of the name
before it, and the first free cluster is `k`. -/
structure EndInRoot (v : Volume) (p : AbsPath) (n : Name83) (e : DirEntry) (k : Nat) : Prop where
  names : p.names = [n]
  slash : p.slash = false
  stopAt : v.stopAt n.entryName = some e
  isEnd : e.isEnd
  first : FirstFree v.fat v.up k
  two_le : 2 ≤ k
  lt : k < 256

/-- Where it goes in the directory `q`: the sectors of `q` up to that of its end `e` stand
one behind the other from `data_start + c - 2` on, and none has an entry of the name before
the end. -/
structure EndBelow (v : Volume) (stack : PathStack) (p : AbsPath) (ps : List Name83) (n : Name83)
    (q e : DirEntry) (k : Nat) : Prop where
  names : p.names = ps ++ [n]
  slash : p.slash = false
  enters : v.Enters stack p.text q
  dirOf : v.dirOf ps = some (.cluster q.fdir.cluster)
  first : FirstFree v.fat v.up k
  room : v.Room (.cluster q.fdir.cluster) k
  nodup : (v.sectors (.cluster q.fdir.cluster)).Nodup
  reaches : v.Reaches q.fdir.cluster n.entryName e
  isEnd : e.isEnd
  inOrder : ∃ ss, v.sectors (.cluster q.fdir.cluster)
    = List.range' (v.codeSector q.fdir.cluster).toNat
        (e.sector - (v.codeSector q.fdir.cluster).toNat) ++ e.sector :: ss

/-- A new entry of the name in the place of the end of `d` is in sight, and no entry behind
it comes in sight with it. -/
def Alone (v : Volume) (d : DirLoc) (n : Name83) : Prop :=
  nameFirst n.entryName ≠ fdnFree ∧ ∀ x ∈ v.behindEnd d, ¬ x.isVisible

/-- The disk with the entry `nd` at the end `e`, for a directory with the cluster `k`. -/
def grown (v : Volume) (e : DirEntry) (nd : Bytes) (k : Nat) (dots : Bytes) : Disk :=
  ((v.taking k).put (UInt32.ofNat e.sector)
    (copy (v.view (UInt32.ofNat e.sector)) (32 * e.index) nd 32)).put (v.codeSector k) dots

/-- `fs_fat_t` behind it, in the root. -/
def grownCache (v : Volume) (e : DirEntry) (nd : Bytes) : FsFat :=
  { v.marked e with buf := copy (v.view (UInt32.ofNat e.sector)) (32 * e.index) nd 32 }

section Grown

variable {v : Volume} {d : DirLoc} {e : DirEntry} {nd dots : Bytes} {k s c : Nat} {disk : Disk}

theorem dirAt_copy (m : Bytes) (a : Nat) (nd : Bytes) : dirAt (copy m a nd 32) a = dirAt nd 0 := by
  have h : ∀ i < 32, copy m a nd 32 (a + i) = nd (0 + i) := by
    intro i hi
    rw [copy_inside (by omega) (by omega), Nat.add_sub_cancel_left, Nat.zero_add]
  have hload : ∀ i, i + 1 < 32 → load16 (copy m a nd 32) (a + i) = load16 nd (0 + i) := by
    intro i hi
    rw [load16, load16, h i (by omega), Nat.add_assoc, h (i + 1) hi, Nat.add_assoc]
  rw [dirAt, dirAt, FatDir.mk.injEq]
  exact ⟨Vector.ext fun i hi => by simpa using h i (by omega), h 11 (by omega),
    hload 20 (by omega), hload 26 (by omega)⟩

/-- The entry of a cluster, as a volume and as a disk has it. -/
theorem fatEntry_withDisk (hc : c < v.fat.entries) :
    (v.withDisk disk).fatEntry c = Csos.fatEntry v.fat disk c := by
  have h1 := v.br.reservedSectors.toNat_lt
  have h2 := v.br.sectorsPerFat.toNat_lt
  have hindex := entry_index_lt hc
  have hdiv : 2 * c / 512 = c / 256 := by omega
  have hmod : 2 * c % 512 = 2 * (c % 256) := by omega
  have hsector : UInt32.ofNat (v.fat.fatStart.toNat + c / 256) = fatSector v.fat c := by
    rw [fatSector, UInt32.ofNat_add, UInt32.ofNat_toNat]
  have hleft : (v.withDisk disk).fatEntry c
      = load16 (disk.sectors (UInt32.ofNat (v.fat.fatStart.toNat + 2 * c / 512))) (2 * c % 512) :=
    rfl
  rw [hleft, hdiv, hmod, hsector, Csos.fatEntry]

theorem fatEntry_up (hc : c < v.fat.entries) : v.fatEntry c = Csos.fatEntry v.fat v.up c := by
  have h : (v.withDisk v.up).fatEntry c = Csos.fatEntry v.fat v.up c := fatEntry_withDisk hc
  exact h

theorem taking_entry (hk : k < 256) (hc : c < v.fat.entries) :
    Csos.fatEntry v.fat (v.taking k) c
      = if c = k then 0xFFFF else Csos.fatEntry v.fat v.up c := by
  have hput : Csos.fatEntry v.fat (v.taking k) c
      = if c / 256 = k / 256 then
          load16 (store16 (v.disk (fatSector v.fat k)) (2 * k) 0xFFFF) (2 * (c % 256))
        else Csos.fatEntry v.fat v.up c :=
    fatEntry_put _ (entry_index_lt (lt_entries hk)) hc
  rw [hput]
  by_cases hsame : c = k
  · rw [if_pos hsame, hsame, if_pos rfl, Nat.mod_eq_of_lt hk]
    exact load16_store16_self (by decide)
  · rw [if_neg hsame]
    split
    case isFalse => rfl
    case isTrue hdiv =>
      have hsector : fatSector v.fat k = fatSector v.fat c := by rw [fatSector, fatSector, hdiv]
      rw [load16_congr (store16_outside (by omega)) (store16_outside (by omega)), hsector]
      rfl

theorem put_entry {x : UInt32} {buf : Bytes} (hx : OutsideFat v.fat x) (hc : c < v.fat.entries) :
    Csos.fatEntry v.fat (disk.put x buf) c = Csos.fatEntry v.fat disk c := by
  have hne : fatSector v.fat c ≠ x := (hx _ (entry_index_lt hc)).symm
  rw [Csos.fatEntry, Csos.fatEntry, Disk.put_sectors_of_ne _ _ hne]

/-- A chain that stays in the FAT is the same when a free cluster has been taken: the
chain stops there, before and after. -/
theorem chain_taken (hk : v.fatEntry k = 0) (h : ∀ c < v.fat.entries,
    (v.withDisk disk).fatEntry c = if c = k then 0xFFFF else v.fatEntry c) (n : Nat)
    (hin : ∀ c' ∈ v.chain n c, c' < v.fat.entries) :
    (v.withDisk disk).chain n c = v.chain n c := by
  induction n generalizing c with
  | zero => rfl
  | succ n ih =>
      rw [chain, chain]
      rw [chain] at hin
      by_cases hc : 2 ≤ c ∧ c < 0xFFF8
      · rw [if_pos hc] at hin
        rw [if_pos hc, if_pos hc, h c (hin c List.mem_cons_self)]
        refine congrArg (List.cons c) ?_
        by_cases hsame : c = k
        · rw [if_pos hsame, hsame, hk]
          cases n with
          | zero => rfl
          | succ n => rfl
        · rw [if_neg hsame]
          exact ih fun c' hc' => hin c' (List.mem_cons_of_mem c hc')
      · rw [if_neg hc, if_neg hc]

theorem codeSector_toNat (h : 2 ≤ k) (hk : k < 2 ^ 16) :
    (v.codeSector k).toNat = v.fat.dataStart.toNat + k - 2 := by
  have hdata := v.dataStart_lt
  have htwo : (2 : UInt32).toNat = 2 := rfl
  have hlt : k < 2 ^ 32 := by omega
  rw [codeSector, UInt32.toNat_sub, UInt32.toNat_add, UInt32.toNat_ofNat_of_lt' hlt, htwo]
  omega

theorem Room.outside (h : v.Room d k) : OutsideFat v.fat (v.codeSector k) := by
  have hdata := v.dataStart_eq
  have htwo := h.two_le
  have hlt := h.lt
  refine outsideFat_of_le ?_
  rw [codeSector_toNat htwo (by omega)]
  omega

/-- The directory has its sectors still, when two sectors outside of the FAT are written. -/
theorem Room.sectors_eq (h : v.Room d k) {x y : UInt32} (hx : OutsideFat v.fat x)
    (hy : OutsideFat v.fat y) (buf dots : Bytes) :
    (v.withDisk (((v.taking k).put x buf).put y dots)).sectors d = v.sectors d := by
  cases d with
  | root => rfl
  | cluster c =>
      have hentry : ∀ c < v.fat.entries,
          (v.withDisk (((v.taking k).put x buf).put y dots)).fatEntry c
            = if c = k then 0xFFFF else v.fatEntry c := by
        intro c hc
        rw [fatEntry_withDisk hc, put_entry hy hc, put_entry hx hc, taking_entry h.lt hc,
          fatEntry_up hc]
      have hfree : v.fatEntry k = 0 := (fatEntry_up (lt_entries h.lt)).trans h.free
      have hchain := chain_taken hfree hentry 0x10000 (h.inFat c rfl)
      rw [sectors, sectors, hchain]
      rfl

/-- The new directory changes one entry of its parent. -/
theorem Room.butOne (h : v.Room d k) (he : e.sector ∈ v.sectors d) :
    v.ButOne d (v.grown e nd k dots) e := by
  constructor
  · exact h.sectors_eq (outsideFat_sector he) h.outside _ _
  · intro s hs i hi hout
    rw [grown, Disk.put_sectors_of_ne _ _ (h.apart s hs)]
    by_cases hsame : s = e.sector
    · rw [hsame, Disk.put_sectors_self _ _ _ hi, copy_outside (by omega)]
      exact view_inside hi
    · have hne : UInt32.ofNat s ≠ UInt32.ofNat e.sector :=
        fun heq => hsame (ofNat_sector_inj (sector_lt hs) (sector_lt he) heq)
      rw [Disk.put_sectors_of_ne _ _ hne, taking_sectors (fatSector_ne_sector h.lt hs)]

theorem grown_entry (nd dots : Bytes) (h : v.Room d k) (he : e.sector ∈ v.sectors d)
    (hindex : e.index < 16) :
    dirAt ((v.grown e nd k dots).sectors (UInt32.ofNat e.sector)) (32 * e.index)
      = dirAt nd 0 := by
  rw [← dirAt_copy (v.view (UInt32.ofNat e.sector)) (32 * e.index) nd]
  refine dirAt_congr fun i hi => ?_
  rw [grown, Disk.put_sectors_of_ne _ _ (h.apart _ he), Disk.put_sectors_self _ _ _ (by omega)]

/-- What the parent shows with the new entry. -/
theorem visible_grown (dots : Bytes) {before as bs behind : List DirEntry}
    (hsplit : v.EndSplit d e before as bs behind) (hnodup : (v.sectors d).Nodup)
    (h : v.Room d k) (hname : nameFirst (dirAt nd 0).name ≠ fdnEnd) :
    (v.withDisk (v.grown e nd k dots)).visible d
      = v.visible d ++ ({ e with fdir := dirAt nd 0 } :: v.behindEnd d).filter
          DirEntry.isVisible := by
  obtain ⟨-, hindex, -⟩ := mem_entriesIn
    (hsplit.sector ▸ List.mem_append_right as List.mem_cons_self)
  have hentry := grown_entry nd dots h hsplit.mem hindex
  have hnew := hsplit.entriesOf_new hnodup (h.butOne hsplit.mem) (hentry ▸ hname)
  rw [hentry] at hnew
  have hvisible : (v.withDisk (v.grown e nd k dots)).visible d
      = ((v.withDisk (v.grown e nd k dots)).entriesOf d).filter DirEntry.isVisible := rfl
  rw [hvisible, hnew, List.filter_append]
  rfl

/-- One entry more is shown when the new one is visible, and nothing else comes in sight. -/
theorem made_grown {p : AbsPath} {ps : List Name83} {n : Name83}
    {before as bs behind : List DirEntry} (hp : p.names = ps ++ [n]) (hd : v.dirOf ps = some d)
    (hsplit : v.EndSplit d e before as bs behind) (hnodup : (v.sectors d).Nodup)
    (h : v.Room d k) (hname : (dirAt nd 0).name = n.entryName) (hattr : (dirAt nd 0).attr = 0x10)
    (hcluster : (dirAt nd 0).cluster = k) :
    v.Made p (v.grown e nd k dots) ↔ v.Alone d n := by
  have hvisible := visible_grown dots hsplit hnodup h (hname ▸ entryName_ne_end n)
  have htype : treeType (dirAt nd 0) = .dir := by
    rw [treeType, hattr]
    rfl
  have hvis : nameFirst n.entryName ≠ fdnFree →
      DirEntry.isVisible { e with fdir := dirAt nd 0 } := by
    intro hfree
    refine decide_eq_true ⟨by rwa [hname], ?_⟩
    rw [htype]
    exact FatType.noConfusion
  constructor
  · rintro ⟨ps', n', d', e', as', bs', hp', hd', hold, hnew, hname', -, -⟩
    obtain ⟨rfl, hn⟩ := List.append_inj' (hp.symm.trans hp') rfl
    obtain rfl := List.singleton_inj.mp hn
    obtain rfl := Option.some.inj (hd.symm.trans hd')
    have hfree : nameFirst n.entryName ≠ fdnFree := by
      have hmem : e' ∈ (v.withDisk (v.grown e nd k dots)).visible d := by
        rw [hnew]
        exact List.mem_append_right _ List.mem_cons_self
      obtain ⟨hfree, -⟩ := of_decide_eq_true (List.mem_filter.mp hmem).2
      rwa [hname'] at hfree
    rw [List.filter_cons_of_pos (hvis hfree), hnew, hold] at hvisible
    have hlen := congrArg List.length hvisible
    simp only [List.length_append, List.length_cons] at hlen
    refine ⟨hfree, fun x hx hxvis => ?_⟩
    have hpos := List.length_pos_of_mem (List.mem_filter.mpr ⟨hx, hxvis⟩)
    omega
  · rintro ⟨hfree, hbehind⟩
    rw [List.filter_cons_of_pos (hvis hfree), List.filter_eq_nil_iff.mpr hbehind] at hvisible
    refine ⟨ps, n, d, _, v.visible d, [], hp, hd, (List.append_nil _).symm, hvisible, hname,
      htype, ?_⟩
    rw [hcluster]
    exact h.free

end Grown

/-! ## The runs -/

section Runs

variable {v : Volume} {fat : FsFat} {stack : PathStack} {ndir nd : Bytes} {path name : Chars}
  {clock : FatClock} {e : DirEntry} {disk : Disk} {k n m : Nat} {r : MkdirEnd}

theorem parentPath_le {type : ParentType} {r : ParentEnd}
    (h : readFatDirFromParentPath v.read stack v.fat path type n = some r) (hle : n ≤ m) :
    readFatDirFromParentPath v.read stack v.fat path type m = some r := by
  by_cases hroot : (splitPath path).1 = []
  · rw [readFatDirFromParentPath] at h ⊢
    dsimp only at h ⊢
    rw [if_pos hroot] at h ⊢
    exact h
  · rw [readFatDirFromParentPath_eq hroot] at h ⊢
    obtain ⟨r', hr', hr⟩ := Option.map_eq_some_iff.mp h
    refine Option.map_eq_some_iff.mpr ⟨r', ?_, hr⟩
    rw [readFatPathCluster] at hr' ⊢
    split at hr'
    case isTrue hslash => rwa [if_pos hslash]
    case isFalse hslash =>
      rw [if_neg hslash]
      exact loopFor_le hr' hle

theorem mkdirFrom_le {r' : ParentEnd} (h : mkdirFrom disk ndir name clock n r' = some r)
    (hle : n ≤ m) : mkdirFrom disk ndir name clock m r' = some r := by
  cases r' with
  | fault f => exact h
  | nullPointer => exact h
  | returned fat dir =>
      cases dir with
      | none => exact h
      | some i =>
          rw [mkdirFrom, mkdirAt] at h ⊢
          cases halloc : fatAllocDir fat disk ndir 0 name 0x10 0 clock with
          | fault =>
              rw [halloc] at h
              exact h
          | returned made disk' =>
              obtain ⟨nd, ret⟩ := made
              rw [halloc] at h
              dsimp only at h ⊢
              by_cases hret : ret < 0
              · rw [if_pos hret] at h ⊢
                exact h
              · rw [if_neg hret] at h ⊢
                by_cases hend : nameFirst (dirAt fat.buf (32 * i)).name = fdnEnd
                · rw [if_pos hend] at h ⊢
                  exact h
                · rw [if_neg hend] at h ⊢
                  exact loopFor_le h hle

/-- The call comes to what it does behind the lookup of the parent. -/
theorem mkdirEnds_iff :
    v.MkdirEnds stack ndir path clock r
      ↔ ∃ r', v.ParentEnds stack path .mkdir r'
        ∧ ∃ n, mkdirFrom v.up ndir (splitPath path).2 clock n r' = some r := by
  constructor
  · rintro ⟨n, h⟩
    obtain ⟨r', hr', h⟩ := Option.bind_eq_some_iff.mp h
    exact ⟨r', ⟨n, hr'⟩, n, h⟩
  · rintro ⟨r', ⟨n, hr'⟩, m, h⟩
    refine ⟨max n m, Option.bind_eq_some_iff.mpr ⟨r', ?_, ?_⟩⟩
    · exact parentPath_le hr' (Nat.le_max_left n m)
    · exact mkdirFrom_le h (Nat.le_max_right n m)

theorem writeDirData_eq (fat : FsFat) {disk : Disk} (hup : disk.up = true) (nd : Bytes)
    (pc : UInt32) :
    ∃ dots, fatFsWriteDirData fat disk nd pc
      = (0, disk.put (fat.dataStart + dirCluster nd - 2) dots) := by
  rw [fatFsWriteDirData, Disk.write_of_up hup, dirCluster_attr]
  exact ⟨_, rfl⟩

theorem storeCluster_outside {m : Bytes} {i b : Nat} {x : UInt32}
    (h : b < 32 * i + 20 ∨ 32 * i + 28 ≤ b) : storeCluster m i x b = m b := by
  rw [storeCluster, store16_outside (by omega), store16_outside (by omega)]

/-- The number of the sector is overwritten by the new entry. -/
theorem copy_storeCluster (m : Bytes) (i : Nat) (x : UInt32) (nd : Bytes) :
    copy (storeCluster m i x) (32 * i) nd 32 = copy m (32 * i) nd 32 := by
  funext b
  by_cases hin : 32 * i ≤ b ∧ b < 32 * i + 32
  · rw [copy_inside hin.1 hin.2, copy_inside hin.1 hin.2]
  · rw [copy_outside (by omega), copy_outside (by omega), storeCluster_outside (by omega)]

theorem newDir_entry (ndir : Bytes) (name : Chars) (clock : FatClock) (hk : k < 256) :
    (dirAt (newDir ndir 0 name 0x10 0 clock k) 0).name = fatToSfn name
      ∧ (dirAt (newDir ndir 0 name 0x10 0 clock k) 0).attr = 0x10
      ∧ (dirAt (newDir ndir 0 name 0x10 0 clock k) 0).cluster = k :=
  dirAt_newDir (Nat.lt_trans hk (by decide))

/-- A new entry in the root. -/
theorem mkdirAt_root (he : e ∈ v.slots .root) (hend : e.isEnd)
    (hfree : ∃ c < 256, Csos.fatEntry v.fat v.up c = 0) (ndir : Bytes) (name : Chars)
    (clock : FatClock) :
    ∃ k < 256, FirstFree v.fat v.up k ∧ ∃ dots, ∀ n,
      mkdirAt (v.marked e) v.up ndir name clock e.index n
        = some (.returned 0 (v.grownCache e (newDir ndir 0 name 0x10 0 clock k))
            (v.grown e (newDir ndir 0 name 0x10 0 clock k) k dots)) := by
  have hsame : SameVolume v.fat (v.marked e) := ⟨_, _, rfl⟩
  obtain ⟨k, hk, hfirst, halloc⟩ := fatAllocDir_free hsame hfree ndir 0 name 0x10 0 clock
  obtain ⟨-, -, hcluster⟩ := newDir_entry ndir name clock hk
  refine ⟨k, hk, hfirst, ?_⟩
  generalize newDir ndir 0 name 0x10 0 clock k = nd at halloc hcluster ⊢
  obtain ⟨s, hs, hmem⟩ := List.mem_flatMap.mp he
  obtain ⟨rfl, hindex, hfdir⟩ := mem_entriesIn hmem
  have hbuf : copy (v.marked e).buf (32 * e.index) nd 32
      = copy (v.view (UInt32.ofNat e.sector)) (32 * e.index) nd 32 := copy_storeCluster _ _ _ _
  have hname : nameFirst (dirAt (v.marked e).buf (32 * e.index)).name = fdnEnd := by
    have hzero := of_decide_eq_true hend
    have hkept : (v.marked e).buf (32 * e.index + 0)
        = v.view (UInt32.ofNat e.sector) (32 * e.index + 0) := storeCluster_outside (by omega)
    rw [hfdir, ← dirAt_view hindex] at hzero
    simp only [dirAt, Vector.getElem_ofFn] at hzero ⊢
    rw [hkept, hzero]
  have hwritten : UInt32.ofNat (dirAt (v.marked e).buf (32 * e.index)).cluster
      = UInt32.ofNat e.sector := cluster_storeCluster _ _ _
  have hcode : (v.marked e).dataStart + dirCluster nd - 2 = v.codeSector k := by
    rw [dirCluster, hcluster]
    rfl
  have hup : ((v.taking k).put (UInt32.ofNat e.sector)
      (copy (v.view (UInt32.ofNat e.sector)) (32 * e.index) nd 32)).up = true := rfl
  obtain ⟨dots, hdots⟩ := writeDirData_eq (v.marked e) hup nd 0
  rw [hcode] at hdots
  refine ⟨dots, fun n => ?_⟩
  rw [mkdirAt, halloc]
  dsimp only
  rw [if_neg (by decide), if_pos hname, hwritten, Disk.write_of_up rfl, hbuf]
  dsimp only
  rw [hdots]
  rfl

end Runs

/-! ## Below the root -/

/-- The next sector to be read is another one than that in the cache. -/
structure Ready (v : Volume) (fat : FsFat) (x : UInt32) : Prop where
  volume : SameVolume v.fat fat
  behind : ∀ i, diskSectorSize ≤ i → fat.buf i = v.fat.buf i
  other : x ≠ fat.pcs

section Below

variable {v : Volume} {fat : FsFat} {stack : PathStack} {ndir nd : Bytes} {path name : Chars}
  {clock : FatClock} {e q : DirEntry} {k n m s o left : Nat} {r : MkdirEnd} {x : UInt32}

theorem ready_taken (hindex : q.index < 16) (hx : x ≠ UInt32.ofNat q.sector) :
    v.Ready (v.taken q) x where
  volume := ⟨_, _, rfl⟩
  behind := by
    intro i hi
    rw [diskSectorSize] at hi
    have hkept : (v.taken q).buf i = v.view (UInt32.ofNat q.sector) i :=
      storeWritten_outside (by omega)
    rw [hkept]
    exact view_behind hi
  other := hx

theorem ready_holding {y : UInt32} (hx : x ≠ y) : v.Ready (v.holding y) x where
  volume := ⟨_, _, rfl⟩
  behind := fun _ hi => view_behind hi
  other := hx

/-- The sector is read as it was before the cluster was taken. -/
theorem bread_taking (h : v.Ready fat x) (hx : x ≠ fatSector v.fat k) :
    fsBread (v.taking k).read fat x = (v.holding x, true) := by
  obtain ⟨⟨buf, pcs, rfl⟩, hbehind, hother⟩ := h
  have hread : (v.taking k).read x = some (v.disk x) := by
    have hsome : (v.taking k).read x = some ((v.taking k).sectors x) := Disk.read_of_up rfl x
    rw [hsome, taking_sectors hx]
  have hview : copy buf 0 (v.disk x) diskSectorSize = v.view x := by
    funext i
    by_cases hi : i < diskSectorSize
    · rw [view_inside hi]
      exact copy_inside (Nat.zero_le i) (by omega)
    · rw [view_behind (Nat.le_of_not_lt hi), copy_outside (Or.inr (by omega))]
      exact hbehind i (Nat.le_of_not_lt hi)
  rw [fsBread, if_neg hother, hread]
  dsimp only
  rw [hview]
  rfl

/-- The scan for the name, in a sector. -/
theorem scanName_eq {b : Bytes} (hb : ∀ i < 512, b i = v.disk (UInt32.ofNat s) i)
    (ho : o + left = 16) :
    scanName b name left o
      = match ((v.entriesIn s).drop o).find? (DirEntry.stopsName (fatToSfn name)) with
        | none => .stopped 16
        | some e => if e.isEnd then .stopped e.index else .isThere := by
  induction left generalizing o with
  | zero =>
      have hnil : (v.entriesIn s).drop o = [] := by
        rw [List.drop_eq_nil_iff, entriesIn, List.length_map, List.length_range]
        omega
      have h16 : o = 16 := by omega
      rw [hnil, h16]
      rfl
  | succ left ih =>
      rw [scanName, dirAt_agrees hb (by omega), drop_entriesIn (by omega), List.find?_cons]
      generalize dirAt (v.disk (UInt32.ofNat s)) (32 * o) = fdir
      by_cases hend : nameFirst fdir.name = fdnEnd
      · have hisEnd : DirEntry.isEnd ⟨s, o, fdir⟩ = true := decide_eq_true hend
        rw [if_pos hend, DirEntry.stopsName, hisEnd, Bool.true_or]
        exact (if_pos hisEnd).symm
      · have hisEnd : DirEntry.isEnd ⟨s, o, fdir⟩ = false := decide_eq_false hend
        rw [if_neg hend, DirEntry.stopsName, hisEnd, Bool.false_or]
        by_cases hmatch : matchFatName fdir name = true
        · have hname : fdir.name = fatToSfn name := (matchFatName_iff_sfn fdir name).mp hmatch
          rw [if_pos hmatch, decide_eq_true hname]
          exact (if_neg (Bool.eq_false_iff.mp hisEnd)).symm
        · have hname : ¬ fdir.name = fatToSfn name :=
            fun h => hmatch ((matchFatName_iff_sfn fdir name).mpr h)
          rw [if_neg hmatch, decide_eq_false hname, ih (by omega)]

theorem scanName_view (name : Chars) :
    scanName (v.view (UInt32.ofNat s)) name 16 0
      = match (v.entriesIn s).find? (DirEntry.stopsName (fatToSfn name)) with
        | none => .stopped 16
        | some e => if e.isEnd then .stopped e.index else .isThere := by
  have h : scanName (v.view (UInt32.ofNat s)) name 16 0
      = match ((v.entriesIn s).drop 0).find? (DirEntry.stopsName (fatToSfn name)) with
        | none => .stopped 16
        | some e => if e.isEnd then .stopped e.index else .isThere :=
    scanName_eq (fun i hi => view_inside hi) rfl
  rwa [List.drop_zero] at h

/-- A sector with an end, and no entry of the name before. -/
theorem round_end (h : v.Ready fat (UInt32.ofNat s)) (hs : UInt32.ofNat s ≠ fatSector v.fat k)
    (hfind : (v.entriesIn s).find? (DirEntry.stopsName (fatToSfn name)) = some e)
    (hend : e.isEnd) (hcluster : dirCluster nd = UInt32.ofNat k) :
    ∃ fat' dots, mkdirRound (v.taking k) name nd (fat, UInt32.ofNat s)
      = .leave (.returned 0 fat' (v.grown e nd k dots)) := by
  obtain ⟨rfl, hindex, hfdir⟩ := mem_entriesIn (List.mem_of_find?_eq_some hfind)
  have hscan : scanName (v.holding (UInt32.ofNat e.sector)).buf name 16 0 = .stopped e.index := by
    have hview := scanName_view (v := v) (s := e.sector) name
    rw [hfind] at hview
    exact hview.trans (if_pos hend)
  have hzero : nameFirst (dirAt (v.holding (UInt32.ofNat e.sector)).buf (32 * e.index)).name
      = fdnEnd := by
    have hview : dirAt (v.holding (UInt32.ofNat e.sector)).buf (32 * e.index) = e.fdir :=
      (dirAt_view hindex).trans hfdir.symm
    rw [hview]
    exact of_decide_eq_true hend
  have hup : ((v.taking k).put (UInt32.ofNat e.sector)
      (copy (v.view (UInt32.ofNat e.sector)) (32 * e.index) nd 32)).up = true := rfl
  obtain ⟨dots, hdots⟩ := writeDirData_eq (v.holding (UInt32.ofNat e.sector)) hup nd
    (UInt32.ofNat e.sector)
  rw [hcluster] at hdots
  refine ⟨{ v.holding (UInt32.ofNat e.sector) with
    buf := copy (v.view (UInt32.ofNat e.sector)) (32 * e.index) nd 32 }, dots, ?_⟩
  rw [mkdirRound, bread_taking h hs]
  dsimp only
  rw [hscan]
  dsimp only
  rw [if_pos hzero, Disk.write_of_up rfl]
  dsimp only
  have hbuf : (v.holding (UInt32.ofNat e.sector)).buf = v.view (UInt32.ofNat e.sector) := rfl
  rw [hbuf, hdots]
  rfl

/-- The first byte behind a full sector. -/
theorem name_behind : nameFirst (dirAt (v.holding x).buf (32 * 16)).name = v.fat.buf 512 := by
  have hbuf : (v.holding x).buf = v.view x := rfl
  rw [hbuf]
  simp only [dirAt, Vector.getElem_ofFn]
  exact view_behind (by decide)

theorem scan_full
    (hfind : (v.entriesIn s).find? (DirEntry.stopsName (fatToSfn name)) = none) :
    scanName (v.holding (UInt32.ofNat s)).buf name 16 0 = .stopped 16 := by
  have hview := scanName_view (v := v) (s := s) name
  rw [hfind] at hview
  exact hview

/-- A full sector, when the byte behind it is not zero: the next sector comes. -/
theorem round_full (nd : Bytes) (h : v.Ready fat (UInt32.ofNat s))
    (hs : UInt32.ofNat s ≠ fatSector v.fat k)
    (hfind : (v.entriesIn s).find? (DirEntry.stopsName (fatToSfn name)) = none)
    (hbehind : v.fat.buf 512 ≠ fdnEnd) :
    mkdirRound (v.taking k) name nd (fat, UInt32.ofNat s)
      = .again (v.holding (UInt32.ofNat s), UInt32.ofNat s + 1) := by
  have hzero : ¬ nameFirst (dirAt (v.holding (UInt32.ofNat s)).buf (32 * 16)).name = fdnEnd := by
    rw [name_behind]
    exact hbehind
  rw [mkdirRound, bread_taking h hs]
  dsimp only
  rw [scan_full hfind]
  dsimp only
  rw [if_neg hzero]

/-- The sectors that are passed on the way. -/
theorem ends_full (hfull : ∀ j < m,
      (v.entriesIn (s + j)).find? (DirEntry.stopsName (fatToSfn name)) = none)
    (hfat : ∀ j < m, UInt32.ofNat (s + j) ≠ fatSector v.fat k)
    (hbehind : 0 < m → v.fat.buf 512 ≠ fdnEnd) (hlt : s + m < 2 ^ 31)
    (h : v.Ready fat (UInt32.ofNat s)) (nd : Bytes) :
    ∃ fat', v.Ready fat' (UInt32.ofNat (s + m))
      ∧ ∀ r, Ends (mkdirRound (v.taking k) name nd) (fat, UInt32.ofNat s) r
        ↔ Ends (mkdirRound (v.taking k) name nd) (fat', UInt32.ofNat (s + m)) r := by
  induction m generalizing s fat with
  | zero => exact ⟨fat, h, fun r => Iff.rfl⟩
  | succ m ih =>
      have hnext : UInt32.ofNat s + 1 = UInt32.ofNat (s + 1) := by
        rw [UInt32.ofNat_add]
        rfl
      have hne : UInt32.ofNat (s + 1) ≠ UInt32.ofNat s := by
        intro heq
        have hsame := ofNat_sector_inj (by omega) (by omega) heq
        omega
      have hround := round_full nd h (hfat 0 (by omega)) (hfull 0 (by omega)) (hbehind (by omega))
      have hsucc : ∀ j, s + 1 + j = s + (j + 1) := fun j => by omega
      obtain ⟨fat', hready, hends⟩ := ih (s := s + 1)
        (fun j hj => hsucc j ▸ hfull (j + 1) (by omega))
        (fun j hj => hsucc j ▸ hfat (j + 1) (by omega)) (fun _ => hbehind (by omega)) (by omega)
        (ready_holding hne)
      rw [hsucc] at hready hends
      refine ⟨fat', hready, fun r => ?_⟩
      rw [← hends, ← hnext]
      exact ends_again_iff hround

theorem Enters.le_rootStart (h : v.Enters stack path q)
    (hs : (v.codeSector q.fdir.cluster).toNat ≤ s) : v.fat.rootStart.toNat ≤ s := by
  obtain ⟨htwo, hlt⟩ := h.cluster
  have hdata := v.dataStart_eq
  rw [codeSector_toNat htwo (by omega)] at hs
  omega

/-- Behind `data_start` there is no sector of the FAT. -/
theorem Enters.ne_fatSector (h : v.Enters stack path q) (hk : k < 256)
    (hs : (v.codeSector q.fdir.cluster).toNat ≤ s) (hlt : s < 2 ^ 32) :
    UInt32.ofNat s ≠ fatSector v.fat k := by
  refine outsideFat_of_le ?_ _ (entry_index_lt (lt_entries hk))
  rw [UInt32.toNat_ofNat_of_lt' hlt]
  exact h.le_rootStart hs

/-- The first sector of the parent is not the one in the cache. -/
theorem Enters.ready (h : v.Enters stack path q) :
    v.Ready (v.taken q) (UInt32.ofNat (v.codeSector q.fdir.cluster).toNat) := by
  refine ready_taken h.index fun heq => h.apart ?_
  have hq := (looksUp_slot h.looksUp).2
  have hnat := congrArg UInt32.toNat heq
  rw [UInt32.ofNat_toNat, UInt32.toNat_ofNat_of_lt' (Nat.lt_trans hq (by decide))] at hnat
  exact hnat.symm

/-- With a parent's entry, the call is its loop, on the disk with a cluster taken. -/
theorem Enters.ends (h : v.Enters stack path q) (hcache : v.Cached v.fat)
    (hfree : ∃ c < 256, Csos.fatEntry v.fat v.up c = 0) (ndir : Bytes) (clock : FatClock) :
    ∃ k < 256, FirstFree v.fat v.up k ∧ ∀ r, v.MkdirEnds stack ndir path clock r
      ↔ Ends (mkdirRound (v.taking k) (splitPath path).2
          (newDir ndir 0 (splitPath path).2 0x10 0 clock k))
        (v.taken q, v.codeSector q.fdir.cluster) r := by
  have hsame : SameVolume v.fat (v.taken q) := ⟨_, _, rfl⟩
  obtain ⟨k, hk, hfirst, halloc⟩ :=
    fatAllocDir_free hsame hfree ndir 0 (splitPath path).2 0x10 0 clock
  obtain ⟨hslot, -⟩ := looksUp_slot h.looksUp
  have hfdir : q.fdir = dirAt (v.view (UInt32.ofNat q.sector)) (32 * q.index) :=
    congrArg DirEntry.fdir hslot
  have hname : ¬ nameFirst (dirAt (v.taken q).buf (32 * q.index)).name = fdnEnd := by
    have hkept : (v.taken q).buf (32 * q.index + 0)
        = v.view (UInt32.ofNat q.sector) (32 * q.index + 0) := storeWritten_outside (by omega)
    have hnot : nameFirst q.fdir.name ≠ fdnEnd := fun heq => h.inUse (decide_eq_true heq)
    rw [hfdir] at hnot
    simp only [dirAt, Vector.getElem_ofFn] at hnot ⊢
    rwa [hkept]
  have hcluster : (dirAt (v.taken q).buf (32 * q.index)).cluster = q.fdir.cluster := by
    rw [hfdir]
    exact cluster_storeWritten _ _ _
  have hparent : ∀ r', v.ParentEnds stack path .mkdir r'
      ↔ r' = .returned (v.taken q) (some q.index) :=
    fun r' => parentEnds_looksUp hcache h.below h.looksUp
  have hloop : ∀ n, mkdirFrom v.up ndir (splitPath path).2 clock n
        (.returned (v.taken q) (some q.index))
      = loopFor (mkdirRound (v.taking k) (splitPath path).2
          (newDir ndir 0 (splitPath path).2 0x10 0 clock k)) n
          (v.taken q, v.codeSector q.fdir.cluster) := by
    intro n
    rw [mkdirFrom, mkdirAt, halloc]
    dsimp only
    rw [if_neg (by decide), if_neg hname, hcluster]
    rfl
  refine ⟨k, hk, hfirst, fun r => ?_⟩
  rw [mkdirEnds_iff]
  constructor
  · rintro ⟨r', hr', n, hn⟩
    rw [(hparent r').mp hr', hloop] at hn
    exact ⟨n, hn⟩
  · rintro ⟨n, hn⟩
    exact ⟨_, (hparent _).mpr rfl, n, (hloop n).trans hn⟩

/-- The loop comes to the sector of the entry where the scan stops. -/
theorem Enters.ends_reaches (h : v.Enters stack path q) (hcache : v.Cached v.fat)
    (hfree : ∃ c < 256, Csos.fatEntry v.fat v.up c = 0)
    (hr : v.Reaches q.fdir.cluster (fatToSfn (splitPath path).2) e) (ndir : Bytes)
    (clock : FatClock) :
    ∃ k < 256, FirstFree v.fat v.up k ∧ ∃ fat, v.Ready fat (UInt32.ofNat e.sector)
      ∧ ∀ r, v.MkdirEnds stack ndir path clock r
        ↔ Ends (mkdirRound (v.taking k) (splitPath path).2
            (newDir ndir 0 (splitPath path).2 0x10 0 clock k))
          (fat, UInt32.ofNat e.sector) r := by
  obtain ⟨k, hk, hfirst, hends⟩ := h.ends hcache hfree ndir clock
  have hle := hr.le
  have hlt := hr.lt
  obtain ⟨m, hm⟩ := Nat.exists_eq_add_of_le hle
  obtain ⟨fat, hready', hends'⟩ := ends_full
    (fun j hj => hr.full _ (Nat.le_add_right _ j) (by omega))
    (fun j hj => h.ne_fatSector hk (Nat.le_add_right _ j) (by omega))
    (fun hpos => hr.behind (by omega)) (by omega : _ + m < 2 ^ 31) h.ready
    (newDir ndir 0 (splitPath path).2 0x10 0 clock k)
  rw [← hm] at hready' hends'
  refine ⟨k, hk, hfirst, fat, hready', fun r => ?_⟩
  rw [hends, ← hends', UInt32.ofNat_toNat]

end Below

/-! ## The law -/

section Law

variable {v : Volume} {stack : PathStack} {ndir : Bytes} {p : AbsPath} {path : Chars}
  {clock : FatClock} {d : DirLoc} {n : Name83} {ps : List Name83} {e q : DirEntry} {k : Nat}
  {fat : FsFat} {disk : Disk}

theorem firstFree_unique {k' : Nat} (h : FirstFree v.fat v.up k) (h' : FirstFree v.fat v.up k') :
    k = k' := by
  rcases Nat.lt_trichotomy k k' with hlt | heq | hlt
  · exact absurd h.free (h'.used k hlt)
  · exact heq
  · exact absurd h'.free (h.used k' hlt)

theorem room_root (hfirst : FirstFree v.fat v.up k) (htwo : 2 ≤ k) (hlt : k < 256) :
    v.Room .root k where
  two_le := htwo
  lt := hlt
  free := hfirst.free
  apart := by
    intro s hs heq
    have hdata := v.dataStart_eq
    have hnat := congrArg UInt32.toNat heq
    obtain ⟨-, hroot⟩ := List.mem_range'_1.mp hs
    rw [codeSector_toNat htwo (by omega),
      UInt32.toNat_ofNat_of_lt' (Nat.lt_trans (sector_lt hs) (by decide))] at hnat
    omega
  inFat := nofun

/-- A directory in the root: what the call comes to. -/
theorem mkdirEnds_root (hcache : v.Cached v.fat) (hroot : (splitPath path).1 = [])
    (hstop : v.stopAt (fatToSfn (splitPath path).2) = some e) (hend : e.isEnd)
    (hfree : ∃ c < 256, Csos.fatEntry v.fat v.up c = 0) (stack : PathStack) (ndir : Bytes)
    (clock : FatClock) :
    ∃ k < 256, FirstFree v.fat v.up k ∧ ∃ dots, ∀ r, v.MkdirEnds stack ndir path clock r
      ↔ r = .returned 0 (v.grownCache e (newDir ndir 0 (splitPath path).2 0x10 0 clock k))
          (v.grown e (newDir ndir 0 (splitPath path).2 0x10 0 clock k) k dots) := by
  obtain ⟨k, hk, hfirst, dots, hat⟩ := mkdirAt_root (List.mem_of_find?_eq_some hstop) hend
    hfree ndir (splitPath path).2 clock
  obtain ⟨fat', -, hparent⟩ := parentEnds_root hcache hroot .mkdir stack
  have hmarked : v.rootParent .mkdir e = (v.marked e, some e.index) := if_pos hend
  rw [hstop] at hparent
  dsimp only at hparent
  rw [hmarked] at hparent
  refine ⟨k, hk, hfirst, dots, fun r => ?_⟩
  rw [mkdirEnds_iff]
  constructor
  · rintro ⟨r', hr', m, hm⟩
    rw [(hparent r').mp hr'] at hm
    exact (Option.some.inj ((hat m).symm.trans hm)).symm
  · rintro rfl
    exact ⟨_, (hparent _).mpr rfl, 0, hat 0⟩

/-- The name of a path in the root. -/
theorem splitPath_root (hp : p.names = [n]) (hslash : p.slash = false) :
    splitPath p.text = ([], n.text) := by
  have htext : p.text = 0x2F :: n.text := by
    rw [AbsPath.text, hp, hslash]
    exact congrArg (List.cons 0x2F) (List.append_nil n.text)
  rw [htext]
  exact splitPath_name n

/-- In the root. -/
theorem EndInRoot.made (h : v.EndInRoot p n e k) (hcache : v.Cached v.fat) (stack : PathStack)
    (ndir : Bytes) (clock : FatClock) :
    ∃ fat disk, (∀ r, v.MkdirEnds stack ndir p.text clock r ↔ r = .returned 0 fat disk)
      ∧ (v.Made p disk ↔ v.Alone .root n) := by
  have hpath := splitPath_root h.names h.slash
  have hroot : (splitPath p.text).1 = [] := congrArg Prod.fst hpath
  have hname : (splitPath p.text).2 = n.text := congrArg Prod.snd hpath
  have hsfn : fatToSfn (splitPath p.text).2 = n.entryName := by rw [hname, fatToSfn_text]
  have hfree : ∃ c < 256, Csos.fatEntry v.fat v.up c = 0 := ⟨k, h.lt, h.first.free⟩
  have hstop : v.stopAt (fatToSfn (splitPath p.text).2) = some e := by
    rw [hsfn]
    exact h.stopAt
  obtain ⟨k', hk', hfirst, dots, hends⟩ :=
    mkdirEnds_root hcache hroot hstop h.isEnd hfree stack ndir clock
  obtain rfl := firstFree_unique h.first hfirst
  obtain ⟨before, as, bs, behind, hsplit, -⟩ := endSplit h.stopAt h.isEnd
  obtain ⟨hentry, hattr, hcluster⟩ := newDir_entry ndir (splitPath p.text).2 clock h.lt
  rw [hsfn] at hentry
  have hnames : p.names = [] ++ [n] := h.names
  exact ⟨_, _, hends, made_grown hnames rfl hsplit sectors_root_nodup
    (room_root h.first h.two_le h.lt) hentry hattr hcluster⟩

theorem EndBelow.splits (h : v.EndBelow stack p ps n q e k) :
    ∃ before as bs behind, v.EndSplit (.cluster q.fdir.cluster) e before as bs behind := by
  obtain ⟨ss, hss⟩ := h.inOrder
  obtain ⟨-, as, bs, hsector, has⟩ := List.find?_eq_some_iff_append.mp h.reaches.here
  refine ⟨(List.range' (v.codeSector q.fdir.cluster).toNat
    (e.sector - (v.codeSector q.fdir.cluster).toNat)).flatMap v.entriesIn, as, bs,
    ss.flatMap v.entriesIn, ?_, hsector, ?_, h.isEnd, ?_⟩
  · rw [slots, hss, List.flatMap_append, List.flatMap_cons, hsector]
    simp
  · rw [hss]
    exact List.mem_append_right _ List.mem_cons_self
  · intro x hx hend
    rcases List.mem_append.mp hx with hx | hx
    · obtain ⟨s, hs, hmem⟩ := List.mem_flatMap.mp hx
      obtain ⟨hle, hlt⟩ := List.mem_range'_1.mp hs
      have hnone := List.find?_eq_none.mp (h.reaches.full s hle (by omega)) x hmem
      rw [DirEntry.stopsName, hend, Bool.true_or] at hnone
      exact hnone rfl
    · have hnot := has x hx
      rw [DirEntry.stopsName, hend, Bool.true_or] at hnot
      cases hnot

theorem pathText_append (slash : Bool) (ps : List Name83) (n : Name83) :
    pathText slash (ps ++ [n]) = pathText false ps ++ 0x2F :: (n.text ++ pathText slash []) := by
  induction ps with
  | nil => rfl
  | cons m ps ih =>
      have hcons : ∀ b names, pathText b (m :: names) = 0x2F :: (m.text ++ pathText b names) :=
        fun _ _ => rfl
      rw [List.cons_append, hcons, hcons, ih, List.cons_append, List.append_assoc]

/-- The last name of a path. -/
theorem splitPath_append (hp : p.names = ps ++ [n]) (hslash : p.slash = false) :
    splitPath p.text = (pathText false ps, n.text) := by
  have htext : p.text = pathText false ps ++ 0x2F :: n.text := by
    rw [AbsPath.text, hp, hslash, pathText_append]
    simp [pathText]
  have hwhile : (p.text.reverse.takeWhile fun c => c ≠ 0x2F).reverse = n.text := by
    have hrev : p.text.reverse = n.text.reverse ++ 0x2F :: (pathText false ps).reverse := by
      rw [htext]
      simp
    have hno : ∀ c ∈ n.text.reverse, decide (c ≠ 0x2F) = true :=
      fun c hc => decide_eq_true (n.slash_notMem_text c (List.mem_reverse.mp hc))
    rw [hrev, List.takeWhile_append_of_pos hno, List.takeWhile_cons_of_neg (by simp)]
    simp
  have hlen : (pathText false ps ++ 0x2F :: n.text).length - n.text.length - 1
      = (pathText false ps).length := by
    rw [List.length_append, List.length_cons]
    omega
  rw [splitPath, hwhile, htext, hlen, List.take_left]

/-- The end that the loop reaches gets the new entry. -/
theorem Enters.ends_atEnd (h : v.Enters stack path q) (hcache : v.Cached v.fat)
    (hfree : ∃ c < 256, Csos.fatEntry v.fat v.up c = 0)
    (hr : v.Reaches q.fdir.cluster (fatToSfn (splitPath path).2) e) (hend : e.isEnd)
    (ndir : Bytes) (clock : FatClock) :
    ∃ k < 256, FirstFree v.fat v.up k ∧ ∃ fat dots, ∀ r, v.MkdirEnds stack ndir path clock r
      ↔ r = .returned 0 fat
          (v.grown e (newDir ndir 0 (splitPath path).2 0x10 0 clock k) k dots) := by
  obtain ⟨k, hk, hfirst, fat, hready, hiff⟩ := h.ends_reaches hcache hfree hr ndir clock
  obtain ⟨-, -, hcluster⟩ := newDir_entry ndir (splitPath path).2 clock hk
  have hdir : dirCluster (newDir ndir 0 (splitPath path).2 0x10 0 clock k) = UInt32.ofNat k :=
    congrArg UInt32.ofNat hcluster
  have hsector := h.ne_fatSector hk hr.le (Nat.lt_trans hr.lt (by decide))
  obtain ⟨fat', dots, hround⟩ := round_end hready hsector hr.here hend hdir
  exact ⟨k, hk, hfirst, fat', dots, fun r => (hiff r).trans (ends_leave_iff hround)⟩

/-- Below the root. -/
theorem EndBelow.made (h : v.EndBelow stack p ps n q e k) (hcache : v.Cached v.fat)
    (ndir : Bytes) (clock : FatClock) :
    ∃ fat disk, (∀ r, v.MkdirEnds stack ndir p.text clock r ↔ r = .returned 0 fat disk)
      ∧ (v.Made p disk ↔ v.Alone (.cluster q.fdir.cluster) n) := by
  have hpath := splitPath_append h.names h.slash
  have hname : (splitPath p.text).2 = n.text := congrArg Prod.snd hpath
  have hsfn : fatToSfn (splitPath p.text).2 = n.entryName := by rw [hname, fatToSfn_text]
  have hfree : ∃ c < 256, Csos.fatEntry v.fat v.up c = 0 := ⟨k, h.room.lt, h.room.free⟩
  have hreaches := h.reaches
  rw [← hsfn] at hreaches
  obtain ⟨k', hk', hfirst, fat, dots, hends⟩ :=
    h.enters.ends_atEnd hcache hfree hreaches h.isEnd ndir clock
  obtain rfl := firstFree_unique h.first hfirst
  obtain ⟨hentry, hattr, hcluster⟩ := newDir_entry ndir (splitPath p.text).2 clock hk'
  rw [hsfn] at hentry
  obtain ⟨before, as, bs, behind, hsplit⟩ := h.splits
  exact ⟨fat, _, hends,
    made_grown h.names h.dirOf hsplit h.nodup h.room hentry hattr hcluster⟩

/-- The parent shows what it did when no other bytes are written to its sectors. -/
theorem Room.kept (h : v.Room d k) {x : UInt32} (hx : OutsideFat v.fat x) {buf : Bytes}
    (hbuf : ∀ s ∈ v.sectors d, UInt32.ofNat s = x → ∀ i < 512, buf i = v.disk x i)
    (dots : Bytes) :
    (v.withDisk (((v.taking k).put x buf).put (v.codeSector k) dots)).visible d
      = v.visible d := by
  have hbytes : ∀ s ∈ v.sectors d, ∀ i < 512,
      (((v.taking k).put x buf).put (v.codeSector k) dots).sectors (UInt32.ofNat s) i
        = v.disk (UInt32.ofNat s) i := by
    intro s hs i hi
    rw [Disk.put_sectors_of_ne _ _ (h.apart s hs)]
    by_cases hsame : UInt32.ofNat s = x
    · rw [hsame, Disk.put_sectors_self _ _ _ hi, hbuf s hs hsame i hi]
    · rw [Disk.put_sectors_of_ne _ _ hsame, taking_sectors (fatSector_ne_sector h.lt hs)]
  have hentries : ∀ s ∈ v.sectors d,
      (v.withDisk (((v.taking k).put x buf).put (v.codeSector k) dots)).entriesIn s
        = v.entriesIn s := by
    intro s hs
    refine List.map_congr_left fun i hi => ?_
    have hi16 := List.mem_range.mp hi
    exact congrArg (DirEntry.mk s i) (dirAt_congr fun j hj => hbytes s hs _ (by omega))
  rw [visible, visible, h.sectors_eq hx h.outside, List.flatMap_congr hentries]

end Law

end Volume

def nameC : Name83 := letterName 0x63 (by decide)

end Csos
