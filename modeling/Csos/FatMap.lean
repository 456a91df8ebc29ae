import Csos.FatCwd
import Csos.FatRead
import Csos.FatWrite

/-!
# From clusters to sectors

Where the data of a cluster stands is worked out anew in each function:
`fat_fs_read` counts a cluster as `spc` sectors, and `fat_fs_write`,
`fat_fs_write_dir_data`, `fat_fs_opendir` and `read_fat_path_cluster` count it
as one. `OneMap` says that they agree for a cluster; on a volume that
`fat_fs_mount` accepts they do so exactly when a cluster is one sector.
-/

namespace Csos

open Lib Lib.Bytes

/-! ## Directories -/

/-- `(cluster_h << 16) | cluster_l` of the entry at the start of `ndir`. -/
def dirCluster (ndir : Bytes) : UInt32 := UInt32.ofNat (dirAt ndir 0).cluster

/-- `".          "` and `"..         "`: dots with blanks behind them. -/
def dotName (dots : Nat) (i : Nat) : BitVec 8 := if i < dots then 0x2E else 0x20

/-- `fat_fs_write_dir_data`, with the entry of the new directory. -/
def fatFsWriteDirData (fat : FsFat) (disk : Disk) (ndir : Bytes) (pc : UInt32) : Int32 × Disk :=
  let ndir := store8 (store8 ndir 11 0x10) 12 0
  let buf := fill (fun _ => 0) 0 0 diskSectorSize
  let datac := fat.dataStart + dirCluster ndir - 2
  let ndir := copy ndir 0 (dotName 1) fatFileNameSize
  let buf := copy buf 0 ndir 32
  let ndir := copy ndir 0 (dotName 2) fatFileNameSize
  let ndir := store16 (store16 ndir 26 (pc &&& 0xFFFF).toNat) 20 (pc >>> 16).toNat
  let buf := copy buf 32 ndir 32
  match disk.write datac buf with
  | none => (-1, disk)
  | some disk => (0, disk)

/-- `read_fat_dir`. -/
def readFatDir (read : UInt32 → Option Bytes) (fat : FsFat) (sector offset : Int) :
    FsFat × Option FatDir :=
  if offset < 0 ∨ offset ≥ fat.rootTotal.toNat then (fat, none)
  else
    match fsBread read fat (UInt32.ofInt sector) with
    | (fat, true) => (fat, some (dirAt fat.buf (32 * offset.toNat)))
    | (fat, false) => (fat, none)

/-- `DIR` without the last entry. -/
structure DirHandle where
  sector : Int32
  offset : Int32

inductive OpendirEnd where
  | returned (ret : Int32) (dir : DirHandle) (fat : FsFat)
  | nullPointer
  | fault (f : PathFault)

/-- `fat_fs_opendir`, behind the search of the path. -/
def fatFsOpendirAt (read : UInt32 → Option Bytes) (dir : DirHandle) : PathEnd → OpendirEnd
  | .fault f => .fault f
  | .returned _ sector offset fat =>
      if sector = fatClusterInvalid.toNat then .returned (-1) dir fat
      else if sector = 0 then .returned 0 { sector := fat.rootStart.toInt32, offset := 0 } fat
      else
        match readFatDir read fat sector offset with
        | (_, none) => .nullPointer
        | (fat, some pdir) =>
            let sector := fat.dataStart + UInt32.ofNat pdir.cluster - 2
            .returned 0 { sector := sector.toInt32, offset := 0 } fat

/-- `fat_fs_opendir`, for a number of rounds of the search. -/
def fatFsOpendir (read : UInt32 → Option Bytes) (stack : PathStack) (fat : FsFat) (path : Chars)
    (dir : DirHandle) (n : Nat) : Option OpendirEnd :=
  (readFatPathCluster read stack fat path 0 0 n).map (fatFsOpendirAt read dir)

/-! ## The sectors of a cluster -/

namespace FsFat

/-- Where the data of the cluster `c` begins. -/
def place (fat : FsFat) (c : UInt32) : UInt32 := fat.dataStart + (c - 2) * fat.spc

/-- The sectors of the data of the cluster `c`. -/
def region (fat : FsFat) (c : UInt32) : List UInt32 :=
  (List.range fat.spc.toNat).map fun i => fat.place c + UInt32.ofNat i

end FsFat

/-- A data cluster. -/
def IsDataCluster (c : UInt32) : Prop := 2 ≤ c ∧ c < fatClusterInvalid

/-- Some read, at the cluster `c`, reads the sector. -/
def ReadsFor (fat : FsFat) (c sector : UInt32) : Prop :=
  ∃ disk file mem buf n s, Passes (ReadLoop.round disk) (readStart fat file mem buf n) s
    ∧ s.nbytes > 0 ∧ s.fat.cpb ≠ 0 ∧ s.file.cblk = c ∧ sector ∈ s.sectors

/-- The round gets something written. -/
def WriteCall.Writes (call : WriteCall) (s : WriteLoop) : Prop :=
  s.nbytes > 0 ∧ ∃ s', call.round s = .again s' ∧ s'.nbytes ≠ s.nbytes

/-- Some write, at the cluster `c`, writes the sector. -/
def WritesFor (fat : FsFat) (c sector : UInt32) : Prop :=
  ∃ call : WriteCall, call.fat = fat ∧ ∃ disk file s, file.mode &&& fmWrite ≠ 0
    ∧ Passes call.round (call.start disk file) s ∧ call.Writes s ∧ s.file.cblk = c
    ∧ sector = call.target s

/-- All paths address the same sectors for the cluster `c`. A new directory
is written to its first sector and to no other one, that is where the
search of a path and `fat_fs_opendir` go, and it is in no other cluster. -/
structure OneMap (fat : FsFat) (c : UInt32) : Prop where
  reads : ∀ sector, ReadsFor fat c sector ↔ sector ∈ fat.region c
  writes : ∀ sector, WritesFor fat c sector ↔ sector ∈ fat.region c
  made : ∀ disk ndir pc, disk.up = true → dirCluster ndir = c →
    (∀ s, s ≠ fat.place c → (fatFsWriteDirData fat disk ndir pc).2.sectors s = disk.sectors s)
      ∧ ∀ i < fatFileNameSize,
        (fatFsWriteDirData fat disk ndir pc).2.sectors (fat.place c) i = dotName 1 i
  searched : ∀ read path suffix fdir i s s', Volume.SameVolume fat s.fat →
    UInt32.ofNat fdir.cluster = c →
    Search.scanned read path suffix s (.dir i fdir) = .again s' → s'.sc = fat.place c
  opened : ∀ read dir type sector offset fat₁ fat₂ pdir, Volume.SameVolume fat fat₁ →
    sector ≠ (fatClusterInvalid.toNat : Int) → sector ≠ 0 →
    readFatDir read fat₁ sector offset = (fat₂, some pdir) → UInt32.ofNat pdir.cluster = c →
    fatFsOpendirAt read dir (.returned type sector offset fat₁)
      = .returned 0 { sector := (fat.place c).toInt32, offset := 0 } fat₂
  apart : ∀ c', IsDataCluster c' → c' ≠ c → fat.place c ∉ fat.region c'

/-! ## One sector -/

section Place

variable {fat : FsFat} {c : UInt32}

/-- With one sector in a cluster the two ways of counting are the same. -/
theorem FsFat.place_one (h : fat.spc = 1) : fat.place c = fat.dataStart + c - 2 := by
  rw [FsFat.place, h, UInt32.mul_one, UInt32.sub_eq_add_neg, UInt32.sub_eq_add_neg,
    UInt32.add_assoc]

theorem FsFat.region_one (h : fat.spc = 1) : fat.region c = [fat.place c] := by
  rw [FsFat.region, h]
  exact congrArg (fun s => [s]) (UInt32.add_zero (fat.place c))

end Place

/-! ## What is read -/

section Reads

variable {fat : FsFat} {c sector : UInt32} {disk : Disk} {s s' : ReadLoop}

theorem sameVolume_move (read : UInt32 → Option Bytes) (fat : FsFat) (file : FatFile)
    (cpb mbytes : UInt32) :
    Volume.SameVolume fat (fatMoveFileOffset read fat file cpb mbytes).1 := by
  have h := Volume.sameVolume_next read fat file.cblk.toUInt16
  rw [fatMoveFileOffset]
  dsimp only
  split_ifs
  · exact h
  · exact h
  · exact .refl fat

/-- The geometry does not change in a round. -/
theorem ReadLoop.advance_volume {cr : UInt32} (h : s.advance disk cr = .again s') :
    Volume.SameVolume s.fat s'.fat := by
  have hmove := sameVolume_move disk.read s.fat s.file s.fat.cpb cr
  rw [ReadLoop.advance] at h
  dsimp only at h
  rcases hfat : fatMoveFileOffset disk.read s.fat s.file s.fat.cpb cr with ⟨fat, file, ok⟩
  rw [hfat] at h hmove
  cases ok with
  | true =>
      obtain rfl := Round.again.inj h
      exact hmove
  | false => cases h

theorem ReadLoop.round_volume (h : s.round disk = .again s') :
    Volume.SameVolume s.fat s'.fat := by
  by_cases hpos : s.nbytes > 0
  · by_cases hcpb : s.fat.cpb = 0
    · rw [ReadLoop.round_fault hcpb hpos] at h
      cases h
    · rw [ReadLoop.round] at h
      simp only [if_pos hpos, if_neg hcpb] at h
      rcases hread : disk.readAll s.fat.buf s.sectors with _ | bytes
      · simp only [hread] at h
        split at h
        · cases h
        · cases h
      · have hbuf : Volume.SameVolume s.fat { s.fat with buf := bytes } := ⟨bytes, s.fat.pcs, rfl⟩
        have hpcs : Volume.SameVolume s.fat { s.fat with pcs := -1, buf := bytes } :=
          ⟨bytes, -1, rfl⟩
        simp only [hread] at h
        split at h
        · have hadvance := ReadLoop.advance_volume h
          exact hbuf.trans hadvance
        · have hadvance := ReadLoop.advance_volume h
          exact hpcs.trans hadvance
  · have hzero : s.nbytes = 0 := by
      by_contra hne
      exact hpos (UInt32.pos_iff_ne_zero.mpr hne)
    rw [ReadLoop.round_done hzero] at h
    cases h

theorem sectors_eq_region (h : Volume.SameVolume fat s.fat) :
    s.sectors = fat.region s.file.cblk := by
  obtain ⟨buf, pcs, hfat⟩ := h
  rw [ReadLoop.sectors, ReadLoop.ss, hfat]
  rfl

/-- A read of one byte, at the cluster `c`. -/
theorem readsFor_iff (hcpb : fat.cpb ≠ 0) : ReadsFor fat c sector ↔ sector ∈ fat.region c := by
  constructor
  · rintro ⟨disk, file, mem, buf, n, s, hpass, -, -, rfl, hin⟩
    have hvolume : Volume.SameVolume fat s.fat :=
      hpass.invariant (I := fun s => Volume.SameVolume fat s.fat)
        (fun _ _ hs h => hs.trans (ReadLoop.round_volume h)) (.refl fat)
    rwa [sectors_eq_region hvolume] at hin
  · intro hin
    let file : FatFile := { smallFile with cblk := c }
    have hpos : readSize file 1 > 0 := by
      have hsize : readSize file 1 = 1 := rfl
      rw [hsize]
      decide
    refine ⟨diskOf fun _ => 0, file, fun _ => 0, 0, 1, _, .refl _, hpos, hcpb, rfl, ?_⟩
    rwa [sectors_eq_region (.refl fat)]

end Reads

/-! ## What is written -/

section Writes

variable {fat : FsFat} {c sector : UInt32}

theorem writesFor_target (h : WritesFor fat c sector) : sector = fat.dataStart + c - 2 := by
  obtain ⟨call, rfl, disk, file, s, -, -, -, rfl, rfl⟩ := h
  rfl

/-- One byte, behind the first byte of a sector. -/
theorem round_one_byte {call : WriteCall} {s : WriteLoop} (hb : 1 < call.fat.bps)
    (hb16 : call.fat.bps.toNat < 2 ^ 16) (hup : s.disk.up = true) (hsize : call.size = 1)
    (hnbytes : s.nbytes = 1) (hoffset : s.file.offset = 1) :
    ∃ s', call.round s = .again s' ∧ s'.nbytes = 0 := by
  have hbn : 1 < call.fat.bps.toNat := UInt32.lt_iff_toNat_lt.mp hb
  have hbps : call.fat.bps ≠ 0 := UInt32.pos_iff_ne_zero.mp (UInt32.lt_trans (by decide) hb)
  have hos : s.file.offset % call.fat.bps = 1 := by
    rw [hoffset, ← UInt32.toNat_inj, UInt32.toNat_mod, UInt32.toNat_one, Nat.mod_eq_of_lt hbn]
  have hone : (if (1 : Int32) < (call.fat.bps - 1).toInt32 then 1
      else (call.fat.bps - 1).toInt32) = 1 := by
    have hfbytes : (call.fat.bps - 1).toInt32 = Int32.ofNat (call.fat.bps.toNat - 1) := by
      have hsub : call.fat.bps - 1 = UInt32.ofNat (call.fat.bps.toNat - 1) := by
        have h32 : call.fat.bps.toNat - 1 < 2 ^ 32 := by omega
        rw [← UInt32.toNat_inj, UInt32.toNat_sub_of_le _ _ (UInt32.le_of_lt hb), UInt32.toNat_one,
          UInt32.toNat_ofNat_of_lt' h32]
      rw [hsub]
      rfl
    have hint : (1 : Int32).toInt = 1 := rfl
    rw [hfbytes]
    split
    case isTrue => rfl
    case isFalse hnot =>
      rw [Int32.lt_iff_toInt_lt, Int32.toInt_ofNat_of_lt (by omega), hint] at hnot
      have htwo : call.fat.bps.toNat - 1 = 1 := by omega
      rw [htwo]
      rfl
  have hpos : s.nbytes > 0 := by
    rw [hnbytes]
    decide
  have hrest : s.file.offset % call.fat.bps > 0 := by
    rw [hos]
    decide
  have hfit : ¬ (1 : UInt32).toNat + (1 : Int32).toUInt32.toNat > diskSectorSize := by decide
  rw [WriteCall.round]
  simp only [if_pos hpos, if_neg hbps, if_pos hrest]
  simp only [WriteCall.writeRest, hos, Disk.read_of_up hup, hsize, hone, if_neg hfit,
    Disk.write_of_up hup]
  refine ⟨_, rfl, ?_⟩
  rw [hnbytes]
  rfl

/-- A write of one byte behind the first one, at the cluster `c`. -/
theorem writesFor_of_target (hb : 1 < fat.bps) (hb16 : fat.bps.toNat < 2 ^ 16) :
    WritesFor fat c (fat.dataStart + c - 2) := by
  have hmode : smallFile.mode &&& fmWrite ≠ 0 := by decide
  have hpos : (1 : Int32) > 0 := by decide
  obtain ⟨s', hround, hzero⟩ := @round_one_byte { smallWrite 1 with fat }
    (WriteCall.start { smallWrite 1 with fat } (diskOf fun _ => 0)
      { smallFile with offset := 1, cblk := c }) hb hb16 rfl rfl rfl rfl
  refine ⟨{ smallWrite 1 with fat }, rfl, diskOf fun _ => 0,
    { smallFile with offset := 1, cblk := c }, _, hmode, .refl _, ⟨hpos, s', hround, ?_⟩, rfl, rfl⟩
  rw [hzero]
  exact (by decide : (0 : Int32) ≠ 1)

theorem writesFor_iff (hb : 1 < fat.bps) (hb16 : fat.bps.toNat < 2 ^ 16) :
    WritesFor fat c sector ↔ sector = fat.dataStart + c - 2 :=
  ⟨writesFor_target, fun h => h ▸ writesFor_of_target hb hb16⟩

end Writes

/-! ## Geometry -/

section Law

variable {br : BootRecord} {page : Bytes} {fat : FsFat} {c : UInt32}

/-- What a mounted volume says about its clusters. -/
theorem mount_bounds (hmount : fatFsMount br page = some fat) :
    fat.bps.toNat < 2 ^ 16 ∧ fat.spc.toNat < 2 ^ 8 := by
  unfold fatFsMount at hmount
  dsimp only at hmount
  split at hmount
  · cases hmount
  · obtain rfl := Option.some.inj hmount
    constructor
    · simpa using br.bytesPerSector.toNat_lt
    · simpa using br.sectorsPerCluster.toNat_lt

theorem cpb_ne_zero (hmount : fatFsMount br page = some fat) (hspc : 1 ≤ fat.spc)
    (hb : 1 < fat.bps) : fat.cpb ≠ 0 := by
  obtain ⟨hb16, hs8⟩ := mount_bounds hmount
  have hbn : 1 < fat.bps.toNat := UInt32.lt_iff_toNat_lt.mp hb
  have hsn : 1 ≤ fat.spc.toNat := UInt32.le_iff_toNat_le.mp hspc
  have hlt : fat.bps.toNat * fat.spc.toNat < 2 ^ 32 :=
    calc fat.bps.toNat * fat.spc.toNat < 2 ^ 16 * 2 ^ 16 :=
          Nat.mul_lt_mul'' hb16 (Nat.lt_trans hs8 (by omega))
      _ = 2 ^ 32 := by omega
  have hpos : 0 < fat.bps.toNat * fat.spc.toNat := Nat.mul_pos (by omega) hsn
  intro hzero
  have hnat := congrArg UInt32.toNat hzero
  rw [FsFat.cpb, UInt32.toNat_mul, Nat.mod_eq_of_lt hlt, UInt32.toNat_zero] at hnat
  omega

/-- With two sectors in a cluster, its sectors are not one. -/
theorem region_two (hspc : 2 ≤ fat.spc.toNat) :
    fat.place c ∈ fat.region c ∧ fat.place c + 1 ∈ fat.region c := by
  rw [FsFat.region]
  constructor
  · exact List.mem_map.mpr ⟨0, List.mem_range.mpr (by omega), UInt32.add_zero _⟩
  · exact List.mem_map.mpr ⟨1, List.mem_range.mpr (by omega), rfl⟩

theorem spc_of_oneMap (hspc : 1 ≤ fat.spc) (h : OneMap fat c) : fat.spc = 1 := by
  by_contra hne
  have hsn : 1 ≤ fat.spc.toNat := UInt32.le_iff_toNat_le.mp hspc
  have hne' : fat.spc.toNat ≠ 1 := fun he => hne (UInt32.toNat_inj.mp he)
  obtain ⟨h₀, h₁⟩ := region_two (c := c) (by omega : 2 ≤ fat.spc.toNat)
  have heq := (writesFor_target ((h.writes _).mpr h₀)).trans
    (writesFor_target ((h.writes _).mpr h₁)).symm
  have hone : fat.place c + 0 = fat.place c + 1 := by
    rw [UInt32.add_zero]
    exact heq
  rw [UInt32.add_right_inj] at hone
  exact absurd hone (by decide)

/-- The fields that `fat_fs_write_dir_data` sets first are not those of the
cluster. -/
theorem dirCluster_attr (ndir : Bytes) (a b : BitVec 8) :
    dirCluster (store8 (store8 ndir 11 a) 12 b) = dirCluster ndir := by
  have hkeep : ∀ i, 13 ≤ i → store8 (store8 ndir 11 a) 12 b i = ndir i := by
    intro i hi
    rw [store8_of_ne (by omega), store8_of_ne (by omega)]
  simp only [dirCluster, FatDir.cluster, dirAt]
  rw [load16_congr (hkeep (0 + 20) (by omega)) (hkeep (0 + 20 + 1) (by omega)),
    load16_congr (hkeep (0 + 26) (by omega)) (hkeep (0 + 26 + 1) (by omega))]

theorem made_of_one (h : fat.spc = 1) {disk : Disk} {ndir : Bytes} {pc : UInt32}
    (hup : disk.up = true) (hc : dirCluster ndir = c) :
    (∀ s, s ≠ fat.place c → (fatFsWriteDirData fat disk ndir pc).2.sectors s = disk.sectors s)
      ∧ ∀ i < fatFileNameSize,
        (fatFsWriteDirData fat disk ndir pc).2.sectors (fat.place c) i = dotName 1 i := by
  simp only [fatFsWriteDirData, Disk.write_of_up hup, dirCluster_attr, hc, ← FsFat.place_one h]
  constructor
  · intro s hs
    exact disk.put_sectors_of_ne _ hs
  · intro i hi
    have hi11 : i < 0 + fatFileNameSize := by rwa [Nat.zero_add]
    rw [fatFileNameSize] at hi
    rw [disk.put_sectors_self _ _ (by omega), copy_outside (by omega),
      copy_inside (Nat.zero_le i) (by omega), Nat.sub_zero, copy_inside (Nat.zero_le i) hi11,
      Nat.sub_zero]

theorem readFatDir_volume {read : UInt32 → Option Bytes} {fat₁ fat₂ : FsFat}
    {sector offset : Int} {pdir : FatDir}
    (h : readFatDir read fat₁ sector offset = (fat₂, some pdir)) :
    Volume.SameVolume fat₁ fat₂ := by
  have hread := Volume.sameVolume_bread read fat₁ (UInt32.ofInt sector)
  rw [readFatDir] at h
  split at h
  · cases h
  · split at h
    · next hb =>
        rw [hb] at hread
        obtain ⟨rfl, -⟩ := Prod.mk.inj h
        exact hread
    · cases h

theorem oneMap_of_one (hcpb : fat.cpb ≠ 0) (hb : 1 < fat.bps) (hb16 : fat.bps.toNat < 2 ^ 16)
    (h : fat.spc = 1) : OneMap fat c where
  reads := fun _ => readsFor_iff hcpb
  writes := by
    intro sector
    rw [writesFor_iff hb hb16, FsFat.region_one h, List.mem_singleton, FsFat.place_one h]
  made := fun disk ndir pc hup hcl => made_of_one h hup hcl
  searched := by
    rintro read path suffix fdir i s s' ⟨buf, pcs, hfat⟩ rfl hs
    obtain rfl := Round.again.inj hs
    rw [FsFat.place_one h, hfat]
  opened := by
    rintro read dir type sector offset fat₁ fat₂ pdir hvolume hinvalid hroot hread rfl
    obtain ⟨buf, pcs, rfl⟩ := hvolume.trans (readFatDir_volume hread)
    rw [fatFsOpendirAt, if_neg hinvalid, if_neg hroot, hread, FsFat.place_one h]
  apart := by
    intro c' hc' hne hin
    rw [FsFat.region_one h, List.mem_singleton, FsFat.place_one h, FsFat.place_one h] at hin
    rw [UInt32.sub_left_inj, UInt32.add_right_inj] at hin
    exact hne hin.symm

/-- All paths address the same sectors exactly when a cluster is one
sector. -/
theorem oneMap_iff (hmount : fatFsMount br page = some fat) (hspc : 1 ≤ fat.spc)
    (hb : 1 < fat.bps) : OneMap fat c ↔ fat.spc = 1 :=
  ⟨spc_of_oneMap hspc,
    oneMap_of_one (cpb_ne_zero hmount hspc hb) hb (mount_bounds hmount).1⟩

end Law

/-- The boot record of a small volume. -/
def smallBoot (sectorsPerCluster : UInt8) : BootRecord where
  bytesPerSector := 512
  sectorsPerCluster := sectorsPerCluster
  reservedSectors := 1
  nocFats := 2
  maxRde := 16
  sectorsPerFat := 2
  fatName := fat16Name

/-- Clusters of one sector. -/
theorem oneMap_iff_one :
    ∃ fat, fatFsMount (smallBoot 1) (fun _ => 0) = some fat ∧ OneMap fat 7 := by
  have hmount : ∃ fat, fatFsMount (smallBoot 1) (fun _ => 0) = some fat
      ∧ 1 < fat.bps ∧ fat.spc = 1 := ⟨_, rfl, by decide, rfl⟩
  obtain ⟨fat, hmount, hb, hspc⟩ := hmount
  have hle : 1 ≤ fat.spc := hspc ▸ UInt32.le_refl 1
  exact ⟨fat, hmount, (oneMap_iff hmount hle hb).mpr hspc⟩

/-- Clusters of two sectors: a write does not go where a read goes. -/
theorem oneMap_two :
    ∃ fat, fatFsMount (smallBoot 2) (fun _ => 0) = some fat ∧ ¬ OneMap fat 7 :=
  ⟨_, rfl, fun h => absurd (spc_of_oneMap (by decide) h) (by decide)⟩

end Csos
