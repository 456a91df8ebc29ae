import Csos.FatParent

/-!
# Removing a file (`fat_fs_remove`)

The entry comes from `read_fat_dir_from_parent_path`, which was written for
directories: for a path with one name it looks for a directory of the name, and it
returns NULL when there is none. `fat_fs_remove` does not ask for either, nor for
the type of what the search of a longer path finds.
-/

namespace Csos

open Lib Lib.Bytes

/-! ## The code -/

inductive RemoveEnd where
  | returned (ret : Int32) (fat : FsFat) (disk : Disk)
  | nullPointer
  | pathFault (f : PathFault)
  | fatFault

/-- `(wrt_date << 16) | wrt_time` of the entry at `a`. -/
def writtenAt (m : Bytes) (a : Nat) : UInt32 :=
  UInt32.ofNat (load16 m (a + 24) <<< 16 ||| load16 m (a + 22))

/-- `fat_fs_remove`, with the entry `i` of `buf`. -/
def removeAt (fat : FsFat) (disk : Disk) (i : Nat) : RemoveEnd :=
  match fatFreeCluster fat disk (UInt32.ofNat (dirAt fat.buf (32 * i)).cluster) with
  | .fault => .fatFault
  | .returned ok disk =>
      if ¬ ok then .returned (-1) fat disk
      else
        let buf := store8 fat.buf (32 * i) fdnFree
        match disk.write (writtenAt buf (32 * i)) buf with
        | none => .returned (-1) { fat with buf } disk
        | some disk => .returned 0 { fat with buf } disk

/-- `fat_fs_remove`, behind the lookup of the parent: `dir` is not compared with NULL. -/
def removeFrom (disk : Disk) : ParentEnd → RemoveEnd
  | .fault f => .pathFault f
  | .nullPointer => .nullPointer
  | .returned _ none => .nullPointer
  | .returned fat (some i) => removeAt fat disk i

/-- `fat_fs_remove`, for a number of rounds of the search of the path. -/
def fatFsRemove (stack : PathStack) (fat : FsFat) (disk : Disk) (path : Chars) (n : Nat) :
    Option RemoveEnd :=
  (readFatDirFromParentPath disk.read stack fat path .rmdir n).map (removeFrom disk)

namespace Volume

/-! ## What a removal should do -/

/-- The regular file that names lead to. -/
def fileAt (v : Volume) (names : List Name83) : Option DirEntry :=
  (v.resolve names).filter fun e => treeType e.fdir = .file

/-- The disk without a file: its entry is free, and so are the clusters of its
chain. -/
structure Removed (v : Volume) (f : DirEntry) (disk : Disk) : Prop where
  freed : disk.sectors (UInt32.ofNat f.sector) (32 * f.index) = fdnFree
  others : ∀ s, OutsideFat v.fat s → ∀ b < 512,
    ¬ (s = UInt32.ofNat f.sector ∧ 32 * f.index ≤ b ∧ b < 32 * f.index + 32) →
      disk.sectors s b = v.disk s b
  clusters : ∀ k < v.fat.entries, Csos.fatEntry v.fat disk k
    = if k ∈ v.chain 0x10000 f.fdir.cluster then 0 else Csos.fatEntry v.fat v.up k

/-- `fat_fs_remove` comes to `r`. -/
def RemoveEnds (v : Volume) (stack : PathStack) (path : Chars) (r : RemoveEnd) : Prop :=
  ∃ rounds, fatFsRemove stack v.fat v.up path rounds = some r

/-- `fat_fs_remove` comes back: with 0 and without the file that the path names, or
with -1 and an untouched disk when it names none. -/
def RemovesWell (v : Volume) (stack : PathStack) (p : AbsPath) : Prop :=
  ∃ ret fat disk, v.RemoveEnds stack p.text (.returned ret fat disk)
    ∧ match v.fileAt p.names with
      | some f => ret = 0 ∧ v.Removed f disk
      | none => ret = -1 ∧ disk = v.up

/-! ## When it does -/

/-- The entry that is taken to be the path's: with one slash in the path, a directory of
the name in the root, before its end; else what `read_fat_path_cluster` finds. -/
def Takes (v : Volume) (stack : PathStack) (path : Chars) (e : DirEntry) : Prop :=
  if (splitPath path).1 = [] then v.stopAt (fatToSfn (splitPath path).2) = some e ∧ ¬ e.isEnd
  else v.LooksUp stack path e

/-- The chain of the cluster `c` is what stands in the FAT from `c` up to the first end
mark, in the sector of that. -/
def FreesChain (v : Volume) (c : Nat) : Prop :=
  ∃ p, FirstEnd v.fat v.up c p ∧ ∀ k < v.fat.entries, Csos.fatEntry v.fat v.up k ≠ 0 →
    (k ∈ v.chain 0x10000 c ↔ c ≤ k ∧ k / 256 = p / 256 ∧ k ≤ p)

/-- When a removal goes well: an entry is taken; where the path names a file, that is its
entry, and its chain is freed rightly; where it names none, there is no end mark in the
FAT from the cluster of the entry on. -/
def Removes (v : Volume) (stack : PathStack) (p : AbsPath) : Prop :=
  ∃ e, v.Takes stack p.text e
    ∧ match v.fileAt p.names with
      | some f => e = f ∧ v.FreesChain f.fdir.cluster
      | none => ∀ k, e.fdir.cluster ≤ k → k < v.fat.entries → Csos.fatEntry v.fat v.up k ≠ 0xFFFF

/-! ## The entry that is taken -/

section Taken

variable {v : Volume} {fat : FsFat} {stack : PathStack} {path : Chars} {e : DirEntry} {s : Search}

/-- The entry is the one in the cache at its place. -/
theorem takes_slot (h : v.Takes stack path e) :
    e = v.slotAt e.sector e.index ∧ e.sector < 2 ^ 31 := by
  rw [Takes] at h
  split at h
  · obtain ⟨hstop, -⟩ := h
    obtain ⟨s, hs, hmem⟩ := List.mem_flatMap.mp (List.mem_of_find?_eq_some hstop)
    obtain ⟨rfl, hindex, hfdir⟩ := mem_entriesIn hmem
    refine ⟨?_, sector_lt hs⟩
    rw [slotAt, dirAt_view hindex, ← hfdir]
  · exact looksUp_slot h

/-- A removal comes to what it does with the entry that the parent lookup gives. -/
theorem removeEnds_parent {r : RemoveEnd} :
    v.RemoveEnds stack path r
      ↔ ∃ r', v.ParentEnds stack path .rmdir r' ∧ removeFrom v.up r' = r := by
  constructor
  · rintro ⟨rounds, hr⟩
    obtain ⟨r', hr', hr⟩ := Option.map_eq_some_iff.mp hr
    exact ⟨r', ⟨rounds, hr'⟩, hr⟩
  · rintro ⟨r', ⟨rounds, hr'⟩, hr⟩
    exact ⟨rounds, Option.map_eq_some_iff.mpr ⟨r', hr', hr⟩⟩

/-- A removal comes to what it does with the entry that is taken. -/
theorem removeEnds_iff (hcache : v.Cached v.fat) (h : v.Takes stack path e) {r : RemoveEnd} :
    v.RemoveEnds stack path r ↔ r = removeAt (v.taken e) v.up e.index := by
  have hparent : ∀ r', v.ParentEnds stack path .rmdir r'
      ↔ r' = .returned (v.taken e) (some e.index) := by
    intro r'
    rw [Takes] at h
    split at h
    case isTrue hroot =>
      obtain ⟨fat', -, hends⟩ := parentEnds_root hcache hroot .rmdir stack
      have htaken : v.rootParent .rmdir e = (v.taken e, some e.index) := if_neg h.2
      rw [hends, h.1]
      dsimp only
      rw [htaken]
    case isFalse hroot => exact parentEnds_looksUp hcache hroot h
  rw [removeEnds_parent]
  constructor
  · rintro ⟨r', hr', rfl⟩
    rw [(hparent r').mp hr']
    rfl
  · rintro rfl
    exact ⟨_, (hparent _).mpr rfl, rfl⟩

/-- A removal that comes back has taken an entry. -/
theorem exists_takes (hcache : v.Cached v.fat) {ret : Int32} {fat' : FsFat} {disk : Disk}
    (h : v.RemoveEnds stack path (.returned ret fat' disk)) : ∃ e, v.Takes stack path e := by
  obtain ⟨r', hparent, hr⟩ := removeEnds_parent.mp h
  by_cases hroot : (splitPath path).1 = []
  · obtain ⟨fat'', -, hends⟩ := parentEnds_root hcache hroot .rmdir stack
    obtain rfl := (hends r').mp hparent
    cases hstop : v.stopAt (fatToSfn (splitPath path).2) with
    | none =>
        rw [hstop] at hr
        cases hr
    | some e =>
        refine ⟨e, ?_⟩
        rw [Takes, if_pos hroot]
        refine ⟨hstop, fun hend => ?_⟩
        have hnone : v.rootParent .rmdir e = (v.holding (UInt32.ofNat e.sector), none) :=
          if_pos hend
        rw [hstop] at hr
        dsimp only at hr
        rw [hnone] at hr
        cases hr
  · rcases parentEnds_path hcache hroot hparent with ⟨e, he, -⟩ | hnone
    · exact ⟨e, by rwa [Takes, if_neg hroot]⟩
    · exfalso
      cases r' with
      | fault f => cases hr
      | nullPointer => cases hr
      | returned fat dir =>
          obtain rfl := hnone fat dir rfl
          cases hr

end Taken

/-! ## What is freed -/

/-- The disk when the entry `e` is marked free, and the FAT is cleared from its cluster
up to `p`. -/
structure FreedTo (v : Volume) (e : DirEntry) (p : Nat) (disk : Disk) : Prop where
  freed : e.index < 16 → disk.sectors (UInt32.ofNat e.sector) (32 * e.index) = fdnFree
  others : ∀ s, OutsideFat v.fat s → ∀ b < 512,
    ¬ (s = UInt32.ofNat e.sector ∧ 32 * e.index ≤ b ∧ b < 32 * e.index + 32) →
      disk.sectors s b = v.disk s b
  clusters : OutsideFat v.fat (UInt32.ofNat e.sector) → ∀ k < v.fat.entries,
    Csos.fatEntry v.fat disk k
      = if e.fdir.cluster ≤ k ∧ k / 256 = p / 256 ∧ k ≤ p then 0 else Csos.fatEntry v.fat v.up k

section Freed

variable {v : Volume} {e f : DirEntry} {p : Nat} {disk : Disk} {names : List Name83}

/-- The number of the sector comes back from the entry. -/
theorem writtenAt_storeWritten (buf : Bytes) (i : Nat) (x : UInt32) (c : BitVec 8) :
    writtenAt (store8 (storeWritten buf i x) (32 * i) c) (32 * i) = x := by
  obtain ⟨hhigh, hlow, hx⟩ := halves x
  have h24 : load16 (store8 (storeWritten buf i x) (32 * i) c) (32 * i + 24)
      = (x >>> 16).toNat := by
    rw [load16_congr (store8_of_ne (by omega)) (store8_of_ne (by omega)), storeWritten,
      load16_congr (store16_outside (by omega)) (store16_outside (by omega))]
    exact load16_store16_self hhigh
  have h22 : load16 (store8 (storeWritten buf i x) (32 * i) c) (32 * i + 22)
      = (x &&& 0xFFFF).toNat := by
    rw [load16_congr (store8_of_ne (by omega)) (store8_of_ne (by omega)), storeWritten]
    exact load16_store16_self hlow
  rw [writtenAt, h24, h22, hx]

/-- What `fat_fs_remove` does with the entry: its sector is written with the entry free,
or nothing is. -/
theorem removeAt_cases (he : e = v.slotAt e.sector e.index) :
    (∃ p fat disk, removeAt (v.taken e) v.up e.index = .returned 0 fat disk
        ∧ FirstEnd v.fat v.up e.fdir.cluster p ∧ v.FreedTo e p disk)
      ∨ (∃ fat, removeAt (v.taken e) v.up e.index = .returned (-1) fat v.up)
        ∧ ∀ k, e.fdir.cluster ≤ k → k < v.fat.entries → Csos.fatEntry v.fat v.up k ≠ 0xFFFF := by
  have hcluster : (dirAt (v.taken e).buf (32 * e.index)).cluster = e.fdir.cluster := by
    have hfdir : e.fdir = dirAt (v.view (UInt32.ofNat e.sector)) (32 * e.index) :=
      congrArg DirEntry.fdir he
    rw [hfdir]
    exact cluster_storeWritten _ _ _
  have hlt : e.fdir.cluster < 2 ^ 32 := by
    rw [← hcluster]
    exact cluster_lt _ _
  have hbps : (v.taken e).bps = 512 := v.bps_eq
  have hup : v.up.up = true := rfl
  have hcases := fatFreeCluster_cases (UInt32.ofNat e.fdir.cluster) hup hbps
  rw [UInt32.toNat_ofNat_of_lt' hlt] at hcases
  rw [removeAt, hcluster]
  rcases hcases with ⟨p, disk', hret, hfirst, hup', hout, hall⟩ | ⟨hret, hno⟩
  · have hwritten : writtenAt (store8 (v.taken e).buf (32 * e.index) fdnFree) (32 * e.index)
        = UInt32.ofNat e.sector := writtenAt_storeWritten _ _ _ _
    rw [hret]
    dsimp only
    rw [if_neg (by simp), hwritten, Disk.write_of_up hup']
    refine .inl ⟨p, _, _, rfl, ⟨hfirst.le, hfirst.lt, hfirst.mark, hfirst.before⟩, ?_, ?_, ?_⟩
    · intro hin
      rw [Disk.put_sectors_self _ _ _ (by omega)]
      exact store8_self
    · intro s hs b hb hnot
      by_cases hsame : s = UInt32.ofNat e.sector
      · -- outside of the entry the cache holds what the sector does
        have hbyte : ¬ (32 * e.index ≤ b ∧ b < 32 * e.index + 32) := fun h => hnot ⟨hsame, h⟩
        have hbuf : (v.taken e).buf b = v.disk s b := by
          rw [hsame]
          exact (storeWritten_outside (by omega)).trans (view_inside hb)
        rw [hsame, Disk.put_sectors_self _ _ _ hb, store8_of_ne (by omega), hbuf, hsame]
      · rw [Disk.put_sectors_of_ne _ _ hsame]
        exact congrFun (hout s hs) b
    · intro hsector k hk
      have hentry : Csos.fatEntry v.fat disk' k
          = if e.fdir.cluster ≤ k ∧ k / 256 = p / 256 ∧ k ≤ p then 0
            else Csos.fatEntry v.fat v.up k := hall k hk
      rw [← hentry, Csos.fatEntry, Csos.fatEntry]
      exact congrArg (fun m => load16 m _)
        (Disk.put_sectors_of_ne _ _ (hsector _ (entry_index_lt hk)).symm)
  · rw [hret]
    exact .inr ⟨⟨_, rfl⟩, hno⟩

/-- An entry of the tree: its place, and that it is in use. -/
theorem entry_place (h : v.resolve names = some f) :
    f = v.slotAt f.sector f.index ∧ f.index < 16 ∧ f.sector < 2 ^ 31
      ∧ OutsideFat v.fat (UInt32.ofNat f.sector)
      ∧ v.disk (UInt32.ofNat f.sector) (32 * f.index) ≠ fdnFree
      ∧ treeType f.fdir ≠ .unknown := by
  obtain ⟨d, n, hfind⟩ := exists_find_of_walk h
  obtain ⟨hindex, hfdir⟩ := entry_of_lookIn hfind
  obtain ⟨hsector, hnamed⟩ := lookIn_some hfind
  obtain ⟨hfree, -, htype⟩ := of_decide_eq_true hnamed
  have hlt := sector_lt hsector
  refine ⟨?_, hindex, hlt, outsideFat_sector hsector, ?_, htype⟩
  · rw [slotAt, dirAt_view hindex, ← hfdir]
  · rw [hfdir] at hfree
    simpa [dirAt] using hfree

/-- A file is removed when its own entry is freed, with its chain, and only then. -/
theorem removed_iff (he : e = v.slotAt e.sector e.index) (hlt : e.sector < 2 ^ 31)
    (hf : v.fileAt names = some f) (hfirst : FirstEnd v.fat v.up e.fdir.cluster p)
    (hfreed : v.FreedTo e p disk) :
    v.Removed f disk ↔ e = f ∧ v.FreesChain f.fdir.cluster := by
  obtain ⟨hresolve, -⟩ := Option.filter_eq_some_iff.mp hf
  obtain ⟨hslot, hindex, hflt, hout, hused, -⟩ := entry_place hresolve
  constructor
  · intro h
    have hsame : UInt32.ofNat f.sector = UInt32.ofNat e.sector ∧ 32 * e.index ≤ 32 * f.index
        ∧ 32 * f.index < 32 * e.index + 32 := by
      by_contra hnot
      have hkept := hfreed.others _ hout (32 * f.index) (by omega) hnot
      rw [h.freed] at hkept
      exact hused hkept.symm
    obtain ⟨hsector, hle, hge⟩ := hsame
    have hnat := ofNat_sector_inj hflt hlt hsector
    have hplace : e.index = f.index := by omega
    obtain rfl : e = f := by rw [he, hslot, hnat, hplace]
    refine ⟨rfl, p, hfirst, fun k hk hne => ?_⟩
    have hentry := (h.clusters k hk).symm.trans (hfreed.clusters hout k hk)
    by_cases hin : k ∈ v.chain 0x10000 e.fdir.cluster
    · refine iff_of_true hin ?_
      by_contra hnot
      rw [if_pos hin, if_neg hnot] at hentry
      exact hne hentry.symm
    · refine iff_of_false hin fun hrange => ?_
      rw [if_neg hin, if_pos hrange] at hentry
      exact hne hentry
  · rintro ⟨rfl, p', hfirst', hchain⟩
    obtain rfl := hfirst.unique hfirst'
    refine ⟨hfreed.freed hindex, hfreed.others, fun k hk => ?_⟩
    rw [hfreed.clusters hout k hk]
    by_cases hne : Csos.fatEntry v.fat v.up k = 0
    · rw [hne, ite_self, ite_self]
    · exact if_congr (hchain k hk hne).symm rfl rfl

/-- What a removal has to do with the entry that is taken. -/
theorem removesWell_iff {stack : PathStack} {path : AbsPath} (hcache : v.Cached v.fat)
    (he : v.Takes stack path.text e) :
    v.RemovesWell stack path
      ↔ match v.fileAt path.names with
        | some f => e = f ∧ v.FreesChain f.fdir.cluster
        | none =>
            ∀ k, e.fdir.cluster ≤ k → k < v.fat.entries → Csos.fatEntry v.fat v.up k ≠ 0xFFFF := by
  obtain ⟨hslot, hlt⟩ := takes_slot he
  simp only [RemovesWell, removeEnds_iff hcache he]
  rcases removeAt_cases hslot with ⟨p, fat, disk, hret, hfirst, hfreed⟩ | ⟨⟨fat, hret⟩, hno⟩
  · rw [hret]
    cases hf : v.fileAt path.names with
    | some f =>
        dsimp only
        rw [← removed_iff hslot hlt hf hfirst hfreed]
        constructor
        · rintro ⟨ret, fat', disk', heq, -, hremoved⟩
          cases heq
          exact hremoved
        · exact fun hremoved => ⟨0, fat, disk, rfl, rfl, hremoved⟩
    | none =>
        refine iff_of_false ?_ fun hno => hno p hfirst.le hfirst.lt hfirst.mark
        rintro ⟨ret, fat', disk', heq, hminus, -⟩
        cases heq
        exact absurd hminus (by decide)
  · rw [hret]
    cases hf : v.fileAt path.names with
    | some f =>
        refine iff_of_false ?_ ?_
        · rintro ⟨ret, fat', disk', heq, hzero, -⟩
          cases heq
          exact absurd hzero (by decide)
        · rintro ⟨rfl, p, hfirst, -⟩
          exact hno p hfirst.le hfirst.lt hfirst.mark
    | none => exact iff_of_true ⟨-1, fat, v.up, rfl, rfl, rfl⟩ hno

end Freed

/-- A removal goes well when `Removes` says so, and only then. -/
theorem remove_law {v : Volume} (stack : PathStack) (p : AbsPath) (hcache : v.Cached v.fat) :
    v.RemovesWell stack p ↔ v.Removes stack p := by
  constructor
  · intro h
    obtain ⟨ret, fat, disk, hends, -⟩ := id h
    obtain ⟨e, he⟩ := exists_takes hcache hends
    exact ⟨e, he, (removesWell_iff hcache he).mp h⟩
  · rintro ⟨e, he, h⟩
    exact (removesWell_iff hcache he).mpr h

/-! ## An entry in a directory -/

/-- A path that is resolved rightly, to an entry: that is looked up. -/
theorem looksUp_of_resolves {v : Volume} {stack : PathStack} {p : AbsPath} {e : DirEntry}
    (hne : p.names ≠ []) (hp : v.Resolves stack 0 0 p) (he : v.resolve p.names = some e) :
    v.LooksUp stack p.text e := by
  obtain ⟨hslot, hindex, hlt, -, -, htype⟩ := entry_place he
  obtain ⟨rounds, r, hr, hanswer⟩ := hp
  rw [if_neg hne, he] at hanswer
  cases r with
  | fault fault => exact hanswer.elim
  | returned type sector offset fat =>
      obtain ⟨rfl, rfl, rfl⟩ := hanswer
      have htotal := sixteen_le_of_resolve hne he
      have hinvalid : (e.sector : Int) < fatClusterInvalid.toNat := (kept_resolve hne hr).2 htype
      exact ⟨rounds, _, _, _, fat, hr, hinvalid, by omega, hslot⟩

/-- With two names or more, that is what is taken. -/
theorem takes_of_resolves {v : Volume} {stack : PathStack} {p : AbsPath} {n n' : Name83}
    {names : List Name83} {e : DirEntry} (hnames : p.names = n :: n' :: names)
    (hp : v.Resolves stack 0 0 p) (he : v.resolve p.names = some e) :
    v.Takes stack p.text e := by
  have htext : p.text = 0x2F :: (n.text ++ 0x2F :: (n'.text ++ pathText p.slash names)) := by
    rw [AbsPath.text, hnames]
    rfl
  have hsplit : (splitPath p.text).1 ≠ [] := by
    rw [htext]
    exact splitPath_ne_nil _ _
  have hne : p.names ≠ [] := by
    rw [hnames]
    exact List.cons_ne_nil n _
  rw [Takes, if_neg hsplit]
  exact looksUp_of_resolves hne hp he

end Volume

/-- The small volume with the file `/a/f`, which has the cluster 3. -/
def heldVolume : Volume :=
  { smallVolume with
    disk := fun s i =>
      if s = 4 then
        (entryBytes 0x2E [] 0x10 2 ++ entryBytes 0x2E [0x2E] 0x10 0
          ++ entryBytes 0x46 [] 0x20 3).getD i 0
      else smallVolume.disk s i }

/-- `/a/f`. -/
def heldPath : AbsPath := ⟨[nameA, nameF], false, nofun⟩

/-- `/a/f` is removed. -/
theorem Volume.remove_law_held : heldVolume.RemovesWell clearStack heldPath := by
  have hcache : heldVolume.Cached heldVolume.fat :=
    ⟨.refl _, fun h => absurd rfl h, fun _ _ => rfl⟩
  have hfile : heldVolume.fileAt heldPath.names
      = some ⟨4, 2, dirAt (heldVolume.disk 4) 64⟩ := by decide +kernel
  refine (Volume.remove_law clearStack heldPath hcache).mpr
    ⟨⟨4, 2, dirAt (heldVolume.disk 4) 64⟩, ?_, ?_⟩
  · exact Volume.takes_of_resolves rfl
      ((Volume.resolves_iff_meets (List.cons_ne_nil _ _)).mpr
        ((Volume.borne_path (List.cons_ne_nil _ _)).1 (by decide +kernel)))
      (Option.filter_eq_some_iff.mp hfile).1
  · rw [hfile]
    refine ⟨rfl, 3, ⟨by decide, by decide, by decide +kernel, fun k hle hlt => ?_⟩,
      by decide +kernel⟩
    have hcluster : (dirAt (heldVolume.disk 4) 64).cluster = 3 := by decide +kernel
    rw [hcluster] at hle
    omega

/-- `/f`. -/
def rootFilePath : AbsPath := ⟨[nameF], false, nofun⟩

/-- `/f`, a file in the root, is not found: the entry that is missing is followed. -/
theorem Volume.remove_law_root : ¬ smallVolume.RemovesWell clearStack rootFilePath := by
  rintro ⟨ret, fat, disk, hends, -⟩
  obtain ⟨e, he⟩ := Volume.exists_takes smallVolume_cached hends
  have hend : smallVolume.stopAt nameF.entryName
      = some ⟨3, 2, dirAt (smallVolume.disk 3) 64⟩ := by decide +kernel
  have hpath : splitPath rootFilePath.text = ([], nameF.text) := Volume.splitPath_name nameF
  rw [Volume.Takes, hpath, if_pos rfl, fatToSfn_text, hend] at he
  obtain ⟨hsome, hnot⟩ := he
  obtain rfl := Option.some.inj hsome
  exact hnot (by decide +kernel)

end Csos
