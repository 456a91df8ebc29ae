import Csos.FatMkdir

/-!
# Removing a directory (`fat_fs_rmdir`)

The directory that is removed is not looked into. In the root, `fat_fs_rmdir` takes away
what `fat_fs_mkdir` has made, and the FAT is what it was before. The entry stays there as
a free one, however, and `fat_fs_mkdir` only looks for the end of the root: each pair of
the two calls uses up one slot of the root.
-/

namespace Csos

open Lib Lib.Bytes

/-! ## The code -/

/-- `fat_fs_rmdir`, with the entry `i` of `buf`. -/
def rmdirAt (fat : FsFat) (disk : Disk) (i : Nat) : RemoveEnd :=
  match fatFreeCluster fat disk (UInt32.ofNat (dirAt fat.buf (32 * i)).cluster) with
  | .fault => .fatFault
  | .returned ok disk =>
      if ¬ ok then .returned (-1) fat disk
      else
        let rdatac := writtenAt fat.buf (32 * i)
        let buf := store8 fat.buf (32 * i) fdnFree
        match disk.write rdatac buf with
        | none => .returned (-1) { fat with buf } disk
        | some disk => .returned 0 { fat with buf } disk

/-- `fat_fs_rmdir`, behind the lookup of the parent. -/
def rmdirFrom (disk : Disk) : ParentEnd → RemoveEnd
  | .fault f => .pathFault f
  | .nullPointer => .nullPointer
  | .returned fat none => .returned (-1) fat disk
  | .returned fat (some i) => rmdirAt fat disk i

/-- `fat_fs_rmdir`, for a number of rounds of the search of the path. -/
def fatFsRmdir (stack : PathStack) (fat : FsFat) (disk : Disk) (path : Chars) (n : Nat) :
    Option RemoveEnd :=
  (readFatDirFromParentPath disk.read stack fat path .rmdir n).map (rmdirFrom disk)

/-- With an entry at hand, it does what `fat_fs_remove` does. -/
theorem rmdirAt_eq (fat : FsFat) (disk : Disk) (i : Nat) :
    rmdirAt fat disk i = removeAt fat disk i := by
  have hwritten : writtenAt (store8 fat.buf (32 * i) fdnFree) (32 * i)
      = writtenAt fat.buf (32 * i) := by
    rw [writtenAt, writtenAt, load16_congr (store8_of_ne (by omega)) (store8_of_ne (by omega)),
      load16_congr (store8_of_ne (by omega)) (store8_of_ne (by omega))]
  rw [rmdirAt, removeAt]
  dsimp only
  rewrite [hwritten]
  rfl

/-- A removal that returns 0 has written `buf` to the sector that the entry names, with
the entry free. -/
theorem removeAt_returned {fat fat' : FsFat} {disk disk' : Disk} {i : Nat}
    (h : removeAt fat disk i = .returned 0 fat' disk') :
    fat' = { fat with buf := store8 fat.buf (32 * i) fdnFree }
      ∧ disk'.up = true
      ∧ ∀ b < 512, disk'.sectors (writtenAt fat'.buf (32 * i)) b = fat'.buf b := by
  rw [removeAt] at h
  split at h
  case h_1 => cases h
  case h_2 ok disk₁ _ =>
    split at h
    case isTrue => cases h
    case isFalse =>
      dsimp only at h
      cases hup : disk₁.up with
      | false =>
          rw [Disk.write, hup, if_neg Bool.false_ne_true] at h
          cases h
      | true =>
          rw [Disk.write_of_up hup] at h
          cases h
          exact ⟨rfl, hup, fun b hb => Disk.put_sectors_self _ _ _ hb⟩

namespace Volume

/-- `fat_fs_rmdir` comes to `r`. -/
def RmdirEnds (v : Volume) (stack : PathStack) (path : Chars) (r : RemoveEnd) : Prop :=
  ∃ rounds, fatFsRmdir stack v.fat v.up path rounds = some r

/-! ## A volume that goes on -/

theorem changed_mounted (v : Volume) (buf : Bytes) (pcs : UInt32) :
    fatFsMount v.br buf = some { { v.fat with buf, pcs } with pcs := -1 } := by
  have hm := v.mounted
  rw [fatFsMount] at hm ⊢
  dsimp only at hm ⊢
  split
  case isTrue h =>
    rw [if_pos h] at hm
    cases hm
  case isFalse h =>
    rw [if_neg h] at hm
    exact congrArg (fun fat : FsFat => some { fat with buf }) (Option.some.inj hm)

/-- The volume with other contents, and with the sector `pcs` in the cache. -/
def changed (v : Volume) (buf : Bytes) (pcs : UInt32) (disk : UInt32 → Bytes) : Volume :=
  { v with
    fat := { v.fat with buf, pcs }
    disk
    mounted := changed_mounted v buf pcs }

section Changed

variable {v : Volume} {buf : Bytes} {pcs : UInt32} {disk : UInt32 → Bytes}

/-- The cache is right when it holds what its sector does. -/
theorem cached_changed (h : ∀ i < 512, disk pcs i = buf i) :
    (v.changed buf pcs disk).Cached (v.changed buf pcs disk).fat where
  volume := .refl _
  held := fun _ => by
    change buf = copy buf 0 (disk pcs) diskSectorSize
    funext i
    by_cases hi : i < 512
    · rw [copy_inside (Nat.zero_le i) (by rw [diskSectorSize]; omega), Nat.sub_zero, h i hi]
    · rw [copy_outside (Or.inr (by rw [diskSectorSize]; omega))]
  behind := fun _ _ => rfl

end Changed

/-! ## The root -/

/-- No directory of the name is in the root, and an entry of the name is in use. -/
structure IsNew (v : Volume) (n : Name83) : Prop where
  used : nameFirst n.entryName ≠ fdnFree
  unseen : ∀ x ∈ v.entriesOf .root, ¬ x.isSeenAs .dir n.entryName

/-- The cache is right, there is a free cluster, and the root has `m` slots from its end
on, all of which are ends. -/
structure RootRoom (v : Volume) (k m : Nat) : Prop where
  cached : v.Cached v.fat
  first : FirstFree v.fat v.up k
  two_le : 2 ≤ k
  lt : k < 256
  slots : ∃ used blank, v.slots .root = used ++ blank ∧ (∀ x ∈ used, ¬ x.isEnd)
    ∧ (∀ x ∈ blank, x.isEnd) ∧ blank.length = m

/-- What `u` has in common with `v`: the FAT, what the root shows, and all the rest of the
disk but the sector of the free cluster. -/
structure Restored (v : Volume) (k : Nat) (u : Volume) : Prop where
  volume : SameVolume v.fat u.fat
  entries : ∀ c < v.fat.entries, Csos.fatEntry v.fat u.up c = Csos.fatEntry v.fat v.up c
  shown : u.visible .root = v.visible .root
  others : ∀ s, OutsideFat v.fat s → (∀ s' ∈ v.sectors .root, UInt32.ofNat s' ≠ s) →
    s ≠ v.codeSector k → ∀ b < 512, u.disk s b = v.disk s b

/-- A directory of the root that is made and removed: its name, what the stack holds, and
the time. -/
structure DirCycle where
  name : Name83
  ndir : Bytes
  clock : FatClock

/-- The path of the directory. -/
def DirCycle.path (c : DirCycle) : Chars := 0x2F :: c.name.text

/-- `fat_fs_mkdir`, then `fat_fs_rmdir`; both return 0. -/
def Cycles (stack : PathStack) (c : DirCycle) (v u : Volume) : Prop :=
  ∃ w : Volume, v.MkdirEnds stack c.ndir c.path c.clock (.returned 0 w.fat w.up) ∧ w.br = v.br
    ∧ w.RmdirEnds stack c.path (.returned 0 u.fat u.up) ∧ u.br = w.br

/-- One directory after the other. -/
inductive CyclesAll (stack : PathStack) : Volume → List DirCycle → Volume → Prop
  | nil (v : Volume) : CyclesAll stack v [] v
  | cons {v u u' : Volume} {c : DirCycle} {cs : List DirCycle} (head : Cycles stack c v u)
      (tail : CyclesAll stack u cs u') : CyclesAll stack v (c :: cs) u'

section Root

variable {v u w : Volume} {stack : PathStack} {n : Name83} {e : DirEntry} {k m : Nat}
  {nd dots : Bytes} {as bs : List DirEntry}

/-- A directory of the root. -/
theorem rmdirEnds_root (hcache : v.Cached v.fat) (hstop : v.stopAt n.entryName = some e)
    (hused : ¬ e.isEnd) (stack : PathStack) {r : RemoveEnd} :
    v.RmdirEnds stack (0x2F :: n.text) r ↔ r = removeAt (v.taken e) v.up e.index := by
  have hroot : (splitPath (0x2F :: n.text)).1 = [] := congrArg Prod.fst (splitPath_name n)
  obtain ⟨fat', -, hparent⟩ := parentEnds_root hcache hroot .rmdir stack
  have hname : fatToSfn (splitPath (0x2F :: n.text)).2 = n.entryName := by
    rw [splitPath_name, fatToSfn_text]
  have htaken : v.rootParent .rmdir e = (v.taken e, some e.index) := if_neg hused
  rw [hname, hstop] at hparent
  dsimp only at hparent
  rw [htaken] at hparent
  rw [← rmdirAt_eq]
  constructor
  · rintro ⟨rounds, hr⟩
    obtain ⟨r', hr', rfl⟩ := Option.map_eq_some_iff.mp hr
    rw [(hparent r').mp ⟨rounds, hr'⟩]
    rfl
  · rintro rfl
    obtain ⟨rounds, hr⟩ := (hparent _).mpr rfl
    exact ⟨rounds, Option.map_eq_some_iff.mpr ⟨_, hr, rfl⟩⟩

/-- The volume with a new directory in the root, as `fat_fs_mkdir` leaves it. -/
def made (v : Volume) (e : DirEntry) (nd : Bytes) (k : Nat) (dots : Bytes) : Volume :=
  v.changed (v.grownCache e nd).buf (UInt32.ofNat e.sector) (v.grown e nd k dots).sectors

/-- The new entry. -/
def newEntry (e : DirEntry) (nd : Bytes) : DirEntry := { e with fdir := dirAt nd 0 }

theorem made_cached (h : v.Room .root k) (he : e.sector ∈ v.sectors .root) :
    (v.made e nd k dots).Cached (v.made e nd k dots).fat := by
  refine cached_changed fun i hi => ?_
  rw [grown, Disk.put_sectors_of_ne _ _ (h.apart _ he), Disk.put_sectors_self _ _ _ hi]
  rfl

/-- An entry of the root, and its place. -/
theorem place_of_slots (hslots : v.slots .root = as ++ e :: bs) :
    e.sector ∈ v.sectors .root ∧ e.index < 16
      ∧ e.fdir = dirAt (v.disk (UInt32.ofNat e.sector)) (32 * e.index) := by
  have hmem : e ∈ v.slots .root := hslots ▸ List.mem_append_right as List.mem_cons_self
  obtain ⟨s, hs, he⟩ := List.mem_flatMap.mp hmem
  obtain ⟨rfl, hindex, hfdir⟩ := mem_entriesIn he
  exact ⟨hs, hindex, hfdir⟩

theorem made_slots (h : v.Room .root k) (hslots : v.slots .root = as ++ e :: bs) :
    (v.made e nd k dots).slots .root = as ++ newEntry e nd :: bs := by
  obtain ⟨hsector, hindex, -⟩ := place_of_slots hslots
  have hone : v.ButOne .root (v.grown e nd k dots) e := h.butOne hsector
  have hnew := slots_replaced hslots sectors_root_nodup hone
  rw [grown_entry nd dots h hsector hindex] at hnew
  exact hnew

theorem made_entry {c : Nat} (h : v.Room .root k) (he : e.sector ∈ v.sectors .root)
    (hc : c < v.fat.entries) :
    Csos.fatEntry v.fat (v.made e nd k dots).up c
      = if c = k then 0xFFFF else Csos.fatEntry v.fat v.up c := by
  have hup : (v.made e nd k dots).up = v.grown e nd k dots := rfl
  rw [hup, grown, put_entry h.outside hc, put_entry (outsideFat_sector he) hc,
    taking_entry h.lt hc]

theorem made_other {s : UInt32} {b : Nat} (h : v.Room .root k) (hs : OutsideFat v.fat s)
    (he : UInt32.ofNat e.sector ≠ s) (hk : s ≠ v.codeSector k) :
    (v.made e nd k dots).disk s b = v.disk s b := by
  have hne : s ≠ fatSector v.fat k := hs _ (entry_index_lt (lt_entries h.lt))
  change (v.grown e nd k dots).sectors s b = _
  rw [grown, Disk.put_sectors_of_ne _ _ hk, Disk.put_sectors_of_ne _ _ he.symm,
    taking_sectors hne]

/-- The entry is found again. -/
theorem made_stopAt (h : v.Room .root k) (hslots : v.slots .root = as ++ e :: bs)
    (hused : ∀ x ∈ as, ¬ x.isEnd) (hunseen : ∀ x ∈ as, ¬ x.isSeenAs .dir n.entryName)
    (hname : (dirAt nd 0).name = n.entryName) (hattr : (dirAt nd 0).attr = 0x10)
    (hfirst : nameFirst n.entryName ≠ fdnFree) :
    (v.made e nd k dots).stopAt n.entryName = some (newEntry e nd) := by
  have hbefore : as.find? (fun x => x.isEnd || x.isSeenAs .dir n.entryName) = none := by
    refine List.find?_eq_none.mpr fun x hx hstop => ?_
    rcases Bool.or_eq_true_iff.mp hstop with hend | hseen
    · exact hused x hx hend
    · exact hunseen x hx hseen
  have hseen : (newEntry e nd).isSeenAs .dir n.entryName := by
    refine decide_eq_true ⟨?_, hname, ?_⟩
    · change nameFirst (dirAt nd 0).name ≠ fdnFree
      rwa [hname]
    · change readFatFtype (dirAt nd 0) = .dir
      rw [readFatFtype, hattr]
      rfl
  rw [stopAt, made_slots h hslots, List.find?_append, hbefore, Option.none_or,
    List.find?_cons_of_pos (by rw [hseen, Bool.or_true])]

/-- The root up to its end, when there are only ends behind it. -/
theorem entriesOf_root (hslots : v.slots .root = as ++ bs) (hused : ∀ x ∈ as, ¬ x.isEnd)
    (hends : ∀ x ∈ bs, x.isEnd) : v.entriesOf .root = as := by
  rw [entriesOf, hslots, List.takeWhile_append_of_pos fun x hx => by simpa using hused x hx]
  cases bs with
  | nil => rw [List.takeWhile_nil, List.append_nil]
  | cons x bs =>
      rw [List.takeWhile_cons_of_neg (by simpa using hends x List.mem_cons_self), List.append_nil]

/-- The removal of a directory of the root that has one cluster: the volume `u`, with a free
entry in its place. -/
theorem removeAt_root (hslots : v.slots .root = as ++ e :: bs)
    (hlt : e.fdir.cluster < v.fat.entries)
    (hmark : Csos.fatEntry v.fat v.up e.fdir.cluster = 0xFFFF) :
    ∃ u : Volume, u.br = v.br ∧ SameVolume v.fat u.fat ∧ u.Cached u.fat
      ∧ removeAt (v.taken e) v.up e.index = .returned 0 u.fat u.up
      ∧ (∃ x : DirEntry, nameFirst x.fdir.name = fdnFree ∧ u.slots .root = as ++ x :: bs)
      ∧ (∀ c < v.fat.entries, Csos.fatEntry v.fat u.up c
          = if c = e.fdir.cluster then 0 else Csos.fatEntry v.fat v.up c)
      ∧ ∀ s, OutsideFat v.fat s → UInt32.ofNat e.sector ≠ s →
          ∀ b < 512, u.disk s b = v.disk s b := by
  obtain ⟨hsector, hindex, hfdir⟩ := place_of_slots hslots
  have hplace : e = v.slotAt e.sector e.index := by rw [slotAt, dirAt_view hindex, ← hfdir]
  have hfirst : FirstEnd v.fat v.up e.fdir.cluster e.fdir.cluster :=
    ⟨le_refl _, hlt, hmark, fun c hle hc => absurd hc (Nat.not_lt.mpr hle)⟩
  rcases removeAt_cases hplace with ⟨p, fat, disk, hret, hend, hfreed⟩ | ⟨-, hno⟩
  swap
  · exact absurd hmark (hno _ (le_refl _) hlt)
  obtain rfl := hend.unique hfirst
  obtain ⟨hfat, hup, hdisk⟩ := removeAt_returned hret
  have hwritten : writtenAt fat.buf (32 * e.index) = UInt32.ofNat e.sector := by
    rw [hfat]
    exact writtenAt_storeWritten _ _ _ _
  rw [hwritten] at hdisk
  have hufat : (v.changed fat.buf (UInt32.ofNat e.sector) disk.sectors).fat = fat := by
    rw [hfat]
    rfl
  have hudisk : (v.changed fat.buf (UInt32.ofNat e.sector) disk.sectors).up = disk :=
    congrArg (Disk.mk disk.sectors) hup.symm
  have hfree : nameFirst (dirAt (disk.sectors (UInt32.ofNat e.sector)) (32 * e.index)).name
      = fdnFree := by simpa [nameFirst, dirAt] using hfreed.freed hindex
  have hone : v.ButOne .root disk e := by
    refine ⟨rfl, fun s hs b hb hout => ?_⟩
    refine hfreed.others _ (outsideFat_sector hs) b hb fun hin => hout ⟨?_, hin.2⟩
    exact ofNat_sector_inj (sector_lt hs) (sector_lt hsector) hin.1
  refine ⟨v.changed fat.buf (UInt32.ofNat e.sector) disk.sectors, rfl, ⟨_, _, rfl⟩,
    cached_changed hdisk, ?_, ⟨_, hfree, slots_replaced hslots sectors_root_nodup hone⟩,
    fun c hc => ?_, fun s hs hne b hb => hfreed.others s hs b hb fun hin => hne hin.1.symm⟩
  · rw [hufat, hudisk]
    exact hret
  · rw [hudisk, hfreed.clusters (outsideFat_sector hsector) c hc]
    exact if_congr (by omega) rfl rfl

/-- The end of the root is where a new directory goes. -/
theorem stopAt_root (hn : v.IsNew n) (hslots : v.slots .root = as ++ bs)
    (hused : ∀ x ∈ as, ¬ x.isEnd) (hends : ∀ x ∈ bs, x.isEnd) :
    v.stopAt n.entryName = bs.head? := by
  have hbefore : as.find? (fun x => x.isEnd || x.isSeenAs .dir n.entryName) = none := by
    refine List.find?_eq_none.mpr fun x hx hstop => ?_
    rcases Bool.or_eq_true_iff.mp hstop with hend | hseen
    · exact hused x hx hend
    · exact hn.unseen x (by rwa [entriesOf_root hslots hused hends]) hseen
  rw [stopAt, hslots, List.find?_append, hbefore, Option.none_or]
  cases bs with
  | nil => rfl
  | cons x bs => exact List.find?_cons_of_pos (by rw [hends x List.mem_cons_self, Bool.true_or])

/-- The volume is given by its parts. -/
theorem eq_of_parts (hbr : u.br = w.br) (hfat : u.fat = w.fat) (hup : u.up = w.up) : u = w := by
  obtain ⟨_, _, _, _⟩ := u
  obtain ⟨_, _, _, _⟩ := w
  cases hbr
  cases hfat
  cases congrArg Disk.sectors hup
  rfl

/-- What the root shows, when there are only ends behind its end. -/
theorem visible_root (hslots : v.slots .root = as ++ bs) (hused : ∀ x ∈ as, ¬ x.isEnd)
    (hends : ∀ x ∈ bs, x.isEnd) : v.visible .root = as.filter DirEntry.isVisible :=
  congrArg (List.filter DirEntry.isVisible) (entriesOf_root hslots hused hends)

/-- A root in which the first end has become a free entry. -/
theorem RootRoom.next (h : v.RootRoom k (m + 1)) {x : DirEntry}
    (hslots : v.slots .root = as ++ e :: bs) (hused : ∀ x ∈ as, ¬ x.isEnd)
    (hends : ∀ x ∈ e :: bs, x.isEnd) (hlen : bs.length = m) (hsame : SameVolume v.fat u.fat)
    (hcached : u.Cached u.fat) (hfree : nameFirst x.fdir.name = fdnFree)
    (hslots' : u.slots .root = as ++ x :: bs)
    (hentries : ∀ c < v.fat.entries, Csos.fatEntry v.fat u.up c = Csos.fatEntry v.fat v.up c) :
    u.RootRoom k m ∧ u.visible .root = v.visible .root ∧ ∀ n, v.IsNew n → u.IsNew n := by
  have hslots'' : u.slots .root = (as ++ [x]) ++ bs := by rw [hslots', List.append_assoc]; rfl
  have hused' : ∀ y ∈ as ++ [x], ¬ y.isEnd := by
    intro y hy hend
    rcases List.mem_append.mp hy with hy | hy
    · exact hused y hy hend
    · obtain rfl := List.mem_singleton.mp hy
      have hzero := of_decide_eq_true hend
      rw [hfree] at hzero
      cases hzero
  have hends' : ∀ y ∈ bs, y.isEnd := fun y hy => hends y (List.mem_cons_of_mem e hy)
  have hhidden : ¬ x.isVisible := fun hvis => (of_decide_eq_true hvis).1 hfree
  refine ⟨⟨hcached, ?_, h.two_le, h.lt, _, bs, hslots'', hused', hends', hlen⟩, ?_,
    fun n hn => ⟨hn.used, fun y hy => ?_⟩⟩
  · obtain ⟨buf, pcs, hfat⟩ := hsame
    rw [hfat]
    exact ⟨h.first.lt, (hentries k h.first.lt).trans h.first.free, fun j hj hzero =>
      h.first.used j hj ((hentries j (Nat.lt_trans hj h.first.lt)).symm.trans hzero)⟩
  · rw [visible_root hslots hused hends, visible_root hslots'' hused' hends', List.filter_append,
      List.filter_cons_of_neg hhidden, List.filter_nil, List.append_nil]
  · rw [entriesOf_root hslots'' hused' hends'] at hy
    rcases List.mem_append.mp hy with hy | hy
    · exact hn.unseen y (by rwa [entriesOf_root hslots hused hends])
    · obtain rfl := List.mem_singleton.mp hy
      exact fun hseen => (of_decide_eq_true hseen).1 hfree

/-- `fat_fs_mkdir` and `fat_fs_rmdir`, while the root has room. -/
theorem RootRoom.cycle (h : v.RootRoom k (m + 1)) {c : DirCycle} (hn : v.IsNew c.name)
    (stack : PathStack) :
    ∃ u : Volume, (∀ u', Cycles stack c v u' ↔ u' = u) ∧ u.RootRoom k m ∧ v.Restored k u
      ∧ ∀ n, v.IsNew n → u.IsNew n := by
  obtain ⟨used, blank, hslots, hused, hends, hlen⟩ := h.slots
  obtain ⟨e, blank, rfl⟩ := List.exists_cons_of_ne_nil (List.ne_nil_of_length_eq_add_one hlen)
  have hroot : (splitPath c.path).1 = [] := congrArg Prod.fst (splitPath_name c.name)
  have hname : fatToSfn (splitPath c.path).2 = c.name.entryName := by
    rw [DirCycle.path, splitPath_name, fatToSfn_text]
  have hstop : v.stopAt (fatToSfn (splitPath c.path).2) = some e := by
    rw [hname]
    exact stopAt_root hn hslots hused hends
  obtain ⟨k', hk', hfirst, dots, hmkdir⟩ := mkdirEnds_root h.cached hroot hstop
    (hends e List.mem_cons_self) ⟨k, h.lt, h.first.free⟩ stack c.ndir c.clock
  obtain rfl := firstFree_unique h.first hfirst
  have hroom := room_root h.first h.two_le h.lt
  have hlt := lt_entries (v := v) h.lt
  obtain ⟨hentry, hattr, hcluster⟩ := newDir_entry c.ndir (splitPath c.path).2 c.clock h.lt
  rw [hname] at hentry
  generalize newDir c.ndir 0 (splitPath c.path).2 0x10 0 c.clock k = nd at *
  obtain ⟨hsector, -, -⟩ := place_of_slots hslots
  have hmarked : Csos.fatEntry v.fat (v.made e nd k dots).up k = 0xFFFF := by
    rw [made_entry hroom hsector hlt, if_pos rfl]
  have hcluster' : (newEntry e nd).fdir.cluster = k := hcluster
  obtain ⟨u, hbr, hsame, hcached, hremove, ⟨x, hfree, hslots'⟩, hentries, hothers⟩ :=
    removeAt_root (made_slots hroom hslots) (by rw [hcluster']; exact hlt)
      (by rw [hcluster']; exact hmarked)
  have hstop' : (v.made e nd k dots).stopAt c.name.entryName = some (newEntry e nd) :=
    made_stopAt hroom hslots hused (fun x hx => hn.unseen x (by
      rwa [entriesOf_root hslots hused hends])) hentry hattr hn.used
  have hnot : ¬ (newEntry e nd).isEnd := by
    refine fun hend => entryName_ne_end c.name ?_
    rw [← hentry]
    exact of_decide_eq_true hend
  have hentries' : ∀ b < v.fat.entries,
      Csos.fatEntry v.fat u.up b = Csos.fatEntry v.fat v.up b := by
    intro b hb
    have hcleared := hentries b hb
    rw [hcluster'] at hcleared
    refine hcleared.trans ?_
    by_cases hsame : b = k
    · rw [if_pos hsame, hsame, h.first.free]
    · rw [if_neg hsame]
      exact (made_entry hroom hsector hb).trans (if_neg hsame)
  obtain ⟨hnext, hshown, hnew⟩ := h.next hslots hused hends (Nat.succ.inj hlen) hsame hcached hfree
    hslots' hentries'
  refine ⟨u, fun u' => ⟨?_, ?_⟩, hnext, ⟨hsame, hentries', hshown, ?_⟩, hnew⟩
  · rintro ⟨w, hw, hwbr, hr, hubr⟩
    have hret := (hmkdir _).mp hw
    rw [MkdirEnd.returned.injEq] at hret
    obtain rfl := eq_of_parts (w := v.made e nd k dots) hwbr hret.2.1 hret.2.2
    have hret' := ((rmdirEnds_root (made_cached hroom hsector) hstop' hnot stack).mp hr).trans
      hremove
    rw [RemoveEnd.returned.injEq] at hret'
    exact eq_of_parts (hubr.trans hbr.symm) hret'.2.1 hret'.2.2
  · rintro rfl
    exact ⟨v.made e nd k dots, (hmkdir _).mpr rfl, rfl,
      (rmdirEnds_root (made_cached hroom hsector) hstop' hnot stack).mpr hremove.symm, hbr⟩
  · intro s hs hroot hcode b hb
    exact (hothers s hs (hroot e.sector hsector) b hb).trans
      (made_other hroom hs (hroot e.sector hsector) hcode)

/-- `fat_fs_mkdir` in a root that is full. -/
theorem RootRoom.full (h : v.RootRoom k 0) {c : DirCycle} (hn : v.IsNew c.name)
    (stack : PathStack) :
    ∃ fat, ∀ r, v.MkdirEnds stack c.ndir c.path c.clock r ↔ r = .returned (-1) fat v.up := by
  obtain ⟨used, blank, hslots, hused, hends, hlen⟩ := h.slots
  obtain rfl := List.length_eq_zero_iff.mp hlen
  have hroot : (splitPath c.path).1 = [] := congrArg Prod.fst (splitPath_name c.name)
  have hname : fatToSfn (splitPath c.path).2 = c.name.entryName := by
    rw [DirCycle.path, splitPath_name, fatToSfn_text]
  obtain ⟨fat, -, hparent⟩ := parentEnds_root h.cached hroot .mkdir stack
  rw [hname, stopAt_root hn hslots hused hends] at hparent
  refine ⟨fat, fun r => ?_⟩
  rw [mkdirEnds_iff]
  constructor
  · rintro ⟨r', hr', n, hr⟩
    rw [(hparent r').mp hr'] at hr
    exact (Option.some.inj hr).symm
  · rintro rfl
    exact ⟨_, (hparent _).mpr rfl, 0, rfl⟩

theorem Restored.refl (v : Volume) (k : Nat) : v.Restored k v :=
  ⟨.refl _, fun _ _ => rfl, rfl, fun _ _ _ _ _ _ => rfl⟩

theorem Restored.trans {v' : Volume} (h : v.Restored k u) (h' : u.Restored k v') :
    v.Restored k v' := by
  have hfat := h.volume
  obtain ⟨buf, pcs, hsame⟩ := id hfat
  have hsectors : u.sectors .root = v.sectors .root := by rw [sectors, sectors, hsame]
  have hcode : u.codeSector k = v.codeSector k := by rw [codeSector, codeSector, hsame]
  have hentries := h'.entries
  have hothers := h'.others
  rw [hsame] at hentries hothers
  rw [hsectors, hcode] at hothers
  exact ⟨hfat.trans h'.volume, fun c hc => (hentries c hc).trans (h.entries c hc),
    h'.shown.trans h.shown, fun s hs hroot hne b hb =>
      (hothers s hs hroot hne b hb).trans (h.others s hs hroot hne b hb)⟩

/-- A full root has no room for a directory that is removed later. -/
theorem RootRoom.not_cycles (h : v.RootRoom k 0) {c : DirCycle} (hn : v.IsNew c.name) :
    ¬ Cycles stack c v u := by
  rintro ⟨w, hw, -⟩
  obtain ⟨fat, hfull⟩ := h.full hn stack
  have hret := (hfull _).mp hw
  rw [MkdirEnd.returned.injEq] at hret
  exact absurd hret.1 (by decide)

theorem RootRoom.cyclesAll {cs : List DirCycle} (h : v.RootRoom k m)
    (hn : ∀ c ∈ cs, v.IsNew c.name) (hall : CyclesAll stack v cs u) :
    cs.length ≤ m ∧ u.RootRoom k (m - cs.length) ∧ v.Restored k u
      ∧ ∀ n, v.IsNew n → u.IsNew n := by
  induction hall generalizing m with
  | nil v => exact ⟨Nat.zero_le m, h, .refl v k, fun n hn => hn⟩
  | @cons v u u' c cs head tail ih =>
      have hc := hn c List.mem_cons_self
      cases m with
      | zero => exact absurd head (h.not_cycles hc)
      | succ m =>
          obtain ⟨u₁, honly, hroom, hrestored, hnew⟩ := h.cycle hc stack
          obtain rfl := (honly u).mp head
          obtain ⟨hle, hroom', hrestored', hnew'⟩ :=
            ih hroom fun c' hc' => hnew _ (hn c' (List.mem_cons_of_mem c hc'))
          refine ⟨Nat.succ_le_succ hle, ?_, hrestored.trans hrestored',
            fun n hn => hnew' n (hnew n hn)⟩
          rwa [List.length_cons, Nat.succ_sub_succ]

/-- As long as there is room in the root, one directory after the other is made and
removed. -/
theorem RootRoom.exists_cyclesAll {cs : List DirCycle} (h : v.RootRoom k m)
    (hn : ∀ c ∈ cs, v.IsNew c.name) (hle : cs.length ≤ m) (stack : PathStack) :
    ∃ u, CyclesAll stack v cs u := by
  induction cs generalizing v m with
  | nil => exact ⟨v, .nil v⟩
  | cons c cs ih =>
      obtain ⟨m, rfl⟩ := Nat.exists_eq_succ_of_ne_zero (Nat.ne_of_gt
        (Nat.lt_of_lt_of_le (Nat.succ_pos cs.length) hle))
      obtain ⟨u, honly, hroom, -, hnew⟩ := h.cycle (hn c List.mem_cons_self) stack
      obtain ⟨u', hall⟩ := ih hroom (fun c' hc' => hnew _ (hn c' (List.mem_cons_of_mem c hc')))
        (Nat.le_of_succ_le_succ hle)
      exact ⟨u', .cons ((honly u).mpr rfl) hall⟩

/-- Directories of the root that are made and removed one after the other leave the FAT and
what the root shows as they were. But the root has room for so many of them only as it has
slots from its end on, and then for no new directory any more. -/
theorem rootCycles_law (h : v.RootRoom k m) (stack : PathStack) (cs : List DirCycle)
    (hn : ∀ c ∈ cs, v.IsNew c.name) :
    ((∃ u, CyclesAll stack v cs u) ↔ cs.length ≤ m)
      ∧ ∀ u, CyclesAll stack v cs u → v.Restored k u ∧ u.RootRoom k (m - cs.length)
        ∧ (cs.length = m → ∀ c : DirCycle, v.IsNew c.name →
          ∃ fat, ∀ r, u.MkdirEnds stack c.ndir c.path c.clock r ↔ r = .returned (-1) fat u.up) := by
  refine ⟨⟨fun ⟨u, hall⟩ => (h.cyclesAll hn hall).1, fun hle => h.exists_cyclesAll hn hle stack⟩,
    fun u hall => ?_⟩
  obtain ⟨-, hroom, hrestored, hnew⟩ := h.cyclesAll hn hall
  refine ⟨hrestored, hroom, fun hlen c hc => ?_⟩
  rw [hlen, Nat.sub_self] at hroom
  exact hroom.full (hnew _ hc) stack

end Root

/-- The small volume: two entries and fourteen ends. -/
theorem rootRoom_small : smallVolume.RootRoom 4 14 where
  cached := smallVolume_cached
  first := ⟨by decide, by decide +kernel, by decide +kernel⟩
  two_le := by decide
  lt := by decide
  slots := ⟨(smallVolume.slots .root).take 2, (smallVolume.slots .root).drop 2,
    (List.take_append_drop 2 _).symm, by decide +kernel, by decide +kernel, by decide +kernel⟩

/-- `/b` and `/c`. -/
def twoCycles : List DirCycle :=
  [⟨nameB, fun _ => 0, ⟨20, 25, 1, 1, 0, 0, 0⟩⟩, ⟨nameC, fun _ => 0, ⟨20, 25, 1, 1, 0, 0, 5⟩⟩]

/-- They are made and removed. -/
theorem rootCycles_law_small :
    ∃ u, CyclesAll clearStack smallVolume twoCycles u ∧ smallVolume.Restored 4 u
      ∧ u.RootRoom 4 12 := by
  have hnew : ∀ n ∈ [nameB, nameC], smallVolume.IsNew n := by
    intro n hn
    rcases List.mem_pair.mp hn with rfl | rfl
    · exact ⟨by decide, by decide +kernel⟩
    · exact ⟨by decide, by decide +kernel⟩
  have hlaw := rootCycles_law rootRoom_small clearStack twoCycles
    fun c hc => hnew c.name (List.mem_map_of_mem hc)
  obtain ⟨u, hall⟩ := hlaw.1.mpr (by decide)
  obtain ⟨hrestored, hroom, -⟩ := hlaw.2 u hall
  exact ⟨u, hall, hrestored, hroom⟩

end Volume

end Csos
