import Csos.FatReaddir
import Mathlib.Logic.Relation

/-!
# The divisors of a mounted volume

`fat_fs_mount` takes the sizes of sectors and clusters from the boot record as
they are. The calls behind it divide by the bytes of a sector, the bytes of a
cluster and the entries that a sector of the FAT has. What a call divides by
is listed in the order of the source, up to a division by zero or another fault.
-/

namespace Csos

open Lib Lib.Bytes

/-! ## The boot record -/

/-- `boot_record_t` at the beginning of a page; its fields are packed. -/
def bootRecordAt (page : Bytes) : BootRecord where
  bytesPerSector := UInt16.ofNat (load16 page 11)
  sectorsPerCluster := UInt8.ofBitVec (page 13)
  reservedSectors := UInt16.ofNat (load16 page 14)
  nocFats := UInt8.ofBitVec (page 16)
  maxRde := UInt16.ofNat (load16 page 17)
  sectorsPerFat := UInt16.ofNat (load16 page 22)
  fatName := Vector.ofFn fun i => page (54 + i)

/-! ## The calls -/

/-- A call on a volume, on any file or directory. -/
inductive FatCall where
  | read (file : FatFile) (mem : Bytes) (buf : Nat) (size : UInt32)
  | write (file : FatFile) (mem : Bytes) (buf : Nat) (size : Int32) (clock : FatClock)
  | seek (file : FatFile) (offset : UInt32) (dir : SeekDir)
  | readdir (dir : DirHandle)
  | nextCluster (cc : UInt16)
  | freeCluster (cluster : UInt32)

/-- What a call leaves of `fs_fat_t` when it returns. -/
inductive Leaves (disk : Disk) (fat : FsFat) : FatCall → FsFat → Prop
  | read {file : FatFile} {mem : Bytes} {buf : Nat} {size total : UInt32} {n : Nat} {s : ReadLoop}
      (h : fatFsRead fat disk file mem buf size n = some (.returned total s)) :
      Leaves disk fat (.read file mem buf size) s.fat
  | write {file : FatFile} {mem : Bytes} {buf : Nat} {size ret : Int32} {clock : FatClock} {n : Nat}
      {fat' : FsFat} {s : WriteLoop}
      (h : fatFsWrite { fat, mem, buf, size, clock } disk file n = some (.returned ret fat' s)) :
      Leaves disk fat (.write file mem buf size clock) fat'
  | seek {file : FatFile} {offset : UInt32} {dir : SeekDir} :
      Leaves disk fat (.seek file offset dir) fat
  | readdir {dir : DirHandle} :
      Leaves disk fat (.readdir dir) (fatFsReaddir disk.read fat dir).fat
  | nextCluster {cc : UInt16} :
      Leaves disk fat (.nextCluster cc) (fatNextCluster disk.read fat cc).1
  | freeCluster {cluster : UInt32} : Leaves disk fat (.freeCluster cluster) fat

/-- One step behind the mount: a call, with the disk as it is by then, or another
function of the file system. Those do not write anything but `buf` and `pcs`. -/
inductive FatStep : FsFat → FsFat → Prop
  | call {disk : Disk} {call : FatCall} {fat fat' : FsFat} (h : Leaves disk fat call fat') :
      FatStep fat fat'
  | other {fat : FsFat} (buf : Bytes) (pcs : UInt32) : FatStep fat { fat with buf, pcs }

/-! ## The divisors -/

/-- What `fat_next_cluster` divides by. -/
def FsFat.nextDivisors (fat : FsFat) (cc : UInt16) : List UInt32 :=
  if ¬ fatVerifyCluster cc then []
  else if cc.toUInt32 = fat.rootStart then []
  else if cc.toNat * 2 / fat.bps.toNat ≥ fat.fatSectors.toNat then [fat.bps]
  else [fat.bps, fat.bps]

/-- What `fat_move_file_offset` divides by. -/
def FsFat.moveDivisors (fat : FsFat) (file : FatFile) (cpb mbytes : UInt32) : List UInt32 :=
  cpb :: if file.offset % cpb + mbytes ≥ cpb then fat.nextDivisors file.cblk.toUInt16 else []

/-- What a round of `fat_fs_read` divides by. -/
def ReadLoop.divisors (disk : Disk) (s : ReadLoop) : List UInt32 :=
  if s.nbytes > 0 then
    let cpb := s.fat.cpb
    let co := s.file.offset % cpb
    let cr :=
      if co = 0 ∧ s.nbytes = cpb then cpb
      else if co + s.nbytes > cpb then cpb - co
      else s.nbytes
    cpb :: if disk.up then s.fat.moveDivisors s.file cpb cr else []
  else []

/-- What a round of `fat_fs_write` divides by; it does so up to three times. -/
def WriteCall.divisors (call : WriteCall) (s : WriteLoop) : List UInt32 :=
  if s.nbytes > 0 then [call.fat.bps] else []

/-- What `fat_fs_seek` divides by. -/
def FsFat.seekDivisors (fat : FsFat) : SeekDir → List UInt32
  | .seekSet => [fat.cpb]
  | .seekCur => [fat.cpb]
  | .seekEnd => [fat.cpb]
  | .other => []

/-- What `fat_fs_readdir` divides by. -/
def FsFat.readdirDivisors (fat : FsFat) (dir : DirHandle) : List UInt32 :=
  if dir.offset ≥ (fat.bps / 32).toInt32 then fat.nextDivisors dir.sector.toUInt32.toUInt16 else []

/-- A call divides by a number. -/
inductive Divides (disk : Disk) (fat : FsFat) : FatCall → UInt32 → Prop
  | read {file : FatFile} {mem : Bytes} {buf : Nat} {size d : UInt32} {s : ReadLoop}
      (hpass : Passes (ReadLoop.round disk) (readStart fat file mem buf size) s)
      (hd : d ∈ s.divisors disk) : Divides disk fat (.read file mem buf size) d
  | write {file : FatFile} {mem : Bytes} {buf : Nat} {size : Int32} {clock : FatClock} {d : UInt32}
      {call : WriteCall} {s : WriteLoop} (hcall : call = { fat, mem, buf, size, clock })
      (hmode : file.mode &&& fmWrite ≠ 0) (hpass : Passes call.round (call.start disk file) s)
      (hd : d ∈ call.divisors s) : Divides disk fat (.write file mem buf size clock) d
  | seek {file : FatFile} {offset d : UInt32} {dir : SeekDir} (hd : d ∈ fat.seekDivisors dir) :
      Divides disk fat (.seek file offset dir) d
  | readdir {dir : DirHandle} {d : UInt32} (hd : d ∈ fat.readdirDivisors dir) :
      Divides disk fat (.readdir dir) d
  | nextCluster {cc : UInt16} {d : UInt32} (hd : d ∈ fat.nextDivisors cc) :
      Divides disk fat (.nextCluster cc) d
  | freeCluster {cluster : UInt32} : Divides disk fat (.freeCluster cluster) (fat.bps / 2)

/-- Whatever has been called behind the mount, no call divides by zero. -/
def DividesSafely (fat : FsFat) : Prop :=
  ∀ fat' disk call d, Relation.ReflTransGen FatStep fat fat' → Divides disk fat' call d → d ≠ 0

/-! ## The geometry stays -/

section Steps

variable {disk : Disk} {fat fat' : FsFat} {call : FatCall} {d : UInt32}

open Volume (SameVolume sameVolume_bread sameVolume_next)

/-- What a round of `fat_fs_read` leaves, when it leaves the loop. -/
theorem ReadLoop.leave_volume {s s' : ReadLoop} {total : UInt32}
    (h : s.round disk = .leave (.returned total s')) : SameVolume s.fat s'.fat := by
  have hadvance : ∀ (s₀ : ReadLoop) (cr : UInt32), SameVolume s.fat s₀.fat →
      s₀.advance disk cr = .leave (.returned total s') → SameVolume s.fat s'.fat := by
    intro s₀ cr hs₀ h₀
    have hmove := sameVolume_move disk.read s₀.fat s₀.file s₀.fat.cpb cr
    rw [ReadLoop.advance] at h₀
    dsimp only at h₀
    rcases hfat : fatMoveFileOffset disk.read s₀.fat s₀.file s₀.fat.cpb cr with ⟨fat, file, ok⟩
    rw [hfat] at h₀ hmove
    cases ok with
    | true => cases h₀
    | false =>
        cases h₀
        exact hs₀.trans hmove
  rw [ReadLoop.round] at h
  dsimp only at h
  split_ifs at h
  · cases h
  · split at h
    · cases h
      exact .refl s.fat
    · refine hadvance _ _ ?_ h
      exact ⟨_, s.fat.pcs, rfl⟩
  · split at h
    · cases h
      exact ⟨s.fat.buf, -1, rfl⟩
    · refine hadvance _ _ ?_ h
      exact ⟨_, -1, rfl⟩
  · split at h
    · cases h
      exact ⟨s.fat.buf, -1, rfl⟩
    · refine hadvance _ _ ?_ h
      exact ⟨_, -1, rfl⟩
  · cases h
    exact .refl s.fat

/-- What a round of `fat_fs_write` leaves, when it leaves the loop. -/
theorem WriteCall.leave_volume {call : WriteCall} {s s' : WriteLoop} {ret : Int32}
    (h : call.round s = .leave (.returned ret fat' s')) : SameVolume call.fat fat' := by
  have hsector : ∀ n, call.writeSector s n = .leave (.returned ret fat' s') →
      SameVolume call.fat fat' := by
    intro n h
    rw [WriteCall.writeSector] at h
    split at h
    · cases h
    · dsimp only [WriteCall.fail] at h
      split_ifs at h
      · cases h
        exact .refl call.fat
      · split at h
        · cases h
          exact .refl call.fat
        · cases h
  rw [WriteCall.round] at h
  split_ifs at h
  · cases h
  · rw [WriteCall.writeRest] at h
    dsimp only [WriteCall.fail] at h
    split at h
    · cases h
      exact .refl call.fat
    · -- a store behind `sbuf` does not return
      split_ifs at h
      · cases h
      · split at h
        · cases h
          exact .refl call.fat
        · cases h
      · cases h
      · split at h
        · cases h
          exact .refl call.fat
        · cases h
  · exact hsector _ h
  · exact hsector _ h
  · rw [Round.leave.injEq, WriteCall.finish] at h
    have hbread := sameVolume_bread s.disk.read call.fat s.file.dcluster
    split at h
    · next hread =>
        rw [hread] at hbread
        cases h
        exact hbread
    · next hread =>
        rw [hread] at hbread
        dsimp only at h
        split at h
        all_goals
          cases h
          exact hbread.trans ⟨_, _, rfl⟩

theorem sameVolume_readDir (read : UInt32 → Option Bytes) (fat : FsFat) (sector offset : Int) :
    SameVolume fat (readFatDir read fat sector offset).1 := by
  have hbread := sameVolume_bread read fat (UInt32.ofInt sector)
  unfold readFatDir
  split
  · exact .refl fat
  · split
    all_goals
      next hread =>
        rw [hread] at hbread
        exact hbread

theorem sameVolume_readdirLoop (read : UInt32 → Option Bytes) (sector : Int) (left : Nat)
    (fat : FsFat) (offset : Int) :
    SameVolume fat (readdirLoop read sector left fat offset).1 := by
  induction left generalizing fat offset with
  | zero => exact .refl fat
  | succ left ih =>
      have hread := sameVolume_readDir read fat sector offset
      unfold readdirLoop
      rcases hdir : readFatDir read fat sector offset with ⟨fat₁, none | fdir⟩
      · rw [hdir] at hread
        exact hread
      · rw [hdir] at hread
        dsimp only
        split_ifs
        · exact hread
        · exact hread.trans (ih fat₁ (offset + 1))
        · exact hread.trans (ih fat₁ (offset + 1))
        · exact hread

theorem sameVolume_readdir (read : UInt32 → Option Bytes) (fat : FsFat) (dir : DirHandle) :
    SameVolume fat (fatFsReaddir read fat dir).fat := by
  have hnext := sameVolume_next read fat dir.sector.toUInt32.toUInt16
  rw [fatFsReaddir]
  dsimp only
  generalize hturn :
    (if dir.offset ≥ (fat.bps / 32).toInt32 then
      ((fatNextCluster read fat dir.sector.toUInt32.toUInt16).1,
        { sector := (fatNextCluster read fat dir.sector.toUInt32.toUInt16).2.toUInt32.toInt32,
          offset := 0 })
    else (fat, dir)) = turned
  have hfat : SameVolume fat turned.1 := by
    rw [← hturn]
    split_ifs
    · exact hnext
    · exact .refl fat
  split_ifs
  · exact hfat
  · have hloop := sameVolume_readdirLoop read turned.2.sector.toInt
      (turned.1.rootTotal.toNat - turned.2.offset.toInt).toNat turned.1 turned.2.offset.toInt
    split
    all_goals
      next hread =>
        rw [hread] at hloop
        exact hfat.trans hloop

theorem Leaves.sameVolume (h : Leaves disk fat call fat') : SameVolume fat fat' := by
  cases h with
  | read h =>
      refine Ends.invariant (I := fun s : ReadLoop => SameVolume fat s.fat)
        (Q := fun r => ∀ total s, r = .returned total s → SameVolume fat s.fat)
        (fun _ _ hs hround => hs.trans (ReadLoop.round_volume hround)) ?_ ⟨_, h⟩ (.refl fat)
        _ _ rfl
      rintro s r hs hround total s' rfl
      exact hs.trans (ReadLoop.leave_volume hround)
  | write h =>
      rw [fatFsWrite] at h
      split at h
      · cases h
        exact .refl fat
      · refine Ends.invariant (I := fun _ => True)
          (Q := fun r => ∀ ret fat' s, r = .returned ret fat' s → SameVolume fat fat')
          (fun _ _ _ _ => trivial) ?_ ⟨_, h⟩ trivial _ _ _ rfl
        rintro s r - hround ret fat' s' rfl
        exact WriteCall.leave_volume hround
  | seek => exact .refl fat
  | readdir => exact sameVolume_readdir disk.read fat _
  | nextCluster => exact sameVolume_next disk.read fat _
  | freeCluster => exact .refl fat

theorem sameVolume_of_steps (h : Relation.ReflTransGen FatStep fat fat') : SameVolume fat fat' := by
  induction h with
  | refl => exact .refl fat
  | tail _ hstep ih =>
      cases hstep with
      | call hleaves => exact ih.trans hleaves.sameVolume
      | other buf pcs => exact ih.trans ⟨buf, pcs, rfl⟩

/-! ## What a call divides by -/

theorem nextDivisors_eq {cc : UInt16} (h : d ∈ fat.nextDivisors cc) : d = fat.bps := by
  rw [FsFat.nextDivisors] at h
  split_ifs at h
  · cases h
  · exact List.mem_singleton.mp h
  · simpa using h
  · cases h

theorem divisors_of_move {file : FatFile} {cpb mbytes : UInt32}
    (h : d ∈ fat.moveDivisors file cpb mbytes) : d = cpb ∨ d = fat.bps := by
  rcases List.mem_cons.mp h with hcpb | h
  · exact Or.inl hcpb
  · split at h
    · exact Or.inr (nextDivisors_eq h)
    · cases h

theorem divisors_of_read {s : ReadLoop} (h : d ∈ s.divisors disk) :
    d = s.fat.cpb ∨ d = s.fat.bps := by
  unfold ReadLoop.divisors at h
  by_cases hpos : s.nbytes > 0
  · rw [if_pos hpos] at h
    rcases List.mem_cons.mp h with hcpb | h
    · exact Or.inl hcpb
    · by_cases hup : disk.up
      · rw [if_pos hup] at h
        exact divisors_of_move h
      · rw [if_neg hup] at h
        cases h
  · rw [if_neg hpos] at h
    cases h

/-- There are three divisors. -/
theorem Divides.cases (h : Divides disk fat call d) :
    d = fat.cpb ∨ d = fat.bps ∨ d = fat.bps / 2 := by
  cases h with
  | read hpass hd =>
      have hvolume : SameVolume fat _ :=
        hpass.invariant (I := fun s : ReadLoop => SameVolume fat s.fat)
          (fun _ _ hs hround => hs.trans (ReadLoop.round_volume hround)) (.refl fat)
      obtain ⟨buf, pcs, hfat⟩ := hvolume
      rcases divisors_of_read hd with rfl | rfl
      · rw [hfat]
        exact Or.inl rfl
      · rw [hfat]
        exact Or.inr (Or.inl rfl)
  | write hcall _ _ hd =>
      subst hcall
      rw [WriteCall.divisors] at hd
      split at hd
      · exact Or.inr (Or.inl (List.mem_singleton.mp hd))
      · cases hd
  | @seek _ _ _ dir hd =>
      cases dir with
      | other => cases hd
      | _ => exact Or.inl (List.mem_singleton.mp hd)
  | readdir hd =>
      rw [FsFat.readdirDivisors] at hd
      split at hd
      · exact Or.inr (Or.inl (nextDivisors_eq hd))
      · cases hd
  | nextCluster hd => exact Or.inr (Or.inl (nextDivisors_eq hd))
  | freeCluster => exact Or.inr (Or.inr rfl)

/-- A volume is divided safely if a sector of its FAT has an entry and a
cluster has a byte. -/
theorem dividesSafely_iff : DividesSafely fat ↔ fat.bps / 2 ≠ 0 ∧ fat.cpb ≠ 0 := by
  constructor
  · intro h
    let disk : Disk := diskOf fun _ => 0
    exact ⟨h fat disk (.freeCluster 0) _ .refl .freeCluster,
      h fat disk (.seek smallFile 0 .seekSet) _ .refl (.seek List.mem_cons_self)⟩
  · rintro ⟨hcps, hcpb⟩ fat' disk call d hsteps hd
    obtain ⟨buf, pcs, rfl⟩ := sameVolume_of_steps hsteps
    rcases hd.cases with rfl | rfl | rfl
    · exact hcpb
    · intro hzero
      exact hcps (by rw [show fat.bps = 0 from hzero]; rfl)
    · exact hcps

end Steps

/-! ## The law -/

/-- Where the sizes of a mounted volume come from. -/
theorem mount_sizes {br : BootRecord} {page : Bytes} {fat : FsFat}
    (hmount : fatFsMount br page = some fat) :
    fat.bps = br.bytesPerSector.toUInt32 ∧ fat.spc = br.sectorsPerCluster.toUInt32 := by
  unfold fatFsMount at hmount
  dsimp only at hmount
  split at hmount
  · cases hmount
  · obtain rfl := Option.some.inj hmount
    exact ⟨rfl, rfl⟩

/-- No call on a mounted volume divides by zero, if and only if the boot record has
at least two bytes in a sector and at least one sector in a cluster. -/
theorem fatFsMount_law (page : Bytes) {fat : FsFat}
    (hmount : fatFsMount (bootRecordAt page) page = some fat) :
    DividesSafely fat
      ↔ 2 ≤ (bootRecordAt page).bytesPerSector ∧ (bootRecordAt page).sectorsPerCluster ≠ 0 := by
  obtain ⟨hbps, hspc⟩ := mount_sizes hmount
  have hnat : fat.bps.toNat = (bootRecordAt page).bytesPerSector.toNat := by
    rw [hbps, UInt16.toNat_toUInt32]
  rw [dividesSafely_iff, UInt16.le_iff_toNat_le, ← hnat, ← UInt32.toNat_inj.ne, UInt32.toNat_div]
  constructor
  · rintro ⟨hcps, hcpb⟩
    have htwo : fat.bps.toNat / 2 ≠ 0 := hcps
    refine ⟨by simpa using (Nat.div_ne_zero_iff.mp htwo).2, ?_⟩
    intro hzero
    refine hcpb ?_
    rw [FsFat.cpb, hspc, hzero]
    exact UInt32.mul_zero
  · rintro ⟨htwo, hone⟩
    have hb : 2 ≤ fat.bps.toNat := htwo
    refine ⟨(by omega : fat.bps.toNat / 2 ≠ 0), cpb_ne_zero hmount ?_ ?_⟩
    · rw [UInt32.le_iff_toNat_le, hspc, UInt8.toNat_toUInt32]
      exact Nat.pos_of_ne_zero fun h => hone (UInt8.toNat_inj.mp h)
    · rw [UInt32.lt_iff_toNat_lt]
      exact hb

/-- A boot record for FAT16 with the sizes of a sector and a cluster. -/
def bootPage (bps spc : BitVec 8) : Bytes := fun a =>
  if a = 12 then bps
  else if a = 13 then spc
  else if a = 16 then 2
  else if 54 ≤ a then ([0x46, 0x41, 0x54, 0x31, 0x36] : Chars).getD (a - 54) 0
  else 0

/-- 512 bytes and four sectors. -/
theorem fatFsMount_law_small :
    ∃ fat, fatFsMount (bootRecordAt (bootPage 2 4)) (bootPage 2 4) = some fat
      ∧ DividesSafely fat := by
  obtain ⟨fat, hmount⟩ := Option.isSome_iff_exists.mp
    (by decide +kernel : (fatFsMount (bootRecordAt (bootPage 2 4)) (bootPage 2 4)).isSome)
  exact ⟨fat, hmount, (fatFsMount_law _ hmount).mpr (by decide +kernel)⟩

/-- A boot record without a size of a sector is mounted, and a seek divides by it. -/
theorem fatFsMount_law_bare :
    ∃ fat, fatFsMount (bootRecordAt (bootPage 0 4)) (bootPage 0 4) = some fat
      ∧ ¬ DividesSafely fat := by
  obtain ⟨fat, hmount⟩ := Option.isSome_iff_exists.mp
    (by decide +kernel : (fatFsMount (bootRecordAt (bootPage 0 4)) (bootPage 0 4)).isSome)
  have hzero : (bootRecordAt (bootPage 0 4)).bytesPerSector = 0 := by decide +kernel
  refine ⟨fat, hmount, fun hsafe => (dividesSafely_iff.mp hsafe).2 ?_⟩
  rw [FsFat.cpb, (mount_sizes hmount).1, hzero]
  exact UInt32.zero_mul

end Csos
