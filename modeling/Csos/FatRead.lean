import Csos.FatFile

/-!
# What a read comes to

A read should give the bytes of the file from its position on, as many as
were asked for and are left. `fs_fread` returns 0 whatever was read, so
the law can only hold where nothing is to be read. And `fat_fs_read` does
read there when the position is behind the end of the file, because
`size - offset` is unsigned.
-/

namespace Csos

open Lib

/-- The byte `i` of a file with the clusters `chain`. -/
def fileByte (fat : FsFat) (disk : Disk) (chain : List UInt32) (i : Nat) : BitVec 8 :=
  let cluster := chain.getD (i / fat.cpb.toNat) 0
  let os := i % fat.cpb.toNat
  disk.sectors (fat.dataStart + (cluster - 2) * fat.spc + UInt32.ofNat (os / diskSectorSize))
    (os % diskSectorSize)

/-- How many bytes a read of `n` bytes should give. -/
def readLength (file : FatFile) (n : UInt32) : Nat :=
  min n.toNat (file.size.toNat - file.offset.toNat)

/-- What a read of `n` bytes should come to, with what `fs_fread` makes of
it. -/
def ReadLaw (fat : FsFat) (disk : Disk) (file : FatFile) (chain : List UInt32) (mem : Bytes)
    (buf : Nat) (n : UInt32) : Prop :=
  ∃ m ret s, fatFsRead fat disk file mem buf n m = some (.returned ret s)
    ∧ ret.toNat = readLength file n
    ∧ (∀ i < readLength file n, s.mem (buf + i) = fileByte fat disk chain (file.offset.toNat + i))
    ∧ (∀ a, a < buf ∨ buf + n.toNat ≤ a → s.mem a = mem a)
    ∧ s.file.offset.toNat = file.offset.toNat + readLength file n
    ∧ (fsFread ret.toInt32).toInt = readLength file n

/-- When it does: nothing is asked for at a position within the file, the
position is the end, or nothing is to be read and the device is down. -/
def ReadMeets (fat : FsFat) (disk : Disk) (file : FatFile) (n : UInt32) : Prop :=
  n = 0 ∧ file.offset ≤ file.size
    ∨ file.offset = file.size ∧ file.size < file.offset + n
    ∨ disk.up = false ∧ fat.cpb ≠ 0 ∧ (n = 0 ∨ file.size ≤ file.offset)

/-! ## Where nothing is to be read -/

theorem readLength_eq_zero_iff {file : FatFile} {n : UInt32} :
    readLength file n = 0 ↔ n = 0 ∨ file.size ≤ file.offset := by
  rw [readLength, UInt32.le_iff_toNat_le, ← UInt32.toNat_inj, UInt32.toNat_zero]
  omega

/-- The loop has nothing to do. -/
theorem readSize_eq_zero_iff {file : FatFile} {n : UInt32} :
    readSize file n = 0
      ↔ n = 0 ∧ file.offset ≤ file.size ∨ file.offset = file.size ∧ file.size < file.offset + n := by
  rw [readSize]
  by_cases h : file.offset + n > file.size
  · rw [if_pos h]
    constructor
    · intro hz
      have heq : file.size - file.offset + file.offset = 0 + file.offset := by rw [hz]
      rw [UInt32.sub_add_cancel, UInt32.zero_add] at heq
      exact .inr ⟨heq.symm, h⟩
    · rintro (⟨rfl, hle⟩ | ⟨heq, -⟩)
      · rw [UInt32.add_zero] at h
        exact absurd hle (UInt32.not_le.mpr h)
      · rw [heq, UInt32.sub_self]
  · rw [if_neg h]
    constructor
    · rintro rfl
      rw [UInt32.add_zero] at h
      exact .inl ⟨rfl, UInt32.not_lt.mp h⟩
    · rintro (⟨hz, -⟩ | ⟨-, hlt⟩)
      · exact hz
      · exact absurd hlt h

section Rounds

variable {disk : Disk} {s s' : ReadLoop} {cr ret : UInt32} {n : Nat}

/-- With nothing left the loop is over. -/
theorem ReadLoop.round_done (h : s.nbytes = 0) :
    s.round disk = .leave (.returned s.total s) := by
  have hnot : ¬ s.nbytes > 0 := by
    rw [h]
    exact UInt32.lt_irrefl 0
  simp only [ReadLoop.round, if_neg hnot]

theorem ReadLoop.round_fault (hcpb : s.fat.cpb = 0) (hpos : s.nbytes > 0) :
    s.round disk = .leave .fault := by
  simp only [ReadLoop.round, if_pos hpos, if_pos hcpb]

theorem ReadLoop.round_down (hup : disk.up = false) (hcpb : s.fat.cpb ≠ 0) (hpos : s.nbytes > 0) :
    ∃ s', s.round disk = .leave (.returned s.total s') ∧ s'.mem = s.mem ∧ s'.file = s.file := by
  have hread : ∀ b sectors, disk.readAll b sectors = none := by
    intro b sectors
    rw [Disk.readAll, hup]
    rfl
  simp only [ReadLoop.round, if_pos hpos, if_neg hcpb, hread]
  split
  · exact ⟨s, rfl, rfl, rfl⟩
  · exact ⟨{ s with fat := { s.fat with pcs := -1 } }, rfl, rfl, rfl⟩

theorem ReadLoop.advance_cases (disk : Disk) (s : ReadLoop) (cr : UInt32) :
    ∃ s' : ReadLoop, s'.total = s.total + cr ∧ s'.nbytes = s.nbytes - cr
      ∧ (s.advance disk cr = .again s' ∨ s.advance disk cr = .leave (.returned s'.total s')) := by
  rw [ReadLoop.advance]
  dsimp only
  rcases fatMoveFileOffset disk.read s.fat s.file s.fat.cpb cr with ⟨fat, file, ok⟩
  let s' : ReadLoop := {
    fat, file, mem := s.mem
    buf := s.buf + cr.toNat
    nbytes := s.nbytes - cr
    total := s.total + cr }
  cases ok with
  | true => exact ⟨s', rfl, rfl, .inl rfl⟩
  | false => exact ⟨s', rfl, rfl, .inr rfl⟩

/-- The bytes that have been read and those that are left. -/
def ReadLoop.Adds (n : Nat) (s : ReadLoop) : Prop := s.total.toNat + s.nbytes.toNat = n

/-- What is read in a round is at least one byte, and not more than is left. -/
theorem ReadLoop.chunk_bounds {co cpb nbytes : UInt32} (hco : co < cpb)
    (hpos : nbytes > 0) :
    0 < (if co + nbytes > cpb then cpb - co else nbytes).toNat
      ∧ (if co + nbytes > cpb then cpb - co else nbytes).toNat ≤ nbytes.toNat := by
  have hpos' : 0 < nbytes.toNat := UInt32.lt_iff_toNat_lt.mp hpos
  have hco' := UInt32.lt_iff_toNat_lt.mp hco
  have hlt := cpb.toNat_lt
  by_cases h : co + nbytes > cpb
  · have hgt := UInt32.lt_iff_toNat_lt.mp h
    rw [UInt32.toNat_add] at hgt
    rw [if_pos h, UInt32.toNat_sub_of_le _ _ (UInt32.le_of_lt hco)]
    omega
  · rw [if_neg h]
    omega

/-- A chunk moves from one side of the sum to the other. -/
theorem ReadLoop.advance_adds {disk : Disk} (hs : s.Adds n) (hcr : 0 < cr.toNat)
    (hle : cr.toNat ≤ s.nbytes.toNat) (hn : n < 2 ^ 32) :
    (∀ s', s.advance disk cr = .again s' → s'.Adds n)
      ∧ ∀ ret s', s.advance disk cr = .leave (.returned ret s') → 0 < ret.toNat := by
  obtain ⟨s₁, htotal, hnbytes, hcases⟩ := ReadLoop.advance_cases disk s cr
  rw [ReadLoop.Adds] at hs
  have hsum : s₁.total.toNat = s.total.toNat + cr.toNat := by
    rw [htotal, UInt32.toNat_add]
    omega
  have hleft : s₁.nbytes.toNat = s.nbytes.toNat - cr.toNat := by
    rw [hnbytes, UInt32.toNat_sub_of_le _ _ (UInt32.le_iff_toNat_le.mpr hle)]
  rcases hcases with h | h
  · rw [h]
    refine ⟨fun s' hs' => ?_, fun ret s' hs' => ?_⟩
    · obtain rfl := Round.again.inj hs'
      rw [ReadLoop.Adds]
      omega
    · cases hs'
  · rw [h]
    refine ⟨fun s' hs' => ?_, fun ret s' hs' => ?_⟩
    · cases hs'
    · obtain ⟨rfl, rfl⟩ := ReadEnd.returned.inj (Round.leave.inj hs')
      omega

/-- A round with a device that answers keeps the sum, and the loop is not
left before something has been read. -/
theorem ReadLoop.round_adds (hup : disk.up = true) (hn : 0 < n) (hn32 : n < 2 ^ 32)
    (hs : s.Adds n) :
    (∀ s', s.round disk = .again s' → s'.Adds n)
      ∧ ∀ ret s', s.round disk = .leave (.returned ret s') → 0 < ret.toNat := by
  by_cases hpos : s.nbytes > 0
  · by_cases hcpb : s.fat.cpb = 0
    · rw [ReadLoop.round_fault hcpb hpos]
      exact ⟨nofun, nofun⟩
    · rw [ReadLoop.round]
      have hco : s.file.offset % s.fat.cpb < s.fat.cpb :=
        UInt32.mod_lt _ (UInt32.pos_iff_ne_zero.mpr hcpb)
      simp only [if_pos hpos, if_neg hcpb, Disk.readAll, if_pos hup]
      by_cases hfast : s.file.offset % s.fat.cpb = 0 ∧ s.nbytes = s.fat.cpb
      · simp only [if_pos hfast]
        have hcr : 0 < s.fat.cpb.toNat :=
          UInt32.lt_iff_toNat_lt.mp (UInt32.pos_iff_ne_zero.mpr hcpb)
        exact ReadLoop.advance_adds hs hcr (Nat.le_of_eq (congrArg UInt32.toNat hfast.2).symm) hn32
      · simp only [if_neg hfast]
        obtain ⟨hcr, hle⟩ := ReadLoop.chunk_bounds hco hpos
        exact ReadLoop.advance_adds hs hcr hle hn32
  · have hzero : s.nbytes = 0 := by
      by_contra hne
      exact hpos (UInt32.pos_iff_ne_zero.mpr hne)
    rw [ReadLoop.round_done hzero]
    refine ⟨nofun, fun ret s' hs' => ?_⟩
    obtain ⟨rfl, rfl⟩ := ReadEnd.returned.inj (Round.leave.inj hs')
    rw [ReadLoop.Adds, hzero, UInt32.toNat_zero] at hs
    omega

end Rounds

section Law

variable {fat : FsFat} {disk : Disk} {file : FatFile} {chain : List UInt32} {mem : Bytes}
  {buf : Nat} {n : UInt32}

/-- With a device that answers, a read that has something to do returns
more than 0. -/
theorem fatFsRead_pos {m : Nat} {ret : UInt32} {s : ReadLoop} (hup : disk.up = true)
    (hsize : readSize file n ≠ 0)
    (h : fatFsRead fat disk file mem buf n m = some (.returned ret s)) : 0 < ret.toNat := by
  have hpos : 0 < (readSize file n).toNat :=
    UInt32.lt_iff_toNat_lt.mp (UInt32.pos_iff_ne_zero.mpr hsize)
  have hlt := (readSize file n).toNat_lt
  have hstart : (readStart fat file mem buf n).Adds (readSize file n).toNat := by
    rw [ReadLoop.Adds]
    exact Nat.zero_add _
  refine Ends.invariant (I := fun s => s.Adds (readSize file n).toNat)
    (Q := fun r => ∀ ret s, r = .returned ret s → 0 < ret.toNat)
    (fun s s' hs h' => (ReadLoop.round_adds hup hpos hlt hs).1 s' h') ?_ ⟨m, h⟩ hstart ret s rfl
  rintro s r hs hr ret s' rfl
  exact (ReadLoop.round_adds hup hpos hlt hs).2 ret s' hr

/-- With a device that is down the first round gives up. -/
theorem fatFsRead_down (hup : disk.up = false) (hcpb : fat.cpb ≠ 0) (hsize : readSize file n ≠ 0) :
    ∃ s, fatFsRead fat disk file mem buf n 1 = some (.returned 0 s) ∧ s.mem = mem
      ∧ s.file = file := by
  obtain ⟨s, hs, hmem, hfile⟩ := ReadLoop.round_down (s := readStart fat file mem buf n) hup hcpb
    (UInt32.pos_iff_ne_zero.mpr hsize)
  refine ⟨s, ?_, hmem, hfile⟩
  rw [fatFsRead, loopFor, hs]
  rfl

/-- A cluster without bytes is divided by. -/
theorem fatFsRead_fault (hcpb : fat.cpb = 0) (hsize : readSize file n ≠ 0) :
    Ends (ReadLoop.round disk) (readStart fat file mem buf n) .fault :=
  Ends.of_leave (ReadLoop.round_fault hcpb (UInt32.pos_iff_ne_zero.mpr hsize))

/-- Where nothing is to be read, a call that stores nothing and returns 0
keeps the law. -/
theorem readLaw_of_zero {m : Nat} {s : ReadLoop} (hk : readLength file n = 0)
    (h : fatFsRead fat disk file mem buf n m = some (.returned 0 s)) (hmem : s.mem = mem)
    (hfile : s.file = file) : ReadLaw fat disk file chain mem buf n := by
  refine ⟨m, 0, s, h, hk.symm, fun i hi => ?_, fun a _ => by rw [hmem], ?_, ?_⟩
  · rw [hk] at hi
    exact absurd hi (Nat.not_lt_zero i)
  · rw [hfile, hk, Nat.add_zero]
  · rw [hk]
    rfl

/-- `fs_fread` tells nothing about what has been read. -/
theorem readLength_zero_of_law (h : ReadLaw fat disk file chain mem buf n) :
    readLength file n = 0 := by
  obtain ⟨m, ret, s, -, -, -, -, -, hret⟩ := h
  rw [fsFread] at hret
  split at hret
  · have hneg : (-1 : Int32).toInt = -1 := rfl
    omega
  · have hzero : (0 : Int32).toInt = 0 := rfl
    omega

/-- A read keeps the law exactly where nothing is to be read and the call
sees it. -/
theorem fatFsRead_law (fat : FsFat) (disk : Disk) (file : FatFile) (chain : List UInt32)
    (mem : Bytes) (buf : Nat) (n : UInt32) :
    ReadLaw fat disk file chain mem buf n ↔ ReadMeets fat disk file n := by
  by_cases hsize : readSize file n = 0
  · have hcond := readSize_eq_zero_iff.mp hsize
    have hmeets : ReadMeets fat disk file n := by
      rcases hcond with h | h
      · exact .inl h
      · exact .inr (.inl h)
    have hk : readLength file n = 0 := by
      rw [readLength_eq_zero_iff]
      rcases hcond with ⟨h, -⟩ | ⟨h, -⟩
      · exact .inl h
      · exact .inr (h ▸ UInt32.le_refl _)
    have hret : fatFsRead fat disk file mem buf n 1
        = some (.returned 0 (readStart fat file mem buf n)) := by
      rw [fatFsRead, loopFor, ReadLoop.round_done hsize]
      rfl
    exact ⟨fun _ => hmeets, fun _ => readLaw_of_zero hk hret rfl rfl⟩
  · constructor
    · intro h
      have hk := readLength_zero_of_law h
      obtain ⟨m, ret, s, hret, hlen, -⟩ := h
      cases hup : disk.up with
      | true =>
          have hpos := fatFsRead_pos hup hsize hret
          omega
      | false =>
          refine .inr (.inr ⟨hup, fun hcpb => ?_, readLength_eq_zero_iff.mp hk⟩)
          cases (fatFsRead_fault hcpb hsize).unique ⟨m, hret⟩
    · rintro (h | h | ⟨hup, hcpb, h⟩)
      · exact absurd (readSize_eq_zero_iff.mpr (.inl h)) hsize
      · exact absurd (readSize_eq_zero_iff.mpr (.inr h)) hsize
      · obtain ⟨s, hret, hmem, hfile⟩ := fatFsRead_down hup hcpb hsize
        exact readLaw_of_zero (readLength_eq_zero_iff.mpr h) hret hmem hfile

/-- Ten bytes of a file of 700: all is well but for what `fs_fread` returns. -/
theorem fatFsRead_ten :
    ¬ ReadLaw smallFat (diskOf fun _ => 0) smallFile [2, 3] (fun _ => 0) 0x1000 10 :=
  fun h => absurd (readLength_zero_of_law h) (by decide)

/-! ## Within a cluster -/

/-- A chunk that does not reach the end of its cluster. -/
theorem fatMoveFileOffset_within {read : UInt32 → Option Bytes} {cpb cr : UInt32}
    (h : file.offset % cpb + cr < cpb) :
    fatMoveFileOffset read fat file cpb cr
      = (fat, { file with offset := file.offset + cr }, true) := by
  rw [fatMoveFileOffset]
  exact if_neg (UInt32.not_le.mpr h)

/-- A cluster of one sector. -/
theorem ReadLoop.readAll_one {s : ReadLoop} (hup : disk.up = true) (hspc : s.fat.spc = 1) :
    disk.readAll s.fat.buf s.sectors
      = some (Bytes.copy s.fat.buf 0 (disk.sectors s.ss) diskSectorSize) := by
  have hone : s.sectors = [s.ss] := by
    rw [ReadLoop.sectors, hspc]
    exact congrArg (fun x => [x]) (UInt32.add_zero s.ss)
  rw [Disk.readAll, if_pos hup, hone]
  rfl

theorem ReadLoop.advance_within {s : ReadLoop} {cr : UInt32}
    (h : s.file.offset % s.fat.cpb + cr < s.fat.cpb) :
    s.advance disk cr = .again { s with
      file := { s.file with offset := s.file.offset + cr }
      buf := s.buf + cr.toNat
      nbytes := s.nbytes - cr
      total := s.total + cr } := by
  simp only [ReadLoop.advance, fatMoveFileOffset_within h]

/-- The round that reads all the rest out of a cluster of one sector. -/
theorem ReadLoop.round_within {s : ReadLoop} (hup : disk.up = true) (hspc : s.fat.spc = 1)
    (hcpb : s.fat.cpb ≠ 0) (hpos : s.nbytes > 0) (hfast : s.nbytes ≠ s.fat.cpb)
    (hlt : s.file.offset % s.fat.cpb + s.nbytes < s.fat.cpb) :
    ∃ s', s.round disk = .again s' ∧ s'.nbytes = 0 ∧ s'.total = s.total + s.nbytes
      ∧ s'.file = { s.file with offset := s.file.offset + s.nbytes }
      ∧ s'.mem = memcpyTo s.mem s.buf
        (fun i => Bytes.copy s.fat.buf 0 (disk.sectors s.ss) diskSectorSize
          ((s.file.offset % s.fat.cpb).toNat + i)) s.nbytes.toNat := by
  have hnot : ¬ (s.file.offset % s.fat.cpb = 0 ∧ s.nbytes = s.fat.cpb) := fun h => hfast h.2
  have hcr : ¬ s.file.offset % s.fat.cpb + s.nbytes > s.fat.cpb :=
    UInt32.not_lt.mpr (UInt32.le_of_lt hlt)
  simp only [ReadLoop.round, if_pos hpos, if_neg hcpb, if_neg hnot,
    ReadLoop.readAll_one hup hspc, if_neg hcr]
  exact ⟨_, ReadLoop.advance_within hlt, UInt32.sub_self _, rfl, rfl, rfl⟩

/-- In clusters of one sector `fat_fs_read` gives the right bytes when they
end before the cluster does. -/
theorem fatFsRead_within (hup : disk.up = true) (hbps : fat.bps = 512) (hspc : fat.spc = 1)
    (hbuf : buf ≠ 0) (hn : n ≠ 0) (hsize : file.offset.toNat + n.toNat ≤ file.size.toNat)
    (hin : file.offset.toNat % 512 + n.toNat < 512)
    (hchain : chain[file.offset.toNat / 512]? = some file.cblk) :
    ∃ s, fatFsRead fat disk file mem buf n 2 = some (.returned n s)
      ∧ (∀ i < n.toNat, s.mem (buf + i) = fileByte fat disk chain (file.offset.toNat + i))
      ∧ (∀ a, a < buf ∨ buf + n.toNat ≤ a → s.mem a = mem a)
      ∧ s.file = { file with offset := file.offset + n } := by
  have hcpb : fat.cpb = 512 := by
    rw [FsFat.cpb, hbps, hspc]
    rfl
  have hcpbn : fat.cpb.toNat = 512 := by
    rw [hcpb]
    rfl
  have hread : readSize file n = n := by
    have hlt := file.size.toNat_lt
    rw [readSize, if_neg]
    rw [gt_iff_lt, UInt32.lt_iff_toNat_lt, UInt32.toNat_add]
    omega
  have hco : (file.offset % fat.cpb).toNat = file.offset.toNat % 512 := by
    rw [UInt32.toNat_mod, hcpbn]
  have hlt : file.offset % fat.cpb + n < fat.cpb := by
    rw [UInt32.lt_iff_toNat_lt, UInt32.toNat_add, hco, hcpbn]
    omega
  have hfast : n ≠ fat.cpb := by
    rintro rfl
    omega
  have hcpb0 : fat.cpb ≠ 0 := by
    rw [hcpb]
    decide
  have hstart : readStart fat file mem buf n
      = { fat, file, mem, buf, nbytes := n, total := 0 } := by
    rw [readStart, hread]
  obtain ⟨s, hround, hdone, htotal, hfile, hmem⟩ := ReadLoop.round_within
    (s := { fat, file, mem, buf, nbytes := n, total := 0 }) hup hspc hcpb0
    (UInt32.pos_iff_ne_zero.mpr hn) hfast hlt
  rw [UInt32.zero_add] at htotal
  replace hmem : s.mem = memcpyTo mem buf
      (fun i => Bytes.copy fat.buf 0
        (disk.sectors (fat.dataStart + (file.cblk - 2) * fat.spc)) diskSectorSize
        ((file.offset % fat.cpb).toNat + i)) n.toNat := hmem
  refine ⟨s, ?_, fun i hi => ?_, fun a ha => ?_, hfile⟩
  · simp only [fatFsRead, hstart, loopFor, hround, ReadLoop.round_done hdone, htotal]
  · have hi512 : file.offset.toNat % 512 + i < 512 := by omega
    have hdiv : (file.offset.toNat + i) / 512 = file.offset.toNat / 512 := by omega
    have hmod : (file.offset.toNat + i) % 512 = file.offset.toNat % 512 + i := by omega
    have hsize : file.offset.toNat % 512 + i < 0 + diskSectorSize := by
      rw [diskSectorSize]
      omega
    rw [hmem, memcpyTo, if_neg hbuf, Bytes.copy_inside (by omega) (by omega), hco,
      Nat.add_sub_cancel_left, Bytes.copy_inside (Nat.zero_le _) hsize, Nat.sub_zero, fileByte,
      hcpbn, hdiv, hmod, List.getD_eq_getElem?_getD, hchain, diskSectorSize,
      Nat.div_eq_of_lt hi512, Nat.mod_eq_of_lt hi512]
    simp
  · rw [hmem, memcpyTo, if_neg hbuf, Bytes.copy_outside ha]

end Law

end Csos
