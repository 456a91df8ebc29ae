import Csos.FatFile

/-!
# The loop of a write

`fat_fs_write` on sectors of 512 bytes. The three branches of the loop
leave out one case: a whole sector is left, and the position is at the
start of one. No branch is taken then, so the loop goes round for good. It
comes to that exactly when at least a sector is written and the write ends
at the end of one.
-/

namespace Csos

open Lib

namespace WriteCall

variable {call : WriteCall} {s s' : WriteLoop}

/-- The call comes back from the state `s` of its loop. -/
def Returns (call : WriteCall) (s : WriteLoop) : Prop :=
  ∃ ret fat s', Ends call.round s (.returned ret fat s')

/-- The next round takes a cluster. -/
def Takes (call : WriteCall) (s : WriteLoop) : Prop :=
  s.nbytes > 0 ∧ s.file.offset % call.fat.bps = 0 ∧ s.nbytes.toUInt32 ≠ call.fat.bps

/-- The disk and the FAT always succeed: the device is up, and every round
that takes a cluster gets one. -/
def Served (call : WriteCall) (s : WriteLoop) : Prop :=
  s.disk.up = true ∧ ∀ t, Passes call.round s t → call.Takes t →
    ∃ c disk, fatAllocCluster call.fat true t.disk = .returned c disk
      ∧ c.toInt32 < fatClusterInvalid.toInt32

/-- The bytes that are left. -/
def left (s : WriteLoop) : Nat := s.nbytes.toNatClampNeg

/-! ## One round -/

theorem pos_iff_left : s.nbytes > 0 ↔ 0 < left s := (Int32.toNatClampNeg_pos_iff _).symm

theorem finish_returned (call : WriteCall) (s : WriteLoop) :
    ∃ ret fat s', call.finish s = .returned ret fat s' := by
  rw [finish]
  split
  · exact ⟨_, _, _, rfl⟩
  · dsimp only
    split
    · exact ⟨_, _, _, rfl⟩
    · exact ⟨_, _, _, rfl⟩

/-- With nothing left the loop is over. -/
theorem returns_of_left_zero (h : left s = 0) : call.Returns s := by
  obtain ⟨ret, fat, s', hfin⟩ := call.finish_returned s
  have hnot : ¬ s.nbytes > 0 := by
    rw [pos_iff_left]
    omega
  refine ⟨ret, fat, s', Ends.of_leave ?_⟩
  rw [round]
  simp only [if_neg hnot]
  rw [hfin]

theorem returns_again_iff (h : call.round s = .again s') : call.Returns s ↔ call.Returns s' := by
  constructor
  · rintro ⟨ret, fat, t, ht⟩
    exact ⟨ret, fat, t, (ends_again_iff h).mp ht⟩
  · rintro ⟨ret, fat, t, ht⟩
    exact ⟨ret, fat, t, (ends_again_iff h).mpr ht⟩

theorem Served.next (h : call.Served s) (hs : call.round s = .again s')
    (hup : s'.disk.up = true) : call.Served s' :=
  ⟨hup, fun t ht => h.2 t (.head hs ht)⟩

end WriteCall

/-- Taking a cluster leaves the device up. -/
theorem fatAllocClusterLoop_up {fat : FsFat} {append : Bool} {disk disk' : Disk} {c : UInt32}
    {n index offset : Nat} (hup : disk.up = true)
    (h : fatAllocClusterLoop fat append disk n index offset = .returned c disk') :
    disk'.up = true := by
  induction n generalizing index offset with
  | zero =>
      obtain ⟨-, rfl⟩ := FatEnd.returned.inj h
      exact hup
  | succ n ih =>
      simp only [fatAllocClusterLoop, Disk.read_of_up hup, Disk.write_of_up hup] at h
      split at h
      · cases h
      · split at h
        · split at h
          · cases h
          · obtain ⟨-, rfl⟩ := FatEnd.returned.inj h
            exact hup
        · exact ih h

namespace WriteCall

variable {call : WriteCall} {s s' : WriteLoop}

/-- The position is at the start of a sector. -/
def Aligned (s : WriteLoop) : Prop := s.file.offset.toNat % 512 = 0

theorem mod_bps (hb : call.fat.bps = 512) (o : UInt32) :
    (o % call.fat.bps).toNat = o.toNat % 512 := by
  rw [hb, UInt32.toNat_mod]
  rfl

theorem aligned_iff (hb : call.fat.bps = 512) : Aligned s ↔ s.file.offset % call.fat.bps = 0 := by
  rw [Aligned, ← mod_bps hb, ← UInt32.toNat_inj]
  rfl

theorem nbytes_toNat (h : 0 < left s) : s.nbytes.toUInt32.toNat = left s :=
  Int32.toNat_toUInt32_of_le (Int32.le_of_lt (pos_iff_left.mpr h))

/-- A whole sector at the start of one: no branch is taken. -/
theorem round_stuck (hb : call.fat.bps = 512) (ha : Aligned s) (h : left s = 512) :
    call.round s = .again s := by
  have hn : s.nbytes.toUInt32 = call.fat.bps := by
    rw [hb, ← UInt32.toNat_inj, nbytes_toNat (by omega), h]
    rfl
  have hzero := (aligned_iff hb).mp ha
  have hbps : call.fat.bps ≠ 0 := by
    rw [hb]
    decide
  have hpos : s.nbytes > 0 := pos_iff_left.mpr (by omega)
  rw [round]
  simp only [if_pos hpos, if_neg hbps, hzero, hn, UInt32.lt_irrefl, gt_iff_lt, false_and, if_false]

/-- A cluster is taken for `k` bytes. -/
theorem writeSector_again {k : Int32} (hserved : call.Served s) (ht : call.Takes s) (hk : 0 ≤ k)
    (hle : k ≤ s.nbytes) :
    ∃ s', call.writeSector s k.toUInt32 = .again s' ∧ s'.disk.up = true
      ∧ left s' = left s - k.toNatClampNeg ∧ s'.file.offset = s.file.offset + k.toUInt32 := by
  obtain ⟨c, disk, halloc, hc⟩ := hserved.2 s (.refl s) ht
  have hup : disk.up = true := fatAllocClusterLoop_up hserved.1 halloc
  have hcc : ¬ c.toInt32 ≥ fatClusterInvalid.toInt32 := Int32.not_le.mpr hc
  simp only [writeSector, halloc, if_neg hcc, Disk.write_of_up hup]
  refine ⟨_, rfl, hup, ?_, rfl⟩
  exact Int32.toNatClampNeg_sub_of_le hk hle

/-- A round at the start of a sector takes a whole one, or all that is
left. -/
theorem round_sector (hb : call.fat.bps = 512) (hserved : call.Served s) (ha : Aligned s)
    (h0 : 0 < left s) (h512 : left s ≠ 512) :
    ∃ s', call.round s = .again s' ∧ s'.disk.up = true
      ∧ (512 < left s ∧ left s' = left s - 512 ∧ Aligned s' ∨ left s < 512 ∧ left s' = 0) := by
  have hpos : s.nbytes > 0 := pos_iff_left.mpr h0
  have hzero := (aligned_iff hb).mp ha
  have hbps : call.fat.bps ≠ 0 := by
    rw [hb]
    decide
  have hbn : call.fat.bps.toNat = 512 := by
    rw [hb]
    rfl
  have hne : s.nbytes.toUInt32 ≠ call.fat.bps := by
    intro heq
    have hto := nbytes_toNat h0
    rw [heq, hbn] at hto
    exact h512 hto.symm
  have htakes : call.Takes s := ⟨hpos, hzero, hne⟩
  rw [round]
  simp only [if_pos hpos, if_neg hbps, hzero, gt_iff_lt, UInt32.lt_irrefl, if_false, and_true]
  by_cases hlt : 512 < left s
  · have hgt : call.fat.bps < s.nbytes.toUInt32 := by
      rw [UInt32.lt_iff_toNat_lt, nbytes_toNat h0, hbn]
      exact hlt
    have hk : call.fat.bps = (512 : Int32).toUInt32 := hb
    have hle : (512 : Int32) ≤ s.nbytes := by
      rw [left, ← Int32.toNat_toInt] at hlt
      rw [Int32.le_iff_toInt_le]
      have h512 : (512 : Int32).toInt = 512 := rfl
      omega
    rw [if_pos hgt, hk]
    obtain ⟨s', hs', hup, hleft, hoff⟩ := writeSector_again hserved htakes (by decide) hle
    refine ⟨s', hs', hup, .inl ⟨hlt, hleft, ?_⟩⟩
    rw [Aligned, hoff, UInt32.toNat_add]
    rw [Aligned] at ha
    have h512 : (512 : Int32).toUInt32.toNat = 512 := rfl
    omega
  · have hgt : ¬ call.fat.bps < s.nbytes.toUInt32 := by
      rw [UInt32.lt_iff_toNat_lt, nbytes_toNat h0, hbn]
      exact hlt
    have hsmall : s.nbytes.toUInt32 < call.fat.bps := by
      rw [UInt32.lt_iff_toNat_lt, nbytes_toNat h0, hbn]
      omega
    rw [if_neg hgt, if_pos hsmall]
    obtain ⟨s', hs', hup, hleft, -⟩ :=
      writeSector_again hserved htakes (Int32.le_of_lt hpos) (Int32.le_refl _)
    refine ⟨s', hs', hup, .inr ⟨by omega, ?_⟩⟩
    rw [hleft, left]
    exact Nat.sub_self _

/-- The round that begins within a sector writes up to its end, or all. -/
theorem round_rest (hb : call.fat.bps = 512) (hup : s.disk.up = true) (ha : ¬ Aligned s)
    (h0 : 0 < left s) (hsize : s.nbytes = call.size) :
    ∃ s', call.round s = .again s' ∧ s'.disk.up = true
      ∧ (left s < 512 - s.file.offset.toNat % 512 ∧ left s' = 0
        ∨ 512 - s.file.offset.toNat % 512 ≤ left s
          ∧ left s' = left s - (512 - s.file.offset.toNat % 512) ∧ Aligned s') := by
  have hpos : s.nbytes > 0 := pos_iff_left.mpr h0
  have hbps : call.fat.bps ≠ 0 := by
    rw [hb]
    decide
  have hrest : s.file.offset % call.fat.bps > 0 := by
    rw [gt_iff_lt, UInt32.pos_iff_ne_zero]
    exact fun hz => ha ((aligned_iff hb).mpr hz)
  have hlt : s.file.offset.toNat % 512 < 512 := Nat.mod_lt _ (by omega)
  have hfbytes : (call.fat.bps - s.file.offset % call.fat.bps).toInt32
      = Int32.ofNat (512 - s.file.offset.toNat % 512) := by
    have hnat : call.fat.bps - s.file.offset % call.fat.bps
        = UInt32.ofNat (512 - s.file.offset.toNat % 512) := by
      have h32 : 512 - s.file.offset.toNat % 512 < 2 ^ 32 := by omega
      have hbn : call.fat.bps.toNat = 512 := by
        rw [hb]
        rfl
      have hle : s.file.offset % call.fat.bps ≤ call.fat.bps := by
        rw [UInt32.le_iff_toNat_le, mod_bps hb, hbn]
        omega
      rw [← UInt32.toNat_inj, UInt32.toNat_sub_of_le _ _ hle, mod_bps hb, hbn,
        UInt32.toNat_ofNat_of_lt' h32]
    rw [hnat]
    rfl
  have hclamp : (Int32.ofNat (512 - s.file.offset.toNat % 512)).toNatClampNeg
      = 512 - s.file.offset.toNat % 512 := Int32.toNatClampNeg_ofNat_of_lt (by omega)
  have hless : s.nbytes < Int32.ofNat (512 - s.file.offset.toNat % 512)
      ↔ left s < 512 - s.file.offset.toNat % 512 := by
    rw [Int32.lt_iff_toInt_lt, Int32.toInt_ofNat_of_lt (by omega),
      ← Int32.cast_toNatClampNeg _ (Int32.le_of_lt hpos), Int.ofNat_lt, left]
  have hround : call.round s = call.writeRest s := by
    rw [round]
    simp only [if_pos hpos, if_neg hbps, if_pos hrest]
  rw [hround, writeRest, hfbytes, Disk.read_of_up hup]
  simp only [Disk.write_of_up hup, mod_bps hb, ← hsize]
  by_cases hc : left s < 512 - s.file.offset.toNat % 512
  · have hfit : ¬ s.file.offset.toNat % 512 + s.nbytes.toUInt32.toNat > diskSectorSize := by
      rw [nbytes_toNat h0, diskSectorSize]
      omega
    simp only [if_pos (hless.mpr hc), if_neg hfit]
    refine ⟨_, rfl, hup, .inl ⟨hc, ?_⟩⟩
    exact (Int32.toNatClampNeg_sub_of_le (Int32.le_of_lt hpos) (Int32.le_refl _)).trans
      (Nat.sub_self _)
  · have hfpos : 0 ≤ Int32.ofNat (512 - s.file.offset.toNat % 512) :=
      Int32.zero_le_ofNat_of_lt (by omega)
    have hnat : (Int32.ofNat (512 - s.file.offset.toNat % 512)).toUInt32.toNat
        = 512 - s.file.offset.toNat % 512 :=
      (Int32.toNat_toUInt32_of_le hfpos).trans hclamp
    have hfit : ¬ s.file.offset.toNat % 512
        + (Int32.ofNat (512 - s.file.offset.toNat % 512)).toUInt32.toNat > diskSectorSize := by
      rw [hnat, diskSectorSize]
      omega
    simp only [if_neg (fun h => hc (hless.mp h)), if_neg hfit]
    refine ⟨_, rfl, hup, .inr ⟨by omega, ?_, ?_⟩⟩
    · have hle := Int32.not_lt.mp fun h => hc (hless.mp h)
      exact (Int32.toNatClampNeg_sub_of_le hfpos hle).trans (congrArg (left s - ·) hclamp)
    · rw [Aligned, UInt32.toNat_add, hnat]
      omega

/-! ## The whole loop -/

/-- From the start of a sector the loop is over after a while, unless whole
sectors are left. -/
theorem returns_aligned_iff (hb : call.fat.bps = 512) (n : Nat) (hn : left s = n)
    (hserved : call.Served s) (ha : Aligned s) : call.Returns s ↔ ¬ (0 < n ∧ 512 ∣ n) := by
  induction n using Nat.strong_induction_on generalizing s with
  | _ n ih =>
      by_cases h0 : n = 0
      · refine ⟨fun _ h => by omega, fun _ => returns_of_left_zero (hn.trans h0)⟩
      by_cases h512 : n = 512
      · refine ⟨fun h => ?_, fun h => (h (by omega)).elim⟩
        obtain ⟨ret, fat, t, ht⟩ := h
        exact absurd ht (not_ends_of_again_self (round_stuck hb ha (hn.trans h512)))
      obtain ⟨s', hs', hup, hcases⟩ := round_sector hb hserved ha (by omega) (by omega)
      rw [returns_again_iff hs']
      rcases hcases with ⟨hgt, hleft, ha'⟩ | ⟨hlt, hleft⟩
      · rw [ih (n - 512) (by omega) (by rw [hleft, hn]) (hserved.next hs' hup) ha']
        omega
      · refine ⟨fun _ h => by omega, fun _ => returns_of_left_zero hleft⟩

end WriteCall

/-- `fat_fs_write` comes back. -/
def WriteEnds (call : WriteCall) (disk : Disk) (file : FatFile) : Prop :=
  ∃ n ret fat s, fatFsWrite call disk file n = some (.returned ret fat s)

/-- The loop of a write ends exactly when less than a sector is written, or
the write does not end at the end of a sector. -/
theorem fatFsWrite_law (call : WriteCall) (disk : Disk) (file : FatFile)
    (hb : call.fat.bps = 512) (hmode : file.mode &&& fmWrite ≠ 0) (hsize : 0 ≤ call.size)
    (hserved : call.Served (call.start disk file)) :
    WriteEnds call disk file
      ↔ ¬ (512 ≤ call.size.toInt ∧ 512 ∣ file.offset.toNat + call.size.toNatClampNeg) := by
  have hends : WriteEnds call disk file ↔ call.Returns (call.start disk file) := by
    simp only [WriteEnds, fatFsWrite, if_neg hmode]
    constructor
    · rintro ⟨n, ret, fat, s, h⟩
      exact ⟨ret, fat, s, n, h⟩
    · rintro ⟨ret, fat, s, n, h⟩
      exact ⟨n, ret, fat, s, h⟩
  have hint : call.size.toInt = call.size.toNatClampNeg := (Int32.cast_toNatClampNeg _ hsize).symm
  have hleft : WriteCall.left (call.start disk file) = call.size.toNatClampNeg := rfl
  have hoff : (call.start disk file).file.offset = file.offset := rfl
  rw [hends, hint]
  by_cases h0 : call.size.toNatClampNeg = 0
  · refine ⟨fun _ h => by omega, fun _ => WriteCall.returns_of_left_zero (hleft.trans h0)⟩
  by_cases ha : WriteCall.Aligned (call.start disk file)
  · rw [WriteCall.returns_aligned_iff hb _ hleft hserved ha]
    rw [WriteCall.Aligned, hoff] at ha
    omega
  · obtain ⟨s', hs', hup, hcases⟩ :=
      WriteCall.round_rest (s := call.start disk file) hb hserved.1 ha (by omega) rfl
    rw [WriteCall.returns_again_iff hs']
    rw [hleft, hoff] at hcases
    rw [WriteCall.Aligned, hoff] at ha
    rcases hcases with ⟨hlt, hleft'⟩ | ⟨hge, hleft', ha'⟩
    · refine ⟨fun _ h => by omega, fun _ => WriteCall.returns_of_left_zero hleft'⟩
    · rw [WriteCall.returns_aligned_iff hb _ hleft' (hserved.next hs' hup) ha']
      omega

/-- A write of `size` bytes to the small volume. -/
def smallWrite (size : Int32) : WriteCall where
  fat := smallFat
  mem := fun _ => 0
  buf := 0x1000
  size := size
  clock := { century := 20, year := 24, mon := 1, mday := 1, hour := 0, min := 0, sec := 0 }

/-- A hundred bytes, at the start of the file, with the cluster 2 free. -/
theorem fatFsWrite_law_hundred :
    WriteEnds (smallWrite 100) (diskOf fun c => if c < 2 then 0xFFFF else 0) smallFile := by
  refine (fatFsWrite_law (smallWrite 100) _ smallFile rfl (by decide) (by decide)
    ⟨rfl, fun t ht htakes => ?_⟩).mpr (by decide)
  -- a second round has nothing left
  have hpassed : t = (smallWrite 100).start (diskOf fun c => if c < 2 then 0xFFFF else 0) smallFile
      ∨ WriteCall.left t = 0 := by
    refine ht.invariant (I := fun t => t = _ ∨ WriteCall.left t = 0)
      (fun s s' hs hround => .inr ?_) (.inl rfl)
    rcases hs with rfl | hzero
    · cases hround
      rfl
    · have hnot : ¬ s.nbytes > 0 := by
        rw [WriteCall.pos_iff_left]
        omega
      rw [WriteCall.round] at hround
      simp only [if_neg hnot] at hround
      cases hround
  rcases hpassed with rfl | hzero
  · exact ⟨_, _, rfl, by decide⟩
  · have hpos := WriteCall.pos_iff_left.mp htakes.1
    omega

/-- One whole sector at the start of the file: the loop does not end. -/
theorem fatFsWrite_sector :
    ¬ ((smallWrite 512).Served ((smallWrite 512).start (diskOf fun _ => 0) smallFile) →
        WriteEnds (smallWrite 512) (diskOf fun _ => 0) smallFile) := by
  have hstuck : (smallWrite 512).round ((smallWrite 512).start (diskOf fun _ => 0) smallFile)
      = .again ((smallWrite 512).start (diskOf fun _ => 0) smallFile) :=
    WriteCall.round_stuck rfl rfl rfl
  intro h
  obtain ⟨n, ret, fat, s, hret⟩ := h ⟨rfl, fun t ht htakes => by
    have hsame : t = (smallWrite 512).start (diskOf fun _ => 0) smallFile := by
      refine ht.invariant (I := fun t => t = _) (fun s s' hs hround => ?_) rfl
      subst hs
      rw [hstuck] at hround
      exact (Round.again.inj hround).symm
    subst hsame
    exact absurd rfl htakes.2.2⟩
  exact not_ends_of_again_self hstuck ⟨n, hret⟩

end Csos
