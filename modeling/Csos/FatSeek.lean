import Csos.FatFile
import Csos.Lib.Run
import Mathlib.Data.Nat.Init
import Mathlib.Tactic.Ring

/-!
# The position of a file

After a call of `fat_fs_seek` that stays within the file, `offset` is the
position that was asked for, and `cblk` is the cluster of the chain that
holds it. `SEEK_SET` takes the clusters of a file to stand side by side.
`SEEK_CUR` only counts in `offset` what its loop has left over of the
distance; it is right when the loop is not entered and the cluster stays,
or when it has gone once round all of `uint32_t`.
-/

namespace Csos

open Lib

structure SeekCall where
  dir : SeekDir
  offset : UInt32

namespace SeekCall

/-- The position that a call asks for. -/
def position (file : FatFile) (call : SeekCall) : UInt32 :=
  match call.dir with
  | .seekSet => call.offset
  | .seekCur => file.offset + call.offset
  | .seekEnd => file.size
  | .other => file.offset

/-- One of the three calls, and within the file. -/
def Within (file : FatFile) (call : SeekCall) : Prop :=
  call.dir ≠ .other ∧ call.position file ≤ file.size

instance (file : FatFile) (call : SeekCall) : Decidable (call.Within file) :=
  inferInstanceAs (Decidable (call.dir ≠ .other ∧ call.position file ≤ file.size))

end SeekCall

def seekStep (fat : FsFat) (file : FatFile) (call : SeekCall) : Option FatFile :=
  (fatFsSeek fat file call.offset call.dir).map Prod.snd

/-- Inside the file, `cblk` is the cluster of the chain with `offset` in it. -/
def AtCluster (fat : FsFat) (chain : List UInt32) (file : FatFile) : Prop :=
  file.offset < file.size → chain[(file.offset / fat.cpb).toNat]? = some file.cblk

/-- What a call of `fat_fs_seek` comes to. -/
def SeekLaw (fat : FsFat) (chain : List UInt32) (file : FatFile) (call : SeekCall) : Prop :=
  ∃ file', seekStep fat file call = some file' ∧ file'.offset = call.position file
    ∧ AtCluster fat chain file'

/-- When it does. `SEEK_SET` needs the cluster of the new position to be as
far from the first one as the position is; `SEEK_CUR` without a round of
its loop needs the cluster to stay, and with rounds it needs them to take
the distance back to itself. -/
def SeekMeets (fat : FsFat) (chain : List UInt32) (file : FatFile) (call : SeekCall) : Prop :=
  fat.cpb ≠ 0 ∧
    match call.dir with
    | .seekSet =>
        call.offset < file.size →
          chain[(call.offset / fat.cpb).toNat]? = some (file.sblk + call.offset / fat.cpb)
    | .seekCur =>
        let position := file.offset + call.offset
        if file.offset % fat.cpb + call.offset ≤ fat.cpb then
          position < file.size → chain[(position / fat.cpb).toNat]? = some file.cblk
        else
          call.offset < fat.cpb ∧ fat.cpb.toNat ∣ 2 ^ 32 ∧
            (position < file.size → chain[(position / fat.cpb).toNat]?
              = some (file.cblk + UInt32.ofNat (2 ^ 32 / fat.cpb.toNat)))
    | _ => True

/-! ## The loop of `SEEK_CUR` -/

/-- From `off = 0` on the loop takes off as many clusters as it can before
the last byte of the distance. -/
theorem seekLoop_zero {cpb : UInt32} (hc : cpb ≠ 0) (n : Nat) (a cblk : UInt32)
    (hn : a.toNat < n) :
    loopFor (SeekLoop.round cpb) n { off := 0, offset := a, cblk }
      = some {
          off := 0
          offset := UInt32.ofNat (a.toNat - (a.toNat - 1) / cpb.toNat * cpb.toNat)
          cblk := cblk + UInt32.ofNat ((a.toNat - 1) / cpb.toNat) } := by
  have hcpos : 0 < cpb.toNat := by
    rw [Nat.pos_iff_ne_zero]
    intro h
    exact hc (UInt32.toNat_inj.mp h)
  induction n generalizing a cblk with
  | zero => exact absurd hn (Nat.not_lt_zero _)
  | succ n ih =>
      rw [loopFor, SeekLoop.round]
      by_cases hgt : (0 : UInt32) + a > cpb
      · have hlt : cpb.toNat < a.toNat := by
          rw [UInt32.zero_add] at hgt
          exact UInt32.lt_iff_toNat_lt.mp hgt
        have hle : cpb ≤ a := UInt32.le_iff_toNat_le.mpr (Nat.le_of_lt hlt)
        have hsub : (a - cpb).toNat = a.toNat - cpb.toNat := UInt32.toNat_sub_of_le a cpb hle
        simp only [if_pos hgt]
        rw [ih (a - cpb) (cblk + 1) (by omega), hsub]
        -- one cluster less
        have hdiv : (a.toNat - 1) / cpb.toNat = (a.toNat - cpb.toNat - 1) / cpb.toNat + 1 := by
          rw [← Nat.add_div_right _ hcpos]
          congr 1
          omega
        rw [hdiv, UInt32.ofNat_add, Nat.add_mul, Nat.one_mul, Nat.add_comm (_ * _), Nat.sub_add_eq,
          UInt32.add_assoc, UInt32.add_comm 1]
        rfl
      · have hle : a.toNat ≤ cpb.toNat := by
          rw [UInt32.zero_add] at hgt
          exact UInt32.le_iff_toNat_le.mp (UInt32.not_lt.mp hgt)
        have hdiv : (a.toNat - 1) / cpb.toNat = 0 := Nat.div_eq_of_lt (by omega)
        simp only [if_neg hgt]
        rw [hdiv, Nat.zero_mul, Nat.sub_zero, UInt32.ofNat_toNat]
        exact congrArg (fun c => some (SeekLoop.mk 0 a c)) (UInt32.add_zero cblk).symm

/-- The rounds that go once round all of `uint32_t`. -/
theorem rounds_eq {c a a' : Nat} (hc : 0 < c) (ha : 0 < a) (hac : a < c) (hdvd : c ∣ 2 ^ 32)
    (ha' : a' = a + 2 ^ 32 - c) : (a' - 1) / c = 2 ^ 32 / c - 1 := by
  obtain ⟨q, hq⟩ := hdvd
  have hqpos : 0 < q := by
    rw [Nat.pos_iff_ne_zero]
    rintro rfl
    omega
  have hsum : a' - 1 = (a - 1) + c * (q - 1) := by
    rw [ha', hq, Nat.mul_sub, Nat.mul_one]
    have : c ≤ c * q := Nat.le_mul_of_pos_right c hqpos
    omega
  rw [hsum, Nat.add_mul_div_left _ _ hc, Nat.div_eq_of_lt (by omega), hq,
    Nat.mul_div_cancel_left _ hc, Nat.zero_add]

/-- The distance that is left is the whole distance only where the rounds
add up to all of `uint32_t`. -/
theorem left_eq_iff {c a a' : Nat} (hc : 0 < c) (ha : 0 < a)
    (ha' : a' = if c ≤ a then a - c else a + 2 ^ 32 - c) (hc32 : c < 2 ^ 32) :
    a' - (a' - 1) / c * c = a ↔ a < c ∧ c ∣ 2 ^ 32 := by
  have hmul : (a' - 1) / c * c ≤ a' - 1 := Nat.div_mul_le_self _ _
  constructor
  · intro h
    by_cases hca : c ≤ a
    · rw [if_pos hca] at ha'
      omega
    · rw [if_neg hca] at ha'
      refine ⟨by omega, (a' - 1) / c + 1, ?_⟩
      rw [Nat.mul_comm, Nat.add_mul, Nat.one_mul]
      omega
  · rintro ⟨hac, hdvd⟩
    rw [if_neg (by omega)] at ha'
    rw [rounds_eq hc ha hac hdvd ha', Nat.sub_mul, Nat.div_mul_cancel hdvd]
    omega

/-- The step of `SEEK_CUR` with rounds of its loop. -/
theorem seekCur_again {fat : FsFat} {file : FatFile} {a : UInt32} (hc : fat.cpb ≠ 0)
    (h : ¬ file.offset % fat.cpb + a ≤ fat.cpb) :
    seekStep fat file ⟨.seekCur, a⟩
      = some { file with
          cblk := file.cblk + 1
            + UInt32.ofNat (((a - fat.cpb).toNat - 1) / fat.cpb.toNat)
          offset := file.offset
            + UInt32.ofNat ((a - fat.cpb).toNat
              - ((a - fat.cpb).toNat - 1) / fat.cpb.toNat * fat.cpb.toNat) } := by
  have hgt : file.offset % fat.cpb + a > fat.cpb := UInt32.not_le.mp h
  have hlt : (a - fat.cpb).toNat < 2 ^ 32 := UInt32.toNat_lt _
  simp only [seekStep, fatFsSeek, if_neg hc, seekRounds, loopFor, SeekLoop.round, if_pos hgt]
  rw [seekLoop_zero hc _ _ _ hlt]
  rfl

/-- The step of `SEEK_CUR` without. -/
theorem seekCur_leave {fat : FsFat} {file : FatFile} {a : UInt32} (hc : fat.cpb ≠ 0)
    (h : file.offset % fat.cpb + a ≤ fat.cpb) :
    seekStep fat file ⟨.seekCur, a⟩ = some { file with offset := file.offset + a } := by
  have hgt : ¬ file.offset % fat.cpb + a > fat.cpb := UInt32.not_lt.mpr h
  simp only [seekStep, fatFsSeek, if_neg hc, seekRounds, loopFor, SeekLoop.round, if_neg hgt]
  rfl

/-! ## The law of a call -/

section Law

variable {fat : FsFat} {chain : List UInt32} {file : FatFile}

theorem seekLaw_iff {call : SeekCall} {file' : FatFile}
    (h : seekStep fat file call = some file') :
    SeekLaw fat chain file call
      ↔ file'.offset = call.position file ∧ AtCluster fat chain file' := by
  constructor
  · rintro ⟨file₁, h₁, hlaw⟩
    obtain rfl := Option.some.inj (h.symm.trans h₁)
    exact hlaw
  · intro hlaw
    exact ⟨file', h, hlaw⟩

theorem seekSet_law {a : UInt32} (hc : fat.cpb ≠ 0) :
    SeekLaw fat chain file ⟨.seekSet, a⟩ ↔ SeekMeets fat chain file ⟨.seekSet, a⟩ := by
  have hstep : seekStep fat file ⟨.seekSet, a⟩
      = some { file with cblk := file.sblk + a / fat.cpb, offset := a } := by
    simp only [seekStep, fatFsSeek, if_neg hc]
    rfl
  rw [seekLaw_iff hstep]
  exact ⟨fun h => ⟨hc, h.2⟩, fun h => ⟨rfl, h.2⟩⟩

theorem seekEnd_law {a : UInt32} (hc : fat.cpb ≠ 0) :
    SeekLaw fat chain file ⟨.seekEnd, a⟩ ↔ SeekMeets fat chain file ⟨.seekEnd, a⟩ := by
  have hstep : seekStep fat file ⟨.seekEnd, a⟩
      = some { file with offset := file.size, cblk := file.sblk + file.size / fat.cpb } := by
    simp only [seekStep, fatFsSeek, if_neg hc]
    rfl
  rw [seekLaw_iff hstep]
  exact ⟨fun _ => ⟨hc, trivial⟩, fun _ => ⟨rfl, fun h => absurd h (UInt32.lt_irrefl _)⟩⟩

theorem seekCur_law {a : UInt32} (hc : fat.cpb ≠ 0) :
    SeekLaw fat chain file ⟨.seekCur, a⟩ ↔ SeekMeets fat chain file ⟨.seekCur, a⟩ := by
  have hcpos : 0 < fat.cpb.toNat := by
    rw [Nat.pos_iff_ne_zero]
    intro h
    exact hc (UInt32.toNat_inj.mp h)
  by_cases h : file.offset % fat.cpb + a ≤ fat.cpb
  · rw [seekLaw_iff (seekCur_leave hc h)]
    simp only [SeekMeets, if_pos h]
    exact ⟨fun hlaw => ⟨hc, hlaw.2⟩, fun hm => ⟨rfl, hm.2⟩⟩
  · rw [seekLaw_iff (seekCur_again hc h)]
    simp only [SeekMeets, if_neg h]
    have ha : 0 < a.toNat := by
      rw [Nat.pos_iff_ne_zero]
      intro hz
      obtain rfl : a = 0 := UInt32.toNat_inj.mp hz
      rw [UInt32.add_zero] at h
      exact h (UInt32.le_of_lt (UInt32.mod_lt _ (UInt32.pos_iff_ne_zero.mpr hc)))
    have ha' : (a - fat.cpb).toNat
        = if fat.cpb.toNat ≤ a.toNat then a.toNat - fat.cpb.toNat
          else a.toNat + 2 ^ 32 - fat.cpb.toNat := by
      have halt := a.toNat_lt
      have hclt := fat.cpb.toNat_lt
      rw [UInt32.toNat_sub]
      split
      · omega
      · omega
    have hiff := left_eq_iff hcpos ha ha' fat.cpb.toNat_lt
    have hoffset : file.offset + UInt32.ofNat ((a - fat.cpb).toNat
          - ((a - fat.cpb).toNat - 1) / fat.cpb.toNat * fat.cpb.toNat) = file.offset + a
        ↔ a < fat.cpb ∧ fat.cpb.toNat ∣ 2 ^ 32 := by
      have hlt := (a - fat.cpb).toNat_lt
      rw [UInt32.add_right_inj, ← UInt32.toNat_inj,
        UInt32.toNat_ofNat_of_lt' (Nat.lt_of_le_of_lt (Nat.sub_le _ _) hlt), hiff,
        UInt32.lt_iff_toNat_lt]
    have hcblk : a < fat.cpb → fat.cpb.toNat ∣ 2 ^ 32 →
        file.cblk + 1 + UInt32.ofNat (((a - fat.cpb).toNat - 1) / fat.cpb.toNat)
          = file.cblk + UInt32.ofNat (2 ^ 32 / fat.cpb.toNat) := by
      intro hlt hdvd
      have hac := UInt32.lt_iff_toNat_lt.mp hlt
      rw [if_neg (by omega)] at ha'
      have hq : 0 < 2 ^ 32 / fat.cpb.toNat := Nat.div_pos (Nat.le_of_dvd (by omega) hdvd) hcpos
      rw [rounds_eq hcpos ha hac hdvd ha', UInt32.add_assoc]
      congr 1
      rw [UInt32.add_comm]
      exact (UInt32.ofNat_add _ 1).symm.trans (congrArg UInt32.ofNat (Nat.sub_add_cancel hq))
    constructor
    · rintro ⟨hpos, hat⟩
      obtain ⟨hlt, hdvd⟩ := hoffset.mp hpos
      refine ⟨hc, hlt, hdvd, ?_⟩
      rw [AtCluster, hcblk hlt hdvd, hpos] at hat
      exact hat
    · rintro ⟨-, hlt, hdvd, hat⟩
      have hpos := hoffset.mpr ⟨hlt, hdvd⟩
      refine ⟨hpos, ?_⟩
      rw [AtCluster, hcblk hlt hdvd, hpos]
      exact hat

/-- Without bytes in a cluster every call divides by zero. -/
theorem seekLaw_cpb {call : SeekCall} (hcall : call.dir ≠ .other)
    (h : SeekLaw fat chain file call) : fat.cpb ≠ 0 := by
  intro hc
  obtain ⟨file', hstep, -⟩ := h
  obtain ⟨dir, a⟩ := call
  cases dir with
  | other => exact hcall rfl
  | seekSet | seekCur | seekEnd =>
      simp only [seekStep, fatFsSeek, if_pos hc] at hstep
      cases hstep

theorem seekLaw_iff_meets {call : SeekCall} (hcall : call.dir ≠ .other) :
    SeekLaw fat chain file call ↔ SeekMeets fat chain file call := by
  by_cases hc : fat.cpb = 0
  · exact ⟨fun h => absurd hc (seekLaw_cpb hcall h), fun h => absurd hc h.1⟩
  obtain ⟨dir, a⟩ := call
  cases dir with
  | seekSet => exact seekSet_law hc
  | seekCur => exact seekCur_law hc
  | seekEnd => exact seekEnd_law hc
  | other => exact absurd rfl hcall

end Law

/-- In a run of calls that stay within the file, every call keeps the law
exactly when every call meets the condition. -/
theorem fatFsSeek_law (fat : FsFat) (chain : List UInt32) (file : FatFile) (calls : List SeekCall)
    (hin : Always (seekStep fat) SeekCall.Within file calls) :
    Always (seekStep fat) (SeekLaw fat chain) file calls
      ↔ Always (seekStep fat) (SeekMeets fat chain) file calls :=
  always_congr_of_invariant (I := fun _ => True) (fun _ _ _ _ _ _ _ => trivial)
    (fun _ _ _ hw => seekLaw_iff_meets hw.1) trivial hin

/-- Two clusters that stand side by side: into the second one, on within
it, and to the end. -/
theorem fatFsSeek_law_side_by_side :
    Always (seekStep smallFat) (SeekLaw smallFat [2, 3]) smallFile
      [⟨.seekSet, 600⟩, ⟨.seekCur, 50⟩, ⟨.seekEnd, 0⟩] := by
  refine (fatFsSeek_law smallFat [2, 3] smallFile _ ?_).mpr ?_
  · refine always_cons_get (by decide) rfl ?_
    refine always_cons_get (by decide) rfl ?_
    exact always_cons_get (by decide) rfl trivial
  · refine always_cons_get ⟨by decide, fun _ => rfl⟩ rfl ?_
    refine always_cons_get ⟨by decide, fun _ => rfl⟩ rfl ?_
    exact always_cons_get ⟨by decide, trivial⟩ rfl trivial

/-- One cluster on from the start: `cblk` is still the first cluster. -/
theorem fatFsSeek_next_cluster :
    ¬ (Always (seekStep smallFat) SeekCall.Within smallFile [⟨.seekCur, 512⟩] →
        Always (seekStep smallFat) (SeekLaw smallFat [2, 3]) smallFile [⟨.seekCur, 512⟩]) := by
  intro h
  obtain ⟨⟨file', hstep, -, hat⟩, -⟩ := h ⟨by decide, fun _ _ => trivial⟩
  obtain rfl := Option.some.inj hstep
  have hcblk := hat (by decide)
  revert hcblk
  decide

end Csos
