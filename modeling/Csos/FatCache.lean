import Csos.FatMap

/-!
# The sector in the cache

`buf` holds 512 bytes of the sector `pcs`, and behind them what the page held
before. While the device answers, a volume whose cache is right stays so in
`fs_bread`, in `fat_next_cluster` and in the search of a path, and what these
return does not depend on the state of the cache.
-/

namespace Csos

open Lib Lib.Bytes

namespace Volume

/-- What `buf` holds when the sector has been read into it. -/
def view (v : Volume) (s : UInt32) : Bytes := copy v.fat.buf 0 (v.disk s) diskSectorSize

/-- The volume with that sector in its cache. -/
def holding (v : Volume) (s : UInt32) : FsFat := { v.fat with buf := v.view s, pcs := s }

/-- The volume, with a cache that is right. -/
structure Cached (v : Volume) (fat : FsFat) : Prop where
  volume : SameVolume v.fat fat
  held : fat.pcs ≠ -1 → fat.buf = v.view fat.pcs
  behind : ∀ i, diskSectorSize ≤ i → fat.buf i = v.fat.buf i

/-- What `fat_next_cluster` returns. -/
def next (v : Volume) (cc : UInt16) : UInt16 :=
  if ¬ fatVerifyCluster cc then 0
  else if cc.toUInt32 = v.fat.rootStart then cc + 1
  else if v.fat.fatSectors.toNat ≤ cc.toNat * 2 / 512 then fatClusterInvalid.toUInt16
  else
    UInt16.ofNat
      (load16 (v.disk (v.fat.fatStart + UInt32.ofNat (cc.toNat * 2 / 512))) (cc.toNat * 2 % 512))

variable {v : Volume} {fat : FsFat} {s : UInt32}

theorem view_inside {i : Nat} (h : i < diskSectorSize) : v.view s i = v.disk s i :=
  copy_inside (Nat.zero_le i) (by omega)

theorem view_behind {i : Nat} (h : diskSectorSize ≤ i) : v.view s i = v.fat.buf i :=
  copy_outside (Or.inr (by omega))

theorem cached_holding (s : UInt32) : v.Cached (v.holding s) :=
  ⟨⟨v.view s, s, rfl⟩, fun _ => rfl, fun _ h => view_behind h⟩

/-- The sector is in the cache, or it is read into it. -/
theorem Cached.bread (h : v.Cached fat) (hs : s ≠ -1) :
    fsBread v.read fat s = (v.holding s, true) := by
  obtain ⟨⟨buf, pcs, rfl⟩, hheld, hbehind⟩ := h
  rw [fsBread]
  by_cases hhit : s = pcs
  · rw [if_pos hhit]
    have hbuf : buf = v.view s := hhit ▸ hheld (hhit ▸ hs)
    rw [holding, ← hbuf, hhit]
  · have hbuf : copy buf 0 (v.disk s) diskSectorSize = v.view s := by
      funext i
      by_cases hi : i < diskSectorSize
      · rw [view_inside hi]
        exact copy_inside (Nat.zero_le i) (by omega)
      · rw [view_behind (Nat.le_of_not_lt hi), copy_outside (Or.inr (by omega))]
        exact hbehind i (Nat.le_of_not_lt hi)
    rw [if_neg hhit]
    simp only [read, hbuf]
    rfl

/-- Where the FAT stands. -/
theorem fat_geometry (v : Volume) :
    v.fat.fatStart = v.br.reservedSectors.toUInt32
      ∧ v.fat.fatSectors = v.br.sectorsPerFat.toUInt32 := by
  have hm := v.mounted
  unfold fatFsMount at hm
  dsimp only at hm
  split at hm
  · cases hm
  · exact ⟨(congrArg FsFat.fatStart (Option.some.inj hm)).symm,
      (congrArg FsFat.fatSectors (Option.some.inj hm)).symm⟩

theorem fatSectors_ne (v : Volume) : v.fat.fatSectors ≠ 0 := by
  have hpos := UInt16.lt_iff_toNat_lt.mp v.fat_pos
  have hzero : (0 : UInt16).toNat = 0 := rfl
  intro h
  have hnat := congrArg UInt32.toNat h
  rw [v.fat_geometry.2, UInt16.toNat_toUInt32, UInt32.toNat_zero] at hnat
  omega

/-- A sector of the FAT. -/
theorem fatSector_ne (n : Nat) (hn : n < 2 ^ 16) : v.fat.fatStart + UInt32.ofNat n ≠ -1 := by
  intro h
  have hlt := v.br.reservedSectors.toNat_lt
  have ht := congrArg UInt32.toNat h
  have hminus : (-1 : UInt32).toNat = 2 ^ 32 - 1 := rfl
  rw [UInt32.toNat_add, v.fat_geometry.1, UInt16.toNat_toUInt32,
    UInt32.toNat_ofNat_of_lt' (Nat.lt_trans hn (by decide)), hminus] at ht
  omega

theorem Cached.next (h : v.Cached fat) (cc : UInt16) :
    ∃ fat', fatNextCluster v.read fat cc = (fat', v.next cc) ∧ v.Cached fat' := by
  have hsame := h.volume
  have hbps : fat.bps.toNat = 512 := by
    obtain ⟨buf, pcs, rfl⟩ := hsame
    rw [v.bps_eq]
    rfl
  have hroot : fat.rootStart = v.fat.rootStart := by
    obtain ⟨buf, pcs, rfl⟩ := hsame
    rfl
  have hstart : fat.fatStart = v.fat.fatStart := by
    obtain ⟨buf, pcs, rfl⟩ := hsame
    rfl
  have hsectors : fat.fatSectors = v.fat.fatSectors := by
    obtain ⟨buf, pcs, rfl⟩ := hsame
    rfl
  have hcc := cc.toNat_lt
  have hbread := h.bread (fatSector_ne (v := v) (cc.toNat * 2 / 512) (by omega))
  simp only [fatNextCluster, Volume.next, hbps, hroot, hstart, hsectors, ge_iff_le, hbread]
  split_ifs
  · exact ⟨fat, rfl, h⟩
  · exact ⟨fat, rfl, h⟩
  · have hodd : cc.toNat * 2 % 512 + 1 < 512 := by omega
    have hload : (v.holding (v.fat.fatStart + UInt32.ofNat (cc.toNat * 2 / 512))).buf.load16
          (cc.toNat * 2 % 512)
        = (v.disk (v.fat.fatStart + UInt32.ofNat (cc.toNat * 2 / 512))).load16
          (cc.toNat * 2 % 512) :=
      load16_congr (view_inside (Nat.lt_of_succ_lt hodd)) (view_inside hodd)
    rw [hload]
    exact ⟨_, rfl, cached_holding _⟩
  · exact ⟨fat, rfl, h⟩

/-! ## The search of a path -/

def CachedEnd (v : Volume) : PathEnd → Prop
  | .returned _ _ _ fat => v.Cached fat
  | .fault _ => True

def CachedRound (v : Volume) : Round Search PathEnd → Prop
  | .leave r => v.CachedEnd r
  | .again s => v.Cached s.fat

theorem cached_finish {s : Search} (h : v.Cached s.fat) : v.CachedEnd s.finish := by
  unfold Search.finish
  split
  · exact h
  · exact h

theorem cached_round (stack : PathStack) (path : Chars) {s : Search} (h : v.Cached s.fat) :
    v.CachedRound (s.round v.read stack path) := by
  unfold Search.round
  split
  · split
    · exact cached_finish h
    · split
      · trivial
      · split
        · exact h
        · generalize hscan : scanDirs _ _ _ = scan
          cases scan with
          | file i => exact h
          | dir i fdir => exact h
          | foundEnd => exact h
          | notFound =>
              obtain ⟨fat', hnext, hc⟩ := h.next s.sc.toUInt16
              simp only [Search.scanned, hnext]
              exact hc
  · exact cached_finish h

/-- The search leaves the cache right. -/
theorem cached_path {stack : PathStack} {path : Chars} {sector offset : Int} {rounds : Nat}
    {r : PathEnd} (h : v.Cached v.fat)
    (hr : readFatPathCluster v.read stack v.fat path sector offset rounds = some r) :
    v.CachedEnd r := by
  rw [readFatPathCluster] at hr
  split at hr
  · obtain rfl := Option.some.inj hr
    exact h
  · refine Ends.invariant (I := fun s : Search => v.Cached s.fat) (fun s s' hs hround => ?_)
      (fun s r hs hround => ?_) ⟨rounds, hr⟩ h
    · have := cached_round stack path hs
      rwa [hround] at this
    · have := cached_round stack path hs
      rwa [hround] at this

end Volume

end Csos
