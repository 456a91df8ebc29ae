import Csos.FatCache
import Csos.FatNames
import Mathlib.Data.List.Chain

/-!
# Listing a directory (`fat_fs_opendir`, `fat_fs_readdir`)

`fat_fs_readdir` scans the sector in `buf` for the next entry. It looks for the
end of the sector before the scan only: behind entries that it skips at the
end of a sector it goes on in `buf`, over whatever stands behind the sector.
From the end of a sector it asks `fat_next_cluster` for the next one, with the
number of the sector.
-/

namespace Csos

open Lib Lib.Bytes

/-! ## The code -/

/-- `struct dirent`, as `fat_fs_readdir` fills it. -/
structure Dirent where
  ino : Int32
  reclen : Nat
  type : FatType
  name : Chars
deriving DecidableEq

/-- What `fat_fs_readdir` leaves: -1 has no entry. -/
structure ReaddirEnd where
  fat : FsFat
  dir : DirHandle
  dirent : Option Dirent

/-- The loop of `fat_fs_readdir`, with `left` entries up to `root_total`. -/
def readdirLoop (read : UInt32 → Option Bytes) (sector : Int) :
    Nat → FsFat → Int → FsFat × Int × Option FatDir
  | 0, fat, offset => (fat, offset + 1, none)
  | left + 1, fat, offset =>
      match readFatDir read fat sector offset with
      | (fat, none) => (fat, offset + 1, none)
      | (fat, some fdir) =>
          if nameFirst fdir.name = fdnEnd then (fat, offset + 1, none)
          else if nameFirst fdir.name = fdnFree then readdirLoop read sector left fat (offset + 1)
          else if readFatFtype fdir ≠ .dir ∧ readFatFtype fdir ≠ .file then
            readdirLoop read sector left fat (offset + 1)
          else (fat, offset + 1, some fdir)

/-- `fat_fs_readdir`. -/
def fatFsReaddir (read : UInt32 → Option Bytes) (fat : FsFat) (dir : DirHandle) : ReaddirEnd :=
  let dcount := (fat.bps / 32).toInt32
  let (fat, dir) :=
    if dir.offset ≥ dcount then
      let (fat, nc) := fatNextCluster read fat dir.sector.toUInt32.toUInt16
      (fat, { sector := nc.toUInt32.toInt32, offset := 0 })
    else (fat, dir)
  if dir.sector ≥ fatClusterInvalid.toInt32 then { fat, dir, dirent := none }
  else
    match readdirLoop read dir.sector.toInt (fat.rootTotal.toNat - dir.offset.toInt).toNat fat
        dir.offset.toInt with
    | (fat, offset, none) =>
        { fat, dir := { dir with offset := Int32.ofInt offset }, dirent := none }
    | (fat, offset, some fdir) =>
        { fat
          dir := { dir with offset := Int32.ofInt offset }
          dirent := some {
            ino := Int32.ofInt offset
            reclen := load32 fat.buf (32 * (offset - 1).toNat + 28)
            type := readFatFtype fdir
            name := readFatFname fdir.name } }

/-- An entry that a caller gets, and the sector and the index in it that
`fat_fs_readdir` has read it from: one before the offset that it leaves. -/
structure Listed where
  sector : UInt32
  index : Int
  dirent : Dirent
deriving DecidableEq

/-- A caller that lists a directory. -/
structure ListLoop where
  fat : FsFat
  dir : DirHandle
  listed : List Listed

/-- One call of `fat_fs_readdir`, until it returns -1. -/
def ListLoop.round (read : UInt32 → Option Bytes) (s : ListLoop) : Round ListLoop (List Listed) :=
  let r := fatFsReaddir read s.fat s.dir
  match r.dirent with
  | none => .leave s.listed
  | some dirent =>
      .again {
        fat := r.fat
        dir := r.dir
        listed := s.listed ++ [⟨r.dir.sector.toUInt32, r.dir.offset.toInt - 1, dirent⟩] }

/-- The entry is a file or a directory that is not hidden. -/
def DirEntry.isVisible (e : DirEntry) : Bool :=
  nameFirst e.fdir.name ≠ fdnFree ∧ treeType e.fdir ≠ .unknown

/-! ## The walk of the code

The position is a sector and the next entry of it. What the cache holds plays
no part.
-/

/-- The entry that the scan of `buf` stops at. -/
def scanView (m : Bytes) : Nat → Nat → Option Nat
  | 0, _ => none
  | left + 1, o =>
      let fdir := dirAt m (32 * o)
      if nameFirst fdir.name = fdnEnd then none
      else if nameFirst fdir.name = fdnFree then scanView m left (o + 1)
      else if readFatFtype fdir ≠ .dir ∧ readFatFtype fdir ≠ .file then scanView m left (o + 1)
      else some o

theorem scanView_bounds {m : Bytes} {left o j : Nat} (h : scanView m left o = some j) :
    o ≤ j ∧ j < o + left := by
  induction left generalizing o with
  | zero => cases h
  | succ left ih =>
      simp only [scanView] at h
      split_ifs at h
      · obtain ⟨hle, hlt⟩ := ih h
        omega
      · obtain ⟨hle, hlt⟩ := ih h
        omega
      · obtain rfl := Option.some.inj h
        omega

namespace Volume

/-- Where the next call of `fat_fs_readdir` looks. -/
def turn (v : Volume) (p : UInt32 × Nat) : UInt32 × Nat :=
  if 16 ≤ p.2 then ((v.next p.1.toUInt16).toUInt32, 0) else p

/-- `fat_fs_readdir` takes the sector for the end of a chain. -/
def isPast (x : UInt32) : Prop := x.toInt32 ≥ fatClusterInvalid.toInt32

instance : DecidablePred isPast := fun x =>
  inferInstanceAs (Decidable (x.toInt32 ≥ fatClusterInvalid.toInt32))

/-- The entry that the next call of `fat_fs_readdir` returns. -/
def after (v : Volume) (p : UInt32 × Nat) : Option (UInt32 × Nat) :=
  let q := v.turn p
  if isPast q.1 then none
  else (scanView (v.view q.1) (v.fat.rootTotal.toNat - q.2) q.2).map fun j => (q.1, j)

/-- The calls from a position on return these entries and then -1. -/
inductive Walks (v : Volume) : UInt32 × Nat → List (UInt32 × Nat) → Prop
  | done {p : UInt32 × Nat} (h : v.after p = none) : Walks v p []
  | step {p q : UInt32 × Nat} {qs : List (UInt32 × Nat)} (h : v.after p = some q)
      (hrest : Walks v (q.1, q.2 + 1) qs) : Walks v p (q :: qs)

/-- The `DIR` at a position. -/
def handle (p : UInt32 × Nat) : DirHandle where
  sector := p.1.toInt32
  offset := Int32.ofNat p.2

/-- The entry at a position, as `fat_fs_readdir` fills `dirent` from it. -/
def direntAt (v : Volume) (p : UInt32 × Nat) : Dirent where
  ino := Int32.ofNat (p.2 + 1)
  reclen := load32 (v.view p.1) (32 * p.2 + 28)
  type := readFatFtype (dirAt (v.view p.1) (32 * p.2))
  name := readFatFname (dirAt (v.view p.1) (32 * p.2)).name

/-- The entry at a position, as a caller gets it. -/
def listedAt (v : Volume) (q : UInt32 × Nat) : Listed := ⟨q.1, q.2, v.direntAt q⟩

section Walk

variable {v : Volume} {fat : FsFat} {x : UInt32} {o left : Nat} {p q : UInt32 × Nat}

theorem ofInt_toInt32 (x : UInt32) : UInt32.ofInt x.toInt32.toInt = x := by
  have h : x.toInt32.toInt = x.toBitVec.toInt := rfl
  have hx := x.toNat_lt
  have hmod : (x.toInt32.toInt % 2 ^ 32).toNat = x.toNat := by
    rw [h, BitVec.toInt_eq_toNat_cond, UInt32.toNat_toBitVec]
    split <;> omega
  unfold UInt32.ofInt
  rw [hmod, UInt32.ofNat_toNat]

theorem readFatDir_eq (h : v.Cached fat) (hx : x ≠ -1) (ho : o < v.fat.rootTotal.toNat) :
    readFatDir v.read fat x.toInt32.toInt o
      = (v.holding x, some (dirAt (v.view x) (32 * o))) := by
  have hroot : fat.rootTotal = v.fat.rootTotal := by
    obtain ⟨buf, pcs, rfl⟩ := h.volume
    rfl
  have hin : ¬ ((o : Int) < 0 ∨ (o : Int) ≥ fat.rootTotal.toNat) := by
    rw [hroot]
    omega
  rw [readFatDir, if_neg hin, ofInt_toInt32, h.bread hx]
  rfl

/-- The loop of `fat_fs_readdir` scans the view of its sector. -/
theorem readdirLoop_eq (h : v.Cached fat) (hx : x ≠ -1)
    (hleft : o + left ≤ v.fat.rootTotal.toNat) :
    ∃ fat' o', readdirLoop v.read x.toInt32.toInt left fat o
        = (fat', o', (scanView (v.view x) left o).map fun j => dirAt (v.view x) (32 * j))
      ∧ v.Cached fat'
      ∧ ∀ j, scanView (v.view x) left o = some j → o' = j + 1 ∧ fat'.buf = v.view x := by
  induction left generalizing fat o with
  | zero => exact ⟨fat, o + 1, rfl, h, fun j hj => by cases hj⟩
  | succ left ih =>
      have hrest := ih (cached_holding x) (o := o + 1) (by omega)
      rw [Int.natCast_succ] at hrest
      rw [readdirLoop, scanView, readFatDir_eq h hx (by omega)]
      dsimp only
      split_ifs
      · exact ⟨_, _, rfl, cached_holding x, fun j hj => by cases hj⟩
      · exact hrest
      · exact hrest
      · refine ⟨_, _, rfl, cached_holding x, fun j hj => ?_⟩
        obtain rfl := Option.some.inj hj
        exact ⟨rfl, rfl⟩

theorem ofNat_ge_iff (ho : o < 2 ^ 31) : Int32.ofNat o ≥ (16 : Int32) ↔ 16 ≤ o := by
  rw [ge_iff_le, Int32.le_iff_toInt_le, Int32.toInt_ofNat_of_lt ho]
  exact Int.ofNat_le

theorem toUInt16_ne (c : UInt16) : c.toUInt32 ≠ -1 := by
  intro h
  have hlt := c.toNat_lt
  have ht := congrArg UInt32.toNat h
  have hminus : (-1 : UInt32).toNat = 2 ^ 32 - 1 := rfl
  rw [UInt16.toNat_toUInt32, hminus] at ht
  omega

theorem ofNat_ne_minus {s : Nat} (hs : s < 2 ^ 31) : UInt32.ofNat s ≠ -1 := by
  intro h
  have ht := congrArg UInt32.toNat h
  have hminus : (-1 : UInt32).toNat = 2 ^ 32 - 1 := rfl
  rw [UInt32.toNat_ofNat_of_lt' (Nat.lt_trans hs (by decide)), hminus] at ht
  omega

theorem ofNat_sector_inj {s s' : Nat} (hs : s < 2 ^ 31) (hs' : s' < 2 ^ 31)
    (h : UInt32.ofNat s = UInt32.ofNat s') : s = s' := by
  have hnat := congrArg UInt32.toNat h
  rwa [UInt32.toNat_ofNat_of_lt' (Nat.lt_trans hs (by decide)),
    UInt32.toNat_ofNat_of_lt' (Nat.lt_trans hs' (by decide))] at hnat

theorem rootTotal_lt (v : Volume) : v.fat.rootTotal.toNat < 2 ^ 16 := by
  rw [v.geometry.rootTotal, UInt16.toNat_toUInt32]
  exact v.br.maxRde.toNat_lt

/-- At the end of a sector, `fat_fs_readdir` turns to the next one. -/
theorem turn_eq (h : v.Cached fat) (hx : p.1 ≠ -1) (ho : p.2 < 2 ^ 31) :
    ∃ fat₁, v.Cached fat₁ ∧ (v.turn p).1 ≠ -1 ∧ (v.turn p).2 < 2 ^ 31
      ∧ (if (handle p).offset ≥ (16 : Int32) then
          ((fatNextCluster v.read fat (handle p).sector.toUInt32.toUInt16).1,
            ({ sector := (fatNextCluster v.read fat
                (handle p).sector.toUInt32.toUInt16).2.toUInt32.toInt32
               offset := 0 } : DirHandle))
        else (fat, handle p)) = (fat₁, handle (v.turn p)) := by
  have hge : (handle p).offset ≥ (16 : Int32) ↔ 16 ≤ p.2 := ofNat_ge_iff ho
  by_cases h16 : 16 ≤ p.2
  · obtain ⟨fat₁, hnext, hc⟩ := h.next p.1.toUInt16
    refine ⟨fat₁, hc, ?_, ?_, ?_⟩
    · rw [turn, if_pos h16]
      exact toUInt16_ne _
    · rw [turn, if_pos h16]
      exact (by decide : 0 < 2 ^ 31)
    · have hsector : (handle p).sector.toUInt32.toUInt16 = p.1.toUInt16 := rfl
      rw [if_pos (hge.mpr h16), hsector, hnext, turn, if_pos h16]
      rfl
  · refine ⟨fat, h, ?_, ?_, ?_⟩
    · rwa [turn, if_neg h16]
    · rwa [turn, if_neg h16]
    · rw [if_neg (mt hge.mp h16), turn, if_neg h16]

/-- `fat_fs_readdir` at a position. -/
theorem readdir_eq (h : v.Cached fat) (hx : p.1 ≠ -1) (ho : p.2 < 2 ^ 31) :
    ∃ fat', v.Cached fat' ∧
      ((v.after p = none ∧ (fatFsReaddir v.read fat (handle p)).dirent = none)
        ∨ ∃ q, v.after p = some q ∧ q.1 ≠ -1 ∧ q.2 < v.fat.rootTotal.toNat
          ∧ fatFsReaddir v.read fat (handle p)
            = { fat := fat', dir := handle (q.1, q.2 + 1), dirent := some (v.direntAt q) }) := by
  have hdcount : (fat.bps / 32).toInt32 = 16 := by
    obtain ⟨buf, pcs, rfl⟩ := h.volume
    rw [v.bps_eq]
    decide
  obtain ⟨fat₁, hc₁, hx₁, ho₁, heq₁⟩ := turn_eq h hx ho
  obtain ⟨q₀, hq₀⟩ : ∃ q₀, q₀ = v.turn p := ⟨_, rfl⟩
  rw [← hq₀] at hx₁ ho₁ heq₁
  have hroot : fat₁.rootTotal = v.fat.rootTotal := by
    obtain ⟨buf, pcs, rfl⟩ := hc₁.volume
    rfl
  have hoff : (handle q₀).offset.toInt = q₀.2 := Int32.toInt_ofNat_of_lt ho₁
  have hleft : ((fat₁.rootTotal.toNat : Int) - q₀.2).toNat = v.fat.rootTotal.toNat - q₀.2 := by
    rw [hroot]
    omega
  have hcall : fatFsReaddir v.read fat (handle p)
      = if (handle q₀).sector ≥ fatClusterInvalid.toInt32
        then { fat := fat₁, dir := handle q₀, dirent := none }
        else
          match readdirLoop v.read (handle q₀).sector.toInt (v.fat.rootTotal.toNat - q₀.2) fat₁
              q₀.2 with
          | (fat, offset, none) =>
              { fat, dir := { handle q₀ with offset := Int32.ofInt offset }, dirent := none }
          | (fat, offset, some fdir) =>
              { fat
                dir := { handle q₀ with offset := Int32.ofInt offset }
                dirent := some {
                  ino := Int32.ofInt offset
                  reclen := load32 fat.buf (32 * (offset - 1).toNat + 28)
                  type := readFatFtype fdir
                  name := readFatFname fdir.name } } := by
    rw [fatFsReaddir, hdcount]
    simp only [heq₁, hoff, hleft]
  rw [hcall]
  by_cases hpast : isPast q₀.1
  · refine ⟨fat, h, Or.inl ⟨?_, ?_⟩⟩
    · simp only [after, ← hq₀, if_pos hpast]
    · rw [if_pos (show (handle q₀).sector ≥ fatClusterInvalid.toInt32 from hpast)]
  · rw [if_neg (show ¬ (handle q₀).sector ≥ fatClusterInvalid.toInt32 from hpast)]
    by_cases hend : q₀.2 ≤ v.fat.rootTotal.toNat
    · have hbound : q₀.2 + (v.fat.rootTotal.toNat - q₀.2) ≤ v.fat.rootTotal.toNat := by omega
      obtain ⟨fat', o', hloop, hc', hsome⟩ := readdirLoop_eq hc₁ hx₁ hbound
      have hsector : (handle q₀).sector = q₀.1.toInt32 := rfl
      rw [hsector, hloop]
      cases hscan : scanView (v.view q₀.1) (v.fat.rootTotal.toNat - q₀.2) q₀.2 with
      | none =>
          refine ⟨fat, h, Or.inl ⟨?_, rfl⟩⟩
          simp only [after, ← hq₀, if_neg hpast, hscan]
          rfl
      | some j =>
          obtain ⟨ho', hbuf⟩ := hsome j hscan
          obtain ⟨-, hlt⟩ := scanView_bounds hscan
          refine ⟨fat', hc', Or.inr ⟨(q₀.1, j), ?_, hx₁, by omega, ?_⟩⟩
          · simp only [after, ← hq₀, if_neg hpast, hscan]
            rfl
          · simp only [Option.map_some, ho', hbuf, direntAt, handle]
            have hj : ((j : Int) + 1 - 1).toNat = j := by omega
            have hcast : Int32.ofInt ((j : Int) + 1) = Int32.ofNat (j + 1) := rfl
            rw [hj, hcast]
    · have hzero : v.fat.rootTotal.toNat - q₀.2 = 0 := by omega
      refine ⟨fat, h, Or.inl ⟨?_, ?_⟩⟩
      · simp only [after, ← hq₀, if_neg hpast, hzero]
        rfl
      · rw [hzero]
        rfl

/-- The calls of `fat_fs_readdir` from a position on list what the walk says. -/
theorem ends_listing (h : v.Cached fat) (hx : p.1 ≠ -1) (ho : p.2 < 2 ^ 31)
    (acc r : List Listed) :
    Ends (ListLoop.round v.read) { fat, dir := handle p, listed := acc } r
      ↔ ∃ qs, v.Walks p qs ∧ r = acc ++ qs.map v.listedAt := by
  have hbound := v.rootTotal_lt
  have hplace : ∀ q : UInt32 × Nat, q.2 < v.fat.rootTotal.toNat →
      (⟨(handle (q.1, q.2 + 1)).sector.toUInt32, (handle (q.1, q.2 + 1)).offset.toInt - 1,
        v.direntAt q⟩ : Listed) = v.listedAt q := by
    intro q hq
    have hoff : (handle (q.1, q.2 + 1)).offset.toInt = (q.2 + 1 : Nat) :=
      Int32.toInt_ofNat_of_lt (by dsimp only; omega)
    have hindex : ((q.2 + 1 : Nat) : Int) - 1 = q.2 := by omega
    rw [hoff, hindex]
    rfl
  constructor
  · rintro ⟨n, hn⟩
    induction n generalizing fat p acc with
    | zero => cases hn
    | succ n ih =>
        obtain ⟨fat', hc', ⟨hafter, hnone⟩ | ⟨q, hafter, hq, hlt, heq⟩⟩ := readdir_eq h hx ho
        · have hround : ListLoop.round v.read { fat, dir := handle p, listed := acc }
              = .leave acc := by
            simp only [ListLoop.round, hnone]
          rw [loopFor, hround] at hn
          obtain rfl := Option.some.inj hn
          exact ⟨[], .done hafter, by simp⟩
        · have hround : ListLoop.round v.read { fat, dir := handle p, listed := acc }
              = .again { fat := fat', dir := handle (q.1, q.2 + 1),
                         listed := acc ++ [v.listedAt q] } := by
            simp only [ListLoop.round, heq, hplace q hlt]
          rw [loopFor, hround] at hn
          obtain ⟨qs, hqs, rfl⟩ := ih (p := (q.1, q.2 + 1)) hc' hq (by dsimp only; omega) _ hn
          exact ⟨q :: qs, .step hafter hqs, by simp⟩
  · rintro ⟨qs, hqs, rfl⟩
    induction hqs generalizing fat acc with
    | done hafter =>
        obtain ⟨fat', hc', ⟨-, hnone⟩ | ⟨q, hsome, -⟩⟩ := readdir_eq h hx ho
        · refine Ends.of_leave ?_
          simp only [ListLoop.round, hnone, List.map_nil, List.append_nil]
        · rw [hafter] at hsome
          cases hsome
    | @step p q qs hafter hrest ih =>
        obtain ⟨fat', hc', ⟨hnone, -⟩ | ⟨q', hsome, hq, hlt, heq⟩⟩ := readdir_eq h hx ho
        · rw [hafter] at hnone
          cases hnone
        · obtain rfl := Option.some.inj (hafter.symm.trans hsome)
          have hround : ListLoop.round v.read { fat, dir := handle p, listed := acc }
              = .again { fat := fat', dir := handle (q.1, q.2 + 1),
                         listed := acc ++ [v.listedAt q] } := by
            simp only [ListLoop.round, heq, hplace q hlt]
          have hnext := ih hc' hq (by dsimp only; omega) (acc ++ [v.listedAt q])
          rw [ends_again_iff hround]
          rw [List.append_assoc] at hnext
          exact hnext

end Walk

/-! ## The entries of a sector -/

/-- The entries of a sector that a listing shows. -/
def shownIn (v : Volume) (s : Nat) : List DirEntry :=
  ((v.entriesIn s).takeWhile fun e => !e.isEnd).filter DirEntry.isVisible

/-- Those from the entry `o` on. -/
def shownFrom (v : Volume) (s o : Nat) : List DirEntry :=
  (((v.entriesIn s).drop o).takeWhile fun e => !e.isEnd).filter DirEntry.isVisible

/-- The position of an entry. -/
def place (e : DirEntry) : UInt32 × Nat := (UInt32.ofNat e.sector, e.index)

/-- Where a walk stands that has come to `o` and past the entries `es`. -/
def behind (o : Nat) (es : List DirEntry) : Nat := (es.getLast?.map fun e => e.index + 1).getD o

theorem treeType_ne_tty (fdir : FatDir) : treeType fdir ≠ .tty := by
  rw [treeType]
  split_ifs <;> exact FatType.noConfusion

section Sector

variable {v : Volume} {s o : Nat} {e : DirEntry} {es : List DirEntry}

theorem drop_entriesIn (ho : o < 16) :
    (v.entriesIn s).drop o
      = ⟨s, o, dirAt (v.disk (UInt32.ofNat s)) (32 * o)⟩ :: (v.entriesIn s).drop (o + 1) := by
  rw [List.drop_eq_getElem_cons (by simpa [entriesIn] using ho)]
  simp [entriesIn]

/-- An entry is 32 bytes. -/
theorem dirAt_congr {m m' : Bytes} {a : Nat} (h : ∀ i < 32, m (a + i) = m' (a + i)) :
    dirAt m a = dirAt m' a := by
  have h16 : ∀ i, i + 1 < 32 → m.load16 (a + i) = m'.load16 (a + i) :=
    fun i hi => load16_congr (h i (by omega)) (h (i + 1) hi)
  rw [dirAt, dirAt, FatDir.mk.injEq]
  exact ⟨Vector.ext fun i hi => by simpa using h i (by omega), h 11 (by omega),
    h16 20 (by omega), h16 26 (by omega)⟩

theorem dirAt_agrees {m : Bytes} {x : UInt32} (h : ∀ i < 512, m i = v.disk x i) (ho : o < 16) :
    dirAt m (32 * o) = dirAt (v.disk x) (32 * o) :=
  dirAt_congr fun i hi => h _ (by omega)

theorem dirAt_view {x : UInt32} (ho : o < 16) :
    dirAt (v.view x) (32 * o) = dirAt (v.disk x) (32 * o) :=
  dirAt_agrees (fun _ hi => view_inside hi) ho

/-- A scan sees the first entry that is shown, unless that is read-only; where
nothing is shown any more, it stops behind the sector or not at all. -/
theorem scan_shown (ho : o ≤ 16) (h16 : 16 ≤ v.fat.rootTotal.toNat) :
    match v.shownFrom s o with
    | [] => ∀ j, scanView (v.view (UInt32.ofNat s)) (v.fat.rootTotal.toNat - o) o = some j → 16 ≤ j
    | e :: es =>
        e.sector = s ∧ o ≤ e.index ∧ e.index < 16 ∧ v.shownFrom s (e.index + 1) = es
          ∧ (scanView (v.view (UInt32.ofNat s)) (v.fat.rootTotal.toNat - o) o = some e.index
            ↔ e.fdir.attr &&& 1 = 0) := by
  obtain ⟨k, hk⟩ : ∃ k, o + k = 16 := ⟨16 - o, by omega⟩
  induction k generalizing o with
  | zero =>
      obtain rfl : o = 16 := by omega
      have hnil : v.shownFrom s 16 = [] := by
        rw [shownFrom, List.drop_of_length_le (by simp [entriesIn])]
        rfl
      rw [hnil]
      exact fun j hj => (scanView_bounds hj).1
  | succ k ih =>
      have hlt : o < 16 := by omega
      have hnext := ih (o := o + 1) (by omega) (by omega)
      obtain ⟨left, hleft⟩ : ∃ left, v.fat.rootTotal.toNat - o = left + 1 :=
        ⟨v.fat.rootTotal.toNat - (o + 1), by omega⟩
      have hleft' : v.fat.rootTotal.toNat - (o + 1) = left := by omega
      rw [hleft'] at hnext
      rw [hleft, scanView, dirAt_view hlt, shownFrom, drop_entriesIn hlt]
      generalize hf : dirAt (v.disk (UInt32.ofNat s)) (32 * o) = fdir
      -- what is skipped leaves the rest of the sector
      have hskip : (⟨s, o, fdir⟩ : DirEntry).isVisible = false →
          ¬ (⟨s, o, fdir⟩ : DirEntry).isEnd →
          List.filter DirEntry.isVisible (List.takeWhile (fun e => !e.isEnd)
            (⟨s, o, fdir⟩ :: (v.entriesIn s).drop (o + 1))) = v.shownFrom s (o + 1) := by
        intro hvis hend
        simp [hend, hvis, shownFrom]
      have hrest : ∀ {r}, r = v.shownFrom s (o + 1) →
          match r with
          | [] => ∀ j, scanView (v.view (UInt32.ofNat s)) left (o + 1) = some j → 16 ≤ j
          | e :: es =>
              e.sector = s ∧ o ≤ e.index ∧ e.index < 16 ∧ v.shownFrom s (e.index + 1) = es
                ∧ (scanView (v.view (UInt32.ofNat s)) left (o + 1) = some e.index
                  ↔ e.fdir.attr &&& 1 = 0) := by
        rintro r rfl
        cases hr : v.shownFrom s (o + 1) with
        | nil => rwa [hr] at hnext
        | cons e es =>
            rw [hr] at hnext
            obtain ⟨hs, hle, hrest⟩ := hnext
            exact ⟨hs, by omega, hrest⟩
      by_cases hend : nameFirst fdir.name = fdnEnd
      · simp [DirEntry.isEnd, hend]
      have hnot : ¬ (⟨s, o, fdir⟩ : DirEntry).isEnd := by simpa [DirEntry.isEnd] using hend
      by_cases hfree : nameFirst fdir.name = fdnFree
      · have hvis : (⟨s, o, fdir⟩ : DirEntry).isVisible = false := by
          simp [DirEntry.isVisible, hfree]
        simp only [if_neg hend, if_pos hfree]
        exact hrest (hskip hvis hnot)
      by_cases htree : treeType fdir = .unknown
      · have hvis : (⟨s, o, fdir⟩ : DirEntry).isVisible = false := by
          simp [DirEntry.isVisible, htree]
        have htype : readFatFtype fdir = .unknown := by rw [readFatFtype_eq, htree, ite_self]
        simp only [if_neg hend, if_neg hfree, htype]
        rw [if_pos (by decide)]
        exact hrest (hskip hvis hnot)
      · have hvis : (⟨s, o, fdir⟩ : DirEntry).isVisible = true := by
          simp [DirEntry.isVisible, hfree, htree]
        have hshown : List.filter DirEntry.isVisible (List.takeWhile (fun e => !e.isEnd)
            (⟨s, o, fdir⟩ :: (v.entriesIn s).drop (o + 1)))
            = ⟨s, o, fdir⟩ :: v.shownFrom s (o + 1) := by
          simp [hnot, hvis, shownFrom]
        rw [hshown]
        refine ⟨rfl, Nat.le_refl o, hlt, rfl, ?_⟩
        simp only [if_neg hend, if_neg hfree]
        by_cases hro : fdir.attr &&& 1 = 0
        · have htype : ¬ (readFatFtype fdir ≠ .dir ∧ readFatFtype fdir ≠ .file) := by
            rw [readFatFtype_eq, if_pos hro]
            have := treeType_ne_tty fdir
            cases hcase : treeType fdir <;> simp_all
          rw [if_neg htype]
          exact iff_of_true rfl hro
        · have htype : readFatFtype fdir = .unknown := by rw [readFatFtype_eq, if_neg hro]
          rw [htype, if_pos (by decide)]
          refine iff_of_false (fun hscan => ?_) hro
          have := (scanView_bounds hscan).1
          omega

theorem walks_cons {p q : UInt32 × Nat} {qs : List (UInt32 × Nat)} :
    v.Walks p (q :: qs) ↔ v.after p = some q ∧ v.Walks (q.1, q.2 + 1) qs := by
  constructor
  · intro h
    cases h with
    | step hafter hrest => exact ⟨hafter, hrest⟩
  · rintro ⟨hafter, hrest⟩
    exact .step hafter hrest

theorem walks_nil {p : UInt32 × Nat} : v.Walks p [] ↔ v.after p = none := by
  constructor
  · intro h
    cases h with
    | done hafter => exact hafter
  · exact .done

/-- Before the end of a sector the next call stays in it. -/
theorem after_inside {x : UInt32} (ho : o < 16) :
    v.after (x, o)
      = if isPast x then none
        else (scanView (v.view x) (v.fat.rootTotal.toNat - o) o).map fun j => (x, j) := by
  have hturn : v.turn (x, o) = (x, o) := if_neg (by simpa using ho)
  rw [after, hturn]

/-- At the end of a sector it goes to the next one. -/
theorem after_end {x : UInt32} :
    v.after (x, 16) = v.after ((v.next x.toUInt16).toUInt32, 0) := by
  have hturn : v.turn (x, 16) = ((v.next x.toUInt16).toUInt32, 0) := if_pos (Nat.le_refl 16)
  have hturn' : v.turn ((v.next x.toUInt16).toUInt32, 0) = ((v.next x.toUInt16).toUInt32, 0) :=
    if_neg (Nat.not_succ_le_zero 15)
  rw [after, after, hturn, hturn']

theorem behind_cons (o : Nat) (e : DirEntry) (es : List DirEntry) :
    behind o (e :: es) = behind (e.index + 1) es := by
  cases es with
  | nil => rfl
  | cons e' es =>
      rw [behind, behind, List.getLast?_cons_cons]
      cases hlast : (e' :: es).getLast? with
      | none => cases List.getLast?_eq_none_iff.mp hlast
      | some last => rfl

/-- A walk passes the entries that its sector shows, if it sees all of them. -/
theorem walks_sector (h16 : 16 ≤ v.fat.rootTotal.toNat) (hs : s < 2 ^ 32) (ho : o ≤ 16)
    (rest : List (UInt32 × Nat)) :
    v.Walks (UInt32.ofNat s, o) ((v.shownFrom s o).map place ++ rest)
      ↔ (∀ e ∈ v.shownFrom s o, e.fdir.attr &&& 1 = 0
          ∧ ¬ isPast (UInt32.ofNat s))
        ∧ v.Walks (UInt32.ofNat s, behind o (v.shownFrom s o)) rest := by
  generalize hes : v.shownFrom s o = es
  induction es generalizing o with
  | nil => simp [behind]
  | cons e es ih =>
      have hscan := scan_shown (v := v) (s := s) ho h16
      rw [hes] at hscan
      obtain ⟨rfl, hle, hlt, hes', hiff⟩ := hscan
      have hrest := ih (o := e.index + 1) (by omega) hes'
      rw [List.map_cons, List.cons_append, walks_cons, behind_cons, List.forall_mem_cons]
      have hafter : v.after (UInt32.ofNat e.sector, o) = some (place e)
          ↔ e.fdir.attr &&& 1 = 0
            ∧ ¬ isPast (UInt32.ofNat e.sector) := by
        rw [after_inside (by omega), ← hiff]
        split
        case isTrue hpast => simp [hpast]
        case isFalse hpast => simp [hpast, place]
      have hplace : ((place e).1, (place e).2 + 1) = (UInt32.ofNat e.sector, e.index + 1) := rfl
      rw [hafter, hplace, hrest]
      exact and_assoc.symm

/-- Where a sector shows nothing any more, the walk gets to an entry of a
sector only from the end, and by `fat_next_cluster`. -/
theorem walks_link (h16 : 16 ≤ v.fat.rootTotal.toNat) (ho : o ≤ 16)
    (hnil : v.shownFrom s o = []) {q : UInt32 × Nat} (hq : q.2 < 16) (qs : List (UInt32 × Nat)) :
    v.Walks (UInt32.ofNat s, o) (q :: qs)
      ↔ o = 16 ∧ (v.next (UInt32.ofNat s).toUInt16).toUInt32 = q.1 ∧ v.Walks (q.1, 0) (q :: qs) := by
  rw [walks_cons, walks_cons]
  by_cases h : o = 16
  · subst h
    rw [after_end]
    constructor
    · rintro ⟨hafter, hrest⟩
      have hsector : (v.next (UInt32.ofNat s).toUInt16).toUInt32 = q.1 := by
        rw [after_inside (by decide)] at hafter
        split at hafter
        · cases hafter
        · obtain ⟨j, -, rfl⟩ := Option.map_eq_some_iff.mp hafter
          rfl
      exact ⟨rfl, hsector, hsector ▸ hafter, hrest⟩
    · rintro ⟨-, hsector, hafter, hrest⟩
      exact ⟨hsector ▸ hafter, hrest⟩
  · refine iff_of_false (fun hwalk => ?_) fun hwalk => h hwalk.1
    have hscan := scan_shown (v := v) (s := s) ho h16
    rw [hnil] at hscan
    have hafter := hwalk.1
    rw [after_inside (by omega)] at hafter
    split at hafter
    · cases hafter
    · obtain ⟨j, hj, rfl⟩ := Option.map_eq_some_iff.mp hafter
      have := hscan j hj
      dsimp only at hq
      omega

/-- Behind the last entry that a sector shows there is none. -/
theorem shownFrom_behind (h16 : 16 ≤ v.fat.rootTotal.toNat) (ho : o ≤ 16) :
    behind o (v.shownFrom s o) ≤ 16 ∧ v.shownFrom s (behind o (v.shownFrom s o)) = [] := by
  generalize hes : v.shownFrom s o = es
  induction es generalizing o with
  | nil => exact ⟨ho, hes⟩
  | cons e es ih =>
      have hscan := scan_shown (v := v) (s := s) ho h16
      rw [hes] at hscan
      obtain ⟨-, -, hlt, hes', -⟩ := hscan
      rw [behind_cons]
      exact ih (by omega) hes'

end Sector

/-! ## Directories -/

/-- The sectors of a directory up to the one with its end. -/
def upToEnd (v : Volume) : List Nat → List Nat
  | [] => []
  | s :: ss => if v.endsIn [s] then [s] else s :: upToEnd v ss

/-- The entries that a listing shows: those before the end that are visible. -/
def visible (v : Volume) (d : DirLoc) : List DirEntry :=
  (((v.sectors d).flatMap v.entriesIn).takeWhile fun e => !e.isEnd).filter DirEntry.isVisible

/-- The sectors that have something to show, in order. -/
def showing (v : Volume) (d : DirLoc) : List Nat :=
  (v.upToEnd (v.sectors d)).filter fun s => v.shownIn s ≠ []

/-- The index behind the last entry that a sector shows. -/
def shownEnd (v : Volume) (s : Nat) : Nat := behind 0 (v.shownIn s)

/-- The sector that `fat_fs_opendir` begins with. -/
def openSector (v : Volume) : DirLoc → UInt32
  | .root => v.fat.rootStart
  | .cluster c => v.codeSector c

/-- Where the walk stands behind the last entry of the directory. -/
def lastPlace (v : Volume) (d : DirLoc) : UInt32 × Nat :=
  match (v.showing d).getLast? with
  | none => (v.openSector d, 0)
  | some s => (UInt32.ofNat s, v.shownEnd s)

/-- The listing goes right. -/
structure ListsWell (v : Volume) (d : DirLoc) : Prop where
  /-- no entry is read-only -/
  readable : ∀ e ∈ v.visible d, e.fdir.attr &&& 1 = 0
  /-- the sectors with something to show are below 0xFFF8 -/
  valid : ∀ s ∈ v.showing d, s < fatClusterInvalid.toNat
  /-- the first of them is the one that is opened -/
  first : ∀ s ∈ (v.showing d).head?, UInt32.ofNat s = v.openSector d
  /-- each of them but the last ends with an entry that is shown, and the FAT
  has the number of the next one at its number -/
  links : (v.showing d).IsChain fun s s' =>
    v.shownEnd s = 16 ∧ (v.next (UInt32.ofNat s).toUInt16).toNat = s'
  /-- and behind the last entry the scan stops without another one -/
  quiet : v.after (v.lastPlace d) = none

section Listing

variable {v : Volume} {d : DirLoc} {s : Nat} {ss : List Nat} {e : DirEntry}

theorem shownFrom_zero (v : Volume) (s : Nat) : v.shownFrom s 0 = v.shownIn s := rfl

theorem mem_shownIn (h : e ∈ v.shownIn s) :
    e.sector = s ∧ e.index < 16
      ∧ e.fdir = dirAt (v.disk (UInt32.ofNat s)) (32 * e.index) ∧ e.isVisible := by
  obtain ⟨hmem, hvis⟩ := List.mem_filter.mp h
  obtain ⟨i, hi, rfl⟩ := List.mem_map.mp ((List.takeWhile_sublist _).subset hmem)
  exact ⟨rfl, List.mem_range.mp hi, rfl, hvis⟩

theorem takeWhile_sectors (ss : List Nat) :
    (ss.flatMap v.entriesIn).takeWhile (fun e => !e.isEnd)
      = (v.upToEnd ss).flatMap fun s => (v.entriesIn s).takeWhile fun e => !e.isEnd := by
  induction ss with
  | nil => rfl
  | cons s ss ih =>
      rw [List.flatMap_cons, upToEnd]
      by_cases hend : v.endsIn [s]
      · rw [if_pos hend, List.flatMap_singleton]
        rw [endsIn, List.flatMap_singleton] at hend
        rw [List.takeWhile_append, if_neg fun hall => ?_]
        obtain ⟨e, he, hisEnd⟩ := List.any_eq_true.mp hend
        have hself := List.takeWhile_eq_self_iff.mp
          ((List.takeWhile_prefix _).eq_of_length hall) e he
        simp [hisEnd] at hself
      · rw [if_neg hend, List.flatMap_cons, ← ih]
        rw [endsIn, List.flatMap_singleton] at hend
        have hall : ∀ e ∈ v.entriesIn s, (!e.isEnd) = true := by
          intro e he
          by_contra hne
          exact hend (List.any_eq_true.mpr ⟨e, he, by simpa using hne⟩)
        rw [List.takeWhile_append_of_pos hall, List.takeWhile_eq_self_iff.mpr hall]

theorem flatMap_filter_ne_nil {α β : Type} (f : α → List β) [DecidableEq β] (l : List α) :
    (l.filter fun a => f a ≠ []).flatMap f = l.flatMap f := by
  induction l with
  | nil => rfl
  | cons a l ih =>
      by_cases h : f a = []
      · rw [List.filter_cons_of_neg (by simpa using h), ih, List.flatMap_cons, h, List.nil_append]
      · rw [List.filter_cons_of_pos (by simpa using h), List.flatMap_cons, List.flatMap_cons, ih]

theorem visible_eq (v : Volume) (d : DirLoc) : v.visible d = (v.showing d).flatMap v.shownIn := by
  rw [visible, takeWhile_sectors, List.filter_flatMap, showing, flatMap_filter_ne_nil]
  rfl

theorem upToEnd_subset (ss : List Nat) : v.upToEnd ss ⊆ ss := by
  induction ss with
  | nil => exact List.Subset.refl _
  | cons s ss ih =>
      rw [upToEnd]
      split
      · exact List.cons_subset_cons s (List.nil_subset ss)
      · exact List.cons_subset_cons s ih

theorem chain_lt {n c c' : Nat} (h : c' ∈ v.chain n c) : c' < 0xFFF8 := by
  induction n generalizing c with
  | zero => cases h
  | succ n ih =>
      rw [chain] at h
      split at h
      case isTrue hc =>
        rcases List.mem_cons.mp h with rfl | h
        · exact hc.2
        · exact ih h
      case isFalse => cases h

/-- The sectors of a directory have small numbers. -/
theorem sector_lt (h : s ∈ v.sectors d) : s < 2 ^ 31 := by
  cases d with
  | root =>
      have hroot := v.rootStart_lt
      have htotal := v.rootTotal_lt
      obtain ⟨-, hlt⟩ := List.mem_range'_1.mp h
      omega
  | cluster c =>
      obtain ⟨c', hc', hs⟩ := List.mem_flatMap.mp h
      have hlt := chain_lt hc'
      have hdata := v.dataStart_lt
      have hspc := v.spc_lt
      obtain ⟨-, hs'⟩ := List.mem_range'_1.mp hs
      have hmul : (c' - 2) * v.fat.spc.toNat ≤ 0xFFF8 * 256 :=
        Nat.mul_le_mul (by omega) (by omega)
      omega

theorem showing_lt (h : s ∈ v.showing d) : s < 2 ^ 31 :=
  sector_lt (upToEnd_subset _ (List.mem_filter.mp h).1)

theorem isPast_iff (hs : s < 2 ^ 31) :
    isPast (UInt32.ofNat s) ↔ fatClusterInvalid.toNat ≤ s := by
  have hcast : (UInt32.ofNat s).toInt32 = Int32.ofNat s := rfl
  rw [isPast, hcast, ge_iff_le, Int32.le_iff_toInt_le, Int32.toInt_ofNat_of_lt hs]
  exact Int.ofNat_le

/-- The walk over sectors that all show something. -/
theorem walks_showing (h16 : 16 ≤ v.fat.rootTotal.toNat) (t : Nat)
    (hss : ∀ s ∈ t :: ss, s < 2 ^ 31 ∧ v.shownIn s ≠ []) :
    v.Walks (UInt32.ofNat t, 0) (((t :: ss).flatMap v.shownIn).map place)
      ↔ (∀ s ∈ t :: ss, ∀ e ∈ v.shownIn s, e.fdir.attr &&& 1 = 0
          ∧ ¬ isPast (UInt32.ofNat s))
        ∧ (t :: ss).IsChain (fun s s' =>
          v.shownEnd s = 16 ∧ (v.next (UInt32.ofNat s).toUInt16).toNat = s')
        ∧ v.after (UInt32.ofNat ((t :: ss).getLast (List.cons_ne_nil t ss)),
          v.shownEnd ((t :: ss).getLast (List.cons_ne_nil t ss))) = none := by
  induction ss generalizing t with
  | nil =>
      obtain ⟨ht, -⟩ := hss t List.mem_cons_self
      have hsector := walks_sector (v := v) (s := t) h16 (Nat.lt_trans ht (by decide))
        (Nat.zero_le 16) []
      rw [List.append_nil, shownFrom_zero, walks_nil] at hsector
      simpa [shownEnd] using hsector
  | cons t' ss ih =>
      obtain ⟨ht, -⟩ := hss t List.mem_cons_self
      obtain ⟨ht', hne⟩ := hss t' (by simp)
      have hrest := ih t' fun s hs => hss s (List.mem_cons_of_mem t hs)
      obtain ⟨e, es, hes⟩ := List.exists_cons_of_ne_nil hne
      obtain ⟨hsector, hindex, -, -⟩ := mem_shownIn (v := v) (s := t') (e := e) (by simp [hes])
      have hshown := walks_sector (v := v) (s := t) h16 (Nat.lt_trans ht (by decide))
        (Nat.zero_le 16) (((t' :: ss).flatMap v.shownIn).map place)
      obtain ⟨hle, hnil⟩ := shownFrom_behind (v := v) (s := t) h16 (Nat.zero_le 16)
      have hlink := walks_link h16 hle hnil (q := place e) hindex
        ((es ++ ss.flatMap v.shownIn).map place)
      have hcons : place e :: (es ++ ss.flatMap v.shownIn).map place
          = ((t' :: ss).flatMap v.shownIn).map place := by
        rw [List.flatMap_cons, hes]
        rfl
      have hplace : (place e).1 = UInt32.ofNat t' := by rw [place, hsector]
      have hnum : (v.next (UInt32.ofNat t).toUInt16).toUInt32 = UInt32.ofNat t'
          ↔ (v.next (UInt32.ofNat t).toUInt16).toNat = t' := by
        rw [← UInt32.toNat_inj, UInt16.toNat_toUInt32,
          UInt32.toNat_ofNat_of_lt' (Nat.lt_trans ht' (by decide))]
      rw [hcons, hplace, hnum, hrest] at hlink
      rw [hlink, shownFrom_zero] at hshown
      rw [List.flatMap_cons, List.map_append, hshown, List.isChain_cons_cons,
        List.getLast_cons (List.cons_ne_nil t' ss)]
      constructor
      · rintro ⟨hseen, hfull, hnext, hseen', hlinks, hquiet⟩
        exact ⟨List.forall_mem_cons.mpr ⟨hseen, hseen'⟩, ⟨⟨hfull, hnext⟩, hlinks⟩, hquiet⟩
      · rintro ⟨hall, ⟨⟨hfull, hnext⟩, hlinks⟩, hquiet⟩
        obtain ⟨hseen, hseen'⟩ := List.forall_mem_cons.mp hall
        exact ⟨hseen, hfull, hnext, hseen', hlinks, hquiet⟩

end Listing

/-! ## The law -/

/-- The directory that a path names. -/
def dirOf (v : Volume) (names : List Name83) : Option DirLoc :=
  if names = [] then some .root else (v.resolve names).bind enter

/-- An entry as a listing should return it. -/
def listing (v : Volume) (e : DirEntry) : Listed where
  sector := UInt32.ofNat e.sector
  index := e.index
  dirent := {
    ino := Int32.ofNat (e.index + 1)
    reclen := load32 (v.disk (UInt32.ofNat e.sector)) (32 * e.index + 28)
    type := treeType e.fdir
    name := readFatFname e.fdir.name }

/-- `fat_fs_opendir` comes back with 0, and the calls of `fat_fs_readdir` up
to the first -1 return the visible entries, in order, each from its place. -/
def Lists (v : Volume) (stack : PathStack) (p : AbsPath) (dir₀ : DirHandle) (d : DirLoc) : Prop :=
  ∃ rounds dir fat, fatFsOpendir v.read stack v.fat p.text dir₀ rounds
      = some (.returned 0 dir fat)
    ∧ Ends (ListLoop.round v.read) { fat, dir, listed := [] } ((v.visible d).map v.listing)

section Law

variable {v : Volume} {stack : PathStack} {p : AbsPath} {dir₀ : DirHandle} {d : DirLoc}

/-- An entry that the code can see is returned as a listing should. -/
theorem listedAt_place {e : DirEntry} (he : e ∈ v.visible d) (hro : e.fdir.attr &&& 1 = 0) :
    v.listedAt (place e) = v.listing e := by
  rw [visible_eq] at he
  obtain ⟨s, -, hshown⟩ := List.mem_flatMap.mp he
  obtain ⟨rfl, hlt, hfdir, -⟩ := mem_shownIn hshown
  have hload : (v.view (UInt32.ofNat e.sector)).load32 (32 * e.index + 28)
      = (v.disk (UInt32.ofNat e.sector)).load32 (32 * e.index + 28) := by
    refine load32_congr fun b hle hb => view_inside ?_
    rw [diskSectorSize]
    omega
  have hdir : dirAt (v.view (UInt32.ofNat e.sector)) (32 * e.index) = e.fdir :=
    (dirAt_view hlt).trans hfdir.symm
  rw [listedAt, listing, direntAt, place, hload, hdir, readFatFtype_eq, if_pos hro]

theorem readFatPathCluster_unique {read : UInt32 → Option Bytes} {fat : FsFat} {path : Chars}
    {sector offset : Int} {n n' : Nat} {r r' : PathEnd}
    (h : readFatPathCluster read stack fat path sector offset n = some r)
    (h' : readFatPathCluster read stack fat path sector offset n' = some r') : r = r' := by
  rw [readFatPathCluster] at h h'
  split at h
  case isTrue hroot =>
    rw [if_pos hroot] at h'
    exact Option.some.inj (h.symm.trans h')
  case isFalse hroot =>
    rw [if_neg hroot] at h'
    exact Ends.unique ⟨n, h⟩ ⟨n', h'⟩

/-- A path that names an entry is one of a volume whose root has a sector. -/
theorem sixteen_le_of_resolve {names : List Name83} {e : DirEntry} (hne : names ≠ [])
    (h : v.resolve names = some e) : 16 ≤ v.fat.rootTotal.toNat := by
  obtain ⟨n, names, rfl⟩ := List.exists_cons_of_ne_nil hne
  cases hfind : v.find .root n with
  | none =>
      rw [resolve, walk_of_find_none hfind] at h
      cases h
  | some e' =>
      have hmem := List.mem_range'_1.mp (lookIn_some hfind).1
      omega

/-- The search of a path that is not `/` keeps to the volume, and its sector is none of the
end marks. -/
theorem kept_resolve {p : AbsPath} {rounds : Nat} {r : PathEnd} (hne : p.names ≠ [])
    (hr : readFatPathCluster v.read stack v.fat p.text 0 0 rounds = some r) :
    KeptEnd v.fat r := by
  obtain ⟨n, names, hnames⟩ := List.exists_cons_of_ne_nil hne
  have hcmp : kernelStrcmp p.text [0x2F] ≠ 0 := by
    rw [AbsPath.text, hnames]
    exact kernelStrcmp_slash
  rw [readFatPathCluster, if_neg hcmp] at hr
  exact kept_ends ⟨.refl v.fat, (by decide : (0 : Int) < fatClusterInvalid.toNat)⟩ ⟨rounds, hr⟩

theorem openSector_ne (hcl : ∀ c, d = .cluster c → 2 ≤ c ∧ c < fatClusterInvalid.toNat) :
    v.openSector d ≠ -1 := by
  have hminus : (-1 : UInt32).toNat = 2 ^ 32 - 1 := rfl
  intro h
  have ht := congrArg UInt32.toNat h
  rw [hminus] at ht
  cases d with
  | root =>
      have := v.rootStart_lt
      rw [openSector] at ht
      omega
  | cluster c =>
      obtain ⟨h2, hlt⟩ := hcl c rfl
      have hinv : fatClusterInvalid.toNat = 0xFFF8 := rfl
      have hdata := v.dataStart_lt
      have htwo : (2 : UInt32).toNat = 2 := rfl
      rw [openSector, codeSector, UInt32.toNat_sub, UInt32.toNat_add,
        UInt32.toNat_ofNat_of_lt' (Nat.lt_trans hlt (by decide)), htwo] at ht
      omega

/-- `fat_fs_opendir` on the way to a directory. -/
theorem opendir_eq (hcache : v.Cached v.fat) (hd : v.dirOf p.names = some d)
    (hp : v.Resolves stack 0 0 p) (dir₀ : DirHandle) :
    ∃ rounds fat, fatFsOpendir v.read stack v.fat p.text dir₀ rounds
        = some (.returned 0 (handle (v.openSector d, 0)) fat)
      ∧ v.Cached fat := by
  obtain ⟨rounds, r, hr, hanswer⟩ := id hp
  have hcached := cached_path hcache hr
  by_cases hroot : p.names = []
  · rw [dirOf, if_pos hroot] at hd
    obtain rfl := Option.some.inj hd
    rw [if_pos hroot] at hanswer
    obtain ⟨fat, rfl⟩ := hanswer
    refine ⟨rounds, fat, ?_, hcached⟩
    have hstart : fat.rootStart = v.fat.rootStart := by
      obtain ⟨buf, pcs, rfl⟩ := Cached.volume hcached
      rfl
    rw [fatFsOpendir, hr, Option.map_some, fatFsOpendirAt, if_neg (by decide), if_pos rfl, hstart]
    rfl
  · rw [dirOf, if_neg hroot] at hd
    obtain ⟨e, he, henter⟩ := Option.bind_eq_some_iff.mp hd
    rw [if_neg hroot, he] at hanswer
    have htype : treeType e.fdir = .dir := by
      rw [enter] at henter
      split at henter
      case isTrue htype => exact htype
      case isFalse => cases henter
    have hdir : d = .cluster e.fdir.cluster := by
      rw [enter, if_pos htype] at henter
      exact (Option.some.inj henter).symm
    cases r with
    | fault f => exact hanswer.elim
    | returned type sector offset fat =>
        obtain ⟨rfl, rfl, rfl⟩ := hanswer
        obtain ⟨d', n, hfind⟩ := exists_find_of_walk he
        obtain ⟨hindex, hfdir⟩ := entry_of_lookIn hfind
        have hpos := sector_pos hfind
        have hlt := sector_lt (lookIn_some hfind).1
        have h16 := sixteen_le_of_resolve hroot he
        have hinv : (e.sector : Int) < fatClusterInvalid.toNat :=
          (kept_resolve hroot hr).2 (by rw [htype]; exact FatType.noConfusion)
        have hcast : (e.sector : Int) = (UInt32.ofNat e.sector).toInt32.toInt := by
          have hnat : (UInt32.ofNat e.sector).toInt32 = Int32.ofNat e.sector := rfl
          rw [hnat, Int32.toInt_ofNat_of_lt hlt]
        have hne := ofNat_ne_minus hlt
        have hin : e.index < v.fat.rootTotal.toNat := by omega
        have hread := readFatDir_eq hcached hne hin
        refine ⟨rounds, v.holding (UInt32.ofNat e.sector), ?_, cached_holding _⟩
        rw [fatFsOpendir, hr, Option.map_some, fatFsOpendirAt,
          if_neg (by omega : ¬ (e.sector : Int) = fatClusterInvalid.toNat),
          if_neg (by omega : ¬ (e.sector : Int) = 0), hcast, hread, dirAt_view hindex, ← hfdir,
          hdir]
        rfl

theorem opendir_unique {read : UInt32 → Option Bytes} {fat : FsFat} {path : Chars} {n n' : Nat}
    {r r' : OpendirEnd} (h : fatFsOpendir read stack fat path dir₀ n = some r)
    (h' : fatFsOpendir read stack fat path dir₀ n' = some r') : r = r' := by
  obtain ⟨s, hs, rfl⟩ := Option.map_eq_some_iff.mp h
  obtain ⟨s', hs', rfl⟩ := Option.map_eq_some_iff.mp h'
  rw [readFatPathCluster_unique hs hs']

/-- A directory that is found is listed right if and only if the walk of the
code is the one along its entries. -/
theorem lists_iff_walks (hcache : v.Cached v.fat) (hd : v.dirOf p.names = some d)
    (hcl : ∀ c, d = .cluster c → 2 ≤ c ∧ c < fatClusterInvalid.toNat)
    (hp : v.Resolves stack 0 0 p) :
    v.Lists stack p dir₀ d
      ↔ ∃ qs, v.Walks (v.openSector d, 0) qs
        ∧ (v.visible d).map v.listing = qs.map v.listedAt := by
  obtain ⟨rounds, fat, hopen, hcached⟩ := opendir_eq hcache hd hp dir₀
  have hlist := ends_listing (p := (v.openSector d, 0)) hcached (openSector_ne hcl)
    (by decide : 0 < 2 ^ 31) [] ((v.visible d).map v.listing)
  simp only [List.nil_append] at hlist
  rw [← hlist]
  constructor
  · rintro ⟨rounds', dir, fat', hopen', hends⟩
    cases opendir_unique hopen hopen'
    exact hends
  · exact fun hends => ⟨rounds, _, fat, hopen, hends⟩

theorem map_listing_eq {es : List DirEntry} {qs : List (UInt32 × Nat)}
    (h : es.map v.listing = qs.map v.listedAt) : qs = es.map place := by
  induction es generalizing qs with
  | nil => simpa using h.symm
  | cons e es ih =>
      cases qs with
      | nil => cases h
      | cons q qs =>
          obtain ⟨hhead, htail⟩ := List.cons.inj h
          have hsector : q.1 = UInt32.ofNat e.sector := (congrArg Listed.sector hhead).symm
          have hindex : q.2 = e.index := (Int.ofNat.inj (congrArg Listed.index hhead)).symm
          rw [List.map_cons, ih htail, place, ← hsector, ← hindex]

/-- A walk that returns something begins in its sector. -/
theorem sector_of_walks {x : UInt32} {q : UInt32 × Nat} {qs : List (UInt32 × Nat)}
    (h : v.Walks (x, 0) (q :: qs)) : q.1 = x := by
  have hafter := (walks_cons.mp h).1
  rw [after_inside (by decide)] at hafter
  split at hafter
  · cases hafter
  · obtain ⟨j, -, rfl⟩ := Option.map_eq_some_iff.mp hafter
    rfl

theorem lastPlace_cons {t : Nat} {ss : List Nat} (h : v.showing d = t :: ss) :
    v.lastPlace d = (UInt32.ofNat ((t :: ss).getLast (List.cons_ne_nil t ss)),
      v.shownEnd ((t :: ss).getLast (List.cons_ne_nil t ss))) := by
  rw [lastPlace, h, List.getLast?_eq_some_getLast (List.cons_ne_nil t ss)]

theorem sixteen_le_of_showing (hd : v.dirOf p.names = some d) (h : v.showing d ≠ []) :
    16 ≤ v.fat.rootTotal.toNat := by
  rw [dirOf] at hd
  split at hd
  case isTrue =>
    obtain rfl := Option.some.inj hd
    obtain ⟨s, hs⟩ := List.exists_mem_of_ne_nil _ h
    have hmem := List.mem_range'_1.mp (upToEnd_subset _ (List.mem_filter.mp hs).1)
    omega
  case isFalse hne =>
    obtain ⟨e, he, -⟩ := Option.bind_eq_some_iff.mp hd
    exact sixteen_le_of_resolve hne he

/-- A directory that the path leads to is listed right if and only if each of
its sectors but the last one with something to show ends with an entry that is
shown and is linked to the next one by number, none of the entries is
read-only, and nothing more is met behind the last of them. -/
theorem readdir_law (hcache : v.Cached v.fat) (hd : v.dirOf p.names = some d)
    (hcl : ∀ c, d = .cluster c → 2 ≤ c ∧ c < fatClusterInvalid.toNat)
    (hp : v.Resolves stack 0 0 p) (dir₀ : DirHandle) :
    v.Lists stack p dir₀ d ↔ v.ListsWell d := by
  rw [lists_iff_walks hcache hd hcl hp]
  cases hts : v.showing d with
  | nil =>
      have hnil : v.visible d = [] := by rw [visible_eq, hts]; rfl
      have hlast : v.lastPlace d = (v.openSector d, 0) := by rw [lastPlace, hts]; rfl
      rw [hnil, List.map_nil]
      constructor
      · rintro ⟨qs, hwalk, hqs⟩
        obtain rfl := List.map_eq_nil_iff.mp hqs.symm
        exact {
          readable := by simp [hnil]
          valid := by simp [hts]
          first := by simp [hts]
          links := by rw [hts]; exact List.isChain_nil
          quiet := by rw [hlast]; exact walks_nil.mp hwalk }
      · intro h
        exact ⟨[], walks_nil.mpr (hlast ▸ h.quiet), rfl⟩
  | cons t ss =>
      have h16 := sixteen_le_of_showing hd (by rw [hts]; exact List.cons_ne_nil t ss)
      have hmem : ∀ s, s ∈ t :: ss → s ∈ v.showing d := fun s hs => hts ▸ hs
      have hss : ∀ s ∈ t :: ss, s < 2 ^ 31 ∧ v.shownIn s ≠ [] := by
        intro s hs
        exact ⟨showing_lt (hmem s hs), by simpa using (List.mem_filter.mp (hmem s hs)).2⟩
      have hwalks := walks_showing h16 t hss
      have hvis : v.visible d = (t :: ss).flatMap v.shownIn := by rw [visible_eq, hts]
      rw [← hvis, ← lastPlace_cons hts] at hwalks
      obtain ⟨e, es, hes⟩ := List.exists_cons_of_ne_nil (hss t List.mem_cons_self).2
      have hhead : v.visible d = e :: (es ++ ss.flatMap v.shownIn) := by
        rw [hvis, List.flatMap_cons, hes]
        rfl
      have hsector : e.sector = t := (mem_shownIn (hes ▸ List.mem_cons_self)).1
      constructor
      · rintro ⟨qs, hwalk, hqs⟩
        obtain rfl := map_listing_eq hqs
        have hopen : UInt32.ofNat t = v.openSector d := by
          rw [hhead, List.map_cons] at hwalk
          rw [← sector_of_walks hwalk, place, hsector]
        rw [← hopen] at hwalk
        obtain ⟨hseen, hlinks, hquiet⟩ := hwalks.mp hwalk
        refine ⟨fun e' he' => ?_, fun s hs => ?_, fun s hs => ?_, hts ▸ hlinks, hquiet⟩
        · obtain ⟨s, hs, hshown⟩ := List.mem_flatMap.mp (hvis ▸ he')
          exact (hseen s hs e' hshown).1
        · obtain ⟨e', he'⟩ := List.exists_mem_of_ne_nil _ (hss s (hts ▸ hs)).2
          exact Nat.lt_of_not_le (mt (isPast_iff (showing_lt hs)).mpr
            (hseen s (hts ▸ hs) e' he').2)
        · rw [hts, List.head?_cons, Option.mem_some_iff] at hs
          rw [← hs, hopen]
      · intro h
        have hopen : UInt32.ofNat t = v.openSector d := h.first t (by rw [hts]; rfl)
        refine ⟨(v.visible d).map place, ?_, ?_⟩
        · rw [← hopen]
          refine hwalks.mpr ⟨fun s hs e' he' => ⟨?_, ?_⟩, hts ▸ h.links, h.quiet⟩
          · exact h.readable e' (hvis ▸ List.mem_flatMap.mpr ⟨s, hs, he'⟩)
          · exact mt (isPast_iff (showing_lt (hmem s hs))).mp
              (Nat.not_le_of_lt (h.valid s (hmem s hs)))
        · rw [List.map_map]
          exact List.map_congr_left fun e' he' => (listedAt_place he' (h.readable e' he')).symm

end Law

end Volume

/-! ### A small volume -/

/-- `/`. -/
def rootPath : AbsPath := ⟨[], true, fun _ => rfl⟩

theorem smallVolume_cached : smallVolume.Cached smallVolume.fat :=
  ⟨.refl _, fun h => absurd rfl h, fun _ _ => rfl⟩

/-- The directory `/a` and the file `/f` are listed. -/
theorem Volume.readdir_law_small : smallVolume.Lists clearStack rootPath ⟨0, 0⟩ .root :=
  (Volume.readdir_law smallVolume_cached rfl (fun _ h => by cases h) (Volume.resolves_root rfl)
    ⟨0, 0⟩).mpr
    ⟨by decide +kernel, by decide +kernel, by decide +kernel, by decide +kernel,
      by decide +kernel⟩

/-- The small volume with a file `/f` that is read-only. -/
def lockedVolume : Volume :=
  { smallVolume with
    disk := fun s i =>
      if s = 3 then (entryBytes 0x41 [] 0x10 2 ++ entryBytes 0x46 [] 0x21 0).getD i 0
      else smallVolume.disk s i }

/-- A read-only file is left out. -/
theorem Volume.readdir_law_locked : ¬ lockedVolume.Lists clearStack rootPath ⟨0, 0⟩ .root := by
  have hcache : lockedVolume.Cached lockedVolume.fat :=
    ⟨.refl _, fun h => absurd rfl h, fun _ _ => rfl⟩
  have hplaces : (lockedVolume.visible .root).map place = [(3, 0), (3, 1)] := by decide +kernel
  rw [Volume.lists_iff_walks hcache rfl (fun _ h => by cases h) (Volume.resolves_root rfl)]
  rintro ⟨qs, hwalk, hqs⟩
  rw [Volume.map_listing_eq hqs, hplaces] at hwalk
  obtain ⟨-, hrest⟩ := Volume.walks_cons.mp hwalk
  -- behind `/a` the code does not see `/f`
  exact absurd (Volume.walks_cons.mp hrest).1 (by decide +kernel)

end Csos
