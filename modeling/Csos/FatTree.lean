import Csos.Fat
import Csos.Lib.Walk
import Mathlib.Data.List.Range

/-!
# Directory trees on a FAT volume

What a path means on a volume, by the format alone: a directory is a list
of sectors, its entries stand in them in order up to the first free end,
and a path is walked from the root by the 8.3 names of its components.
`Volume` is a disk that `fat_fs_mount` accepts.
-/

namespace Csos

open Lib Lib.Bytes

/-! ## 8.3 names -/

/-- A character of an 8.3 name. -/
def IsNameChar (c : BitVec 8) : Prop := c ≠ 0 ∧ c ≠ 0x20 ∧ c ≠ 0x2E ∧ c ≠ 0x2F

instance (c : BitVec 8) : Decidable (IsNameChar c) :=
  inferInstanceAs (Decidable (c ≠ 0 ∧ c ≠ 0x20 ∧ c ≠ 0x2E ∧ c ≠ 0x2F))

structure Name83 where
  base : Chars
  ext : Chars
  base_ne_nil : base ≠ []
  base_length : base.length ≤ 8
  ext_length : ext.length ≤ 3
  base_chars : ∀ c ∈ base, IsNameChar c
  ext_chars : ∀ c ∈ ext, IsNameChar c

namespace Name83

/-- The name as it stands in a path. -/
def text (n : Name83) : Chars := if n.ext = [] then n.base else n.base ++ 0x2E :: n.ext

/-- The name as it stands in a directory: upper case, filled with blanks. -/
def entryName (n : Name83) : Vector (BitVec 8) 11 :=
  Vector.ofFn fun i =>
    if i.val < 8 then (n.base.map upperChar).getD i 0x20
    else (n.ext.map upperChar).getD (i - 8) 0x20

end Name83

/-- An absolute path: `/` alone, or names, with or without a slash behind. -/
structure AbsPath where
  names : List Name83
  slash : Bool
  ne_nil : names = [] → slash = true

/-- The names with their slashes. -/
def pathText (slash : Bool) : List Name83 → Chars
  | [] => if slash then [0x2F] else []
  | n :: names => 0x2F :: (n.text ++ pathText slash names)

def AbsPath.text (p : AbsPath) : Chars := pathText p.slash p.names

/-! ## Volumes -/

/-- A disk with a boot record that can be mounted; the cache of `fs_fat_t`
may be in any state. -/
structure Volume where
  br : BootRecord
  fat : FsFat
  disk : UInt32 → Bytes
  mounted : fatFsMount br fat.buf = some { fat with pcs := -1 }
  sector_size : br.bytesPerSector = 512
  spc_pos : 0 < br.sectorsPerCluster
  fat_pos : 0 < br.sectorsPerFat

/-- A directory: the region of the root, or a chain of clusters. -/
inductive DirLoc where
  | root
  | cluster (c : Nat)
deriving DecidableEq

/-- An entry of a directory, and its place. -/
structure DirEntry where
  sector : Nat
  index : Nat
  fdir : FatDir
deriving DecidableEq

/-- The type of an entry. Hidden and system entries are not shown. -/
def treeType (fdir : FatDir) : FatType :=
  if fdir.attr &&& 0x0E ≠ 0 then .unknown
  else if fdir.attr &&& 0x0F = 0x0F then .unknown
  else if fdir.attr &&& 0x10 ≠ 0 then .dir
  else .file

/-- The entry marks the end of the directory. -/
def DirEntry.isEnd (e : DirEntry) : Bool := nameFirst e.fdir.name = fdnEnd

/-- The entry is a file or a directory of that name. -/
def DirEntry.isNamed (n : Name83) (e : DirEntry) : Bool :=
  nameFirst e.fdir.name ≠ fdnFree ∧ e.fdir.name = n.entryName ∧ treeType e.fdir ≠ .unknown

/-- The entry is seen by `read_fat_ftype`: it is not read-only. -/
def DirEntry.isSeen (n : Name83) (e : DirEntry) : Bool := e.isNamed n ∧ e.fdir.attr &&& 1 = 0

/-- The first entry of a kind among the entries of a directory. -/
def lookAmong (p : DirEntry → Bool) (es : List DirEntry) : Option DirEntry :=
  (es.takeWhile fun e => !e.isEnd).find? p

/-! ### Looking names up -/

section LookAmong

variable {p q : DirEntry → Bool} {e : DirEntry} {es es' : List DirEntry}

theorem lookAmong_end (h : e.isEnd) : lookAmong p (e :: es) = none := by
  simp [lookAmong, h]

theorem lookAmong_hit (hend : ¬ e.isEnd) (h : p e) : lookAmong p (e :: es) = some e := by
  simp [lookAmong, hend, h]

theorem lookAmong_miss (hend : ¬ e.isEnd) (h : ¬ p e) :
    lookAmong p (e :: es) = lookAmong p es := by
  simp [lookAmong, hend, h]

/-- What is found stays found when more entries follow. -/
theorem lookAmong_append_some (h : lookAmong p es = some e) : lookAmong p (es ++ es') = some e := by
  induction es with
  | nil => cases h
  | cons x es ih =>
      rw [List.cons_append]
      by_cases hend : x.isEnd
      · rw [lookAmong_end hend] at h
        cases h
      by_cases hx : p x
      · rw [lookAmong_hit hend hx] at h ⊢
        exact h
      · rw [lookAmong_miss hend hx] at h ⊢
        exact ih h

/-- Nothing is found behind the end. -/
theorem lookAmong_append_none (h : lookAmong p es = none) :
    lookAmong p (es ++ es') = if es.any DirEntry.isEnd then none else lookAmong p es' := by
  induction es with
  | nil => rfl
  | cons x es ih =>
      rw [List.cons_append, List.any_cons]
      by_cases hend : x.isEnd
      · rw [lookAmong_end hend, hend, Bool.true_or, if_pos rfl]
      by_cases hx : p x
      · rw [lookAmong_hit hend hx] at h
        cases h
      · rw [lookAmong_miss hend hx] at h ⊢
        rw [ih h, Bool.eq_false_iff.mpr hend, Bool.false_or]

theorem lookAmong_some (h : lookAmong p es = some e) : e ∈ es ∧ p e := by
  refine ⟨?_, List.find?_some h⟩
  exact (List.takeWhile_sublist _).mem (List.mem_of_find?_eq_some h)

/-- A narrower kind finds the same entry when it is of that kind. -/
theorem lookAmong_narrow_some (hpq : ∀ x, q x → p x) (h : lookAmong p es = some e) (hq : q e) :
    lookAmong q es = some e := by
  induction es with
  | nil => cases h
  | cons x es ih =>
      by_cases hend : x.isEnd
      · rw [lookAmong_end hend] at h
        cases h
      by_cases hx : p x
      · rw [lookAmong_hit hend hx] at h
        obtain rfl := Option.some.inj h
        exact lookAmong_hit hend hq
      · rw [lookAmong_miss hend hx] at h
        rw [lookAmong_miss hend fun hq => hx (hpq x hq), ih h]

/-- A narrower kind finds nothing where nothing is found. -/
theorem lookAmong_narrow_none (hpq : ∀ x, q x → p x) (h : lookAmong p es = none) :
    lookAmong q es = none := by
  rw [lookAmong, List.find?_eq_none] at h ⊢
  exact fun x hx hq => h x hx (hpq x hq)

end LookAmong

namespace Volume

/-- The entry of a cluster in the FAT. -/
def fatEntry (v : Volume) (c : Nat) : Nat :=
  load16 (v.disk (UInt32.ofNat (v.fat.fatStart.toNat + 2 * c / 512))) (2 * c % 512)

/-- The chain that begins with a cluster, at most `n` clusters long. -/
def chain (v : Volume) : Nat → Nat → List Nat
  | 0, _ => []
  | n + 1, c => if 2 ≤ c ∧ c < 0xFFF8 then c :: v.chain n (v.fatEntry c) else []

def clusterSectors (v : Volume) (c : Nat) : List Nat :=
  List.range' (v.fat.dataStart.toNat + (c - 2) * v.fat.spc.toNat) v.fat.spc.toNat

/-- The sectors of a directory, in order. -/
def sectors (v : Volume) : DirLoc → List Nat
  | .root => List.range' v.fat.rootStart.toNat (v.fat.rootTotal.toNat / 16)
  | .cluster c => (v.chain 0x10000 c).flatMap v.clusterSectors

def entriesIn (v : Volume) (s : Nat) : List DirEntry :=
  (List.range 16).map fun i => ⟨s, i, dirAt (v.disk (UInt32.ofNat s)) (32 * i)⟩

def lookIn (v : Volume) (p : DirEntry → Bool) (ss : List Nat) : Option DirEntry :=
  lookAmong p (ss.flatMap v.entriesIn)

def endsIn (v : Volume) (ss : List Nat) : Bool := (ss.flatMap v.entriesIn).any DirEntry.isEnd

def find (v : Volume) (d : DirLoc) (n : Name83) : Option DirEntry :=
  v.lookIn (DirEntry.isNamed n) (v.sectors d)

/-- The directory that an entry stands for. -/
def enter (e : DirEntry) : Option DirLoc :=
  if treeType e.fdir = .dir then some (.cluster e.fdir.cluster) else none

/-- The entry that a path names. -/
def resolve (v : Volume) (names : List Name83) : Option DirEntry := walk v.find enter .root names

/-! ### Geometry -/

section Geometry

variable (v : Volume)

/-- What `fat_fs_mount` takes from the boot record. -/
structure Geometry (br : BootRecord) (fat : FsFat) : Prop where
  bps : fat.bps = br.bytesPerSector.toUInt32
  spc : fat.spc = br.sectorsPerCluster.toUInt32
  rootTotal : fat.rootTotal = br.maxRde.toUInt32
  rootStart : fat.rootStart = br.reservedSectors.toUInt32 + br.sectorsPerFat.toUInt32 * 2
  dataStart : fat.dataStart = fat.rootStart + fat.rootTotal * 32 / 512

theorem geometry : Geometry v.br v.fat := by
  have h := v.mounted
  unfold fatFsMount at h
  dsimp only at h
  split at h
  · cases h
  · next hok =>
      have htotal : v.br.nocFats.toUInt32 = 2 := by
        by_contra hne
        exact hok (Or.inl hne)
      have he := Option.some.inj h
      generalize hf : { v.fat with pcs := -1 } = fat at he
      subst he
      exact {
        bps := congrArg FsFat.bps hf
        spc := congrArg FsFat.spc hf
        rootTotal := congrArg FsFat.rootTotal hf
        rootStart := by
          have hroot := congrArg FsFat.rootStart hf
          rwa [htotal] at hroot
        dataStart := by
          have hroot := congrArg FsFat.rootStart hf
          have htot := congrArg FsFat.rootTotal hf
          have hdata := congrArg FsFat.dataStart hf
          dsimp only at hroot htot hdata
          rw [hdata, hroot, htot] }

theorem bps_eq : v.fat.bps = 512 := by
  rw [v.geometry.bps, v.sector_size]
  rfl

theorem spc_lt : v.fat.spc.toNat < 256 := by
  rw [v.geometry.spc]
  simpa using v.br.sectorsPerCluster.toNat_lt

theorem spc_ne_zero : 0 < v.fat.spc.toNat := by
  rw [v.geometry.spc]
  simpa using UInt8.lt_iff_toNat_lt.mp v.spc_pos

theorem dcount_eq : v.fat.dcount = 16 * v.fat.spc.toNat := by
  have h := v.spc_lt
  have h512 : (512 : UInt32).toNat = 512 := rfl
  have h32 : (32 : UInt32).toNat = 32 := rfl
  rw [FsFat.dcount, v.bps_eq, UInt32.toNat_div, UInt32.toNat_mul, h512, h32,
    Nat.mod_eq_of_lt (by omega)]
  omega

theorem rootStart_lt : v.fat.rootStart.toNat < 196606 := by
  have h1 := v.br.reservedSectors.toNat_lt
  have h2 := v.br.sectorsPerFat.toNat_lt
  have htwo : (2 : UInt32).toNat = 2 := rfl
  rw [v.geometry.rootStart, UInt32.toNat_add, UInt32.toNat_mul, htwo, UInt16.toNat_toUInt32,
    UInt16.toNat_toUInt32]
  omega

theorem two_le_rootStart : 2 ≤ v.fat.rootStart.toNat := by
  have h0 := UInt16.lt_iff_toNat_lt.mp v.fat_pos
  have h1 := v.br.reservedSectors.toNat_lt
  have h2 := v.br.sectorsPerFat.toNat_lt
  have hzero : (0 : UInt16).toNat = 0 := rfl
  have htwo : (2 : UInt32).toNat = 2 := rfl
  rw [v.geometry.rootStart, UInt32.toNat_add, UInt32.toNat_mul, htwo, UInt16.toNat_toUInt32,
    UInt16.toNat_toUInt32]
  omega

/-- The region of the root stands before the clusters. -/
theorem dataStart_eq :
    v.fat.dataStart.toNat = v.fat.rootStart.toNat + v.fat.rootTotal.toNat / 16 := by
  have h := v.rootStart_lt
  have ht := v.br.maxRde.toNat_lt
  have h512 : (512 : UInt32).toNat = 512 := rfl
  have h32 : (32 : UInt32).toNat = 32 := rfl
  rw [v.geometry.dataStart, UInt32.toNat_add, UInt32.toNat_div, UInt32.toNat_mul,
    v.geometry.rootTotal, UInt16.toNat_toUInt32, h32, h512]
  omega

theorem dataStart_lt : v.fat.dataStart.toNat < 200702 := by
  have h := v.rootStart_lt
  have ht := v.br.maxRde.toNat_lt
  rw [v.dataStart_eq, v.geometry.rootTotal, UInt16.toNat_toUInt32]
  omega

end Geometry

/-! ### Sectors -/

section Sectors

variable {v : Volume} {p q : DirEntry → Bool} {e : DirEntry} {ss ss' : List Nat}

theorem lookIn_append_some (h : v.lookIn p ss = some e) : v.lookIn p (ss ++ ss') = some e := by
  rw [lookIn, List.flatMap_append]
  exact lookAmong_append_some h

theorem lookIn_append_none (h : v.lookIn p ss = none) :
    v.lookIn p (ss ++ ss') = if v.endsIn ss then none else v.lookIn p ss' := by
  rw [lookIn, List.flatMap_append]
  exact lookAmong_append_none h

theorem endsIn_append : v.endsIn (ss ++ ss') = (v.endsIn ss || v.endsIn ss') := by
  rw [endsIn, List.flatMap_append, List.any_append]
  rfl

theorem lookIn_narrow_some (hpq : ∀ x, q x → p x) (h : v.lookIn p ss = some e) (hq : q e) :
    v.lookIn q ss = some e := lookAmong_narrow_some hpq h hq

theorem lookIn_narrow_none (hpq : ∀ x, q x → p x) (h : v.lookIn p ss = none) :
    v.lookIn q ss = none := lookAmong_narrow_none hpq h

/-- An entry stands in the sectors where it is looked up. -/
theorem lookIn_some (h : v.lookIn p ss = some e) : e.sector ∈ ss ∧ p e := by
  obtain ⟨hmem, hp⟩ := lookAmong_some h
  obtain ⟨s, hs, he⟩ := List.mem_flatMap.mp hmem
  obtain ⟨i, -, rfl⟩ := List.mem_map.mp he
  exact ⟨hs, hp⟩

end Sectors

end Volume

end Csos
