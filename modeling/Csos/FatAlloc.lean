import Csos.Fat

/-!
# Taking and freeing clusters

`fat_alloc_cluster` and `fat_free_cluster` on a disk that can be written.
Both read the FAT by the sector into a buffer of 256 entries.

The scan of `fat_alloc_cluster` for a free entry has no end: it looks at the
first sector only, and runs out of the buffer when that is full.
`fat_free_cluster` does not follow the links of a chain: it clears the
entries that stand one behind the other up to the first end of a chain, and
only writes the last sector back.
-/

namespace Csos

open Lib Lib.Bytes

/-! ## The disk -/

/-- What the sectors hold, and whether the device answers. -/
structure Disk where
  sectors : UInt32 → Bytes
  up : Bool

namespace Disk

/-- `device_read` of one sector. -/
def read (disk : Disk) (sector : UInt32) : Option Bytes :=
  if disk.up then some (disk.sectors sector) else none

/-- The disk with the first bytes of `buf` in a sector. -/
def put (disk : Disk) (sector : UInt32) (buf : Bytes) : Disk :=
  { disk with
    sectors := fun s =>
      if s = sector then copy (disk.sectors s) 0 buf diskSectorSize else disk.sectors s }

/-- `device_write` of one sector. -/
def write (disk : Disk) (sector : UInt32) (buf : Bytes) : Option Disk :=
  if disk.up then some (disk.put sector buf) else none

theorem read_of_up {disk : Disk} (h : disk.up = true) (sector : UInt32) :
    disk.read sector = some (disk.sectors sector) := if_pos h

theorem write_of_up {disk : Disk} (h : disk.up = true) (sector : UInt32) (buf : Bytes) :
    disk.write sector buf = some (disk.put sector buf) := if_pos h

theorem read_of_down {disk : Disk} (h : disk.up = false) (sector : UInt32) :
    disk.read sector = none := by
  rw [read, h]
  rfl

theorem put_sectors_of_ne (disk : Disk) {s sector : UInt32} (buf : Bytes) (h : s ≠ sector) :
    (disk.put sector buf).sectors s = disk.sectors s := if_neg h

theorem put_sectors_self (disk : Disk) (sector : UInt32) (buf : Bytes) {b : Nat} (h : b < 512) :
    (disk.put sector buf).sectors sector b = buf b := by
  simp only [put, if_true]
  rw [copy_inside (Nat.zero_le b) (by rw [diskSectorSize]; omega), Nat.sub_zero]

end Disk

/-- How a call on the FAT ends. -/
inductive FatEnd (R : Type) where
  | returned (r : R) (disk : Disk)
  | fault

/-! ## Taking a cluster -/

/-- `while (*pcc != 0)`, from the entry `i` of `buf` on: the free entry.
`none` is a read behind the entries of `buf`, of which `left` are ahead. -/
def scanUsed (buf : Bytes) : Nat → Nat → Option Nat
  | 0, _ => none
  | left + 1, i => if load16 buf (2 * i) ≠ 0 then scanUsed buf left (i + 1) else some i

/-- The loop of `fat_alloc_cluster`, with `left` sectors of the FAT ahead. -/
def fatAllocClusterLoop (fat : FsFat) (append : Bool) (disk : Disk) :
    Nat → Nat → Nat → FatEnd UInt32
  | 0, _, _ => .returned fatClusterInvalid disk
  | left + 1, index, offset =>
      let sector := fat.fatStart + UInt32.ofNat index
      match disk.read sector with
      | none => .returned fatClusterInvalid disk
      | some buf =>
          match scanUsed buf 256 0 with
          | none => .fault
          | some i =>
              let offset := offset + i
              if load16 buf (2 * i) = 0 then
                -- `*(pcc - 1)` stands before `buf` when the first entry is free
                if append ∧ i = 0 then .fault
                else
                  let buf := if append then store16 buf (2 * (i - 1)) offset else buf
                  let buf := store16 buf (2 * i) 0xFFFF
                  match disk.write sector buf with
                  | none => .returned fatClusterInvalid disk
                  | some disk =>
                      .returned (UInt32.ofNat (if append then offset - 1 else offset)) disk
              else fatAllocClusterLoop fat append disk left (index + 1) offset

/-- `fat_alloc_cluster`. -/
def fatAllocCluster (fat : FsFat) (append : Bool) (disk : Disk) : FatEnd UInt32 :=
  fatAllocClusterLoop fat append disk fat.fatSectors.toNat 0 0

/-! ## Freeing a chain -/

/-- The `for` of `fat_free_cluster` from the entry `i` on, with `left`
entries ahead: `buf` and `finish`. `none` is an entry behind `buf`. -/
def clearEntries : Nat → Nat → Bytes → Option (Bytes × Bool)
  | 0, _, buf => some (buf, false)
  | left + 1, i, buf =>
      if 256 ≤ i then none
      else if load16 buf (2 * i) = 0xFFFF then some (store16 buf (2 * i) 0, true)
      else clearEntries left (i + 1) (store16 buf (2 * i) 0)

/-- The loop of `fat_free_cluster`, with `left` sectors of the FAT ahead. -/
def fatFreeClusterLoop (fat : FsFat) (cps : Nat) (disk : Disk) : Nat → Nat → Nat → FatEnd Bool
  | 0, _, _ => .returned false disk
  | left + 1, index, offset =>
      let sector := fat.fatStart + UInt32.ofNat index
      match disk.read sector with
      | none => .returned false disk
      | some buf =>
          match clearEntries (cps - offset) offset buf with
          | none => .fault
          | some (buf, finish) =>
              if finish then
                match disk.write sector buf with
                | none => .returned false disk
                | some disk => .returned true disk
              else fatFreeClusterLoop fat cps disk left (index + 1) 0

/-- `fat_free_cluster`; `fault` is also the division by `cps`. -/
def fatFreeCluster (fat : FsFat) (disk : Disk) (cluster : UInt32) : FatEnd Bool :=
  let cps := fat.bps.toNat / 2
  if cps = 0 then .fault
  else
    let index := cluster.toNat / cps
    let offset := cluster.toNat % cps
    fatFreeClusterLoop fat cps disk (fat.fatSectors.toNat - index) index offset

/-! ## The entries of the FAT -/

/-- The sector of the FAT with the entry `c`. -/
def fatSector (fat : FsFat) (c : Nat) : UInt32 := fat.fatStart + UInt32.ofNat (c / 256)

/-- The entry `c` of the FAT. -/
def fatEntry (fat : FsFat) (disk : Disk) (c : Nat) : Nat :=
  load16 (disk.sectors (fatSector fat c)) (2 * (c % 256))

/-- The number of entries. -/
def FsFat.entries (fat : FsFat) : Nat := 256 * fat.fatSectors.toNat

section Entries

variable {fat : FsFat} {disk : Disk}

/-- The sectors of the FAT are different sectors of the disk. -/
theorem fatStart_add_inj {start : UInt32} {i j : Nat} (hi : i < 2 ^ 32) (hj : j < 2 ^ 32)
    (h : start + UInt32.ofNat i = start + UInt32.ofNat j) : i = j := by
  have h' : UInt32.ofNat i = UInt32.ofNat j := by
    have := congrArg (fun s => s - start) h
    simpa using this
  have ht := congrArg UInt32.toNat h'
  rw [UInt32.toNat_ofNat_of_lt' hi, UInt32.toNat_ofNat_of_lt' hj] at ht
  exact ht

theorem entry_index_lt {c : Nat} (hc : c < fat.entries) : c / 256 < fat.fatSectors.toNat := by
  rw [FsFat.entries] at hc
  omega

/-- What the entries are when a sector of the FAT has been written. -/
theorem fatEntry_put {index c : Nat} (buf : Bytes) (hi : index < fat.fatSectors.toNat)
    (hc : c < fat.entries) :
    fatEntry fat (disk.put (fat.fatStart + UInt32.ofNat index) buf) c
      = if c / 256 = index then load16 buf (2 * (c % 256)) else fatEntry fat disk c := by
  have hlt := fat.fatSectors.toNat_lt
  have hcs := entry_index_lt hc
  by_cases h : c / 256 = index
  · rw [if_pos h, fatEntry, fatSector, h]
    exact load16_congr (disk.put_sectors_self _ buf (by omega))
      (disk.put_sectors_self _ buf (by omega))
  · rw [if_neg h, fatEntry, fatEntry, disk.put_sectors_of_ne]
    intro hs
    exact h (fatStart_add_inj (by omega) (by omega) hs)

end Entries

/-- A volume with two sectors of FAT, behind one reserved sector. -/
def smallFat : FsFat where
  fatStart := 1
  fatTotal := 2
  fatSectors := 2
  rootStart := 5
  rootTotal := 16
  dataStart := 6
  bps := 512
  spc := 1
  buf := fun _ => 0
  pcs := 0

/-- A disk with the entries `f` in its FAT. -/
def diskOf (f : Nat → Nat) : Disk where
  sectors := fun s b => BitVec.ofNat 8 (f (256 * (s.toNat - 1) + b / 2) / 256 ^ (b % 2))
  up := true

theorem fatEntry_diskOf {f : Nat → Nat} {c : Nat} (hc : c < smallFat.entries)
    (hf : f c < 2 ^ 16) : fatEntry smallFat (diskOf f) c = f c := by
  have hc' : c < 512 := hc
  have hsec : (fatSector smallFat c).toNat - 1 = c / 256 := by
    have h32 : c / 256 < 2 ^ 32 := by omega
    have hone : smallFat.fatStart.toNat = 1 := rfl
    rw [fatSector, UInt32.toNat_add, UInt32.toNat_ofNat_of_lt' h32, hone]
    omega
  have h₀ : 256 * (c / 256) + 2 * (c % 256) / 2 = c := by omega
  have h₁ : 256 * (c / 256) + (2 * (c % 256) + 1) / 2 = c := by omega
  have hm₀ : 2 * (c % 256) % 2 = 0 := by omega
  have hm₁ : (2 * (c % 256) + 1) % 2 = 1 := by omega
  simp only [fatEntry, load16, diskOf, hsec, h₀, h₁, hm₀, hm₁, BitVec.toNat_ofNat]
  omega

/-! ## The first free entry -/

/-- `n` is the first free entry of the FAT. -/
structure FirstFree (fat : FsFat) (disk : Disk) (n : Nat) : Prop where
  lt : n < fat.entries
  free : fatEntry fat disk n = 0
  used : ∀ j < n, fatEntry fat disk j ≠ 0

/-- `disk'` is `disk` with `v` in the entry `n`. -/
structure EntrySet (fat : FsFat) (disk disk' : Disk) (n v : Nat) : Prop where
  entry : fatEntry fat disk' n = v
  sector : ∀ s, s ≠ fatSector fat n → disk'.sectors s = disk.sectors s
  byte : ∀ b < 512, b ≠ 2 * (n % 256) → b ≠ 2 * (n % 256) + 1 →
    disk'.sectors (fatSector fat n) b = disk.sectors (fatSector fat n) b

/-- What `fat_alloc_cluster` comes to: the first free entry is taken, or
the disk is full; the buffer is not left. -/
def AllocLaw (fat : FsFat) (disk : Disk) : FatEnd UInt32 → Prop
  | .returned c disk' =>
      (∃ n, FirstFree fat disk n ∧ c.toNat = n ∧ EntrySet fat disk disk' n 0xFFFF)
        ∨ (∀ n < fat.entries, fatEntry fat disk n ≠ 0) ∧ fatClusterInvalid ≤ c ∧ disk' = disk
  | .fault => False

/-- When it does: there is nothing to look at, or the first sector has a
free entry, or the device is down and there is no free entry to miss. -/
def AllocMeets (fat : FsFat) (disk : Disk) : Prop :=
  fat.fatSectors = 0
    ∨ disk.up = true ∧ (∃ n < 256, fatEntry fat disk n = 0)
    ∨ disk.up = false ∧ ∀ n < fat.entries, fatEntry fat disk n ≠ 0

theorem scanUsed_cases (buf : Bytes) (left i : Nat) :
    (∃ k, scanUsed buf left i = some k ∧ i ≤ k ∧ k < i + left ∧ load16 buf (2 * k) = 0
        ∧ ∀ j, i ≤ j → j < k → load16 buf (2 * j) ≠ 0)
      ∨ scanUsed buf left i = none ∧ ∀ j, i ≤ j → j < i + left → load16 buf (2 * j) ≠ 0 := by
  induction left generalizing i with
  | zero => exact .inr ⟨rfl, fun j h h' => by omega⟩
  | succ left ih =>
      by_cases hi : load16 buf (2 * i) = 0
      · exact .inl ⟨i, by rw [scanUsed, if_neg (not_not_intro hi)], le_refl i, by omega, hi,
          fun j h h' => by omega⟩
      · rw [scanUsed, if_pos hi]
        -- the entry behind is where the scan goes on
        have hstep : ∀ j, i ≤ j → (i + 1 ≤ j → load16 buf (2 * j) ≠ 0) →
            load16 buf (2 * j) ≠ 0 := by
          intro j hj h
          rcases Nat.eq_or_lt_of_le hj with rfl | hlt
          · exact hi
          · exact h hlt
        rcases ih (i + 1) with ⟨k, hk, hle, hlt, hz, hall⟩ | ⟨hn, hall⟩
        · exact .inl ⟨k, hk, by omega, by omega, hz,
            fun j h h' => hstep j h fun h₁ => hall j h₁ h'⟩
        · exact .inr ⟨hn, fun j h h' => hstep j h fun h₁ => hall j h₁ (by omega)⟩

section Alloc

variable {fat : FsFat} {disk : Disk}

theorem fatEntry_first_sector {j : Nat} (hj : j < 256) :
    fatEntry fat disk j = load16 (disk.sectors (fat.fatStart + UInt32.ofNat 0)) (2 * j) := by
  rw [fatEntry, fatSector, Nat.div_eq_of_lt hj, Nat.mod_eq_of_lt hj]

theorem fatAllocCluster_no_sectors (append : Bool) (h : fat.fatSectors = 0) :
    fatAllocCluster fat append disk = .returned fatClusterInvalid disk := by
  rw [fatAllocCluster, h]
  rfl

theorem fatAllocCluster_down (append : Bool) (h : disk.up = false) :
    fatAllocCluster fat append disk = .returned fatClusterInvalid disk := by
  rw [fatAllocCluster]
  cases fat.fatSectors.toNat with
  | zero => rfl
  | succ left => rw [fatAllocClusterLoop, Disk.read_of_down h]

/-- A full first sector: the scan leaves the buffer. -/
theorem fatAllocCluster_full (append : Bool) (h0 : fat.fatSectors ≠ 0) (h : disk.up = true)
    (hfull : ∀ n < 256, fatEntry fat disk n ≠ 0) : fatAllocCluster fat append disk = .fault := by
  rw [fatAllocCluster]
  cases hs : fat.fatSectors.toNat with
  | zero => exact absurd (UInt32.toNat_inj.mp hs) h0
  | succ left =>
      rcases scanUsed_cases (disk.sectors (fat.fatStart + UInt32.ofNat 0)) 256 0 with
        ⟨k, -, -, hlt, hz, -⟩ | ⟨hn, -⟩
      · exact absurd ((fatEntry_first_sector (by omega)).trans hz) (hfull k (by omega))
      · simp only [fatAllocClusterLoop, Disk.read_of_up h, hn]

/-- A free entry in the first sector. -/
theorem fatAllocCluster_free (h0 : fat.fatSectors ≠ 0) (h : disk.up = true)
    (hfree : ∃ n < 256, fatEntry fat disk n = 0) :
    ∃ n, n < 256 ∧ FirstFree fat disk n
      ∧ fatAllocCluster fat false disk = .returned (UInt32.ofNat n)
          (disk.put (fatSector fat n) (store16 (disk.sectors (fatSector fat n)) (2 * n) 0xFFFF)) := by
  have hpos : 0 < fat.fatSectors.toNat := by
    rw [Nat.pos_iff_ne_zero]
    intro hz
    exact h0 (UInt32.toNat_inj.mp hz)
  rcases scanUsed_cases (disk.sectors (fat.fatStart + UInt32.ofNat 0)) 256 0 with
    ⟨k, hk, -, hlt, hz, hall⟩ | ⟨-, hall⟩
  · refine ⟨k, by omega, ⟨by rw [FsFat.entries]; omega, ?_, ?_⟩, ?_⟩
    · rw [fatEntry_first_sector (by omega), hz]
    · intro j hj
      rw [fatEntry_first_sector (by omega)]
      exact hall j (Nat.zero_le j) hj
    · obtain ⟨left, hleft⟩ := Nat.exists_eq_succ_of_ne_zero (Nat.pos_iff_ne_zero.mp hpos)
      have hsec : fatSector fat k = fat.fatStart + UInt32.ofNat 0 := by
        rw [fatSector, Nat.div_eq_of_lt (by omega)]
      rw [fatAllocCluster, hleft, hsec, fatAllocClusterLoop]
      simp only [Disk.read_of_up h, hk, hz, Disk.write_of_up h]
      simp
  · obtain ⟨n, hn, hz⟩ := hfree
    rw [fatEntry_first_sector hn] at hz
    exact absurd hz (hall n (Nat.zero_le n) (by omega))

theorem entrySet_put {n v : Nat} (hn : n < fat.entries) (hv : v < 2 ^ 16) :
    EntrySet fat disk (disk.put (fatSector fat n)
      (store16 (disk.sectors (fatSector fat n)) (2 * (n % 256)) v)) n v where
  entry := by
    rw [fatSector, fatEntry_put _ (entry_index_lt hn) hn, if_pos rfl, load16_store16_self hv]
  sector := fun s hs => disk.put_sectors_of_ne _ hs
  byte := by
    intro b hb h₀ h₁
    rw [disk.put_sectors_self _ _ hb, store16_outside (by omega)]

/-- `fat_alloc_cluster(fat, FALSE)` finds the first free entry exactly when
it is in the first sector. -/
theorem fatAllocCluster_law (fat : FsFat) (disk : Disk) :
    AllocLaw fat disk (fatAllocCluster fat false disk) ↔ AllocMeets fat disk := by
  by_cases h0 : fat.fatSectors = 0
  · have hnone : ∀ n < fat.entries, fatEntry fat disk n ≠ 0 := by
      intro n hn
      rw [FsFat.entries, h0] at hn
      exact absurd hn (Nat.not_lt_zero n)
    rw [fatAllocCluster_no_sectors false h0]
    exact ⟨fun _ => .inl h0, fun _ => .inr ⟨hnone, UInt32.le_refl _, rfl⟩⟩
  cases hup : disk.up with
  | false =>
      rw [fatAllocCluster_down false hup]
      constructor
      · rintro (⟨n, hfirst, -, hset⟩ | ⟨hnone, -, -⟩)
        · have := hset.entry
          rw [hfirst.free] at this
          cases this
        · exact .inr (.inr ⟨hup, hnone⟩)
      · rintro (h | ⟨h, -⟩ | ⟨-, hnone⟩)
        · exact absurd h h0
        · rw [hup] at h
          cases h
        · exact .inr ⟨hnone, UInt32.le_refl _, rfl⟩
  | true =>
      by_cases hfree : ∃ n < 256, fatEntry fat disk n = 0
      · obtain ⟨n, hn, hfirst, heq⟩ := fatAllocCluster_free h0 hup hfree
        rw [heq]
        refine ⟨fun _ => .inr (.inl ⟨hup, hfree⟩), fun _ => .inl ⟨n, hfirst, ?_, ?_⟩⟩
        · have h32 : n < 2 ^ 32 := by omega
          exact UInt32.toNat_ofNat_of_lt' h32
        · have hset : EntrySet fat disk _ n 0xFFFF := entrySet_put hfirst.lt (by omega)
          rwa [Nat.mod_eq_of_lt hn] at hset
      · have hfull : ∀ n < 256, fatEntry fat disk n ≠ 0 := by
          intro n hn hz
          exact hfree ⟨n, hn, hz⟩
        rw [fatAllocCluster_full false h0 hup hfull]
        refine ⟨False.elim, ?_⟩
        rintro (h | ⟨-, h⟩ | ⟨h, -⟩)
        · exact h0 h
        · exact hfree h
        · rw [hup] at h
          cases h

/-- With a full first sector and a free entry behind it, the scan leaves
the buffer. -/
theorem fatAllocCluster_second_sector :
    ¬ AllocLaw smallFat (diskOf fun c => if c < 256 then 0xFFFF else 0)
      (fatAllocCluster smallFat false (diskOf fun c => if c < 256 then 0xFFFF else 0)) := by
  rw [fatAllocCluster_full false (by decide) rfl]
  · exact id
  · intro n hn
    rw [fatEntry_diskOf]
    · simp only [hn, if_true]
      omega
    · exact Nat.lt_trans hn (by decide)
    · simp only [hn, if_true]
      omega

end Alloc

/-! ## Freeing a chain of clusters -/

/-- A chain of clusters, in order; the last one has the end mark. -/
def IsChain (fat : FsFat) (disk : Disk) : List Nat → Prop
  | [] => False
  | [c] => 2 ≤ c ∧ c < 0xFFF8 ∧ c < fat.entries ∧ fatEntry fat disk c = 0xFFFF
  | c :: c' :: cs =>
      2 ≤ c ∧ c < 0xFFF8 ∧ c < fat.entries ∧ fatEntry fat disk c = c' ∧ IsChain fat disk (c' :: cs)

/-- What `fat_free_cluster` comes to: the entries of the chain are free,
and no other entry is touched. -/
def FreeLaw (fat : FsFat) (disk : Disk) (cs : List Nat) : FatEnd Bool → Prop
  | .returned ok disk' =>
      ok = true ∧ ∀ c < fat.entries,
        fatEntry fat disk' c = if c ∈ cs then 0 else fatEntry fat disk c
  | .fault => False

/-- When it does: the chain goes from its head to its last cluster within
one sector of the FAT, and no other entry in use stands between them. -/
structure FreeMeets (fat : FsFat) (disk : Disk) (c : Nat) (cs : List Nat) : Prop where
  up : disk.up = true
  sector : ∀ d ∈ c :: cs, d / 256 = c / 256
  between : ∀ d ∈ c :: cs, c ≤ d ∧ d ≤ (c :: cs).getLast (List.cons_ne_nil c cs)
  others : ∀ d, c ≤ d → d ≤ (c :: cs).getLast (List.cons_ne_nil c cs) → d ∉ c :: cs →
    fatEntry fat disk d = 0

section Chain

variable {fat : FsFat} {disk : Disk} {c d : Nat} {cs : List Nat}

theorem IsChain.head (h : IsChain fat disk (c :: cs)) :
    2 ≤ c ∧ c < 0xFFF8 ∧ c < fat.entries := by
  cases cs with
  | nil => exact ⟨h.1, h.2.1, h.2.2.1⟩
  | cons c' cs => exact ⟨h.1, h.2.1, h.2.2.1⟩

theorem IsChain.tail {c' : Nat} (h : IsChain fat disk (c :: c' :: cs)) :
    IsChain fat disk (c' :: cs) := h.2.2.2.2

theorem IsChain.mem (h : IsChain fat disk cs) (hd : d ∈ cs) :
    2 ≤ d ∧ d < 0xFFF8 ∧ d < fat.entries := by
  induction cs with
  | nil => cases hd
  | cons c cs ih =>
      rcases List.mem_cons.mp hd with rfl | hd
      · exact h.head
      · cases cs with
        | nil => cases hd
        | cons c' cs => exact ih h.tail hd

/-- The end mark stands in the entry of the last cluster, and nowhere else
in the chain. -/
theorem IsChain.end_iff (h : IsChain fat disk (c :: cs)) (hd : d ∈ c :: cs) :
    fatEntry fat disk d = 0xFFFF ↔ d = (c :: cs).getLast (List.cons_ne_nil c cs) := by
  induction cs generalizing c with
  | nil =>
      obtain rfl := List.mem_singleton.mp hd
      exact ⟨fun _ => rfl, fun _ => h.2.2.2⟩
  | cons c' cs ih =>
      have hlast : (c :: c' :: cs).getLast (List.cons_ne_nil _ _)
          = (c' :: cs).getLast (List.cons_ne_nil _ _) := List.getLast_cons _
      rw [hlast]
      by_cases hmem : d ∈ c' :: cs
      · exact ih h.tail hmem
      · obtain rfl := (List.mem_cons.mp hd).resolve_right hmem
        have hlink : fatEntry fat disk d = c' := h.2.2.2.1
        have hc' := h.tail.head
        constructor
        · intro he
          omega
        · intro he
          exact absurd (he ▸ List.getLast_mem _) hmem

/-- An entry of a chain is in use. -/
theorem IsChain.ne_zero (h : IsChain fat disk (c :: cs)) (hd : d ∈ c :: cs) :
    fatEntry fat disk d ≠ 0 := by
  induction cs generalizing c with
  | nil =>
      obtain rfl := List.mem_singleton.mp hd
      rw [h.2.2.2]
      omega
  | cons c' cs ih =>
      rcases List.mem_cons.mp hd with rfl | hd
      · have hc' := h.tail.head
        rw [h.2.2.2.1]
        omega
      · exact ih h.tail hd

end Chain

/-! ### What is cleared -/

/-- The scan clears up to the first end mark, or to the end of the sector. -/
theorem clearEntries_cases (left i : Nat) (buf : Bytes) (hle : i + left ≤ 256) :
    (∃ k buf', clearEntries left i buf = some (buf', true) ∧ i ≤ k ∧ k < i + left
        ∧ load16 buf (2 * k) = 0xFFFF ∧ (∀ j, i ≤ j → j < k → load16 buf (2 * j) ≠ 0xFFFF)
        ∧ ∀ j, load16 buf' (2 * j) = if i ≤ j ∧ j ≤ k then 0 else load16 buf (2 * j))
      ∨ ∃ buf', clearEntries left i buf = some (buf', false)
        ∧ ∀ j, i ≤ j → j < i + left → load16 buf (2 * j) ≠ 0xFFFF := by
  induction left generalizing i buf with
  | zero => exact .inr ⟨buf, rfl, fun j h h' => by omega⟩
  | succ left ih =>
      have hcleared : ∀ j, load16 (store16 buf (2 * i) 0) (2 * j)
          = if j = i then 0 else load16 buf (2 * j) := by
        intro j
        by_cases hj : j = i
        · rw [if_pos hj, hj, load16_store16_self (by omega)]
        · rw [if_neg hj]
          exact load16_congr (store16_outside (by omega)) (store16_outside (by omega))
      by_cases hi : load16 buf (2 * i) = 0xFFFF
      · refine .inl ⟨i, store16 buf (2 * i) 0, ?_, le_refl i, by omega, hi,
          fun j h h' => by omega, fun j => ?_⟩
        · rw [clearEntries, if_neg (by omega), if_pos hi]
        · rw [hcleared]
          exact if_congr (by omega) rfl rfl
      · rw [clearEntries, if_neg (by omega), if_neg hi]
        -- behind the entry `i` the scan sees what stood there
        have hsame : ∀ j, i + 1 ≤ j → load16 (store16 buf (2 * i) 0) (2 * j)
            = load16 buf (2 * j) := by
          intro j hj
          rw [hcleared, if_neg (by omega)]
        have hstep : ∀ j, i ≤ j → (i + 1 ≤ j → load16 buf (2 * j) ≠ 0xFFFF) →
            load16 buf (2 * j) ≠ 0xFFFF := by
          intro j hj h
          rcases Nat.eq_or_lt_of_le hj with rfl | hlt
          · exact hi
          · exact h hlt
        rcases ih (i + 1) (store16 buf (2 * i) 0) (by omega) with
          ⟨k, buf', hk, hle', hlt, hend, hall, hload⟩ | ⟨buf', hn, hall⟩
        · rw [hsame k hle'] at hend
          refine .inl ⟨k, buf', hk, by omega, by omega, hend, fun j h h' => hstep j h fun h₁ => ?_,
            fun j => ?_⟩
          · rw [← hsame j h₁]
            exact hall j h₁ h'
          · rw [hload, hcleared]
            by_cases hj : j = i
            · rw [if_neg (by omega), if_pos hj, if_pos (by omega)]
            · rw [if_neg hj]
              exact if_congr (by omega) rfl rfl
        · refine .inr ⟨buf', hn, fun j h h' => hstep j h fun h₁ => ?_⟩
          rw [← hsame j h₁]
          exact hall j h₁ (by omega)

/-- The first end mark from the entry `c` on. -/
structure FirstEnd (fat : FsFat) (disk : Disk) (c p : Nat) : Prop where
  le : c ≤ p
  lt : p < fat.entries
  mark : fatEntry fat disk p = 0xFFFF
  before : ∀ e, c ≤ e → e < p → fatEntry fat disk e ≠ 0xFFFF

theorem FirstEnd.unique {fat : FsFat} {disk : Disk} {c p p' : Nat} (h : FirstEnd fat disk c p)
    (h' : FirstEnd fat disk c p') : p = p' := by
  rcases Nat.lt_trichotomy p p' with hlt | heq | hlt
  · exact absurd h.mark (h'.before p h.le hlt)
  · exact heq
  · exact absurd h'.mark (h.before p' h'.le hlt)

/-- The sector is none of the FAT's. -/
def OutsideFat (fat : FsFat) (s : UInt32) : Prop :=
  ∀ i < fat.fatSectors.toNat, s ≠ fat.fatStart + UInt32.ofNat i

section Free

variable {fat : FsFat} {disk : Disk}

/-- How the loop ends that begins with the entry `256 * index + offset`: the
entries up to the first end mark `p` are cleared, as far as they are in its
sector, or there is no end mark. -/
theorem fatFreeClusterLoop_cases (left index offset : Nat) (hup : disk.up = true)
    (hs : index + left = fat.fatSectors.toNat) (ho : offset < 256) :
    (∃ p disk', fatFreeClusterLoop fat 256 disk left index offset = .returned true disk'
        ∧ 256 * index + offset ≤ p ∧ p < fat.entries ∧ fatEntry fat disk p = 0xFFFF
        ∧ (∀ e, 256 * index + offset ≤ e → e < p → fatEntry fat disk e ≠ 0xFFFF)
        ∧ ∀ e < fat.entries, fatEntry fat disk' e
            = if 256 * index + offset ≤ e ∧ e / 256 = p / 256 ∧ e ≤ p then 0
              else fatEntry fat disk e)
      ∨ fatFreeClusterLoop fat 256 disk left index offset = .returned false disk
        ∧ ∀ e, 256 * index + offset ≤ e → e < fat.entries → fatEntry fat disk e ≠ 0xFFFF := by
  induction left generalizing index offset with
  | zero =>
      refine .inr ⟨rfl, fun e he he' => ?_⟩
      rw [FsFat.entries, ← hs] at he'
      omega
  | succ left ih =>
      have hentry : ∀ e, e / 256 = index → fatEntry fat disk e
          = load16 (disk.sectors (fat.fatStart + UInt32.ofNat index)) (2 * (e % 256)) := by
        intro e he
        rw [fatEntry, fatSector, he]
      rw [fatFreeClusterLoop, Disk.read_of_up hup]
      rcases clearEntries_cases (256 - offset) offset
          (disk.sectors (fat.fatStart + UInt32.ofNat index)) (by omega) with
        ⟨k, buf', hk, hle, hlt, hend, hall, hload⟩ | ⟨buf', hn, hall⟩
      · have hkd : (256 * index + k) / 256 = index := by omega
        have hkm : (256 * index + k) % 256 = k := by omega
        refine .inl ⟨256 * index + k,
          disk.put (fat.fatStart + UInt32.ofNat index) buf', ?_, by omega, ?_, ?_, ?_, ?_⟩
        · simp only [hk, if_true, Disk.write_of_up hup]
        · rw [FsFat.entries]
          omega
        · rw [hentry _ hkd, hkm, hend]
        · intro e he he'
          rw [hentry e (by omega)]
          exact hall (e % 256) (by omega) (by omega)
        · intro e he
          rw [fatEntry_put buf' (by omega) he, hload, hkd]
          by_cases hi : e / 256 = index
          · rw [if_pos hi, hentry e hi]
            exact if_congr (by omega) rfl rfl
          · rw [if_neg hi, if_neg (by omega)]
      · have hsector : ∀ e, 256 * index + offset ≤ e → e < 256 * (index + 1) →
            fatEntry fat disk e ≠ 0xFFFF := by
          intro e he he'
          rw [hentry e (by omega)]
          exact hall (e % 256) (by omega) (by omega)
        have hstep : ∀ e, 256 * index + offset ≤ e →
            (256 * (index + 1) + 0 ≤ e → fatEntry fat disk e ≠ 0xFFFF) →
            fatEntry fat disk e ≠ 0xFFFF := by
          intro e he h
          by_cases hlt : e < 256 * (index + 1)
          · exact hsector e he hlt
          · exact h (by omega)
        simp only [hn, Bool.false_eq_true, if_false]
        rcases ih (index + 1) 0 (by omega) (by omega) with
          ⟨p, disk', heq, hle, hlt, hend, hno, hall'⟩ | ⟨heq, hno⟩
        · refine .inl ⟨p, disk', heq, by omega, hlt, hend,
            fun e he he' => hstep e he fun h => hno e h he', fun e he => ?_⟩
          rw [hall' e he]
          exact if_congr (by omega) rfl rfl
        · exact .inr ⟨heq, fun e he he' => hstep e he fun h => hno e h he'⟩

/-- The loop writes to the FAT only. -/
theorem fatFreeClusterLoop_outside {cps left index offset : Nat} {ok : Bool} {disk' : Disk}
    (hs : index + left ≤ fat.fatSectors.toNat)
    (h : fatFreeClusterLoop fat cps disk left index offset = .returned ok disk') :
    disk'.up = disk.up ∧ ∀ s, OutsideFat fat s → disk'.sectors s = disk.sectors s := by
  induction left generalizing index offset with
  | zero =>
      cases h
      exact ⟨rfl, fun s _ => rfl⟩
  | succ left ih =>
      rw [fatFreeClusterLoop] at h
      split at h
      · cases h
        exact ⟨rfl, fun s _ => rfl⟩
      · split at h
        · cases h
        · split at h
          · split at h
            · cases h
              exact ⟨rfl, fun s _ => rfl⟩
            · next hwrite =>
                cases h
                rw [Disk.write] at hwrite
                split at hwrite
                · cases hwrite
                  exact ⟨rfl, fun s hs' => Disk.put_sectors_of_ne _ _ (hs' index (by omega))⟩
                · cases hwrite
          · exact ih (by omega) h

theorem fatFreeCluster_down {c : UInt32} (hup : disk.up = false) (hb : fat.bps = 512) :
    fatFreeCluster fat disk c = .returned false disk := by
  have hcps : fat.bps.toNat / 2 = 256 := by rw [hb]; rfl
  simp only [fatFreeCluster, hcps]
  rw [if_neg (by omega)]
  cases fat.fatSectors.toNat - c.toNat / 256 with
  | zero => rfl
  | succ left => rw [fatFreeClusterLoop, Disk.read_of_down hup]

/-- `fat_free_cluster` clears what stands before the first end mark in its sector,
or finds no end mark. -/
theorem fatFreeCluster_cases (c : UInt32) (hup : disk.up = true) (hb : fat.bps = 512) :
    (∃ p disk', fatFreeCluster fat disk c = .returned true disk' ∧ FirstEnd fat disk c.toNat p
        ∧ disk'.up = true ∧ (∀ s, OutsideFat fat s → disk'.sectors s = disk.sectors s)
        ∧ ∀ e < fat.entries, fatEntry fat disk' e
            = if c.toNat ≤ e ∧ e / 256 = p / 256 ∧ e ≤ p then 0 else fatEntry fat disk e)
      ∨ fatFreeCluster fat disk c = .returned false disk
        ∧ ∀ e, c.toNat ≤ e → e < fat.entries → fatEntry fat disk e ≠ 0xFFFF := by
  have hcps : fat.bps.toNat / 2 = 256 := by rw [hb]; rfl
  have heq : fatFreeCluster fat disk c
      = fatFreeClusterLoop fat 256 disk (fat.fatSectors.toNat - c.toNat / 256) (c.toNat / 256)
          (c.toNat % 256) := by
    simp only [fatFreeCluster, hcps]
    rw [if_neg (by omega)]
  have hhead : 256 * (c.toNat / 256) + c.toNat % 256 = c.toNat := Nat.div_add_mod c.toNat 256
  rw [heq]
  by_cases hindex : c.toNat / 256 ≤ fat.fatSectors.toNat
  · have hsum : c.toNat / 256 + (fat.fatSectors.toNat - c.toNat / 256) = fat.fatSectors.toNat := by
      omega
    have hcases := fatFreeClusterLoop_cases (fat.fatSectors.toNat - c.toNat / 256)
      (c.toNat / 256) (c.toNat % 256) hup hsum (Nat.mod_lt _ (by omega))
    rw [hhead] at hcases
    rcases hcases with ⟨p, disk', hret, hle, hlt, hmark, hbefore, hall⟩ | ⟨hret, hno⟩
    · obtain ⟨hup', hout⟩ := fatFreeClusterLoop_outside (by omega) hret
      exact .inl ⟨p, disk', hret, ⟨hle, hlt, hmark, hbefore⟩, hup'.trans hup, hout, hall⟩
    · exact .inr ⟨hret, hno⟩
  · -- the entry stands behind the FAT
    have hzero : fat.fatSectors.toNat - c.toNat / 256 = 0 := by omega
    refine .inr ⟨by rw [hzero]; rfl, fun e hle hlt => ?_⟩
    rw [FsFat.entries] at hlt
    omega

/-- With the first end mark `p` behind the head, the law comes to what lies
between the two. -/
theorem freeLaw_iff {c p : Nat} {cs : List Nat} {disk' : Disk} (hup : disk.up = true)
    (hchain : IsChain fat disk (c :: cs)) (hcp : c ≤ p) (hpe : p < fat.entries)
    (hend : fatEntry fat disk p = 0xFFFF)
    (hno : ∀ e, c ≤ e → e < p → fatEntry fat disk e ≠ 0xFFFF)
    (hall : ∀ e < fat.entries, fatEntry fat disk' e
      = if c ≤ e ∧ e / 256 = p / 256 ∧ e ≤ p then 0 else fatEntry fat disk e) :
    FreeLaw fat disk (c :: cs) (.returned true disk') ↔ FreeMeets fat disk c cs := by
  have hlast := List.getLast_mem (List.cons_ne_nil c cs)
  have hlaste := (hchain.end_iff hlast).mpr rfl
  constructor
  · rintro ⟨-, hlaw⟩
    have hcleared : ∀ d ∈ c :: cs, c ≤ d ∧ d / 256 = p / 256 ∧ d ≤ p := by
      intro d hd
      have hde := (hchain.mem hd).2.2
      have hd0 := hlaw d hde
      rw [if_pos hd, hall d hde] at hd0
      by_contra hnot
      rw [if_neg hnot] at hd0
      exact hchain.ne_zero hd hd0
    have hp : p = (c :: cs).getLast (List.cons_ne_nil c cs) := by
      obtain ⟨hge, -, hle⟩ := hcleared _ hlast
      by_contra hne
      exact hno _ hge (by omega) hlaste
    have hc := hcleared c List.mem_cons_self
    refine ⟨hup, fun d hd => (hcleared d hd).2.1.trans hc.2.1.symm, fun d hd => ?_,
      fun d hge hle hd => ?_⟩
    · exact ⟨(hcleared d hd).1, hp ▸ (hcleared d hd).2.2⟩
    · rw [← hp] at hle
      have hde : d < fat.entries := by omega
      have hd0 := hlaw d hde
      rw [if_neg hd, hall d hde, if_pos ⟨hge, by omega, hle⟩] at hd0
      exact hd0.symm
  · intro h
    have hp : p = (c :: cs).getLast (List.cons_ne_nil c cs) := by
      have hle : p ≤ (c :: cs).getLast (List.cons_ne_nil c cs) := by
        by_contra hlt
        exact hno _ (h.between _ hlast).1 (by omega) hlaste
      by_cases hmem : p ∈ c :: cs
      · exact (hchain.end_iff hmem).mp hend
      · have hzero := h.others p hcp hle hmem
        omega
    refine ⟨rfl, fun e he => ?_⟩
    rw [hall e he]
    by_cases hmem : e ∈ c :: cs
    · have hsec := (h.sector e hmem).trans (h.sector _ hlast).symm
      rw [← hp] at hsec
      rw [if_pos hmem, if_pos ⟨(h.between e hmem).1, hsec, hp ▸ (h.between e hmem).2⟩]
    · rw [if_neg hmem]
      by_cases hin : c ≤ e ∧ e / 256 = p / 256 ∧ e ≤ p
      · rw [if_pos hin, h.others e hin.1 (hp ▸ hin.2.2) hmem]
      · rw [if_neg hin]

/-- `fat_free_cluster` frees a chain exactly when the chain fills a piece of
one sector of the FAT, up to free entries. -/
theorem fatFreeCluster_law {c : Nat} {cs : List Nat} (hb : fat.bps = 512)
    (hchain : IsChain fat disk (c :: cs)) :
    FreeLaw fat disk (c :: cs) (fatFreeCluster fat disk (UInt32.ofNat c))
      ↔ FreeMeets fat disk c cs := by
  obtain ⟨hc2, hc8, hce⟩ := hchain.head
  have hlast := List.getLast_mem (List.cons_ne_nil c cs)
  have hlaste := (hchain.end_iff hlast).mpr rfl
  cases hup : disk.up with
  | false =>
      rw [fatFreeCluster_down hup hb]
      refine ⟨fun h => Bool.noConfusion h.1, fun h => ?_⟩
      have hnot := h.up
      rw [hup] at hnot
      cases hnot
  | true =>
      have h32 : c < 2 ^ 32 := by omega
      have hcases := fatFreeCluster_cases (UInt32.ofNat c) hup hb
      rw [UInt32.toNat_ofNat_of_lt' h32] at hcases
      rcases hcases with ⟨p, disk', hret, hfirst, -, -, hall⟩ | ⟨hret, hno⟩
      · rw [hret]
        exact freeLaw_iff hup hchain hfirst.le hfirst.lt hfirst.mark hfirst.before hall
      · rw [hret]
        refine ⟨fun h => Bool.noConfusion h.1, fun h => ?_⟩
        exact absurd hlaste (hno _ (h.between _ hlast).1 (hchain.mem hlast).2.2)

/-- A chain of two clusters that stand side by side. -/
theorem fatFreeCluster_side_by_side :
    FreeLaw smallFat (diskOf fun c => if c = 2 then 3 else if c = 3 then 0xFFFF else 0) [2, 3]
      (fatFreeCluster smallFat
        (diskOf fun c => if c = 2 then 3 else if c = 3 then 0xFFFF else 0) (UInt32.ofNat 2)) := by
  refine (fatFreeCluster_law rfl (by simp only [IsChain]; decide)).mpr
    ⟨rfl, by decide, by decide, fun d hge hle hd => ?_⟩
  have hle' : d ≤ 3 := hle
  simp only [List.mem_cons, List.not_mem_nil, or_false] at hd
  omega

/-- A chain of the clusters 2 and 4, with the last cluster of another file
between them: that one is freed instead of the cluster 4. -/
theorem fatFreeCluster_fragmented :
    ¬ (IsChain smallFat
          (diskOf fun c => if c = 2 then 4 else if c = 3 ∨ c = 4 then 0xFFFF else 0) [2, 4] →
        FreeLaw smallFat
          (diskOf fun c => if c = 2 then 4 else if c = 3 ∨ c = 4 then 0xFFFF else 0) [2, 4]
          (fatFreeCluster smallFat
            (diskOf fun c => if c = 2 then 4 else if c = 3 ∨ c = 4 then 0xFFFF else 0)
            (UInt32.ofNat 2))) := by
  intro h
  have hlaw := h (by simp only [IsChain]; decide)
  have h4 := hlaw.2 4 (by decide)
  revert h4
  decide

end Free

end Csos
