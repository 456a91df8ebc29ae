import Csos.Memory32
import Mathlib.Data.Finset.Card

/-!
# Page directories

`pteAt mem d n` is the entry that the directory `d` has for the virtual
page `n`: this view of a directory is what the MMU sees, and what the
functions of `memory32.c` are specified by. A directory is well formed
(`DirOk`) when its tables are in use, distinct, and not the directory
itself. Every directory that the code builds is; it is what makes a
write to one entry leave all the others alone.
-/

namespace Csos

open Lib

theorem u32_of_lt {a : Nat} (h : a < 2 ^ 32) : u32 a = a := by
  rw [u32]
  omega

/-! ## Fields of an entry -/

theorem pdeIndex_eq (v : Nat) : pdeIndex v = v / 0x400000 := Nat.shiftRight_eq_div_pow v 22

theorem pteIndex_eq (v : Nat) : pteIndex v = v / 0x1000 % 1024 := by
  rw [pteIndex, Nat.shiftRight_eq_div_pow]
  exact Nat.and_two_pow_sub_one_eq_mod _ 10

theorem present_eq (v : Nat) : present v = decide (v % 2 = 1) := by
  simp [present, Nat.testBit_zero]

theorem pdeAddress_eq (v : Nat) : pdeAddress v = v / 0x1000 * 0x1000 := by
  rw [pdeAddress, frameIndex, Nat.shiftLeft_eq, Nat.shiftRight_eq_div_pow]

theorem pteAddress_eq (v : Nat) : pteAddress v = v / 0x1000 * 0x1000 := pdeAddress_eq v

/-- A page address together with flags. -/
theorem or_flags {p f : Nat} (hp : p % 0x1000 = 0) (hf : f < 0x1000) : p ||| f = p + f := by
  obtain ⟨q, rfl⟩ := Nat.dvd_of_mod_eq_zero hp
  exact (Nat.two_pow_add_eq_or_of_lt (i := 12) hf q).symm

theorem or_one_lt {perm : Nat} (h : perm < 0x1000) : perm ||| 1 < 0x1000 :=
  Nat.or_lt_two_pow (n := 12) h (by decide)

/-- The entry that `memory32_create_map` writes. -/
theorem entry_eq {p perm : Nat} (hp : p % 0x1000 = 0) (h : perm < 0x1000) :
    p ||| perm ||| 1 = p + (perm ||| 1) := by
  rw [Nat.or_assoc, or_flags hp (or_one_lt h)]

theorem or_one_mod_two (x : Nat) : (x ||| 1) % 2 = 1 := by simp

theorem present_entry {p perm : Nat} : present (p ||| perm ||| 1) = true := by
  rw [present_eq, or_one_mod_two]
  rfl

theorem pteAddress_entry {p perm : Nat} (hp : p % 0x1000 = 0) (h : perm < 0x1000) :
    pteAddress (p ||| perm ||| 1) = p := by
  have := or_one_lt h
  rw [entry_eq hp h, pteAddress_eq]
  omega

theorem entry_mod {p perm : Nat} (hp : p % 0x1000 = 0) (h : perm < 0x1000) :
    (p ||| perm ||| 1) % 0x1000 = perm ||| 1 := by
  have := or_one_lt h
  rw [entry_eq hp h]
  omega

theorem entry_lt {p perm : Nat} (hp : p % 0x1000 = 0) (h : perm < 0x1000) (hlt : p < 2 ^ 32) :
    p ||| perm ||| 1 < 2 ^ 32 := by
  have := or_one_lt h
  rw [entry_eq hp h]
  omega

/-! ## The allocator -/

namespace Memory32Info

/-- The page of one bit. -/
def page (info : Memory32Info) (i : Nat) : Nat := info.start + i * 0x1000

/-- `p` is a page that the allocator may hand out. -/
def Free (info : Memory32Info) (p : Nat) : Prop :=
  ∃ i < info.bitmap.bitSize, bitmapGetBit info.bitmap i = false ∧ p = info.page i

instance (info : Memory32Info) : DecidablePred info.Free := fun p =>
  inferInstanceAs (Decidable (∃ i < info.bitmap.bitSize, _ ∧ p = info.page i))

/-- The allocator as `memory_init` sets it up, and as it stays. -/
structure Ok (info : Memory32Info) : Prop where
  pageSize : info.pageSize = 0x1000
  start_pos : 0 < info.start
  aligned : info.start % 0x1000 = 0
  limit : info.page info.bitmap.bitSize ≤ 2 ^ 32

variable {info : Memory32Info} {p q i : Nat}

/-- Write the bit of one page. -/
def setPage (info : Memory32Info) (i : Nat) (value : Bool) : Memory32Info :=
  { info with bitmap := bitmapSetBits info.bitmap i 1 value }

@[simp] theorem setPage_start (value : Bool) : (info.setPage i value).start = info.start := rfl

@[simp] theorem setPage_bitSize (value : Bool) :
    (info.setPage i value).bitmap.bitSize = info.bitmap.bitSize := bitmapSetBits_one_bitSize

@[simp] theorem setPage_page (value : Bool) (j : Nat) :
    (info.setPage i value).page j = info.page j := rfl

theorem Ok.setPage (hi : info.Ok) (i : Nat) (value : Bool) : (info.setPage i value).Ok :=
  ⟨hi.pageSize, hi.start_pos, hi.aligned, by simpa using hi.limit⟩

theorem page_injective {i j : Nat} (h : info.page i = info.page j) : i = j := by
  simp only [page] at h
  omega

theorem Free.aligned (hi : info.Ok) (h : info.Free p) : p % 0x1000 = 0 := by
  obtain ⟨i, -, -, rfl⟩ := h
  have := hi.aligned
  simp only [page]
  omega

theorem Free.fits (hi : info.Ok) (h : info.Free p) : p + 0x1000 ≤ 2 ^ 32 := by
  obtain ⟨i, hlt, -, rfl⟩ := h
  have := hi.limit
  simp only [page] at this ⊢
  omega

theorem Free.pos (hi : info.Ok) (h : info.Free p) : 0 < p := by
  obtain ⟨i, -, -, rfl⟩ := h
  have := hi.start_pos
  simp only [page]
  omega

/-- How many pages the allocator has left. -/
def freePages (info : Memory32Info) : Nat :=
  ((Finset.range info.bitmap.bitSize).filter fun i => bitmapGetBit info.bitmap i = false).card

theorem freePages_eq_zero (h : ∀ p, ¬ info.Free p) : info.freePages = 0 := by
  rw [freePages, Finset.card_eq_zero, Finset.filter_eq_empty_iff]
  exact fun i hi hbit => h _ ⟨i, Finset.mem_range.mp hi, hbit, rfl⟩

/-- When at most the page `p` was taken, at most one page is missing. -/
theorem freePages_le {info' : Memory32Info} (hs : info'.start = info.start)
    (h : ∀ q, info.Free q → q ≠ p → info'.Free q) : info.freePages ≤ info'.freePages + 1 := by
  have hsub : ((Finset.range info.bitmap.bitSize).filter
        fun i => bitmapGetBit info.bitmap i = false)
      ⊆ insert ((p - info.start) / 0x1000) ((Finset.range info'.bitmap.bitSize).filter
        fun i => bitmapGetBit info'.bitmap i = false) := by
    intro i hi
    obtain ⟨hlt, hbit⟩ := Finset.mem_filter.mp hi
    by_cases hip : info.page i = p
    · refine Finset.mem_insert.mpr (Or.inl ?_)
      simp only [page] at hip
      omega
    · obtain ⟨k, hk, hbit', hpage⟩ := h _ ⟨i, Finset.mem_range.mp hlt, hbit, rfl⟩ hip
      have hik : i = k := by
        simp only [page, hs] at hpage
        omega
      subst hik
      exact Finset.mem_insert_of_mem (Finset.mem_filter.mpr ⟨Finset.mem_range.mpr hk, hbit'⟩)
  exact (Finset.card_le_card hsub).trans (Finset.card_insert_le _ _)

theorem free_page_iff {k : Nat} : info.Free (info.page k) ↔
    k ∈ (Finset.range info.bitmap.bitSize).filter fun i => bitmapGetBit info.bitmap i = false := by
  rw [Finset.mem_filter, Finset.mem_range]
  constructor
  · rintro ⟨i, hi, hbit, hpage⟩
    obtain rfl := page_injective hpage
    exact ⟨hi, hbit⟩
  · exact fun ⟨hi, hbit⟩ => ⟨k, hi, hbit, rfl⟩

theorem freePages_congr {info' : Memory32Info} (hs : info'.start = info.start)
    (h : ∀ q, info'.Free q ↔ info.Free q) : info'.freePages = info.freePages := by
  refine congrArg Finset.card (Finset.ext fun k => ?_)
  rw [← free_page_iff, ← free_page_iff, page, page, hs]
  exact h _

/-- When the page `p` was taken and nothing else, one page is missing. -/
theorem freePages_take {info' : Memory32Info} (hs : info'.start = info.start) (hp : info.Free p)
    (h : ∀ q, info'.Free q ↔ info.Free q ∧ q ≠ p) : info.freePages = info'.freePages + 1 := by
  refine Nat.le_antisymm (freePages_le hs fun q hq hne => (h q).mpr ⟨hq, hne⟩) ?_
  obtain ⟨i, -, -, rfl⟩ := id hp
  have hpage : ∀ k, info'.page k = info.page k := fun k => by rw [page, page, hs]
  refine Finset.card_lt_card (Finset.ssubset_iff.mpr ⟨i, fun hmem => ?_, fun k hk => ?_⟩)
  · exact ((h _).mp (free_page_iff.mpr hmem)).2 (hpage i)
  · obtain rfl | hk := Finset.mem_insert.mp hk
    · exact free_page_iff.mp hp
    · have hfree := (h _).mp (free_page_iff.mpr hk)
      rw [hpage] at hfree
      exact free_page_iff.mp hfree.1

/-- What is left after one page has been taken. -/
theorem free_setPage (hlt : i < info.bitmap.bitSize) :
    (info.setPage i true).Free q ↔ info.Free q ∧ q ≠ info.page i := by
  constructor
  · rintro ⟨j, hj, hbit, rfl⟩
    rw [setPage_bitSize] at hj
    have hget := @bitmapGetBit_setBits_one info.bitmap i j true hlt
    rw [setPage, hget] at hbit
    split at hbit
    case isTrue => exact absurd hbit (by decide)
    case isFalse hne =>
      exact ⟨⟨j, hj, hbit, rfl⟩, fun h => hne (page_injective h)⟩
  · rintro ⟨⟨j, hj, hbit, rfl⟩, hne⟩
    refine ⟨j, by simpa using hj, ?_, rfl⟩
    have hji : j ≠ i := fun h => hne (by rw [h])
    rw [setPage, bitmapGetBit_setBits_one hlt, if_neg hji, hbit]

/-- What is free when one page has been given back. -/
theorem free_setPage_false (hlt : i < info.bitmap.bitSize) :
    (info.setPage i false).Free q ↔ info.Free q ∨ q = info.page i := by
  constructor
  · rintro ⟨j, hj, hbit, rfl⟩
    rw [setPage_bitSize] at hj
    have hget := @bitmapGetBit_setBits_one info.bitmap i j false hlt
    rw [setPage, hget] at hbit
    split at hbit
    case isTrue hji => exact Or.inr (by rw [setPage_page, hji])
    case isFalse => exact Or.inl ⟨j, hj, hbit, rfl⟩
  · rintro (⟨j, hj, hbit, rfl⟩ | rfl)
    · refine ⟨j, by simpa using hj, ?_, rfl⟩
      rw [setPage, bitmapGetBit_setBits_one hlt, hbit, ite_self]
    · refine ⟨i, by simpa using hlt, ?_, rfl⟩
      rw [setPage, bitmapGetBit_setBits_one hlt, if_pos rfl]

end Memory32Info

/-- The lowest free page is handed out. -/
theorem memory32AllocPage_lowest {info : Memory32Info} (hi : info.Ok) :
    (memory32AllocPage info 1 = (info, 0) ∧ ∀ p, ¬ info.Free p)
    ∨ ∃ i < info.bitmap.bitSize, info.Free (info.page i)
      ∧ (∀ p, info.Free p → info.page i ≤ p)
      ∧ memory32AllocPage info 1 = (info.setPage i true, info.page i) := by
  rcases bitmapAllocBits_one info.bitmap with ⟨heq, hall⟩ | ⟨i, hlt, hbit, hbelow, heq⟩
  · refine Or.inl ⟨by simp [memory32AllocPage, heq], ?_⟩
    rintro p ⟨i, hlt, hbit, -⟩
    exact absurd (hbit.symm.trans (hall i hlt)) (by decide)
  · refine Or.inr ⟨i, hlt, ⟨i, hlt, hbit, rfl⟩, ?_, ?_⟩
    · rintro p ⟨j, -, hfree, rfl⟩
      have hij : i ≤ j := Nat.le_of_not_lt fun hji =>
        absurd (hfree.symm.trans (hbelow j hji)) (by decide)
      simp only [Memory32Info.page]
      omega
    · have hlim := hi.limit
      have hfit : info.start + i * 0x1000 < 0x100000000 := by
        simp only [Memory32Info.page] at hlim
        omega
      simp [memory32AllocPage, heq, hi.pageSize, Memory32Info.setPage, Memory32Info.page, u32,
        Nat.mod_eq_of_lt hfit]

/-- What the allocator does when it is asked for one page. -/
theorem memory32AllocPage_one {info : Memory32Info} (hi : info.Ok) :
    (memory32AllocPage info 1 = (info, 0) ∧ ∀ p, ¬ info.Free p)
    ∨ ∃ i < info.bitmap.bitSize, info.Free (info.page i)
      ∧ memory32AllocPage info 1 = (info.setPage i true, info.page i) := by
  rcases memory32AllocPage_lowest hi with hnone | ⟨i, hlt, hfree, -, heq⟩
  · exact Or.inl hnone
  · exact Or.inr ⟨i, hlt, hfree, heq⟩

/-- A page of the allocator is given back. -/
theorem memory32FreePage_page {info : Memory32Info} (hi : info.Ok) {i : Nat}
    (hlt : i < info.bitmap.bitSize) :
    memory32FreePage info (info.page i) 1 = info.setPage i false := by
  have hlim := hi.limit
  simp only [Memory32Info.page] at hlim
  have hidx : u32 (info.page i + 0x100000000 - info.start) / info.pageSize = i := by
    rw [hi.pageSize, u32, Memory32Info.page]
    omega
  rw [memory32FreePage, hidx]
  rfl

/-! ## Entries -/

/-- The directory entry for the `i`-th 4 MiB. -/
def pdeAt (mem : Bytes) (d i : Nat) : Nat := mem.load32 (d + 4 * i)

/-- The page table behind it. -/
def tableAt (mem : Bytes) (d i : Nat) : Nat := pdeAddress (pdeAt mem d i)

/-- The present entry for the virtual page `n`. -/
def pteAt (mem : Bytes) (d n : Nat) : Option Nat :=
  if present (pdeAt mem d (n / 1024)) then
    let v := mem.load32 (tableAt mem d (n / 1024) + 4 * (n % 1024))
    if present v then some v else none
  else none

/-- The walk of the MMU, page by page. -/
theorem walk_eq (mem : Bytes) (d vaddr : Nat) :
    walk mem d vaddr = (pteAt mem d (vaddr / 0x1000)).map fun v =>
      (pteAddress v + vaddr % 0x1000, v % 0x1000) := by
  have hidx : vaddr / 0x1000 / 1024 = vaddr / 0x400000 := by omega
  simp only [walk, pteAt, pdeIndex_eq, pteIndex_eq, hidx, pdeAt, tableAt]
  split
  case isTrue h =>
    rw [Bool.and_eq_true] at h
    rw [if_pos h.1, if_pos h.2]
    rfl
  case isFalse h =>
    rw [Bool.and_eq_true, not_and] at h
    split
    case isTrue h₁ => rw [if_neg (h h₁)]; rfl
    case isFalse => rfl

theorem tableAt_aligned (mem : Bytes) (d i : Nat) : tableAt mem d i % 0x1000 = 0 := by
  rw [tableAt, pdeAddress_eq]
  omega

/-- A well-formed page directory. -/
structure DirOk (mem : Bytes) (info : Memory32Info) (d : Nat) : Prop where
  ne_zero : d ≠ 0
  aligned : d % 0x1000 = 0
  used : ¬ info.Free d
  table_used : ∀ i < 1024, present (pdeAt mem d i) → ¬ info.Free (tableAt mem d i)
  table_ne : ∀ i < 1024, present (pdeAt mem d i) → tableAt mem d i ≠ d
  table_inj : ∀ i < 1024, ∀ j < 1024, present (pdeAt mem d i) → present (pdeAt mem d j) →
    tableAt mem d i = tableAt mem d j → i = j

/-- A directory without tables. -/
theorem DirOk.of_absent {mem : Bytes} {info : Memory32Info} {d : Nat} (hne : d ≠ 0)
    (hal : d % 0x1000 = 0) (hused : ¬ info.Free d)
    (habs : ∀ i < 1024, ¬ present (pdeAt mem d i)) : DirOk mem info d :=
  ⟨hne, hal, hused, fun i hi hp => absurd hp (habs i hi), fun i hi hp => absurd hp (habs i hi),
    fun i hi _ _ hp => absurd hp (habs i hi)⟩

/-! ## Writes -/

variable {mem mem' : Bytes} {info info' : Memory32Info} {d i k n v p : Nat}

/-- Words of different pages do not overlap. -/
theorem words_disjoint {p q a b : Nat} (hp : p % 0x1000 = 0) (hq : q % 0x1000 = 0) (hne : p ≠ q)
    (ha : a < 1024) (hb : b < 1024) :
    p + 4 * a + 4 ≤ q + 4 * b ∨ q + 4 * b + 4 ≤ p + 4 * a := by
  omega

theorem DirOk.congr (hd : DirOk mem info d) (hpde : ∀ j < 1024, pdeAt mem' d j = pdeAt mem d j)
    (hfree : ∀ p, info'.Free p → info.Free p) : DirOk mem' info' d := by
  have htable : ∀ j < 1024, tableAt mem' d j = tableAt mem d j := by
    intro j hj
    rw [tableAt, hpde j hj, ← tableAt]
  constructor
  case ne_zero => exact hd.ne_zero
  case aligned => exact hd.aligned
  case used => exact fun h => hd.used (hfree d h)
  case table_used =>
    intro j hj hp hf
    rw [hpde j hj] at hp
    rw [htable j hj] at hf
    exact hd.table_used j hj hp (hfree _ hf)
  case table_ne =>
    intro j hj hp
    rw [hpde j hj] at hp
    rw [htable j hj]
    exact hd.table_ne j hj hp
  case table_inj =>
    intro j hj j' hj' hp hp' he
    rw [hpde j hj] at hp
    rw [hpde j' hj'] at hp'
    rw [htable j hj, htable j' hj'] at he
    exact hd.table_inj j hj j' hj' hp hp' he

theorem pdeAt_congr (hd : d % 0x1000 = 0) (hi : i < 1024)
    (h : ∀ b, b / 0x1000 * 0x1000 = d → mem' b = mem b) : pdeAt mem' d i = pdeAt mem d i :=
  Bytes.load32_congr fun b _ _ => h b (by omega)

/-- An entry depends on the directory and on one table. -/
theorem pteAt_congr (hd : d % 0x1000 = 0) (hn : n < 0x100000)
    (h : ∀ b, b / 0x1000 * 0x1000 = d → mem' b = mem b)
    (ht : present (pdeAt mem d (n / 1024)) →
      ∀ b, b / 0x1000 * 0x1000 = tableAt mem d (n / 1024) → mem' b = mem b) :
    pteAt mem' d n = pteAt mem d n := by
  have hpde := pdeAt_congr hd (by omega : n / 1024 < 1024) h
  have htable : tableAt mem' d (n / 1024) = tableAt mem d (n / 1024) := by
    rw [tableAt, hpde, ← tableAt]
  rw [pteAt, hpde, htable, pteAt]
  by_cases hp : present (pdeAt mem d (n / 1024))
  · have hal := tableAt_aligned mem d (n / 1024)
    rw [if_pos hp, if_pos hp, Bytes.load32_congr fun b _ _ => ht hp b (by omega)]
  · rw [if_neg hp, if_neg hp]

section WritePte

variable (hd : DirOk mem info d) (hi : i < 1024) (hp : present (pdeAt mem d i)) (hk : k < 1024)
include hd hi hp hk

theorem pdeAt_writePte {j : Nat} (hj : j < 1024) :
    pdeAt (mem.store32 (tableAt mem d i + 4 * k) v) d j = pdeAt mem d j :=
  Bytes.load32_store32_of_disjoint
    (words_disjoint hd.aligned (tableAt_aligned mem d i) (hd.table_ne i hi hp).symm hj hk)

theorem DirOk.writePte : DirOk (mem.store32 (tableAt mem d i + 4 * k) v) info d :=
  hd.congr (fun _ hj => pdeAt_writePte hd hi hp hk hj) fun _ h => h

/-- A write to one entry leaves every other entry alone. -/
theorem pteAt_writePte (hv : v < 2 ^ 32) (hn : n < 0x100000) :
    pteAt (mem.store32 (tableAt mem d i + 4 * k) v) d n
      = if n = 1024 * i + k then (if present v then some v else none) else pteAt mem d n := by
  have hn' : n / 1024 < 1024 := by omega
  have hmod : n % 1024 < 1024 := by omega
  have hpde := @pdeAt_writePte mem info d i k v hd hi hp hk (n / 1024) hn'
  have htable : tableAt (mem.store32 (tableAt mem d i + 4 * k) v) d (n / 1024)
      = tableAt mem d (n / 1024) := by
    rw [tableAt, hpde, ← tableAt]
  rw [pteAt, hpde, htable]
  by_cases heq : n = 1024 * i + k
  · have h₁ : n / 1024 = i := by omega
    have h₂ : n % 1024 = k := by omega
    rw [if_pos heq, h₁, h₂, if_pos hp]
    simp only [Bytes.load32_store32_self hv]
  · rw [if_neg heq, pteAt]
    by_cases hpn : present (pdeAt mem d (n / 1024))
    · rw [if_pos hpn, if_pos hpn]
      have hload : (mem.store32 (tableAt mem d i + 4 * k) v).load32
          (tableAt mem d (n / 1024) + 4 * (n % 1024))
          = mem.load32 (tableAt mem d (n / 1024) + 4 * (n % 1024)) := by
        apply Bytes.load32_store32_of_disjoint
        by_cases hin : n / 1024 = i
        · rw [hin]
          omega
        · have hne : tableAt mem d (n / 1024) ≠ tableAt mem d i := by
            intro he
            exact hin (hd.table_inj _ hn' _ hi hpn hp he)
          exact words_disjoint (tableAt_aligned mem d _) (tableAt_aligned mem d i) hne hmod hk
      rw [hload]
    · rw [if_neg hpn, if_neg hpn]

end WritePte

/-- The memory after `find_pte` has put the page `p` in as a new table. -/
def newTable (mem : Bytes) (d i p : Nat) : Bytes :=
  (mem.store32 (d + 4 * i) (p ||| 1 ||| 2 ||| 4)).fill p 0 0x1000

section NewTable

variable (hd : DirOk mem info d) (hinfo : info.Ok) (hi : i < 1024)
  (habs : ¬ present (pdeAt mem d i)) (hfree : info.Free p)
include hd hinfo hi habs hfree

omit hd hi habs in
theorem table_flags : p ||| 1 ||| 2 ||| 4 = p + 7 := by
  rw [Nat.or_assoc, Nat.or_assoc]
  exact or_flags (hfree.aligned hinfo) (by decide)

omit hi habs in
variable (i) in
theorem pdeAt_newTable {j : Nat} (hj : j < 1024) :
    pdeAt (newTable mem d i p) d j = if j = i then p + 7 else pdeAt mem d j := by
  have hal := hfree.aligned hinfo
  have hfits := hfree.fits hinfo
  have hd' := hd.aligned
  have hne : p ≠ d := fun h => hd.used (h ▸ hfree)
  rw [pdeAt, newTable, Bytes.load32_fill_outside (by omega), table_flags hinfo hfree]
  by_cases hji : j = i
  · rw [if_pos hji, hji, Bytes.load32_store32_self (by omega)]
  · rw [if_neg hji, Bytes.load32_store32_of_disjoint (by omega), ← pdeAt]

omit habs in
theorem tableAt_newTable_self : tableAt (newTable mem d i p) d i = p := by
  have := hfree.aligned hinfo
  rw [tableAt, pdeAt_newTable i hd hinfo hfree hi, if_pos rfl, pdeAddress_eq]
  omega

omit hd hi habs in
theorem present_newTable_self : present (p + 7) := by
  have := hfree.aligned hinfo
  rw [present_eq]
  simp
  omega

/-- A new table is empty, so it maps nothing yet. -/
theorem pteAt_newTable (hn : n < 0x100000) :
    pteAt (newTable mem d i p) d n = pteAt mem d n := by
  have hn' : n / 1024 < 1024 := by omega
  have hpde := pdeAt_newTable i hd hinfo hfree hn'
  by_cases hin : n / 1024 = i
  · have hold : pteAt mem d n = none := by
      rw [pteAt, hin, if_neg habs]
    have hzero : (newTable mem d i p).load32 (p + 4 * (n % 1024)) = 0 :=
      Bytes.load32_fill_zero (by omega) (by omega)
    rw [hold, pteAt, hin, tableAt_newTable_self hd hinfo hi hfree, hzero]
    split <;> rfl
  · rw [if_neg hin] at hpde
    have htable : tableAt (newTable mem d i p) d (n / 1024) = tableAt mem d (n / 1024) := by
      rw [tableAt, hpde, ← tableAt]
    rw [pteAt, hpde, htable, pteAt]
    by_cases hpn : present (pdeAt mem d (n / 1024))
    · rw [if_pos hpn, if_pos hpn]
      have hal := hfree.aligned hinfo
      have htal := tableAt_aligned mem d (n / 1024)
      have hdal := hd.aligned
      have htne := hd.table_ne _ hn' hpn
      have htp : tableAt mem d (n / 1024) ≠ p := fun h => hd.table_used _ hn' hpn (h ▸ hfree)
      have hload : (newTable mem d i p).load32 (tableAt mem d (n / 1024) + 4 * (n % 1024))
          = mem.load32 (tableAt mem d (n / 1024) + 4 * (n % 1024)) := by
        rw [newTable, Bytes.load32_fill_outside (by omega),
          Bytes.load32_store32_of_disjoint (by omega)]
      rw [hload]
    · rw [if_neg hpn, if_neg hpn]

omit habs in
theorem DirOk.newTable {info' : Memory32Info}
    (hinfo' : ∀ q, info'.Free q ↔ info.Free q ∧ q ≠ p) :
    DirOk (newTable mem d i p) info' d := by
  have hpde := fun j hj => pdeAt_newTable i hd hinfo hfree (j := j) hj
  have hself := tableAt_newTable_self hd hinfo hi hfree
  have hother : ∀ j < 1024, j ≠ i → tableAt (Csos.newTable mem d i p) d j = tableAt mem d j := by
    intro j hj hji
    rw [tableAt, hpde j hj, if_neg hji, ← tableAt]
  have hold : ∀ j < 1024, j ≠ i → present (pdeAt (Csos.newTable mem d i p) d j) →
      present (pdeAt mem d j) := by
    intro j hj hji h
    rwa [hpde j hj, if_neg hji] at h
  constructor
  case ne_zero => exact hd.ne_zero
  case aligned => exact hd.aligned
  case used => exact fun h => hd.used ((hinfo' d).mp h).1
  case table_used =>
    intro j hj hp hf
    obtain ⟨hf, hne⟩ := (hinfo' _).mp hf
    by_cases hji : j = i
    · rw [hji, hself] at hne
      exact hne rfl
    · rw [hother j hj hji] at hf
      exact hd.table_used j hj (hold j hj hji hp) hf
  case table_ne =>
    intro j hj hp he
    by_cases hji : j = i
    · rw [hji, hself] at he
      exact hd.used (he ▸ hfree)
    · rw [hother j hj hji] at he
      exact hd.table_ne j hj (hold j hj hji hp) he
  case table_inj =>
    intro j hj j' hj' hp hp' he
    by_cases hji : j = i <;> by_cases hji' : j' = i
    · rw [hji, hji']
    · rw [hji, hself, hother j' hj' hji'] at he
      exact absurd hfree (he ▸ hd.table_used j' hj' (hold j' hj' hji' hp'))
    · rw [hji', hself, hother j hj hji] at he
      exact absurd hfree (he ▸ hd.table_used j hj (hold j hj hji hp))
    · rw [hother j hj hji, hother j' hj' hji'] at he
      exact hd.table_inj j hj j' hj' (hold j hj hji hp) (hold j' hj' hji' hp') he

end NewTable

/-! ## `find_pte` and `memory32_create_map` -/

section Mapping

variable {m m' m'' : Machine} {d n v vaddr paddr perm : Nat}

/-- The three ways in which `find_pte` comes back when it may allocate. -/
theorem findPte_cases (hinfo : m.info.Ok) :
    (present (pdeAt m.mem d (vaddr / 0x400000))
      ∧ findPte m d vaddr true
        = (m, tableAt m.mem d (vaddr / 0x400000) + 4 * (vaddr / 0x1000 % 1024)))
    ∨ (¬ present (pdeAt m.mem d (vaddr / 0x400000)) ∧ (∀ p, ¬ m.info.Free p)
      ∧ findPte m d vaddr true = (m, 0))
    ∨ (¬ present (pdeAt m.mem d (vaddr / 0x400000))
      ∧ ∃ j < m.info.bitmap.bitSize, m.info.Free (m.info.page j)
        ∧ findPte m d vaddr true
          = ({ m with
               info := m.info.setPage j true
               mem := newTable m.mem d (vaddr / 0x400000) (m.info.page j) },
             m.info.page j + 4 * (vaddr / 0x1000 % 1024))) := by
  simp only [findPte, pdeIndex_eq, pteIndex_eq, Bool.not_true, Bool.false_eq_true, if_false]
  rw [← pdeAt]
  by_cases hp : present (pdeAt m.mem d (vaddr / 0x400000))
  · exact Or.inl ⟨hp, by rw [if_pos hp, ← tableAt]⟩
  · right
    rw [if_neg hp]
    rcases memory32AllocPage_one hinfo with ⟨heq, hall⟩ | ⟨j, hj, hfree, heq⟩
    · exact Or.inl ⟨hp, hall, by rw [heq]; rfl⟩
    · refine Or.inr ⟨hp, j, hj, hfree, ?_⟩
      have hpos := hfree.pos hinfo
      rw [heq]
      dsimp only
      rw [if_neg (by omega), ← newTable]

/-- What has happened to the machine when the page `n` was mapped in the
directory `d` by the entry `v`. At most one page was taken, for a table. -/
structure Mapped (m m' : Machine) (d n v : Nat) : Prop where
  info : m'.info.Ok
  start : m'.info.start = m.info.start
  bitSize : m'.info.bitmap.bitSize = m.info.bitmap.bitSize
  dir : DirOk m'.mem m'.info d
  pte : ∀ n' < 0x100000, pteAt m'.mem d n' = if n' = n then some v else pteAt m.mem d n'
  pde : ∀ j < 1024, j ≠ n / 1024 → pdeAt m'.mem d j = pdeAt m.mem d j
  pde_present : present (pdeAt m'.mem d (n / 1024))
  pde_old : present (pdeAt m.mem d (n / 1024)) →
    pdeAt m'.mem d (n / 1024) = pdeAt m.mem d (n / 1024)
  table_fresh : ¬ present (pdeAt m.mem d (n / 1024)) → m.info.Free (tableAt m'.mem d (n / 1024))
  pte_ne_zero : tableAt m'.mem d (n / 1024) + 4 * (n % 1024) ≠ 0
  free : ∀ q, m'.info.Free q ↔ m.info.Free q ∧ q ≠ tableAt m'.mem d (n / 1024)
  mem : ∀ b, b / 0x1000 * 0x1000 ≠ d → b / 0x1000 * 0x1000 ≠ tableAt m'.mem d (n / 1024) →
    m'.mem b = m.mem b
  cr3 : m'.cr3 = m.cr3
  kernelPde : m'.kernelPde = m.kernelPde

/-- The entry is written where the table is there already. -/
theorem mapped_of_present (hinfo : m.info.Ok) (hd : DirOk m.mem m.info d) (hn : n < 0x100000)
    (hp : present (pdeAt m.mem d (n / 1024))) (hv : v < 2 ^ 32) (hpv : present v)
    (hne : tableAt m.mem d (n / 1024) + 4 * (n % 1024) ≠ 0) :
    Mapped m { m with mem := m.mem.store32 (tableAt m.mem d (n / 1024) + 4 * (n % 1024)) v }
      d n v := by
  have hi : n / 1024 < 1024 := by omega
  have hk : n % 1024 < 1024 := by omega
  have hpde := fun j hj => pdeAt_writePte hd hi hp hk (v := v) (j := j) hj
  have htable : tableAt (m.mem.store32 (tableAt m.mem d (n / 1024) + 4 * (n % 1024)) v) d
      (n / 1024) = tableAt m.mem d (n / 1024) := by
    rw [tableAt, hpde _ hi, ← tableAt]
  constructor
  case info => exact hinfo
  case start => rfl
  case bitSize => rfl
  case dir => exact hd.writePte hi hp hk
  case pte =>
    intro n' hn'
    have heq : n' = 1024 * (n / 1024) + n % 1024 ↔ n' = n := by omega
    rw [pteAt_writePte hd hi hp hk hv hn', if_pos hpv]
    simp only [heq]
  case pde => exact fun j hj _ => hpde j hj
  case pde_present =>
    dsimp only
    rwa [hpde _ hi]
  case pde_old => exact fun _ => hpde _ hi
  case table_fresh => exact fun h => absurd hp h
  case pte_ne_zero =>
    dsimp only
    rwa [htable]
  case free =>
    intro q
    dsimp only
    rw [htable]
    exact ⟨fun h => ⟨h, fun he => hd.table_used _ hi hp (he ▸ h)⟩, And.left⟩
  case mem =>
    intro b _ hb
    dsimp only at hb ⊢
    rw [htable] at hb
    have := tableAt_aligned m.mem d (n / 1024)
    exact Bytes.store32_outside (by omega)
  case cr3 => rfl
  case kernelPde => rfl

/-- The entry is written into a table that was taken for it. -/
theorem mapped_of_newTable (hinfo : m.info.Ok) (hd : DirOk m.mem m.info d) (hn : n < 0x100000)
    (hp : ¬ present (pdeAt m.mem d (n / 1024))) (hv : v < 2 ^ 32) (hpv : present v)
    {j : Nat} (hj : j < m.info.bitmap.bitSize) (hfree : m.info.Free (m.info.page j)) :
    Mapped m { m with
      info := m.info.setPage j true
      mem := (newTable m.mem d (n / 1024) (m.info.page j)).store32
        (m.info.page j + 4 * (n % 1024)) v } d n v := by
  have hi : n / 1024 < 1024 := by omega
  have htake := fun q => @Memory32Info.free_setPage m.info q j hj
  have hd₁ := DirOk.newTable hd hinfo hi hfree htake
  have hself := tableAt_newTable_self hd hinfo hi hfree
  have hpde := fun j hj => pdeAt_newTable (n / 1024) hd hinfo hfree (j := j) hj
  have hpos := hfree.pos hinfo
  have hp₁ : present (pdeAt (newTable m.mem d (n / 1024) (m.info.page j)) d (n / 1024)) := by
    rw [hpde _ hi, if_pos rfl]
    exact present_newTable_self hinfo hfree
  let m₁ : Machine := { m with
    info := m.info.setPage j true
    mem := newTable m.mem d (n / 1024) (m.info.page j) }
  have hm := @mapped_of_present m₁ d n v (hinfo.setPage j true) hd₁ hn hp₁ hv hpv
    (by dsimp only [m₁]; rw [hself]; omega)
  dsimp only [m₁] at hm
  rw [hself] at hm
  have htable := congrArg pdeAddress (hm.pde_old hp₁)
  rw [← tableAt, ← tableAt, hself] at htable
  constructor
  case info => exact hm.info
  case start => rfl
  case bitSize => exact Memory32Info.setPage_bitSize true
  case dir => exact hm.dir
  case pte =>
    intro n' hn'
    rw [hm.pte n' hn']
    dsimp only
    rw [pteAt_newTable hd hinfo hi hp hfree hn']
  case pde =>
    intro j' hj' hne
    rw [hm.pde j' hj' hne]
    dsimp only
    rw [hpde j' hj', if_neg hne]
  case pde_present => exact hm.pde_present
  case pde_old => exact fun h => absurd h hp
  case table_fresh =>
    intro _
    rw [htable]
    exact hfree
  case pte_ne_zero => exact hm.pte_ne_zero
  case free =>
    intro q
    rw [htable]
    exact htake q
  case mem =>
    intro b hb hb'
    rw [hm.mem b hb hb']
    rw [htable] at hb'
    have hal := hfree.aligned hinfo
    have hdal := hd.aligned
    dsimp only
    rw [newTable, Bytes.fill_outside (by omega), Bytes.store32_outside (by omega)]
  case cr3 => rfl
  case kernelPde => rfl

/-- One round of the loop of `memory32_create_map`. -/
theorem findPte_mapped (hinfo : m.info.Ok) (hd : DirOk m.mem m.info d) (hva : vaddr < 2 ^ 32)
    (hv : v < 2 ^ 32) (hpv : present v) (hpte : (findPte m d vaddr true).2 ≠ 0) :
    Mapped m { (findPte m d vaddr true).1 with
      mem := (findPte m d vaddr true).1.mem.store32 (findPte m d vaddr true).2 v }
      d (vaddr / 0x1000) v := by
  have hn : vaddr / 0x1000 < 0x100000 := by omega
  have hidx : vaddr / 0x400000 = vaddr / 0x1000 / 1024 := by omega
  rcases @findPte_cases m d vaddr hinfo with ⟨hp, heq⟩ | ⟨-, -, heq⟩ | ⟨hp, j, hj, hfree, heq⟩
  · rw [hidx] at hp heq
    rw [heq] at hpte ⊢
    exact mapped_of_present hinfo hd hn hp hv hpv hpte
  · exact absurd (by rw [heq]) hpte
  · rw [hidx] at hp heq
    rw [heq]
    exact mapped_of_newTable hinfo hd hn hp hv hpv hj hfree

/-- A call for one page. -/
theorem createMap_one (hinfo : m.info.Ok) (hd : DirOk m.mem m.info d) (hva : vaddr < 2 ^ 32)
    (hpa : paddr % 0x1000 = 0) (hpa' : paddr < 2 ^ 32) (hperm : perm < 0x1000) :
    ((findPte m d vaddr true).2 = 0
      ∧ memory32CreateMap m d vaddr paddr 1 perm = ((findPte m d vaddr true).1, -1))
    ∨ ∃ m', memory32CreateMap m d vaddr paddr 1 perm = (m', 0)
      ∧ Mapped m m' d (vaddr / 0x1000) (paddr ||| perm ||| 1) := by
  by_cases hpte : (findPte m d vaddr true).2 = 0
  · left
    exact ⟨hpte, by simp [memory32CreateMap, hpte]⟩
  · right
    refine ⟨_, by simp only [memory32CreateMap, if_neg hpte]; rfl, ?_⟩
    exact findPte_mapped hinfo hd hva (entry_lt hpa hperm hpa') present_entry hpte

/-- What the loop of `memory32_create_map` has done when it has run to
its end, page by page. -/
theorem createMap_pteAt {count : Nat} (hinfo : m.info.Ok) (hd : DirOk m.mem m.info d)
    (hva : vaddr + count * 0x1000 ≤ 2 ^ 32) (hpa : paddr % 0x1000 = 0) (hpa' : paddr < 2 ^ 32)
    (hperm : perm < 0x1000) (hrun : memory32CreateMap m d vaddr paddr count perm = (m', 0)) :
    DirOk m'.mem m'.info d
    ∧ (∀ j < 1024, present (pdeAt m.mem d j) → pdeAt m'.mem d j = pdeAt m.mem d j)
    ∧ (∀ n < 0x100000, pteAt m'.mem d n =
        if vaddr / 0x1000 ≤ n ∧ n < vaddr / 0x1000 + count then
          some (u32 (paddr + (n - vaddr / 0x1000) * 0x1000) ||| perm ||| 1)
        else pteAt m.mem d n)
    ∧ ∀ n, vaddr / 0x1000 ≤ n → n < vaddr / 0x1000 + count →
        tableAt m'.mem d (n / 1024) + 4 * (n % 1024) ≠ 0 := by
  induction count generalizing m vaddr paddr with
  | zero =>
      obtain rfl : m = m' := congrArg Prod.fst hrun
      refine ⟨hd, fun _ _ _ => rfl, fun n _ => (if_neg (by omega)).symm, fun n _ _ => by omega⟩
  | succ count ih =>
      rw [memory32CreateMap] at hrun
      by_cases hpte : (findPte m d vaddr true).2 = 0
      · simp [hpte] at hrun
      simp only [if_neg hpte] at hrun
      have hm := findPte_mapped hinfo hd (by omega) (entry_lt hpa hperm hpa')
        (@present_entry paddr perm) hpte
      generalize { (findPte m d vaddr true).1 with
        mem := (findPte m d vaddr true).1.mem.store32 (findPte m d vaddr true).2
          (paddr ||| perm ||| 1) } = m₁ at hm hrun
      have hlt : vaddr < 2 ^ 32 := by omega
      -- after the last round the next address may be 2^32, that is 0
      have hnext : count = 0 ∨ u32 (vaddr + 0x1000) = vaddr + 0x1000 := by
        rw [u32]
        omega
      have hva' : u32 (vaddr + 0x1000) + count * 0x1000 ≤ 2 ^ 32 := by
        rw [u32]
        omega
      have hpa₁ : u32 (paddr + 0x1000) % 0x1000 = 0 := by
        rw [u32]
        omega
      have hpa₁' : u32 (paddr + 0x1000) < 2 ^ 32 := by
        rw [u32]
        omega
      obtain ⟨hd', hold, hpte', hne⟩ := ih hm.info hm.dir hva' hpa₁ hpa₁' hrun
      have hkeep : ∀ j < 1024, present (pdeAt m₁.mem d j) →
          tableAt m'.mem d j = tableAt m₁.mem d j := by
        intro j hj hp
        rw [tableAt, hold j hj hp, ← tableAt]
      have hi : vaddr / 0x1000 / 1024 < 1024 := by omega
      refine ⟨hd', fun j hj hp => ?_, fun n hn => ?_, fun n hn hn' => ?_⟩
      · have hsame : pdeAt m₁.mem d j = pdeAt m.mem d j := by
          by_cases hji : j = vaddr / 0x1000 / 1024
          · subst hji
            exact hm.pde_old hp
          · exact hm.pde j hj hji
        rw [hold j hj (by rwa [hsame]), hsame]
      · rw [hpte' n hn, hm.pte n hn]
        rcases Nat.lt_trichotomy n (vaddr / 0x1000) with hlo | heq | hhi
        · rw [if_neg (by omega), if_neg (by omega), if_neg (by omega)]
        · rw [if_neg (by omega), if_pos heq, if_pos (by omega), heq, Nat.sub_self,
            Nat.zero_mul, Nat.add_zero, u32_of_lt hpa']
        · by_cases hin : n < vaddr / 0x1000 + (count + 1)
          · have hn₁ : u32 (vaddr + 0x1000) / 0x1000 = vaddr / 0x1000 + 1 := by omega
            have hframe : u32 (u32 (paddr + 0x1000) + (n - (vaddr / 0x1000 + 1)) * 0x1000)
                = u32 (paddr + (n - vaddr / 0x1000) * 0x1000) := by
              simp only [u32]
              omega
            rw [hn₁, if_pos (by omega), if_pos (by omega), hframe]
          · rw [if_neg (by omega), if_neg (by omega), if_neg (by omega)]
      · rcases Nat.lt_or_eq_of_le hn with hhi | heq
        · exact hne n (by omega) (by omega)
        · rw [← heq, hkeep _ hi hm.pde_present]
          exact hm.pte_ne_zero

theorem pteAt_eq_some {mem : Bytes} (h : pteAt mem d n = some v) :
    present (pdeAt mem d (n / 1024)) ∧ mem.load32 (tableAt mem d (n / 1024) + 4 * (n % 1024)) = v
      ∧ present v := by
  simp only [pteAt] at h
  split at h
  case isFalse => cases h
  case isTrue hp =>
    split at h
    case isFalse => cases h
    case isTrue hpv =>
      obtain rfl := Option.some.inj h
      exact ⟨hp, rfl, hpv⟩

/-- `find_pte` when it may not allocate. -/
theorem findPte_false : findPte m d vaddr false
    = (m, if present (pdeAt m.mem d (vaddr / 0x1000 / 1024)) then
        tableAt m.mem d (vaddr / 0x1000 / 1024) + 4 * (vaddr / 0x1000 % 1024) else 0) := by
  have hidx : vaddr / 0x400000 = vaddr / 0x1000 / 1024 := by omega
  simp only [findPte, pdeIndex_eq, pteIndex_eq, hidx, Bool.not_false, if_true]
  rw [← pdeAt, ← tableAt]
  split <;> rfl

/-- `get_paddr` agrees with the MMU on a page that is present. -/
theorem getPaddr_eq (hd : d ≠ 0) (hv : pteAt m.mem d (vaddr / 0x1000) = some v)
    (hne : tableAt m.mem d (vaddr / 0x1000 / 1024) + 4 * (vaddr / 0x1000 % 1024) ≠ 0) :
    getPaddr m d vaddr = u32 (pteAddress v + vaddr % 0x1000) := by
  obtain ⟨hp, hload, -⟩ := pteAt_eq_some hv
  have hand : vaddr &&& 0xFFF = vaddr % 0x1000 := Nat.and_two_pow_sub_one_eq_mod vaddr 12
  simp only [getPaddr, if_neg hd, findPte_false, if_pos hp, if_neg hne, hload, hand]

/-- The mapping law. When the call runs to its end, every address of the
range is present, at the place and with the flags that were asked for,
and every other address is translated as it was before. -/
theorem memory32CreateMap_law {count : Nat} (hinfo : m.info.Ok) (hd : DirOk m.mem m.info d)
    (hva : vaddr % 0x1000 = 0) (hlim : vaddr + count * 0x1000 ≤ 2 ^ 32)
    (hpa : paddr % 0x1000 = 0) (hpa' : paddr < 2 ^ 32) (hperm : perm < 0x1000)
    (hrun : memory32CreateMap m d vaddr paddr count perm = (m', 0)) :
    (∀ i < count, ∀ off < 0x1000,
      walk m'.mem d (vaddr + i * 0x1000 + off)
        = some (u32 (paddr + i * 0x1000 + off), perm ||| 1)
      ∧ getPaddr m' d (vaddr + i * 0x1000 + off) = u32 (paddr + i * 0x1000 + off))
    ∧ ∀ va < 2 ^ 32, va < vaddr ∨ vaddr + count * 0x1000 ≤ va →
        walk m'.mem d va = walk m.mem d va := by
  obtain ⟨-, -, hpte, hne⟩ := createMap_pteAt hinfo hd hlim hpa hpa' hperm hrun
  refine ⟨fun i hi off hoff => ?_, fun va hva' hout => ?_⟩
  · have hpage : (vaddr + i * 0x1000 + off) / 0x1000 = vaddr / 0x1000 + i := by omega
    have hlow : (vaddr + i * 0x1000 + off) % 0x1000 = off := by omega
    have hv := hpte (vaddr / 0x1000 + i) (by omega)
    rw [if_pos (by omega), Nat.add_sub_cancel_left] at hv
    have hfr : u32 (paddr + i * 0x1000) % 0x1000 = 0 := by
      rw [u32]
      omega
    have hsum : u32 (paddr + i * 0x1000) + off = u32 (paddr + i * 0x1000 + off) := by
      simp only [u32] at hfr ⊢
      omega
    refine ⟨?_, ?_⟩
    · rw [walk_eq, hpage, hlow, hv, Option.map_some, pteAddress_entry hfr hperm,
        entry_mod hfr hperm, hsum]
    · rw [getPaddr_eq hd.ne_zero (by rw [hpage]; exact hv)
        (by rw [hpage]; exact hne _ (by omega) (by omega)), hlow, pteAddress_entry hfr hperm, hsum]
      exact Nat.mod_eq_of_lt (Nat.mod_lt _ (by decide))
  · rw [walk_eq, walk_eq, hpte _ (by omega), if_neg (by omega)]

end Mapping

/-- Sixteen pages from 1 MiB on. The first one is in use and holds an
empty directory. -/
def smallMachine : Machine where
  mem := fun _ => 0
  cr3 := 0x100000
  kernelPde := 0x8000
  info :=
    { start := 0x100000
      pageSize := 0x1000
      bitmap := { bitSize := 16, bits := fun i => if i = 0 then 1 else 0 } }

theorem smallMachine_infoOk : smallMachine.info.Ok :=
  ⟨rfl, by decide, by decide, by decide⟩

theorem smallMachine_free {p : Nat} (h : smallMachine.info.Free p) :
    0x100000 < p ∧ p < 0x110000 := by
  obtain ⟨i, hi, hbit, rfl⟩ := h
  have hne : i ≠ 0 := by
    rintro rfl
    exact absurd hbit (by decide)
  have hlt : i < 16 := hi
  simp only [Memory32Info.page, smallMachine]
  omega

theorem smallMachine_pdeAt (d i : Nat) : pdeAt smallMachine.mem d i = 0 := rfl

/-- An empty directory is well formed wherever the allocator cannot reach it. -/
theorem smallMachine_dirOk {d : Nat} (hd : d % 0x1000 = 0) (hpos : d ≠ 0) (hlt : d ≤ 0x100000) :
    DirOk smallMachine.mem smallMachine.info d := by
  refine .of_absent hpos hd (fun h => ?_) fun i _ => by rw [smallMachine_pdeAt]; decide
  have := (smallMachine_free h).1
  omega

theorem memory32CreateMap_law_small :
    (memory32CreateMap smallMachine 0x100000 0x40000000 0x300000 2 6).2 = 0
      ∧ getPaddr (memory32CreateMap smallMachine 0x100000 0x40000000 0x300000 2 6).1
          0x100000 0x40001234 = 0x301234
      ∧ walk (memory32CreateMap smallMachine 0x100000 0x40000000 0x300000 2 6).1.mem
          0x100000 0x40002000 = none := by
  have hret : (memory32CreateMap smallMachine 0x100000 0x40000000 0x300000 2 6).2 = 0 := by decide
  have hrun : memory32CreateMap smallMachine 0x100000 0x40000000 0x300000 2 6
      = ((memory32CreateMap smallMachine 0x100000 0x40000000 0x300000 2 6).1, 0) :=
    Prod.ext rfl hret
  obtain ⟨hin, hout⟩ := memory32CreateMap_law smallMachine_infoOk
    (smallMachine_dirOk (by decide) (by decide) (by decide)) (by decide) (by decide) (by decide)
    (by decide) (by decide) hrun
  refine ⟨hret, ?_, ?_⟩
  · exact (hin 1 (by decide) 0x234 (by decide)).2.trans (by decide)
  · rw [hout 0x40002000 (by decide) (by decide)]
    decide

end Csos
