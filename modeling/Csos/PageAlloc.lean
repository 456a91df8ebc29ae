import Csos.Process

/-!
# Single pages (`alloc_page`, `free_page`)

Runs of `alloc_page` and `free_page` from `init_memory32_info`, in which only
pages are given back that were returned and not given back since. What the
callers hold and what the bitmap says is free divide the pages of the region
(`PageUse.Inv`).
-/

namespace Csos

open Lib

/-! ## The code -/

/-- `bitmap_bit_size`. -/
def bitmapBitSize (bitSize : Nat) : Nat := (bitSize + 8 - 1) / 8

/-- `bitmap_init`; `bits` holds anything before. -/
def bitmapInit (bits : Nat → BitVec 8) (bitSize : Nat) (value : Bool) : Bitmap where
  bitSize := bitSize
  bits := fun i => if i < bitmapBitSize bitSize then (if value then 1 else 0) else bits i

/-- `init_memory32_info`. -/
def initMemory32Info (bits : Nat → BitVec 8) (start size pageSize : Nat) : Memory32Info where
  start := start
  pageSize := pageSize
  bitmap := bitmapInit bits (size / pageSize) false

/-- A call; `cr3` is the directory of the task that makes it. -/
inductive AllocCall where
  | allocPage
  | freePage (cr3 p : Nat)

/-- The kernel, and the pages that were returned and not given back since. -/
structure PageUse where
  machine : Machine
  held : List Nat

namespace PageUse

def start (m : Machine) (bits : Nat → BitVec 8) (start size : Nat) : PageUse where
  machine := { m with info := initMemory32Info bits start size 0x1000 }
  held := []

def step (u : PageUse) : AllocCall → Option PageUse
  | .allocPage =>
      let (machine, p) := u.machine.allocPage
      some { machine, held := if p = 0 then u.held else p :: u.held }
  | .freePage cr3 p =>
      (freePage u.machine cr3 p).map fun machine => { machine, held := u.held.erase p }

/-- Only pages that are held are given back. -/
def Proper (u : PageUse) : AllocCall → Prop
  | .allocPage => True
  | .freePage _ p => p ∈ u.held

instance (u : PageUse) : ∀ c, Decidable (u.Proper c)
  | .allocPage => isTrue trivial
  | .freePage _ p => inferInstanceAs (Decidable (p ∈ u.held))

end PageUse

/-! ## The law -/

/-- `p` is a page inside `[start, start + size)`. -/
structure PageIn (start size p : Nat) : Prop where
  aligned : p % 0x1000 = 0
  start_le : start ≤ p
  le_end : p + 0x1000 ≤ start + size

/-- What holds between two calls. -/
structure PageLaw (start size : Nat) (u : PageUse) : Prop where
  nodup : u.held.Nodup
  inside : ∀ p ∈ u.held, PageIn start size p
  /-- `alloc_page` returns 0 when every page is held, and then only. -/
  alloc_zero : u.machine.allocPage.2 = 0 ↔ ∀ p, PageIn start size p → p ∈ u.held
  alloc_unchanged : u.machine.allocPage.2 = 0 → u.machine.allocPage.1 = u.machine
  /-- Otherwise it returns the lowest page that is not held. -/
  alloc_page : u.machine.allocPage.2 ≠ 0 →
    PageIn start size u.machine.allocPage.2 ∧ u.machine.allocPage.2 ∉ u.held
      ∧ ∀ p, PageIn start size p → p ∉ u.held → u.machine.allocPage.2 ≤ p
  /-- The pages that are free are those that are not held. -/
  free : ∀ p, u.machine.info.Free p ↔ PageIn start size p ∧ p ∉ u.held
  /-- `free_page` makes its page free, and no other. -/
  free_page : ∀ cr3, ∀ p ∈ u.held, ∃ m, freePage u.machine cr3 p = some m
    ∧ ∀ q, m.info.Free q ↔ u.machine.info.Free q ∨ q = p

namespace PageUse

/-- The pages of the region are free or held. -/
structure Inv (start size : Nat) (u : PageUse) : Prop where
  ok : u.machine.info.Ok
  start_eq : u.machine.info.start = start
  bitSize : u.machine.info.bitmap.bitSize = size / 0x1000
  nodup : u.held.Nodup
  inside : ∀ p ∈ u.held, PageIn start size p
  free : ∀ p, u.machine.info.Free p ↔ PageIn start size p ∧ p ∉ u.held

section Inv

variable {s size : Nat} {u : PageUse} {c : AllocCall}

theorem bitmapGetBit_init {bits : Nat → BitVec 8} {n i : Nat} (h : i < n) :
    bitmapGetBit (bitmapInit bits n false) i = false := by
  have hbyte : i / 8 < bitmapBitSize n := by
    rw [bitmapBitSize]
    omega
  have hzero : (bitmapInit bits n false).bits (i / 8) = 0 := if_pos hbyte
  rw [bitmapGetBit_eq, hzero]
  simp

/-- The pages of the region are those of the bits. -/
theorem pageIn_iff (hs : s % 0x1000 = 0) {p : Nat} :
    PageIn s size p ↔ ∃ i < size / 0x1000, p = s + i * 0x1000 := by
  constructor
  · rintro ⟨ha, hle, hend⟩
    exact ⟨(p - s) / 0x1000, by omega, by omega⟩
  · rintro ⟨i, hi, rfl⟩
    exact ⟨by omega, by omega, by omega⟩

theorem Inv.start (m : Machine) (bits : Nat → BitVec 8) (hs : s % 0x1000 = 0) (hpos : 0 < s)
    (hlim : s + size ≤ vmShellBase) : Inv s size (PageUse.start m bits s size) := by
  refine ⟨⟨rfl, hpos, hs, ?_⟩, rfl, rfl, List.nodup_nil, fun p hp => absurd hp List.not_mem_nil,
    fun p => ?_⟩
  · simp only [Memory32Info.page, PageUse.start, initMemory32Info, bitmapInit]
    rw [vmShellBase] at hlim
    omega
  · rw [pageIn_iff hs]
    constructor
    · rintro ⟨i, hi, -, rfl⟩
      exact ⟨⟨i, hi, rfl⟩, List.not_mem_nil⟩
    · rintro ⟨⟨i, hi, rfl⟩, -⟩
      exact ⟨i, hi, bitmapGetBit_init hi, rfl⟩

/-- What `alloc_page` does to a kernel of that kind. -/
theorem Inv.alloc (h : Inv s size u) :
    (u.machine.allocPage = (u.machine, 0) ∧ ∀ p, ¬ u.machine.info.Free p)
    ∨ ∃ i < u.machine.info.bitmap.bitSize,
      u.machine.info.Free (u.machine.info.page i)
      ∧ (∀ p, u.machine.info.Free p → u.machine.info.page i ≤ p)
      ∧ u.machine.allocPage
        = ({ u.machine with info := u.machine.info.setPage i true }, u.machine.info.page i) := by
  rcases memory32AllocPage_lowest h.ok with ⟨heq, hall⟩ | ⟨i, hlt, hfree, hlow, heq⟩
  · exact Or.inl ⟨by rw [Machine.allocPage, heq], hall⟩
  · exact Or.inr ⟨i, hlt, hfree, hlow, by rw [Machine.allocPage, heq]⟩

/-- A held page is one of the allocator. -/
theorem Inv.held_page (h : Inv s size u) {p : Nat} (hp : p ∈ u.held) :
    ∃ i < u.machine.info.bitmap.bitSize, p = u.machine.info.page i := by
  have hs := h.ok.aligned
  rw [h.start_eq] at hs
  obtain ⟨i, hi, rfl⟩ := (pageIn_iff hs).mp (h.inside p hp)
  exact ⟨i, h.bitSize ▸ hi, by rw [Memory32Info.page, h.start_eq]⟩

/-- What `free_page` does with a held page. -/
theorem Inv.free_page (h : Inv s size u) (hlim : s + size ≤ vmShellBase) (cr3 : Nat) {p : Nat}
    (hp : p ∈ u.held) :
    ∃ i < u.machine.info.bitmap.bitSize, p = u.machine.info.page i
      ∧ freePage u.machine cr3 p
        = some { u.machine with info := u.machine.info.setPage i false } := by
  obtain ⟨i, hi, hpi⟩ := h.held_page hp
  have hlow : p < vmShellBase := by
    have := (h.inside p hp).le_end
    omega
  refine ⟨i, hi, hpi, ?_⟩
  rw [freePage, if_pos hlow, hpi, memory32FreePage_page h.ok hi]

theorem Inv.step (hlim : s + size ≤ vmShellBase) (h : Inv s size u) (hc : u.Proper c) :
    ∃ u', u.step c = some u' ∧ Inv s size u' := by
  cases c with
  | allocPage =>
      rcases h.alloc with ⟨heq, -⟩ | ⟨i, hi, hfree, -, heq⟩
      · exact ⟨u, by simp only [PageUse.step, heq]; rfl, h⟩
      · obtain ⟨hin, hnot⟩ := (h.free _).mp hfree
        have hpos := hfree.pos h.ok
        refine ⟨_, by simp only [PageUse.step, heq, if_neg hpos.ne']; rfl, ?_⟩
        refine ⟨h.ok.setPage i true, h.start_eq, ?_, List.nodup_cons.mpr ⟨hnot, h.nodup⟩, ?_, ?_⟩
        · exact (Memory32Info.setPage_bitSize true).trans h.bitSize
        · intro p hp
          rcases List.mem_cons.mp hp with rfl | hp
          · exact hin
          · exact h.inside p hp
        · intro p
          rw [Memory32Info.free_setPage hi, h.free, List.mem_cons, not_or]
          tauto
  | freePage cr3 p =>
      obtain ⟨i, hi, hpi, heq⟩ := h.free_page hlim cr3 hc
      refine ⟨_, by simp only [PageUse.step, heq]; rfl, ?_⟩
      refine ⟨h.ok.setPage i false, h.start_eq, ?_, h.nodup.erase p, ?_, ?_⟩
      · exact (Memory32Info.setPage_bitSize false).trans h.bitSize
      · exact fun q hq => h.inside q (List.mem_of_mem_erase hq)
      · intro q
        rw [Memory32Info.free_setPage_false hi, h.free, h.nodup.mem_erase_iff, ← hpi]
        by_cases hqp : q = p
        · subst hqp
          simp [h.inside q hc]
        · simp [hqp]

theorem Inv.law (hlim : s + size ≤ vmShellBase) (h : Inv s size u) : PageLaw s size u := by
  have hzero : (∀ p, ¬ u.machine.info.Free p) ↔ ∀ p, PageIn s size p → p ∈ u.held := by
    refine forall_congr' fun p => ?_
    rw [h.free]
    tauto
  refine ⟨h.nodup, h.inside, ?_, ?_, ?_, h.free, fun cr3 p hp => ?_⟩
  · rw [← hzero]
    rcases h.alloc with ⟨heq, hall⟩ | ⟨i, -, hfree, -, heq⟩
    · rw [heq]
      simpa using hall
    · rw [heq]
      exact iff_of_false (hfree.pos h.ok).ne' fun hall => hall _ hfree
  · intro h0
    rcases h.alloc with ⟨heq, -⟩ | ⟨i, -, hfree, -, heq⟩
    · rw [heq]
    · rw [heq] at h0
      exact absurd h0 (hfree.pos h.ok).ne'
  · intro hne
    rcases h.alloc with ⟨heq, -⟩ | ⟨i, -, hfree, hlow, heq⟩
    · rw [heq] at hne
      exact absurd rfl hne
    · obtain ⟨hin, hnot⟩ := (h.free _).mp hfree
      rw [heq]
      exact ⟨hin, hnot, fun p hp hpn => hlow p ((h.free p).mpr ⟨hp, hpn⟩)⟩
  · obtain ⟨i, hi, hpi, heq⟩ := h.free_page hlim cr3 hp
    exact ⟨_, heq, fun q => by rw [Memory32Info.free_setPage_false hi, hpi]⟩

end Inv

end PageUse

/-- Runs of the allocator of single pages from `init_memory32_info`. -/
theorem pageCalls_law {start size : Nat} (haligned : start % 0x1000 = 0) (hpos : 0 < start)
    (hlimit : start + size ≤ vmShellBase) (m : Machine) (bits : Nat → BitVec 8)
    (cs : List AllocCall)
    (hproper : Always PageUse.step PageUse.Proper (PageUse.start m bits start size) cs) :
    ∃ u, run PageUse.step (PageUse.start m bits start size) cs = some u
      ∧ PageLaw start size u := by
  obtain ⟨u, hrun, hinv⟩ := run_total_of_always (fun u c h hc => PageUse.Inv.step hlimit h hc)
    (PageUse.Inv.start m bits haligned hpos hlimit) hproper
  exact ⟨u, hrun, hinv.law hlimit⟩

/-- Two pages are taken, and the first is given back and taken again. -/
theorem pageCalls_law_two : ∃ u, run PageUse.step
      (PageUse.start ⟨fun _ => 0, 0, 0, ⟨0, 0, ⟨0, fun _ => 0⟩⟩⟩ (fun _ => 0xFF) 0x100000 0x2000)
      [.allocPage, .allocPage, .freePage 0 0x100000, .allocPage] = some u
    ∧ PageLaw 0x100000 0x2000 u :=
  pageCalls_law (by decide) (by decide) (by decide) _ _ _ (by decide)

end Csos
