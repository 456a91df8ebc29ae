import Csos.Lib.CString
import Csos.Execve

/-!
# The boot loader (`read_elf_header` in `lib/stdlib.c`)

The kernel's image lies in memory, and its segments are copied to their
physical addresses. The header and the table of program headers are read
from the memory that is written, anew in each round of each loop. The
build does not optimize, so a counter that is an `int` goes round at 2^32
and is compared as an unsigned number. `readElfHeader_law` says what the
memory is afterwards.
-/

namespace Csos

open Lib

/-! ## The code -/

/-- The fields of `Elf32_Phdr` that the boot loader reads. -/
structure BootSegment where
  type : Nat
  offset : Nat
  paddr : Nat
  filesz : Nat
  memsz : Nat
deriving DecidableEq

def bootSegment (mem : Bytes) (phdr : Nat) : BootSegment where
  type := mem.load32 phdr
  offset := mem.load32 (phdr + 4)
  paddr := mem.load32 (phdr + 12)
  filesz := mem.load32 (phdr + 16)
  memsz := mem.load32 (phdr + 20)

/-- The address of a program header. -/
def phdrAt (mem : Bytes) (buffer i : Nat) : Nat := u32 (buffer + mem.load32 (buffer + 28) + 32 * i)

/-- The loop that copies the bytes of the file. `j` stays below 2^32. -/
def copyFileLoop (phdr : Nat) : Nat → Bytes → Nat → Nat → Nat → Bytes
  | 0, mem, _, _, _ => mem
  | n + 1, mem, j, dst, src =>
      if j < (bootSegment mem phdr).filesz then
        copyFileLoop phdr n (mem.store8 dst (mem src)) (j + 1) (u32 (dst + 1)) (u32 (src + 1))
      else mem

/-- The loop that clears the rest of the segment. -/
def zeroTailLoop (phdr : Nat) : Nat → Bytes → Nat → Nat → Bytes
  | 0, mem, _, _ => mem
  | n + 1, mem, j, dst =>
      if j < u32 ((bootSegment mem phdr).memsz + 0x100000000 - (bootSegment mem phdr).filesz) then
        zeroTailLoop phdr n (mem.store8 dst 0) (j + 1) (u32 (dst + 1))
      else mem

/-- What a counter of 32 bits can count. -/
abbrev counterFuel : Nat := 0x100000000

/-- The body of the loop over the program headers. -/
def loadBootSegment (buffer phdr : Nat) (mem : Bytes) : Bytes :=
  let ph := bootSegment mem phdr
  if ph.type ≠ 1 then mem
  else
    let mem := copyFileLoop phdr counterFuel mem 0 ph.paddr (u32 (buffer + ph.offset))
    let ph := bootSegment mem phdr
    zeroTailLoop phdr counterFuel mem 0 (u32 (ph.paddr + ph.filesz))

/-- The loop over the program headers. `e_phnum` has 16 bits. -/
def loadBootSegments (buffer : Nat) : Nat → Bytes → Nat → Bytes
  | 0, mem, _ => mem
  | n + 1, mem, i =>
      if i < mem.load16 (buffer + 44) then
        loadBootSegments buffer n (loadBootSegment buffer (phdrAt mem buffer i) mem) (i + 1)
      else mem

/-- The first bytes of `e_ident`. -/
def elfIdent (mem : Bytes) (buffer : Nat) : List (BitVec 8) :=
  [mem buffer, mem (buffer + 1), mem (buffer + 2), mem (buffer + 3)]

def readElfHeader (mem : Bytes) (buffer : Nat) : Bytes × Nat :=
  if elfIdent mem buffer ≠ elfMagic then (mem, 0)
  else
    let mem := loadBootSegments buffer 0x10000 mem 0
    (mem, mem.load32 (buffer + 24))

/-! ## Images -/

namespace BootSegment

/-- `b` is an address that the segment is loaded to. -/
def Covers (s : BootSegment) (b : Nat) : Prop := s.type = 1 ∧ s.paddr ≤ b ∧ b < s.paddr + s.memsz

/-- What the segment of an image at `buffer` puts there. -/
def byteAt (s : BootSegment) (mem : Bytes) (buffer b : Nat) : BitVec 8 :=
  if b < s.paddr + s.filesz then mem (buffer + s.offset + (b - s.paddr)) else 0

end BootSegment

/-- The `i`-th segment of the image at `buffer`. -/
def segmentOf (mem : Bytes) (buffer i : Nat) : BootSegment :=
  bootSegment mem (buffer + mem.load32 (buffer + 28) + 32 * i)

def segmentCount (mem : Bytes) (buffer : Nat) : Nat := mem.load16 (buffer + 44)

/-- The `len` bytes at `buffer` are an image whose segments do not get in each other's way. -/
structure BootImage (mem : Bytes) (buffer len : Nat) : Prop where
  magic : elfIdent mem buffer = elfMagic
  fits : buffer + len ≤ 2 ^ 32
  header : 52 ≤ len
  table : mem.load32 (buffer + 28) + 32 * segmentCount mem buffer ≤ len
  size : ∀ i < segmentCount mem buffer, (segmentOf mem buffer i).type = 1 →
    (segmentOf mem buffer i).filesz ≤ (segmentOf mem buffer i).memsz
  file : ∀ i < segmentCount mem buffer, (segmentOf mem buffer i).type = 1 →
    (segmentOf mem buffer i).offset + (segmentOf mem buffer i).filesz ≤ len
  noWrap : ∀ i < segmentCount mem buffer, (segmentOf mem buffer i).type = 1 →
    (segmentOf mem buffer i).paddr + (segmentOf mem buffer i).memsz ≤ 2 ^ 32
  apart : ∀ i < segmentCount mem buffer, ∀ b, (segmentOf mem buffer i).Covers b →
    b < buffer ∨ buffer + len ≤ b
  disjoint : ∀ i < segmentCount mem buffer, ∀ j < segmentCount mem buffer, ∀ b,
    (segmentOf mem buffer i).Covers b → (segmentOf mem buffer j).Covers b → i = j

/-! ## The loops -/

variable {mem mem' : Bytes} {buffer len phdr i j n dst src : Nat}

theorem bootSegment_congr (h : ∀ b, phdr ≤ b → b < phdr + 32 → mem' b = mem b) :
    bootSegment mem' phdr = bootSegment mem phdr := by
  simp only [bootSegment]
  rw [Bytes.load32_congr fun b _ _ => h b (by omega) (by omega),
    Bytes.load32_congr fun b _ _ => h b (by omega) (by omega),
    Bytes.load32_congr fun b _ _ => h b (by omega) (by omega),
    Bytes.load32_congr fun b _ _ => h b (by omega) (by omega),
    Bytes.load32_congr fun b _ _ => h b (by omega) (by omega)]

theorem u32_succ (a : Nat) : u32 (u32 a + 1) = u32 (a + 1) := by
  simp only [u32]
  omega

/-- The copy, from its `j`-th byte on. It does not write the program header and what it reads. -/
theorem copyFileLoop_eq {fuel : Nat}
    (hn : (bootSegment mem phdr).filesz = n) (hfuel : n ≤ j + fuel) (hj : j ≤ n)
    (hdst : dst + n ≤ 2 ^ 32) (hsrc : src + n ≤ 2 ^ 32)
    (hphdr : ∀ b, phdr ≤ b → b < phdr + 32 → b < dst ∨ dst + n ≤ b)
    (hfile : ∀ b, src ≤ b → b < src + n → b < dst ∨ dst + n ≤ b) :
    copyFileLoop phdr fuel (mem.copy dst (fun k => mem (src + k)) j) j (u32 (dst + j))
        (u32 (src + j))
      = mem.copy dst (fun k => mem (src + k)) n := by
  induction fuel generalizing j with
  | zero =>
      obtain rfl : j = n := by omega
      rfl
  | succ fuel ih =>
      have hsame : bootSegment (mem.copy dst (fun k => mem (src + k)) j) phdr
          = bootSegment mem phdr := bootSegment_congr fun b hb hb' => by
        have := hphdr b hb hb'
        exact Bytes.copy_outside (by omega)
      rw [copyFileLoop, hsame, hn]
      by_cases hlt : j < n
      · have hread : mem.copy dst (fun k => mem (src + k)) j (src + j) = mem (src + j) := by
          have := hfile (src + j) (by omega) (by omega)
          exact Bytes.copy_outside (by omega)
        rw [if_pos hlt, u32_succ, u32_succ, u32_of_lt (by omega : dst + j < 2 ^ 32),
          u32_of_lt (by omega : src + j < 2 ^ 32), hread]
        rw [Bytes.store8_copy mem (fun k => mem (src + k)) dst j]
        exact ih (by omega) hlt
      · obtain rfl : j = n := by omega
        rw [if_neg hlt]

/-- The clearing, from its `j`-th byte on. -/
theorem zeroTailLoop_eq {fuel : Nat}
    (hn : u32 ((bootSegment mem phdr).memsz + 0x100000000 - (bootSegment mem phdr).filesz) = n)
    (hfuel : n ≤ j + fuel) (hj : j ≤ n) (hdst : dst + n ≤ 2 ^ 32)
    (hphdr : ∀ b, phdr ≤ b → b < phdr + 32 → b < dst ∨ dst + n ≤ b) :
    zeroTailLoop phdr fuel (mem.fill dst 0 j) j (u32 (dst + j)) = mem.fill dst 0 n := by
  induction fuel generalizing j with
  | zero =>
      obtain rfl : j = n := by omega
      rfl
  | succ fuel ih =>
      have hsame : bootSegment (mem.fill dst 0 j) phdr = bootSegment mem phdr :=
        bootSegment_congr fun b hb hb' => by
          have := hphdr b hb hb'
          exact Bytes.fill_outside (by omega)
      rw [zeroTailLoop, hsame, hn]
      by_cases hlt : j < n
      · rw [if_pos hlt, u32_succ, u32_of_lt (by omega : dst + j < 2 ^ 32), Bytes.store8_fill]
        exact ih (by omega) hlt
      · obtain rfl : j = n := by omega
        rw [if_neg hlt]

/-! ## One segment -/

/-- A segment that has room and does not touch what the loader reads for it. -/
structure SegmentFits (mem : Bytes) (buffer phdr : Nat) : Prop where
  size : (bootSegment mem phdr).filesz ≤ (bootSegment mem phdr).memsz
  file : buffer + (bootSegment mem phdr).offset + (bootSegment mem phdr).filesz ≤ 2 ^ 32
  noWrap : (bootSegment mem phdr).paddr + (bootSegment mem phdr).memsz ≤ 2 ^ 32
  header : ∀ b, phdr ≤ b → b < phdr + 32 → ¬ (bootSegment mem phdr).Covers b
  source : ∀ b, buffer + (bootSegment mem phdr).offset ≤ b →
    b < buffer + (bootSegment mem phdr).offset + (bootSegment mem phdr).filesz →
    ¬ (bootSegment mem phdr).Covers b

theorem BootSegment.outside {s : BootSegment} {b : Nat} (htype : s.type = 1) (hb : ¬ s.Covers b) :
    b < s.paddr ∨ s.paddr + s.memsz ≤ b := by
  by_contra hin
  exact hb ⟨htype, by omega, by omega⟩

/-- A segment is a copy and a fill. -/
theorem loadBootSegment_eq {s : BootSegment} (hs : bootSegment mem phdr = s) (htype : s.type = 1)
    (h : SegmentFits mem buffer phdr) :
    loadBootSegment buffer phdr mem
      = (mem.copy s.paddr (fun k => mem (buffer + s.offset + k)) s.filesz).fill
          (s.paddr + s.filesz) 0 (s.memsz - s.filesz) := by
  obtain ⟨hsize, hfile, hwrap, hheader, hsource⟩ := h
  rw [hs] at hsize hfile hwrap hheader hsource
  have hmemsz : s.memsz < 2 ^ 32 := by
    rw [← hs]
    exact Bytes.load32_lt ..
  have hpaddr : s.paddr < 2 ^ 32 := by
    rw [← hs]
    exact Bytes.load32_lt ..
  -- the bytes of the file
  let data : Bytes := fun k => mem (buffer + s.offset + k)
  have hcopy : copyFileLoop phdr counterFuel mem 0 s.paddr (u32 (buffer + s.offset))
      = mem.copy s.paddr data s.filesz := by
    have heq := @copyFileLoop_eq mem phdr 0 s.filesz s.paddr (buffer + s.offset) counterFuel
      (by rw [hs]) (by rw [counterFuel]; omega) (Nat.zero_le _) (by omega) hfile
      (fun b hb hb' => by have := BootSegment.outside htype (hheader b hb hb'); omega)
      (fun b hb hb' => by have := BootSegment.outside htype (hsource b hb hb'); omega)
    rw [Bytes.copy_zero, Nat.add_zero, Nat.add_zero, u32_of_lt hpaddr] at heq
    exact heq
  -- the rest
  have hsame : bootSegment (mem.copy s.paddr data s.filesz) phdr = s := by
    rw [← hs]
    refine bootSegment_congr fun b hb hb' => Bytes.copy_outside ?_
    have := BootSegment.outside htype (hheader b hb hb')
    rw [hs]
    omega
  have hzero : zeroTailLoop phdr counterFuel (mem.copy s.paddr data s.filesz) 0
        (u32 (s.paddr + s.filesz))
      = (mem.copy s.paddr data s.filesz).fill (s.paddr + s.filesz) 0 (s.memsz - s.filesz) := by
    have heq := @zeroTailLoop_eq (mem.copy s.paddr data s.filesz) phdr 0 (s.memsz - s.filesz)
      (s.paddr + s.filesz) counterFuel (by rw [hsame, u32]; omega) (by rw [counterFuel]; omega)
      (Nat.zero_le _) (by omega)
      (fun b hb hb' => by have := BootSegment.outside htype (hheader b hb hb'); omega)
    rw [Bytes.fill_zero, Nat.add_zero] at heq
    exact heq
  simp only [loadBootSegment, hs, htype, ne_eq, not_true_eq_false, if_false, hcopy, hsame, hzero]
  rfl

/-- One round: the segment is there, and everything else is as it was. -/
theorem loadBootSegment_covers
    (h : (bootSegment mem phdr).type = 1 → SegmentFits mem buffer phdr) (b : Nat) :
    ((bootSegment mem phdr).Covers b →
      loadBootSegment buffer phdr mem b = (bootSegment mem phdr).byteAt mem buffer b)
    ∧ (¬ (bootSegment mem phdr).Covers b → loadBootSegment buffer phdr mem b = mem b) := by
  by_cases htype : (bootSegment mem phdr).type = 1
  case neg =>
    rw [loadBootSegment, if_pos htype]
    exact ⟨fun hc => absurd hc.1 htype, fun _ => rfl⟩
  have hsize := (h htype).size
  rw [loadBootSegment_eq rfl htype (h htype)]
  generalize bootSegment mem phdr = s at *
  constructor
  · rintro ⟨-, hle, hlt⟩
    rw [BootSegment.byteAt]
    by_cases hin : b < s.paddr + s.filesz
    · rw [if_pos hin, Bytes.fill_outside (by omega), Bytes.copy_inside hle hin]
    · rw [if_neg hin, Bytes.fill, if_pos (by omega)]
  · intro hc
    have := BootSegment.outside htype hc
    rw [Bytes.fill_outside (by omega), Bytes.copy_outside (by omega)]

/-! ## All segments -/

/-- What the memory is when `n` segments of the image in `mem` have been loaded. -/
structure LoadedTo (mem : Bytes) (buffer n : Nat) (mem' : Bytes) : Prop where
  inside : ∀ i < n, ∀ b, (segmentOf mem buffer i).Covers b →
    mem' b = (segmentOf mem buffer i).byteAt mem buffer b
  outside : ∀ b, (∀ i < n, ¬ (segmentOf mem buffer i).Covers b) → mem' b = mem b

namespace BootImage

variable (h : BootImage mem buffer len)

include h

/-- The image itself stays. -/
theorem kept (hn : n ≤ segmentCount mem buffer) (hl : LoadedTo mem buffer n mem') {b : Nat}
    (hb : buffer ≤ b) (hb' : b < buffer + len) : mem' b = mem b :=
  hl.outside b fun i hi hc => by
    have := h.apart i (by omega) b hc
    omega

theorem segmentCount_kept (hn : n ≤ segmentCount mem buffer) (hl : LoadedTo mem buffer n mem') :
    mem'.load16 (buffer + 44) = segmentCount mem buffer := by
  have := h.header
  exact Bytes.load16_congr (h.kept hn hl (by omega) (by omega))
    (h.kept hn hl (by omega) (by omega))

theorem load32_kept (hn : n ≤ segmentCount mem buffer) (hl : LoadedTo mem buffer n mem') {a : Nat}
    (ha : a + 4 ≤ 52) : mem'.load32 (buffer + a) = mem.load32 (buffer + a) := by
  have := h.header
  exact Bytes.load32_congr fun b hb hb' => h.kept hn hl (by omega) (by omega)

/-- The header of the next segment is read from the image. -/
theorem phdrAt_kept (hn : n < segmentCount mem buffer) (hl : LoadedTo mem buffer n mem') :
    phdrAt mem' buffer n = buffer + mem.load32 (buffer + 28) + 32 * n
    ∧ bootSegment mem' (phdrAt mem' buffer n) = segmentOf mem buffer n := by
  have htable := h.table
  have hfits := h.fits
  have hat : phdrAt mem' buffer n = buffer + mem.load32 (buffer + 28) + 32 * n := by
    rw [phdrAt, h.load32_kept (by omega) hl (by omega), u32_of_lt (by omega)]
  refine ⟨hat, ?_⟩
  rw [hat, segmentOf]
  exact bootSegment_congr fun b hb hb' => h.kept (by omega) hl (by omega) (by omega)

theorem fits_kept (hn : n < segmentCount mem buffer) (hl : LoadedTo mem buffer n mem')
    (htype : (segmentOf mem buffer n).type = 1) :
    SegmentFits mem' buffer (phdrAt mem' buffer n) := by
  obtain ⟨hat, hseg⟩ := h.phdrAt_kept hn hl
  have htable := h.table
  have hfile := h.file n hn htype
  have hfits := h.fits
  refine ⟨?_, ?_, ?_, ?_, ?_⟩ <;> rw [hseg]
  · exact h.size n hn htype
  · omega
  · exact h.noWrap n hn htype
  · intro b hb hb' hc
    rw [hat] at hb hb'
    have := h.apart n hn b hc
    omega
  · intro b hb hb' hc
    have := h.apart n hn b hc
    omega

/-- One round of the loop. -/
theorem loadedTo_succ (hn : n < segmentCount mem buffer) (hl : LoadedTo mem buffer n mem') :
    LoadedTo mem buffer (n + 1) (loadBootSegment buffer (phdrAt mem' buffer n) mem') := by
  obtain ⟨hat, hseg⟩ := h.phdrAt_kept hn hl
  have hround := @loadBootSegment_covers mem' buffer (phdrAt mem' buffer n)
    fun ht => h.fits_kept hn hl (by rwa [← hseg])
  rw [hseg] at hround
  refine ⟨fun i hi b hc => ?_, fun b hc => ?_⟩
  · rcases Nat.lt_succ_iff_lt_or_eq.mp hi with hlt | rfl
    · have hother : ¬ (segmentOf mem buffer n).Covers b := fun hc' =>
        Nat.ne_of_lt hlt (h.disjoint i (by omega) n hn b hc hc')
      rw [(hround b).2 hother]
      exact hl.inside i hlt b hc
    · rw [(hround b).1 hc, BootSegment.byteAt, BootSegment.byteAt]
      split
      case isTrue hin =>
        have hfile := h.file i hn hc.1
        have hle := hc.2.1
        exact h.kept (by omega) hl (by omega) (by omega)
      case isFalse => rfl
  · rw [(hround b).2 (hc n (Nat.lt_succ_self n))]
    exact hl.outside b fun i hi => hc i (by omega)

/-- The loop, from its `n`-th round on. -/
theorem loadBootSegments_loaded {fuel : Nat} (hn : n ≤ segmentCount mem buffer)
    (hfuel : segmentCount mem buffer ≤ n + fuel) (hl : LoadedTo mem buffer n mem') :
    LoadedTo mem buffer (segmentCount mem buffer) (loadBootSegments buffer fuel mem' n) := by
  induction fuel generalizing n mem' with
  | zero =>
      obtain rfl : n = segmentCount mem buffer := by omega
      exact hl
  | succ fuel ih =>
      rw [loadBootSegments, h.segmentCount_kept hn hl]
      by_cases hlt : n < segmentCount mem buffer
      · rw [if_pos hlt]
        exact ih hlt (by omega) (h.loadedTo_succ hlt hl)
      · obtain rfl : n = segmentCount mem buffer := by omega
        rwa [if_neg hlt]

end BootImage

/-- The boot loader. An image is loaded and its entry comes back: a segment has the bytes of the
file and zeros behind them, and all other memory stays. Without the magic nothing happens. -/
theorem readElfHeader_law (mem : Bytes) (buffer : Nat) :
    (elfIdent mem buffer ≠ elfMagic → readElfHeader mem buffer = (mem, 0))
    ∧ ∀ len, BootImage mem buffer len →
      (readElfHeader mem buffer).2 = mem.load32 (buffer + 24)
      ∧ (∀ i < segmentCount mem buffer, (segmentOf mem buffer i).type = 1 →
          (∀ j < (segmentOf mem buffer i).filesz,
            (readElfHeader mem buffer).1 ((segmentOf mem buffer i).paddr + j)
              = mem (buffer + (segmentOf mem buffer i).offset + j))
          ∧ ∀ j, (segmentOf mem buffer i).filesz ≤ j → j < (segmentOf mem buffer i).memsz →
            (readElfHeader mem buffer).1 ((segmentOf mem buffer i).paddr + j) = 0)
      ∧ ∀ b, (∀ i < segmentCount mem buffer, ¬ (segmentOf mem buffer i).Covers b) →
        (readElfHeader mem buffer).1 b = mem b := by
  refine ⟨fun hne => by rw [readElfHeader, if_pos hne], fun len h => ?_⟩
  have hloaded : LoadedTo mem buffer (segmentCount mem buffer)
      (loadBootSegments buffer 0x10000 mem 0) :=
    h.loadBootSegments_loaded (Nat.zero_le _)
      (by have := Bytes.load16_lt mem (buffer + 44); rw [segmentCount]; omega)
      ⟨fun i hi => absurd hi (by omega), fun _ _ => rfl⟩
  have hrun : readElfHeader mem buffer = (loadBootSegments buffer 0x10000 mem 0,
      (loadBootSegments buffer 0x10000 mem 0).load32 (buffer + 24)) := by
    rw [readElfHeader, if_neg (by rw [h.magic]; exact fun hne => hne rfl)]
  rw [hrun]
  dsimp only
  refine ⟨h.load32_kept (Nat.le_refl _) hloaded (by omega), fun i hi htype => ?_, hloaded.outside⟩
  have hsize := h.size i hi htype
  refine ⟨fun j hj => ?_, fun j hj hj' => ?_⟩
  · rw [hloaded.inside i hi _ ⟨htype, by omega, by omega⟩, BootSegment.byteAt, if_pos (by omega),
      Nat.add_sub_cancel_left]
  · rw [hloaded.inside i hi _ ⟨htype, by omega, by omega⟩, BootSegment.byteAt, if_neg (by omega)]

/-- An image of two bytes, with two more that are to be cleared. -/
def tinyBoot : Bytes :=
  let mem : Bytes := fun b => if b = 0x2002 then 0xFF else 0
  let mem := mem.store32 0x1000 0x464C457F
  let mem := mem.store32 0x1018 0x2000
  let mem := mem.store32 0x101C 52
  let mem := mem.store16 0x102C 1
  let mem := mem.store32 0x1034 1
  let mem := mem.store32 0x1038 84
  let mem := mem.store32 0x1040 0x2000
  let mem := mem.store32 0x1044 2
  let mem := mem.store32 0x1048 4
  mem.store16 0x1054 0xBEEF

theorem tinyBoot_segment : segmentOf tinyBoot 0x1000 0 = ⟨1, 84, 0x2000, 2, 4⟩ := by decide

theorem tinyBoot_image : BootImage tinyBoot 0x1000 86 := by
  have hcount : segmentCount tinyBoot 0x1000 = 1 := by decide
  have hone : ∀ i < segmentCount tinyBoot 0x1000, i = 0 := fun i hi => by omega
  constructor
  case magic => decide
  case fits => decide
  case header => decide
  case table => decide
  case size =>
    intro i hi _
    obtain rfl := hone i hi
    decide
  case file =>
    intro i hi _
    obtain rfl := hone i hi
    decide
  case noWrap =>
    intro i hi _
    obtain rfl := hone i hi
    decide
  case apart =>
    intro i hi b hc
    obtain rfl := hone i hi
    rw [tinyBoot_segment] at hc
    have : 0x2000 ≤ b := hc.2.1
    omega
  case disjoint =>
    intro i hi j hj _ _ _
    rw [hone i hi, hone j hj]

theorem readElfHeader_law_small : (readElfHeader tinyBoot 0x1000).2 = 0x2000
    ∧ (readElfHeader tinyBoot 0x1000).1 0x2001 = 0xBE
    ∧ (readElfHeader tinyBoot 0x1000).1 0x2002 = 0 := by
  obtain ⟨hentry, hload, -⟩ := (readElfHeader_law tinyBoot 0x1000).2 86 tinyBoot_image
  obtain ⟨hfile, hzero⟩ := hload 0 (by decide) (by decide)
  rw [tinyBoot_segment] at hfile hzero
  refine ⟨hentry.trans (by decide), (hfile 1 (by decide)).trans (by decide), ?_⟩
  exact hzero 2 (by decide) (by decide)

end Csos
