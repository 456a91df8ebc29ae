import Csos.Lib.CString
import Csos.PageCopy
import Csos.TaskPages

/-!
# Loading a program (`load_elf_file`)

Each round of the loop maps the pages of a segment, and five more, and
copies the bytes of the file. It reads the first program header in each of
its rounds, so the pages of the first segment are mapped `e_phnum` times
over, and no other segment at all. What a page holds where nothing is
copied to it is what its frame held.

`loadElfFile_law` says for which images this is a program in memory,
whatever the free pages hold.
-/

namespace Csos

open Lib

/-! ## The image -/

/-- `sizeof(SHELL_TMP)`. -/
abbrev shellTmpSize : Nat := 200 * 512

/-- The `i`-th program header. -/
def segmentAt (image : Bytes) (i : Nat) : ProgramHeader :=
  programHeader image ((elfHeader image).phoff + 32 * i)

/-- A segment that is to be loaded. -/
structure SegmentOk (ph : ProgramHeader) : Prop where
  user : vmTaskBase ≤ ph.vaddr
  aligned : ph.vaddr % 0x1000 = 0
  file_le : ph.filesz ≤ ph.memsz
  fits : ph.vaddr + ph.memsz ≤ 2 ^ 32
  in_file : ph.offset + ph.filesz ≤ shellTmpSize

/-- A valid image. Its entry point is not what the loader's -1 becomes. -/
structure ElfImage (image : Bytes) : Prop where
  magic : (elfHeader image).ident = elfMagic
  headers : (elfHeader image).phoff + 32 * (elfHeader image).phnum ≤ shellTmpSize
  entry : (elfHeader image).entry ≠ 0xFFFFFFFF
  segment : ∀ i < (elfHeader image).phnum, (segmentAt image i).type = 1 →
    SegmentOk (segmentAt image i)
  apart : ∀ i < (elfHeader image).phnum, ∀ j < (elfHeader image).phnum, i ≠ j →
    (segmentAt image i).type = 1 → (segmentAt image j).type = 1 →
    (segmentAt image i).vaddr + (segmentAt image i).memsz ≤ (segmentAt image j).vaddr
      ∨ (segmentAt image j).vaddr + (segmentAt image j).memsz ≤ (segmentAt image i).vaddr

/-! ## One segment -/

section Segment

variable {image mem : Bytes} {m : Machine} {d vaddr src dst size j fuel i b : Nat}

theorem memcpyImageLoop_copy (h : dst + size ≤ pmExtLimit) :
    memcpyImageLoop image size m dst src
      = some { m with mem := m.mem.copy dst (fun i => image (src + i)) size } := by
  induction size generalizing m dst src with
  | zero => rw [memcpyImageLoop, Bytes.copy_zero]
  | succ size ih =>
      have hlim : dst + (size + 1) ≤ 0x02000000 := h
      have htr : m.translate dst = some dst := if_pos (by rw [pmExtLimit]; omega)
      have hnext : u32 (dst + 1) = dst + 1 := u32_of_lt (by omega)
      have hdata : (fun i => image (src + 1 + i)) = fun i => image (src + (i + 1)) := by
        funext i
        rw [Nat.add_assoc, Nat.add_comm 1]
      simp only [memcpyImageLoop, Machine.write8, htr, Option.map_some, Option.bind_eq_bind,
        Option.bind_some, hnext]
      rw [ih (by omega)]
      simp only [hdata]
      rw [← Bytes.copy_store8 m.mem (fun i => image (src + i)) dst size]
      rfl

/-- The pages of a segment are present, and their frames are different pieces of memory: none is at
address 0, and none is a table. -/
structure SegmentFrames (m : Machine) (d vaddr size : Nat) : Prop where
  ne_zero : d ≠ 0
  dir_aligned : d % 0x1000 = 0
  aligned : vaddr % 0x1000 = 0
  fits : vaddr + size ≤ 2 ^ 32
  mapped : ∀ i < size, ∃ v, targetAt m d vaddr i = some v
  memory : ∀ i < size, ∀ v, targetAt m d vaddr i = some v →
    pteAddress v ≠ 0 ∧ pteAddress v < pmExtLimit ∧ ¬ TablePage m.mem d (pteAddress v)
  entry : ∀ i < size, HasEntry m.mem d (pageOf vaddr i)
  frame_inj : ∀ i < size, ∀ i' < size, ∀ v v', targetAt m d vaddr i = some v →
    targetAt m d vaddr i' = some v' → pteAddress v = pteAddress v' →
    pageOf vaddr i = pageOf vaddr i'

/-- The first `j` bytes of the file are there, and nothing else is written. -/
structure ViewLoaded (image : Bytes) (m : Machine) (mem : Bytes) (d vaddr src j : Nat) : Prop where
  tables : TablesKept m.mem mem d
  inside : ∀ i < j, ∀ b, TargetByte m d vaddr i b → mem b = image (src + i)
  outside : ∀ b, (∀ i < j, ¬ TargetByte m d vaddr i b) → mem b = m.mem b

theorem SegmentFrames.directory_eq (h : SegmentFrames m d vaddr size) : directory m d = d :=
  if_neg h.ne_zero

theorem SegmentFrames.target_inj {i' : Nat} (h : SegmentFrames m d vaddr size) (hi : i < size)
    (hi' : i' < size) (ht : TargetByte m d vaddr i b) (ht' : TargetByte m d vaddr i' b) :
    i = i' := by
  have hfits := h.fits
  exact ht.index_eq (by omega) (by omega) (h.frame_inj i hi i' hi') ht'

/-- A round copies a page, or what is left. -/
theorem copySegment_round (h : SegmentFrames m d vaddr size)
    (hc : ViewLoaded image m mem d vaddr src j) (hj : j < size) (hal : j % 0x1000 = 0) :
    ∃ mem', copySegment image d (fuel + 1) { m with mem } (src + j) (size - j) (u32 (vaddr + j))
        = copySegment image d fuel { m with mem := mem' } (src + (j + min 0x1000 (size - j)))
            (size - (j + min 0x1000 (size - j))) (u32 (vaddr + (j + min 0x1000 (size - j))))
      ∧ ViewLoaded image m mem' d vaddr src (j + min 0x1000 (size - j)) := by
  have hfits := h.fits
  have hbase := h.aligned
  obtain ⟨v, hv⟩ := h.mapped j hj
  obtain ⟨hne, hmemory, htable⟩ := h.memory j hj v hv
  have hframe := pteAddress_eq v
  have hmemory' : pteAddress v < 0x02000000 := hmemory
  have hpaddr : getPaddr { m with mem } d (u32 (vaddr + j)) = pteAddress v := by
    have hdir := h.directory_eq
    rw [@getPaddr_kept m { m with mem } d _ rfl (by rw [hdir]; exact h.dir_aligned)
      (by rw [hdir]; exact hc.tables) (by rw [u32]; omega),
      getPaddr_present hv (by rw [hdir]; exact h.entry j hj), u32_of_lt (by omega)]
    omega
  generalize hcs : min 0x1000 (size - j) = cs
  have hbyte : ∀ k < cs, TargetByte m d vaddr (j + k) (pteAddress v + k) := by
    intro k hk
    refine ⟨v, ?_, by omega⟩
    rw [targetAt, pageOf] at hv ⊢
    rw [u32_of_lt (by omega)] at hv ⊢
    rw [show (vaddr + (j + k)) / 0x1000 = (vaddr + j) / 0x1000 by omega]
    exact hv
  have hpiece : ∀ b, pteAddress v ≤ b → b < pteAddress v + cs →
      TargetByte m d vaddr (j + (b - pteAddress v)) b := by
    intro b hb hb'
    have := hbyte (b - pteAddress v) (by omega)
    rwa [Nat.add_sub_cancel' hb] at this
  refine ⟨mem.copy (pteAddress v) (fun i => image (src + j + i)) cs, ?_, ?_⟩
  · have hroom : (if size - j > pageSize then pageSize else size - j) = cs := by
      rw [pageSize]
      split <;> omega
    have hnext : u32 (u32 (vaddr + j) + cs) = u32 (vaddr + (j + cs)) := by
      simp only [u32]
      omega
    have hleft : size - j - cs = size - (j + cs) := by omega
    have hcopy : memcpyImage image { m with mem } (pteAddress v) (src + j) cs = some { m with
          mem := mem.copy (pteAddress v) (fun i => image (src + j + i)) cs } := by
      rw [memcpyImage, if_neg (by omega), memcpyImageLoop_copy (by rw [pmExtLimit]; omega)]
    rw [copySegment, if_neg (by omega)]
    simp only [hpaddr, hroom, hcopy, Option.bind_eq_bind, Option.bind_some, hnext, hleft,
      Nat.add_assoc]
  · refine ⟨fun b hb => ?_, fun i hi b ht => ?_, fun b hb => ?_⟩
    · refine (Bytes.copy_outside ?_).trans (hc.tables b hb)
      by_contra hin
      rw [show b / 0x1000 * 0x1000 = pteAddress v by omega] at hb
      exact htable hb
    · rcases Nat.lt_or_ge i j with hlt | hge
      · rw [Bytes.copy_outside, hc.inside i hlt b ht]
        by_contra hin
        have := h.target_inj (by omega) (by omega) ht (hpiece b (by omega) (by omega))
        omega
      · have hk := hbyte (i - j) (by omega)
        rw [Nat.add_sub_cancel' hge] at hk
        obtain rfl := ht.unique hk
        rw [Bytes.copy_inside (by omega) (by omega)]
        exact congrArg image (by omega)
    · refine (Bytes.copy_outside ?_).trans (hc.outside b fun i hi => hb i (by omega))
      by_contra hin
      exact hb _ (by omega) (hpiece b (by omega) (by omega))

/-- The loop over the pieces. -/
theorem copySegment_loaded (h : SegmentFrames m d vaddr size)
    (hc : ViewLoaded image m mem d vaddr src j) (hj : j ≤ size) (hal : j < size → j % 0x1000 = 0)
    (hfuel : size < j + fuel) :
    ∃ mem', copySegment image d fuel { m with mem } (src + j) (size - j) (u32 (vaddr + j))
        = some { m with mem := mem' }
      ∧ ViewLoaded image m mem' d vaddr src size := by
  induction fuel generalizing j mem with
  | zero => omega
  | succ fuel ih =>
      rcases Nat.eq_or_lt_of_le hj with rfl | hlt
      · refine ⟨mem, ?_, hc⟩
        rw [copySegment, if_pos (Nat.sub_self j)]
      · obtain ⟨mem', hrun, hstate⟩ := @copySegment_round image mem m d vaddr src size j fuel h hc
          hlt (hal hlt)
        have haligned := hal hlt
        obtain ⟨mem'', hrest, hdone⟩ := ih hstate (by omega) (by omega) (by omega)
        exact ⟨mem'', hrun.trans hrest, hdone⟩

end Segment

/-! ## The loop -/

/-- The pages that a round maps, and five more than the segment has. -/
def segmentPages (ph : ProgramHeader) : Nat := (ph.memsz + 0x5FFF) / 0x1000

/-- A machine between two rounds. -/
structure LoadState (m cur : Machine) (d : Nat) : Prop where
  info : cur.info.Ok
  start : cur.info.start = m.info.start
  bitSize : cur.info.bitmap.bitSize = m.info.bitmap.bitSize
  dir : DirOk cur.mem cur.info d
  tables : TablesNeZero cur.mem d
  free : ∀ q, cur.info.Free q → m.info.Free q
  /-- The free pages hold what they held. -/
  mem : ∀ b, cur.info.Free (b / 0x1000 * 0x1000) → cur.mem b = m.mem b

/-- The page `n` holds the file as far as it goes, and behind it what its frame held. -/
def PageLoaded (image : Bytes) (m cur : Machine) (d : Nat) (ph : ProgramHeader) (n : Nat) : Prop :=
  ∃ v, pteAt cur.mem d n = some v ∧ m.info.Free (pteAddress v) ∧ ∀ o < 0x1000,
    cur.mem (pteAddress v + o)
      = if ph.vaddr ≤ n * 0x1000 + o ∧ n * 0x1000 + o < ph.vaddr + ph.filesz then
          image (ph.offset + (n * 0x1000 + o - ph.vaddr))
        else m.mem (pteAddress v + o)

section Loop

variable {image : Bytes} {m cur cur₁ : Machine} {d n : Nat} {ph : ProgramHeader}

theorem SegmentOk.alloc_eq (hph : SegmentOk ph) : allocTaskPages cur d ph.vaddr
    (u32 (ph.memsz + pageSize * 5)) userPerm
      = allocTaskPagesLoop cur d ph.vaddr userPerm (segmentPages ph) := by
  have hbase : 0x40000000 ≤ ph.vaddr := hph.user
  have hfits := hph.fits
  have hsize : u32 (ph.memsz + pageSize * 5) = ph.memsz + 0x5000 :=
    u32_of_lt (by rw [pageSize]; omega)
  rw [hsize, allocTaskPages, ceilPage_pages (by omega), segmentPages]

/-- The pages of the file are among those that were mapped. -/
theorem SegmentOk.pageRun (hph : SegmentOk ph) {i : Nat} (hi : i < ph.memsz) :
    PageRun ph.vaddr (segmentPages ph) (pageOf ph.vaddr i) := by
  have hfits := hph.fits
  have hal := hph.aligned
  refine ⟨i / 0x1000, by rw [segmentPages]; omega, ?_⟩
  rw [pageOf, u32_of_lt (by omega), u32_of_lt (by omega)]
  omega

/-- The frames of pages that were just mapped. -/
theorem segmentFrames_mapped (hs : LoadState m cur d) (hph : SegmentOk ph)
    (hlim : m.info.page m.info.bitmap.bitSize ≤ pmExtLimit)
    (hmap : PagesMapped cur cur₁ d (PageRun ph.vaddr (segmentPages ph)) userPerm) :
    SegmentFrames cur₁ d ph.vaddr ph.filesz := by
  have hdir : directory cur₁ d = d := if_neg hmap.dir.ne_zero
  have hfile := hph.file_le
  have hfits := hph.fits
  have hrun : ∀ i < ph.filesz, PageRun ph.vaddr (segmentPages ph) (pageOf ph.vaddr i) :=
    fun i hi => hph.pageRun (by omega)
  have htarget : ∀ i v, targetAt cur₁ d ph.vaddr i = some v
      → pteAt cur₁.mem d (pageOf ph.vaddr i) = some v := by
    intro i v hv
    rwa [targetAt, hdir] at hv
  have hfree : ∀ i < ph.filesz, ∀ v, targetAt cur₁ d ph.vaddr i = some v
      → cur.info.Free (pteAddress v) := by
    intro i hi v hv
    obtain ⟨v', hv', -, hfree, -⟩ := hmap.inside _ (pageOf_lt ..) (hrun i hi)
    obtain rfl := Option.some.inj ((htarget i v hv).symm.trans hv')
    exact hfree
  constructor
  case ne_zero => exact hmap.dir.ne_zero
  case dir_aligned => exact hmap.dir.aligned
  case aligned => exact hph.aligned
  case fits => omega
  case mapped =>
    intro i hi
    obtain ⟨v, hv, -⟩ := hmap.inside _ (pageOf_lt ..) (hrun i hi)
    exact ⟨v, by rw [targetAt, hdir, hv]⟩
  case memory =>
    intro i hi v hv
    have hq := hfree i hi v hv
    refine ⟨(hq.pos hs.info).ne', ?_, ?_⟩
    · obtain ⟨k, hk, -, he⟩ := hs.free _ hq
      rw [Memory32Info.page] at hlim he
      omega
    · rintro (he | ⟨i', hi', hp, he⟩)
      · exact hs.dir.used (he ▸ hq)
      · exact hmap.frame_ne_table _ (pageOf_lt ..) v (hrun i hi) (htarget i v hv) i' hi' hp he
  case entry =>
    intro i hi
    obtain ⟨v, hv, -⟩ := hmap.inside _ (pageOf_lt ..) (hrun i hi)
    have hlt := pageOf_lt ph.vaddr i
    have hp := (pteAt_eq_some hv).1
    have hne := hmap.tables _ (by omega) hp
    exact ⟨hp, by omega⟩
  case frame_inj =>
    intro i hi i' hi' v v' hv hv'
    exact hmap.frame_inj _ (pageOf_lt ..) _ (pageOf_lt ..) v v' (hrun i hi) (hrun i' hi')
      (htarget i v hv) (htarget i' v' hv')

/-- What a round leaves that gets its pages. -/
structure RoundDone (image : Bytes) (m cur cur' : Machine) (d : Nat) (ph : ProgramHeader) :
    Prop where
  state : LoadState m cur' d
  inside : ∀ n < 0x100000, PageRun ph.vaddr (segmentPages ph) n → PageLoaded image m cur' d ph n
  outside : ∀ n < 0x100000, ¬ PageRun ph.vaddr (segmentPages ph) n →
    pteAt cur'.mem d n = pteAt cur.mem d n
  tables : tablesFor cur'.mem d ph.vaddr (segmentPages ph) = ∅

/-- A page that was free before the round and is no table behind it holds what it held. -/
theorem LoadState.mapped_mem {R : Nat → Prop} {b : Nat} (hs : LoadState m cur d)
    (hmap : PagesMapped cur cur₁ d R userPerm) (hb : cur.info.Free (b / 0x1000 * 0x1000))
    (htable : ∀ i < 1024, present (pdeAt cur₁.mem d i) →
      b / 0x1000 * 0x1000 ≠ tableAt cur₁.mem d i) : cur₁.mem b = m.mem b := by
  rw [hmap.mem b (fun he => hs.dir.used (he ▸ hb)) htable]
  exact hs.mem b hb

section Mapped

variable {mem' : Bytes} (hs : LoadState m cur d) (hph : SegmentOk ph)
  (hmap : PagesMapped cur cur₁ d (PageRun ph.vaddr (segmentPages ph)) userPerm)
  (hload : ViewLoaded image cur₁ mem' d ph.vaddr ph.offset ph.filesz)

include hph hmap in
/-- Where the bytes of the file go is not free any more. -/
theorem target_used {i b : Nat} (hi : i < ph.filesz) (ht : TargetByte cur₁ d ph.vaddr i b) :
    ¬ cur₁.info.Free (b / 0x1000 * 0x1000) := by
  have hfile := hph.file_le
  have hdir : directory cur₁ d = d := if_neg hmap.dir.ne_zero
  obtain ⟨v, hv, -⟩ := id ht
  rw [ht.frame hv]
  obtain ⟨v', hv', -, -, hused⟩ := hmap.inside _ (pageOf_lt ph.vaddr i) (hph.pageRun (by omega))
  rw [targetAt, hdir] at hv
  obtain rfl := Option.some.inj (hv.symm.trans hv')
  exact hused

include hs hph hmap hload

theorem viewLoaded_state : LoadState m { cur₁ with mem := mem' } d := by
  have hal := hmap.dir.aligned
  constructor
  case info => exact hmap.info
  case start => exact hmap.start.trans hs.start
  case bitSize => exact hmap.bitSize.trans hs.bitSize
  case dir => exact hmap.dir.congr (fun i hi => hload.tables.pdeAt_eq hal hi) fun q hq => hq
  case tables =>
    intro i hi hp
    dsimp only at hp ⊢
    rw [hload.tables.pdeAt_eq hal hi] at hp
    rw [hload.tables.tableAt_eq hal hi]
    exact hmap.tables i hi hp
  case free => exact fun q hq => hs.free q (hmap.free q hq)
  case mem =>
    intro b hb
    dsimp only at hb ⊢
    rw [hload.outside b fun i hi ht => target_used hph hmap hi ht hb]
    exact hs.mapped_mem hmap (hmap.free _ hb) fun i hi hp he =>
      hmap.dir.table_used i hi hp (he ▸ hb)

theorem viewLoaded_page {n : Nat} (hn : n < 0x100000)
    (hR : PageRun ph.vaddr (segmentPages ph) n) :
    PageLoaded image m { cur₁ with mem := mem' } d ph n := by
  have hal := hmap.dir.aligned
  have hdir : directory cur₁ d = d := if_neg hmap.dir.ne_zero
  have hfile := hph.file_le
  have hfits := hph.fits
  obtain ⟨v, hv, -, hfree, -⟩ := hmap.inside n hn hR
  have hframe := pteAddress_eq v
  refine ⟨v, (hload.tables.pteAt_eq hal hn).trans hv, hs.free _ hfree, fun o ho => ?_⟩
  have hpage : (pteAddress v + o) / 0x1000 * 0x1000 = pteAddress v := by omega
  dsimp only
  split
  case isTrue hin =>
    refine hload.inside (n * 0x1000 + o - ph.vaddr) (by omega) _ ⟨v, ?_, by omega⟩
    rw [targetAt, hdir, pageOf, u32_of_lt (by omega),
      show (ph.vaddr + (n * 0x1000 + o - ph.vaddr)) / 0x1000 = n by omega, hv]
  case isFalse hout =>
    rw [hload.outside _ fun i hi ht => ?_]
    · refine hs.mapped_mem hmap (by rw [hpage]; exact hfree) fun i hi hp => ?_
      rw [hpage]
      exact hmap.frame_ne_table n hn v hR hv i hi hp
    · -- it would be a byte of the file after all
      obtain ⟨u, hu, hplace⟩ := ht
      have hframe' := pteAddress_eq u
      rw [targetAt, hdir] at hu
      have hsame := hmap.frame_inj _ (pageOf_lt ..) n hn u v (hph.pageRun (by omega)) hR hu hv
        (by omega)
      rw [pageOf, u32_of_lt (by omega)] at hsame
      omega

end Mapped

/-- No table is missing for pages that are present. -/
theorem tablesFor_eq_empty {mem : Bytes} {index count : Nat}
    (h : ∀ n < 0x100000, PageRun index count n → ∃ v, pteAt mem d n = some v) :
    tablesFor mem d index count = ∅ := by
  refine Finset.filter_eq_empty_iff.mpr ?_
  rintro i hi ⟨habs, k, hk, he⟩
  obtain ⟨v, hv⟩ := h (u32 (index + 0x1000 * k) / 0x1000) (by rw [u32]; omega) ⟨k, hk, rfl⟩
  have hp := (pteAt_eq_some hv).1
  rw [show u32 (index + 0x1000 * k) / 0x1000 / 1024 = i by omega] at hp
  exact habs hp

theorem viewLoaded_done {mem' : Bytes} (hs : LoadState m cur d) (hph : SegmentOk ph)
    (hmap : PagesMapped cur cur₁ d (PageRun ph.vaddr (segmentPages ph)) userPerm)
    (hload : ViewLoaded image cur₁ mem' d ph.vaddr ph.offset ph.filesz) :
    RoundDone image m cur { cur₁ with mem := mem' } d ph := by
  have hpage := fun n hn hR => @viewLoaded_page _ _ _ _ _ _ _ hs hph hmap hload n hn hR
  constructor
  case state => exact viewLoaded_state hs hph hmap hload
  case inside => exact hpage
  case outside =>
    intro n hn hR
    exact (hload.tables.pteAt_eq hmap.dir.aligned hn).trans (hmap.outside n hn hR)
  case tables =>
    refine tablesFor_eq_empty fun n hn hR => ?_
    obtain ⟨v, hv, -⟩ := hpage n hn hR
    exact ⟨v, hv⟩

/-- A round. What it takes from the allocator is known beforehand. -/
theorem loadRound (hs : LoadState m cur d) (hph : SegmentOk ph) (hva : ph.vaddr < 2 ^ 32)
    (hlim : m.info.page m.info.bitmap.bitSize ≤ pmExtLimit) :
    (∃ cur₁ cur', allocTaskPages cur d ph.vaddr (u32 (ph.memsz + pageSize * 5)) userPerm
        = (cur₁, 0)
      ∧ copySegment image d (ph.filesz + 1) cur₁ ph.offset ph.filesz ph.vaddr = some cur'
      ∧ RoundDone image m cur cur' d ph
      ∧ cur.info.freePages = cur'.info.freePages
        + (segmentPages ph + (tablesFor cur.mem d ph.vaddr (segmentPages ph)).card))
    ∨ ∃ cur₁, allocTaskPages cur d ph.vaddr (u32 (ph.memsz + pageSize * 5)) userPerm = (cur₁, -1)
      ∧ (∀ p, ¬ cur₁.info.Free p)
      ∧ cur.info.freePages
        < segmentPages ph + (tablesFor cur.mem d ph.vaddr (segmentPages ph)).card := by
  rw [hph.alloc_eq]
  obtain ⟨k, -, hmap, hend⟩ := @allocTaskPagesLoop_run cur d ph.vaddr userPerm (segmentPages ph)
    hs.info hs.dir hs.tables (by decide) hva
  generalize allocTaskPagesLoop cur d ph.vaddr userPerm (segmentPages ph) = r at *
  obtain ⟨cur₁, ret⟩ := r
  dsimp only at hmap hend
  rcases hend with ⟨rfl, rfl, hcost⟩ | ⟨rfl, hall, hfew⟩
  · have hframes := segmentFrames_mapped hs hph hlim hmap
    obtain ⟨mem', hrun, hload⟩ := @copySegment_loaded image cur₁.mem cur₁ d ph.vaddr ph.offset
      ph.filesz 0 (ph.filesz + 1) hframes
      ⟨.refl, fun i hi => absurd hi (Nat.not_lt_zero i), fun _ _ => rfl⟩ (Nat.zero_le _)
      (fun _ => rfl) (by omega)
    simp only [Nat.add_zero, Nat.sub_zero, u32_of_lt hva] at hrun
    exact Or.inl ⟨cur₁, _, rfl, hrun, viewLoaded_done hs hph hmap hload, hcost⟩
  · exact Or.inr ⟨cur₁, rfl, hall, hfew⟩

/-- What is left of the loop: it is done with the first segment once more and once more, or the
pages run out. -/
theorem loadSegments_run {rounds : Nat} {heap : Nat × Nat} (hs : LoadState m cur d)
    (hph : SegmentOk ph) (htype : ph.type = 1) (hva : ph.vaddr < 2 ^ 32)
    (hlim : m.info.page m.info.bitmap.bitSize ≤ pmExtLimit) :
    (∃ cur' heap', loadSegments image d ph (rounds + 1) cur heap = some (cur', heap', 0)
      ∧ RoundDone image m cur cur' d ph
      ∧ (rounds + 1) * segmentPages ph + (tablesFor cur.mem d ph.vaddr (segmentPages ph)).card
        ≤ cur.info.freePages)
    ∨ ∃ cur' heap', loadSegments image d ph (rounds + 1) cur heap = some (cur', heap', -1)
      ∧ (∀ p, ¬ cur'.info.Free p)
      ∧ cur.info.freePages < (rounds + 1) * segmentPages ph
        + (tablesFor cur.mem d ph.vaddr (segmentPages ph)).card := by
  have hload : ¬ (ph.type ≠ 1 ∨ ph.vaddr < vmTaskBase) := by
    rw [not_or, not_not]
    exact ⟨htype, Nat.not_lt.mpr hph.user⟩
  induction rounds generalizing cur heap with
  | zero =>
      rw [loadSegments, if_neg hload]
      rcases @loadRound image m cur d ph hs hph hva hlim with
        ⟨cur₁, cur', halloc, hcopy, hdone, hcost⟩ | ⟨cur₁, halloc, hall, hfew⟩
      · refine Or.inl ⟨cur', (u32 (ph.vaddr + ph.memsz), u32 (ph.vaddr + ph.memsz)), ?_, hdone,
          by omega⟩
        simp only [halloc, hcopy, Int.lt_irrefl, if_false, Option.bind_eq_bind, Option.bind_some,
          loadSegments]
      · refine Or.inr ⟨cur₁, heap, ?_, hall, by omega⟩
        simp only [halloc, show (-1 : Int) < 0 by decide, if_true]
        rfl
  | succ rounds ih =>
      have hmul : (rounds + 1 + 1) * segmentPages ph
          = (rounds + 1) * segmentPages ph + segmentPages ph := Nat.succ_mul ..
      rw [loadSegments, if_neg hload]
      rcases @loadRound image m cur d ph hs hph hva hlim with
        ⟨cur₁, cur', halloc, hcopy, hdone, hcost⟩ | ⟨cur₁, halloc, hall, hfew⟩
      · simp only [halloc, hcopy, Int.lt_irrefl, if_false, Option.bind_eq_bind, Option.bind_some]
        have hnone := hdone.tables
        rcases @ih cur' (u32 (ph.vaddr + ph.memsz), u32 (ph.vaddr + ph.memsz)) hdone.state with
          ⟨cur'', heap', hrest, hdone', hroom⟩ | ⟨cur'', heap', hrest, hall, hfew⟩
        · rw [hnone, Finset.card_empty] at hroom
          refine Or.inl ⟨cur'', heap', hrest, ⟨hdone'.state, hdone'.inside, fun n hn hR => ?_,
            hdone'.tables⟩, by omega⟩
          rw [hdone'.outside n hn hR, hdone.outside n hn hR]
        · rw [hnone, Finset.card_empty] at hfew
          exact Or.inr ⟨cur'', heap', hrest, hall, by omega⟩
      · refine Or.inr ⟨cur₁, heap, ?_, hall, by omega⟩
        simp only [halloc, show (-1 : Int) < 0 by decide, if_true]
        rfl

/-- A header that is not to be loaded is passed over. -/
theorem loadSegments_skip {rounds : Nat} {heap : Nat × Nat} (h : ph.type ≠ 1) :
    loadSegments image d ph rounds m heap = some (m, heap, 0) := by
  induction rounds with
  | zero => rfl
  | succ rounds ih => rw [loadSegments, if_pos (Or.inl h), ih]

end Loop

/-! ## The call -/

/-- A new directory, and memory for the frames below the limit. -/
structure LoadReady (m : Machine) (d : Nat) : Prop where
  info : m.info.Ok
  limit : m.info.page m.info.bitmap.bitSize ≤ pmExtLimit
  dir : DirOk m.mem m.info d
  tables : TablesNeZero m.mem d
  fresh : ∀ n, UserPage n → pteAt m.mem d n = none

/-- The same machine, but for what the free pages hold. -/
structure Refilled (m m₁ : Machine) : Prop where
  cr3 : m₁.cr3 = m.cr3
  kernelPde : m₁.kernelPde = m.kernelPde
  info : m₁.info = m.info
  mem : ∀ b, ¬ m.info.Free (b / 0x1000 * 0x1000) → m₁.mem b = m.mem b

/-- The byte at `va` of the address space of `d`. -/
def viewAt (mem : Bytes) (d va : Nat) : Option (BitVec 8) := (walk mem d va).map fun r => mem r.1

/-- Every segment lies in memory as the image says, and zero behind its part of the file. -/
def WellLoaded (image : Bytes) (m : Machine) (d : Nat) : Prop :=
  ∀ i < (elfHeader image).phnum, (segmentAt image i).type = 1 → ∀ j < (segmentAt image i).memsz,
    viewAt m.mem d ((segmentAt image i).vaddr + j)
      = some (if j < (segmentAt image i).filesz then image ((segmentAt image i).offset + j) else 0)

/-- Whatever the free pages hold, the load comes back. When it has the entry point the segments are
in memory, and otherwise it reports that no page is left. -/
def LoadsRight (image : Bytes) (m : Machine) (d : Nat) (heap : Nat × Nat) : Prop :=
  ∀ m₁, Refilled m m₁ → ∃ m' heap' ret, loadElfFile image d m₁ heap = some (m', heap', ret)
    ∧ (ret = (elfHeader image).entry ∧ WellLoaded image m' d
      ∨ ret = 0xFFFFFFFF ∧ ∀ p, ¬ m'.info.Free p)

/-- The pages that the load takes: those of the first segment, once for each segment, and the
tables that are missing. -/
def imagePages (image : Bytes) (m : Machine) (d : Nat) : Nat :=
  if (elfHeader image).phnum = 0 ∨ (segmentAt image 0).type ≠ 1 then 0
  else (elfHeader image).phnum * segmentPages (segmentAt image 0)
    + (tablesFor m.mem d (segmentAt image 0).vaddr (segmentPages (segmentAt image 0))).card

/-- The first segment is all in the file, and every other one is empty. -/
def FirstAlone (image : Bytes) : Prop :=
  ∀ i < (elfHeader image).phnum, (segmentAt image i).type = 1 →
    (segmentAt image i).memsz = if i = 0 then (segmentAt image i).filesz else 0

instance (image : Bytes) : Decidable (FirstAlone image) :=
  inferInstanceAs (Decidable (∀ i < _, _ → _))

section Call

variable {image : Bytes} {m m₁ m' : Machine} {d va : Nat} {heap : Nat × Nat} {c : BitVec 8}

theorem Refilled.kept (h : Refilled m m₁) (hr : LoadReady m d) : TablesKept m.mem m₁.mem d := by
  intro b hb
  refine h.mem b ?_
  rcases hb with hb | ⟨i, hi, hp, hb⟩
  · rw [hb]
    exact hr.dir.used
  · rw [hb]
    exact hr.dir.table_used i hi hp

theorem Refilled.ready (h : Refilled m m₁) (hr : LoadReady m d) : LoadReady m₁ d := by
  have hkept := h.kept hr
  have hal := hr.dir.aligned
  have hinfo := h.info
  constructor
  case info =>
    rw [hinfo]
    exact hr.info
  case limit =>
    rw [hinfo]
    exact hr.limit
  case dir =>
    refine hr.dir.congr (fun i hi => hkept.pdeAt_eq hal hi) fun q hq => ?_
    rwa [hinfo] at hq
  case tables =>
    intro i hi hp
    rw [hkept.pdeAt_eq hal hi] at hp
    rw [hkept.tableAt_eq hal hi]
    exact hr.tables i hi hp
  case fresh =>
    intro n hn
    rw [hkept.pteAt_eq hal hn.2]
    exact hr.fresh n hn

theorem Refilled.imagePages_eq (h : Refilled m m₁) (hr : LoadReady m d) :
    imagePages image m₁ d = imagePages image m d := by
  have htables : ∀ index count, tablesFor m₁.mem d index count = tablesFor m.mem d index count := by
    intro index count
    refine Finset.filter_congr fun i hi => ?_
    rw [(h.kept hr).pdeAt_eq hr.dir.aligned (Finset.mem_range.mp hi)]
  rw [imagePages, imagePages, htables]

/-- All free pages filled with one byte. -/
theorem exists_refilled (m : Machine) (c : BitVec 8) :
    ∃ m₁, Refilled m m₁ ∧ ∀ b, m.info.Free (b / 0x1000 * 0x1000) → m₁.mem b = c := by
  classical
  refine ⟨{ m with mem := fun b => if m.info.Free (b / 0x1000 * 0x1000) then c else m.mem b },
    ⟨rfl, rfl, rfl, fun b hb => if_neg hb⟩, fun b hb => if_pos hb⟩

theorem LoadReady.state (hr : LoadReady m d) : LoadState m m d :=
  ⟨hr.info, rfl, rfl, hr.dir, hr.tables, fun _ hq => hq, fun _ _ => rfl⟩

theorem segmentAt_vaddr_lt (i : Nat) : (segmentAt image i).vaddr < 2 ^ 32 :=
  Bytes.load32_lt ..

/-- What a load with enough pages leaves. -/
structure LoadDone (image : Bytes) (m m' : Machine) (d : Nat) : Prop where
  first : (elfHeader image).phnum ≠ 0 → (segmentAt image 0).type = 1 →
    RoundDone image m m m' d (segmentAt image 0)
  other : (elfHeader image).phnum = 0 ∨ (segmentAt image 0).type ≠ 1 → m' = m

theorem loadElfFile_run (h : ElfImage image) (hr : LoadReady m d) :
    (imagePages image m d ≤ m.info.freePages ∧ ∃ m' heap',
      loadElfFile image d m heap = some (m', heap', (elfHeader image).entry)
        ∧ LoadDone image m m' d)
    ∨ (m.info.freePages < imagePages image m d ∧ ∃ m' heap',
      loadElfFile image d m heap = some (m', heap', 0xFFFFFFFF) ∧ ∀ p, ¬ m'.info.Free p) := by
  have hmagic : ¬ (elfHeader image).ident ≠ elfMagic := not_not.mpr h.magic
  have hph : programHeader image (elfHeader image).phoff = segmentAt image 0 := rfl
  rw [loadElfFile]
  simp only [if_neg hmagic, hph]
  by_cases hskip : (elfHeader image).phnum = 0 ∨ (segmentAt image 0).type ≠ 1
  · have hrun : loadSegments image d (segmentAt image 0) (elfHeader image).phnum m heap
        = some (m, heap, 0) := by
      rcases hskip with hnone | htype
      · rw [hnone, loadSegments]
      · exact loadSegments_skip htype
    refine Or.inl ⟨by rw [imagePages, if_pos hskip]; exact Nat.zero_le _, m, heap, ?_,
      fun hne htype => ?_, fun _ => rfl⟩
    · rw [hrun]
      rfl
    · rcases hskip with hnone | hother
      · exact absurd hnone hne
      · exact absurd htype hother
  · rw [imagePages, if_neg hskip]
    rw [not_or, not_not] at hskip
    obtain ⟨hne, htype⟩ := hskip
    obtain ⟨rounds, hrounds⟩ := Nat.exists_eq_succ_of_ne_zero hne
    have hok := h.segment 0 (Nat.pos_of_ne_zero hne) htype
    rw [hrounds]
    rcases @loadSegments_run image m m d (segmentAt image 0) rounds heap hr.state hok htype
      (segmentAt_vaddr_lt 0) hr.limit with ⟨m', heap', hrun, hdone, hroom⟩ |
      ⟨m', heap', hrun, hall, hfew⟩
    · refine Or.inl ⟨hroom, m', heap', ?_, fun _ _ => hdone, fun hor => ?_⟩
      · rw [hrun]
        rfl
      · rcases hor with hnone | hother
        · exact absurd hnone hne
        · exact absurd htype hother
    · refine Or.inr ⟨hfew, m', heap', ?_, hall⟩
      rw [hrun]
      rfl

theorem viewAt_of_pteAt {v : Nat} (hv : pteAt m.mem d (va / 0x1000) = some v) :
    viewAt m.mem d va = some (m.mem (pteAddress v + va % 0x1000)) := by
  rw [viewAt, walk_eq, hv]
  rfl

theorem viewAt_none (hv : pteAt m.mem d (va / 0x1000) = none) : viewAt m.mem d va = none := by
  rw [viewAt, walk_eq, hv]
  rfl

/-- A byte of the first segment's part of the file. -/
theorem LoadDone.view_file (hd : LoadDone image m m' d) (h : ElfImage image) {j : Nat}
    (hne : (elfHeader image).phnum ≠ 0) (htype : (segmentAt image 0).type = 1)
    (hj : j < (segmentAt image 0).filesz) :
    viewAt m'.mem d ((segmentAt image 0).vaddr + j)
      = some (image ((segmentAt image 0).offset + j)) := by
  have hok := h.segment 0 (Nat.pos_of_ne_zero hne) htype
  have hfits := hok.fits
  have hfile := hok.file_le
  have hrun := hok.pageRun (i := j) (by omega)
  have hdone := hd.first hne htype
  generalize segmentAt image 0 = ph at *
  have hlt : (ph.vaddr + j) / 0x1000 < 0x100000 := by omega
  rw [pageOf, u32_of_lt (by omega)] at hrun
  obtain ⟨v, hv, -, hbytes⟩ := hdone.inside _ hlt hrun
  rw [viewAt_of_pteAt hv, hbytes _ (by omega), if_pos (by omega)]
  exact congrArg (fun a => some (image a)) (by omega)

/-- Any other byte of the user's half is that of a free page, if there is one. -/
theorem LoadDone.view_other (hd : LoadDone image m m' d) (hr : LoadReady m d)
    (huser : UserPage (va / 0x1000))
    (hout : (elfHeader image).phnum ≠ 0 → (segmentAt image 0).type = 1 →
      ¬ ((segmentAt image 0).vaddr ≤ va
        ∧ va < (segmentAt image 0).vaddr + (segmentAt image 0).filesz)) :
    viewAt m'.mem d va = none
      ∨ ∃ b, m.info.Free (b / 0x1000 * 0x1000) ∧ viewAt m'.mem d va = some (m.mem b) := by
  have hfresh := hr.fresh _ huser
  by_cases hskip : (elfHeader image).phnum = 0 ∨ (segmentAt image 0).type ≠ 1
  · rw [hd.other hskip]
    exact Or.inl (viewAt_none hfresh)
  rw [not_or, not_not] at hskip
  have hdone := hd.first hskip.1 hskip.2
  have hplace := hout hskip.1 hskip.2
  generalize segmentAt image 0 = ph at *
  by_cases hR : PageRun ph.vaddr (segmentPages ph) (va / 0x1000)
  · obtain ⟨v, hv, hfree, hbytes⟩ := hdone.inside _ huser.2 hR
    have := pteAddress_eq v
    refine Or.inr ⟨pteAddress v + va % 0x1000, ?_, ?_⟩
    · rwa [show (pteAddress v + va % 0x1000) / 0x1000 * 0x1000 = pteAddress v by omega]
    · rw [viewAt_of_pteAt hv, hbytes _ (by omega), if_neg (by omega)]
  · left
    refine viewAt_none ?_
    rw [hdone.outside _ huser.2 hR, hfresh]

/-- For such a byte the free pages can be filled so that another one is seen. -/
theorem LoadsRight.exists_view (h : ElfImage image) (hr : LoadReady m d)
    (hroom : imagePages image m d ≤ m.info.freePages) (hright : LoadsRight image m d heap)
    (huser : UserPage (va / 0x1000))
    (hout : (elfHeader image).phnum ≠ 0 → (segmentAt image 0).type = 1 →
      ¬ ((segmentAt image 0).vaddr ≤ va
        ∧ va < (segmentAt image 0).vaddr + (segmentAt image 0).filesz)) :
    ∃ m', WellLoaded image m' d ∧ viewAt m'.mem d va ≠ some c := by
  obtain ⟨m₁, hfill, hbytes⟩ := exists_refilled m (c + 1)
  obtain ⟨m', heap', ret, hload, hret⟩ := hright m₁ hfill
  rcases @loadElfFile_run image m₁ d heap h (hfill.ready hr) with
    ⟨-, m'', heap'', hrun, hdone⟩ | ⟨hfew, -⟩
  · obtain ⟨rfl, hrest⟩ := Prod.mk.inj (Option.some.inj (hload.symm.trans hrun))
    obtain ⟨rfl, rfl⟩ := Prod.mk.inj hrest
    have hwell := (hret.resolve_right fun hfail => h.entry hfail.1).2
    refine ⟨m', hwell, ?_⟩
    rcases hdone.view_other (hfill.ready hr) huser hout with hnone | ⟨b, hfree, hsome⟩
    · rw [hnone]
      exact nofun
    · rw [hfill.info] at hfree
      rw [hsome, hbytes b hfree]
      intro heq
      have := Option.some.inj heq
      bv_omega
  · rw [hfill.imagePages_eq hr, hfill.info] at hfew
    omega

/-- An image that is loaded right whatever the free pages hold. -/
theorem LoadsRight.firstAlone (h : ElfImage image) (hr : LoadReady m d)
    (hroom : imagePages image m d ≤ m.info.freePages) (hright : LoadsRight image m d heap) :
    FirstAlone image := by
  intro i hi htype
  have hok := h.segment i hi htype
  have hbase : 0x40000000 ≤ (segmentAt image i).vaddr := hok.user
  have hfits := hok.fits
  have hfile := hok.file_le
  by_contra hne
  split at hne
  case isTrue hzero =>
    subst hzero
    obtain ⟨m', hwell, hview⟩ := @LoadsRight.exists_view image m d
      ((segmentAt image 0).vaddr + (segmentAt image 0).filesz) heap 0 h hr hroom hright
      ⟨by omega, by omega⟩ (fun _ _ hin => by omega)
    refine hview ((hwell 0 hi htype _ (by omega)).trans ?_)
    rw [if_neg (by omega)]
  case isFalse hother =>
    have hfirst : (elfHeader image).phnum ≠ 0 → (segmentAt image 0).type = 1 →
        ¬ ((segmentAt image 0).vaddr ≤ (segmentAt image i).vaddr
          ∧ (segmentAt image i).vaddr
            < (segmentAt image 0).vaddr + (segmentAt image 0).filesz) := by
      intro hpos htype₀ hin
      have hapart := h.apart i hi 0 (Nat.pos_of_ne_zero hpos) hother htype htype₀
      have hfile₀ := (h.segment 0 (Nat.pos_of_ne_zero hpos) htype₀).file_le
      omega
    obtain ⟨m', hwell, hview⟩ := @LoadsRight.exists_view image m d (segmentAt image i).vaddr heap
      (if 0 < (segmentAt image i).filesz then image ((segmentAt image i).offset + 0) else 0) h hr
      hroom hright ⟨by omega, by omega⟩ hfirst
    exact hview (hwell i hi htype 0 (by omega))

/-- A program is loaded right, whatever the free pages hold, if and only if its first segment is
all in the file and its other ones are empty, or there are too few pages for it. -/
theorem loadElfFile_law (h : ElfImage image) (hr : LoadReady m d) : LoadsRight image m d heap
    ↔ m.info.freePages < imagePages image m d ∨ FirstAlone image := by
  constructor
  · intro hright
    rcases Nat.lt_or_ge m.info.freePages (imagePages image m d) with hfew | hroom
    · exact Or.inl hfew
    · exact Or.inr (hright.firstAlone h hr hroom)
  · rintro hor m₁ hfill
    rcases @loadElfFile_run image m₁ d heap h (hfill.ready hr) with
      ⟨hroom, m', heap', hrun, hdone⟩ | ⟨-, m', heap', hrun, hall⟩
    · rw [hfill.imagePages_eq hr, hfill.info] at hroom
      have halone := hor.resolve_left (Nat.not_lt.mpr hroom)
      refine ⟨m', heap', _, hrun, Or.inl ⟨rfl, fun i hi htype j hj => ?_⟩⟩
      have hsize := halone i hi htype
      split at hsize
      case isTrue hzero =>
        subst hzero
        rw [if_pos (by omega)]
        exact hdone.view_file h (by omega) htype (by omega)
      case isFalse => omega
    · exact ⟨m', heap', _, hrun, Or.inr ⟨rfl, hall⟩⟩

end Call

/-- The directory that `memory32_create_pde` has made is ready for a program. -/
theorem Created.loadReady {m m' : Machine} {d : Nat} (hinfo : m.info.Ok)
    (hk : DirOk m.mem m.info m.kernelPde) (hz : TablesNeZero m.mem m.kernelPde)
    (hlim : m.info.page m.info.bitmap.bitSize ≤ pmExtLimit) (hc : Created m m' d) :
    LoadReady m' d := by
  obtain ⟨j, -, -, hinfo'⟩ := hc.info
  constructor
  case info =>
    rw [hinfo']
    exact hinfo.setPage j true
  case limit =>
    rw [hinfo', Memory32Info.setPage_page, Memory32Info.setPage_bitSize]
    exact hlim
  case dir => exact hc.dirOk hinfo hk
  case tables =>
    intro i hi hp
    rcases Nat.lt_or_ge i 256 with hlow | hhigh
    · have hpde := hc.kernelHalf i hlow
      rw [hpde] at hp
      rw [tableAt, hpde, ← tableAt]
      exact hz i hi hp
    · rw [hc.userHalf i hhigh hi] at hp
      exact absurd hp (by decide)
  case fresh => exact fun n hn => hc.pteAt hn

/-! ## Two segments -/

/-- Two segments of two bytes. The first header is the only one, or both are there. -/
def tinyElf (phnum : Nat) : Bytes :=
  let image : Bytes := fun _ => 0
  let image := image.store32 0 0x464C457F
  let image := image.store32 24 0x40000000
  let image := image.store32 28 52
  let image := image.store16 44 phnum
  let image := image.store32 52 1
  let image := image.store32 56 116
  let image := image.store32 60 0x40000000
  let image := image.store32 68 2
  let image := image.store32 72 2
  let image := image.store32 84 1
  let image := image.store32 88 118
  let image := image.store32 92 0x40001000
  let image := image.store32 100 2
  let image := image.store32 104 2
  image.store32 116 0xEFBEADDE

theorem tinyElf_segment {phnum : Nat} (hp : phnum = 1 ∨ phnum = 2) :
    ∀ i < 2, segmentAt (tinyElf phnum) i = ⟨1, 116 + 2 * i, 0x40000000 + 0x1000 * i, 2, 2⟩ := by
  rcases hp with rfl | rfl <;> decide

theorem tinyElf_image {phnum : Nat} (hp : phnum = 1 ∨ phnum = 2) : ElfImage (tinyElf phnum) := by
  have hnum : (elfHeader (tinyElf phnum)).phnum = phnum := by
    rcases hp with rfl | rfl <;> decide
  have hsegment := tinyElf_segment hp
  constructor
  case magic => rcases hp with rfl | rfl <;> decide
  case headers => rcases hp with rfl | rfl <;> decide
  case entry => rcases hp with rfl | rfl <;> decide
  case segment =>
    intro i hi _
    rw [hnum] at hi
    rw [hsegment i (by omega)]
    constructor
    case user => exact Nat.le_add_right _ _
    case aligned => dsimp only; omega
    case file_le => exact Nat.le_refl _
    case fits => dsimp only; omega
    case in_file => dsimp only [shellTmpSize]; omega
  case apart =>
    intro i hi j hj hne _ _
    rw [hnum] at hi hj
    rw [hsegment i (by omega), hsegment j (by omega)]
    dsimp only
    omega

theorem smallMachine_loadReady : LoadReady smallMachine 0x100000 where
  info := smallMachine_infoOk
  limit := by decide
  dir := smallMachine_dirOk (by decide) (by decide) (by decide)
  tables := smallMachine_tables _
  fresh := fun n _ => by
    rw [pteAt, smallMachine_pdeAt]
    exact if_neg (by decide)

/-- One segment alone is loaded right. -/
theorem loadElfFile_law_one : LoadsRight (tinyElf 1) smallMachine 0x100000 (0, 0) :=
  (loadElfFile_law (tinyElf_image (Or.inl rfl)) smallMachine_loadReady).mpr
    (Or.inr (by decide))

theorem tinyElf_room : imagePages (tinyElf 2) smallMachine 0x100000
    ≤ smallMachine.info.freePages := by
  have hfree : smallMachine.info.freePages = 15 := by decide
  have hsegment := tinyElf_segment (Or.inr rfl) 0 (by decide)
  rw [imagePages, hsegment, if_neg (by decide), hfree]
  decide +kernel

/-- Of two segments the second one is missing. -/
theorem loadElfFile_law_two :
    ¬ ∀ (image : Bytes) (m : Machine) (d : Nat) (heap : Nat × Nat), ElfImage image →
      LoadReady m d → LoadsRight image m d heap := by
  intro h
  have himage := tinyElf_image (Or.inr rfl)
  have hright := h (tinyElf 2) smallMachine 0x100000 (0, 0) himage smallMachine_loadReady
  exact absurd (hright.firstAlone himage smallMachine_loadReady tinyElf_room) (by decide)

end Csos
