import Csos.UserHeapLaw
import Csos.UserWrites

/-!
# The pages of a user heap

`PagesLaw` is the page accounting of the heap: a page that was free when
the program was loaded, and is not any more, is one that the task's
directory still reaches. Three things break it. `sbrk` maps a new frame
over one that is mapped, when `eheap` has come down since; it drops the
frame that it has taken when there is no page for the table; and
`free_page` clears the entry of a heap page but gives the allocator the
index of the entry instead of the frame.
-/

namespace Csos

open Lib

/-- Of the pages in `F`, all that are in use belong to the space. -/
def Accounted (F : Nat → Prop) (m : Machine) (d : Nat) : Prop :=
  ∀ p, F p → ¬ m.info.Free p → Owned m.mem d p

section Account

variable {F : Nat → Prop} {m m' : Machine} {d n j perm count index : Nat}

theorem SameSpace.accounted (h : SameSpace m m' d) : Accounted F m' d ↔ Accounted F m d := by
  have hinfo : m'.info = m.info := by rw [h.eq]
  rw [Accounted, Accounted, hinfo]
  refine forall_congr' fun p => imp_congr_right fun _ => imp_congr_right fun _ => ⟨fun ho => ?_,
    fun ho => ?_⟩
  · exact ho.congr h.pde fun k v hk hv => (h.pte k hk).symm.trans hv
  · exact ho.congr (fun i hi => (h.pde i hi).symm) fun k v hk hv => (h.pte k hk).trans hv

section Grown

variable (hs : SpaceOk m d) (hg : Grown m m' d n j perm)
include hs hg

/-- The frame that the page `n` had belongs to the space no more. -/
theorem Grown.not_owned {v : Nat} (hv : pteAt m.mem d n = some v) :
    ¬ Owned m'.mem d (pteAddress v) := by
  intro ho
  have hused := (hs.owned _ (.frame n v hg.user hv)).2
  generalize hp : pteAddress v = p at ho hused
  cases ho with
  | dir => exact hs.frame_ne_dir n v hg.user hv hp
  | table i _ hi hpres =>
      rcases hg.table hi hpres with ⟨hold, heq⟩ | ⟨-, hfree, -⟩
      · exact hs.frame_ne_table n v i hg.user hv hi hold (hp.trans heq)
      · exact hused hfree
  | frame k u hk hu =>
      rw [hg.mapped.pte k hk.2] at hu
      split at hu
      case isTrue =>
        obtain rfl := Option.some.inj hu
        rw [hg.address hs] at hused
        exact hused hg.page_free
      case isFalse hne => exact hne (hs.frame_inj k n u v hk hg.user hu hv hp.symm)

omit hs in
/-- Everything else stays. -/
theorem Grown.owned_of_owned {p : Nat} (ho : Owned m.mem d p)
    (hp : ∀ v, pteAt m.mem d n = some v → p ≠ pteAddress v) : Owned m'.mem d p := by
  cases ho with
  | dir => exact .dir
  | table i hi hi' hpres =>
      have hpde : pdeAt m'.mem d i = pdeAt m.mem d i := by
        by_cases hin : i = n / 1024
        · subst hin
          exact hg.mapped.pde_old hpres
        · exact hg.mapped.pde i hi' hin
      rw [tableAt, ← hpde, ← tableAt]
      exact .table i hi hi' (by rwa [hpde])
  | frame k v hk hv =>
      refine .frame k v hk ?_
      rw [hg.mapped.pte k hk.2, if_neg, hv]
      rintro rfl
      exact hp v hv rfl

/-- The frame and the table that were taken belong to the space. -/
theorem Grown.owned_of_taken {p : Nat} (hfree : m.info.Free p) (hp : ¬ m'.info.Free p) :
    Owned m'.mem d p := by
  obtain ⟨hlo, hhi⟩ := hg.user
  by_cases htable : p = tableAt m'.mem d (n / 1024)
  · rw [htable]
    exact .table (n / 1024) (by omega) (by omega) hg.mapped.pde_present
  · have hpage : p = m.info.page j := by
      by_contra hne
      exact hp ((hg.mapped.free p).mpr ⟨(Memory32Info.free_setPage hg.page_lt).mpr ⟨hfree, hne⟩,
        htable⟩)
    rw [hpage, ← hg.address hs]
    refine .frame n _ hg.user ?_
    rw [hg.mapped.pte n hhi, if_pos rfl]

/-- A frame that is mapped over is lost, and nothing else is. -/
theorem Grown.accounted : Accounted F m' d
    ↔ Accounted F m d ∧ ∀ v, pteAt m.mem d n = some v → ¬ F (pteAddress v) := by
  have hused : ∀ p, ¬ m.info.Free p → ¬ m'.info.Free p := fun p hp h => hp (hg.free h).1
  constructor
  · refine fun hacc => ⟨fun p hF hp => ?_, fun v hv hF => ?_⟩
    · rcases hg.owned hs (hacc p hF (hused p hp)) with ho | rfl | ⟨hfree, -⟩
      · exact ho
      · exact absurd hg.page_free hp
      · exact absurd hfree hp
    · have howned := hs.owned _ (.frame n v hg.user hv)
      exact hg.not_owned hs hv (hacc _ hF (hused _ howned.2))
  · rintro ⟨hacc, hlost⟩ p hF hp
    by_cases hfree : m.info.Free p
    · exact hg.owned_of_taken hs hfree hp
    · exact hg.owned_of_owned (hacc p hF hfree) fun v hv he => hlost v hv (he ▸ hF)

end Grown

/-! ## A frame without a table -/

/-- A page is taken, and no table is found for it. -/
theorem SpaceOk.drop (hs : SpaceOk m d) (hj : j < m.info.bitmap.bitSize) :
    SpaceOk { m with info := m.info.setPage j true } d := by
  have hfree : ∀ q, (m.info.setPage j true).Free q → m.info.Free q := fun q hq =>
    ((Memory32Info.free_setPage hj).mp hq).1
  constructor
  case info => exact hs.info.setPage j true
  case dir => exact hs.dir.congr (fun _ _ => rfl) hfree
  case owned =>
    intro p ho
    obtain ⟨hr, hnf⟩ := hs.owned p ho
    exact ⟨hr.congr rfl (Memory32Info.setPage_bitSize true), fun h => hnf (hfree p h)⟩
  case frame_ne_dir => exact hs.frame_ne_dir
  case frame_ne_table => exact hs.frame_ne_table
  case frame_inj => exact hs.frame_inj

theorem SpaceOk.drop_not_accounted (hs : SpaceOk m d) (hj : j < m.info.bitmap.bitSize)
    (hfree : m.info.Free (m.info.page j)) (hF : F (m.info.page j)) :
    ¬ Accounted F { m with info := m.info.setPage j true } d := fun hacc =>
  (hs.owned _ (hacc _ hF fun h => ((Memory32Info.free_setPage hj).mp h).2 rfl)).2 hfree

/-! ## `alloc_task_pages` -/

/-- What the first pages from `n` on cost the allocator. -/
def pagesFor (mem : Bytes) (d n : Nat) : Nat → Nat
  | 0 => 0
  | k + 1 => k + 1 + tablesMissing mem d n (k + 1)

/-- Nothing in `F` is lost when pages are mapped from `n` on: those that
are replaced are not in `F`, and the last page that is left is not taken
for one that needs a table. -/
def MapKeeps (F : Nat → Prop) (m : Machine) (d n count : Nat) : Prop :=
  ∀ k < count,
    (pagesFor m.mem d n (k + 1) ≤ m.info.freePages →
      ∀ v ∈ pteAt m.mem d (n + k), ¬ F (pteAddress v))
    ∧ ¬ (pagesFor m.mem d n k + 1 = m.info.freePages
      ∧ m.info.freePages < pagesFor m.mem d n (k + 1))

theorem pagesFor_grown (hg : Grown m m' d n j perm) (k : Nat) : pagesFor m.mem d n (k + 1)
    = pagesFor m'.mem d (n + 1) k + 1 + if present (pdeAt m.mem d (n / 1024)) then 0 else 1 := by
  cases k with
  | zero =>
      -- the page `n` has its table now
      have hzero : tablesMissing m'.mem d (n + 1) 0 = 0 := by
        refine Finset.card_eq_zero.mpr (Finset.filter_eq_empty_iff.mpr fun i _ h => ?_)
        obtain ⟨habs, hlo, hhi⟩ := h
        obtain rfl : i = n / 1024 := by omega
        exact habs hg.mapped.pde_present
      rw [pagesFor, pagesFor, tablesMissing_eq hg, hzero]
      omega
  | succ k =>
      rw [pagesFor, pagesFor, tablesMissing_eq hg]
      omega

theorem mapKeeps_succ (hs : SpaceOk m d) (hg : Grown m m' d n j perm)
    (hlim : n + min (count + 1) m.info.freePages ≤ 0x100000) :
    MapKeeps F m d n (count + 1)
      ↔ (∀ v, pteAt m.mem d n = some v → ¬ F (pteAddress v)) ∧ MapKeeps F m' d (n + 1) count := by
  have hfree := hg.freePages_eq hs
  have hcost := pagesFor_grown hg
  have hzero : pagesFor m.mem d n 0 = 0 := rfl
  have hzero' : pagesFor m'.mem d (n + 1) 0 = 0 := rfl
  have hge : ∀ k, k ≤ pagesFor m'.mem d (n + 1) k := fun k => by
    cases k with
    | zero => exact Nat.zero_le _
    | succ k => exact Nat.le_add_right _ _
  have hpte : ∀ k, pagesFor m'.mem d (n + 1) (k + 1) ≤ m'.info.freePages → k < count →
      pteAt m'.mem d (n + 1 + k) = pteAt m.mem d (n + (k + 1)) := by
    intro k hk hlt
    have := hge (k + 1)
    rw [hg.mapped.pte _ (by omega), if_neg (by omega), show n + 1 + k = n + (k + 1) by omega]
  constructor
  · refine fun hkeep => ⟨?_, fun k hk => ?_⟩
    · refine (hkeep 0 (by omega)).1 ?_
      rw [hcost 0, hzero']
      omega
    · obtain ⟨hold, hlast⟩ := hkeep (k + 1) (by omega)
      rw [hcost (k + 1)] at hold hlast
      rw [hcost k] at hlast
      refine ⟨fun hle => ?_, fun h => hlast (by omega)⟩
      rw [hpte k hle hk]
      exact hold (by omega)
  · rintro ⟨hfirst, hkeep⟩ k hk
    cases k with
    | zero =>
        rw [hcost 0, hzero, hzero']
        exact ⟨fun _ => hfirst, fun h => by omega⟩
    | succ k =>
        obtain ⟨hold, hlast⟩ := hkeep k (by omega)
        rw [hcost (k + 1), hcost k]
        refine ⟨fun hle => ?_, fun h => hlast (by omega)⟩
        have hle' : pagesFor m'.mem d (n + 1) (k + 1) ≤ m'.info.freePages := by omega
        rw [← hpte k hle' (by omega)]
        exact hold hle'

/-- What every call of `alloc_task_pages` does, whether it succeeds or not. -/
structure HeapGrown (F : Nat → Prop) (m m' : Machine) (d n count : Nat) : Prop where
  space : SpaceOk m' d
  cr3 : m'.cr3 = m.cr3
  free : ∀ q, m'.info.Free q → m.info.Free q
  accounted : Accounted F m' d ↔ Accounted F m d ∧ MapKeeps F m d n count

theorem allocTaskPagesLoop_accounted (hs : SpaceOk m d) (hF : ∀ q, m.info.Free q → F q)
    (hperm : perm < 0x1000)
    (hrange : min count m.info.freePages ≠ 0 → index / 0x1000 = n ∧ 0x40000 ≤ n
      ∧ n + min count m.info.freePages ≤ 0x100000) :
    HeapGrown F m (allocTaskPagesLoop m d index perm count).1 d n count := by
  induction count generalizing m index n with
  | zero =>
      refine ⟨hs, rfl, fun _ h => h, ?_⟩
      exact ⟨fun h => ⟨h, fun k hk => absurd hk (Nat.not_lt_zero k)⟩, And.left⟩
  | succ count ih =>
      rw [allocTaskPagesLoop]
      rcases memory32AllocPage_one hs.info with ⟨heq, hall⟩ | ⟨j, hj, hfree, heq⟩
      · simp only [heq, if_true]
        refine ⟨hs, rfl, fun _ h => h, fun h => ⟨h, fun k _ => ?_⟩, And.left⟩
        rw [Memory32Info.freePages_eq_zero hall]
        refine ⟨fun hle => ?_, fun h => absurd h.1 (Nat.succ_ne_zero _)⟩
        have : k + 1 ≤ pagesFor m.mem d n (k + 1) := Nat.le_add_right _ _
        omega
      have hpos : m.info.freePages ≠ 0 := by
        have hmem := Memory32Info.free_page_iff.mp hfree
        exact (Finset.card_pos.mpr ⟨j, hmem⟩).ne'
      have hne : m.info.page j ≠ 0 := (hfree.pos hs.info).ne'
      obtain ⟨hidx, hlo, hhi⟩ := hrange (by omega)
      have hn : UserPage n := ⟨hlo, by omega⟩
      simp only [heq, if_neg hne]
      rcases hs.mapPage hj hfree hn hperm hidx with ⟨m₁, hmap, hg⟩ | ⟨herr, habs, hfew⟩
      · simp only [hmap, Int.lt_irrefl, if_false]
        have hleft := hg.freePages_eq hs
        have hrest := @ih m₁ (n + 1) (u32 (index + 0x1000)) (hs.map hg)
          (fun q hq => hF q (hg.free hq).1) (fun hpos => by rw [u32]; omega)
        refine ⟨hrest.space, hrest.cr3.trans hg.mapped.cr3,
          fun q hq => (hg.free (hrest.free q hq)).1, ?_⟩
        rw [hrest.accounted, hg.accounted hs, mapKeeps_succ hs hg hhi, and_assoc]
      · have hneg : (-1 : Int) < 0 := by decide
        simp only [herr, if_pos hneg]
        refine ⟨hs.drop hj, rfl, fun q hq => ((Memory32Info.free_setPage hj).mp hq).1,
          fun hacc => ?_, fun hkeep => ?_⟩
        · exact absurd hacc (hs.drop_not_accounted hj hfree (hF _ hfree))
        · refine absurd ?_ (hkeep.2 0 (by omega)).2
          have hmem : n / 1024 ∈ (Finset.range 1024).filter fun i =>
              ¬ present (pdeAt m.mem d i) ∧ n / 1024 ≤ i ∧ 1024 * i < n + 1 :=
            Finset.mem_filter.mpr ⟨Finset.mem_range.mpr (by omega), habs, Nat.le_refl _, by omega⟩
          have hmiss : 0 < tablesMissing m.mem d n 1 := Finset.card_pos.mpr ⟨_, hmem⟩
          simp only [pagesFor, Nat.zero_add]
          omega

/-! ## `free_page` -/

/-- The frame of a page that is unmapped is lost, and nothing else is. -/
theorem SpaceOk.accounted_clear (hs : SpaceOk m d) (hn : UserPage n)
    (hp : present (pdeAt m.mem d (n / 1024))) :
    Accounted F { m with
        mem := m.mem.store32 (tableAt m.mem d (n / 1024) + 4 * (n % 1024)) 0 } d
      ↔ Accounted F m d ∧ ∀ v, pteAt m.mem d n = some v → ¬ F (pteAddress v) := by
  have hpde : ∀ i < 1024, pdeAt (m.mem.store32 (tableAt m.mem d (n / 1024) + 4 * (n % 1024)) 0) d i
      = pdeAt m.mem d i := fun i hi =>
    pdeAt_writePte hs.dir (by have := hn.2; omega) hp (Nat.mod_lt _ (by decide)) hi
  have hpte := fun k hk => @pteAt_clear m d n k hs hn hp hk
  generalize m.mem.store32 (tableAt m.mem d (n / 1024) + 4 * (n % 1024)) 0 = mem' at hpde hpte ⊢
  have hold : ∀ k u, UserPage k → pteAt mem' d k = some u → k ≠ n ∧ pteAt m.mem d k = some u := by
    intro k u hk hu
    rw [hpte k hk.2] at hu
    split at hu
    case isTrue => cases hu
    case isFalse hne => exact ⟨hne, hu⟩
  constructor
  · refine fun hacc => ⟨fun p hF hused => ?_, fun v hv hF => ?_⟩
    · exact (hacc p hF hused).congr hpde fun k u hk hu => (hold k u hk hu).2
    · have ho := hacc _ hF (hs.owned _ (.frame n v hn hv)).2
      generalize hpv : pteAddress v = p at ho
      cases ho with
      | dir => exact hs.frame_ne_dir n v hn hv hpv
      | table i _ hi hpres =>
          rw [hpde i hi] at hpres
          refine hs.frame_ne_table n v i hn hv hi hpres ?_
          rw [hpv, tableAt, tableAt, hpde i hi]
      | frame k u hk hu =>
          obtain ⟨hne, hu⟩ := hold k u hk hu
          exact hne (hs.frame_inj k n u v hk hn hu hv hpv.symm)
  · rintro ⟨hacc, hlost⟩ p hF hused
    cases hacc p hF hused with
    | dir => exact .dir
    | table i hi hi' hpres =>
        rw [tableAt, ← hpde i hi', ← tableAt]
        exact .table i hi hi' (by rwa [hpde i hi'])
    | frame k u hk hu =>
        refine .frame k u hk ?_
        rw [hpte k hk.2, if_neg, hu]
        rintro rfl
        exact hlost u hu hF

end Account

/-! ## The calls -/

/-- How many pages `tss_task_sbrk` asks for. It gets them from
`ceilPage eheap` on. -/
def sbrkCount (eheap size : Nat) : Nat :=
  if eheap % 0x1000 ≠ 0 ∧ u32 (eheap % 0x1000 + u32 (size + blockSize)) ≤ 0x1000 then 0
  else ceilPage (u32 (u32 (eheap + u32 (size + blockSize)) + 0x100000000 - ceilPage eheap)) / 0x1000

section Calls

variable {m m' : Machine} {task task' : TaskHeap} {size ptr start stop peheap : Nat}

theorem tssTaskSbrkPages_eq {cs : Nat} {r : Machine × TaskHeap × Nat}
    (hcs : u32 (stop + 0x100000000 - start) = cs) (hzero : size = 0 → cs = 0)
    (h : tssTaskSbrkPages m task start size stop peheap = r) :
    r.1 = (allocTaskPagesLoop m task.cr3 start heapPerm (ceilPage cs / 0x1000)).1
      ∧ r.2.1.cr3 = task.cr3 ∧ r.2.1.heap = task.heap := by
  subst h
  by_cases hsize : size = 0
  · have hnone : ceilPage 0 / 0x1000 = 0 := by decide
    rw [tssTaskSbrkPages, if_neg (not_not.mpr hsize), hzero hsize, hnone]
    exact ⟨rfl, rfl, rfl⟩
  · simp only [tssTaskSbrkPages, if_pos hsize, hcs, allocTaskPages]
    generalize allocTaskPagesLoop m task.cr3 start heapPerm (ceilPage cs / 0x1000) = r
    by_cases hneg : r.2 < 0
    · rw [if_pos hneg]
      exact ⟨rfl, rfl, rfl⟩
    · rw [if_neg hneg]
      exact ⟨rfl, rfl, rfl⟩

/-- What a call of `tss_task_sbrk` that comes back has done. -/
structure SbrkRun (m m' : Machine) (task task' : TaskHeap) (size : Nat) : Prop where
  header : ∃ m₁ m₂ m₃ m₄ n, setP m task.eheap true = some m₁
    ∧ setMagic m₁ task.eheap 0xE = some m₂ ∧ m₂.write32 task.eheap size = some m₃
    ∧ toPtr (u32 (task.eheap + 5)) = some n ∧ listInsertBack m₃ task.heap n = some m₄
    ∧ m' = (allocTaskPagesLoop m₄ task.cr3 (ceilPage task.eheap) heapPerm
        (sbrkCount task.eheap size)).1
  cr3 : task'.cr3 = task.cr3
  heap : task'.heap = task.heap

theorem tssTaskSbrk_run (hsize : size ≠ 0) (heheap : task.eheap < 2 ^ 32)
    (h : tssTaskSbrk m task size = some (m', task', ptr)) : SbrkRun m m' task task' size := by
  simp only [tssTaskSbrk, if_neg hsize, Option.bind_eq_bind, Option.bind_eq_some_iff,
    Option.pure_def] at h
  obtain ⟨m₁, h₁, m₂, h₂, m₃, h₃, n, hn, m₄, h₄, h⟩ := h
  by_cases hin : task.eheap % 0x1000 = 0
  · have hceil : ceilPage task.eheap = task.eheap := by
      rw [ceilPage, u32]
      omega
    have hcount : sbrkCount task.eheap size = ceilPage (u32 (u32 (task.eheap
        + u32 (size + blockSize)) + 0x100000000 - task.eheap)) / 0x1000 := by
      rw [sbrkCount, hceil, if_neg fun h => h.1 hin]
    rw [if_neg (not_not.mpr hin)] at h
    obtain ⟨hm, hcr3, hheap⟩ := tssTaskSbrkPages_eq rfl
      (fun hz => by simp only [u32] at hz ⊢; omega) (Option.some.inj h)
    exact ⟨⟨m₁, m₂, m₃, m₄, n, h₁, h₂, h₃, hn, h₄, by rw [hceil, hcount]; exact hm⟩, hcr3, hheap⟩
  · rw [if_pos hin] at h
    by_cases hfits : u32 (task.eheap % 0x1000 + u32 (size + blockSize)) ≤ 0x1000
    · rw [if_pos hfits] at h
      obtain ⟨rfl, rfl, -⟩ := Option.some.inj h
      have hcount : sbrkCount task.eheap size = 0 := if_pos ⟨hin, hfits⟩
      exact ⟨⟨m₁, m₂, m₃, m', n, h₁, h₂, h₃, hn, h₄, by rw [hcount]; rfl⟩, rfl, rfl⟩
    · rw [if_neg hfits] at h
      have hstart : u32 (task.eheap + (0x1000 - task.eheap % 0x1000)) = ceilPage task.eheap := by
        rw [ceilPage, u32, u32]
        omega
      have hcount : sbrkCount task.eheap size = ceilPage (u32 (u32 (task.eheap
          + u32 (size + blockSize)) + 0x100000000 - ceilPage task.eheap)) / 0x1000 :=
        if_neg fun h => hfits h.2
      rw [hstart] at h
      obtain ⟨hm, hcr3, hheap⟩ := tssTaskSbrkPages_eq rfl (fun hz => by
        rw [← hstart]
        simp only [u32] at hz ⊢
        omega) (Option.some.inj h)
      exact ⟨⟨m₁, m₂, m₃, m₄, n, h₁, h₂, h₃, hn, h₄, by rw [hcount]; exact hm⟩, hcr3, hheap⟩

/-- The address of the header that belongs to a pointer. -/
def blockOf (ptr : Nat) : Nat := u32 (ptr + 0x100000000 - blockSize)

/-- Where the block with its header at `pb` ends. -/
def blockEnd (pb size : Nat) : Nat := u32 (pb + size + blockSize)

/-- What a call of `tss_task_free` that comes back has done. -/
structure FreeRun (m m' : Machine) (task task' : TaskHeap) (ptr : Nat) : Prop where
  block : ∃ p m₁ size last, getP m (blockOf ptr) = some p
    ∧ (if p = true then setP m (blockOf ptr) false else some m) = some m₁
    ∧ m₁.read32 (blockOf ptr) = some size ∧ listGetLast m₁ task.heap = some last
    ∧ ((u32 (blockOf ptr + 5) ≠ ofPtr last ∧ m' = m₁)
      ∨ ∃ n m₂ k, last = some n ∧ u32 (blockOf ptr + 5) = n.1
        ∧ listRemove m₁ task.heap n = some (m₂, k)
        ∧ if blockOf ptr &&& 0xFFFFF000 < blockEnd (blockOf ptr) size &&& 0xFFFFF000 then
            freePage m₂ task.cr3 (blockEnd (blockOf ptr) size &&& 0xFFFFF000) = some m'
          else m' = m₂)
  cr3 : task'.cr3 = task.cr3
  heap : task'.heap = task.heap

theorem tssTaskFree_run (h : tssTaskFree m task ptr = some (m', task')) :
    FreeRun m m' task task' ptr := by
  have hpb : u32 (ptr + 0x100000000 - blockSize) = blockOf ptr := rfl
  have hpend : ∀ size, u32 (blockOf ptr + size + blockSize) = blockEnd (blockOf ptr) size :=
    fun _ => rfl
  simp only [tssTaskFree, hpb, hpend, Option.bind_eq_bind, Option.pure_def] at h
  obtain ⟨p, hp, h⟩ := Option.bind_eq_some_iff.mp h
  rw [← ite_bind] at h
  simp only [Option.bind_eq_some_iff] at h
  obtain ⟨m₁, h₁, size, hsize, last, hlast, h⟩ := h
  by_cases hn : u32 (blockOf ptr + 5) = ofPtr last
  · rw [if_pos hn] at h
    simp only [Option.bind_eq_some_iff] at h
    obtain ⟨n, rfl, ⟨m₂, k⟩, h₂, h⟩ := h
    by_cases hend : blockOf ptr &&& 0xFFFFF000 < blockEnd (blockOf ptr) size &&& 0xFFFFF000
    · rw [if_pos hend] at h
      obtain ⟨m₃, h₃, h⟩ := Option.bind_eq_some_iff.mp h
      obtain ⟨rfl, rfl⟩ := Prod.mk.inj (Option.some.inj h)
      refine ⟨⟨p, m₁, size, some n, hp, h₁, hsize, hlast, Or.inr ⟨n, m₂, k, rfl, hn, h₂, ?_⟩⟩,
        rfl, rfl⟩
      rw [if_pos hend]
      exact h₃
    · rw [if_neg hend] at h
      obtain ⟨rfl, rfl⟩ := Prod.mk.inj (Option.some.inj h)
      refine ⟨⟨p, m₁, size, some n, hp, h₁, hsize, hlast, Or.inr ⟨n, _, k, rfl, hn, h₂, ?_⟩⟩,
        rfl, rfl⟩
      rw [if_neg hend]
  · rw [if_neg hn] at h
    obtain ⟨rfl, rfl⟩ := Prod.mk.inj (Option.some.inj h)
    exact ⟨⟨p, _, size, last, hp, h₁, hsize, hlast, Or.inl ⟨hn, rfl⟩⟩, rfl, rfl⟩

end Calls

/-! ## The accounting of a run -/

/-- A page that was free at first, and is in use, is a page table of the
task or the target of a present entry. -/
def PagesLaw (F : Nat → Prop) (s : HeapState) : Prop := Accounted F s.m s.task.cr3

/-- The first page that `tss_task_sbrk` maps. -/
def firstPage (eheap : Nat) : Nat := (eheap + 0xFFF) / 0x1000

/-- The call stays in the heap: its header lies behind the list, the
links that it follows lead into user memory, and the pages that it maps
lie below 4 GiB. -/
def HeapOp.Confined (s : HeapState) : HeapOp → Prop
  | sbrk size => size = 0 ∨ (s.task.heap + 12 ≤ s.task.eheap ∧ s.task.eheap + blockSize ≤ 2 ^ 32
      ∧ (∀ n ∈ (heapOf s.m).tail s.task.heap, UserRange n.1 8)
      ∧ firstPage s.task.eheap + min (sbrkCount s.task.eheap size) s.m.info.freePages ≤ 0x100000)
  | free ptr => s.task.heap + 12 ≤ blockOf ptr ∧ blockOf ptr + blockSize ≤ 2 ^ 32
      ∧ ∀ n ∈ (heapOf s.m).tail s.task.heap, n.1 = blockOf ptr + 5 →
        (∀ p ∈ (heapOf s.m).pre n, UserRange p.1 8 ∧ (p.1 + 4 ≤ n.1 ∨ n.1 + 4 ≤ p.1))
        ∧ ∀ q ∈ (heapOf s.m).next n, UserRange q.1 8

/-- The call loses no page of `F`. `tss_task_sbrk` maps over none, and is
not left with one page where it needs a table as well; `tss_task_free`
takes a block from the end of the list only if the page in which it ends
is the one in which it begins, or has none of `F` behind it. -/
def HeapOp.KeepsPages (F : Nat → Prop) (s : HeapState) : HeapOp → Prop
  | sbrk size => size = 0
      ∨ MapKeeps F s.m s.task.cr3 (firstPage s.task.eheap) (sbrkCount s.task.eheap size)
  | free ptr => ∀ n ∈ (heapOf s.m).tail s.task.heap, n.1 = blockOf ptr + 5 →
      ∀ size ∈ s.m.read32 (blockOf ptr),
      blockOf ptr / 0x1000 < blockEnd (blockOf ptr) size / 0x1000 →
      ∀ v ∈ pteAt s.m.mem s.task.cr3 (blockEnd (blockOf ptr) size / 0x1000), ¬ F (pteAddress v)

instance (s : HeapState) : (op : HeapOp) → Decidable (op.Confined s)
  | .sbrk _ => inferInstanceAs (Decidable (_ ∨ _))
  | .free _ => inferInstanceAs (Decidable (_ ∧ _ ∧ _))

instance (F : Nat → Prop) [DecidablePred F] (s : HeapState) :
    (op : HeapOp) → Decidable (op.KeepsPages F s)
  | .sbrk _ => inferInstanceAs (Decidable (_ ∨ ∀ k < _, _ ∧ ¬ _))
  | .free _ => inferInstanceAs (Decidable (∀ n ∈ _, _ → _))

/-- The heap lies above `VM_SHELL_BASE`, and only pages of `F` are free. -/
structure PagesInv (F : Nat → Prop) (d l : Nat) (s : HeapState) : Prop where
  running : Running s.m d
  cr3 : s.task.cr3 = d
  heap : s.task.heap = l
  free : ∀ q, s.m.info.Free q → F q

section Step

variable {F : Nat → Prop} {d l n count size ptr : Nat} {m m' : Machine} {s s' : HeapState}

theorem SameSpace.mapKeeps (h : SameSpace m m' d) (hlo : 0x40000 ≤ n)
    (hlim : n + min count m.info.freePages ≤ 0x100000) :
    MapKeeps F m' d n count ↔ MapKeeps F m d n count := by
  have hinfo : m'.info = m.info := by rw [h.eq]
  have hmissing : ∀ k, tablesMissing m'.mem d n k = tablesMissing m.mem d n k := fun k => by
    refine congrArg Finset.card (Finset.filter_congr fun i hi => ?_)
    rw [h.pde i (Finset.mem_range.mp hi)]
  have hcost : ∀ k, pagesFor m'.mem d n k = pagesFor m.mem d n k := fun k => by
    cases k with
    | zero => rfl
    | succ k => rw [pagesFor, pagesFor, hmissing]
  refine forall_congr' fun k => imp_congr_right fun hk => ?_
  rw [hcost, hcost, hinfo]
  refine and_congr_left fun _ => imp_congr_right fun hle => ?_
  have hge : k + 1 ≤ pagesFor m.mem d n (k + 1) := Nat.le_add_right _ _
  rw [h.pte (n + k) ⟨by omega, by omega⟩]

theorem heapOf_tail {x : Option Ptr} (h : listGetLast m l = some x) : (heapOf m).tail l = x := by
  have h' : ListMem.tail m l = some x := h
  show (ListMem.tail m l).getD none = x
  rw [h']
  rfl

/-- A call that only writes to the frames of the task. -/
theorem PagesInv.same (hi : PagesInv F d l s) (h : SameSpace s.m m' d) {task' : TaskHeap}
    {live : List (Nat × Nat)} (hcr3 : task'.cr3 = s.task.cr3) (hheap : task'.heap = s.task.heap) :
    PagesInv F d l ⟨m', task', live⟩ ∧ (PagesLaw F ⟨m', task', live⟩ ↔ PagesLaw F s) := by
  refine ⟨⟨hi.running.same h, hcr3.trans hi.cr3, hheap.trans hi.heap, fun q hq => hi.free q ?_⟩, ?_⟩
  · dsimp only at hq
    rwa [h.eq] at hq
  · simp only [PagesLaw]
    rw [hcr3, hi.cr3, h.accounted]

/-- One call of `tss_task_sbrk`. -/
theorem sbrk_pages (hi : PagesInv F d l s) (hl : vmShellBase ≤ l)
    (hc : (HeapOp.sbrk size).Confined s) (hstep : HeapOp.step s (.sbrk size) = some s') :
    PagesInv F d l s'
      ∧ (PagesLaw F s' ↔ PagesLaw F s ∧ (HeapOp.sbrk size).KeepsPages F s) := by
  obtain ⟨⟨m', task', p⟩, hcall, hret⟩ := Option.bind_eq_some_iff.mp hstep
  obtain rfl := Option.some.inj hret
  have hl' : 0x4F000000 ≤ l := hl
  by_cases hsize : size = 0
  · rw [tssTaskSbrk, if_pos hsize] at hcall
    obtain ⟨rfl, rfl, -⟩ := Option.some.inj hcall
    obtain ⟨hi', hlaw⟩ := hi.same (.refl s.m d) rfl rfl
    exact ⟨hi', hlaw.trans (and_iff_left (Or.inl hsize)).symm⟩
  obtain ⟨hlow, htop, htail, hlim⟩ := hc.resolve_left hsize
  obtain ⟨hr, hcr3, hheap, hfree⟩ := hi
  simp only [blockSize] at htop
  rw [hheap] at hlow htail
  obtain ⟨⟨m₁, m₂, m₃, m₄, n, h₁, h₂, h₃, hn, h₄, rfl⟩, hcr3', hheap'⟩ :=
    tssTaskSbrk_run hsize (by omega) hcall
  rw [u32_of_lt (by omega)] at hn
  rw [hheap] at h₄
  have hsame := insertBlock_same hr ⟨by omega, by omega⟩ ⟨by omega, by simp only [blockSize]; omega⟩
    hlow (fun k hk => htail k (heapOf_tail hk)) h₁ h₂ h₃ (toPtr_eq_some hn) h₄
  have hinfo : m₄.info = s.m.info := by rw [hsame.eq]
  have hr₄ := hr.same hsame
  rw [hcr3]
  have hfirst : firstPage s.task.eheap = (s.task.eheap + 0xFFF) / 0x1000 := rfl
  have hgrown := @allocTaskPagesLoop_accounted F m₄ d (firstPage s.task.eheap) heapPerm
    (sbrkCount s.task.eheap size) (ceilPage s.task.eheap) hr₄.space
    (fun q hq => hfree q (hinfo ▸ hq)) (by decide) fun hpos => by
      rw [hinfo] at hpos ⊢
      rw [ceilPage, u32]
      omega
  refine ⟨⟨⟨hgrown.space, hgrown.cr3.trans hr₄.active⟩, hcr3'.trans hcr3, hheap'.trans hheap,
    fun q hq => hfree q (hinfo ▸ hgrown.free q hq)⟩, ?_⟩
  simp only [PagesLaw, HeapOp.KeepsPages]
  rw [hcr3', hcr3, hgrown.accounted, hsame.accounted, hsame.mapKeeps (by omega) hlim,
    or_iff_right hsize]

/-- One call of `tss_task_free`. -/
theorem free_pages (hi : PagesInv F d l s) (hl : vmShellBase ≤ l)
    (hc : (HeapOp.free ptr).Confined s) (hstep : HeapOp.step s (.free ptr) = some s') :
    PagesInv F d l s'
      ∧ (PagesLaw F s' ↔ PagesLaw F s ∧ (HeapOp.free ptr).KeepsPages F s) := by
  simp only [HeapOp.step, Option.bind_eq_bind, Option.bind_eq_some_iff] at hstep
  obtain ⟨⟨m', task'⟩, hcall, hret⟩ := hstep
  obtain rfl := Option.some.inj hret
  obtain ⟨hr, hcr3, hheap, hfree⟩ := id hi
  obtain ⟨hlow, htop, hlinks⟩ := hc
  have hl' : 0x4F000000 ≤ l := hl
  simp only [blockSize] at htop
  rw [hheap] at hlow hlinks
  obtain ⟨⟨p, m₁, size, last, hp, h₁, hsize, hlast, hrest⟩, hcr3', hheap'⟩ :=
    tssTaskFree_run hcall
  have hblock : UserRange (blockOf ptr) blockSize := ⟨by omega, by simp only [blockSize]; omega⟩
  have hlist : UserRange l 12 := ⟨by omega, by omega⟩
  have w₁ : Wrote s.m m₁ d (· = blockOf ptr + 4) := .ite (setP_wrote hr hblock) h₁
  have hsize₀ : s.m.read32 (blockOf ptr) = some size := by
    rw [← hsize, w₁.read32 (hblock.sub (Nat.le_refl _) (by simp only [blockSize]; omega))
      fun b hb hb' => by omega]
  have htail : (heapOf s.m).tail l = last := by
    refine heapOf_tail ?_
    rw [← hlast, hheap]
    exact (w₁.tail hlist fun b hb hb' => by simp only [InList] at hb; omega).symm
  rw [u32_of_lt (by omega)] at hrest
  rcases hrest with ⟨hne, rfl⟩ | ⟨n, m₂, k, rfl, hn, h₂, hend⟩
  · -- another block is the last one: nothing is unmapped
    obtain ⟨hi', hlaw⟩ := hi.same w₁.same hcr3' hheap'
    refine ⟨hi', hlaw.trans (and_iff_left fun n hn heq => absurd ?_ hne).symm⟩
    rw [← htail, ← hheap, Option.mem_def.mp hn]
    exact heq.symm
  · obtain ⟨hpre, hnext⟩ := hlinks n htail hn.symm
    rw [hheap] at h₂
    have hsame := removeBlock_same hr hlist hblock hlow w₁ hn.symm
      (fun p hp => hpre p (congrArg (Option.getD · none) hp))
      (fun q hq => hnext q (congrArg (Option.getD · none) hq)) h₂
    have hlt : blockEnd (blockOf ptr) size < 2 ^ 32 := Nat.mod_lt _ (by decide)
    rw [and_pageMask (by omega), and_pageMask hlt] at hend
    by_cases hcond : blockOf ptr / 0x1000 < blockEnd (blockOf ptr) size / 0x1000
    · rw [if_pos (by omega), hcr3] at hend
      have hinfo : m₂.info = s.m.info := by rw [hsame.eq]
      have hr₂ := hr.same hsame
      have hpage : UserPage (blockEnd (blockOf ptr) size / 0x1000) := ⟨by omega, by omega⟩
      have hhigh : 0x4F000000 ≤ blockEnd (blockOf ptr) size / 0x1000 * 0x1000 := by omega
      obtain ⟨hpres, rfl⟩ := freePage_high hr₂.space hpage hhigh hend
      refine ⟨⟨⟨hr₂.space.clear hpage hpres, hr₂.active⟩, hcr3'.trans hcr3, hheap'.trans hheap,
        fun q hq => hfree q (hinfo ▸ hq)⟩, ?_⟩
      simp only [PagesLaw, HeapOp.KeepsPages]
      rw [hcr3', hcr3, hheap, hr₂.space.accounted_clear hpage hpres, hsame.accounted,
        hsame.pte _ hpage]
      refine and_congr_right fun _ => ⟨fun h n' _ _ size' hs' _ => ?_, fun h => ?_⟩
      · obtain rfl := Option.some.inj (hsize₀.symm.trans hs')
        exact h
      · exact h n htail hn.symm size hsize₀ hcond
    · -- the block ends in the page where it begins
      rw [if_neg (by omega)] at hend
      subst hend
      obtain ⟨hi', hlaw⟩ := hi.same hsame hcr3' hheap'
      refine ⟨hi', hlaw.trans (and_iff_left fun n' _ _ size' hs' hlt' => absurd ?_ hcond).symm⟩
      obtain rfl := Option.some.inj (hsize₀.symm.trans hs')
      exact hlt'

theorem HeapOp.step_pages {op : HeapOp} (hl : vmShellBase ≤ l) (hi : PagesInv F d l s)
    (hc : op.Confined s) (hstep : HeapOp.step s op = some s') :
    PagesInv F d l s' ∧ (PagesLaw F s' ↔ PagesLaw F s ∧ op.KeepsPages F s) := by
  cases op with
  | sbrk size => exact sbrk_pages hi hl hc hstep
  | free ptr => exact free_pages hi hl hc hstep

end Step

section Law

variable {m m' : Machine} {task task' : TaskHeap} {ops : List HeapOp} {s : HeapState}

/-- When the program has been loaded, no page has been taken yet. -/
theorem PagesInv.start (hl : Loaded m task) (hexec : execveHeap m task = some (m', task')) :
    PagesInv m'.info.Free task.cr3 task.bheap ⟨m', task', []⟩
      ∧ PagesLaw m'.info.Free ⟨m', task', []⟩ := by
  obtain ⟨m₁, heq, hi⟩ := HeapInv.start hl
  obtain ⟨rfl, rfl⟩ := Prod.mk.inj (Option.some.inj (heq.symm.trans hexec))
  exact ⟨⟨hi.running, rfl, rfl, fun _ h => h⟩, fun p hF hused => absurd hF hused⟩

/-- The page accounting of a heap above `VM_SHELL_BASE`: it is right after
a run exactly if no call of the run loses a page. -/
theorem heapPages_law (hl : Loaded m task) (hshell : vmShellBase ≤ task.bheap)
    (hexec : execveHeap m task = some (m', task'))
    (hconf : Always HeapOp.step (fun s op => op.Confined s) ⟨m', task', []⟩ ops)
    (hrun : run HeapOp.step ⟨m', task', []⟩ ops = some s) :
    PagesLaw m'.info.Free s
      ↔ Always HeapOp.step (fun s op => op.KeepsPages m'.info.Free s) ⟨m', task', []⟩ ops := by
  obtain ⟨hi, hlaw⟩ := PagesInv.start hl hexec
  rw [run_iff_always (fun s op s' hi hc => HeapOp.step_pages hshell hi hc) hi hconf hrun]
  exact and_iff_right hlaw

end Law

/-! ## A program above `VM_SHELL_BASE` -/

/-- The task before its heap is set up. -/
def shellTask : TaskHeap := ⟨0x100000, 0x4F000800, 0x4F000800, 0⟩

/-- A segment of 2048 bytes at `VM_SHELL_BASE`, with the pages that
`load_elf_file` asks for. -/
def shellMachine : Machine :=
  (allocTaskPages emptyMachine 0x100000 0x4F000000 (0x800 + 0x1000 * 5) heapPerm).1

theorem shellTask_loaded : Loaded shellMachine shellTask := by
  obtain ⟨m, hrun, hl⟩ := @segment_loaded 0x4F000 (by decide) (by decide) (by decide)
  obtain rfl : shellMachine = m := congrArg Prod.fst hrun
  exact hl

/-- The heap that `tss_task_execve` leaves. -/
def shellStart : HeapState :=
  ((execveHeap shellMachine shellTask).map fun r => ⟨r.1, r.2, []⟩).getD
    ⟨shellMachine, shellTask, []⟩

theorem shellStart_execve :
    execveHeap shellMachine shellTask = some (shellStart.m, shellStart.task) := by
  obtain ⟨m, h, -⟩ := HeapInv.start shellTask_loaded
  rw [shellStart, h]
  rfl

theorem shellStart_eq : shellStart = ⟨shellStart.m, shellStart.task, []⟩ := by
  obtain ⟨m, h, -⟩ := HeapInv.start shellTask_loaded
  rw [shellStart, h]
  rfl

/-- The first block of a page gets a page of its own. -/
theorem shellStart_keeps : (HeapOp.sbrk 0x1000).KeepsPages shellStart.m.info.Free shellStart := by
  have hcount : sbrkCount shellStart.task.eheap 0x1000 = 1 := by decide +kernel
  have hold : ∀ v ∈ pteAt shellStart.m.mem shellStart.task.cr3 (firstPage shellStart.task.eheap),
      ¬ shellStart.m.info.Free (pteAddress v) := by decide +kernel
  have hpages : shellStart.m.info.freePages ≠ 1 := by decide +kernel
  refine Or.inr fun k hk => ?_
  obtain rfl : k = 0 := by omega
  exact ⟨fun _ => hold, fun h => hpages h.1.symm⟩

/-- Two blocks. For the first one the page behind the header is mapped
anew, and the second one fits into it. -/
theorem heapPages_law_two : ∃ s, run HeapOp.step shellStart [.sbrk 0x1000, .sbrk 16] = some s
    ∧ ¬ s.m.info.Free 0x108000 ∧ PagesLaw shellStart.m.info.Free s := by
  have hfree : (run HeapOp.step shellStart [.sbrk 0x1000, .sbrk 16]).map
      (fun s => decide (s.m.info.Free 0x108000)) = some false := by decide +kernel
  have hfits : (HeapOp.step shellStart (.sbrk 0x1000)).map
      (fun s => sbrkCount s.task.eheap 16) = some 0 := by decide +kernel
  have hconf : Always HeapOp.step (fun s op => op.Confined s) shellStart
      [.sbrk 0x1000, .sbrk 16] := by decide +kernel
  obtain ⟨s, hs, hused⟩ := Option.map_eq_some_iff.mp hfree
  obtain ⟨s₁, h₁, hcount⟩ := Option.map_eq_some_iff.mp hfits
  have hkeeps : Always HeapOp.step (fun s op => op.KeepsPages shellStart.m.info.Free s) shellStart
      [.sbrk 0x1000, .sbrk 16] := by
    refine ⟨shellStart_keeps, fun s' h' => ⟨Or.inr fun k hk => ?_, fun _ _ => trivial⟩⟩
    obtain rfl := Option.some.inj (h₁.symm.trans h')
    omega
  refine ⟨s, hs, of_decide_eq_false hused, ?_⟩
  rw [shellStart_eq] at hs hconf hkeeps
  exact (heapPages_law shellTask_loaded (by decide) shellStart_execve hconf hs).mpr hkeeps

/-- One block, which is freed: the page that was mapped for it is unmapped
and stays in use. -/
theorem heapPages_law_lost : ¬ ∀ m task m' task' ops s, Loaded m task →
    vmShellBase ≤ task.bheap → execveHeap m task = some (m', task') →
    Always HeapOp.step (fun s op => op.Legal s) ⟨m', task', []⟩ ops →
    run HeapOp.step ⟨m', task', []⟩ ops = some s → PagesLaw m'.info.Free s := by
  intro hall
  have hstep : (HeapOp.step shellStart (.sbrk 0x1000)).map (fun s => (s.live,
      decide ((HeapOp.free 0x4F000819).KeepsPages shellStart.m.info.Free s)))
        = some ([(0x4F000819, 0x1000)], false) := by decide +kernel
  obtain ⟨s₁, h₁, hs₁⟩ := Option.map_eq_some_iff.mp hstep
  obtain ⟨hlive, hlost⟩ := Prod.mk.inj hs₁
  have hsome : (run HeapOp.step shellStart [.sbrk 0x1000, .free 0x4F000819]).isSome = true := by
    decide +kernel
  obtain ⟨s, hs⟩ := Option.isSome_iff_exists.mp hsome
  have hlegal : Always HeapOp.step (fun s op => op.Legal s) shellStart
      [.sbrk 0x1000, .free 0x4F000819] := by
    refine ⟨⟨by decide, by decide⟩, fun s' h' => ?_⟩
    obtain rfl := Option.some.inj (h₁.symm.trans h')
    exact ⟨⟨0x1000, hlive ▸ List.mem_cons_self⟩, fun _ _ => trivial⟩
  have hconf : Always HeapOp.step (fun s op => op.Confined s) shellStart
      [.sbrk 0x1000, .free 0x4F000819] := by decide +kernel
  obtain ⟨hi, -⟩ := PagesInv.start shellTask_loaded shellStart_execve
  rw [shellStart_eq] at h₁ hs hlegal hconf
  have hlaw := hall _ _ _ _ _ s shellTask_loaded (by decide) shellStart_execve hlegal hs
  have hkeeps := ((run_iff_always (fun s op s' hi hc => HeapOp.step_pages (by decide) hi hc)
    hi hconf hs).mp hlaw).2
  exact of_decide_eq_false hlost (hkeeps.2 s₁ h₁).1

end Csos
