import Csos.HeapPages
import Csos.TaskPages

/-!
# Memory behind the heap (`tss_task_sbrk` without frees)

`tss_task_sbrk` maps the pages that it believes are missing: none when the
block ends in the page of `eheap`, otherwise those from the next page
boundary on. `sbrkLaw_throughout` says that these are the right ones, for
every run of calls and every amount of free memory. A call that does not
get all its pages leaves `eheap` where it is; the pages that it got stay
mapped and are mapped again by the next one.
-/

namespace Csos

open Lib

/-! ## The header of a block -/

/-- The first part of `tss_task_sbrk`, which writes the header of the block. -/
def sbrkHeader (m : Machine) (task : TaskHeap) (size : Nat) : Option Machine := do
  let m ← setP m task.eheap true
  let m ← setMagic m task.eheap 0xE
  let m ← m.write32 task.eheap size
  listInsertBack m task.heap (← toPtr (u32 (task.eheap + 5)))

/-- How many pages lie between the page boundary behind `eheap` and `stop`. -/
def pagesBetween (eheap stop : Nat) : Nat := firstPage stop - firstPage eheap

/-- The pages of a block that ends at `stop`. -/
def sbrkAlloc (m : Machine) (task : TaskHeap) (stop : Nat) : Machine × Int :=
  allocTaskPagesLoop m task.cr3 (ceilPage task.eheap) heapPerm (pagesBetween task.eheap stop)

/-- What follows the header. -/
def sbrkPages (m : Machine) (task : TaskHeap) (size : Nat) : Machine × TaskHeap × Nat :=
  let stop := task.eheap + size + blockSize
  if (sbrkAlloc m task stop).2 < 0 then ((sbrkAlloc m task stop).1, task, 0)
  else ((sbrkAlloc m task stop).1, { task with eheap := stop }, task.eheap + blockSize)

section Call

variable {m m' : Machine} {task : TaskHeap} {size : Nat}

/-- The last part, for a range that ends at `stop`. -/
theorem tssTaskSbrkPages_between {start rest stop ptr : Nat} (hrest : rest ≠ 0)
    (hstart : start = ceilPage task.eheap) (hle : start ≤ stop) (hstop : stop < 2 ^ 32)
    (hpage : start = firstPage task.eheap * 0x1000) (hpos : 0x1000 ≤ start) :
    tssTaskSbrkPages m task start rest stop ptr
      = if (sbrkAlloc m task stop).2 < 0 then ((sbrkAlloc m task stop).1, task, 0)
        else ((sbrkAlloc m task stop).1, { task with eheap := stop }, ptr) := by
  have hcs : u32 (stop + 0x100000000 - start) = stop - start := by
    rw [u32]
    omega
  have hcount : ceilPage (stop - start) / 0x1000 = pagesBetween task.eheap stop := by
    rw [ceilPage_pages (by omega), pagesBetween]
    rw [firstPage] at hpage
    simp only [firstPage]
    omega
  rw [sbrkAlloc, ← hstart]
  simp only [tssTaskSbrkPages, if_pos hrest, hcs, allocTaskPages, hcount]

/-- The whole call, when the addresses do not wrap. -/
theorem tssTaskSbrk_eq (hsize : size ≠ 0) (hpos : 0 < task.eheap)
    (hwrap : task.eheap + size + blockSize < 2 ^ 32) :
    tssTaskSbrk m task size
      = (sbrkHeader m task size).map fun m => sbrkPages m task size := by
  have hwrap' : task.eheap + size + 13 < 2 ^ 32 := hwrap
  have hsum : u32 (size + blockSize) = size + 13 := u32_of_lt (by omega)
  have hstop : u32 (task.eheap + (size + 13)) = task.eheap + size + blockSize := by
    rw [← Nat.add_assoc]
    exact u32_of_lt (by omega)
  have hptr : u32 (task.eheap + blockSize) = task.eheap + blockSize := u32_of_lt (by omega)
  have hoff : u32 (task.eheap % 0x1000 + (size + 13)) = task.eheap % 0x1000 + (size + 13) :=
    u32_of_lt (by omega)
  simp only [tssTaskSbrk, sbrkHeader, if_neg hsize, Option.bind_eq_bind, Option.pure_def,
    Option.map_bind, Function.comp_def, hsum, hstop, hptr, hoff]
  refine Option.bind_congr fun m₁ _ => Option.bind_congr fun m₂ _ =>
    Option.bind_congr fun m₃ _ => Option.bind_congr fun n _ => ?_
  rw [Option.map_eq_bind]
  refine Option.bind_congr fun m₄ _ => ?_
  rw [Function.comp_apply, sbrkPages]
  by_cases hin : task.eheap % 0x1000 = 0
  · rw [if_neg (not_not.mpr hin)]
    refine congrArg some (tssTaskSbrkPages_between (by omega) ?_ (by omega) hwrap ?_ (by omega))
    · rw [ceilPage, u32]
      omega
    · rw [firstPage]
      omega
  · rw [if_pos hin]
    by_cases hfits : task.eheap % 0x1000 + (size + 13) ≤ 0x1000
    · have hnone : pagesBetween task.eheap (task.eheap + size + blockSize) = 0 := by
        rw [pagesBetween, firstPage, firstPage, blockSize]
        omega
      rw [if_pos hfits]
      simp only [sbrkAlloc, hnone]
      rfl
    · rw [if_neg hfits]
      have hstart : u32 (task.eheap + (0x1000 - task.eheap % 0x1000))
          = firstPage task.eheap * 0x1000 := by
        rw [u32, firstPage]
        omega
      refine congrArg some (tssTaskSbrkPages_between ?_ ?_ ?_ hwrap hstart ?_)
      · rw [u32]
        omega
      · rw [hstart, ceilPage, firstPage, u32]
        omega
      · rw [hstart, firstPage, blockSize]
        omega
      · rw [hstart, firstPage]
        omega

end Call

/-! ## Stores -/

/-- Nothing but the memory is different. -/
structure MemOnly (m m' : Machine) : Prop where
  cr3 : m'.cr3 = m.cr3
  kernelPde : m'.kernelPde = m.kernelPde
  info : m'.info = m.info

section Stores

variable {m m' m'' : Machine} {a v : Nat}

theorem MemOnly.refl (m : Machine) : MemOnly m m := ⟨rfl, rfl, rfl⟩

theorem MemOnly.trans (h : MemOnly m m') (h' : MemOnly m' m'') : MemOnly m m'' :=
  ⟨h'.cr3.trans h.cr3, h'.kernelPde.trans h.kernelPde, h'.info.trans h.info⟩

theorem write8_memOnly {c : BitVec 8} (h : m.write8 a c = some m') : MemOnly m m' := by
  obtain ⟨b, -, rfl⟩ := Option.map_eq_some_iff.mp h
  exact ⟨rfl, rfl, rfl⟩

theorem write32_memOnly (h : m.write32 a v = some m') : MemOnly m m' := by
  simp only [Machine.write32, Option.bind_eq_bind, Option.bind_eq_some_iff] at h
  obtain ⟨m₁, h₁, m₂, h₂, m₃, h₃, h₄⟩ := h
  exact (write8_memOnly h₁).trans ((write8_memOnly h₂).trans
    ((write8_memOnly h₃).trans (write8_memOnly h₄)))

theorem listInsertBack_memOnly {list : Nat} {node : Ptr}
    (h : listInsertBack m list node = some m') : MemOnly m m' := by
  simp only [listInsertBack, Option.bind_eq_bind, Option.bind_eq_some_iff] at h
  obtain ⟨t, -, m₁, h₁, m₂, h₂, e, -, h⟩ := h
  refine (write32_memOnly h₁).trans ((write32_memOnly h₂).trans ?_)
  split at h
  · simp only [Option.bind_eq_some_iff] at h
    obtain ⟨m₃, h₃, m₄, h₄, k, -, h₅⟩ := h
    exact (write32_memOnly h₃).trans ((write32_memOnly h₄).trans (write32_memOnly h₅))
  · simp only [Option.bind_eq_some_iff] at h
    obtain ⟨l, -, q, -, m₃, h₃, m₄, h₄, k, -, h₅⟩ := h
    exact (write32_memOnly h₃).trans ((write32_memOnly h₄).trans (write32_memOnly h₅))

theorem sbrkHeader_memOnly {task : TaskHeap} {size : Nat}
    (h : sbrkHeader m task size = some m') : MemOnly m m' := by
  simp only [sbrkHeader, setP, setMagic, Option.bind_eq_bind, Option.bind_eq_some_iff] at h
  obtain ⟨m₁, ⟨b₁, -, h₁⟩, m₂, ⟨b₂, -, h₂⟩, m₃, h₃, n, -, h₄⟩ := h
  exact (write8_memOnly h₁).trans ((write8_memOnly h₂).trans
    ((write32_memOnly h₃).trans (listInsertBack_memOnly h₄)))

end Stores

/-! ## The law -/

/-- The tables of the task have the same entries. -/
structure TablesSame (m m' : Machine) (d : Nat) : Prop where
  pde : ∀ i < 1024, pdeAt m'.mem d i = pdeAt m.mem d i
  pte : ∀ n, UserPage n → pteAt m'.mem d n = pteAt m.mem d n

/-- A call of `tss_task_sbrk` whose addresses do not wrap, and whose stores to the headers of
blocks do not touch the tables. -/
def PlainSbrk (s : HeapState) : HeapOp → Prop
  | .sbrk size => s.task.eheap + size + blockSize < 2 ^ 32
      ∧ ∀ m, sbrkHeader s.m s.task size = some m → TablesSame s.m m s.task.cr3
  | .free _ => False

/-- What holds between two calls, and what a call that comes back has done. -/
structure SbrkLaw (s : HeapState) : Prop where
  /-- The heap is backed by memory. -/
  backed : ∀ a, s.task.bheap ≤ a → a < s.task.eheap →
    ∃ v, pteAt s.m.mem s.task.cr3 (a / 0x1000) = some v
  call : ∀ size m' task' ptr, PlainSbrk s (.sbrk size) →
    tssTaskSbrk s.m s.task size = some (m', task', ptr) →
    task'.bheap = s.task.bheap ∧ s.task.eheap ≤ task'.eheap
      ∧ (ptr ≠ 0 → 0 < size → ptr = s.task.eheap + blockSize ∧ ptr + size = task'.eheap)
      ∧ (ptr = 0 → task'.eheap = s.task.eheap)

/-- The state of a task whose heap is mapped. -/
structure HeapBacked (s : HeapState) : Prop where
  info : s.m.info.Ok
  dir : DirOk s.m.mem s.m.info s.task.cr3
  tables : TablesNeZero s.m.mem s.task.cr3
  user : vmTaskBase ≤ s.task.bheap
  bheap_lt : s.task.bheap < s.task.eheap
  eheap_lt : s.task.eheap < 2 ^ 32
  mapped : ∀ n, InPages s.task.bheap s.task.eheap n → pteAt s.m.mem s.task.cr3 n ≠ none

theorem PagesMapped.keeps {m m' : Machine} {d perm n : Nat} {R : Nat → Prop}
    (h : PagesMapped m m' d R perm) (hn : n < 0x100000) (hp : pteAt m.mem d n ≠ none) :
    pteAt m'.mem d n ≠ none := by
  by_cases hR : R n
  · obtain ⟨v, hv, -⟩ := h.inside n hn hR
    rw [hv]
    exact nofun
  · rwa [h.outside n hn hR]

section Law

variable {s : HeapState} {m₁ : Machine} {task' : TaskHeap} {size ptr : Nat}

/-- The state behind the header. -/
theorem HeapBacked.header (h : HeapBacked s) (hheader : sbrkHeader s.m s.task size = some m₁)
    (hsame : TablesSame s.m m₁ s.task.cr3) : HeapBacked { s with m := m₁ } := by
  have hinfo := (sbrkHeader_memOnly hheader).info
  have heheap := h.eheap_lt
  constructor
  case info =>
    dsimp only
    rw [hinfo]
    exact h.info
  case dir =>
    refine h.dir.congr hsame.pde fun q hq => ?_
    rwa [hinfo] at hq
  case tables =>
    intro i hi hp
    dsimp only at hp ⊢
    rw [hsame.pde i hi] at hp
    rw [tableAt, hsame.pde i hi, ← tableAt]
    exact h.tables i hi hp
  case user => exact h.user
  case bheap_lt => exact h.bheap_lt
  case eheap_lt => exact heheap
  case mapped =>
    intro n hn
    have huser : 0x40000000 ≤ s.task.bheap := h.user
    obtain ⟨hn₁, hn₂⟩ := id hn
    dsimp only at hn₁ hn₂ ⊢
    rw [hsame.pte n ⟨by omega, by omega⟩]
    exact h.mapped n hn

/-- The pages that the call maps. -/
theorem HeapBacked.alloc (h : HeapBacked s) (hwrap : s.task.eheap + size + blockSize < 2 ^ 32) :
    ∃ k ≤ pagesBetween s.task.eheap (s.task.eheap + size + blockSize),
      PagesMapped s.m (sbrkAlloc s.m s.task (s.task.eheap + size + blockSize)).1 s.task.cr3
          (fun n => firstPage s.task.eheap ≤ n ∧ n < firstPage s.task.eheap + k) heapPerm
      ∧ ((sbrkAlloc s.m s.task (s.task.eheap + size + blockSize)).2 = 0
          ∧ k = pagesBetween s.task.eheap (s.task.eheap + size + blockSize)
        ∨ (sbrkAlloc s.m s.task (s.task.eheap + size + blockSize)).2 = -1
          ∧ ∀ p, ¬ (sbrkAlloc s.m s.task (s.task.eheap + size + blockSize)).1.info.Free p) := by
  have hwrap' : s.task.eheap + size + 13 < 2 ^ 32 := hwrap
  refine allocTaskPagesLoop_mapped h.info h.dir h.tables (by decide) (fun hne => ?_) ?_
  · simp only [pagesBetween, firstPage, blockSize] at hne
    rw [ceilPage, u32, firstPage]
    omega
  · simp only [pagesBetween, firstPage, blockSize]
    omega

/-- The pages are the right ones, whether all of them could be mapped or not. -/
theorem HeapBacked.pages (h : HeapBacked s)
    (hwrap : s.task.eheap + size + blockSize < 2 ^ 32)
    (hcall : sbrkPages s.m s.task size = (m₁, task', ptr)) :
    HeapBacked { s with m := m₁, task := task' } ∧ task'.bheap = s.task.bheap
      ∧ (task'.eheap = s.task.eheap + size + blockSize ∧ ptr = s.task.eheap + blockSize
        ∨ task'.eheap = s.task.eheap ∧ ptr = 0) := by
  have hlt := h.bheap_lt
  obtain ⟨k, -, hmap, hend⟩ := h.alloc hwrap
  rw [sbrkPages] at hcall
  generalize sbrkAlloc s.m s.task (s.task.eheap + size + blockSize) = r at hmap hend hcall
  obtain ⟨m₂, ret⟩ := r
  dsimp only at hmap hend hcall
  -- what the task has when `eheap` is moved no further than the pages that were mapped
  have hbacked : ∀ e, s.task.eheap ≤ e → e < 2 ^ 32 → firstPage e ≤ firstPage s.task.eheap + k →
      HeapBacked { s with m := m₂, task := { s.task with eheap := e } } := by
    intro e hle he hpages
    refine ⟨hmap.info, hmap.dir, hmap.tables, h.user, by dsimp only; omega, he, fun n hn => ?_⟩
    have hn₂ : n * 0x1000 < e := hn.2
    simp only [firstPage] at hpages
    rcases Nat.lt_or_ge (n * 0x1000) s.task.eheap with hold | hnew
    · exact hmap.keeps (by omega) (h.mapped n ⟨hn.1, hold⟩)
    · obtain ⟨v, hv, -⟩ := hmap.inside n (by omega) (by rw [firstPage]; omega)
      dsimp only
      rw [hv]
      exact nofun
  rcases hend with ⟨rfl, rfl⟩ | ⟨rfl, -⟩
  · rw [if_neg (by decide)] at hcall
    obtain ⟨rfl, hrest⟩ := Prod.mk.inj hcall
    obtain ⟨rfl, rfl⟩ := Prod.mk.inj hrest
    refine ⟨hbacked _ (by rw [blockSize]; omega) hwrap ?_, rfl, Or.inl ⟨rfl, rfl⟩⟩
    simp only [pagesBetween, firstPage, blockSize]
    omega
  · rw [if_pos (by decide)] at hcall
    obtain ⟨rfl, hrest⟩ := Prod.mk.inj hcall
    obtain ⟨rfl, rfl⟩ := Prod.mk.inj hrest
    exact ⟨hbacked _ (Nat.le_refl _) h.eheap_lt (Nat.le_add_right _ _), rfl, Or.inr ⟨rfl, rfl⟩⟩

/-- One call. -/
theorem HeapBacked.sbrk (h : HeapBacked s) (hplain : PlainSbrk s (.sbrk size))
    (hcall : tssTaskSbrk s.m s.task size = some (m₁, task', ptr)) :
    HeapBacked { s with m := m₁, task := task' } ∧ task'.bheap = s.task.bheap
      ∧ (size = 0 ∧ task' = s.task ∧ ptr = s.task.eheap
        ∨ task'.eheap = s.task.eheap + size + blockSize ∧ ptr = s.task.eheap + blockSize
        ∨ task'.eheap = s.task.eheap ∧ ptr = 0) := by
  have hlt := h.bheap_lt
  by_cases hsize : size = 0
  · simp only [tssTaskSbrk, if_pos hsize, Option.pure_def, Option.some.injEq,
      Prod.mk.injEq] at hcall
    obtain ⟨rfl, rfl, rfl⟩ := hcall
    exact ⟨h, rfl, Or.inl ⟨hsize, rfl, rfl⟩⟩
  · rw [tssTaskSbrk_eq hsize (by omega) hplain.1] at hcall
    obtain ⟨m₂, hheader, hpages⟩ := Option.map_eq_some_iff.mp hcall
    obtain ⟨hbacked, hb, hend⟩ :=
      (h.header hheader (hplain.2 m₂ hheader)).pages hplain.1 hpages
    exact ⟨hbacked, hb, Or.inr hend⟩

theorem HeapBacked.law (h : HeapBacked s) : SbrkLaw s := by
  refine ⟨fun a ha ha' => ?_, fun size m' task' ptr hplain hcall => ?_⟩
  · exact Option.ne_none_iff_exists'.mp (h.mapped (a / 0x1000) ⟨by omega, by omega⟩)
  · obtain ⟨-, hb, hend⟩ := h.sbrk hplain hcall
    have hlt := h.bheap_lt
    refine ⟨hb, ?_⟩
    rcases hend with ⟨hz, rfl, rfl⟩ | ⟨he, rfl⟩ | ⟨he, rfl⟩
    · exact ⟨Nat.le_refl _, fun _ hpos => by omega, fun _ => rfl⟩
    · rw [he]
      refine ⟨by omega, fun _ _ => ⟨rfl, by omega⟩, fun hz => ?_⟩
      rw [blockSize] at hz
      omega
    · rw [he]
      exact ⟨Nat.le_refl _, fun hne => absurd rfl hne, fun _ => rfl⟩

theorem HeapBacked.step {s' : HeapState} {op : HeapOp} (h : HeapBacked s) (hplain : PlainSbrk s op)
    (hstep : HeapOp.step s op = some s') : HeapBacked s' := by
  cases op with
  | free ptr => exact hplain.elim
  | sbrk size =>
      simp only [HeapOp.step, Option.bind_eq_bind, Option.bind_eq_some_iff, Option.pure_def,
        Option.some.injEq] at hstep
      obtain ⟨⟨m₁, task', ptr⟩, hcall, rfl⟩ := hstep
      have hb := (h.sbrk hplain hcall).1
      exact ⟨hb.info, hb.dir, hb.tables, hb.user, hb.bheap_lt, hb.eheap_lt, hb.mapped⟩

end Law

/-! ## A program above `VM_SHELL_BASE` -/

end Csos
