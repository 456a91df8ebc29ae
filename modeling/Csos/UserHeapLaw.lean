import Csos.Lib.Run
import Csos.UserHeap

/-!
# What the heap of a user task guarantees

`sbrk` writes the header of a block before it gets the pages for the
block, and gets pages from the next page boundary on even where pages
are mapped already; `free` moves `eheap` down to the freed block even
when it is not the last one. The heap is sound nevertheless as long as
each block is freed before the older ones and no header touches a page
that the same call replaces: then the blocks tile the heap (`HeapInv`).
-/

namespace Csos

open Lib

/-- The state of a task, and the blocks that it holds: the pointer and
the size of each `sbrk` that succeeded and was not freed. -/
structure HeapState where
  m : Machine
  task : TaskHeap
  live : List (Nat × Nat)

/-- A call of the task. -/
inductive HeapOp where
  | sbrk (size : Nat)
  | free (ptr : Nat)
deriving DecidableEq

def HeapOp.step (s : HeapState) : HeapOp → Option HeapState
  | sbrk size => do
      let (m, task, ptr) ← tssTaskSbrk s.m s.task size
      return ⟨m, task, if ptr = 0 then s.live else s.live ++ [(ptr, size)]⟩
  | free ptr => do
      let (m, task) ← tssTaskFree s.m s.task ptr
      return ⟨m, task, s.live.filter fun b => b.1 ≠ ptr⟩

/-- The calls that a task may make: it asks for something, and frees only
what it holds. -/
def HeapOp.Legal (s : HeapState) : HeapOp → Prop
  | sbrk size => 0 < size ∧ size < 2 ^ 32
  | free ptr => ∃ size, (ptr, size) ∈ s.live

/-- The lists in the task's memory. -/
def heapOf (m : Machine) : Heap Nat Ptr where
  pre n := (ListMem.pre m n).getD none
  next n := (ListMem.next m n).getD none
  head l := (ListMem.head m l).getD none
  tail l := (ListMem.tail m l).getD none
  size l := (ListMem.size m l).getD 0

/-- The blocks that are held are disjoint and below `eheap`, their
headers are intact, and `heap` links exactly them. -/
structure HeapLaw (s : HeapState) : Prop where
  disjoint : s.live.Pairwise fun b c =>
    b.1 + b.2 ≤ c.1 - blockSize ∨ c.1 + c.2 ≤ b.1 - blockSize
  below : ∀ b ∈ s.live, b.1 + b.2 ≤ s.task.eheap
  size : ∀ b ∈ s.live, s.m.read32 (b.1 - blockSize) = some b.2
  p : ∀ b ∈ s.live, getP s.m (b.1 - blockSize) = some true
  linked : ∃ ns : List Ptr, (heapOf s.m).Rep s.task.heap ns
    ∧ (ns.map Subtype.val).Perm (s.live.map fun b => b.1 - blockSize + 5)

/-! ## Blocks that tile the heap -/

/-- The blocks lie one after another between `a` and `e`. -/
def Tiled : Nat → List (Nat × Nat) → Nat → Prop
  | a, [], e => e = a
  | a, b :: bs, e => b.1 = a + blockSize ∧ Tiled (b.1 + b.2) bs e

section Tiled

variable {a e : Nat} {b : Nat × Nat} {bs : List (Nat × Nat)}

theorem Tiled.le (h : Tiled a bs e) : a ≤ e := by
  induction bs generalizing a with
  | nil => exact Nat.le_of_eq h.symm
  | cons b bs ih =>
      have := ih h.2
      have := h.1
      omega

theorem Tiled.mem (h : Tiled a bs e) (hb : b ∈ bs) : a + blockSize ≤ b.1 ∧ b.1 + b.2 ≤ e := by
  induction bs generalizing a with
  | nil => cases hb
  | cons c bs ih =>
      have hc := h.1
      rcases List.mem_cons.mp hb with rfl | hb
      · exact ⟨Nat.le_of_eq hc.symm, h.2.le⟩
      · have := ih h.2 hb
        omega

theorem Tiled.pairwise (h : Tiled a bs e) :
    bs.Pairwise fun b c => b.1 + b.2 + blockSize ≤ c.1 := by
  induction bs generalizing a with
  | nil => exact .nil
  | cons b bs ih => exact .cons (fun c hc => (h.2.mem hc).1) (ih h.2)

theorem Tiled.apart {c : Nat × Nat} (h : Tiled a bs e) (hb : b ∈ bs) (hc : c ∈ bs) (hne : b ≠ c) :
    b.1 + b.2 + blockSize ≤ c.1 ∨ c.1 + c.2 + blockSize ≤ b.1 := by
  induction bs generalizing a with
  | nil => cases hb
  | cons x bs ih =>
      rcases List.mem_cons.mp hb with rfl | hb₁ <;> rcases List.mem_cons.mp hc with rfl | hc₁
      · exact absurd rfl hne
      · exact Or.inl (h.2.mem hc₁).1
      · exact Or.inr (h.2.mem hb₁).1
      · exact ih h.2 hb₁ hc₁

theorem tiled_append : Tiled a (bs ++ [b]) e
    ↔ ∃ e', Tiled a bs e' ∧ b.1 = e' + blockSize ∧ e = b.1 + b.2 := by
  induction bs generalizing a with
  | nil =>
      simp only [List.nil_append, Tiled]
      exact ⟨fun h => ⟨a, rfl, h.1, h.2⟩, fun ⟨e', he', h⟩ => ⟨he' ▸ h.1, h.2⟩⟩
  | cons c bs ih =>
      simp only [List.cons_append, Tiled, ih]
      exact ⟨fun ⟨hc, e', h⟩ => ⟨e', ⟨hc, h.1⟩, h.2⟩, fun ⟨e', ⟨hc, h⟩, h'⟩ => ⟨hc, e', h, h'⟩⟩

end Tiled

/-! ## The invariant -/

/-- The lists in a flat memory. -/
def heapAt (f : Bytes) : Heap Nat Ptr where
  pre n := toPtr (f.load32 n.1)
  next n := toPtr (f.load32 (n.1 + 4))
  head l := toPtr (f.load32 l)
  tail l := toPtr (f.load32 (l + 4))
  size l := UInt32.ofNat (f.load32 (l + 8))

/-- Headers and links of the blocks, in a flat memory. -/
structure Blocks (f : Bytes) (l : Nat) (live : List (Nat × Nat)) (ns : List Ptr) : Prop where
  size : ∀ b ∈ live, f.load32 (b.1 - blockSize) = b.2
  p : ∀ b ∈ live, (f (b.1 - blockSize + 4)).getLsbD 0 = true
  rep : (heapAt f).Rep l ns
  nodes : ns.map Subtype.val = live.map fun b => b.1 - blockSize + 5

/-- The heap of a task that frees its blocks in the right order. -/
structure HeapInv (d : Nat) (s : HeapState) : Prop where
  running : Running s.m d
  limit : s.m.info.page s.m.info.bitmap.bitSize ≤ pmExtLimit
  cr3 : s.task.cr3 = d
  heap : s.task.heap = s.task.bheap
  top : s.task.eheap < 2 ^ 32
  tiled : Tiled (s.task.bheap + 12) s.live s.task.eheap
  mapped : RangeMapped s.m.mem d s.task.bheap (s.task.eheap - s.task.bheap)
  blocks : ∃ ns, Blocks s.m.flat s.task.bheap s.live ns

/-- Headers and links below `e` only depend on the memory below `e`. -/
theorem Blocks.congr {f f' : Bytes} {l e : Nat} {live : List (Nat × Nat)} {ns : List Ptr}
    (h : Blocks f l live ns) (hle : l + 12 ≤ e)
    (hmem : ∀ b ∈ live, l + 12 + blockSize ≤ b.1 ∧ b.1 ≤ e)
    (hf : ∀ b, l ≤ b → b < e → f' b = f b) : Blocks f' l live ns := by
  have hload : ∀ a, l ≤ a → a + 4 ≤ e → f'.load32 a = f.load32 a :=
    fun a ha ha' => Bytes.load32_congr fun b hb hb' => hf b (by omega) (by omega)
  have hnode : ∀ n ∈ ns, l ≤ n.1 ∧ n.1 + 8 ≤ e := by
    intro n hn
    have hn' := List.mem_map_of_mem (f := Subtype.val) hn
    rw [h.nodes] at hn'
    obtain ⟨b, hb, hbn⟩ := List.mem_map.mp hn'
    have := hmem b hb
    simp only [blockSize] at this hbn
    omega
  refine ⟨fun b hb => ?_, fun b hb => ?_, ?_, h.nodes⟩
  · have := hmem b hb
    simp only [blockSize] at this ⊢
    rw [hload _ (by omega) (by omega)]
    exact h.size b hb
  · have := hmem b hb
    simp only [blockSize] at this ⊢
    rw [hf _ (by omega) (by omega)]
    exact h.p b hb
  · refine Heap.Rep.congr h.rep ?_ ?_ ?_ (fun n hn => ?_) fun n hn => ?_
    · exact congrArg toPtr (hload l (Nat.le_refl _) (by omega))
    · exact congrArg toPtr (hload (l + 4) (by omega) (by omega))
    · exact congrArg UInt32.ofNat (hload (l + 8) (by omega) (by omega))
    · exact congrArg toPtr (hload n.1 (hnode n hn).1 (by have := (hnode n hn).2; omega))
    · exact congrArg toPtr (hload (n.1 + 4) (by have := (hnode n hn).1; omega)
        (by have := (hnode n hn).2; omega))

section Links

variable {m m' : Machine} {d l e : Nat} {live : List (Nat × Nat)} {ns : List Ptr} {n : Ptr}

/-- Where the nodes are. -/
def NodesOf (live : List (Nat × Nat)) (ns : List Ptr) : Prop :=
  ns.map Subtype.val = live.map fun b => b.1 - blockSize + 5

theorem NodesOf.mem (h : NodesOf live ns) (hn : n ∈ ns) :
    ∃ b ∈ live, n.1 = b.1 - blockSize + 5 := by
  have hmem := List.mem_map_of_mem (f := Subtype.val) hn
  rw [h] at hmem
  obtain ⟨b, hb, hbn⟩ := List.mem_map.mp hmem
  exact ⟨b, hb, hbn.symm⟩

/-- The headers of tiled blocks are well placed. -/
theorem arena_of_tiled (hr : Running m d) (ht : Tiled (l + 12) live e)
    (hm : RangeMapped m.mem d l (e - l)) (hns : NodesOf live ns) : Arena m d l (· ∈ ns) := by
  have hle := ht.le
  constructor
  case running => exact hr
  case header => exact hm.sub (Nat.le_refl _) (by omega)
  case node =>
    intro n hn
    obtain ⟨b, hb, hbn⟩ := hns.mem hn
    have := ht.mem hb
    simp only [blockSize] at this hbn
    exact hm.sub (by omega) (by omega)
  case node_header =>
    intro n hn
    obtain ⟨b, hb, hbn⟩ := hns.mem hn
    have := ht.mem hb
    simp only [blockSize] at this hbn
    omega
  case node_node =>
    intro n k hn hk hne
    obtain ⟨b, hb, hbn⟩ := hns.mem hn
    obtain ⟨c, hc, hcn⟩ := hns.mem hk
    have hb' := ht.mem hb
    have hc' := ht.mem hc
    have hbc : b ≠ c := fun he => hne (Subtype.ext (by rw [hbn, hcn, he]))
    simp only [blockSize] at hb' hc' hbn hcn
    rcases ht.apart hb hc hbc with h | h <;> simp only [blockSize] at h <;> omega

theorem heapSim_start {VN VG : Ptr → Prop}
    (hhead : ∀ k, (heapAt m.flat).head l = some k → VN k)
    (htail : ∀ k, (heapAt m.flat).tail l = some k → VN k)
    (hpre : ∀ n k, VG n → (heapAt m.flat).pre n = some k → VN k)
    (hnext : ∀ n k, VG n → (heapAt m.flat).next n = some k → VN k) :
    HeapSim m d l VN VG (heapAt m.flat) m := by
  refine ⟨SameSpace.refl m d, fun w hw => ?_, fun _ _ _ _ => rfl, hhead, htail, hpre, hnext⟩
  have hlt := fun a => Bytes.load32_lt m.flat a
  cases w with
  | size => exact (UInt32.toNat_ofNat_of_lt' (hlt (l + 8))).symm
  | head => exact (ofPtr_toPtr (hlt l)).symm
  | tail => exact (ofPtr_toPtr (hlt (l + 4))).symm
  | pre n => exact (ofPtr_toPtr (hlt n.1)).symm
  | next n => exact (ofPtr_toPtr (hlt (n.1 + 4))).symm

theorem HeapSim.rep {m₀ : Machine} {VN VG : Ptr → Prop} {h : Heap Nat Ptr}
    (hs : HeapSim m₀ d l VN VG h m) (hrep : h.Rep l ns) (hVN : ∀ n ∈ ns, VN n) :
    (heapAt m.flat).Rep l ns := by
  have hptr : ∀ {w : Word} {x : Option Ptr}, w.Valid VN → w.value h l = ofPtr x →
      toPtr (m.flat.load32 (w.addr l)) = x := by
    intro w x hw hx
    rw [hs.word w hw, hx, toPtr_ofPtr]
  refine Heap.Rep.congr hrep (hptr (w := .head) trivial rfl) (hptr (w := .tail) trivial rfl) ?_
    (fun n hn => hptr (w := .pre n) (hVN n hn) rfl) fun n hn => hptr (w := .next n) (hVN n hn) rfl
  have hsize := hs.word .size trivial
  exact (congrArg UInt32.ofNat hsize).trans UInt32.ofNat_toNat

/-- Neither a size nor a `p` is a link, so list operations keep them. -/
theorem HeapSim.header {m₀ : Machine} {VG : Ptr → Prop} {h : Heap Nat Ptr}
    (hs : HeapSim m₀ d l (· ∈ ns) VG h m) (ht : Tiled (l + 12) live e)
    (hm : RangeMapped m₀.mem d l (e - l)) (hns : NodesOf live ns) :
    ∀ b ∈ live, ∀ k < 5, m.flat (b.1 - blockSize + k) = m₀.flat (b.1 - blockSize + k) := by
  intro b hb k hk
  have hmem := ht.mem hb
  simp only [blockSize] at hmem ⊢
  refine hs.frame _ (hm _ (by omega) (by omega)).1 (Or.inr (by omega)) fun n hn => ?_
  obtain ⟨c, hc, hcn⟩ := hns.mem hn
  have hmem' := ht.mem hc
  simp only [blockSize] at hmem' hcn
  by_cases hbc : b = c
  · subst hbc
    omega
  · rcases ht.apart hb hc hbc with h | h <;> simp only [blockSize] at h <;> omega

theorem HeapSim.load_header {m₀ : Machine} {VG : Ptr → Prop} {h : Heap Nat Ptr}
    (hs : HeapSim m₀ d l (· ∈ ns) VG h m) (ht : Tiled (l + 12) live e)
    (hm : RangeMapped m₀.mem d l (e - l)) (hns : NodesOf live ns) :
    ∀ b ∈ live, m.flat.load32 (b.1 - blockSize) = m₀.flat.load32 (b.1 - blockSize) := by
  intro b hb
  refine Bytes.load32_congr fun x hx hx' => ?_
  obtain ⟨k, rfl⟩ := Nat.exists_eq_add_of_le hx
  exact hs.header ht hm hns b hb k (by omega)

/-- The list in the task's memory and the blocks in it, when a header has
been filled in at `e`. -/
theorem insertBack_blocks (hr : Running m d) (ht : Tiled (l + 12) live e)
    (hm : RangeMapped m.mem d l (e + blockSize - l)) {size : Nat}
    (hb : Blocks m.flat l live ns) (hsize : m.flat.load32 e = size)
    (hp : (m.flat (e + 4)).getLsbD 0 = true) (hn : n.1 = e + 5) :
    ∃ m', listInsertBack m l n = some m' ∧ SameSpace m m' d
      ∧ Blocks m'.flat l (live ++ [(e + blockSize, size)]) (ns ++ [n]) := by
  have hle := ht.le
  have ht' : Tiled (l + 12) (live ++ [(e + blockSize, 0)]) (e + blockSize) :=
    tiled_append.mpr ⟨e, ht, rfl, rfl⟩
  have hns : NodesOf (live ++ [(e + blockSize, 0)]) (ns ++ [n]) := by
    rw [NodesOf, List.map_append, List.map_append, hb.nodes]
    simp [hn]
  have A := arena_of_tiled hr ht' hm hns
  have hmem : ∀ k ∈ ns, k ∈ ns ++ [n] := fun k hk => List.mem_append_left _ hk
  have hnew : n ∉ ns := by
    intro hn'
    obtain ⟨b, hb', hbn⟩ := NodesOf.mem hb.nodes hn'
    have := ht.mem hb'
    simp only [blockSize] at this hbn
    omega
  have hstart : HeapSim m d l (· ∈ ns ++ [n]) (fun _ => False) (heapAt m.flat) m := by
    refine heapSim_start (fun k hk => hmem k ?_) (fun k hk => hmem k ?_)
      (fun _ _ hf => hf.elim) fun _ _ hf => hf.elim
    · rw [hb.rep.head_eq] at hk
      exact List.mem_of_head? hk
    · rw [hb.rep.tail_eq] at hk
      exact List.mem_of_getLast? hk
  obtain ⟨h', hins, hrep, -⟩ := Heap.listInsertBack_spec hb.rep hnew
  obtain ⟨m', hrun, hsim⟩ := (arena_sim A fun _ hf => hf.elim).listInsertBack hstart
    (List.mem_append_right ns (List.mem_singleton_self n)) hins
  have hload := hsim.load_header ht' hm hns
  have hheader := hsim.header ht' hm hns
  refine ⟨m', hrun, hsim.same, fun b hb' => ?_, fun b hb' => ?_, hsim.rep hrep fun k hk => hk, ?_⟩
  · rcases List.mem_append.mp hb' with hold | hlast
    · rw [hload b (List.mem_append_left _ hold)]
      exact hb.size b hold
    · obtain rfl := List.mem_singleton.mp hlast
      rw [show (e + blockSize, size).1 = (e + blockSize, 0).1 from rfl,
        hload _ (List.mem_append_right _ (List.mem_singleton_self _))]
      exact hsize
  · rcases List.mem_append.mp hb' with hold | hlast
    · rw [hheader b (List.mem_append_left _ hold) 4 (by omega)]
      exact hb.p b hold
    · obtain rfl := List.mem_singleton.mp hlast
      rw [show (e + blockSize, size).1 = (e + blockSize, 0).1 from rfl,
        hheader _ (List.mem_append_right _ (List.mem_singleton_self _)) 4 (by omega)]
      exact hp
  · rw [List.map_append, List.map_append, hb.nodes]
    simp [hn]

/-- The last block is unlinked. -/
theorem remove_blocks {b : Nat × Nat} (hr : Running m d) (ht : Tiled (l + 12) (live ++ [b]) e)
    (hm : RangeMapped m.mem d l (e - l)) (hsize : ∀ c ∈ live, m.flat.load32 (c.1 - blockSize) = c.2)
    (hp : ∀ c ∈ live, (m.flat (c.1 - blockSize + 4)).getLsbD 0 = true)
    (hrep : (heapAt m.flat).Rep l (ns ++ [n])) (hns : NodesOf (live ++ [b]) (ns ++ [n])) :
    ∃ m', listRemove m l n = some (m', n) ∧ SameSpace m m' d ∧ Blocks m'.flat l live ns := by
  have A := arena_of_tiled hr ht hm hns
  obtain ⟨hhead, htail, hseg, -, -⟩ := Heap.rep_iff_dseg.mp hrep
  have hstart : HeapSim m d l (· ∈ ns ++ [n]) (· ∈ ns ++ [n]) (heapAt m.flat) m := by
    refine heapSim_start (fun k hk => List.mem_of_head? (hhead ▸ hk))
      (fun k hk => List.mem_of_getLast? (htail ▸ hk)) (fun a k ha hk => ?_) fun a k ha hk => ?_
    · exact (hseg.closed ha).1 hk
    · exact (hseg.closed ha).2 hk
  obtain ⟨h', hrem, hrep', -⟩ := @Heap.listRemove_spec _ _ _ _ _ _ _ _ [] hrep
  rw [List.append_nil] at hrep'
  obtain ⟨m', hrun, hsim⟩ := (arena_sim A fun _ h => h).listRemove hstart
    (List.mem_append_right ns (List.mem_singleton_self n)) hrem
  have hold : ∀ c ∈ live, c ∈ live ++ [b] := fun c hc => List.mem_append_left _ hc
  refine ⟨m', hrun, hsim.same, fun c hc => ?_, fun c hc => ?_,
    hsim.rep hrep' fun k hk => List.mem_append_left _ hk, ?_⟩
  · rw [hsim.load_header ht hm hns c (hold c hc)]
    exact hsize c hc
  · rw [hsim.header ht hm hns c (hold c hc) 4 (by omega)]
    exact hp c hc
  · rw [NodesOf, List.map_append, List.map_append] at hns
    exact List.append_inj_left' hns rfl

end Links

/-! ## `sbrk` -/

/-- The first page behind the one that `eheap` is in. -/
def nextPage (eheap : Nat) : Nat := eheap / 0x1000 + 1

/-- How many pages a block of `size` bytes needs behind that one. -/
def pagesNeeded (eheap size : Nat) : Nat :=
  (eheap + blockSize + size + 0xFFF) / 0x1000 - nextPage eheap

/-- The header lies in one page, which the call does not replace; the
block ends below 4 GiB; and there are enough pages for it. -/
structure SbrkOk (s : HeapState) (size : Nat) : Prop where
  pos : 0 < size
  inside : s.task.eheap % 0x1000 ≠ 0
  header : s.task.eheap % 0x1000 + blockSize ≤ 0x1000
  top : s.task.eheap + blockSize + size < 2 ^ 32
  pages : s.task.eheap % 0x1000 + blockSize + size ≤ 0x1000
    ∨ pagesNeeded s.task.eheap size
        + tablesMissing s.m.mem s.task.cr3 (nextPage s.task.eheap) (pagesNeeded s.task.eheap size)
      ≤ s.m.info.freePages

section Sbrk

variable {d size : Nat} {s : HeapState}

/-- A block that ends in the page of its header needs no pages. -/
theorem SbrkOk.of_fits {e : Nat} (he : s.task.eheap = e) (hpos : 0 < size) (hin : e % 0x1000 ≠ 0)
    (hfits : e % 0x1000 + blockSize + size ≤ 0x1000) (htop : e + blockSize + size < 2 ^ 32) :
    SbrkOk s size := by
  subst he
  exact ⟨hpos, hin, by omega, htop, Or.inl hfits⟩

/-- The header of the next block can be written. -/
theorem HeapInv.mapped_header (hi : HeapInv d s) (hin : s.task.eheap % 0x1000 ≠ 0)
    (hfit : s.task.eheap % 0x1000 + blockSize ≤ 0x1000) :
    RangeMapped s.m.mem d s.task.bheap (s.task.eheap + blockSize - s.task.bheap) := by
  have hle := hi.tiled.le
  simp only [blockSize] at hfit ⊢
  intro b hb hb'
  by_cases hlt : b < s.task.eheap
  · exact hi.mapped b hb (by omega)
  · obtain ⟨⟨hlo, hhi⟩, hp⟩ := hi.mapped (s.task.eheap - 1) (by omega) (by omega)
    have hpage : b / 0x1000 = (s.task.eheap - 1) / 0x1000 := by omega
    refine ⟨⟨by omega, by omega⟩, ?_⟩
    rw [hpage]
    exact hp

/-- `alloc_task_pages` as `sbrk` calls it. -/
theorem allocTaskPages_sbrk {m : Machine} {e : Nat} (hs : SpaceOk m d) (hlo : 0x40000000 ≤ e)
    (htop : e + blockSize + size < 2 ^ 32) (hover : 0x1000 < e % 0x1000 + blockSize + size)
    (hpages : pagesNeeded e size + tablesMissing m.mem d (nextPage e) (pagesNeeded e size)
      ≤ m.info.freePages) :
    ∃ m', allocTaskPages m d (nextPage e * 0x1000)
        (u32 (e + (size + blockSize) + 0x100000000 - nextPage e * 0x1000)) heapPerm = (m', 0)
      ∧ Remapped m m' d (nextPage e) (pagesNeeded e size) := by
  have hB : blockSize = 13 := rfl
  have hN : nextPage e = e / 0x1000 + 1 := rfl
  have hP : pagesNeeded e size = (e + blockSize + size + 0xFFF) / 0x1000 - nextPage e := rfl
  have hcs : u32 (e + (size + blockSize) + 0x100000000 - nextPage e * 0x1000)
      = e + (size + blockSize) - nextPage e * 0x1000 := by
    rw [u32]
    omega
  have hcount : ceilPage (e + (size + blockSize) - nextPage e * 0x1000) / 0x1000
      = pagesNeeded e size := by
    rw [ceilPage, u32]
    omega
  have hbase : vmTaskBase ≤ nextPage e * 0x1000 := by
    have : 0x40000000 ≤ nextPage e * 0x1000 := by omega
    exact this
  have hpage : nextPage e * 0x1000 / 0x1000 = nextPage e := by omega
  rw [hcs, allocTaskPages, hcount]
  obtain ⟨m', hrun, hmap⟩ := @allocTaskPagesLoop_enough m d heapPerm (pagesNeeded e size)
    (nextPage e * 0x1000) hs hbase (by omega) (by decide)
    (by rw [hpage]; exact hpages)
  rw [hpage] at hmap
  exact ⟨m', hrun, hmap⟩

theorem tssTaskSbrkPages_ok {m m' : Machine} {task : TaskHeap} {start size stop peheap cs : Nat}
    (hsize : size ≠ 0) (hcs : cs = u32 (stop + 0x100000000 - start))
    (halloc : allocTaskPages m task.cr3 start cs heapPerm = (m', 0)) :
    tssTaskSbrkPages m task start size stop peheap = (m', { task with eheap := stop }, peheap) := by
  subst hcs
  simp only [tssTaskSbrkPages, if_pos hsize, halloc, Int.lt_irrefl, if_false]

/-- `tss_task_sbrk` when the block ends in the page that its header is in. -/
theorem tssTaskSbrk_inside {m m₁ m₂ m₃ m₄ : Machine} {task : TaskHeap} {n : Ptr} (hpos : size ≠ 0)
    (h₁ : setP m task.eheap true = some m₁) (h₂ : setMagic m₁ task.eheap 0xE = some m₂)
    (h₃ : m₂.write32 task.eheap size = some m₃) (hn : toPtr (u32 (task.eheap + 5)) = some n)
    (h₄ : listInsertBack m₃ task.heap n = some m₄) (hin : task.eheap % 0x1000 ≠ 0)
    (hfits : u32 (task.eheap % 0x1000 + u32 (size + blockSize)) ≤ 0x1000) :
    tssTaskSbrk m task size
      = some (m₄, { task with eheap := u32 (task.eheap + u32 (size + blockSize)) },
          u32 (task.eheap + blockSize)) := by
  simp only [tssTaskSbrk, if_neg hpos, h₁, h₂, h₃, hn, h₄, if_pos hin, if_pos hfits,
    Option.bind_eq_bind, Option.bind_some, Option.pure_def]

/-- `tss_task_sbrk` when it goes on to get pages. -/
theorem tssTaskSbrk_pages {m m₁ m₂ m₃ m₄ : Machine} {task : TaskHeap} {n : Ptr} (hpos : size ≠ 0)
    (h₁ : setP m task.eheap true = some m₁) (h₂ : setMagic m₁ task.eheap 0xE = some m₂)
    (h₃ : m₂.write32 task.eheap size = some m₃) (hn : toPtr (u32 (task.eheap + 5)) = some n)
    (h₄ : listInsertBack m₃ task.heap n = some m₄) (hin : task.eheap % 0x1000 ≠ 0)
    (hfits : ¬ u32 (task.eheap % 0x1000 + u32 (size + blockSize)) ≤ 0x1000) :
    tssTaskSbrk m task size
      = some (tssTaskSbrkPages m₄ task (u32 (task.eheap + (0x1000 - task.eheap % 0x1000)))
          (u32 (u32 (size + blockSize) + 0x100000000 - (0x1000 - task.eheap % 0x1000)))
          (u32 (task.eheap + u32 (size + blockSize))) (u32 (task.eheap + blockSize))) := by
  simp only [tssTaskSbrk, if_neg hpos, h₁, h₂, h₃, hn, h₄, if_pos hin, if_neg hfits,
    Option.bind_eq_bind, Option.bind_some, Option.pure_def]

/-- What `sbrk` does before it looks for pages: the header is written, and
the block is linked in. -/
structure HeaderLinked (m : Machine) (task : TaskHeap) (live : List (Nat × Nat)) (d size : Nat)
    (m₁ m₂ m₃ m₄ : Machine) (n : Ptr) : Prop where
  setP : setP m task.eheap true = some m₁
  magic : setMagic m₁ task.eheap 0xE = some m₂
  sized : m₂.write32 task.eheap size = some m₃
  node : toPtr (u32 (task.eheap + 5)) = some n
  insert : listInsertBack m₃ task.heap n = some m₄
  same : SameSpace m m₄ d
  blocks : ∃ ns, Blocks m₄.flat task.heap (live ++ [(task.eheap + blockSize, size)]) ns

theorem sbrk_linked (hi : HeapInv d s) (hok : SbrkOk s size) :
    ∃ m₁ m₂ m₃ m₄ n, HeaderLinked s.m s.task s.live d size m₁ m₂ m₃ m₄ n := by
  have hmap := hi.mapped_header hok.inside hok.header
  obtain ⟨m, ⟨cr3, l, e, heap⟩, live⟩ := s
  obtain ⟨hr, hlimit, hcr3, hheap, hend, ht, hmapped, ns, hb⟩ := hi
  obtain ⟨hpos, hin, hfit, htop, hpages⟩ := hok
  dsimp only at *
  subst hcr3 hheap
  have hB : blockSize = 13 := rfl
  have hle := ht.le
  have hmem := fun b hb => @Tiled.mem _ _ b _ ht hb
  obtain ⟨m₁, m₂, m₃, e₁, e₂, e₃, s₃, fbelow, fsize, fp⟩ :=
    header_flat hr
      (hmap.sub (by omega) (by simp only [blockSize]; omega) : RangeMapped m.mem cr3 e _)
      (by omega : size < 2 ^ 32)
  have hb₃ : Blocks m₃.flat heap live ns :=
    hb.congr hle (fun b hb => ⟨(hmem b hb).1, by have := (hmem b hb).2; omega⟩)
      fun b hb hlt => fbelow b (hmapped b hb (by omega)).1 hlt
  obtain ⟨n, hn⟩ : ∃ n : Ptr, n.1 = e + 5 := ⟨⟨e + 5, by omega⟩, rfl⟩
  have hnode : toPtr (u32 (e + 5)) = some n := by
    rw [u32_of_lt (by omega), ← hn]
    exact toPtr_ofPtr (some n)
  obtain ⟨m₄, hins, s₄, hb₄⟩ :=
    insertBack_blocks (hr.same s₃) ht (hmap.same s₃) hb₃ fsize fp hn
  exact ⟨m₁, m₂, m₃, m₄, n, ⟨e₁, e₂, e₃, hnode, hins, s₃.trans s₄, ns ++ [n], hb₄⟩⟩

/-- The page of the header is mapped, and so is all before it. -/
theorem HeapInv.held (hi : HeapInv d s) (hok : SbrkOk s size) {b : Nat}
    (hb : s.task.bheap ≤ b) (hb' : b < nextPage s.task.eheap * 0x1000) :
    UserAddr b ∧ pteAt s.m.mem d (b / 0x1000) ≠ none := by
  have hmap := hi.mapped_header hok.inside hok.header
  have hin := hok.inside
  have hfit := hok.header
  have hle := hi.tiled.le
  have hB : blockSize = 13 := rfl
  have hN : nextPage s.task.eheap = s.task.eheap / 0x1000 + 1 := rfl
  by_cases hlt : b < s.task.eheap
  · exact hmap b hb (by omega)
  · obtain ⟨⟨hu, hu'⟩, hp⟩ := hmap s.task.eheap (by omega) (by omega)
    have hpage : b / 0x1000 = s.task.eheap / 0x1000 := by omega
    rw [hpage]
    exact ⟨⟨by omega, by omega⟩, hp⟩

/-- A block that ends in the page of its header. -/
theorem sbrk_inv_inside (hi : HeapInv d s) (hok : SbrkOk s size)
    (hover : s.task.eheap % 0x1000 + (size + blockSize) ≤ 0x1000) :
    ∃ s', HeapOp.step s (.sbrk size) = some s' ∧ HeapInv d s'
      ∧ s'.task = { s.task with eheap := s.task.eheap + (size + blockSize) }
      ∧ s'.live = s.live ++ [(s.task.eheap + blockSize, size)] := by
  obtain ⟨m₁, m₂, m₃, m₄, n, hlink⟩ := sbrk_linked hi hok
  have hheld := fun b => @HeapInv.held d size s hi hok b
  obtain ⟨m, ⟨cr3, l, e, heap⟩, live⟩ := s
  obtain ⟨hr, hlimit, hcr3, hheap, hend, ht, -, -⟩ := hi
  obtain ⟨hpos, hin, hfit, htop, -⟩ := hok
  dsimp only at *
  subst hcr3 hheap
  have hB : blockSize = 13 := rfl
  have hsize : u32 (size + blockSize) = size + blockSize := u32_of_lt (by omega)
  have hptr : u32 (e + blockSize) = e + blockSize := u32_of_lt (by omega)
  have hstop : u32 (e + (size + blockSize)) = e + (size + blockSize) := u32_of_lt (by omega)
  have hfits : u32 (e % 0x1000 + u32 (size + blockSize)) ≤ 0x1000 := by
    rw [hsize, u32_of_lt (by omega)]
    exact hover
  have hcall := tssTaskSbrk_inside (Nat.ne_of_gt hpos) hlink.setP hlink.magic hlink.sized hlink.node
    hlink.insert hin hfits
  simp only [hsize, hstop, hptr] at hcall
  refine ⟨⟨m₄, ⟨cr3, heap, e + (size + blockSize), heap⟩, live ++ [(e + blockSize, size)]⟩,
    ?_, ⟨hr.same hlink.same, ?_, rfl, rfl, (by omega : e + (size + blockSize) < 2 ^ 32),
      tiled_append.mpr ⟨e, ht, rfl, by dsimp only; omega⟩, fun b hb hb' => ?_, hlink.blocks⟩,
    rfl, rfl⟩
  · have hne : e + blockSize ≠ 0 := by omega
    simp only [HeapOp.step, hcall, Option.bind_eq_bind, Option.bind_some, if_neg hne,
      Option.pure_def]
  · rw [hlink.same.eq]
    exact hlimit
  · have hN : nextPage e = e / 0x1000 + 1 := rfl
    dsimp only at hb hb'
    obtain ⟨hu, hp⟩ := hheld b hb (by omega)
    exact ⟨hu, by rwa [hlink.same.pte _ hu.page]⟩

/-- A block that goes on in new pages. -/
theorem sbrk_inv_pages (hi : HeapInv d s) (hok : SbrkOk s size)
    (hover : ¬ s.task.eheap % 0x1000 + (size + blockSize) ≤ 0x1000) :
    ∃ s', HeapOp.step s (.sbrk size) = some s' ∧ HeapInv d s'
      ∧ s'.task = { s.task with eheap := s.task.eheap + (size + blockSize) }
      ∧ s'.live = s.live ++ [(s.task.eheap + blockSize, size)] := by
  obtain ⟨m₁, m₂, m₃, m₄, n, hlink⟩ := sbrk_linked hi hok
  have hheld := fun b => @HeapInv.held d size s hi hok b
  obtain ⟨m, ⟨cr3, l, e, heap⟩, live⟩ := s
  obtain ⟨hr, hlimit, hcr3, hheap, hend, ht, -, -⟩ := hi
  obtain ⟨hpos, hin, hfit, htop, hpages⟩ := hok
  dsimp only at *
  subst hcr3 hheap
  have hB : blockSize = 13 := rfl
  have hN : nextPage e = e / 0x1000 + 1 := rfl
  have hP : pagesNeeded e size = (e + blockSize + size + 0xFFF) / 0x1000 - nextPage e := rfl
  have hle := ht.le
  have hlo : 0x40000000 ≤ heap := (hheld heap (Nat.le_refl _) (by omega)).1.1
  have hmem := fun b hb => @Tiled.mem _ _ b _ ht hb
  have hr₄ := hr.same hlink.same
  have hinfo : m₄.info = m.info := by rw [hlink.same.eq]
  have hsize : u32 (size + blockSize) = size + blockSize := u32_of_lt (by omega)
  have hptr : u32 (e + blockSize) = e + blockSize := u32_of_lt (by omega)
  have hstop : u32 (e + (size + blockSize)) = e + (size + blockSize) := u32_of_lt (by omega)
  have hstart : u32 (e + (0x1000 - e % 0x1000)) = nextPage e * 0x1000 := by
    rw [u32_of_lt (by omega)]
    omega
  have hsize' : u32 (size + blockSize + 0x100000000 - (0x1000 - e % 0x1000)) ≠ 0 := by
    rw [u32]
    omega
  have hnofit : ¬ u32 (e % 0x1000 + u32 (size + blockSize)) ≤ 0x1000 := by
    rw [hsize, u32]
    omega
  have henough : pagesNeeded e size
      + tablesMissing m₄.mem cr3 (nextPage e) (pagesNeeded e size) ≤ m₄.info.freePages := by
    have heq : tablesMissing m₄.mem cr3 (nextPage e) (pagesNeeded e size)
        = tablesMissing m.mem cr3 (nextPage e) (pagesNeeded e size) := by
      refine congrArg Finset.card (Finset.filter_congr fun i hi => ?_)
      rw [hlink.same.pde i (Finset.mem_range.mp hi)]
    rw [heq, hinfo]
    exact hpages.resolve_left (by omega)
  obtain ⟨m₅, halloc, hre⟩ := allocTaskPages_sbrk hr₄.space (by omega) htop (by omega) henough
  have ht' : Tiled (heap + 12) (live ++ [(e + blockSize, size)]) (e + (size + blockSize)) :=
    tiled_append.mpr ⟨e, ht, rfl, by dsimp only; omega⟩
  have hcall := tssTaskSbrk_pages (Nat.ne_of_gt hpos) hlink.setP hlink.magic hlink.sized hlink.node
    hlink.insert hin hnofit
  simp only [hsize, hstop, hptr, hstart] at hcall
  rw [@tssTaskSbrkPages_ok m₄ m₅ ⟨cr3, heap, e, heap⟩ _ _ _ _ _ hsize' rfl halloc] at hcall
  obtain ⟨ns, hb₄⟩ := hlink.blocks
  refine ⟨⟨m₅, ⟨cr3, heap, e + (size + blockSize), heap⟩, live ++ [(e + blockSize, size)]⟩,
    ?_, ⟨⟨hre.space, hre.cr3.trans hr₄.active⟩, ?_, rfl, rfl,
      (by omega : e + (size + blockSize) < 2 ^ 32), ht', fun b hb hb' => ?_, ns, ?_⟩, rfl, rfl⟩
  · have hne : e + blockSize ≠ 0 := by omega
    simp only [HeapOp.step, hcall, Option.bind_eq_bind, Option.bind_some, if_neg hne,
      Option.pure_def]
  · dsimp only [Memory32Info.page]
    rw [hre.start, hre.bitSize, hinfo]
    exact hlimit
  · by_cases hlow : b < nextPage e * 0x1000
    · obtain ⟨hu, hp⟩ := hheld b hb hlow
      refine ⟨hu, ?_⟩
      rwa [hre.outside _ hu.page.2 (by omega), hlink.same.pte _ hu.page]
    · dsimp only at hb'
      exact ⟨⟨by omega, by omega⟩, hre.inside _ (by omega) (by omega)⟩
  · refine @Blocks.congr _ _ heap (e + blockSize) _ _ hb₄ (by omega) (fun b hb => ?_)
      fun b hb hb' => ?_
    · have hmem' := ht'.mem hb
      rcases List.mem_append.mp hb with hold | hlast
      · have := hmem b hold
        omega
      · obtain rfl := List.mem_singleton.mp hlast
        exact ⟨hmem'.1, Nat.le_refl _⟩
    · have hu := (hheld b hb (by omega)).1
      exact hre.flat hr₄ hu (by omega)

theorem sbrk_inv (hi : HeapInv d s) (hok : SbrkOk s size) :
    ∃ s', HeapOp.step s (.sbrk size) = some s' ∧ HeapInv d s'
      ∧ s'.task = { s.task with eheap := s.task.eheap + (size + blockSize) }
      ∧ s'.live = s.live ++ [(s.task.eheap + blockSize, size)] := by
  by_cases hover : s.task.eheap % 0x1000 + (size + blockSize) ≤ 0x1000
  · exact sbrk_inv_inside hi hok hover
  · exact sbrk_inv_pages hi hok hover

end Sbrk

/-! ## `free` -/

theorem and_pageMask {x : Nat} (hx : x < 2 ^ 32) : x &&& 0xFFFFF000 = x / 0x1000 * 0x1000 := by
  have hmask : (0xFFFFF000 : Nat) = (2 ^ 20 - 1) <<< 12 := by decide
  have hdiv : x / 0x1000 * 0x1000 = (x >>> 12) <<< 12 := by
    rw [Nat.shiftLeft_eq, Nat.shiftRight_eq_div_pow]
  rw [hmask, hdiv]
  refine Nat.eq_of_testBit_eq fun i => ?_
  rw [Nat.testBit_and, Nat.testBit_shiftLeft, Nat.testBit_shiftLeft, Nat.testBit_two_pow_sub_one,
    Nat.testBit_shiftRight]
  by_cases hi : 12 ≤ i
  · have hsplit : 12 + (i - 12) = i := by omega
    by_cases hlt : i - 12 < 20
    · simp [hi, hlt, hsplit]
    · have hbit : x.testBit i = false :=
        Nat.testBit_lt_two_pow (hx.trans_le (Nat.pow_le_pow_right (by decide) (by omega)))
      simp [hi, hsplit, hbit]
  · simp [hi]

/-- `tss_task_free` of the block that is linked last. -/
theorem tssTaskFree_last {m m₁ m₂ : Machine} {task : TaskHeap} {ptr pb size : Nat} {n : Ptr}
    (hpb : u32 (ptr + 0x100000000 - blockSize) = pb) (hp : getP m pb = some true)
    (h₁ : setP m pb false = some m₁) (hsize : m₁.read32 pb = some size)
    (htail : listGetLast m₁ task.heap = some (some n)) (hn : u32 (pb + 5) = n.1)
    (h₂ : listRemove m₁ task.heap n = some (m₂, n)) :
    tssTaskFree m task ptr
      = if pb &&& 0xFFFFF000 < u32 (pb + size + blockSize) &&& 0xFFFFF000 then
          (freePage m₂ task.cr3 (u32 (pb + size + blockSize) &&& 0xFFFFF000)).map
            fun m => (m, { task with eheap := pb })
        else some (m₂, { task with eheap := pb }) := by
  have hof : ofPtr (some n) = n.1 := rfl
  simp only [tssTaskFree, hpb, hp, if_true, h₁, hsize, htail, hn, hof, h₂, Option.bind_eq_bind,
    Option.bind_some, Option.pure_def]
  split
  case isTrue => cases freePage m₂ task.cr3 (u32 (pb + size + blockSize) &&& 0xFFFFF000) <;> rfl
  case isFalse => rfl

section Free

variable {d ptr size : Nat} {s s' : HeapState}

/-- `p` of a block that is held is cleared. Sizes and links stay. -/
theorem HeapInv.clear_p (hi : HeapInv d s) {ns : List Ptr}
    (hb : Blocks s.m.flat s.task.bheap s.live ns) (hmem : (ptr, size) ∈ s.live) :
    u32 (ptr + 0x100000000 - blockSize) = ptr - blockSize
    ∧ getP s.m (ptr - blockSize) = some true
    ∧ ∃ m₁, setP s.m (ptr - blockSize) false = some m₁ ∧ SameSpace s.m m₁ d
      ∧ m₁.read32 (ptr - blockSize) = some size
      ∧ (∀ b, s.task.bheap ≤ b → b < s.task.eheap → b ≠ ptr - blockSize + 4 →
        m₁.flat b = s.m.flat b)
      ∧ (heapAt m₁.flat).Rep s.task.bheap ns := by
  obtain ⟨m, ⟨cr3, l, e, heap⟩, live⟩ := s
  obtain ⟨hr, -, hcr3, hheap, hend, ht, hmapped, -⟩ := hi
  dsimp only at *
  subst hcr3 hheap
  have hB : blockSize = 13 := rfl
  have hself := ht.mem hmem
  have hle := ht.le
  dsimp only at hself
  have hheader : RangeMapped m.mem cr3 (ptr - blockSize) blockSize :=
    hmapped.sub (by omega) (by omega)
  have hbyte : RangeMapped m.mem cr3 (ptr - blockSize + 4) 1 := hheader.sub (by omega) (by omega)
  obtain ⟨m₁, e₁, s₁, f₁⟩ := setP_flat hr hbyte false
  have hflat : ∀ b, heap ≤ b → b < e → b ≠ ptr - blockSize + 4 → m₁.flat b = m.flat b := by
    intro b hb hb' hne
    rw [f₁ b (hmapped b hb (by omega)).1, Bytes.store8_of_ne hne]
  have hload : ∀ a, heap ≤ a → a + 4 ≤ e →
      (a + 4 ≤ ptr - blockSize + 4 ∨ ptr - blockSize + 5 ≤ a) →
      m₁.flat.load32 a = m.flat.load32 a :=
    fun a ha ha' hout => Bytes.load32_congr fun b hb hb' => hflat b (by omega) (by omega) (by omega)
  refine ⟨by rw [u32]; omega, ?_, m₁, e₁, s₁, ?_, hflat, ?_⟩
  · rw [getP_flat hr hbyte, hb.p _ hmem]
  · have hs := hb.size _ hmem
    dsimp only at hs
    rw [read32_flat (hr.same s₁) ((hheader.sub (Nat.le_refl _) (by omega)).same s₁),
      hload _ (by omega) (by omega) (Or.inl (by omega)), hs]
  · have hnode : ∀ k ∈ ns, heap ≤ k.1 ∧ k.1 + 8 ≤ e
        ∧ (k.1 + 8 ≤ ptr - blockSize + 4 ∨ ptr - blockSize + 5 ≤ k.1) := by
      intro k hk
      obtain ⟨b, hbm, hbn⟩ := NodesOf.mem hb.nodes hk
      have hb' := ht.mem hbm
      by_cases heq : b = (ptr, size)
      · subst heq
        dsimp only at hbn
        omega
      · have hapart := ht.apart hbm hmem heq
        dsimp only at hapart
        omega
    refine Heap.Rep.congr hb.rep ?_ ?_ ?_ (fun k hk => ?_) fun k hk => ?_
    · exact congrArg toPtr (hload heap (Nat.le_refl _) (by omega) (Or.inl (by omega)))
    · exact congrArg toPtr (hload (heap + 4) (by omega) (by omega) (Or.inl (by omega)))
    · exact congrArg UInt32.ofNat (hload (heap + 8) (by omega) (by omega) (Or.inl (by omega)))
    · have := hnode k hk
      exact congrArg toPtr (hload k.1 (by omega) (by omega) (by omega))
    · have := hnode k hk
      exact congrArg toPtr (hload (k.1 + 4) (by omega) (by omega) (by omega))

/-- What `free` makes of the block that was allocated last. -/
structure FreedLast (d : Nat) (s : HeapState) (live : List (Nat × Nat)) (ptr size : Nat)
    (m₂ : Machine) : Prop where
  eq : s.live = live ++ [(ptr, size)]
  same : SameSpace s.m m₂ d
  tiled : Tiled (s.task.bheap + 12) live (ptr - blockSize)
  stop : ptr + size = s.task.eheap
  above : s.task.bheap + 12 + blockSize ≤ ptr
  blocks : ∃ ns, Blocks m₂.flat s.task.bheap live ns
  call : tssTaskFree s.m s.task ptr
    = if (ptr - blockSize) / 0x1000 * 0x1000 < (ptr + size) / 0x1000 * 0x1000 then
        (freePage m₂ d ((ptr + size) / 0x1000 * 0x1000)).map
          fun m => (m, { s.task with eheap := ptr - blockSize })
      else some (m₂, { s.task with eheap := ptr - blockSize })
  live : s.live.filter (fun b => b.1 ≠ ptr) = live

theorem HeapInv.free_last (hi : HeapInv d s) (hlast : s.live.getLast? = some (ptr, size)) :
    ∃ live m₂, FreedLast d s live ptr size m₂ := by
  obtain ⟨ns, hb⟩ := hi.blocks
  obtain ⟨hpb, hp, m₁, e₁, s₁, hsize, hflat, hrep⟩ :=
    hi.clear_p hb (List.mem_of_getLast? hlast)
  obtain ⟨m, ⟨cr3, l, e, heap⟩, live⟩ := s
  obtain ⟨hr, -, hcr3, hheap, hend, ht, hmapped, -⟩ := hi
  dsimp only at *
  subst hcr3 hheap
  have hB : blockSize = 13 := rfl
  obtain ⟨live, rfl⟩ : ∃ as, live = as ++ [(ptr, size)] :=
    ⟨_, (List.dropLast_append_getLast? _ hlast).symm⟩
  obtain ⟨e', ht', hptr, rfl⟩ := tiled_append.mp ht
  dsimp only at hptr
  obtain rfl : e' = ptr - blockSize := by omega
  have hle := ht'.le
  have hmem := fun b hb => @Tiled.mem _ _ b _ ht' hb
  have hlo : 0x40000000 ≤ heap := (hmapped heap (by omega) (by omega)).1.1
  have hr₁ := hr.same s₁
  have hmapped₁ := hmapped.same s₁
  -- its node is the last one
  obtain ⟨ns, n, rfl⟩ : ∃ as n, ns = as ++ [n] := by
    have hlen := congrArg List.length hb.nodes
    rw [List.length_map, List.length_map, List.length_append, List.length_singleton] at hlen
    exact ⟨_, _, (List.dropLast_append_getLast (List.ne_nil_of_length_pos (by omega))).symm⟩
  have hnodes : NodesOf (live ++ [(ptr, size)]) (ns ++ [n]) := hb.nodes
  have hn : n.1 = ptr - blockSize + 5 := by
    have hlastn := hb.nodes
    rw [List.map_append, List.map_append] at hlastn
    have := (List.append_inj' hlastn rfl).2
    simp only [List.map_cons, List.map_nil, List.cons.injEq, and_true] at this
    exact this
  have htail : listGetLast m₁ heap = some (some n) := by
    have hread := read32_flat hr₁
      (hmapped₁.sub (by omega) (by omega) : RangeMapped m₁.mem cr3 (heap + 4) 4)
    have hlast' := hrep.tail_eq
    rw [List.getLast?_concat] at hlast'
    have haddr : u32 (heap + 4) = heap + 4 := u32_of_lt (by omega)
    show (m₁.read32 (u32 (heap + 4))).map toPtr = _
    rw [haddr, hread]
    exact congrArg some hlast'
  have hbelow : ∀ c ∈ live, heap ≤ c.1 - blockSize ∧ c.1 - blockSize + 5 ≤ ptr - blockSize := by
    intro c hc
    have := hmem c hc
    omega
  obtain ⟨m₂, hrem, s₂, hb₂⟩ := remove_blocks hr₁ ht hmapped₁
    (fun c hc => by
      have := hbelow c hc
      rw [Bytes.load32_congr fun b hb hb' => hflat b (by omega) (by omega) (by omega)]
      exact hb.size c (List.mem_append_left _ hc))
    (fun c hc => by
      have := hbelow c hc
      rw [hflat _ (by omega) (by omega) (by omega)]
      exact hb.p c (List.mem_append_left _ hc)) hrep hnodes
  refine ⟨live, m₂, rfl, s₁.trans s₂, ht', rfl, by dsimp only; omega, ⟨ns, hb₂⟩, ?_, ?_⟩
  · have hpend : u32 (ptr - blockSize + size + blockSize) = ptr + size := by
      rw [u32]
      omega
    have hnaddr : u32 (ptr - blockSize + 5) = n.1 := by
      rw [u32, hn]
      omega
    have hcall := @tssTaskFree_last m m₁ m₂ ⟨cr3, heap, ptr + size, heap⟩ ptr (ptr - blockSize) size
      n hpb hp e₁ hsize htail hnaddr hrem
    rw [hpend, and_pageMask (by omega), and_pageMask (by omega)] at hcall
    exact hcall
  · rw [List.filter_append, List.filter_eq_self.mpr fun b hbm => ?_]
    · simp
    · have := hmem b hbm
      have hne : b.1 ≠ ptr := by omega
      simpa using hne

theorem free_inv (hi : HeapInv d s) (hlast : s.live.getLast? = some (ptr, size))
    (hstep : HeapOp.step s (.free ptr) = some s') : HeapInv d s' := by
  obtain ⟨live, m₂, hf⟩ := hi.free_last hlast
  have hB : blockSize = 13 := rfl
  have hle := hf.tiled.le
  have hstop := hf.stop
  have hend := hi.top
  have habove := hf.above
  have hlo : 0x40000000 ≤ s.task.bheap := (hi.mapped s.task.bheap (by omega) (by omega)).1.1
  have hr₂ := hi.running.same hf.same
  have hinfo : m₂.info = s.m.info := by rw [hf.same.eq]
  have hmapped₂ := hi.mapped.same hf.same
  have hcall := hf.call
  obtain ⟨ns, hb₂⟩ := hf.blocks
  have hmem := fun b hb => @Tiled.mem _ _ b _ hf.tiled hb
  by_cases hover : (ptr - blockSize) / 0x1000 * 0x1000 < (ptr + size) / 0x1000 * 0x1000
  · rw [if_pos hover] at hcall
    cases hfree : freePage m₂ d ((ptr + size) / 0x1000 * 0x1000) with
    | none =>
        rw [hfree] at hcall
        simp only [HeapOp.step, hcall, Option.map_none, Option.bind_eq_bind, Option.bind_none,
          reduceCtorEq] at hstep
    | some m₃ =>
        rw [hfree] at hcall
        simp only [HeapOp.step, hcall, Option.map_some, Option.bind_eq_bind, Option.bind_some,
          Option.pure_def, hf.live] at hstep
        obtain rfl := Option.some.inj hstep
        have hpage : UserPage ((ptr + size) / 0x1000) := by constructor <;> omega
        have hun := freePage_user hr₂ (by rw [hinfo]; exact hi.limit) hpage hfree
        refine ⟨⟨hun.space, hun.cr3.trans hr₂.active⟩, by rw [hun.info, hinfo]; exact hi.limit,
          hi.cr3, hi.heap, by dsimp only; omega, hf.tiled, fun b hbl hb' => ?_, ns, ?_⟩
        · dsimp only at hbl hb'
          obtain ⟨hu, hpt⟩ := hmapped₂ b hbl (by omega)
          refine ⟨hu, ?_⟩
          rw [hun.outside _ hu.page (by omega)]
          exact hpt
        · refine hb₂.congr hle (fun b hbm => ⟨(hmem b hbm).1, by have := (hmem b hbm).2; omega⟩)
            fun b hbl hb' => ?_
          exact hun.flat hr₂ (hi.mapped b hbl (by omega)).1 (by omega)
  · rw [if_neg hover] at hcall
    simp only [HeapOp.step, hcall, Option.bind_eq_bind, Option.bind_some, Option.pure_def,
      hf.live] at hstep
    obtain rfl := Option.some.inj hstep
    exact ⟨hr₂, by rw [hinfo]; exact hi.limit, hi.cr3, hi.heap, by dsimp only; omega, hf.tiled,
      hmapped₂.sub (Nat.le_refl _) (by dsimp only; omega), ns, hb₂⟩

end Free

/-! ## The law -/

section Law

variable {d ptr size : Nat} {s s' : HeapState}

theorem HeapInv.law (hi : HeapInv d s) : HeapLaw s := by
  have hB : blockSize = 13 := rfl
  have hmem := fun b hb => @Tiled.mem _ _ b _ hi.tiled hb
  have hle := hi.tiled.le
  obtain ⟨ns, hb⟩ := hi.blocks
  have hlo : 0x40000000 ≤ s.task.bheap := (hi.mapped s.task.bheap (by omega) (by omega)).1.1
  have hend := hi.top
  have hr := hi.running
  -- a word of the heap, read by the task
  have hread : ∀ a, s.task.bheap ≤ a → a + 4 ≤ s.task.eheap →
      s.m.read32 (u32 a) = some (s.m.flat.load32 a) := by
    intro a ha ha'
    rw [u32_of_lt (by omega)]
    exact read32_flat hr (hi.mapped.sub ha (by omega))
  have hread₀ : ∀ a, s.task.bheap ≤ a → a + 4 ≤ s.task.eheap →
      s.m.read32 a = some (s.m.flat.load32 a) :=
    fun a ha ha' => read32_flat hr (hi.mapped.sub ha (by omega))
  constructor
  case disjoint => exact hi.tiled.pairwise.imp fun h => Or.inl (by omega)
  case below => exact fun b hb => (hmem b hb).2
  case size =>
    intro b hbm
    have := hmem b hbm
    rw [hread₀ _ (by omega) (by omega), hb.size b hbm]
  case p =>
    intro b hbm
    have := hmem b hbm
    rw [getP_flat hr (hi.mapped.sub (by omega) (by omega)), hb.p b hbm]
  case linked =>
    rw [hi.heap]
    refine ⟨ns, Heap.Rep.congr hb.rep ?_ ?_ ?_ (fun n hn => ?_) fun n hn => ?_, .of_eq hb.nodes⟩
    · show ((s.m.read32 s.task.bheap).map toPtr).getD none = _
      rw [hread₀ _ (by omega) (by omega)]
      rfl
    · show ((s.m.read32 (u32 (s.task.bheap + 4))).map toPtr).getD none = _
      rw [hread _ (by omega) (by omega)]
      rfl
    · show ((s.m.read32 (u32 (s.task.bheap + 8))).map UInt32.ofNat).getD 0 = _
      rw [hread _ (by omega) (by omega)]
      rfl
    · obtain ⟨b, hbm, hbn⟩ := NodesOf.mem hb.nodes hn
      have := hmem b hbm
      show ((s.m.read32 n.1).map toPtr).getD none = _
      rw [hread₀ _ (by omega) (by omega)]
      rfl
    · obtain ⟨b, hbm, hbn⟩ := NodesOf.mem hb.nodes hn
      have := hmem b hbm
      show ((s.m.read32 (u32 (n.1 + 4))).map toPtr).getD none = _
      rw [hread _ (by omega) (by omega)]
      rfl

/-- A task whose program has just been loaded: `load_elf_file` has put
both ends of the heap behind it, in pages that it has mapped. -/
structure Loaded (m : Machine) (task : TaskHeap) : Prop where
  running : Running m task.cr3
  limit : m.info.page m.info.bitmap.bitSize ≤ pmExtLimit
  eheap : task.eheap = task.bheap
  top : task.bheap + 12 < 2 ^ 32
  mapped : RangeMapped m.mem task.cr3 task.bheap 12

/-- A new list is three zeros. -/
theorem listInit_flat {m : Machine} {d l : Nat} (hr : Running m d) (hm : RangeMapped m.mem d l 12)
    (htop : l + 12 < 2 ^ 32) :
    ∃ m', listInit m l = some m' ∧ SameSpace m m' d ∧ m'.flat.load32 l = 0
      ∧ m'.flat.load32 (l + 4) = 0 ∧ m'.flat.load32 (l + 8) = 0 := by
  obtain ⟨m₁, e₁, s₁, f₁⟩ := write32_flat hr (hm.sub (Nat.le_add_right _ 4) (by omega)) 0
  have hr₁ := hr.same s₁
  have hm₁ := hm.same s₁
  obtain ⟨m₂, e₂, s₂, f₂⟩ := write32_flat hr₁ (hm₁.sub (Nat.le_refl _) (by omega)) 0
  have hr₂ := hr₁.same s₂
  have hm₂ := hm₁.same s₂
  obtain ⟨m₃, e₃, s₃, f₃⟩ := write32_flat hr₂ (hm₂.sub (Nat.le_add_right _ 8) (by omega)) 0
  have hu := fun b hb hb' => (hm b hb hb').1
  refine ⟨m₃, ?_, (s₁.trans s₂).trans s₃, ?_, ?_, ?_⟩
  · show (m.write32 (u32 (l + 4)) 0).bind (fun m => (m.write32 l 0).bind
      fun m => m.write32 (u32 (l + 8)) 0) = some m₃
    rw [u32_of_lt (by omega), u32_of_lt (by omega), e₁, Option.bind_some, e₂, Option.bind_some, e₃]
  · rw [Bytes.load32_congr fun b hb hb' => f₃ b (hu b (by omega) (by omega)),
      Bytes.load32_store32_of_disjoint (Or.inl (by omega)),
      Bytes.load32_congr fun b hb hb' => f₂ b (hu b (by omega) (by omega)),
      Bytes.load32_store32_self (by decide)]
  · rw [Bytes.load32_congr fun b hb hb' => f₃ b (hu b (by omega) (by omega)),
      Bytes.load32_store32_of_disjoint (Or.inl (by omega)),
      Bytes.load32_congr fun b hb hb' => f₂ b (hu b (by omega) (by omega)),
      Bytes.load32_store32_of_disjoint (Or.inr (by omega)),
      Bytes.load32_congr fun b hb hb' => f₁ b (hu b (by omega) (by omega)),
      Bytes.load32_store32_self (by decide)]
  · rw [Bytes.load32_congr fun b hb hb' => f₃ b (hu b (by omega) (by omega)),
      Bytes.load32_store32_self (by decide)]

/-- The heap that `tss_task_execve` leaves is empty. -/
theorem HeapInv.start {m : Machine} {task : TaskHeap} (hl : Loaded m task) :
    ∃ m', execveHeap m task
        = some (m', { task with heap := task.bheap, eheap := task.bheap + 12 })
      ∧ HeapInv task.cr3 ⟨m', { task with heap := task.bheap, eheap := task.bheap + 12 }, []⟩ := by
  obtain ⟨hr, hlimit, heheap, htop, hm⟩ := hl
  obtain ⟨m₃, hinit, hsame, hhead, htail, hsize⟩ := listInit_flat hr hm htop
  refine ⟨m₃, ?_, hr.same hsame, by rw [hsame.eq]; exact hlimit, rfl, rfl, htop, rfl,
    fun b hb hb' =>
    hm.same hsame b hb (by dsimp only at hb'; omega), [], ⟨fun _ hb => (nomatch hb),
    fun _ hb => (nomatch hb), ?_, rfl⟩⟩
  · simp only [execveHeap, hinit, heheap, u32_of_lt htop, Option.bind_eq_bind, Option.bind_some,
      Option.pure_def]
  · rw [Heap.rep_iff_dseg]
    simp only [heapAt, hhead, htail, hsize]
    exact ⟨rfl, rfl, trivial, rfl, .nil⟩

/-- A block that is not the last one is marked, and stays linked. -/
theorem HeapInv.free_earlier (hi : HeapInv d s) (hmem : (ptr, size) ∈ s.live)
    (hlast : s.live.getLast? ≠ some (ptr, size)) :
    ∃ s', HeapOp.step s (.free ptr) = some s' ∧ ¬ HeapLaw s' := by
  have hB : blockSize = 13 := rfl
  obtain ⟨ns, hb⟩ := hi.blocks
  obtain ⟨hpb, hp, m₁, e₁, s₁, hsize, hflat, hrep⟩ := hi.clear_p hb hmem
  have hle := hi.tiled.le
  have hself := hi.tiled.mem hmem
  have hend := hi.top
  dsimp only at hself
  obtain ⟨c, hc⟩ : ∃ c, s.live.getLast? = some c :=
    Option.ne_none_iff_exists'.mp fun h => List.ne_nil_of_mem hmem (List.getLast?_eq_none_iff.mp h)
  have hcmem := List.mem_of_getLast? hc
  have hcself := hi.tiled.mem hcmem
  have hne : c ≠ (ptr, size) := fun h => hlast (h ▸ hc)
  have hafter : ptr + size + blockSize ≤ c.1 := by
    obtain ⟨bs, hbs⟩ : ∃ bs, s.live = bs ++ [c] :=
      ⟨_, (List.dropLast_append_getLast? _ hc).symm⟩
    have ht := hi.tiled
    rw [hbs] at hmem ht
    obtain ⟨e', ht', hc', -⟩ := tiled_append.mp ht
    rcases List.mem_append.mp hmem with hold | hnew
    · have := (ht'.mem hold).2
      dsimp only at this
      omega
    · exact absurd (List.mem_singleton.mp hnew).symm hne
  -- the node of the last block is another one
  obtain ⟨n, hn, hnaddr⟩ : ∃ n, ns.getLast? = some n ∧ n.1 = c.1 - blockSize + 5 := by
    have h := congrArg List.getLast? hb.nodes
    rw [List.getLast?_map, List.getLast?_map, hc] at h
    exact Option.map_eq_some_iff.mp h
  have htail : listGetLast m₁ s.task.heap = some (some n) := by
    have hlo : 0x40000000 ≤ s.task.bheap := (hi.mapped s.task.bheap (by omega) (by omega)).1.1
    have hread := read32_flat (hi.running.same s₁)
      ((hi.mapped.same s₁).sub (by omega) (by omega) : RangeMapped m₁.mem d (s.task.bheap + 4) 4)
    have haddr : u32 (s.task.bheap + 4) = s.task.bheap + 4 := u32_of_lt (by omega)
    rw [hi.heap]
    show (m₁.read32 (u32 (s.task.bheap + 4))).map toPtr = _
    rw [haddr, hread]
    exact congrArg some (hrep.tail_eq.trans hn)
  have hother : ¬ u32 (ptr - blockSize + 5) = ofPtr (some n) := by
    show ¬ u32 (ptr - blockSize + 5) = n.1
    rw [u32, hnaddr]
    omega
  have hcall :
      tssTaskFree s.m s.task ptr = some (m₁, { s.task with eheap := ptr - blockSize }) := by
    simp only [tssTaskFree, hpb, hp, if_true, e₁, hsize, htail, if_neg hother, Option.bind_eq_bind,
      Option.bind_some, Option.pure_def]
  refine ⟨_, by rw [HeapOp.step, hcall]; rfl, fun hlaw => ?_⟩
  have hbelow := hlaw.below c (List.mem_filter.mpr ⟨hcmem, by
    have : c.1 ≠ ptr := by omega
    simpa using this⟩)
  dsimp only at hbelow
  omega

/-- The calls that keep the blocks tiled: `sbrk` with a header that stays
where it is, and `free` of the last block. -/
def HeapOp.Ok (s : HeapState) : HeapOp → Prop
  | sbrk size => SbrkOk s size
  | free ptr => ∃ size, s.live.getLast? = some (ptr, size)

theorem HeapOp.Ok.legal {op : HeapOp} (h : op.Ok s) : op.Legal s := by
  cases op with
  | sbrk size => exact ⟨h.pos, by have := h.top; omega⟩
  | free ptr =>
      obtain ⟨size, hlast⟩ := h
      exact ⟨size, List.mem_of_getLast? hlast⟩

theorem HeapInv.step {op : HeapOp} (hi : HeapInv d s) (hok : op.Ok s)
    (hstep : HeapOp.step s op = some s') : HeapInv d s' := by
  cases op with
  | sbrk size =>
      obtain ⟨s₁, heq, hi₁, -⟩ := sbrk_inv hi hok
      obtain rfl := Option.some.inj (heq.symm.trans hstep)
      exact hi₁
  | free ptr =>
      obtain ⟨size, hlast⟩ := hok
      exact free_inv hi hlast hstep

/-- The heap law, for a task whose headers stay in one page and that
frees its last block first. -/
theorem userHeap_law {m m' : Machine} {task task' : TaskHeap} {ops : List HeapOp}
    (hl : Loaded m task) (hexec : execveHeap m task = some (m', task'))
    (hok : Always HeapOp.step (fun s op => op.Ok s) ⟨m', task', []⟩ ops)
    (hrun : run HeapOp.step ⟨m', task', []⟩ ops = some s) : HeapLaw s := by
  obtain ⟨m₁, heq, hi⟩ := HeapInv.start hl
  obtain ⟨rfl, rfl⟩ := Prod.mk.inj (Option.some.inj (heq.symm.trans hexec))
  have hinv : HeapInv task.cr3 s :=
    run_invariant_of_always (fun s op s' hi hok hstep => HeapInv.step hi hok hstep) hi hok hrun
  exact hinv.law

/-! ## A program of one page -/

/-- An empty directory, and 64 pages. -/
def emptyMachine : Machine where
  mem := fun _ => 0
  cr3 := 0x100000
  kernelPde := 0x8000
  info :=
    { start := 0x100000
      pageSize := 0x1000
      bitmap := { bitSize := 64, bits := fun i => if i = 0 then 1 else 0 } }

theorem emptyMachine_pde {i : Nat} : ¬ present (pdeAt emptyMachine.mem 0x100000 i) := by
  have hz : pdeAt emptyMachine.mem 0x100000 i = 0 := rfl
  rw [hz]
  decide

theorem emptyMachine_running : Running emptyMachine 0x100000 := by
  have hused : ¬ emptyMachine.info.Free 0x100000 := by
    rintro ⟨i, -, hbit, hpage⟩
    have hi : i = 0 := by
      simp only [Memory32Info.page, emptyMachine] at hpage
      omega
    subst hi
    exact absurd hbit (by decide)
  have hpte : ∀ {n v}, pteAt emptyMachine.mem 0x100000 n ≠ some v := by
    intro n v hv
    exact emptyMachine_pde (pteAt_eq_some hv).1
  refine ⟨?_, rfl⟩
  constructor
  case info => exact ⟨rfl, by decide, by decide, by decide⟩
  case dir => exact .of_absent (by decide) (by decide) hused fun _ _ => emptyMachine_pde
  case owned =>
    intro p ho
    cases ho with
    | dir => exact ⟨⟨0, by decide, rfl⟩, hused⟩
    | table i _ hi hp => exact absurd hp emptyMachine_pde
    | frame n v hn hv => exact absurd hv hpte
  case frame_ne_dir => exact fun n v _ hv => absurd hv hpte
  case frame_ne_table => exact fun n v i _ hv => absurd hv hpte
  case frame_inj => exact fun n n' v v' _ _ hv => absurd hv hpte

/-- The task before its heap is set up. -/
def oneTask : TaskHeap := ⟨0x100000, 0x40000800, 0x40000800, 0⟩

/-- A segment of 2048 bytes at the page `n`, with the pages that
`load_elf_file` asks for. -/
theorem segment_loaded {n : Nat} (hlo : 0x40000 ≤ n) (hin : n % 1024 + 6 ≤ 1024)
    (hhi : n < 0x100000) : ∃ m,
    allocTaskPages emptyMachine 0x100000 (n * 0x1000) (0x800 + 0x1000 * 5) heapPerm = (m, 0)
      ∧ Loaded m ⟨0x100000, n * 0x1000 + 0x800, n * 0x1000 + 0x800, 0⟩ := by
  have hmissing : tablesMissing emptyMachine.mem 0x100000 n 6 ≤ 1 := by
    refine (Finset.card_le_card (t := {n / 1024}) fun i hi => ?_).trans_eq
      (Finset.card_singleton _)
    obtain ⟨-, -, hlo, hhi⟩ := Finset.mem_filter.mp hi
    exact Finset.mem_singleton.mpr (by omega)
  have hpages : emptyMachine.info.freePages = 63 := by decide
  have hpage : n * 0x1000 / 0x1000 = n := by omega
  have hbase : vmTaskBase ≤ n * 0x1000 := by
    have : 0x40000000 ≤ n * 0x1000 := by omega
    exact this
  obtain ⟨m, hrun, hre⟩ := @allocTaskPagesLoop_enough emptyMachine 0x100000 heapPerm 6 (n * 0x1000)
    emptyMachine_running.space hbase (by omega) (by decide) (by rw [hpage, hpages]; omega)
  rw [hpage] at hre
  refine ⟨m, hrun, ⟨hre.space, hre.cr3⟩, ?_, rfl, by dsimp only; omega, fun b hb hb' => ?_⟩
  · have hstart : m.info.page m.info.bitmap.bitSize = 0x100000 + 64 * 0x1000 := by
      rw [Memory32Info.page, hre.start, hre.bitSize]
      rfl
    rw [hstart]
    decide
  · dsimp only at hb hb'
    refine ⟨⟨by omega, by omega⟩, ?_⟩
    have hpage : b / 0x1000 = n := by omega
    rw [hpage]
    exact hre.inside n (Nat.le_refl n) (by omega)

/-- Two blocks are allocated. -/
theorem oneTask_two : ∃ m m' task' s₁ s₂, Loaded m oneTask
    ∧ execveHeap m oneTask = some (m', task')
    ∧ SbrkOk ⟨m', task', []⟩ 16 ∧ HeapOp.step ⟨m', task', []⟩ (.sbrk 16) = some s₁
    ∧ SbrkOk s₁ 16 ∧ HeapOp.step s₁ (.sbrk 16) = some s₂
    ∧ s₂.live = [(0x40000819, 16), (0x40000836, 16)] ∧ HeapInv 0x100000 s₂ := by
  obtain ⟨m, -, hl⟩ : ∃ m, _ ∧ Loaded m oneTask :=
    @segment_loaded 0x40000 (by decide) (by decide) (by decide)
  obtain ⟨m', hexec, hi⟩ := HeapInv.start hl
  have hok₁ : SbrkOk ⟨m', ⟨0x100000, 0x40000800, 0x4000080C, 0x40000800⟩, []⟩ 16 :=
    @SbrkOk.of_fits 16 _ 0x4000080C rfl (by decide) (by decide) (by decide) (by decide)
  obtain ⟨s₁, h₁, hi₁, ht₁, hlive₁⟩ := sbrk_inv hi hok₁
  have heheap₁ : s₁.task.eheap = 0x40000829 := by
    rw [ht₁]
    rfl
  have hok₂ : SbrkOk s₁ 16 := .of_fits heheap₁ (by decide) (by decide) (by decide) (by decide)
  obtain ⟨s₂, h₂, hi₂, -, hlive₂⟩ := sbrk_inv hi₁ hok₂
  rw [hlive₁, heheap₁] at hlive₂
  exact ⟨m, m', _, s₁, s₂, hl, hexec, hok₁, h₁, hok₂, h₂, hlive₂, hi₂⟩

/-- Two blocks, of which the second is freed. -/
theorem userHeap_law_two : ∃ m m' task' s, Loaded m oneTask
    ∧ execveHeap m oneTask = some (m', task')
    ∧ run HeapOp.step ⟨m', task', []⟩ [.sbrk 16, .sbrk 16, .free 0x40000836] = some s
    ∧ s.live = [(0x40000819, 16)] ∧ HeapLaw s := by
  obtain ⟨m, m', task', s₁, s₂, hl, hexec, hok₁, h₁, hok₂, h₂, hlive, hi⟩ := oneTask_two
  have hlast : s₂.live.getLast? = some (0x40000836, 16) := by
    rw [hlive]
    rfl
  obtain ⟨live, m₃, hf⟩ := hi.free_last hlast
  have hcall := hf.call
  rw [if_neg (by decide)] at hcall
  have hlive₃ : live = [(0x40000819, 16)] := by
    rw [← hf.live, hlive]
    rfl
  have h₃ : HeapOp.step s₂ (.free 0x40000836)
      = some ⟨m₃, { s₂.task with eheap := 0x40000836 - blockSize }, live⟩ := by
    simp only [HeapOp.step, hcall, hf.live, Option.bind_eq_bind, Option.bind_some, Option.pure_def]
  have hrun : run HeapOp.step ⟨m', task', []⟩ [.sbrk 16, .sbrk 16, .free 0x40000836]
      = some ⟨m₃, { s₂.task with eheap := 0x40000836 - blockSize }, live⟩ := by
    rw [run_cons, h₁, Option.bind_some, run_cons, h₂, Option.bind_some, run_cons, h₃]
    rfl
  have hok : Always HeapOp.step (fun s op => op.Ok s) ⟨m', task', []⟩
      [.sbrk 16, .sbrk 16, .free 0x40000836] := by
    refine ⟨hok₁, fun s hs => ?_⟩
    obtain rfl := Option.some.inj (h₁.symm.trans hs)
    refine ⟨hok₂, fun s hs => ?_⟩
    obtain rfl := Option.some.inj (h₂.symm.trans hs)
    exact ⟨⟨16, hlast⟩, fun _ _ => trivial⟩
  exact ⟨m, m', task', _, hl, hexec, hrun, hlive₃, userHeap_law hl hexec hok hrun⟩

/-- Two blocks, of which the first is freed: `eheap` drops below the
second, and the first stays linked. -/
theorem userHeap_law_fails : ¬ ∀ m task m' task' ops s, Loaded m task →
    execveHeap m task = some (m', task') →
    Always HeapOp.step (fun s op => op.Legal s) ⟨m', task', []⟩ ops →
    run HeapOp.step ⟨m', task', []⟩ ops = some s → HeapLaw s := by
  intro hall
  obtain ⟨m, m', task', s₁, s₂, hl, hexec, hok₁, h₁, hok₂, h₂, hlive, hi⟩ := oneTask_two
  have hmem : (0x40000819, 16) ∈ s₂.live := by
    rw [hlive]
    decide
  obtain ⟨s₃, h₃, hbad⟩ := hi.free_earlier hmem (by rw [hlive]; decide)
  refine hbad (hall m oneTask m' task' [.sbrk 16, .sbrk 16, .free 0x40000819] s₃ hl hexec ?_ ?_)
  · refine ⟨@HeapOp.Ok.legal _ (.sbrk 16) hok₁, fun s hs => ?_⟩
    obtain rfl := Option.some.inj (h₁.symm.trans hs)
    refine ⟨@HeapOp.Ok.legal _ (.sbrk 16) hok₂, fun s hs => ?_⟩
    obtain rfl := Option.some.inj (h₂.symm.trans hs)
    exact ⟨⟨16, hmem⟩, fun _ _ => trivial⟩
  · rw [run_cons, h₁, Option.bind_some, run_cons, h₂, Option.bind_some, run_cons, h₃]
    rfl

end Law

end Csos
