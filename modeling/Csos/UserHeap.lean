import Csos.ListSim
import Csos.UserMemory

/-!
# The heap of a user task (`tss_task_sbrk` and `tss_task_free` in `kernel32/task/tss.c`)

The kernel keeps the list of a task's blocks in the task's own memory:
`list_t` at `bheap`, and in front of each block a `block_t`. The code is
built with `-fpack-struct`, so `block_t` is 13 bytes long: `size` at 0,
the bit field with `p` and `magic` at 4, and `node` at 5. All of this is
read and written through the MMU, so an access may fault.

`arena_sim` is what makes `list.c` usable here: on well-placed headers
the accessors of the task's memory do what those of the kernel's `Heap`
do.
-/

namespace Csos

open Lib

/-! ## Lists in user memory -/

/-- A pointer that is not NULL. -/
abbrev Ptr := { a : Nat // 0 < a ∧ a < 0x100000000 }

def toPtr (v : Nat) : Option Ptr :=
  if h : 0 < v ∧ v < 0x100000000 then some ⟨v, h⟩ else none

def ofPtr : Option Ptr → Nat
  | none => 0
  | some p => p.1

instance : HasAddr Ptr where
  addr p := UInt32.ofNat p.1
  addr_injective p q h := by
    have h' := congrArg UInt32.toNat h
    rw [UInt32.toNat_ofNat', UInt32.toNat_ofNat'] at h'
    have hp := p.2
    have hq := q.2
    exact Subtype.ext (by omega)
  addr_ne_zero p h := by
    have h' := congrArg UInt32.toNat h
    rw [UInt32.toNat_ofNat', UInt32.toNat_zero] at h'
    have hp := p.2
    omega

/-- `list_node_t` is `pre` and `next`, `list_t` is `head`, `tail` and `size`. -/
instance : ListMem Machine Nat Ptr where
  pre m n := (m.read32 n.1).map toPtr
  next m n := (m.read32 (u32 (n.1 + 4))).map toPtr
  head m l := (m.read32 l).map toPtr
  tail m l := (m.read32 (u32 (l + 4))).map toPtr
  size m l := (m.read32 (u32 (l + 8))).map UInt32.ofNat
  setPre m n x := m.write32 n.1 (ofPtr x)
  setNext m n x := m.write32 (u32 (n.1 + 4)) (ofPtr x)
  setHead m l x := m.write32 l (ofPtr x)
  setTail m l x := m.write32 (u32 (l + 4)) (ofPtr x)
  setSize m l s := m.write32 (u32 (l + 8)) s.toNat

/-! ## `block_t` -/

/-- `sizeof(block_t)`. -/
abbrev blockSize : Nat := 13

/-- The field `p`. -/
def getP (m : Machine) (pb : Nat) : Option Bool := do
  return (← m.read8 (u32 (pb + 4))).getLsbD 0

def setP (m : Machine) (pb : Nat) (p : Bool) : Option Machine := do
  let b ← m.read8 (u32 (pb + 4))
  m.write8 (u32 (pb + 4)) (b &&& 0xFE ||| if p then 1 else 0)

def setMagic (m : Machine) (pb : Nat) (magic : BitVec 4) : Option Machine := do
  let b ← m.read8 (u32 (pb + 4))
  m.write8 (u32 (pb + 4)) (b &&& 0x0F ||| magic.setWidth 8 <<< 4)

/-! ## The functions of `tss.c` -/

/-- The fields of `tss_task_t` that the heap functions use. -/
structure TaskHeap where
  cr3 : Nat
  bheap : Nat
  eheap : Nat
  heap : Nat
deriving DecidableEq

/-- The end of `tss_task_execve`: an empty list at `bheap`, which
`load_elf_file` has set together with `eheap`. -/
def execveHeap (m : Machine) (task : TaskHeap) : Option (Machine × TaskHeap) := do
  let task := { task with heap := task.bheap }
  let m ← listInit m task.heap
  return (m, { task with eheap := u32 (task.eheap + 12) })

/-- `PTE_P | PTE_U | PTE_W`. -/
abbrev heapPerm : Nat := 1 ||| 4 ||| 2

/-- The last part of `tss_task_sbrk`, which gets the pages from `start` on. -/
def tssTaskSbrkPages (m : Machine) (task : TaskHeap) (start size stop peheap : Nat) :
    Machine × TaskHeap × Nat :=
  if size ≠ 0 then
    let cs := u32 (stop + 0x100000000 - start)
    let r := allocTaskPages m task.cr3 start cs heapPerm
    if r.2 < 0 then (r.1, task, 0)
    else (r.1, { task with eheap := stop }, peheap)
  else (m, { task with eheap := stop }, peheap)

def tssTaskSbrk (m : Machine) (task : TaskHeap) (size : Nat) :
    Option (Machine × TaskHeap × Nat) := do
  let peheap := task.eheap
  if size = 0 then
    return (m, task, peheap)
  let start := task.eheap
  let pb := start
  let m ← setP m pb true
  let m ← setMagic m pb 0xE
  let m ← m.write32 pb size
  let m ← listInsertBack m task.heap (← toPtr (u32 (pb + 5)))
  let size := u32 (size + blockSize)
  let peheap := u32 (start + blockSize)
  let stop := u32 (start + size)
  let startOffset := start % 0x1000
  if startOffset ≠ 0 then
    if u32 (startOffset + size) ≤ 0x1000 then
      return (m, { task with eheap := stop }, peheap)
    else
      let cs := 0x1000 - startOffset
      return tssTaskSbrkPages m task (u32 (start + cs)) (u32 (size + 0x100000000 - cs)) stop peheap
  else
    return tssTaskSbrkPages m task start size stop peheap

def tssTaskFree (m : Machine) (task : TaskHeap) (ptr : Nat) : Option (Machine × TaskHeap) := do
  let pb := u32 (ptr + 0x100000000 - blockSize)
  let m ← if ← getP m pb then setP m pb false else some m
  let size ← m.read32 pb
  let pnode ← listGetLast m task.heap
  if u32 (pb + 5) = ofPtr pnode then
    let (m, _) ← listRemove m task.heap (← pnode)
    let pbegin := pb
    let pend := u32 (pbegin + size + blockSize)
    if pbegin &&& 0xFFFFF000 < pend &&& 0xFFFFF000 then
      let m ← freePage m task.cr3 (pend &&& 0xFFFFF000)
      return (m, { task with eheap := pb })
    return (m, { task with eheap := pb })
  return (m, { task with eheap := pb })

/-! ## Well-placed headers -/

theorem toPtr_ofPtr (x : Option Ptr) : toPtr (ofPtr x) = x := by
  cases x with
  | none => rfl
  | some p => exact dif_pos p.2

theorem ofPtr_toPtr {v : Nat} (hv : v < 0x100000000) : ofPtr (toPtr v) = v := by
  rw [toPtr]
  split
  case isTrue => rfl
  case isFalse h =>
    have hz : v = 0 := by omega
    exact hz.symm

theorem ofPtr_lt (x : Option Ptr) : ofPtr x < 0x100000000 := by
  cases x with
  | none => decide
  | some p => exact p.2.2

/-- The list at `l` and the nodes in `VN` are mapped and do not overlap. -/
structure Arena (m : Machine) (d l : Nat) (VN : Ptr → Prop) : Prop where
  running : Running m d
  header : RangeMapped m.mem d l 12
  node : ∀ n, VN n → RangeMapped m.mem d n.1 8
  node_header : ∀ n, VN n → n.1 + 8 ≤ l ∨ l + 12 ≤ n.1
  node_node : ∀ n k, VN n → VN k → n ≠ k → n.1 + 8 ≤ k.1 ∨ k.1 + 8 ≤ n.1

/-- The words of the list at `l`. -/
inductive Word where
  | head
  | tail
  | size
  | pre (n : Ptr)
  | next (n : Ptr)

namespace Word

def addr (l : Nat) : Word → Nat
  | head => l
  | tail => l + 4
  | size => l + 8
  | pre n => n.1
  | next n => n.1 + 4

/-- What the word is in the kernel's memory. -/
def value (h : Heap Nat Ptr) (l : Nat) : Word → Nat
  | head => ofPtr (h.head l)
  | tail => ofPtr (h.tail l)
  | size => (h.size l).toNat
  | pre n => ofPtr (h.pre n)
  | next n => ofPtr (h.next n)

def Valid (VN : Ptr → Prop) : Word → Prop
  | pre n => VN n
  | next n => VN n
  | _ => True

theorem value_lt (h : Heap Nat Ptr) (l : Nat) (w : Word) : w.value h l < 0x100000000 := by
  cases w with
  | size => exact (h.size l).toNat_lt
  | _ => exact ofPtr_lt _

end Word

section Arena

variable {m₀ m m' : Machine} {d l : Nat} {VN VG : Ptr → Prop} {h g : Heap Nat Ptr}

theorem Arena.mapped (A : Arena m₀ d l VN) {w : Word} (hw : w.Valid VN) :
    RangeMapped m₀.mem d (w.addr l) 4 := by
  cases w with
  | head => exact A.header.sub (Nat.le_refl _) (by simp only [Word.addr]; omega)
  | tail => exact A.header.sub (Nat.le_add_right _ _) (by simp only [Word.addr]; omega)
  | size => exact A.header.sub (Nat.le_add_right _ _) (by simp only [Word.addr]; omega)
  | pre n => exact (A.node n hw).sub (Nat.le_refl _) (by simp only [Word.addr]; omega)
  | next n => exact (A.node n hw).sub (Nat.le_add_right _ _) (by simp only [Word.addr]; omega)

theorem Arena.disjoint (A : Arena m₀ d l VN) {w w' : Word} (hw : w.Valid VN) (hw' : w'.Valid VN)
    (hne : w ≠ w') : w.addr l + 4 ≤ w'.addr l ∨ w'.addr l + 4 ≤ w.addr l := by
  have hnode : ∀ n k : Ptr, VN n → VN k → n = k ∨ n.1 + 8 ≤ k.1 ∨ k.1 + 8 ≤ n.1 := by
    intro n k hn hk
    by_cases hnk : n = k
    · exact Or.inl hnk
    · exact Or.inr (A.node_node n k hn hk hnk)
  have hhead := A.node_header
  cases w <;> cases w' <;> simp only [Word.addr, Word.Valid] at hw hw' ⊢ <;>
    first
      | exact absurd rfl hne
      | omega
      | (have hapart := hhead _ hw; omega)
      | (have hapart := hhead _ hw'; omega)
      | (rcases hnode _ _ hw hw' with rfl | hd <;> first | exact absurd rfl hne | omega)

/-- The task's memory holds the lists of `h`, and is otherwise that of
`m₀`. -/
structure HeapSim (m₀ : Machine) (d l : Nat) (VN VG : Ptr → Prop) (h : Heap Nat Ptr)
    (m : Machine) : Prop where
  same : SameSpace m₀ m d
  word : ∀ w : Word, w.Valid VN → m.flat.load32 (w.addr l) = w.value h l
  frame : ∀ b, UserAddr b → (b < l ∨ l + 12 ≤ b) → (∀ n, VN n → b < n.1 ∨ n.1 + 8 ≤ b) →
    m.flat b = m₀.flat b
  head : ∀ k, h.head l = some k → VN k
  tail : ∀ k, h.tail l = some k → VN k
  pre : ∀ n k, VG n → h.pre n = some k → VN k
  next : ∀ n k, VG n → h.next n = some k → VN k

theorem Arena.addr_eq (A : Arena m₀ d l VN) {w : Word} (hw : w.Valid VN) :
    u32 (w.addr l) = w.addr l :=
  u32_of_lt (A.mapped hw _ (Nat.le_refl _) (by omega)).1.2

theorem HeapSim.read (A : Arena m₀ d l VN) (hs : HeapSim m₀ d l VN VG h m) {w : Word}
    (hw : w.Valid VN) : m.read32 (w.addr l) = some (w.value h l) := by
  rw [read32_flat (A.running.same hs.same) ((A.mapped hw).same hs.same), hs.word w hw]

theorem HeapSim.readPtr (A : Arena m₀ d l VN) (hs : HeapSim m₀ d l VN VG h m) {w : Word}
    (hw : w.Valid VN) {x : Option Ptr} (hx : w.value h l = ofPtr x) :
    (m.read32 (w.addr l)).map toPtr = some x := by
  rw [hs.read A hw, hx, Option.map_some, toPtr_ofPtr]

/-- One word is written, in both memories. -/
theorem HeapSim.write (A : Arena m₀ d l VN) (hs : HeapSim m₀ d l VN VG h m) {w : Word}
    (hw : w.Valid VN) (hother : ∀ w' : Word, w' ≠ w → w'.value g l = w'.value h l)
    (hhead : ∀ k, g.head l = some k → VN k) (htail : ∀ k, g.tail l = some k → VN k)
    (hpre : ∀ n k, VG n → g.pre n = some k → VN k)
    (hnext : ∀ n k, VG n → g.next n = some k → VN k) :
    ∃ m', m.write32 (w.addr l) (w.value g l) = some m' ∧ HeapSim m₀ d l VN VG g m' := by
  have hm := (A.mapped hw).same hs.same
  obtain ⟨m', hwrite, hsame, hflat⟩ := write32_flat (A.running.same hs.same) hm (w.value g l)
  refine ⟨m', hwrite, hs.same.trans hsame, fun w' hw' => ?_,
    fun b hb hout hnode => ?_, hhead, htail, hpre, hnext⟩
  · have hm' := A.mapped hw'
    have hload : m'.flat.load32 (w'.addr l)
        = (m.flat.store32 (w.addr l) (w.value g l)).load32 (w'.addr l) :=
      Bytes.load32_congr fun b hb hb' => hflat b (hm' b hb hb').1
    rw [hload]
    by_cases heq : w' = w
    · rw [heq, Bytes.load32_store32_self (Word.value_lt g l w)]
    · rw [Bytes.load32_store32_of_disjoint (A.disjoint hw' hw heq), hs.word w' hw',
        hother w' heq]
  · rw [hflat b hb, Bytes.store32_outside, hs.frame b hb hout hnode]
    cases w with
    | pre n => have := hnode n hw; simp only [Word.addr]; omega
    | next n => have := hnode n hw; simp only [Word.addr]; omega
    | _ => simp only [Word.addr]; omega

/-- The accessors of the task's memory follow those of the kernel's. -/
theorem arena_sim (A : Arena m₀ d l VN) (hVG : ∀ n, VG n → VN n) :
    ListMem.Sim (HeapSim m₀ d l VN VG) l VN VG := by
  constructor
  case pre =>
    intro h m n x hs hn hx
    obtain rfl := Option.some.inj hx
    exact ⟨hs.readPtr A (w := .pre n) (hVG n hn) rfl, fun k => hs.pre n k hn⟩
  case next =>
    intro h m n x hs hn hx
    obtain rfl := Option.some.inj hx
    have hread := hs.readPtr A (w := .next n) (hVG n hn) rfl
    rw [← A.addr_eq (w := .next n) (hVG n hn)] at hread
    exact ⟨hread, fun k => hs.next n k hn⟩
  case head =>
    intro h m x hs hx
    obtain rfl := Option.some.inj hx
    exact ⟨hs.readPtr A (w := .head) trivial rfl, hs.head⟩
  case tail =>
    intro h m x hs hx
    obtain rfl := Option.some.inj hx
    have hread := hs.readPtr A (w := .tail) trivial rfl
    rw [← A.addr_eq (w := .tail) trivial] at hread
    exact ⟨hread, hs.tail⟩
  case size =>
    intro h m s hs hx
    obtain rfl := Option.some.inj hx
    have hread := hs.read A (w := .size) trivial
    rw [← A.addr_eq (w := .size) trivial] at hread
    exact (congrArg (Option.map UInt32.ofNat) hread).trans
      (congrArg some (@UInt32.ofNat_toNat (h.size l)))
  case setPre =>
    intro h m h' n x hs hn hx heq
    obtain rfl := Option.some.inj heq
    have hwrite := hs.write A (w := .pre n) (g := { h with pre := Function.update h.pre n x }) hn
      (fun w' hne => ?_) hs.head hs.tail (fun n' k hn' hk => ?_) hs.next
    · simp only [Word.addr, Word.value, Function.update_self] at hwrite
      exact hwrite
    · cases w' with
      | pre n' =>
          have hnn : n' ≠ n := fun he => hne (by rw [he])
          simp only [Word.value, Function.update_of_ne hnn]
      | _ => rfl
    · dsimp only at hk
      by_cases hnn : n' = n
      · subst hnn
        rw [Function.update_self] at hk
        exact hx k hk
      · rw [Function.update_of_ne hnn] at hk
        exact hs.pre n' k hn' hk
  case setNext =>
    intro h m h' n x hs hn hx heq
    obtain rfl := Option.some.inj heq
    have hwrite := hs.write A (w := .next n) (g := { h with next := Function.update h.next n x })
      hn (fun w' hne => ?_) hs.head hs.tail hs.pre (fun n' k hn' hk => ?_)
    · rw [← A.addr_eq (w := .next n) hn] at hwrite
      simp only [Word.addr, Word.value, Function.update_self] at hwrite
      exact hwrite
    · cases w' with
      | next n' =>
          have hnn : n' ≠ n := fun he => hne (by rw [he])
          simp only [Word.value, Function.update_of_ne hnn]
      | _ => rfl
    · dsimp only at hk
      by_cases hnn : n' = n
      · subst hnn
        rw [Function.update_self] at hk
        exact hx k hk
      · rw [Function.update_of_ne hnn] at hk
        exact hs.next n' k hn' hk
  case setHead =>
    intro h m h' x hs hx heq
    obtain rfl := Option.some.inj heq
    have hwrite := hs.write A (w := .head) (g := { h with head := Function.update h.head l x })
      trivial (fun w' hne => ?_) (fun k hk => ?_) hs.tail hs.pre hs.next
    · simp only [Word.addr, Word.value, Function.update_self] at hwrite
      exact hwrite
    · cases w' with
      | head => exact absurd rfl hne
      | _ => rfl
    · dsimp only at hk
      rw [Function.update_self] at hk
      exact hx k hk
  case setTail =>
    intro h m h' x hs hx heq
    obtain rfl := Option.some.inj heq
    have hwrite := hs.write A (w := .tail) (g := { h with tail := Function.update h.tail l x })
      trivial (fun w' hne => ?_) hs.head (fun k hk => ?_) hs.pre hs.next
    · rw [← A.addr_eq (w := .tail) trivial] at hwrite
      simp only [Word.addr, Word.value, Function.update_self] at hwrite
      exact hwrite
    · cases w' with
      | tail => exact absurd rfl hne
      | _ => rfl
    · dsimp only at hk
      rw [Function.update_self] at hk
      exact hx k hk
  case setSize =>
    intro h m h' s hs heq
    obtain rfl := Option.some.inj heq
    have hwrite := hs.write A (w := .size) (g := { h with size := Function.update h.size l s })
      trivial (fun w' hne => ?_) hs.head hs.tail hs.pre hs.next
    · rw [← A.addr_eq (w := .size) trivial] at hwrite
      simp only [Word.addr, Word.value, Function.update_self] at hwrite
      exact hwrite
    · cases w' with
      | size => exact absurd rfl hne
      | _ => rfl

end Arena

/-! ## Headers -/

section Header

variable {m : Machine} {d pb : Nat}

theorem setP_flat (hr : Running m d) (hm : RangeMapped m.mem d (pb + 4) 1) (p : Bool) :
    ∃ m', setP m pb p = some m' ∧ SameSpace m m' d ∧ ∀ b, UserAddr b →
      m'.flat b
        = m.flat.store8 (pb + 4) (m.flat (pb + 4) &&& 0xFE ||| if p then 1 else 0) b := by
  obtain ⟨hu, hmap⟩ := hm (pb + 4) (Nat.le_refl _) (Nat.lt_succ_self _)
  obtain ⟨m', hwrite, hrest⟩ := write8_flat hr hu hmap
    (m.flat (pb + 4) &&& 0xFE ||| if p then 1 else 0)
  refine ⟨m', ?_, hrest⟩
  rw [setP, u32_of_lt hu.2, read8_flat hr hu hmap]
  exact hwrite

theorem setMagic_flat (hr : Running m d) (hm : RangeMapped m.mem d (pb + 4) 1)
    (magic : BitVec 4) :
    ∃ m', setMagic m pb magic = some m' ∧ SameSpace m m' d ∧ ∀ b, UserAddr b →
      m'.flat b
        = m.flat.store8 (pb + 4) (m.flat (pb + 4) &&& 0x0F ||| magic.setWidth 8 <<< 4) b := by
  obtain ⟨hu, hmap⟩ := hm (pb + 4) (Nat.le_refl _) (Nat.lt_succ_self _)
  obtain ⟨m', hwrite, hrest⟩ := write8_flat hr hu hmap
    (m.flat (pb + 4) &&& 0x0F ||| magic.setWidth 8 <<< 4)
  refine ⟨m', ?_, hrest⟩
  rw [setMagic, u32_of_lt hu.2, read8_flat hr hu hmap]
  exact hwrite

theorem getP_flat (hr : Running m d) (hm : RangeMapped m.mem d (pb + 4) 1) :
    getP m pb = some ((m.flat (pb + 4)).getLsbD 0) := by
  obtain ⟨hu, hmap⟩ := hm (pb + 4) (Nat.le_refl _) (Nat.lt_succ_self _)
  rw [getP, u32_of_lt hu.2, read8_flat hr hu hmap]
  rfl

/-- Setting `magic` leaves `p` alone. -/
theorem p_after_magic (b : BitVec 8) (magic : BitVec 4) :
    ((b &&& 0xFE ||| if true then 1 else 0) &&& 0x0F ||| magic.setWidth 8 <<< 4).getLsbD 0
      = true := by
  simp

/-- What `tss_task_sbrk` writes before it links the block. -/
theorem header_flat (hr : Running m d) (hm : RangeMapped m.mem d pb blockSize) {size : Nat}
    (hsize : size < 2 ^ 32) :
    ∃ m₁ m₂ m₃, setP m pb true = some m₁ ∧ setMagic m₁ pb 0xE = some m₂
      ∧ m₂.write32 pb size = some m₃ ∧ SameSpace m m₃ d
      ∧ (∀ b, UserAddr b → b < pb → m₃.flat b = m.flat b)
      ∧ m₃.flat.load32 pb = size ∧ (m₃.flat (pb + 4)).getLsbD 0 = true := by
  have hbyte : RangeMapped m.mem d (pb + 4) 1 := hm.sub (by omega) (by simp only [blockSize]; omega)
  have hword : RangeMapped m.mem d pb 4 := hm.sub (by omega) (by simp only [blockSize]; omega)
  have hu := (hbyte (pb + 4) (Nat.le_refl _) (by omega)).1
  obtain ⟨m₁, e₁, s₁, f₁⟩ := setP_flat hr hbyte true
  obtain ⟨m₂, e₂, s₂, f₂⟩ := setMagic_flat (hr.same s₁) (hbyte.same s₁) 0xE
  obtain ⟨m₃, e₃, s₃, f₃⟩ := write32_flat ((hr.same s₁).same s₂) ((hword.same s₁).same s₂) size
  refine ⟨m₁, m₂, m₃, e₁, e₂, e₃, (s₁.trans s₂).trans s₃, fun b hb hlt => ?_, ?_, ?_⟩
  · rw [f₃ b hb, Bytes.store32_outside (Or.inl hlt), f₂ b hb, Bytes.store8_of_ne (by omega),
      f₁ b hb, Bytes.store8_of_ne (by omega)]
  · rw [Bytes.load32_congr fun b hb hb' => f₃ b (hword b hb hb').1,
      Bytes.load32_store32_self hsize]
  · rw [f₃ _ hu, Bytes.store32_outside (Or.inr (Nat.le_refl _)), f₂ _ hu, f₁ _ hu]
    simp only [Bytes.store8, if_true]
    exact p_after_magic _ _

end Header

end Csos
