import Csos.Fork
import Csos.HeapPages
import Csos.KernelMap
import Csos.Lib.Partition
import Csos.Teardown

/-!
# The memory of many tasks

All calls of `memory32.c` that give memory to a task or take it away, in any
order and for any number of tasks, and the accesses that the programs make.
Each page is free or has one owner, a task's space or the kernel
(`Spaces.Owns`), and a call only moves pages between its own space and the
free ones (`Moves`). So no program ever reaches a byte of another one or of
the kernel (`isolation_law`), and what it finds in its memory does not
change unless it is its own turn (`isolation_view`).
-/

namespace Csos

open Lib

/-! ## One space changes -/

/-- Only the space `d` has changed, and pages that were free. -/
structure Confined (m m' : Machine) (d : Nat) : Prop where
  space : SpaceOk m' d
  owned : ∀ p, Owned m'.mem d p → Owned m.mem d p ∨ m.info.Free p
  free : ∀ q, m'.info.Free q → m.info.Free q
  mem : ∀ b, ¬ m.info.Free (b / 0x1000 * 0x1000) → ¬ Owned m.mem d (b / 0x1000 * 0x1000) →
    m'.mem b = m.mem b
  half : ∀ i < 256, pdeAt m'.mem d i = pdeAt m.mem d i
  start : m'.info.start = m.info.start
  bitSize : m'.info.bitmap.bitSize = m.info.bitmap.bitSize
  cr3 : m'.cr3 = m.cr3
  kernelPde : m'.kernelPde = m.kernelPde

section Confined

variable {m m₁ m' : Machine} {d n j perm index count : Nat}

theorem Confined.refl (hs : SpaceOk m d) : Confined m m d where
  space := hs
  owned := fun _ => Or.inl
  free := fun _ => id
  mem := fun _ _ _ => rfl
  half := fun _ _ => rfl
  start := rfl
  bitSize := rfl
  cr3 := rfl
  kernelPde := rfl

theorem Confined.trans (h : Confined m m₁ d) (h' : Confined m₁ m' d) : Confined m m' d where
  space := h'.space
  owned := fun p hp => by
    rcases h'.owned p hp with hown | hfree
    · exact h.owned p hown
    · exact Or.inr (h.free p hfree)
  free := fun q hq => h.free q (h'.free q hq)
  mem := fun b hb hb' => by
    rw [h'.mem b (mt (h.free _) hb) fun hown => (h.owned _ hown).elim hb' hb]
    exact h.mem b hb hb'
  half := fun i hi => (h'.half i hi).trans (h.half i hi)
  start := h'.start.trans h.start
  bitSize := h'.bitSize.trans h.bitSize
  cr3 := h'.cr3.trans h.cr3
  kernelPde := h'.kernelPde.trans h.kernelPde

theorem Grown.confined (hs : SpaceOk m d) (hg : Grown m m' d n j perm) : Confined m m' d where
  space := hs.map hg
  owned := fun p hp => by
    rcases hg.owned hs hp with hown | rfl | ⟨hfree, -⟩
    · exact Or.inl hown
    · exact Or.inr hg.page_free
    · exact Or.inr hfree
  free := fun q hq => (hg.free hq).1
  mem := fun b hb hb' => by
    obtain ⟨hlo, hhi⟩ := hg.user
    refine hg.mapped.mem b (fun he => hb' (he ▸ .dir)) fun he => ?_
    rcases hg.table (by omega) hg.mapped.pde_present with ⟨hp, htab⟩ | ⟨-, hfree, -⟩
    · rw [he, htab] at hb'
      exact hb' (.table (n / 1024) (by omega) (by omega) hp)
    · exact hb (he ▸ hfree)
  half := fun i hi => by
    obtain ⟨hlo, -⟩ := hg.user
    exact hg.mapped.pde i (by omega) (by omega)
  start := hg.mapped.start
  bitSize := hg.mapped.bitSize.trans (Memory32Info.setPage_bitSize true)
  cr3 := hg.mapped.cr3
  kernelPde := hg.mapped.kernelPde

/-- A page is taken and gets lost. -/
theorem SpaceOk.confined_drop (hs : SpaceOk m d) (hj : j < m.info.bitmap.bitSize) :
    Confined m { m with info := m.info.setPage j true } d where
  space := hs.drop hj
  owned := fun _ => Or.inl
  free := fun _ hq => ((Memory32Info.free_setPage hj).mp hq).1
  mem := fun _ _ _ => rfl
  half := fun _ _ => rfl
  start := rfl
  bitSize := Memory32Info.setPage_bitSize true
  cr3 := rfl
  kernelPde := rfl

/-- However the loop of `alloc_task_pages` ends. -/
theorem allocTaskPagesLoop_confined (hs : SpaceOk m d) (hbase : vmTaskBase ≤ index)
    (hlim : index + count * 0x1000 ≤ 2 ^ 32) (hperm : perm < 0x1000) :
    Confined m (allocTaskPagesLoop m d index perm count).1 d := by
  induction count generalizing m index with
  | zero => exact .refl hs
  | succ count ih =>
      have hbase' : 0x40000000 ≤ index := hbase
      have hn : UserPage (index / 0x1000) := by
        constructor <;> omega
      rw [allocTaskPagesLoop]
      rcases memory32AllocPage_one hs.info with ⟨heq, -⟩ | ⟨j, hj, hfree, heq⟩
      · simp only [heq, if_true]
        exact .refl hs
      simp only [heq, if_neg (hfree.pos hs.info).ne']
      rcases hs.mapPage hj hfree hn hperm rfl with ⟨m₁, hmap, hg⟩ | ⟨herr, -⟩
      · simp only [hmap, Int.lt_irrefl, if_false]
        have hconf := hg.confined hs
        by_cases hz : count = 0
        · subst hz
          exact hconf
        · have hnext : u32 (index + 0x1000) = index + 0x1000 := u32_of_lt (by omega)
          rw [hnext]
          exact hconf.trans (ih hconf.space (Nat.le_add_right_of_le hbase) (by omega))
      · simp only [herr, show (-1 : Int) < 0 by decide, if_true]
        exact hs.confined_drop hj

end Confined

/-! ## The tasks -/

/-- The machine, the directories that the tasks have, and the pages that
`alloc_page` has returned and that were not given back. -/
structure Spaces where
  machine : Machine
  dirs : List Nat
  pages : List Nat

/-- A call of the kernel, or an access of the task that runs. -/
inductive SpaceCall where
  | createPde
  | allocTaskPages (d index size perm : Nat)
  | copyPage
  | destroyPde (d : Nat)
  | allocPage
  | freePage (p : Nat)
  /-- `free_page` of a user address -/
  | freeUser (n : Nat)
  | mapArea (paddr size : Nat)
  | setPde (d : Nat)
  /-- the kernel writes to a user address -/
  | write8 (va : Nat) (v : BitVec 8)
  /-- the program writes -/
  | store (va : Nat) (v : BitVec 8)

/-- The page walk of the MMU for a program: the flags are to be set in both
entries. -/
def userWalk (mem : Bytes) (pageDir flags va : Nat) : Option Nat :=
  if mem.load32 (pageDir + 4 * pdeIndex va) &&& flags = flags then
    (walk mem pageDir va).bind fun (a, f) => if f &&& flags = flags then some a else none
  else none

/-- `PTE_U`, and with it `PTE_W`. -/
abbrev userRead : Nat := 4

abbrev userWrite : Nat := 6

/-- The directory that is active after the call. -/
def SpaceCall.active (cr3 : Nat) : SpaceCall → Nat
  | .setPde d => d
  | _ => cr3

/-- The calls that write to the memory of the task that runs. -/
def SpaceCall.Access : SpaceCall → Prop
  | .write8 _ _ | .store _ _ => True
  | _ => False

/-- A call as a task sees it that has its memory `f` for itself: only the
writes of its own turns are left. -/
def privateStep (d : Nat) (p : Nat × (Nat → Option (BitVec 8))) (c : SpaceCall) :
    Nat × (Nat → Option (BitVec 8)) :=
  (c.active p.1, match c with
    | .write8 va v | .store va v =>
        if p.1 = d then fun b => if b = va then (p.2 b).map fun _ => v else p.2 b else p.2
    | _ => p.2)

namespace Spaces

def step (s : Spaces) : SpaceCall → Option Spaces
  | .createPde =>
      let (machine, d) := memory32CreatePde s.machine
      some { s with machine, dirs := if d = 0 then s.dirs else d :: s.dirs }
  | .allocTaskPages d index size perm =>
      some { s with machine := (allocTaskPages s.machine d index size perm).1 }
  | .copyPage =>
      (copyPage s.machine s.machine.cr3).map fun (machine, r) =>
        { s with machine, dirs := if r < 0 then s.dirs else r.toNat :: s.dirs }
  | .destroyPde d =>
      (destroyPde s.machine d).map fun machine =>
        { s with machine, dirs := s.dirs.filter (· ≠ d) }
  | .allocPage =>
      let (machine, p) := s.machine.allocPage
      some { s with machine, pages := if p = 0 then s.pages else p :: s.pages }
  | .freePage p =>
      (freePage s.machine s.machine.cr3 p).map fun machine =>
        { s with machine, pages := s.pages.filter (· ≠ p) }
  | .freeUser n =>
      (freePage s.machine s.machine.cr3 (n * 0x1000)).map fun machine => { s with machine }
  | .mapArea paddr size => some { s with machine := (mapArea s.machine paddr size).1 }
  | .setPde d => some { s with machine := { s.machine with cr3 := d } }
  | .write8 va v => (s.machine.write8 va v).map fun machine => { s with machine }
  | .store va v =>
      (userWalk s.machine.mem s.machine.cr3 userWrite va).map fun a =>
        { s with machine := { s.machine with mem := s.machine.mem.store8 a v } }

end Spaces

/-- Who has a page: the kernel for its map, the kernel for other purposes, or
the space of a task. -/
inductive Owner where
  | kernel
  | held
  | space (d : Nat)
deriving DecidableEq

namespace Spaces

def free (s : Spaces) : Set Nat := {p | s.machine.info.Free p}

def Owns (s : Spaces) : Owner → Set Nat
  | .kernel => {p | p = s.machine.kernelPde ∨ ∃ i < 1024,
      present (pdeAt s.machine.mem s.machine.kernelPde i)
        ∧ tableAt s.machine.mem s.machine.kernelPde i = p}
  | .held => {p | p ∈ s.pages}
  | .space d => {p | d ∈ s.dirs ∧ Owned s.machine.mem d p}

/-- What the code expects of a call. `destroy_pde` frees the page that the
word behind the directory names, so this must not be somebody else's. -/
def Fits (s : Spaces) : SpaceCall → Prop
  | .createPde => True
  | .allocTaskPages d index size perm =>
      d ∈ s.dirs ∧ vmTaskBase ≤ index ∧ index + ceilPage size ≤ 2 ^ 32 ∧ perm < 0x1000
  | .copyPage => s.machine.cr3 ∈ s.dirs
      ∧ 1 + 2 * mappedFrom s.machine s.machine.cr3 0x40000 ≤ s.machine.info.freePages
  | .destroyPde d => d ∈ s.dirs ∧ ∃ w, s.machine.read32 (d + 0x1000) = some w
      ∧ ∀ o, o ≠ .space d → pdeAddress w ∉ s.Owns o
  | .allocPage => True
  | .freePage p => p ∈ s.pages
  | .freeUser n => s.machine.cr3 ∈ s.dirs ∧ UserPage n
      ∧ freePage s.machine s.machine.cr3 (n * 0x1000) ≠ none
  | .mapArea paddr size => vmTaskBase ≤ paddr ∧ paddr < 2 ^ 32 ∧ paddr % 0x1000 = 0
      ∧ paddr + roundUpPage size 0x1000 * 0x1000 ≤ 2 ^ 32
  | .setPde d => d ∈ s.dirs
  | .write8 va _ => s.machine.cr3 ∈ s.dirs ∧ UserAddr va ∧ s.machine.translate va ≠ none
  | .store va _ => s.machine.cr3 ∈ s.dirs ∧ va < 2 ^ 32
      ∧ userWalk s.machine.mem s.machine.cr3 userWrite va ≠ none

/-- The space a call is for. -/
def Concerns (s : Spaces) (d : Nat) : SpaceCall → Prop
  | .allocTaskPages d' _ _ _ | .destroyPde d' => d' = d
  | .freeUser _ | .write8 _ _ | .store _ _ => s.machine.cr3 = d
  | _ => False

/-- What a program finds at an address. -/
def view (s : Spaces) (d va : Nat) : Option (BitVec 8) :=
  if va < 2 ^ 32 then (userWalk s.machine.mem d userRead va).map s.machine.mem else none

end Spaces

/-! ## What a program reaches -/

section Walk

variable {mem mem' : Bytes} {image : KernelImage} {d flags va a : Nat}

theorem userWalk_eq : userWalk mem d flags va
    = if pdeAt mem d (va / 0x1000 / 1024) &&& flags = flags then
        (pteAt mem d (va / 0x1000)).bind fun v =>
          if v % 0x1000 &&& flags = flags then some (pteAddress v + va % 0x1000) else none
      else none := by
  have hidx : va / 0x400000 = va / 0x1000 / 1024 := by omega
  rw [userWalk, walk_eq, pdeIndex_eq, hidx, ← pdeAt, Option.bind_map]
  rfl

theorem userWalk_eq_some (h : userWalk mem d flags va = some a) :
    ∃ v, pteAt mem d (va / 0x1000) = some v ∧ a = pteAddress v + va % 0x1000 := by
  rw [userWalk_eq] at h
  split at h
  · obtain ⟨v, hv, hif⟩ := Option.bind_eq_some_iff.mp h
    split at hif
    · exact ⟨v, hv, (Option.some.inj hif).symm⟩
    · cases hif
  · cases h

/-- The page that a program reaches is a frame. -/
theorem userWalk_page (h : userWalk mem d flags va = some a) :
    ∃ v, pteAt mem d (va / 0x1000) = some v ∧ pteAddress v = a / 0x1000 * 0x1000
      ∧ a % 0x1000 = va % 0x1000 := by
  obtain ⟨v, hv, rfl⟩ := userWalk_eq_some h
  have hal := pteAddress_aligned v
  refine ⟨v, hv, ?_⟩
  generalize pteAddress v = p at hal ⊢
  omega

theorem userWalk_congr (hpde : pdeAt mem' d (va / 0x1000 / 1024) = pdeAt mem d (va / 0x1000 / 1024))
    (hpte : pteAt mem' d (va / 0x1000) = pteAt mem d (va / 0x1000)) :
    userWalk mem' d flags va = userWalk mem d flags va := by
  rw [userWalk_eq, userWalk_eq, hpde, hpte]

/-- The kernel's pages are not for programs. -/
theorem userWalk_kernel (hw : walk mem d va = kernelWalk image va) (hflags : flags.testBit 2) :
    userWalk mem d flags va = none := by
  have hbit : ∀ f < 4, ¬ f &&& flags = flags := by
    intro f hf h
    have htwo : (f &&& flags).testBit 2 = true := by rwa [h]
    rw [Nat.testBit_and, Nat.testBit_lt_two_pow (by omega : f < 2 ^ 2), Bool.false_and] at htwo
    cases htwo
  rw [userWalk, hw, kernelWalk]
  split
  · split
    · rw [Option.bind_some]
      refine if_neg (hbit _ ?_)
      split <;> decide
    · rfl
  · rfl

end Walk

/-! ## What stays as it is -/

section Keep

variable {m m' : Machine} {mem mem' : Bytes} {info info' : Memory32Info} {d : Nat}

/-- The directory and its tables. -/
def DirPage (mem : Bytes) (d p : Nat) : Prop :=
  p = d ∨ ∃ i < 1024, present (pdeAt mem d i) ∧ tableAt mem d i = p

theorem DirOk.keep (hd : DirOk mem info d) (hpde : ∀ i < 1024, pdeAt mem' d i = pdeAt mem d i)
    (hused : ∀ p, DirPage mem d p → ¬ info'.Free p) : DirOk mem' info' d := by
  have htable : ∀ i < 1024, present (pdeAt mem' d i) →
      present (pdeAt mem d i) ∧ tableAt mem' d i = tableAt mem d i := by
    intro i hi hp
    have hsame := hpde i hi
    exact ⟨by rwa [← hsame], by rw [tableAt, hsame, ← tableAt]⟩
  constructor
  case ne_zero => exact hd.ne_zero
  case aligned => exact hd.aligned
  case used => exact hused d (Or.inl rfl)
  case table_used =>
    intro i hi hp
    obtain ⟨hp', he⟩ := htable i hi hp
    rw [he]
    exact hused _ (Or.inr ⟨i, hi, hp', rfl⟩)
  case table_ne =>
    intro i hi hp
    obtain ⟨hp', he⟩ := htable i hi hp
    rw [he]
    exact hd.table_ne i hi hp'
  case table_inj =>
    intro i hi j hj hp hp' he
    obtain ⟨hpi, hei⟩ := htable i hi hp
    obtain ⟨hpj, hej⟩ := htable j hj hp'
    exact hd.table_inj i hi j hj hpi hpj (by rw [← hei, ← hej, he])

/-- A space of which no page was written and no page was freed. -/
theorem SpaceOk.keep (hs : SpaceOk m d) (hinfo : m'.info.Ok)
    (hstart : m'.info.start = m.info.start)
    (hbits : m'.info.bitmap.bitSize = m.info.bitmap.bitSize)
    (hpde : ∀ i < 1024, pdeAt m'.mem d i = pdeAt m.mem d i)
    (hpte : ∀ n, UserPage n → pteAt m'.mem d n = pteAt m.mem d n)
    (hdir : ∀ p, DirPage m.mem d p → ¬ m'.info.Free p)
    (hused : ∀ p, Owned m.mem d p → ¬ m'.info.Free p) : SpaceOk m' d := by
  have hpte' : ∀ n v, UserPage n → pteAt m'.mem d n = some v → pteAt m.mem d n = some v :=
    fun n v hn hv => (hpte n hn).symm.trans hv
  have hsame : SpaceOk { m with mem := m'.mem } d := hs.congr rfl hpde hpte'
  constructor
  case info => exact hinfo
  case dir => exact hs.dir.keep hpde hdir
  case owned =>
    intro p ho
    have hold := ho.congr hpde hpte'
    exact ⟨(hs.owned p hold).1.congr hstart hbits, hused p hold⟩
  case frame_ne_dir => exact hsame.frame_ne_dir
  case frame_ne_table => exact hsame.frame_ne_table
  case frame_inj => exact hsame.frame_inj

/-- The entries of a directory of which no page was written. -/
theorem pdeAt_keep (hd : DirOk mem info d)
    (hmem : ∀ b, DirPage mem d (b / 0x1000 * 0x1000) → mem' b = mem b) {i : Nat} (hi : i < 1024) :
    pdeAt mem' d i = pdeAt mem d i :=
  pdeAt_congr hd.aligned hi fun b hb => hmem b (Or.inl hb)

theorem pteAt_keep (hd : DirOk mem info d)
    (hmem : ∀ b, DirPage mem d (b / 0x1000 * 0x1000) → mem' b = mem b) {n : Nat}
    (hn : n < 0x100000) : pteAt mem' d n = pteAt mem d n :=
  pteAt_congr hd.aligned hn (fun b hb => hmem b (Or.inl hb)) fun hp b hb =>
    hmem b (Or.inr ⟨n / 1024, by omega, hp, hb.symm⟩)

end Keep

/-! ## The invariant -/

namespace Spaces

/-- What holds between two calls. -/
structure Isolated (image : KernelImage) (s : Spaces) : Prop where
  info : s.machine.info.Ok
  limit : s.machine.info.page s.machine.info.bitmap.bitSize ≤ pmExtLimit
  kernel : DirOk s.machine.mem s.machine.info s.machine.kernelPde
  tables : TablesNeZero s.machine.mem s.machine.kernelPde
  map : ∀ va < vmTaskBase, walk s.machine.mem s.machine.kernelPde va = kernelWalk image va
  space : ∀ d ∈ s.dirs, SpaceOk s.machine d
  half : ∀ d ∈ s.dirs, ∀ i < 256,
    pdeAt s.machine.mem d i = pdeAt s.machine.mem s.machine.kernelPde i
  held : ∀ p ∈ s.pages, s.machine.info.InRange p
  owners : Partition s.free s.Owns

/-- A call for the owner `o`. -/
structure Moves (s s' : Spaces) (o : Owner) : Prop where
  info : s'.machine.info.Ok
  start : s'.machine.info.start = s.machine.info.start
  bitSize : s'.machine.info.bitmap.bitSize = s.machine.info.bitmap.bitSize
  kernelPde : s'.machine.kernelPde = s.machine.kernelPde
  dirs : ∀ d, o ≠ .space d → (d ∈ s'.dirs ↔ d ∈ s.dirs)
  pages : o ≠ .held → s'.pages = s.pages
  /-- Only what is free or its own is written. -/
  mem : ∀ b, b / 0x1000 * 0x1000 ∉ s.free → b / 0x1000 * 0x1000 ∉ s.Owns o →
    s'.machine.mem b = s.machine.mem b
  taken : ∀ p ∈ s'.Owns o, p ∈ s.Owns o ∨ p ∈ s.free
  kept : ∀ p ∈ s'.Owns o, p ∉ s'.free
  freed : ∀ p ∈ s'.free, p ∈ s.free ∨ ∀ o', o' ≠ o → p ∉ s.Owns o'
  ownSpace : ∀ d ∈ s'.dirs, o = .space d → SpaceOk s'.machine d
    ∧ ∀ i < 256, pdeAt s'.machine.mem d i = pdeAt s.machine.mem s.machine.kernelPde i
  ownKernel : o = .kernel → DirOk s'.machine.mem s'.machine.info s.machine.kernelPde
    ∧ TablesNeZero s'.machine.mem s.machine.kernelPde
    ∧ (∀ i < 256, pdeAt s'.machine.mem s.machine.kernelPde i
      = pdeAt s.machine.mem s.machine.kernelPde i)
    ∧ ∀ va < vmTaskBase, walk s'.machine.mem s.machine.kernelPde va
      = walk s.machine.mem s.machine.kernelPde va
  ownHeld : o = .held → ∀ p ∈ s'.pages, s.machine.info.InRange p

section Moves

variable {image : KernelImage} {s s' : Spaces} {o : Owner} {d : Nat}

/-- A table of a task's directory is one of its own or one of the kernel's. -/
theorem Isolated.dirPage (h : s.Isolated image) (hd : d ∈ s.dirs) {p : Nat}
    (hp : DirPage s.machine.mem d p) :
    p ∈ s.Owns (.space d) ∨ ∃ i < 256, present (pdeAt s.machine.mem s.machine.kernelPde i)
      ∧ tableAt s.machine.mem s.machine.kernelPde i = p := by
  rcases hp with rfl | ⟨i, hi, hpres, rfl⟩
  · exact Or.inl ⟨hd, .dir⟩
  · by_cases hlow : i < 256
    · have hhalf := h.half d hd i hlow
      exact Or.inr ⟨i, hlow, hhalf ▸ hpres, by rw [tableAt, tableAt, hhalf]⟩
    · exact Or.inl ⟨hd, .table i (by omega) hi hpres⟩

variable (h : s.Isolated image) (hm : s.Moves s' o)
include h hm

theorem Moves.mem_other {o' : Owner} (hne : o' ≠ o) {b : Nat}
    (hb : b / 0x1000 * 0x1000 ∈ s.Owns o') : s'.machine.mem b = s.machine.mem b := by
  obtain ⟨hfree, hown⟩ := h.owners.outside hne hb
  exact hm.mem b hfree hown

theorem Moves.kernel_same (hne : o ≠ .kernel) :
    (∀ i < 1024, pdeAt s'.machine.mem s.machine.kernelPde i
      = pdeAt s.machine.mem s.machine.kernelPde i)
    ∧ ∀ n < 0x100000, pteAt s'.machine.mem s.machine.kernelPde n
      = pteAt s.machine.mem s.machine.kernelPde n := by
  have hmem : ∀ b, DirPage s.machine.mem s.machine.kernelPde (b / 0x1000 * 0x1000) →
      s'.machine.mem b = s.machine.mem b :=
    fun b hb => hm.mem_other h (Ne.symm hne) hb
  exact ⟨fun i hi => pdeAt_keep h.kernel hmem hi, fun n hn => pteAt_keep h.kernel hmem hn⟩

/-- The kernel's half of the tables, and the map behind it. -/
theorem Moves.half_same : (∀ i < 256, pdeAt s'.machine.mem s.machine.kernelPde i
      = pdeAt s.machine.mem s.machine.kernelPde i)
    ∧ ∀ va < vmTaskBase, walk s'.machine.mem s.machine.kernelPde va
      = walk s.machine.mem s.machine.kernelPde va := by
  by_cases hne : o = .kernel
  · obtain ⟨-, -, hpde, hwalk⟩ := hm.ownKernel hne
    exact ⟨hpde, hwalk⟩
  · obtain ⟨hpde, hpte⟩ := hm.kernel_same h hne
    refine ⟨fun i hi => hpde i (by omega), fun va hva => ?_⟩
    have hva' : va < 0x40000000 := hva
    rw [walk_eq, walk_eq, hpte _ (by omega)]

theorem Moves.space_same (hd : d ∈ s.dirs) (hne : o ≠ .space d) :
    (∀ i < 1024, pdeAt s'.machine.mem d i = pdeAt s.machine.mem d i)
    ∧ ∀ n, UserPage n → pteAt s'.machine.mem d n = pteAt s.machine.mem d n := by
  have hown : ∀ p, Owned s.machine.mem d p → p ∈ s.Owns (.space d) := fun p hp => ⟨hd, hp⟩
  have hal := (h.space d hd).dir.aligned
  have hdir : ∀ b, b / 0x1000 * 0x1000 = d → s'.machine.mem b = s.machine.mem b :=
    fun b hb => hm.mem_other h (Ne.symm hne) (hown _ (hb ▸ .dir))
  refine ⟨fun i hi => pdeAt_congr hal hi hdir, fun n hn => ?_⟩
  obtain ⟨hlo, hhi⟩ := hn
  refine pteAt_congr hal hhi hdir fun hp b hb => ?_
  exact hm.mem_other h (Ne.symm hne)
    (hown _ (hb ▸ .table (n / 1024) (by omega) (by omega) hp))

theorem Moves.stepOf : StepOf o s.free s.Owns s'.free s'.Owns where
  others := fun o' hne p hp => by
    cases o' with
    | kernel =>
        have hsame := (hm.kernel_same h (Ne.symm hne)).1
        rcases hp with rfl | ⟨i, hi, hpres, rfl⟩
        · exact Or.inl hm.kernelPde
        · rw [hm.kernelPde] at hpres ⊢
          rw [hsame i hi] at hpres
          exact Or.inr ⟨i, hi, hpres, by rw [tableAt, tableAt, hsame i hi]⟩
    | held =>
        have hpages := hm.pages (Ne.symm hne)
        have hp' : p ∈ s'.pages := hp
        rwa [hpages] at hp'
    | space d =>
        obtain ⟨hd', hown⟩ := hp
        have hd := (hm.dirs d (Ne.symm hne)).mp hd'
        obtain ⟨hpde, hpte⟩ := hm.space_same h hd (Ne.symm hne)
        exact ⟨hd, hown.congr hpde fun n v hn hv => (hpte n hn).symm.trans hv⟩
  taken := hm.taken
  kept := hm.kept
  freed := hm.freed

/-- A call keeps the invariant. -/
theorem Moves.isolated : s'.Isolated image := by
  have hstep := hm.stepOf h
  have howners := h.owners.step hstep
  obtain ⟨hhalf, hwalk⟩ := hm.half_same h
  have hkernelUsed : o ≠ .kernel → ∀ p, DirPage s.machine.mem s.machine.kernelPde p →
      ¬ s'.machine.info.Free p :=
    fun hne p hp => h.owners.other_used hstep (Ne.symm hne) hp
  constructor
  case info => exact hm.info
  case limit =>
    rw [Memory32Info.page, hm.start, hm.bitSize]
    exact h.limit
  case kernel =>
    rw [hm.kernelPde]
    by_cases hne : o = .kernel
    · exact (hm.ownKernel hne).1
    · exact h.kernel.keep (hm.kernel_same h hne).1 (hkernelUsed hne)
  case tables =>
    rw [hm.kernelPde]
    by_cases hne : o = .kernel
    · exact (hm.ownKernel hne).2.1
    · intro i hi hp
      have hsame := (hm.kernel_same h hne).1 i hi
      rw [tableAt, hsame, ← tableAt]
      exact h.tables i hi (hsame ▸ hp)
  case map =>
    intro va hva
    rw [hm.kernelPde, hwalk va hva]
    exact h.map va hva
  case space =>
    intro d hd'
    by_cases hne : o = .space d
    · exact (hm.ownSpace d hd' hne).1
    · have hd := (hm.dirs d hne).mp hd'
      obtain ⟨hpde, hpte⟩ := hm.space_same h hd hne
      have hused : ∀ p, p ∈ s.Owns (.space d) → ¬ s'.machine.info.Free p :=
        fun p hp => h.owners.other_used hstep (Ne.symm hne) hp
      refine (h.space d hd).keep hm.info hm.start hm.bitSize hpde hpte (fun p hp => ?_)
        fun p hp => hused p ⟨hd, hp⟩
      rcases h.dirPage hd hp with hown | ⟨i, hi, hpres, rfl⟩
      · exact hused p hown
      · by_cases hk : o = .kernel
        · -- the tables of the kernel's half are still its own
          have hsame := hhalf i hi
          refine hm.kept _ (hk ▸ Or.inr ⟨i, by omega, ?_, ?_⟩)
          · rw [hm.kernelPde, hsame]
            exact hpres
          · rw [hm.kernelPde, tableAt, tableAt, hsame]
        · exact hkernelUsed hk _ (Or.inr ⟨i, by omega, hpres, rfl⟩)
  case half =>
    intro d hd' i hi
    rw [hm.kernelPde, hhalf i hi]
    by_cases hne : o = .space d
    · exact (hm.ownSpace d hd' hne).2 i hi
    · have hd := (hm.dirs d hne).mp hd'
      rw [(hm.space_same h hd hne).1 i (by omega)]
      exact h.half d hd i hi
  case held =>
    intro p hp
    by_cases hne : o = .held
    · exact (hm.ownHeld hne p hp).congr hm.start hm.bitSize
    · rw [hm.pages hne] at hp
      exact (h.held p hp).congr hm.start hm.bitSize
  case owners => exact howners

end Moves

end Spaces

/-! ## The calls -/

section Calls

variable {image : KernelImage} {s : Spaces} {m' : Machine} {d n a v : Nat}

/-- A write to a user page of the task that runs. -/
theorem Running.confined_write (hr : Running s.machine d) (ha : UserAddr a)
    (hv : pteAt s.machine.mem d (a / 0x1000) = some v) (c : BitVec 8) :
    s.machine.write8 a c = some { s.machine with
      mem := s.machine.mem.store8 (pteAddress v + a % 0x1000) c }
    ∧ Confined s.machine { s.machine with
      mem := s.machine.mem.store8 (pteAddress v + a % 0x1000) c } d := by
  have hwrite : s.machine.write8 a c = some { s.machine with
      mem := s.machine.mem.store8 (pteAddress v + a % 0x1000) c } := by
    rw [Machine.write8, translate_mapped hr ha hv]
    rfl
  obtain ⟨m', heq, hsame, -⟩ := write8_flat hr ha (by rw [hv]; exact Option.some_ne_none v) c
  obtain rfl := Option.some.inj (hwrite.symm.trans heq)
  refine ⟨hwrite, ?_⟩
  constructor
  case space => exact (hr.same hsame).space
  case owned =>
    exact fun p hp => Or.inl (hp.congr hsame.pde fun k u hk hu => (hsame.pte k hk).symm.trans hu)
  case free => exact fun _ => id
  case mem =>
    intro b _ hown
    refine Bytes.store8_of_ne fun he => hown ?_
    have hpage : b / 0x1000 * 0x1000 = pteAddress v := by
      have hal := pteAddress_aligned v
      omega
    rw [hpage]
    exact .frame _ v ha.page hv
  case half => exact fun i hi => hsame.pde i (by omega)
  case start => rfl
  case bitSize => rfl
  case cr3 => rfl
  case kernelPde => rfl

theorem mapped_of_translate {m : Machine} (ha : UserAddr a) (h : m.translate a ≠ none) :
    ∃ v, pteAt m.mem m.cr3 (a / 0x1000) = some v := by
  have hlim : pmExtLimit ≤ a := Nat.le_trans (by decide) ha.1
  rw [Machine.translate, if_neg (Nat.not_lt.mpr hlim), walk_eq] at h
  cases hv : pteAt m.mem m.cr3 (a / 0x1000) with
  | none =>
      rw [hv] at h
      exact absurd rfl h
  | some v => exact ⟨v, rfl⟩

namespace Spaces

variable (h : s.Isolated image)
include h

/-- A change that is confined to the space of a task. -/
theorem Isolated.confined (hd : d ∈ s.dirs) (hc : Confined s.machine m' d) :
    Moves s { s with machine := m' } (.space d) where
  info := hc.space.info
  start := hc.start
  bitSize := hc.bitSize
  kernelPde := hc.kernelPde
  dirs := fun _ _ => Iff.rfl
  pages := fun _ => rfl
  mem := fun b hfree hown => hc.mem b hfree fun ho => hown ⟨hd, ho⟩
  taken := fun p ⟨_, hp⟩ => (hc.owned p hp).imp_left fun ho => ⟨hd, ho⟩
  kept := fun p ⟨_, hp⟩ => (hc.space.owned p hp).2
  freed := fun p hp => Or.inl (hc.free p hp)
  ownSpace := fun d' hd' he => by
    obtain rfl : d = d' := by injection he
    exact ⟨hc.space, fun i hi => (hc.half i hi).trans (h.half d hd i hi)⟩
  ownKernel := fun he => Owner.noConfusion he
  ownHeld := fun he => Owner.noConfusion he

/-- A new space in pages that were free. -/
theorem Isolated.apart (ha : Apart s.machine m' d) :
    Moves s { s with machine := m', dirs := d :: s.dirs } (.space d) ∧ d ∉ s.dirs := by
  have hnew : d ∉ s.dirs := fun hd =>
    ((h.space d hd).owned d .dir).2 (ha.fresh d .dir)
  refine ⟨?_, hnew⟩
  constructor
  case info => exact ha.space.info
  case start => exact ha.start
  case bitSize => exact ha.bitSize
  case kernelPde => exact ha.kernelPde
  case dirs =>
    intro d' hne
    refine ⟨fun hd => ?_, List.mem_cons_of_mem d⟩
    rcases List.mem_cons.mp hd with rfl | hd
    · exact absurd rfl hne
    · exact hd
  case pages => exact fun _ => rfl
  case mem => exact fun b hfree _ => ha.mem b hfree
  case taken => exact fun p ⟨_, hp⟩ => Or.inr (ha.fresh p hp)
  case kept => exact fun p ⟨_, hp⟩ => (ha.space.owned p hp).2
  case freed => exact fun p hp => Or.inl (ha.free p hp)
  case ownSpace =>
    intro d' _ he
    obtain rfl : d = d' := by injection he
    exact ⟨ha.space, ha.kernelHalf⟩
  case ownKernel => exact fun he => Owner.noConfusion he
  case ownHeld => exact fun he => Owner.noConfusion he

/-- Only `cr3` changes, or nothing. -/
theorem Isolated.idle (cr3 : Nat) :
    Moves s { s with machine := { s.machine with cr3 } } .held where
  info := h.info
  start := rfl
  bitSize := rfl
  kernelPde := rfl
  dirs := fun _ _ => Iff.rfl
  pages := fun _ => rfl
  mem := fun _ _ _ => rfl
  taken := fun _ => Or.inl
  kept := h.owners.used .held
  freed := fun _ => Or.inl
  ownSpace := fun _ _ he => Owner.noConfusion he
  ownKernel := fun he => Owner.noConfusion he
  ownHeld := fun _ => h.held

/-- `destroy_pde` frees the frames, and the page that the word behind the
directory names. -/
theorem Isolated.destroy {w : Nat} {info : Memory32Info} (hd : d ∈ s.dirs)
    (hw : ∀ o, o ≠ .space d → pdeAddress w ∉ s.Owns o)
    (hf : Freed s.machine.info info fun p => UserFrame s.machine.mem d p ∨ p = pdeAddress w) :
    Moves s { s with machine := { s.machine with info }, dirs := s.dirs.filter (· ≠ d) }
      (.space d) := by
  have hgone : d ∉ s.dirs.filter (· ≠ d) := fun hmem =>
    of_decide_eq_true (List.mem_filter.mp hmem).2 rfl
  constructor
  case info => exact hf.ok
  case start => exact hf.start
  case bitSize => exact hf.bitSize
  case kernelPde => rfl
  case dirs =>
    intro d' hne
    refine List.mem_filter.trans (and_iff_left (decide_eq_true ?_))
    rintro rfl
    exact hne rfl
  case pages => exact fun _ => rfl
  case mem => exact fun _ _ _ => rfl
  case taken => exact fun p ⟨hmem, _⟩ => absurd hmem hgone
  case kept => exact fun p ⟨hmem, _⟩ => absurd hmem hgone
  case freed =>
    rintro p ⟨i, hi, hbit, rfl⟩
    have hpage : info.page i = s.machine.info.page i := by
      rw [Memory32Info.page, Memory32Info.page, hf.start]
    have hi' : i < s.machine.info.bitmap.bitSize := hf.bitSize ▸ hi
    rw [hpage]
    by_cases hP : UserFrame s.machine.mem d (s.machine.info.page i)
        ∨ s.machine.info.page i = pdeAddress w
    · refine Or.inr fun o hne hown => ?_
      rcases hP with ⟨n, v, hn, hv, he⟩ | he
      · exact hne (h.owners.unique o _ _ hown ⟨hd, he ▸ .frame n v hn hv⟩)
      · exact hw o hne (he ▸ hown)
    · exact Or.inl ⟨i, hi', (hf.kept i fun hin => hP hin.2).symm.trans hbit, rfl⟩
  case ownSpace =>
    intro d' hmem he
    obtain rfl : d = d' := by injection he
    exact absurd hmem hgone
  case ownKernel => exact fun he => Owner.noConfusion he
  case ownHeld => exact fun he => Owner.noConfusion he

theorem Isolated.alloc {j : Nat} (hj : j < s.machine.info.bitmap.bitSize)
    (hfree : s.machine.info.Free (s.machine.info.page j)) :
    Moves s { s with
      machine := { s.machine with info := s.machine.info.setPage j true }
      pages := s.machine.info.page j :: s.pages } .held := by
  have hset := fun q => @Memory32Info.free_setPage s.machine.info q j hj
  constructor
  case info => exact h.info.setPage j true
  case start => rfl
  case bitSize => exact Memory32Info.setPage_bitSize true
  case kernelPde => rfl
  case dirs => exact fun _ _ => Iff.rfl
  case pages => exact fun hne => absurd rfl hne
  case mem => exact fun _ _ _ => rfl
  case taken =>
    intro p hp
    rcases List.mem_cons.mp hp with rfl | hp
    · exact Or.inr hfree
    · exact Or.inl hp
  case kept =>
    intro p hp hfree'
    obtain ⟨hold, hne⟩ := (hset p).mp hfree'
    rcases List.mem_cons.mp hp with rfl | hp
    · exact hne rfl
    · exact h.owners.used .held p hp hold
  case freed => exact fun p hp => Or.inl ((hset p).mp hp).1
  case ownSpace => exact fun _ _ he => Owner.noConfusion he
  case ownKernel => exact fun he => Owner.noConfusion he
  case ownHeld =>
    intro _ p hp
    rcases List.mem_cons.mp hp with rfl | hp
    · exact ⟨j, hj, rfl⟩
    · exact h.held p hp

/-- A page that was returned is given back. -/
theorem Isolated.giveBack {p cr3 : Nat} (hp : p ∈ s.pages) :
    ∃ m', freePage s.machine cr3 p = some m' ∧ m'.cr3 = s.machine.cr3
      ∧ Moves s { s with machine := m', pages := s.pages.filter (· ≠ p) } .held := by
  obtain ⟨i, hi, rfl⟩ := h.held p hp
  have hlow : s.machine.info.page i < vmShellBase := by
    have hlim := h.limit
    rw [pmExtLimit] at hlim
    rw [vmShellBase]
    simp only [Memory32Info.page] at hlim ⊢
    omega
  have hset := fun q => @Memory32Info.free_setPage_false s.machine.info q i hi
  refine ⟨{ s.machine with info := s.machine.info.setPage i false }, ?_, rfl, ?_⟩
  · rw [freePage, if_pos hlow, memory32FreePage_page h.info hi]
  · constructor
    case info => exact h.info.setPage i false
    case start => rfl
    case bitSize => exact Memory32Info.setPage_bitSize false
    case kernelPde => rfl
    case dirs => exact fun _ _ => Iff.rfl
    case pages => exact fun hne => absurd rfl hne
    case mem => exact fun _ _ _ => rfl
    case taken => exact fun q hq => Or.inl (List.mem_filter.mp hq).1
    case kept =>
      intro q hq hfree
      obtain ⟨hmem, hne⟩ := List.mem_filter.mp hq
      rcases (hset q).mp hfree with hold | rfl
      · exact h.owners.used .held q hmem hold
      · exact of_decide_eq_true hne rfl
    case freed =>
      intro q hq
      rcases (hset q).mp hq with hold | rfl
      · exact Or.inl hold
      · exact Or.inr fun o hne hown => hne (h.owners.unique o .held _ hown hp)
    case ownSpace => exact fun _ _ he => Owner.noConfusion he
    case ownKernel => exact fun he => Owner.noConfusion he
    case ownHeld => exact fun _ q hq => h.held q (List.mem_filter.mp hq).1

/-- `free_page` of a user address takes the page out of the map. -/
theorem Isolated.unmap (hd : s.machine.cr3 ∈ s.dirs) (hn : UserPage n)
    (hrun : freePage s.machine s.machine.cr3 (n * 0x1000) = some m') :
    Confined s.machine m' s.machine.cr3 := by
  have hs := h.space _ hd
  obtain ⟨hlo, hhi⟩ := id hn
  by_cases hlow : n * 0x1000 < vmShellBase
  case pos =>
    have hlim : s.machine.info.page s.machine.info.bitmap.bitSize ≤ 0x2000000 := h.limit
    rw [freePage, if_pos hlow, memory32FreePage_outside hs.info (by omega) (Or.inr (by omega))]
      at hrun
    obtain rfl := Option.some.inj hrun
    exact .refl hs
  case neg =>
    obtain ⟨hp, rfl⟩ := freePage_high hs hn (Nat.le_of_not_lt hlow) hrun
    have hpde : ∀ i < 1024, pdeAt (s.machine.mem.store32
        (tableAt s.machine.mem s.machine.cr3 (n / 1024) + 4 * (n % 1024)) 0) s.machine.cr3 i
        = pdeAt s.machine.mem s.machine.cr3 i := fun i hi =>
      pdeAt_writePte hs.dir (by omega) hp (Nat.mod_lt _ (by decide)) hi
    constructor
    case space => exact hs.clear hn hp
    case owned =>
      refine fun p ho => Or.inl (ho.congr hpde fun k v hk hv => ?_)
      rw [pteAt_clear hs hn hp hk.2] at hv
      split at hv
      · cases hv
      · exact hv
    case free => exact fun _ => id
    case mem =>
      intro b _ hown
      have hal := tableAt_aligned s.machine.mem s.machine.cr3 (n / 1024)
      have hne : b / 0x1000 * 0x1000 ≠ tableAt s.machine.mem s.machine.cr3 (n / 1024) :=
        fun he => hown (he ▸ .table (n / 1024) (by omega) (by omega) hp)
      exact Bytes.store32_outside (by omega)
    case half => exact fun i hi => hpde i (by omega)
    case start => rfl
    case bitSize => rfl
    case cr3 => rfl
    case kernelPde => rfl

/-- `map_area` maps a device for the kernel. -/
theorem Isolated.mapArea {paddr size : Nat} (hbase : vmTaskBase ≤ paddr) (hlt : paddr < 2 ^ 32)
    (haligned : paddr % 0x1000 = 0) (hlim : paddr + roundUpPage size 0x1000 * 0x1000 ≤ 2 ^ 32) :
    Moves s { s with machine := (Csos.mapArea s.machine paddr size).1 } .kernel
      ∧ (Csos.mapArea s.machine paddr size).1.cr3 = s.machine.cr3 := by
  have hbase' : 0x40000000 ≤ paddr := hbase
  obtain ⟨k, hk, ha, -⟩ := @createMap_run s.machine s.machine.kernelPde paddr paddr 3
    (roundUpPage size 0x1000) h.info h.kernel h.tables hlim haligned hlt (by decide)
  rw [← Csos.mapArea] at ha
  generalize (Csos.mapArea s.machine paddr size).1 = m' at ha ⊢
  have htable : ∀ i < 1024, present (pdeAt m'.mem s.machine.kernelPde i) →
      tableAt m'.mem s.machine.kernelPde i ∈ s.Owns .kernel
        ∨ tableAt m'.mem s.machine.kernelPde i ∈ s.free := by
    intro i hi hp
    rcases ha.table_new i hi hp with hold | ⟨hfree, -⟩
    · exact Or.inl (Or.inr ⟨i, hi, hold, (ha.table_eq hi hold).2.symm⟩)
    · exact Or.inr hfree
  refine ⟨?_, ha.cr3⟩
  constructor
  case info => exact ha.info
  case start => exact ha.start
  case bitSize => exact ha.bitSize
  case kernelPde => exact ha.kernelPde
  case dirs => exact fun _ _ => Iff.rfl
  case pages => exact fun _ => rfl
  case mem =>
    intro b hfree hown
    refine ha.mem b (fun he => hown (Or.inl he)) fun i hi hp he => ?_
    rcases htable i hi hp with hin | hin
    · exact hown (he ▸ hin)
    · exact hfree (he ▸ hin)
  case taken =>
    rintro p (rfl | ⟨i, hi, hp, rfl⟩)
    · exact Or.inl (Or.inl ha.kernelPde)
    · rw [ha.kernelPde] at hp ⊢
      exact htable i hi hp
  case kept =>
    rintro p (rfl | ⟨i, hi, hp, rfl⟩)
    · exact ha.kernelPde ▸ ha.dir.used
    · rw [ha.kernelPde] at hp ⊢
      exact ha.dir.table_used i hi hp
  case freed => exact fun p hp => Or.inl ((ha.free p).mp hp).1
  case ownSpace => exact fun _ _ he => Owner.noConfusion he
  case ownKernel =>
    refine fun _ => ⟨ha.dir, ha.tables, fun i hi => ?_, fun va hva => ?_⟩
    · refine ha.table_other i (by omega) fun n hn he => ?_
      have hn' : paddr / 0x1000 ≤ n := hn.1
      omega
    · have hva' : va < 0x40000000 := hva
      rw [walk_eq, walk_eq, ha.outside _ (by omega) fun hn => ?_]
      have hn' : paddr / 0x1000 ≤ va / 0x1000 := hn.1
      omega
  case ownHeld => exact fun he => Owner.noConfusion he

/-- The kernel's half of a task's map is the kernel's. -/
theorem Isolated.walk_low (hd : d ∈ s.dirs) {va : Nat} (hva : va < vmTaskBase) :
    walk s.machine.mem d va = kernelWalk image va := by
  have hva' : va < 0x40000000 := hva
  have hhalf := h.half d hd (va / 0x1000 / 1024) (by omega)
  rw [← h.map va hva, walk_eq, walk_eq, pteAt, pteAt, tableAt, tableAt, hhalf]

/-- A program reaches user addresses only. -/
theorem Isolated.user_of_walk {flags va : Nat} (hd : d ∈ s.dirs) (hva : va < 2 ^ 32)
    (hflags : flags.testBit 2) (hw : userWalk s.machine.mem d flags va = some a) :
    UserAddr va := by
  refine ⟨Nat.le_of_not_lt fun hlow => ?_, hva⟩
  rw [userWalk_kernel (h.walk_low hd hlow) hflags] at hw
  cases hw

/-- A write of the task that runs reaches its own memory. -/
theorem Isolated.written (hd : s.machine.cr3 ∈ s.dirs) (ha : UserAddr a)
    (hv : pteAt s.machine.mem s.machine.cr3 (a / 0x1000) = some v) (c : BitVec 8) :
    s.machine.write8 a c = some { s.machine with
      mem := s.machine.mem.store8 (pteAddress v + a % 0x1000) c }
    ∧ Moves s { s with machine := { s.machine with
      mem := s.machine.mem.store8 (pteAddress v + a % 0x1000) c } } (.space s.machine.cr3) := by
  have hr : Running s.machine s.machine.cr3 := ⟨h.space _ hd, rfl⟩
  obtain ⟨hwrite, hc⟩ := hr.confined_write ha hv c
  exact ⟨hwrite, h.confined hd hc⟩

theorem Isolated.write8_step {va : Nat} {c : BitVec 8} (hf : s.Fits (.write8 va c)) :
    ∃ v, UserAddr va ∧ pteAt s.machine.mem s.machine.cr3 (va / 0x1000) = some v
      ∧ s.step (.write8 va c) = some { s with machine := { s.machine with
        mem := s.machine.mem.store8 (pteAddress v + va % 0x1000) c } } := by
  obtain ⟨hd, ha, hne⟩ := hf
  obtain ⟨v, hv⟩ := mapped_of_translate ha hne
  exact ⟨v, ha, hv, by simp only [step, (h.written hd ha hv c).1, Option.map_some]⟩

theorem Isolated.store_step {va : Nat} {c : BitVec 8} (hf : s.Fits (.store va c)) :
    ∃ v, UserAddr va ∧ pteAt s.machine.mem s.machine.cr3 (va / 0x1000) = some v
      ∧ s.step (.store va c) = some { s with machine := { s.machine with
        mem := s.machine.mem.store8 (pteAddress v + va % 0x1000) c } } := by
  obtain ⟨hd, hlt, hne⟩ := hf
  obtain ⟨a, ha⟩ := Option.ne_none_iff_exists'.mp hne
  have huser : UserAddr va := h.user_of_walk hd hlt rfl ha
  obtain ⟨v, hv, rfl⟩ := userWalk_eq_some ha
  exact ⟨v, huser, hv, by simp only [step, ha, Option.map_some]⟩

/-- Each call is for one owner, and comes back. -/
theorem Isolated.call {c : SpaceCall} (hf : s.Fits c) :
    ∃ s' o, s.step c = some s' ∧ Moves s s' o ∧ s'.machine.cr3 = c.active s.machine.cr3
      ∧ ∀ d ∈ s.dirs, o = .space d → s.Concerns d c := by
  cases c with
  | createPde =>
      rcases createPde_created h.info h.kernel with ⟨hzero, -⟩ | ⟨m', d, heq, hne, hc⟩
      · exact ⟨s, .held, by simp only [step, hzero, if_true], h.idle s.machine.cr3, rfl,
          fun _ _ he => Owner.noConfusion he⟩
      · obtain ⟨hm, hnew⟩ := h.apart (hc.apart h.info h.kernel)
        refine ⟨_, _, by simp only [step, heq, if_neg hne], hm, hc.cr3, fun d' hd' he => ?_⟩
        obtain rfl : d = d' := by injection he
        exact absurd hd' hnew
  | allocTaskPages d index size perm =>
      obtain ⟨hd, hbase, hlim, hperm⟩ := hf
      have hmod := PageCall.ceilPage_mod size
      have hc := @allocTaskPagesLoop_confined s.machine d perm index (ceilPage size / 0x1000)
        (h.space d hd) hbase (by omega) hperm
      refine ⟨_, _, rfl, h.confined hd hc, hc.cr3, fun d' _ he => ?_⟩
      injection he
  | copyPage =>
      obtain ⟨hd, hfree⟩ := hf
      have hs := h.space _ hd
      have hp : Forkable s.machine s.machine.cr3 :=
        ⟨h.info, h.limit, h.kernel, rfl, hs.dir.aligned, fun p ho => (hs.owned p ho).2⟩
      rcases copyPage_forking hp with ⟨m', d, heq, hf⟩ | ⟨hfew, -⟩
      · obtain ⟨hm, hnew⟩ := h.apart hf.apart
        refine ⟨_, _, ?_, hm, hf.apart.cr3, fun d' hd' he => ?_⟩
        · simp only [step, heq, Option.map_some, Int.toNat_natCast,
            if_neg (Int.not_lt.mpr (Int.natCast_nonneg d))]
        · obtain rfl : d = d' := by injection he
          exact absurd hd' hnew
      · exact absurd hfree (Nat.not_le.mpr hfew)
  | destroyPde d =>
      obtain ⟨hd, w, hread, hw⟩ := hf
      rcases @destroyPde_freed s.machine d h.info with ⟨-, hnone⟩ | ⟨w', info, hread', heq, hf⟩
      · rw [hnone] at hread
        cases hread
      · obtain rfl := Option.some.inj (hread.symm.trans hread')
        refine ⟨_, _, by simp only [step, heq, Option.map_some], h.destroy hd hw hf, rfl,
          fun d' _ he => ?_⟩
        injection he
  | allocPage =>
      rcases memory32AllocPage_one h.info with ⟨heq, -⟩ | ⟨j, hj, hfree, heq⟩
      · exact ⟨s, .held, by simp only [step, Machine.allocPage, heq, if_true],
          h.idle s.machine.cr3, rfl, fun _ _ he => Owner.noConfusion he⟩
      · refine ⟨_, _, ?_, h.alloc hj hfree, rfl, fun _ _ he => Owner.noConfusion he⟩
        simp only [step, Machine.allocPage, heq, if_neg (hfree.pos h.info).ne']
  | freePage p =>
      obtain ⟨m', heq, hcr3, hm⟩ := @giveBack image s h p s.machine.cr3 hf
      exact ⟨_, _, by simp only [step, heq, Option.map_some], hm, hcr3,
        fun _ _ he => Owner.noConfusion he⟩
  | freeUser n =>
      obtain ⟨hd, hn, hne⟩ := hf
      obtain ⟨m', heq⟩ := Option.ne_none_iff_exists'.mp hne
      have hc := h.unmap hd hn heq
      refine ⟨_, _, by simp only [step, heq, Option.map_some], h.confined hd hc, hc.cr3,
        fun d' _ he => ?_⟩
      injection he
  | mapArea paddr size =>
      obtain ⟨hbase, hlt, haligned, hlim⟩ := hf
      obtain ⟨hm, hcr3⟩ := h.mapArea hbase hlt haligned hlim
      exact ⟨_, _, rfl, hm, hcr3, fun _ _ he => Owner.noConfusion he⟩
  | setPde d => exact ⟨_, _, rfl, h.idle d, rfl, fun _ _ he => Owner.noConfusion he⟩
  | write8 va c =>
      obtain ⟨v, ha, hv, hstep⟩ := h.write8_step hf
      refine ⟨_, _, hstep, (h.written hf.1 ha hv c).2, rfl, fun d' _ he => ?_⟩
      injection he
  | store va c =>
      obtain ⟨v, ha, hv, hstep⟩ := h.store_step hf
      refine ⟨_, _, hstep, (h.written hf.1 ha hv c).2, rfl, fun d' _ he => ?_⟩
      injection he

theorem Isolated.step {c : SpaceCall} (hf : s.Fits c) :
    ∃ s', s.step c = some s' ∧ s'.Isolated image := by
  obtain ⟨s', o, hstep, hm, -⟩ := h.call hf
  exact ⟨s', hstep, hm.isolated h⟩

end Spaces

end Calls

/-! ## What the programs reach -/

namespace Spaces

/-- The programs and the kernel are safe from each other. -/
structure IsolationLaw (image : KernelImage) (s : Spaces) : Prop where
  /-- What a program reaches is memory of the allocator that is in use. -/
  frame : ∀ d ∈ s.dirs, ∀ va < 2 ^ 32, ∀ a, userWalk s.machine.mem d userRead va = some a →
    vmTaskBase ≤ va ∧ s.machine.info.InRange (a / 0x1000 * 0x1000)
      ∧ ¬ s.machine.info.Free (a / 0x1000 * 0x1000)
  /-- No byte is reached by two programs, nor by one at two addresses. -/
  apart : ∀ d ∈ s.dirs, ∀ d' ∈ s.dirs, ∀ va < 2 ^ 32, ∀ va' < 2 ^ 32, ∀ a,
    userWalk s.machine.mem d userRead va = some a →
    userWalk s.machine.mem d' userRead va' = some a → d = d' ∧ va = va'
  /-- No program reaches a page of the kernel, a directory or a table. -/
  guarded : ∀ d ∈ s.dirs, ∀ va < 2 ^ 32, ∀ a, userWalk s.machine.mem d userRead va = some a →
    a / 0x1000 * 0x1000 ∉ s.pages
      ∧ ¬ DirPage s.machine.mem s.machine.kernelPde (a / 0x1000 * 0x1000)
      ∧ ∀ d' ∈ s.dirs, ¬ DirPage s.machine.mem d' (a / 0x1000 * 0x1000)
  /-- The kernel finds itself in every map. -/
  kernel : ∀ d ∈ s.dirs, ∀ va < vmTaskBase, walk s.machine.mem d va = kernelWalk image va

section Law

variable {image : KernelImage} {s s' : Spaces} {o : Owner} {d flags va a v : Nat}
variable (h : s.Isolated image)
include h

/-- The page behind an address of a program is a frame of its space. -/
theorem Isolated.reached (hd : d ∈ s.dirs) (hlt : va < 2 ^ 32)
    (hw : userWalk s.machine.mem d userRead va = some a) :
    UserAddr va ∧ a % 0x1000 = va % 0x1000
      ∧ ∃ v, pteAt s.machine.mem d (va / 0x1000) = some v ∧ pteAddress v = a / 0x1000 * 0x1000
        ∧ a / 0x1000 * 0x1000 ∈ s.Owns (.space d) := by
  have huser := h.user_of_walk hd hlt rfl hw
  obtain ⟨v, hv, hpage, hoff⟩ := userWalk_page hw
  exact ⟨huser, hoff, v, hv, hpage, hd, hpage ▸ .frame _ v huser.page hv⟩

theorem Isolated.law : IsolationLaw image s where
  frame := by
    intro d hd va hlt a hw
    obtain ⟨huser, -, v, -, -, -, hown⟩ := h.reached hd hlt hw
    exact ⟨huser.1, (h.space d hd).owned _ hown⟩
  apart := by
    intro d hd d' hd' va hlt va' hlt' a hw hw'
    obtain ⟨huser, hoff, v, hv, hpage, hown⟩ := h.reached hd hlt hw
    obtain ⟨huser', hoff', v', hv', hpage', hown'⟩ := h.reached hd' hlt' hw'
    have he := h.owners.unique _ _ _ hown hown'
    obtain rfl : d = d' := by injection he
    have hn := (h.space d hd).frame_inj _ _ v v' huser.page huser'.page hv hv'
      (hpage.trans hpage'.symm)
    exact ⟨rfl, by omega⟩
  guarded := by
    intro d hd va hlt a hw
    obtain ⟨huser, -, v, hv, hpage, hown⟩ := h.reached hd hlt hw
    have hother : ∀ o, o ≠ .space d → a / 0x1000 * 0x1000 ∉ s.Owns o :=
      fun o hne => (h.owners.outside (Ne.symm hne) hown).2
    have hkernel := hother .kernel fun he => Owner.noConfusion he
    refine ⟨hother .held fun he => Owner.noConfusion he, hkernel, fun d' hd' hdir => ?_⟩
    by_cases hne : d' = d
    · subst hne
      rw [← hpage] at hdir
      rcases hdir with he | ⟨i, hi, hp, he⟩
      · exact (h.space d' hd).frame_ne_dir _ v huser.page hv he
      · exact (h.space d' hd).frame_ne_table _ v i huser.page hv hi hp he.symm
    · rcases h.dirPage hd' hdir with hin | ⟨i, hi, hp, he⟩
      · exact hother (.space d') (fun he => hne (by injection he)) hin
      · exact hkernel (Or.inr ⟨i, by omega, hp, he⟩)
  kernel := fun d hd va hva => h.walk_low hd hva

/-! ## What a program finds -/

/-- A call for somebody else does not show. -/
theorem Moves.view (hm : s.Moves s' o) (hd : d ∈ s.dirs) (hne : o ≠ .space d) :
    s'.view d = s.view d := by
  have hd' : d ∈ s'.dirs := (hm.dirs d hne).mpr hd
  obtain ⟨hpde, hpte⟩ := hm.space_same h hd hne
  funext va
  unfold Spaces.view
  by_cases hlt : va < 2 ^ 32
  case neg => rw [if_neg hlt, if_neg hlt]
  rw [if_pos hlt, if_pos hlt]
  by_cases hlow : va < vmTaskBase
  case pos =>
    rw [userWalk_kernel ((hm.isolated h).walk_low hd' hlow) rfl,
      userWalk_kernel (h.walk_low hd hlow) rfl]
    rfl
  have huser : UserAddr va := ⟨Nat.le_of_not_lt hlow, hlt⟩
  have hn := huser.page
  rw [userWalk_congr (hpde _ (by have := hn.2; omega)) (hpte _ hn)]
  refine Option.map_congr fun a ha => ?_
  obtain ⟨-, -, v, -, -, hown⟩ := h.reached hd hlt ha
  exact hm.mem_other h (Ne.symm hne) hown

/-- The byte is found where it was written, and nowhere else. -/
theorem Isolated.view_written (hd : s.machine.cr3 ∈ s.dirs) (ha : UserAddr va)
    (hv : pteAt s.machine.mem s.machine.cr3 (va / 0x1000) = some v) (c : BitVec 8) :
    Spaces.view { s with machine := { s.machine with
      mem := s.machine.mem.store8 (pteAddress v + va % 0x1000) c } } s.machine.cr3
      = fun b => if b = va then (s.view s.machine.cr3 b).map fun _ => c
        else s.view s.machine.cr3 b := by
  have hm := (h.written hd ha hv c).2
  have hr : Running s.machine s.machine.cr3 := ⟨h.space _ hd, rfl⟩
  obtain ⟨m', heq, hsame, -⟩ := write8_flat hr ha (by rw [hv]; exact Option.some_ne_none v) c
  obtain rfl := Option.some.inj ((h.written hd ha hv c).1.symm.trans heq)
  funext b
  unfold Spaces.view
  by_cases hlt : b < 2 ^ 32
  case neg =>
    rw [if_neg hlt, if_neg hlt]
    split <;> rfl
  rw [if_pos hlt, if_pos hlt]
  by_cases hlow : b < vmTaskBase
  case pos =>
    rw [userWalk_kernel ((hm.isolated h).walk_low hd hlow) rfl,
      userWalk_kernel (h.walk_low hd hlow) rfl]
    split <;> rfl
  have huser : UserAddr b := ⟨Nat.le_of_not_lt hlow, hlt⟩
  have hn := huser.page
  rw [userWalk_congr (hsame.pde _ (by have := hn.2; omega)) (hsame.pte _ hn)]
  cases hw : userWalk s.machine.mem s.machine.cr3 userRead b with
  | none => split <;> rfl
  | some x =>
      obtain ⟨-, hoff, u, hu, hpage, -⟩ := h.reached hd hlt hw
      simp only [Option.map_some]
      split
      case isTrue he =>
        obtain rfl := he
        obtain rfl := Option.some.inj (hv.symm.trans hu)
        have hx : x = pteAddress v + b % 0x1000 := by omega
        rw [hx, Bytes.store8_self]
      case isFalse hne =>
        rw [Bytes.store8_of_ne fun hx => hne ?_]
        have hal := pteAddress_aligned v
        have hbn := (h.space _ hd).frame_inj _ _ u v hn ha.page hu hv (by omega)
        omega

/-- As long as nobody changes the map of a task, a call does to its memory
what it would do if the task were alone. -/
theorem Isolated.view_call {c : SpaceCall} (hf : s.Fits c) (hd : d ∈ s.dirs)
    (hc : s.Concerns d c → c.Access) :
    ∃ s', s.step c = some s' ∧ s'.Isolated image ∧ d ∈ s'.dirs
      ∧ (s'.machine.cr3, s'.view d) = privateStep d (s.machine.cr3, s.view d) c := by
  by_cases hcon : s.Concerns d c
  case neg =>
    obtain ⟨s', o, hstep, hm, hcr3, howner⟩ := h.call hf
    have hne : o ≠ .space d := fun he => hcon (howner d hd he)
    have hsame : (privateStep d (s.machine.cr3, s.view d) c).2 = s.view d := by
      cases c with
      | write8 va v => exact if_neg hcon
      | store va v => exact if_neg hcon
      | _ => rfl
    refine ⟨s', hstep, hm.isolated h, (hm.dirs d hne).mpr hd, Prod.ext hcr3 ?_⟩
    exact (hm.view h hd hne).trans hsame.symm
  case pos =>
    cases c with
    | write8 va c =>
        obtain rfl : s.machine.cr3 = d := hcon
        obtain ⟨v, ha, hv, hstep⟩ := h.write8_step hf
        refine ⟨_, hstep, (h.written hd ha hv c).2.isolated h, hd, ?_⟩
        rw [h.view_written hd ha hv c, privateStep, if_pos rfl]
        rfl
    | store va c =>
        obtain rfl : s.machine.cr3 = d := hcon
        obtain ⟨v, ha, hv, hstep⟩ := h.store_step hf
        refine ⟨_, hstep, (h.written hd ha hv c).2.isolated h, hd, ?_⟩
        rw [h.view_written hd ha hv c, privateStep, if_pos rfl]
        rfl
    | _ => exact (hc hcon).elim

end Law

/-! ## From the start of the kernel -/

/-- After `memory_init` there are no tasks. -/
def boot (image : KernelImage) (bits : Nat → BitVec 8) (m : Machine) (raws : List MemoryRaw) :
    Spaces :=
  ⟨memoryInit image bits m raws, [], []⟩

/-- The pages of the allocator end with the kernel's map. -/
theorem bootInfo_limit (bits : Nat → BitVec 8) {raws : List MemoryRaw}
    (hlim : floorPage (totalSize raws) ≤ pmExtLimit) :
    (bootInfo bits raws).page (bootInfo bits raws).bitmap.bitSize ≤ pmExtLimit := by
  have hstart : (bootInfo bits raws).start = 0x100000 := rfl
  have hsize : (bootInfo bits raws).bitmap.bitSize
      = (floorPage (totalSize raws) - 0x100000) / 0x1000 := rfl
  rw [Memory32Info.page, hstart, hsize]
  rw [pmExtLimit] at hlim ⊢
  omega

section Boot

variable {image : KernelImage} {bits : Nat → BitVec 8} {m : Machine} {raws : List MemoryRaw}
variable (hpde : m.kernelPde = image.kernelPde)
  (hbss : ∀ i < 1024, pdeAt m.mem image.kernelPde i = 0)
  (hsize : 0x108000 ≤ totalSize raws) (hlim : floorPage (totalSize raws) ≤ pmExtLimit)
include hpde hbss hsize hlim

theorem boot_isolated : (boot image bits m raws).Isolated image := by
  obtain ⟨m₁, heq, ha, hlow, hwalk⟩ := memoryInit_area bits hpde hbss hsize
  rw [boot, heq]
  have hkernel : m₁.kernelPde = m.kernelPde := ha.kernelPde
  constructor
  case info => exact ha.info
  case limit =>
    have hpage : m₁.info.page m₁.info.bitmap.bitSize
        = (bootInfo bits raws).page (bootInfo bits raws).bitmap.bitSize := by
      rw [Memory32Info.page, Memory32Info.page, ha.start, ha.bitSize]
    exact hpage ▸ bootInfo_limit bits hlim
  case kernel => exact hkernel ▸ ha.dir
  case tables => exact hkernel ▸ ha.tables
  case map =>
    intro va hva
    have hva' : va < 0x40000000 := hva
    exact hkernel ▸ hwalk va (by omega)
  case space => exact fun d hd => absurd hd List.not_mem_nil
  case half => exact fun d hd => absurd hd List.not_mem_nil
  case held => exact fun p hp => absurd hp List.not_mem_nil
  case owners =>
    have hkernelOnly : ∀ o, ∀ p ∈ (Spaces.mk { m₁ with cr3 := m₁.kernelPde } [] []).Owns o,
        o = .kernel := by
      intro o p hp
      cases o with
      | kernel => rfl
      | held => exact absurd hp List.not_mem_nil
      | space d => exact absurd hp.1 List.not_mem_nil
    refine ⟨fun o p hp => ?_, fun o o' p hp hp' =>
      (hkernelOnly o p hp).trans (hkernelOnly o' p hp').symm⟩
    obtain rfl := hkernelOnly o p hp
    rcases hp with rfl | ⟨i, hi, hpres, rfl⟩
    · exact hkernel ▸ ha.dir.used
    · exact (hkernel ▸ ha.dir).table_used i hi hpres

/-- From the start on, in every run of calls and accesses, the programs
reach memory of their own only. -/
theorem isolation_law {cs : List SpaceCall}
    (hrun : Always step Fits (boot image bits m raws) cs) :
    ∃ s, run step (boot image bits m raws) cs = some s ∧ IsolationLaw image s := by
  obtain ⟨s, hs, hi⟩ := run_total_of_always (fun _ _ h hf => Isolated.step h hf)
    (boot_isolated hpde hbss hsize hlim) hrun
  exact ⟨s, hs, hi.law⟩

omit hsize hlim in
/-- Where the tables leave a page, there is memory for a first task. -/
theorem boot_createPde (hsize : 0x109000 ≤ totalSize raws) :
    ∃ d s, (boot image bits m raws).step .createPde = some s ∧ d ∈ s.dirs := by
  have hsize' : 0x108000 ≤ totalSize raws := Nat.le_trans (by decide) hsize
  obtain ⟨m₁, heq, ha, -⟩ := memoryInit_area bits hpde hbss hsize'
  have hlaw := memoryInit_law bits hpde hbss hsize'
  have hkernel : m₁.kernelPde = m.kernelPde := ha.kernelPde
  have hinfo : (memoryInit image bits m raws).info.Ok := heq ▸ ha.info
  have hdir : DirOk (memoryInit image bits m raws).mem (memoryInit image bits m raws).info
      (memoryInit image bits m raws).kernelPde := by
    rw [heq]
    exact hkernel ▸ ha.dir
  rcases createPde_created hinfo hdir with ⟨-, hall⟩ | ⟨m', d, hcreate, hne, -⟩
  · have hpages := hlaw.pages
    rw [Memory32Info.freePages_eq_zero hall] at hpages
    rw [floorPage, pmExtStart] at hpages
    omega
  · refine ⟨d, _, by rw [boot, step, hcreate], ?_⟩
    simp only [if_neg hne, List.mem_cons_self]

/-- Whatever else is called in between, a task finds in its memory what it
wrote there in its own turns. -/
theorem isolation_view {cs cs' : List SpaceCall} {s : Spaces} {d : Nat}
    (hrun : Always step Fits (boot image bits m raws) cs)
    (hs : run step (boot image bits m raws) cs = some s) (hd : d ∈ s.dirs)
    (hrun' : Always step (fun s c => s.Fits c ∧ (s.Concerns d c → c.Access)) s cs') :
    ∃ s', run step s cs' = some s' ∧ d ∈ s'.dirs
      ∧ (s'.machine.cr3, s'.view d) = cs'.foldl (privateStep d) (s.machine.cr3, s.view d) := by
  have hi : s.Isolated image := run_invariant_of_always
    (fun s c s' h hf hstep => by
      obtain ⟨s₁, h₁, hi⟩ := Isolated.step h hf
      exact Option.some.inj (h₁.symm.trans hstep) ▸ hi)
    (boot_isolated hpde hbss hsize hlim) hrun hs
  clear hs hrun
  induction cs' generalizing s with
  | nil => exact ⟨s, rfl, hd, rfl⟩
  | cons c cs' ih =>
      obtain ⟨⟨hf, hc⟩, hrest⟩ := hrun'
      obtain ⟨s₁, h₁, hi₁, hd₁, hview⟩ := hi.view_call hf hd hc
      obtain ⟨s', h', hd', hview'⟩ := ih hd₁ (hrest s₁ h₁) hi₁
      refine ⟨s', by rw [run_cons, h₁, Option.bind_some, h'], hd', ?_⟩
      rw [hview', List.foldl_cons, hview]

end Boot

/-- The machine with 32 MiB. -/
abbrev smallBoot : Spaces := boot smallImage (fun _ => 0) bareMachine smallRaws

theorem smallBoot_pde : bareMachine.kernelPde = smallImage.kernelPde := rfl

theorem smallBoot_bss : ∀ i < 1024, pdeAt bareMachine.mem smallImage.kernelPde i = 0 :=
  fun _ _ => rfl

theorem smallBoot_createPde : ∃ d s, smallBoot.step .createPde = some s ∧ d ∈ s.dirs :=
  boot_createPde smallBoot_pde smallBoot_bss (by decide)

theorem isolation_law_small : ∃ d s, run step smallBoot
      [.createPde, .allocTaskPages d 0x40000000 1 6, .setPde d, .allocPage] = some s
    ∧ IsolationLaw smallImage s := by
  obtain ⟨d, s, hs, hd⟩ := smallBoot_createPde
  refine ⟨d, isolation_law smallBoot_pde smallBoot_bss (by decide) (by decide)
    ⟨trivial, fun s₁ h₁ => ?_⟩⟩
  obtain rfl := Option.some.inj (hs.symm.trans h₁)
  refine ⟨⟨hd, by decide, by decide, by decide⟩, fun s₁ h₁ => ?_⟩
  have hdirs : s₁.dirs = s.dirs := by
    rw [← Option.some.inj h₁]
  have hd₁ : d ∈ s₁.dirs := hdirs ▸ hd
  exact ⟨hd₁, fun _ _ => ⟨trivial, fun _ _ => trivial⟩⟩

theorem isolation_view_small : ∃ d s s', run step smallBoot [.createPde] = some s
    ∧ run step s [.setPde d, .allocPage, .createPde] = some s' ∧ d ∈ s'.dirs
    ∧ (s'.machine.cr3, s'.view d)
      = [SpaceCall.setPde d, .allocPage, .createPde].foldl (privateStep d)
        (s.machine.cr3, s.view d) := by
  obtain ⟨d, s, hs, hd⟩ := smallBoot_createPde
  have hrun : run step smallBoot [.createPde] = some s := by
    rw [run_cons, hs]
    rfl
  have hfits : Always step Fits smallBoot [.createPde] := ⟨trivial, fun _ _ => trivial⟩
  have hturns : Always step (fun s c => s.Fits c ∧ (s.Concerns d c → c.Access)) s
      [.setPde d, .allocPage, .createPde] :=
    ⟨⟨hd, False.elim⟩, fun _ _ => ⟨⟨trivial, False.elim⟩, fun _ _ => ⟨⟨trivial, False.elim⟩,
      fun _ _ => trivial⟩⟩⟩
  obtain ⟨s', h'⟩ := isolation_view smallBoot_pde smallBoot_bss (by decide) (by decide)
    hfits hrun hd hturns
  exact ⟨d, s, s', hrun, h'⟩

end Spaces

end Csos
