import Csos.Bitmap
import Csos.Lib.Bytes

/-!
# Page allocation and paging (`kernel32/memory32.c`, `inc/paging.h`)

Addresses and words are natural numbers, reduced modulo 2^32 where the
C code could carry out of 32 bits (`u32`). `PAGE_SIZE` is 0x1000 and
`PDE_COUNT` and `PTE_COUNT` are 1024.

The kernel maps everything below `PM_EXT_LIMIT` to itself. Directories,
page tables and the pages that the allocator hands out lie there, so
these are accessed as physical memory; a pointer that may lead
elsewhere goes through the MMU (`translate`), and an access that faults
has no result. A pointer is NULL when it is 0. The mutex of
`memory32_info` makes the allocator atomic and does not appear.
-/

namespace Csos

open Lib

abbrev pmExtLimit : Nat := 0x02000000

abbrev vmTaskBase : Nat := 0x40000000

abbrev vmShellBase : Nat := 0x4F000000

/-- 32-bit arithmetic. -/
def u32 (x : Nat) : Nat := x % 0x100000000

/-! ## `paging.h` -/

def pdeIndex (index : Nat) : Nat := index >>> 22

def pteIndex (index : Nat) : Nat := (index >>> 12) &&& 0x3FF

/-- The field `present` of `pde_t` and `pte_t`. -/
def present (v : Nat) : Bool := v.testBit 0

/-- The field `index` of `pde_t` and `pte_t`. -/
def frameIndex (v : Nat) : Nat := v >>> 12

def pdeAddress (v : Nat) : Nat := frameIndex v <<< 12

def pteAddress (v : Nat) : Nat := frameIndex v <<< 12

def ptePerm (v : Nat) : Nat := v &&& 0x3FF

/-! ## The allocator -/

/-- `memory32_info_t`, with the fields that the allocator reads. -/
structure Memory32Info where
  start : Nat
  pageSize : Nat
  bitmap : Bitmap

def memory32AllocPage (info : Memory32Info) (count : Nat) : Memory32Info × Nat :=
  let (bitmap, pageIndex) := bitmapAllocBits info.bitmap false count
  if pageIndex ≥ 0 then
    ({ info with bitmap }, u32 (info.start + pageIndex.toNat * info.pageSize))
  else ({ info with bitmap }, 0)

def memory32FreePage (info : Memory32Info) (addr count : Nat) : Memory32Info :=
  let pageIndex := u32 (addr + 0x100000000 - info.start) / info.pageSize
  { info with bitmap := bitmapSetBits info.bitmap pageIndex count false }

/-! ## The machine -/

/-- Physical memory, the page directory in `cr3`, the address of
`kernel_pde`, and the allocator. -/
structure Machine where
  mem : Bytes
  cr3 : Nat
  kernelPde : Nat
  info : Memory32Info

/-- The page walk of the MMU: where `vaddr` is, and with which flags. -/
def walk (mem : Bytes) (pageDir vaddr : Nat) : Option (Nat × Nat) :=
  let pde := mem.load32 (pageDir + 4 * pdeIndex vaddr)
  let pte := mem.load32 (pdeAddress pde + 4 * pteIndex vaddr)
  if present pde && present pte then
    some (pteAddress pte + vaddr % 0x1000, pte % 0x1000)
  else none

namespace Machine

/-- Where the kernel's access to `vaddr` goes. -/
def translate (m : Machine) (vaddr : Nat) : Option Nat :=
  if vaddr < pmExtLimit then some vaddr else (walk m.mem m.cr3 vaddr).map Prod.fst

def read8 (m : Machine) (vaddr : Nat) : Option (BitVec 8) :=
  (m.translate vaddr).map m.mem

def write8 (m : Machine) (vaddr : Nat) (v : BitVec 8) : Option Machine :=
  (m.translate vaddr).map fun a => { m with mem := m.mem.store8 a v }

def read32 (m : Machine) (vaddr : Nat) : Option Nat := do
  let b₀ ← m.read8 vaddr
  let b₁ ← m.read8 (u32 (vaddr + 1))
  let b₂ ← m.read8 (u32 (vaddr + 2))
  let b₃ ← m.read8 (u32 (vaddr + 3))
  return b₀.toNat + 0x100 * b₁.toNat + 0x10000 * b₂.toNat + 0x1000000 * b₃.toNat

def write32 (m : Machine) (vaddr v : Nat) : Option Machine := do
  let m ← m.write8 vaddr (BitVec.ofNat 8 v)
  let m ← m.write8 (u32 (vaddr + 1)) (BitVec.ofNat 8 (v / 0x100))
  let m ← m.write8 (u32 (vaddr + 2)) (BitVec.ofNat 8 (v / 0x10000))
  m.write8 (u32 (vaddr + 3)) (BitVec.ofNat 8 (v / 0x1000000))

end Machine

/-- The `while` loop of `kernel_memcpy`. -/
def kernelMemcpyLoop : Nat → Machine → Nat → Nat → Option Machine
  | 0, m, _, _ => some m
  | size + 1, m, dst, src => do
      let m ← m.write8 dst (← m.read8 src)
      kernelMemcpyLoop size m (u32 (dst + 1)) (u32 (src + 1))

def kernelMemcpy (m : Machine) (dst src size : Nat) : Option Machine :=
  if dst = 0 ∨ src = 0 ∨ size = 0 then some m else kernelMemcpyLoop size m dst src

/-! ## Page tables -/

/-- The address of the page table entry for `vaddr`. -/
def findPte (m : Machine) (pageDir vaddr : Nat) (alloc : Bool) : Machine × Nat :=
  let pde := pageDir + 4 * pdeIndex vaddr
  if present (m.mem.load32 pde) then
    (m, pdeAddress (m.mem.load32 pde) + 4 * pteIndex vaddr)
  else if !alloc then (m, 0)
  else
    match memory32AllocPage m.info 1 with
    | (info, addr) =>
        if addr = 0 then ({ m with info }, 0)
        else
          let mem := m.mem.store32 pde (addr ||| 1 ||| 2 ||| 4)
          let mem := mem.fill addr 0 0x1000
          ({ m with info, mem }, addr + 4 * pteIndex vaddr)

/-- `memory32_create_map`. There is no `return` behind its loop; the
value that its callers see is taken to be 0. -/
def memory32CreateMap (m : Machine) (pde vaddr paddr : Nat) : Nat → Nat → Machine × Int
  | 0, _ => (m, 0)
  | count + 1, perm =>
      match findPte m pde vaddr true with
      | (m, pte) =>
          if pte = 0 then (m, -1)
          else
            let m := { m with mem := m.mem.store32 pte (paddr ||| perm ||| 1) }
            memory32CreateMap m pde (u32 (vaddr + 0x1000)) (u32 (paddr + 0x1000)) count perm

def ceilPage (value : Nat) : Nat := u32 (value + 0x1000 - 1) / 0x1000 * 0x1000

/-- The loop of `memory32_create_pde` over the kernel's half. -/
def copyKernelPdes (kernelPde pde : Nat) : Nat → Bytes → Bytes
  | 0, mem => mem
  | n + 1, mem =>
      let mem := copyKernelPdes kernelPde pde n mem
      mem.store32 (pde + 4 * n) (mem.load32 (kernelPde + 4 * n))

def memory32CreatePde (m : Machine) : Machine × Nat :=
  match memory32AllocPage m.info 1 with
  | (info, pde) =>
      if pde = 0 then ({ m with info }, 0)
      else
        let mem := m.mem.fill pde 0 0x1000
        let mem := copyKernelPdes m.kernelPde pde (pdeIndex vmTaskBase) mem
        ({ m with info, mem }, pde)

/-- The inner loop of `destroy_pde`. -/
def destroyPtes (m : Machine) (pte : Nat) : Nat → Machine
  | 0 => m
  | n + 1 =>
      let v := m.mem.load32 pte
      let m := if present v then { m with info := memory32FreePage m.info (pteAddress v) 1 } else m
      destroyPtes m (pte + 4) n

/-- The outer loop of `destroy_pde`. -/
def destroyPdes (m : Machine) (pde : Nat) : Nat → Machine
  | 0 => m
  | n + 1 =>
      let v := m.mem.load32 pde
      let m := if present v then destroyPtes m (pteAddress v) 1024 else m
      destroyPdes m (pde + 4) n

/-- `destroy_pde`. Behind the loops `pde` points one past the directory. -/
def destroyPde (m : Machine) (index : Nat) : Option Machine := do
  let start := pdeIndex vmTaskBase
  let m := destroyPdes m (index + 4 * start) (1024 - start)
  let v ← m.read32 (index + 4 * 1024)
  return { m with info := memory32FreePage m.info (pdeAddress v) 1 }

/-- The inner loop of `copy_page`: 0 is a loop that ran to its end, and
-1 the `return -1` in its body. -/
def copyPtes (toPde i : Nat) : Nat → Machine → Nat → Nat → Option (Machine × Int)
  | 0, m, _, _ => some (m, 0)
  | n + 1, m, k, pte => do
      let v := m.mem.load32 pte
      if !present v then
        copyPtes toPde i n m (k + 1) (pte + 4)
      else
        let (info, page) := memory32AllocPage m.info 1
        let m := { m with info }
        if page = 0 then
          return (← destroyPde m toPde, -1)
        let vaddr := (i <<< 22) ||| (k <<< 12)
        let (m, ret) := memory32CreateMap m toPde vaddr page 1 (ptePerm v)
        if ret < 0 then
          return (← destroyPde m toPde, -1)
        let m ← kernelMemcpy m page vaddr 0x1000
        copyPtes toPde i n m (k + 1) (pte + 4)

/-- The outer loop of `copy_page`. -/
def copyPdes (toPde : Nat) : Nat → Machine → Nat → Nat → Option (Machine × Int)
  | 0, m, _, _ => some (m, 0)
  | n + 1, m, i, pde => do
      let v := m.mem.load32 pde
      if !present v then
        copyPdes toPde n m (i + 1) (pde + 4)
      else
        let (m, ret) ← copyPtes toPde i 1024 m 0 (pdeAddress v)
        if ret < 0 then
          return (m, -1)
        copyPdes toPde n m (i + 1) (pde + 4)

def copyPage (m : Machine) (index : Nat) : Option (Machine × Int) := do
  let (m, toPde) := memory32CreatePde m
  if toPde = 0 then
    return (m, -1)
  let start := pdeIndex vmTaskBase
  let (m, ret) ← copyPdes toPde (1024 - start) m start (index + 4 * start)
  if ret < 0 then
    return (m, -1)
  return (m, toPde)

def getPaddr (m : Machine) (pde vaddr : Nat) : Nat :=
  let pde := if pde = 0 then m.kernelPde else pde
  let pte := (findPte m pde vaddr false).2
  if pte = 0 then 0
  else u32 (pteAddress (m.mem.load32 pte) + (vaddr &&& 0xFFF))

/-- The loop of `memory32_alloc_task_pages`. -/
def allocTaskPagesLoop (m : Machine) (pde currentIndex perm : Nat) : Nat → Machine × Int
  | 0 => (m, 0)
  | count + 1 =>
      match memory32AllocPage m.info 1 with
      | (info, paddr) =>
          let m := { m with info }
          if paddr = 0 then (m, -1)
          else
            match memory32CreateMap m pde currentIndex paddr 1 perm with
            | (m, error) =>
                if error < 0 then (m, -1)
                else allocTaskPagesLoop m pde (u32 (currentIndex + 0x1000)) perm count

def allocTaskPages (m : Machine) (pde index size perm : Nat) : Machine × Int :=
  allocTaskPagesLoop m pde index perm (ceilPage size / 0x1000)

/-- `free_page`, called by a task whose directory is `cr3`. -/
def freePage (m : Machine) (cr3 addr : Nat) : Option Machine :=
  if addr < vmShellBase then
    some { m with info := memory32FreePage m.info addr 1 }
  else
    let pte := (findPte m cr3 addr false).2
    let m := { m with info := memory32FreePage m.info (pteIndex pte) 1 }
    -- NULL is not checked: without a page table the write faults
    if pte = 0 then none
    else some { m with mem := m.mem.store32 pte 0 }

end Csos
