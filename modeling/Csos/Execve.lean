import Csos.Process
import Csos.UserHeap

/-!
# `tss_task_execve`

The loader, the arguments, and the call itself. What lies from
`SHELL_TMP` on, after `read_disk` has filled it, is an argument: the image
of the program and whatever follows it. A name or an argument is read
through the page directory of the caller, and a read that faults has no
result.
-/

namespace Csos

open Lib

/-! ## Strings in memory -/

def isSlash (c : BitVec 8) : Bool := c = 0x2F ∨ c = 0x5C

/-- The first loop of `get_file_name`, and that of `kernel_strlen`: the
address of the NUL. -/
def stringEnd (m : Machine) : Nat → Nat → Option Nat
  | 0, _ => none
  | n + 1, a => do
      if (← m.read8 a) = 0 then return a
      else stringEnd m n (u32 (a + 1))

/-- The second loop of `get_file_name`, which reads the byte before it
looks whether it has left the string. -/
def lastSlash (m : Machine) (name : Nat) : Nat → Nat → Option Nat
  | 0, _ => none
  | n + 1, a => do
      let c ← m.read8 a
      if !isSlash c && a ≥ name then lastSlash m name n (u32 (a + 0xFFFFFFFF))
      else return a

def getFileName (m : Machine) (name : Nat) : Option Nat := do
  let s ← stringEnd m stringFuel name
  let s ← lastSlash m name stringFuel s
  return u32 (s + 1)

def kernelStrlen (m : Machine) (str : Nat) : Option Nat :=
  if str = 0 then some 0
  else do
    let c ← stringEnd m stringFuel str
    return u32 (c + 0x100000000 - str)

/-- The loop of `strings_count`. -/
def stringsCountLoop (m : Machine) : Nat → Nat → Option Nat
  | 0, _ => none
  | n + 1, argv => do
      if (← m.read32 argv) = 0 then return 0
      else return (← stringsCountLoop m n (u32 (argv + 4))) + 1

def stringsCount (m : Machine) (argv : Nat) : Option Nat :=
  if argv = 0 then some 0 else stringsCountLoop m stringFuel argv

/-! ## `load_elf_file` -/

/-- The fields of `Elf32_Ehdr` that the loader reads. -/
structure ElfHeader where
  ident : List (BitVec 8)
  entry : Nat
  phoff : Nat
  phnum : Nat

def elfHeader (image : Bytes) : ElfHeader where
  ident := [image 0, image 1, image 2, image 3]
  entry := image.load32 24
  phoff := image.load32 28
  phnum := image.load16 44

/-- The fields of `Elf32_Phdr` that the loader reads. -/
structure ProgramHeader where
  type : Nat
  offset : Nat
  vaddr : Nat
  filesz : Nat
  memsz : Nat
deriving DecidableEq

def programHeader (image : Bytes) (a : Nat) : ProgramHeader where
  type := image.load32 a
  offset := image.load32 (a + 4)
  vaddr := image.load32 (a + 8)
  filesz := image.load32 (a + 16)
  memsz := image.load32 (a + 20)

/-- `kernel_memcpy` out of the buffer. -/
def memcpyImageLoop (image : Bytes) : Nat → Machine → Nat → Nat → Option Machine
  | 0, m, _, _ => some m
  | size + 1, m, dst, src => do
      let m ← m.write8 dst (image src)
      memcpyImageLoop image size m (u32 (dst + 1)) (src + 1)

def memcpyImage (image : Bytes) (m : Machine) (dst src size : Nat) : Option Machine :=
  if dst = 0 ∨ size = 0 then some m else memcpyImageLoop image size m dst src

/-- The loop over the pieces of a segment. Each is a page long, wherever
in a page it starts. -/
def copySegment (image : Bytes) (pde : Nat) : Nat → Machine → Nat → Nat → Nat → Option Machine
  | 0, _, _, _, _ => none
  | n + 1, m, buffer, size, vaddr =>
      if size = 0 then some m
      else do
        let cs := if size > pageSize then pageSize else size
        let m ← memcpyImage image m (getPaddr m pde vaddr) buffer cs
        copySegment image pde n m (buffer + cs) (size - cs) (u32 (vaddr + cs))

/-- `PTE_P | PTE_U | PTE_W`. -/
abbrev userPerm : Nat := 1 ||| 4 ||| 2

/-- The loop of `load_elf_file`. It reads the first program header in each
of its rounds. The result is -1, or the new `bheap` and `eheap`. -/
def loadSegments (image : Bytes) (pde : Nat) (ph : ProgramHeader) :
    Nat → Machine → Nat × Nat → Option (Machine × (Nat × Nat) × Int)
  | 0, m, heap => some (m, heap, 0)
  | n + 1, m, heap =>
      if ph.type ≠ 1 ∨ ph.vaddr < vmTaskBase then loadSegments image pde ph n m heap
      else do
        let (m, err) := allocTaskPages m pde ph.vaddr (u32 (ph.memsz + pageSize * 5)) userPerm
        if err < 0 then
          return (m, heap, -1)
        let m ← copySegment image pde (ph.filesz + 1) m ph.offset ph.filesz ph.vaddr
        let stop := u32 (ph.vaddr + ph.memsz)
        loadSegments image pde ph n m (stop, stop)

def elfMagic : List (BitVec 8) := [0x7F, 0x45, 0x4C, 0x46]

/-- `load_elf_file`, with the fields `bheap` and `eheap` of the task. Its
-1 comes back as an unsigned number. -/
def loadElfFile (image : Bytes) (pde : Nat) (m : Machine) (heap : Nat × Nat) :
    Option (Machine × (Nat × Nat) × Nat) := do
  let header := elfHeader image
  if header.ident ≠ elfMagic then
    return (m, heap, 0)
  let ph := programHeader image header.phoff
  let (m, heap, err) ← loadSegments image pde ph header.phnum m heap
  if err < 0 then
    return (m, heap, toUnsigned err)
  return (m, heap, header.entry)

/-! ## `copy_args` -/

/-- The loop of `memory32_copy_page_data`. -/
def copyPageDataLoop (pde : Nat) : Nat → Machine → Nat → Nat → Nat → Option (Machine × Int)
  | 0, _, _, _, _ => none
  | n + 1, m, dst, src, size =>
      if size = 0 then some (m, 0)
      else
        let paddr := getPaddr m pde dst
        if paddr = 0 then some (m, -1)
        else do
          let room := pageSize - paddr % pageSize
          let cs := if room > size then size else room
          let m ← kernelMemcpy m paddr src cs
          copyPageDataLoop pde n m (u32 (dst + cs)) (u32 (src + cs)) (size - cs)

def memory32CopyPageData (m : Machine) (dst pde src size : Nat) : Option (Machine × Int) :=
  copyPageDataLoop pde (size + 1) m dst src size

/-- The loop of `copy_args`. -/
def copyArgsLoop (pde table argv : Nat) : Nat → Machine → Nat → Nat → Option (Machine × Int)
  | 0, m, _, _ => some (m, 0)
  | n + 1, m, i, dstArg => do
      let arg ← m.read32 (u32 (argv + 4 * i))
      let len := u32 ((← kernelStrlen m arg) + 1)
      let (m, err) ← memory32CopyPageData m dstArg pde arg len
      if err < 0 then
        return (m, -1)
      let m ← m.write32 (u32 (table + 4 * i)) dstArg
      copyArgsLoop pde table argv n m (i + 1) (u32 (dstArg + len))

/-- `sizeof(task_args_t)`. -/
abbrev taskArgsSize : Nat := 12

/-- `copy_args`. The three words of `task_args` lie in one page, and
`retAddr` is what the stack holds where the first of them is never set.
There is no `return` behind the last call; the value that the caller sees
is taken to be the one of this call. -/
def copyArgs (m : Machine) (pde dst argv argc retAddr : Nat) : Option (Machine × Int) := do
  let table := getPaddr m pde (dst + taskArgsSize)
  let (m, err) ← copyArgsLoop pde table argv argc m 0 (u32 (dst + taskArgsSize + 4 * argc))
  if err < 0 then
    return (m, -1)
  let paddr := getPaddr m pde dst
  if paddr = 0 then
    return (m, -1)
  let m ← m.write32 paddr retAddr
  let m ← m.write32 (u32 (paddr + 4)) argc
  let m ← m.write32 (u32 (paddr + 8)) (dst + taskArgsSize)
  return (m, 0)

/-! ## The call -/

abbrev taskNameSize : Nat := 32

abbrev vmShellStack : Nat := 0x50000000

abbrev vmShellStackSize : Nat := 0x00100000

abbrev vmShellArgsSize : Nat := 0x00002000

/-- What `execve` writes into the frame of the caller. -/
def execveFrame (mem : Bytes) (esp0 entry stackTop : Nat) : Bytes :=
  let frame := u32 (esp0 + 0x100000000 - syscallFrameSize)
  let mem := mem.store32 (frame + 52) entry
  let mem := mem.store32 (frame + 40) 0
  let mem := mem.store32 (frame + 44) 0
  let mem := mem.store32 (frame + 36) 0
  let mem := mem.store32 (frame + 48) 0
  let mem := mem.store32 (frame + 28) 0
  let mem := mem.store32 (frame + 24) 0
  let mem := mem.store32 (frame + 20) 0
  let mem := mem.store32 frame eflagsUser
  mem.store32 (frame + 80) (stackTop - 4 * syscallPmc)

namespace TaskSystem

variable {X S : Type} [DecidableEq X] [DecidableEq S] [TaskMutex X]

/-- `task->tss.cr3 = pde; set_pde(pde)`. -/
def setPde (s : TaskSystem X S) (task : TaskPtr) (pde : Nat) : TaskSystem X S :=
  (s.setMachine { s.machine with cr3 := pde }).modify task fun p =>
    { p with tss := { p.tss with cr3 := pde } }

/-- What `execve` does on most failures. -/
def execveFails (s : TaskSystem X S) (task : TaskPtr) (oldPde : Nat) :
    Option (TaskSystem X S × Int) := do
  let s := s.setPde task oldPde
  let machine ← destroyPde s.machine oldPde
  let s ← (s.setMachine machine).unlockTaskMutex
  return (s, -1)

/-- The end of `execve`, once nothing can fail any more. -/
def execveEnters (s : TaskSystem X S) (task : TaskPtr) (oldPde newPde entry stackTop : Nat) :
    Option (TaskSystem X S × Int) := do
  let mem := execveFrame s.machine.mem (s.proc task).tss.esp0 entry stackTop
  let s := (s.setMachine { s.machine with mem }).setPde task newPde
  let machine ← destroyPde s.machine oldPde
  let p := s.proc task
  let taskHeap := { cr3 := newPde, bheap := p.bheap, eheap := p.eheap, heap := p.heap }
  let (machine, taskHeap) ← execveHeap machine taskHeap
  let s := (s.setMachine machine).modify task fun p =>
    { p with heap := taskHeap.heap, eheap := taskHeap.eheap }
  let s ← s.unlockTaskMutex
  return (s, 0)

/-- `execve`, from the new directory on. -/
def execveLoads (s : TaskSystem X S) (task : TaskPtr) (image : Bytes)
    (oldPde newPde retAddr argv : Nat) : Option (TaskSystem X S × Int) := do
  let p := s.proc task
  let (machine, heap, entry) ← loadElfFile image newPde s.machine (p.bheap, p.eheap)
  let s := (s.setMachine machine).modify task fun p => { p with bheap := heap.1, eheap := heap.2 }
  if entry = 0 then
    s.execveFails task oldPde
  else
    let stackTop := vmShellStack - vmShellArgsSize
    let (machine, err) := allocTaskPages s.machine newPde (vmShellStack - vmShellStackSize)
      vmShellStackSize userPerm
    let s := s.setMachine machine
    if err < 0 then
      s.execveFails task oldPde
    else
      let argc ← stringsCount s.machine argv
      let (machine, err) ← copyArgs s.machine newPde stackTop argv argc retAddr
      let s := s.setMachine machine
      if err < 0 then
        s.execveFails task oldPde
      else
        s.execveEnters task oldPde newPde entry stackTop

def tssTaskExecve (s : TaskSystem X S) (image : Bytes) (retAddr name argv : Nat) :
    Option (TaskSystem X S × Int) := do
  let s ← s.lockTaskMutex
  let task ← s.kernel.vars.runningTask
  let fileName ← getFileName s.machine name
  let taskName ← kernelStrncpy s.machine (s.proc task).name fileName taskNameSize
  let s := s.modify task fun p => { p with name := taskName }
  let oldPde := (s.proc task).tss.cr3
  let (machine, newPde) := memory32CreatePde s.machine
  let s := s.setMachine machine
  if newPde = 0 then
    return (s, -1)
  else
    s.execveLoads task image oldPde newPde retAddr argv

end TaskSystem

end Csos
