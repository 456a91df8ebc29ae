import Csos.AddressSpace
import Csos.Scheduler

/-!
# Processes (`kernel32/task/tss.c`, `kernel32/gdt32.c`, `lib/string.c`)

`fork`, `execve` and `exit`, with everything that they take and give
back: slots of `task_table`, descriptors of the GDT, pages, list
memberships and `task_mutex`. The lists and the scheduler's fields of a
task are in the `Kernel` of `Task.lean`, memory is the `Machine` of
`Memory32.lean`.

A call that has to wait for `task_mutex` is made when it gets it; until
then it has no result. The mutex around the GDT does not appear. Of a
descriptor only `attr` is kept, which says whether it is in use. The
fields of `tss_task_t` that nothing here reads (`wd`, `ftb`) are left
out, and so are the registers of `tss_t` that are never set.
-/

namespace Csos

open Lib

/-! ## `lib/string.c` -/

/-- More bytes than memory holds. -/
def stringFuel : Nat := 0x100000000

/-- The loop of `kernel_strcpy`, from the byte `i` on. -/
def kernelStrcpyLoop (src : Bytes) : Nat → Nat → Bytes → Option Bytes
  | 0, _, _ => none
  | n + 1, i, dst =>
      if src i = 0 then some (dst.store8 i 0)
      else kernelStrcpyLoop src n (i + 1) (dst.store8 i (src i))

def kernelStrcpy (dst src : Bytes) : Option Bytes := kernelStrcpyLoop src stringFuel 0 dst

/-- The loop of `kernel_strncpy`, which tests the first byte of `src`
again and again and never goes past it. What is left of `size` wraps when
the loop has counted it down. -/
def kernelStrncpyLoop (m : Machine) (src : Nat) : Nat → Nat → Bytes → Option (Bytes × Nat)
  | 0, _, dst => some (dst, 0xFFFFFFFF)
  | size + 1, i, dst => do
      if (← m.read8 src) = 0 then
        return (dst, size)
      else
        let c ← m.read8 (u32 (src + i))
        kernelStrncpyLoop m src size (i + 1) (dst.store8 i c)

/-- `kernel_strncpy` into a buffer of the kernel. With `size` down to 0 it
would write in front of the buffer, which has no result here. -/
def kernelStrncpy (m : Machine) (dst : Bytes) (src size : Nat) : Option Bytes :=
  if src = 0 ∨ size = 0 then some dst
  else do
    let (dst, left) ← kernelStrncpyLoop m src size 0 dst
    if left = 0 then none
    else return dst.store8 0 0

/-! ## The data -/

/-- The size of `task_table`. -/
abbrev osTaskMaxSize : Nat := 128

/-- Where a `tss_task_t` lies. -/
inductive TaskPtr where
  | slot (i : Fin osTaskMaxSize)
  | defaultTask
  | idleTask
deriving DecidableEq

instance : IdleTask TaskPtr := ⟨.idleTask⟩

/-- A mutex type with `task_mutex` among its members. -/
class TaskMutex (X : Type) where
  taskMutex : X

export TaskMutex (taskMutex)

/-- `tss_t`. -/
structure Tss where
  esp0 : Nat
  ss0 : Nat
  cr3 : Nat
  eip : Nat
  eflags : Nat
  eax : Nat
  ecx : Nat
  edx : Nat
  ebx : Nat
  esp : Nat
  ebp : Nat
  esi : Nat
  edi : Nat
  es : Nat
  cs : Nat
  ss : Nat
  ds : Nat
  fs : Nat
  gs : Nat

/-- A `tss_t` after `kernel_memset`. -/
def Tss.zero : Tss where
  esp0 := 0
  ss0 := 0
  cr3 := 0
  eip := 0
  eflags := 0
  eax := 0
  ecx := 0
  edx := 0
  ebx := 0
  esp := 0
  ebp := 0
  esi := 0
  edi := 0
  es := 0
  cs := 0
  ss := 0
  ds := 0
  fs := 0
  gs := 0

/-- `tss_task_t`, without the fields of the scheduler. `name` is what lies
from the name on. -/
structure Proc where
  name : Bytes
  tss : Tss
  selector : Nat
  pid : Nat
  parent : Option TaskPtr
  exitCode : Int
  bheap : Nat
  eheap : Nat
  heap : Nat

/-- A task after `kernel_memset`. -/
def Proc.zero : Proc where
  name := fun _ => 0
  tss := .zero
  selector := 0
  pid := 0
  parent := none
  exitCode := 0
  bheap := 0
  eheap := 0
  heap := 0

/-- The lists and the scheduler, the tasks, memory, the field `attr` of
each entry of the GDT, `task_pid`, and the selectors of the segments for
applications. -/
structure TaskSystem (X S : Type) where
  kernel : Kernel TaskPtr X S
  proc : TaskPtr → Proc
  machine : Machine
  gdt : Nat → Nat
  taskPid : Nat
  ucSelector : Nat
  udSelector : Nat

/-! ## The GDT -/

abbrev gdtSize : Nat := 0x100

/-- The first entry that `alloc_gdt_table_entry` looks at. -/
abbrev gdtIndex : Nat := 6

/-- `alloc_gdt_table_entry`. Its -1 comes back as an unsigned number. -/
def allocGdtTableEntry (gdt : Nat → Nat) : Nat :=
  match (List.range' gdtIndex (gdtSize - gdtIndex)).find? fun i => gdt i = 0 with
  | some i => i <<< 3
  | none => 0xFFFFFFFF

/-- `SEG_ATTR_P | SEG_ATTR_DPL0 | SEG_TYPE_TSS`. -/
def tssAttr : Nat := 0x80 ||| 9

def setGdtTableEntry (gdt : Nat → Nat) (selector attr : Nat) : Nat → Nat :=
  Function.update gdt (selector >>> 3) attr

def freeGdtTableEntry (gdt : Nat → Nat) (selector : Nat) : Nat → Nat :=
  Function.update gdt (selector >>> 3) 0

/-! ## The frame of a system call -/

/-- `sizeof(syscall_frame_t)`. -/
abbrev syscallFrameSize : Nat := 88

/-- `syscall_frame_t`, with the fields that are read. -/
structure SyscallFrame where
  eflags : Nat
  gs : Nat
  fs : Nat
  es : Nat
  ds : Nat
  edi : Nat
  esi : Nat
  ebp : Nat
  ebx : Nat
  edx : Nat
  ecx : Nat
  eip : Nat
  cs : Nat
  userEsp : Nat

/-- The frame at the top of a kernel stack, which is identity-mapped. -/
def syscallFrame (mem : Bytes) (esp0 : Nat) : SyscallFrame :=
  let frame := u32 (esp0 + 0x100000000 - syscallFrameSize)
  { eflags := mem.load32 frame
    gs := mem.load32 (frame + 4)
    fs := mem.load32 (frame + 8)
    es := mem.load32 (frame + 12)
    ds := mem.load32 (frame + 16)
    edi := mem.load32 (frame + 20)
    esi := mem.load32 (frame + 24)
    ebp := mem.load32 (frame + 28)
    ebx := mem.load32 (frame + 36)
    edx := mem.load32 (frame + 40)
    ecx := mem.load32 (frame + 44)
    eip := mem.load32 (frame + 52)
    cs := mem.load32 (frame + 56)
    userEsp := mem.load32 (frame + 80) }

/-- The registers that `tss_task_fork` takes from the frame. -/
def forkTss (tss : Tss) (frame : SyscallFrame) : Tss :=
  { tss with
    eax := 0, edx := frame.edx, ecx := frame.ecx, ebx := frame.ebx
    esi := frame.esi, edi := frame.edi, ebp := frame.ebp
    cs := frame.cs, ds := frame.ds, es := frame.es, gs := frame.gs, fs := frame.fs
    eflags := frame.eflags }

/-- A signed result in an unsigned variable. -/
def toUnsigned (r : Int) : Nat := (r % 0x100000000).toNat

/-! ## The functions of `tss.c` -/

abbrev pageSize : Nat := 0x1000

abbrev kernelDataSeg : Nat := 16

/-- `EFLAGS_DEFAULT | EFLAGS_IF`. -/
abbrev eflagsUser : Nat := 0x202

/-- `SYSCALL_PMC`. -/
abbrev syscallPmc : Nat := 5

/-- The fields that `tss_init` sets before it asks for a page directory. -/
def userTss (entry esp kernelStack ucSelector udSelector : Nat) : Tss :=
  { Tss.zero with
    eip := entry, esp, esp0 := u32 (kernelStack + pageSize)
    ss := udSelector, es := udSelector, ds := udSelector, fs := udSelector, gs := udSelector
    ss0 := kernelDataSeg, cs := ucSelector, eflags := eflagsUser }

/-- `alloc_page`. -/
def Machine.allocPage (m : Machine) : Machine × Nat :=
  let (info, addr) := memory32AllocPage m.info 1
  ({ m with info }, addr)

namespace TaskSystem

variable {X S : Type}

/-- Write to the fields of one task. -/
def modify (s : TaskSystem X S) (t : TaskPtr) (f : Proc → Proc) : TaskSystem X S :=
  { s with proc := Function.update s.proc t (f (s.proc t)) }

def setMachine (s : TaskSystem X S) (machine : Machine) : TaskSystem X S := { s with machine }

def setKernel (s : TaskSystem X S) (kernel : Kernel TaskPtr X S) : TaskSystem X S :=
  { s with kernel }

def setGdt (s : TaskSystem X S) (gdt : Nat → Nat) : TaskSystem X S := { s with gdt }

section Fields

variable {s : TaskSystem X S} {t u : TaskPtr} {f : Proc → Proc} {m : Machine}
  {k : Kernel TaskPtr X S} {gdt : Nat → Nat}

@[simp] theorem modify_self : (s.modify t f).proc t = f (s.proc t) := Function.update_self ..

theorem modify_of_ne (h : u ≠ t) : (s.modify t f).proc u = s.proc u := Function.update_of_ne h ..

@[simp] theorem modify_kernel : (s.modify t f).kernel = s.kernel := rfl

@[simp] theorem modify_machine : (s.modify t f).machine = s.machine := rfl

@[simp] theorem modify_gdt : (s.modify t f).gdt = s.gdt := rfl

@[simp] theorem setMachine_kernel : (s.setMachine m).kernel = s.kernel := rfl

@[simp] theorem setMachine_proc : (s.setMachine m).proc = s.proc := rfl

@[simp] theorem setMachine_machine : (s.setMachine m).machine = m := rfl

@[simp] theorem setMachine_gdt : (s.setMachine m).gdt = s.gdt := rfl

@[simp] theorem setKernel_kernel : (s.setKernel k).kernel = k := rfl

@[simp] theorem setKernel_proc : (s.setKernel k).proc = s.proc := rfl

@[simp] theorem setKernel_machine : (s.setKernel k).machine = s.machine := rfl

@[simp] theorem setKernel_gdt : (s.setKernel k).gdt = s.gdt := rfl

@[simp] theorem setGdt_kernel : (s.setGdt gdt).kernel = s.kernel := rfl

@[simp] theorem setGdt_proc : (s.setGdt gdt).proc = s.proc := rfl

@[simp] theorem setGdt_machine : (s.setGdt gdt).machine = s.machine := rfl

@[simp] theorem setGdt_gdt : (s.setGdt gdt).gdt = gdt := rfl

end Fields

/-- The scheduler has run. When it switches to another task, it loads the
page directory of that task. -/
def withKernel (s : TaskSystem X S) (kernel : Kernel TaskPtr X S) : TaskSystem X S :=
  match kernel.vars.runningTask with
  | none => s.setKernel kernel
  | some t =>
      if s.kernel.vars.runningTask = some t then s.setKernel kernel
      else (s.setKernel kernel).setMachine { s.machine with cr3 := (s.proc t).tss.cr3 }

/-- `tss_init`, for `TASK_LEVEL_USER`. -/
def tssInit (s : TaskSystem X S) (task : TaskPtr) (entry esp : Nat) : TaskSystem X S × Int :=
  let selector := allocGdtTableEntry s.gdt
  -- an unsigned number is never below 0, so a full GDT goes unnoticed
  let gdt := setGdtTableEntry s.gdt selector tssAttr
  let (machine, kernelStack) := s.machine.allocPage
  let tss := userTss entry esp kernelStack (s.ucSelector ||| 3) (s.udSelector ||| 3)
  let (machine, pde) := memory32CreatePde machine
  let s := s.setMachine machine
  if pde = 0 then
    ((s.setGdt (freeGdtTableEntry gdt selector)).modify task fun p => { p with tss }, -1)
  else
    ((s.setGdt gdt).modify task fun p => { p with tss := { tss with cr3 := pde }, selector }, 0)

variable [DecidableEq X] [DecidableEq S]

/-- `tss_task_init`, for `TASK_LEVEL_USER`. The task `named` has the name. -/
def tssTaskInit (s : TaskSystem X S) (task named : TaskPtr) (entry esp : Nat) :
    Option (TaskSystem X S × Int) := do
  let (s, r) := s.tssInit task entry esp
  if r < 0 then
    return (s, r)
  let name ← kernelStrcpy (s.proc task).name (s.proc named).name
  let s := s.modify task fun p => { p with name }
  let (kernel, _) ← Csos.tssTaskInit s.kernel task 0
  let s := (s.setKernel kernel).modify task fun p =>
    { p with pid := s.taskPid, bheap := 0, eheap := 0 }
  return ({ s with taskPid := u32 (s.taskPid + 1) }, 0)

/-- The memory of the list nodes and of the scheduler's fields, which
`tss_task_destroy` sets to 0 with the rest of the task. -/
def clearTask (k : Kernel TaskPtr X S) (task : TaskPtr) : Option (Kernel TaskPtr X S) := do
  let heap ← listNodeInit k.heap (.runningNode task)
  let heap ← listNodeInit heap (.taskNode task)
  let heap ← listNodeInit heap (.waitNode task)
  let fields := { state := .created, ticks := 0, slices := 0, sleep := 0 }
  return { heap, vars := k.vars.setTask task fields }

/-- The pages that `tss_task_destroy` gives back. `free_page` looks up the
address in the directory of the running task. -/
def destroyPages (m : Machine) (cr3 : Nat) (tss : Tss) : Option Machine := do
  let m ← (if tss.esp0 ≠ 0 then freePage m cr3 (u32 (tss.esp + 0x100000000 - pageSize))
    else some m)
  (if tss.cr3 ≠ 0 then destroyPde m tss.cr3 else some m)

def tssTaskDestroy (s : TaskSystem X S) (task : TaskPtr) : Option (TaskSystem X S) := do
  let p := s.proc task
  let gdt := if p.selector ≠ 0 then freeGdtTableEntry s.gdt p.selector else s.gdt
  let runningTask ← s.kernel.vars.runningTask
  let machine ← destroyPages s.machine (s.proc runningTask).tss.cr3 p.tss
  let kernel ← clearTask s.kernel task
  let s := ((s.setGdt gdt).setMachine machine).setKernel kernel
  return s.modify task fun _ => .zero

variable [TaskMutex X]

/-- `mutex_lock(&task_mutex)`, by a task that need not wait. -/
def lockTaskMutex (s : TaskSystem X S) : Option (TaskSystem X S) := do
  let mutex := s.kernel.vars.mutex taskMutex
  if mutex.locker = 0 ∨ mutex.owner = s.kernel.vars.runningTask then
    let kernel ← mutexLock s.kernel taskMutex
    return s.setKernel kernel
  else none

def unlockTaskMutex (s : TaskSystem X S) : Option (TaskSystem X S) := do
  let kernel ← mutexUnlock s.kernel taskMutex
  return s.withKernel kernel

/-- The loop of `alloc_task`. -/
def freeSlot (s : TaskSystem X S) : Option (Fin osTaskMaxSize) :=
  (List.finRange osTaskMaxSize).find? fun i => (s.proc (.slot i)).name 0 = 0

def allocTask (s : TaskSystem X S) : Option (TaskSystem X S × Option TaskPtr) := do
  let s ← s.lockTaskMutex
  let task := s.freeSlot.map .slot
  let s ← s.unlockTaskMutex
  return (s, task)

/-! ## `fork` -/

def tssTaskFork (s : TaskSystem X S) : Option (TaskSystem X S × Int) := do
  let parent ← s.kernel.vars.runningTask
  let (s, child) ← s.allocTask
  match child with
  | none => return (s, -1)
  | some child =>
      let frame := syscallFrame s.machine.mem (s.proc parent).tss.esp0
      let (s, ret) ← s.tssTaskInit child parent frame.eip (u32 (frame.userEsp + 4 * syscallPmc))
      if ret ≠ 0 then
        let s ← s.tssTaskDestroy child
        return (s, -1)
      let s := s.modify child fun p =>
        { p with tss := forkTss p.tss frame, parent := some parent }
      let (machine, r) ← copyPage s.machine (s.proc parent).tss.cr3
      -- the comparison with 0 is one of unsigned numbers, and always false
      let s := (s.setMachine machine).modify child fun p =>
        { p with tss := { p.tss with cr3 := toUnsigned r } }
      return (s, (s.proc child).pid)

/-! ## `exit` -/

def tssTaskExit (s : TaskSystem X S) (code : Int) : Option (TaskSystem X S) := do
  let task ← s.kernel.vars.runningTask
  let s := if (s.kernel.vars.task task).state = .dying then
      let vars := s.kernel.vars.setTask task { s.kernel.vars.task task with state := .died }
      (s.setKernel { s.kernel with vars }).modify task fun p => { p with exitCode := code }
    else s
  let (heap, _) ← listRemove s.kernel.heap .readyList (.runningNode task)
  let (heap, _) ← listRemove heap .taskList (.taskNode task)
  let s ← (s.setKernel { s.kernel with heap }).tssTaskDestroy task
  let kernel ← tssTaskDispatch s.kernel
  return s.withKernel kernel

end TaskSystem

end Csos
