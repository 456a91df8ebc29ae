import Csos.ListSeq

/-!
# The scheduler (`kernel32/task/tss.c`)

The part of `tss.c` that moves tasks between queues. A task is on the
ready list or the sleep list through its `running_node` and on the wait
list of a mutex or a semaphore through its `wait_node`, so a node
address is a task together with a field (`TaskNode`), and
`struct_from_field` is a projection. Task types `T`, mutexes `X` and
semaphores `S` are arbitrary: any number of each.

`protect_enter`/`protect_exit` make every function here atomic, and the
hardware side of a switch (`set_pde`, the far jump to the TSS) only
follows `running_task`; neither appears in the model.
-/

namespace Csos

open Lib

/-- `task_state_t`. -/
inductive TaskState where
  | created
  | running
  | sleep
  | ready
  | waiting
  | dying
  | died
deriving Repr, DecidableEq

/-- The fields of `tss_task_t` that the scheduler reads or writes. -/
structure TssTask where
  state : TaskState
  ticks : UInt32
  slices : UInt32
  sleep : UInt32
deriving Repr, DecidableEq

/-- The address of a `list_node_t` inside a `tss_task_t`. -/
inductive TaskNode (T : Type) where
  | runningNode (t : T)
  | taskNode (t : T)
  | waitNode (t : T)
deriving DecidableEq

/-- The lists that tasks are linked into: those of `tss_task_queue` and
the `wait_list` of each mutex and each semaphore. -/
inductive TaskList (X S : Type) where
  | readyList
  | taskList
  | sleepList
  | mutexWaitList (mutex : X)
  | semWaitList (sem : S)
deriving DecidableEq

/-- `mutex_t` without its `wait_list`. -/
structure MutexT (T : Type) where
  owner : Option T
  locker : UInt32

/-- The kernel's variables besides the list nodes. -/
structure TaskVars (T X S : Type) where
  task : T → TssTask
  runningTask : Option T
  mutex : X → MutexT T
  counter : S → Int32

/-- Everything that the scheduler, `mutex.c` and `sem.c` work on. -/
structure Kernel (T X S : Type) where
  heap : Heap (TaskList X S) (TaskNode T)
  vars : TaskVars T X S

/-- `tss_task_queue.idle_task`. -/
class IdleTask (T : Type) where
  idleTask : T

export IdleTask (idleTask)

/-- `struct_from_field(node, tss_task_t, running_node)`: NULL for NULL,
and a garbage pointer, which nothing here follows, for the node of
another field. -/
def taskOfRunningNode {T : Type} : Option (TaskNode T) → Option (Option T)
  | none => some none
  | some (.runningNode t) => some (some t)
  | some _ => none

/-- `struct_from_field(node, tss_task_t, wait_node)`. -/
def taskOfWaitNode {T : Type} : Option (TaskNode T) → Option (Option T)
  | none => some none
  | some (.waitNode t) => some (some t)
  | some _ => none

section Functions

variable {T X S : Type} [DecidableEq T] [DecidableEq X] [DecidableEq S] [IdleTask T]

/-- Write the fields of one task. -/
def TaskVars.setTask (v : TaskVars T X S) (t : T) (task : TssTask) : TaskVars T X S :=
  { v with task := Function.update v.task t task }

def tssTaskSetReady (k : Kernel T X S) (t : T) : Option (Kernel T X S) :=
  if t = idleTask then some k
  else do
    let vars := k.vars.setTask t { k.vars.task t with state := .ready }
    let heap ← listInsertBack k.heap .readyList (.runningNode t)
    return { heap, vars }

def tssTaskSetBlock (k : Kernel T X S) (t : T) : Option (Kernel T X S) :=
  if t = idleTask then some k
  else do
    let (heap, _) ← listRemove k.heap .readyList (.runningNode t)
    return { k with heap }

def tssTaskDispatch (k : Kernel T X S) : Option (Kernel T X S) := do
  let dest ← if ← listIsEmpty k.heap .readyList then some (some idleTask)
    else taskOfRunningNode (← listGetFirst k.heap .readyList)
  if dest = k.vars.runningTask then
    return k
  let t ← dest
  let vars := k.vars.setTask t { k.vars.task t with state := .running }
  return { k with vars := { vars with runningTask := some t } }

def tssTaskYield (k : Kernel T X S) : Option (Kernel T X S) := do
  if k.heap.size .readyList > 1 then
    let task ← k.vars.runningTask
    let k ← tssTaskSetBlock k task
    let k ← tssTaskSetReady k task
    tssTaskDispatch k
  else
    return k

def tssTaskNotify (k : Kernel T X S) (t : T) : Option (Kernel T X S) := do
  let (heap, _) ← listRemove k.heap .sleepList (.runningNode t)
  return { k with heap }

/-- The `while (node)` loop of `tss_task_ts`. The next node is read from
the task's `running_node` after the task may have been moved to the
ready list. The first argument bounds the number of rounds. -/
def tssTaskTsLoop : Nat → Kernel T X S → Option (TaskNode T) → Option (Kernel T X S)
  | _, k, none => some k
  | 0, _, some _ => none
  | n + 1, k, some node => do
      let t ← ← taskOfRunningNode (some node)
      let left := (k.vars.task t).sleep - 1
      let k := { k with vars := k.vars.setTask t { k.vars.task t with sleep := left } }
      let k ← if left = 0 then do
          let k ← tssTaskNotify k t
          tssTaskSetReady k t
        else some k
      tssTaskTsLoop n k (k.heap.next (.runningNode t))

/-- The timer interrupt. A walk over a well-formed sleep list takes at
most `size` rounds (`tssTaskTsLoop_sim`). -/
def tssTaskTs (k : Kernel T X S) : Option (Kernel T X S) := do
  let node ← listGetFirst k.heap .sleepList
  let k ← tssTaskTsLoop (k.heap.size .sleepList).toNat k node
  let task ← k.vars.runningTask
  let ticks := (k.vars.task task).ticks - 1
  if ticks = 0 then
    let slices := (k.vars.task task).slices
    let k := { k with vars := k.vars.setTask task { k.vars.task task with ticks := slices } }
    let k ← tssTaskSetBlock k task
    let k ← tssTaskSetReady k task
    tssTaskDispatch k
  else
    return { k with vars := k.vars.setTask task { k.vars.task task with ticks } }

def tssTaskSetSleep (k : Kernel T X S) (t : T) (ticks : UInt32) : Option (Kernel T X S) :=
  if ticks = 0 then some k
  else do
    let vars := k.vars.setTask t { k.vars.task t with sleep := ticks, state := .sleep }
    let heap ← listInsertBack k.heap .sleepList (.runningNode t)
    return { heap, vars }

def tssTaskSleep (k : Kernel T X S) (ms : UInt32) : Option (Kernel T X S) := do
  let task ← k.vars.runningTask
  let k ← tssTaskSetBlock k task
  let k ← tssTaskSetSleep k task ms
  tssTaskDispatch k

end Functions

end Csos
