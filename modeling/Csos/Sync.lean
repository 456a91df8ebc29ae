import Csos.Task

/-!
# Mutexes and semaphores (`kernel32/mutex.c`, `kernel32/sem.c`)

The functions, and the system that they make up together with the
scheduler: `Kernel.step` is one atomic step of it, taken by the running
task or by an interrupt.
-/

namespace Csos

variable {T X S : Type} [DecidableEq T] [DecidableEq X] [DecidableEq S] [IdleTask T]

omit [DecidableEq T] [DecidableEq S] [IdleTask T] in
/-- Write the fields of one mutex. -/
def TaskVars.setMutex (v : TaskVars T X S) (m : X) (mutex : MutexT T) : TaskVars T X S :=
  { v with mutex := Function.update v.mutex m mutex }

omit [DecidableEq T] [DecidableEq X] [IdleTask T] in
/-- Write the counter of one semaphore. -/
def TaskVars.setCounter (v : TaskVars T X S) (s : S) (counter : Int32) : TaskVars T X S :=
  { v with counter := Function.update v.counter s counter }

/-! ## `mutex.c` -/

def mutexInit (k : Kernel T X S) (mutex : X) : Option (Kernel T X S) := do
  let vars := k.vars.setMutex mutex { owner := none, locker := 0 }
  let heap ← listInit k.heap (.mutexWaitList mutex)
  return { heap, vars }

def mutexLock (k : Kernel T X S) (mutex : X) : Option (Kernel T X S) := do
  let runningTask := k.vars.runningTask
  let locker := (k.vars.mutex mutex).locker
  let owner := (k.vars.mutex mutex).owner
  if locker = 0 then
    return { k with vars := k.vars.setMutex mutex { owner := runningTask, locker := locker + 1 } }
  else if owner = runningTask then
    return { k with vars := k.vars.setMutex mutex { owner, locker := locker + 1 } }
  else
    let task ← runningTask
    let k ← tssTaskSetBlock k task
    let heap ← listInsertBack k.heap (.mutexWaitList mutex) (.waitNode task)
    tssTaskDispatch { k with heap }

def mutexUnlock (k : Kernel T X S) (mutex : X) : Option (Kernel T X S) := do
  let runningTask := k.vars.runningTask
  let owner := (k.vars.mutex mutex).owner
  if owner = runningTask then
    let locker := (k.vars.mutex mutex).locker - 1
    if locker = 0 then
      let k := { k with vars := k.vars.setMutex mutex { owner := none, locker } }
      if !(← listIsEmpty k.heap (.mutexWaitList mutex)) then
        let (heap, node) ← listRemoveFront k.heap (.mutexWaitList mutex)
        let task ← ← taskOfWaitNode node
        let k ← tssTaskSetReady { k with heap } task
        let mutexT := { owner := some task, locker := locker + 1 }
        tssTaskDispatch { k with vars := k.vars.setMutex mutex mutexT }
      else
        return k
    else
      return { k with vars := k.vars.setMutex mutex { owner, locker } }
  else
    return k

/-! ## `sem.c` -/

def semInit (k : Kernel T X S) (sem : S) (count : UInt32) : Option (Kernel T X S) := do
  let vars := k.vars.setCounter sem count.toInt32
  let heap ← listInit k.heap (.semWaitList sem)
  return { heap, vars }

def semWait (k : Kernel T X S) (sem : S) : Option (Kernel T X S) := do
  if k.vars.counter sem > 0 then
    return { k with vars := k.vars.setCounter sem (k.vars.counter sem - 1) }
  else
    let task ← k.vars.runningTask
    let k ← tssTaskSetBlock k task
    let heap ← listInsertBack k.heap (.semWaitList sem) (.waitNode task)
    tssTaskDispatch { k with heap }

def semNotify (k : Kernel T X S) (sem : S) : Option (Kernel T X S) := do
  if !(← listIsEmpty k.heap (.semWaitList sem)) then
    let (heap, node) ← listRemoveFront k.heap (.semWaitList sem)
    let task ← ← taskOfWaitNode node
    let k ← tssTaskSetReady { k with heap } task
    tssTaskDispatch k
  else
    return { k with vars := k.vars.setCounter sem (k.vars.counter sem + 1) }

def semCount (k : Kernel T X S) (sem : S) : UInt32 := (k.vars.counter sem).toUInt32

/-! ## The system -/

/-- What can happen next. The running task calls `lock`, `unlock`,
`wait`, `yield` and `sleep`; `notify` is called by the running task or
by an interrupt handler, and `tick` is the timer interrupt. -/
inductive Action (X S : Type) where
  | lock (mutex : X)
  | unlock (mutex : X)
  | wait (sem : S)
  | notify (sem : S)
  | yield
  | sleep (ms : UInt32)
  | tick
deriving DecidableEq

/-- The action is a call made by the running task. -/
def Action.IsCall : Action X S → Bool
  | lock _ | unlock _ | wait _ | yield | sleep _ => true
  | notify _ | tick => false

def Kernel.step (k : Kernel T X S) : Action X S → Option (Kernel T X S)
  | .lock m => mutexLock k m
  | .unlock m => mutexUnlock k m
  | .wait s => semWait k s
  | .notify s => semNotify k s
  | .yield => tssTaskYield k
  | .sleep ms => tssTaskSleep k ms
  | .tick => tssTaskTs k

end Csos
