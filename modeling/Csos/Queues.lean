import Csos.Sync

/-!
# The scheduler as a machine over queues

What the functions of `tss.c`, `mutex.c` and `sem.c` are for, with the
pointers gone: every list is a `List T`, and every function is total.
`Kernel.Models k q` says that the kernel `k` stores the queues `q`.

A task that is not idle is in at most one of the ready list, the sleep
list and the wait lists (`Queues.Inv`); this is what keeps every
`list_insert_back` and `list_remove` within its contract, and with it
`Kernel.step_sim` carries the invariant and the simulation over one
step of the system, whichever step it is.
-/

namespace Csos

open Lib

/-- The field through which a task is linked into a list. -/
def TaskList.node {T X S : Type} : TaskList X S → T → TaskNode T
  | .readyList | .sleepList => .runningNode
  | .taskList => .taskNode
  | .mutexWaitList _ | .semWaitList _ => .waitNode

theorem TaskList.node_injective {T X S : Type} (l : TaskList X S) :
    Function.Injective (l.node (T := T)) := by
  cases l <;> intro t u h <;> simpa [TaskList.node] using h

/-- The queues and the variables of the kernel. -/
structure Queues (T X S : Type) where
  lists : TaskList X S → List T
  vars : TaskVars T X S

namespace Queues

variable {T X S : Type}

/-- The node sequences that a kernel with these queues holds. -/
def seqs (q : Queues T X S) : Seqs (TaskList X S) (TaskNode T) :=
  fun l => some ((q.lists l).map l.node)

/-- The running task, which is never NULL once the system is up. -/
def running [IdleTask T] (q : Queues T X S) : T := q.vars.runningTask.getD idleTask

end Queues

/-! ## Where tasks are -/

section Placement

variable {T X S : Type} [IdleTask T]

/-- `t` is on no list except possibly the list of all tasks. -/
def Homeless (lists : TaskList X S → List T) (t : T) : Prop :=
  ∀ l, l ≠ .taskList → t ∉ lists l

/-- No list has a task twice, no task is both ready and asleep, or ready
and waiting, or waiting twice, and the idle task is never on a list. -/
structure Placed (lists : TaskList X S → List T) : Prop where
  nodup : ∀ l, (lists l).Nodup
  disjoint : ∀ l l', l ≠ .taskList → l' ≠ .taskList → l ≠ l' → ∀ t ∈ lists l, t ∉ lists l'
  idle : Homeless lists idleTask

variable [DecidableEq T] [DecidableEq X] [DecidableEq S]
  {lists : TaskList X S → List T} {l : TaskList X S} {t : T} {ts : List T}

omit [DecidableEq T] in
/-- A list may lose members. -/
theorem Placed.shrink (hp : Placed lists) (hsub : ts.Sublist (lists l)) :
    Placed (Function.update lists l ts) := by
  have hmem : ∀ l' u, u ∈ Function.update lists l ts l' → u ∈ lists l' := by
    intro l' u hu
    by_cases hl : l' = l
    · subst hl
      rw [Function.update_self] at hu
      exact hsub.subset hu
    · rwa [Function.update_of_ne hl] at hu
  refine ⟨fun l' => ?_, fun l₁ l₂ h₁ h₂ hne u hu hu' => ?_, fun l' hl' hi => ?_⟩
  · by_cases hl : l' = l
    · subst hl
      rw [Function.update_self]
      exact hsub.nodup (hp.nodup l')
    · rw [Function.update_of_ne hl]
      exact hp.nodup l'
  · exact hp.disjoint l₁ l₂ h₁ h₂ hne u (hmem l₁ u hu) (hmem l₂ u hu')
  · exact hp.idle l' hl' (hmem l' _ hi)

omit [DecidableEq T] in
/-- A task that left its list is on none. -/
theorem Placed.homeless (hp : Placed lists) (hl : l ≠ .taskList) (ht : t ∈ lists l)
    (hout : t ∉ ts) : Homeless (Function.update lists l ts) t := by
  intro l' hl' hmem
  by_cases hne : l' = l
  · subst hne
    rw [Function.update_self] at hmem
    exact hout hmem
  · rw [Function.update_of_ne hne] at hmem
    exact hp.disjoint l l' hl hl' (Ne.symm hne) t ht hmem

omit [DecidableEq T] in
/-- A task that is on no list may join one. -/
theorem Placed.append (hp : Placed lists) (hl : l ≠ .taskList) (hh : Homeless lists t)
    (hi : t ≠ idleTask) : Placed (Function.update lists l (lists l ++ [t])) := by
  have hmem : ∀ l' u, u ∈ Function.update lists l (lists l ++ [t]) l' →
      u ∈ lists l' ∨ (l' = l ∧ u = t) := by
    intro l' u hu
    by_cases hne : l' = l
    · subst hne
      rw [Function.update_self, List.mem_append, List.mem_singleton] at hu
      exact hu.imp_right fun h => ⟨rfl, h⟩
    · rw [Function.update_of_ne hne] at hu
      exact Or.inl hu
  refine ⟨fun l' => ?_, fun l₁ l₂ h₁ h₂ hne u hu hu' => ?_, fun l' hl' hidle => ?_⟩
  · by_cases hne : l' = l
    · subst hne
      rw [Function.update_self, List.nodup_append]
      refine ⟨hp.nodup l', by simp, fun u hu v hv => ?_⟩
      obtain rfl := List.mem_singleton.mp hv
      exact ne_of_mem_of_not_mem hu (hh l' hl)
    · rw [Function.update_of_ne hne]
      exact hp.nodup l'
  · rcases hmem l₁ u hu with h | ⟨rfl, rfl⟩ <;> rcases hmem l₂ u hu' with h' | ⟨rfl, h'⟩
    · exact hp.disjoint l₁ l₂ h₁ h₂ hne u h h'
    · exact hh l₁ h₁ (h' ▸ h)
    · exact hh l₂ h₂ h'
    · exact hne rfl
  · rcases hmem l' _ hidle with h | ⟨-, h⟩
    · exact hp.idle l' hl' h
    · exact hi h.symm

end Placement

/-! ## The functions, over queues -/

namespace Queues

variable {T X S : Type} [DecidableEq T] [DecidableEq X] [DecidableEq S] [IdleTask T]

def setList (q : Queues T X S) (l : TaskList X S) (ts : List T) : Queues T X S :=
  { q with lists := Function.update q.lists l ts }

def setReady (q : Queues T X S) (t : T) : Queues T X S :=
  if t = idleTask then q
  else { q with vars := q.vars.setTask t { q.vars.task t with state := .ready } }.setList
    .readyList (q.lists .readyList ++ [t])

def setBlock (q : Queues T X S) (t : T) : Queues T X S :=
  if t = idleTask then q
  else q.setList .readyList ((q.lists .readyList).erase t)

def dispatch (q : Queues T X S) : Queues T X S :=
  let dest := (q.lists .readyList).head?.getD idleTask
  if some dest = q.vars.runningTask then q
  else
    let vars := q.vars.setTask dest { q.vars.task dest with state := .running }
    { q with vars := { vars with runningTask := some dest } }

/-- The running task goes to the back of the ready list. -/
def requeue (q : Queues T X S) : Queues T X S :=
  ((q.setBlock q.running).setReady q.running).dispatch

def yield (q : Queues T X S) : Queues T X S :=
  if 1 < (q.lists .readyList).length then q.requeue else q

/-- The walk over the sleep list. It ends early: the first task that
wakes up moves to the back of the ready list, where its `next` is NULL. -/
def wake : List T → Queues T X S → Queues T X S
  | [], q => q
  | t :: ts, q =>
      let left := (q.vars.task t).sleep - 1
      let q := { q with vars := q.vars.setTask t { q.vars.task t with sleep := left } }
      if left = 0 then (q.setList .sleepList ((q.lists .sleepList).erase t)).setReady t
      else wake ts q

def tick (q : Queues T X S) : Queues T X S :=
  let q := wake (q.lists .sleepList) q
  let task := q.vars.task q.running
  if task.ticks - 1 = 0 then
    { q with vars := q.vars.setTask q.running { task with ticks := task.slices } }.requeue
  else
    { q with vars := q.vars.setTask q.running { task with ticks := task.ticks - 1 } }

/-- The running task leaves the ready list for the end of another one. -/
def moveTo (q : Queues T X S) (l : TaskList X S) : Queues T X S :=
  (q.setBlock q.running).setList l (q.lists l ++ [q.running])

def sleep (q : Queues T X S) (ms : UInt32) : Queues T X S :=
  if ms = 0 then (q.setBlock q.running).dispatch
  else
    let task := { q.vars.task q.running with sleep := ms, state := .sleep }
    { q.moveTo .sleepList with vars := q.vars.setTask q.running task }.dispatch

def lock (q : Queues T X S) (m : X) : Queues T X S :=
  let locker := (q.vars.mutex m).locker
  let owner := (q.vars.mutex m).owner
  if locker = 0 then
    { q with vars := q.vars.setMutex m { owner := q.vars.runningTask, locker := locker + 1 } }
  else if owner = q.vars.runningTask then
    { q with vars := q.vars.setMutex m { owner, locker := locker + 1 } }
  else (q.moveTo (.mutexWaitList m)).dispatch

def unlock (q : Queues T X S) (m : X) : Queues T X S :=
  let owner := (q.vars.mutex m).owner
  let locker := (q.vars.mutex m).locker - 1
  if owner = q.vars.runningTask then
    if locker = 0 then
      match q.lists (.mutexWaitList m) with
      | [] => { q with vars := q.vars.setMutex m { owner := none, locker } }
      | t :: ts =>
          let q := { q with vars := q.vars.setMutex m { owner := none, locker } }
          let q := (q.setList (.mutexWaitList m) ts).setReady t
          let mutexT := { owner := some t, locker := locker + 1 }
          { q with vars := q.vars.setMutex m mutexT }.dispatch
    else { q with vars := q.vars.setMutex m { owner, locker } }
  else q

def wait (q : Queues T X S) (s : S) : Queues T X S :=
  if q.vars.counter s > 0 then { q with vars := q.vars.setCounter s (q.vars.counter s - 1) }
  else (q.moveTo (.semWaitList s)).dispatch

def notify (q : Queues T X S) (s : S) : Queues T X S :=
  match q.lists (.semWaitList s) with
  | [] => { q with vars := q.vars.setCounter s (q.vars.counter s + 1) }
  | t :: ts => ((q.setList (.semWaitList s) ts).setReady t).dispatch

def step (q : Queues T X S) : Action X S → Queues T X S
  | .lock m => q.lock m
  | .unlock m => q.unlock m
  | .wait s => q.wait s
  | .notify s => q.notify s
  | .yield => q.yield
  | .sleep ms => q.sleep ms
  | .tick => q.tick

end Queues

/-! ## The simulation -/

/-- The kernel stores the queues `q`. -/
structure Kernel.Models {T X S : Type} (k : Kernel T X S) (q : Queues T X S) : Prop where
  vars : k.vars = q.vars
  holds : k.heap.Holds q.seqs

section Simulation

variable {T X S : Type} [DecidableEq X] [DecidableEq S] {k : Kernel T X S} {q : Queues T X S}
  {l : TaskList X S} {t : T} {ts : List T}

namespace Queues

@[simp] theorem setList_vars : (q.setList l ts).vars = q.vars := rfl

@[simp] theorem setList_lists_self : (q.setList l ts).lists l = ts := Function.update_self ..

theorem setList_lists_of_ne {l' : TaskList X S} (h : l' ≠ l) :
    (q.setList l ts).lists l' = q.lists l' := Function.update_of_ne h ..

theorem seqs_setList :
    (q.setList l ts).seqs = Function.update q.seqs l (some (ts.map l.node)) := by
  funext l'
  by_cases h : l' = l
  · subst h
    simp [seqs]
  · rw [Function.update_of_ne h]
    simp only [seqs, setList_lists_of_ne h]

end Queues

namespace Kernel.Models

omit [DecidableEq X] [DecidableEq S] in
/-- The variables change, the lists do not. -/
theorem withVars {vars : TaskVars T X S} (hm : k.Models q) :
    Models { k with vars } { q with vars } := ⟨rfl, hm.holds⟩

theorem isEmpty [DecidableEq T] (hm : k.Models q) (l : TaskList X S) :
    listIsEmpty k.heap l = some (q.lists l).isEmpty := by
  rw [Heap.listIsEmpty_eq (hm.holds.rep l _ rfl), List.isEmpty_map]

omit [DecidableEq X] [DecidableEq S] in
theorem head (hm : k.Models q) (l : TaskList X S) :
    k.heap.head l = (q.lists l).head?.map l.node := by
  rw [(hm.holds.rep l _ rfl).head_eq, List.head?_map]

omit [DecidableEq X] [DecidableEq S] in
theorem tail (hm : k.Models q) (l : TaskList X S) :
    k.heap.tail l = (q.lists l).getLast?.map l.node := by
  rw [(hm.holds.rep l _ rfl).tail_eq, List.getLast?_map]

omit [DecidableEq X] [DecidableEq S] in
theorem size (hm : k.Models q) (l : TaskList X S) :
    (k.heap.size l).toNat = (q.lists l).length := by
  rw [(hm.holds.rep l _ rfl).size, List.length_map]

omit [DecidableEq X] [DecidableEq S] in
/-- The node behind a task, whose `next` a walk over the list follows. -/
theorem next {as bs : List T} (hm : k.Models q) (hl : q.lists l = as ++ t :: bs) :
    k.heap.next (l.node t) = bs.head?.map l.node := by
  have hr := hm.holds.rep l _ rfl
  rw [hl, List.map_append, List.map_cons] at hr
  rw [hr.next_eq, List.head?_map]

variable [DecidableEq T] [HasAddr (TaskNode T)]

theorem insertBack (hm : k.Models q)
    (hfree : ∀ l', l'.node t = l.node t → t ∉ q.lists l') :
    ∃ heap, listInsertBack k.heap l (l.node t) = some heap
      ∧ Models { k with heap } (q.setList l (q.lists l ++ [t])) := by
  have hv : (ListOp.insertBack l (l.node t)).Valid q.seqs := by
    refine ⟨⟨_, rfl⟩, ?_⟩
    rintro l' ns ⟨⟩ hmem
    obtain ⟨u, hu, hnode⟩ := List.mem_map.mp hmem
    obtain rfl : u = t := by
      cases l <;> cases l' <;> simp_all [TaskList.node]
    exact hfree l' hnode hu
  obtain ⟨heap, he, hh, -⟩ := ListOp.exec_spec hm.holds hv
  refine ⟨heap, ?_, hm.vars, ?_⟩
  · simpa [ListOp.exec, ListOp.apply, ListOp.effect] using he
  · simpa [ListOp.apply, ListOp.effect, ListOp.list, Queues.seqs_setList, Queues.seqs] using hh

theorem remove (hm : k.Models q) (ht : t ∈ q.lists l) :
    ∃ heap, listRemove k.heap l (l.node t) = some (heap, l.node t)
      ∧ Models { k with heap } (q.setList l ((q.lists l).erase t)) := by
  have hv : (ListOp.remove l (l.node t)).Valid q.seqs :=
    ⟨_, rfl, List.mem_map_of_mem ht⟩
  obtain ⟨heap, he, hh, -⟩ := ListOp.exec_spec hm.holds hv
  refine ⟨heap, ?_, hm.vars, ?_⟩
  · obtain ⟨⟨heap', n⟩, hr, heq⟩ := Option.map_eq_some_iff.mp he
    simp only [ListOp.apply, ListOp.effect, Prod.mk.injEq, Option.some.injEq] at heq
    rw [hr, heq.1, heq.2]
  · rw [Queues.seqs_setList, List.map_erase l.node_injective]
    simpa [ListOp.apply, ListOp.effect, ListOp.list, Queues.seqs] using hh

theorem removeFront (hm : k.Models q) (ht : q.lists l = t :: ts) :
    ∃ heap, listRemoveFront k.heap l = some (heap, some (l.node t))
      ∧ Models { k with heap } (q.setList l ts) := by
  have hv : (ListOp.removeFront l).Valid q.seqs := ⟨_, rfl⟩
  obtain ⟨heap, he, hh, -⟩ := ListOp.exec_spec hm.holds hv
  refine ⟨heap, ?_, hm.vars, ?_⟩
  · simpa [ListOp.exec, ListOp.apply, ListOp.effect, ListOp.list, Queues.seqs, ht] using he
  · simpa [ListOp.apply, ListOp.effect, ListOp.list, Queues.seqs_setList, Queues.seqs, ht]
      using hh

end Kernel.Models

variable [DecidableEq T] [IdleTask T] [HasAddr (TaskNode T)]

omit [DecidableEq T] [DecidableEq X] [DecidableEq S] [IdleTask T] [HasAddr (TaskNode T)] in
/-- What `list_insert_back` asks for. -/
theorem Homeless.free {lists : TaskList X S → List T} (hh : Homeless lists t)
    (hl : l ≠ .taskList) : ∀ l', l'.node t = l.node t → t ∉ lists l' := by
  rintro l' hnode
  refine hh l' ?_
  rintro rfl
  cases l <;> simp_all [TaskList.node]

theorem tssTaskSetReady_sim_of_free (hm : k.Models q)
    (ht : t ≠ idleTask →
      ∀ l : TaskList X S, l.node t = TaskNode.runningNode t → t ∉ q.lists l) :
    ∃ k', tssTaskSetReady k t = some k' ∧ k'.Models (q.setReady t) := by
  unfold tssTaskSetReady Queues.setReady
  split
  case isTrue => exact ⟨k, rfl, hm⟩
  case isFalse hi =>
    obtain ⟨heap, he, hm'⟩ := hm.insertBack (l := .readyList) (ht hi)
    simp only [TaskList.node] at he
    refine ⟨_, by rw [he]; rfl, ?_, ?_⟩
    · simp only [hm.vars, Queues.setList_vars]
    · exact hm'.holds

theorem tssTaskSetReady_sim (hm : k.Models q) (ht : t ≠ idleTask → Homeless q.lists t) :
    ∃ k', tssTaskSetReady k t = some k' ∧ k'.Models (q.setReady t) :=
  tssTaskSetReady_sim_of_free hm fun hi =>
    (ht hi).free (nofun : (TaskList.readyList : TaskList X S) ≠ .taskList)

theorem tssTaskSetBlock_sim (hm : k.Models q) (ht : t ≠ idleTask → t ∈ q.lists .readyList) :
    ∃ k', tssTaskSetBlock k t = some k' ∧ k'.Models (q.setBlock t) := by
  unfold tssTaskSetBlock Queues.setBlock
  split
  case isTrue => exact ⟨k, rfl, hm⟩
  case isFalse hi =>
    obtain ⟨heap, he, hm'⟩ := hm.remove (ht hi)
    simp only [TaskList.node] at he
    exact ⟨_, by rw [he]; rfl, hm'⟩

omit [HasAddr (TaskNode T)] in
theorem tssTaskDispatch_sim (hm : k.Models q) :
    ∃ k', tssTaskDispatch k = some k' ∧ k'.Models q.dispatch := by
  have hhead := hm.head .readyList
  unfold tssTaskDispatch Queues.dispatch
  simp only [hm.isEmpty, listGetFirst, Heap.mem_head, Option.bind_eq_bind, Option.bind_some]
  cases hready : q.lists .readyList with
  | nil =>
      simp only [List.isEmpty_nil, if_true, List.head?_nil, Option.getD_none, hm.vars]
      by_cases hrun : some idleTask = q.vars.runningTask
      · simp only [eq_true hrun, reduceIte]
        exact ⟨k, rfl, hm⟩
      · simp only [eq_false hrun, reduceIte]
        exact ⟨_, rfl, rfl, hm.holds⟩
  | cons t ts =>
      rw [hready] at hhead
      simp only [List.isEmpty_cons, Bool.false_eq_true, if_false, hhead, List.head?_cons,
        Option.map_some, Option.getD_some, TaskList.node, taskOfRunningNode, Option.bind_some,
        hm.vars]
      by_cases hrun : some t = q.vars.runningTask
      · simp only [eq_true hrun, reduceIte]
        exact ⟨k, rfl, hm⟩
      · simp only [eq_false hrun, reduceIte]
        exact ⟨_, rfl, rfl, hm.holds⟩

end Simulation

/-! ## The invariant -/

/-- What holds of the queues between two steps of the system. -/
structure Queues.Inv {T X S : Type} [IdleTask T] (q : Queues T X S) : Prop where
  placed : Placed q.lists
  running : q.vars.runningTask = some idleTask
    ∨ ∃ t ts, q.lists .readyList = t :: ts ∧ q.vars.runningTask = some t

section Invariant

variable {T X S : Type} [DecidableEq T] [DecidableEq X] [DecidableEq S] [IdleTask T]
  {k : Kernel T X S} {q : Queues T X S} {l : TaskList X S} {t : T} {ts : List T}

namespace Queues

omit [DecidableEq T] [DecidableEq X] [DecidableEq S] in
theorem Inv.runningTask_eq (hi : q.Inv) : q.vars.runningTask = some q.running := by
  rcases hi.running with h | ⟨t, ts, -, h⟩ <;> simp [Queues.running, h]

omit [DecidableEq T] [DecidableEq X] [DecidableEq S] in
theorem Inv.ready_eq (hi : q.Inv) (hr : q.running ≠ idleTask) :
    ∃ ts, q.lists .readyList = q.running :: ts := by
  rcases hi.running with h | ⟨t, ts, hl, h⟩
  · exact absurd (by simp [Queues.running, h]) hr
  · exact ⟨ts, by simp [Queues.running, h, hl]⟩

omit [DecidableEq T] [DecidableEq X] [DecidableEq S] in
theorem Inv.mem_ready (hi : q.Inv) (hr : q.running ≠ idleTask) :
    q.running ∈ q.lists .readyList := by
  obtain ⟨ts, hts⟩ := hi.ready_eq hr
  simp [hts]

omit [DecidableEq T] [DecidableEq X] [DecidableEq S] in
/-- A waiting task neither runs nor is ready. -/
theorem Inv.waiter (hi : q.Inv)
    (hl : l ≠ .taskList) (hl' : l ≠ .readyList) (ht : t ∈ q.lists l) :
    t ∉ q.lists .readyList ∧ q.vars.runningTask ≠ some t := by
  have hready := hi.placed.disjoint l .readyList hl nofun hl' t ht
  refine ⟨hready, fun hrun => ?_⟩
  rcases hi.running with h | ⟨u, us, hu, h⟩
  · obtain rfl := Option.some.inj (h.symm.trans hrun)
    exact hi.placed.idle l hl ht
  · obtain rfl := Option.some.inj (h.symm.trans hrun)
    exact hready (by simp [hu])

theorem setBlock_vars : (q.setBlock t).vars = q.vars := by
  unfold setBlock
  split <;> rfl

theorem setBlock_placed (hp : Placed q.lists) : Placed (q.setBlock t).lists := by
  unfold setBlock
  split
  · exact hp
  · exact hp.shrink (List.erase_sublist)

theorem setBlock_homeless (hp : Placed q.lists) (hi : t ≠ idleTask)
    (ht : t ∈ q.lists .readyList) : Homeless (q.setBlock t).lists t := by
  simp only [setBlock, if_neg hi]
  exact hp.homeless nofun ht (hp.nodup _).not_mem_erase

theorem setReady_lists : (q.setReady t).lists l
    = if l = .readyList ∧ t ≠ idleTask then q.lists .readyList ++ [t] else q.lists l := by
  unfold setReady
  by_cases hi : t = idleTask
  · rw [if_pos hi, if_neg fun h => h.2 hi]
  · rw [if_neg hi]
    by_cases hl : l = .readyList
    · rw [if_pos ⟨hl, hi⟩, hl]
      exact setList_lists_self
    · rw [if_neg fun h => hl h.1]
      exact setList_lists_of_ne hl

theorem setReady_placed (hp : Placed q.lists) (ht : t ≠ idleTask → Homeless q.lists t) :
    Placed (q.setReady t).lists := by
  unfold setReady
  split
  case isTrue => exact hp
  case isFalse hi => exact hp.append nofun (ht hi) hi

omit [DecidableEq X] [DecidableEq S] in
theorem dispatch_lists : q.dispatch.lists = q.lists := by
  unfold dispatch
  dsimp only
  split <;> rfl

omit [DecidableEq X] [DecidableEq S] in
theorem dispatch_runningTask :
    q.dispatch.vars.runningTask = some ((q.lists .readyList).head?.getD idleTask) := by
  unfold dispatch
  dsimp only
  split
  case isTrue h => exact h.symm
  case isFalse => rfl

omit [DecidableEq X] [DecidableEq S] in
/-- Whoever ran before, the dispatcher makes the first ready task run. -/
theorem dispatch_inv (hp : Placed q.lists) : q.dispatch.Inv := by
  refine ⟨by rwa [dispatch_lists], ?_⟩
  rw [dispatch_runningTask, dispatch_lists]
  cases q.lists .readyList with
  | nil => exact Or.inl rfl
  | cons t ts => exact Or.inr ⟨t, ts, rfl, rfl⟩

/-- A task that wakes up does not get in front of the running one. -/
theorem setReady_inv (hi : q.Inv) (ht : t ≠ idleTask → Homeless q.lists t) :
    (q.setReady t).Inv := by
  refine ⟨setReady_placed hi.placed ht, ?_⟩
  unfold setReady
  split
  · exact hi.running
  · refine hi.running.imp id ?_
    rintro ⟨u, us, hl, hrun⟩
    exact ⟨u, us ++ [t], by simp [hl], hrun⟩

omit [DecidableEq T] in
theorem setList_inv (hi : q.Inv) (hl : l ≠ .readyList) (hsub : ts.Sublist (q.lists l)) :
    (q.setList l ts).Inv := by
  refine ⟨hi.placed.shrink hsub, ?_⟩
  rw [setList_lists_of_ne (Ne.symm hl)]
  exact hi.running

theorem wake_inv (hi : q.Inv) (hsub : ∀ t ∈ ts, t ∈ q.lists .sleepList) :
    (wake ts q).Inv := by
  induction ts generalizing q with
  | nil => exact hi
  | cons t ts ih =>
      have ht := hsub t (by simp)
      let vars := q.vars.setTask t { q.vars.task t with sleep := (q.vars.task t).sleep - 1 }
      have hi₁ : Queues.Inv { q with vars } := ⟨hi.placed, hi.running⟩
      simp only [wake]
      split
      · refine setReady_inv (setList_inv hi₁ nofun List.erase_sublist) fun _ => ?_
        exact hi.placed.homeless nofun ht (hi.placed.nodup _).not_mem_erase
      · exact ih hi₁ fun u hu => hsub u (by simp [hu])

theorem requeue_inv (hi : q.Inv) : q.requeue.Inv :=
  dispatch_inv (setReady_placed (setBlock_placed hi.placed)
    fun hr => setBlock_homeless hi.placed hr (hi.mem_ready hr))

end Queues

variable [HasAddr (TaskNode T)]

/-- `set_block`, `set_ready` and `dispatch` in a row, as `yield` and the
timer interrupt call them for the running task. -/
theorem requeue_sim (hm : k.Models q) (hi : q.Inv) :
    ∃ k₁ k₂ k', tssTaskSetBlock k q.running = some k₁ ∧ tssTaskSetReady k₁ q.running = some k₂
      ∧ tssTaskDispatch k₂ = some k' ∧ k'.Models q.requeue := by
  obtain ⟨k₁, h₁, hm₁⟩ := tssTaskSetBlock_sim hm hi.mem_ready
  obtain ⟨k₂, h₂, hm₂⟩ := tssTaskSetReady_sim hm₁
    fun hr => Queues.setBlock_homeless hi.placed hr (hi.mem_ready hr)
  obtain ⟨k', h', hm'⟩ := tssTaskDispatch_sim hm₂
  exact ⟨k₁, k₂, k', h₁, h₂, h', hm'⟩

theorem tssTaskYield_sim (hm : k.Models q) (hi : q.Inv) :
    ∃ k', tssTaskYield k = some k' ∧ k'.Models q.yield ∧ q.yield.Inv := by
  have hsize : k.heap.size .readyList > 1 ↔ 1 < (q.lists .readyList).length := by
    rw [← hm.size, gt_iff_lt, UInt32.lt_iff_toNat_lt]
    rfl
  unfold tssTaskYield Queues.yield
  by_cases hlen : 1 < (q.lists .readyList).length
  · obtain ⟨k₁, k₂, k', h₁, h₂, h', hm'⟩ := requeue_sim hm hi
    simp only [hsize.mpr hlen, hlen, reduceIte, hm.vars, hi.runningTask_eq, Option.bind_eq_bind,
      Option.bind_some, h₁, h₂, h']
    exact ⟨k', rfl, hm', Queues.requeue_inv hi⟩
  · simp only [mt hsize.mp hlen, hlen, reduceIte]
    exact ⟨k, rfl, hm, hi⟩

/-- The walk of the timer interrupt, from a node of the sleep list on. -/
theorem tssTaskTsLoop_sim {as ts : List T} {n : Nat} (hm : k.Models q) (hp : Placed q.lists)
    (hl : q.lists .sleepList = as ++ ts) (hn : ts.length ≤ n) :
    ∃ k', tssTaskTsLoop n k (ts.head?.map .runningNode) = some k'
      ∧ k'.Models (Queues.wake ts q) := by
  induction ts generalizing k q as n with
  | nil => exact ⟨k, by cases n <;> rfl, hm⟩
  | cons t ts ih =>
      obtain ⟨n, rfl⟩ : ∃ m, n = m + 1 := ⟨n - 1, by simp at hn; omega⟩
      have hmem : t ∈ q.lists .sleepList := by simp [hl]
      have ht : t ≠ idleTask := fun h => hp.idle .sleepList nofun (h ▸ hmem)
      let vars := q.vars.setTask t
        { q.vars.task t with sleep := (q.vars.task t).sleep - 1 }
      have hm₁ : Kernel.Models { k with vars } { q with vars } := hm.withVars
      simp only [List.head?_cons, Option.map_some, tssTaskTsLoop, taskOfRunningNode,
        Option.bind_eq_bind, Option.bind_some, hm.vars, Queues.wake]
      by_cases hleft : (q.vars.task t).sleep - 1 = 0
      · -- the task wakes up, and its node is now the last one of the ready list
        obtain ⟨heap, he, hm₂⟩ := hm₁.remove hmem
        have hfree : t ≠ idleTask → Homeless (Function.update q.lists .sleepList
            ((q.lists .sleepList).erase t)) t :=
          fun _ => hp.homeless nofun hmem (hp.nodup _).not_mem_erase
        obtain ⟨k₃, h₃, hm₃⟩ := tssTaskSetReady_sim hm₂ hfree
        have hready : ((({ q with vars }.setList .sleepList
            ((q.lists .sleepList).erase t)).setReady t).lists .readyList)
            = q.lists .readyList ++ t :: [] := by
          have hne : (TaskList.readyList : TaskList X S) ≠ .sleepList := nofun
          simp only [Queues.setReady, if_neg ht, Queues.setList_lists_self,
            Queues.setList_lists_of_ne hne]
        have hnext := hm₃.next hready
        simp only [TaskList.node, List.head?_nil, Option.map_none] at he hnext
        refine ⟨k₃, ?_, ?_⟩
        · simp only [eq_true hleft, reduceIte, tssTaskNotify, he]
          change (tssTaskSetReady { heap, vars } t).bind (fun k =>
            tssTaskTsLoop n k (k.heap.next (.runningNode t))) = some k₃
          rw [h₃, Option.bind_some, hnext]
          cases n <;> rfl
        · simp only [eq_true hleft, reduceIte]
          exact hm₃
      · have hnext : k.heap.next (.runningNode t) = ts.head?.map .runningNode := hm.next hl
        obtain ⟨k', h', hm'⟩ := @ih { k with vars } { q with vars } (as ++ [t]) n hm₁ hp
          (by simpa using hl) (by simpa using hn)
        refine ⟨k', ?_, ?_⟩
        · simp only [eq_false hleft, reduceIte]
          rw [← h', ← hnext]
        · simp only [eq_false hleft, reduceIte]
          exact hm'

theorem tssTaskTs_sim (hm : k.Models q) (hi : q.Inv) :
    ∃ k', tssTaskTs k = some k' ∧ k'.Models q.tick ∧ q.tick.Inv := by
  have hl : q.lists .sleepList = [] ++ q.lists .sleepList := rfl
  obtain ⟨k₁, h₁, hm₁⟩ := tssTaskTsLoop_sim hm hi.placed hl (hm.size .sleepList).ge
  have hi₁ := Queues.wake_inv hi fun t ht => (ht : t ∈ q.lists .sleepList)
  unfold tssTaskTs Queues.tick
  simp only [listGetFirst, Heap.mem_head, hm.head, TaskList.node] at h₁ ⊢
  generalize Queues.wake (q.lists .sleepList) q = q₁ at hm₁ hi₁ ⊢
  simp only [Option.bind_eq_bind, Option.bind_some, h₁, hm₁.vars, hi₁.runningTask_eq]
  by_cases hticks : (q₁.vars.task q₁.running).ticks - 1 = 0
  · simp only [eq_true hticks, reduceIte]
    let vars := q₁.vars.setTask q₁.running
      { q₁.vars.task q₁.running with ticks := (q₁.vars.task q₁.running).slices }
    have hm₂ : Kernel.Models { k₁ with vars } { q₁ with vars } := hm₁.withVars
    have hi₂ : Queues.Inv { q₁ with vars } := ⟨hi₁.placed, hi₁.running⟩
    obtain ⟨k₃, k₄, k', h₃, h₄, h', hm'⟩ := requeue_sim hm₂ hi₂
    refine ⟨k', ?_, hm', Queues.requeue_inv hi₂⟩
    have h₃' : tssTaskSetBlock { k₁ with vars } q₁.running = some k₃ := h₃
    have h₄' : tssTaskSetReady k₃ q₁.running = some k₄ := h₄
    change (tssTaskSetBlock { k₁ with vars } q₁.running).bind (fun k =>
      (tssTaskSetReady k q₁.running).bind tssTaskDispatch) = some k'
    rw [h₃', Option.bind_some, h₄', Option.bind_some, h']
  · simp only [eq_false hticks, reduceIte]
    exact ⟨_, rfl, hm₁.withVars, hi₁.placed, hi₁.running⟩

theorem moveTo_sim (hm : k.Models q) (hi : q.Inv) (hr : q.running ≠ idleTask)
    (hl : l ≠ .taskList) (hl' : l ≠ .readyList) :
    ∃ k₁ heap, tssTaskSetBlock k q.running = some k₁
      ∧ listInsertBack k₁.heap l (l.node q.running) = some heap
      ∧ Kernel.Models { k₁ with heap } (q.moveTo l) ∧ Placed (q.moveTo l).lists := by
  have hmem := hi.mem_ready hr
  have hh := Queues.setBlock_homeless hi.placed hr hmem
  have hsame : (q.setBlock q.running).lists l = q.lists l := by
    rw [Queues.setBlock, if_neg hr, Queues.setList_lists_of_ne hl']
  obtain ⟨k₁, h₁, hm₁⟩ := tssTaskSetBlock_sim hm fun _ => hmem
  obtain ⟨heap, h₂, hm₂⟩ := hm₁.insertBack (hh.free hl)
  have hp := (Queues.setBlock_placed hi.placed).append hl hh hr
  rw [hsame] at hm₂ hp
  exact ⟨k₁, heap, h₁, h₂, hm₂, hp⟩

theorem tssTaskSleep_sim (hm : k.Models q) (hi : q.Inv) (hr : q.running ≠ idleTask)
    (ms : UInt32) :
    ∃ k', tssTaskSleep k ms = some k' ∧ k'.Models (q.sleep ms) ∧ (q.sleep ms).Inv := by
  unfold tssTaskSleep tssTaskSetSleep Queues.sleep
  simp only [hm.vars, hi.runningTask_eq, Option.bind_eq_bind, Option.bind_some]
  by_cases hms : ms = 0
  · obtain ⟨k₁, h₁, hm₁⟩ := tssTaskSetBlock_sim hm hi.mem_ready
    obtain ⟨k', h', hm'⟩ := tssTaskDispatch_sim hm₁
    simp only [eq_true hms, reduceIte, h₁, Option.bind_some]
    exact ⟨k', h', hm', Queues.dispatch_inv (Queues.setBlock_placed hi.placed)⟩
  · obtain ⟨k₁, heap, h₁, h₂, hm₂, hp⟩ := moveTo_sim hm hi hr
      (nofun : (TaskList.sleepList : TaskList X S) ≠ .taskList) nofun
    have hv₁ : k₁.vars = q.vars := hm₂.vars.trans Queues.setBlock_vars
    let vars := q.vars.setTask q.running
      { q.vars.task q.running with sleep := ms, state := .sleep }
    have hm₃ : Kernel.Models { heap, vars } { q.moveTo .sleepList with vars } := hm₂.withVars
    obtain ⟨k', h', hm'⟩ := tssTaskDispatch_sim hm₃
    simp only [TaskList.node] at h₂
    simp only [eq_false hms, reduceIte, h₁, h₂, hv₁, Option.bind_some]
    exact ⟨k', h', hm', Queues.dispatch_inv hp⟩

theorem mutexLock_sim (hm : k.Models q) (hi : q.Inv) (hr : q.running ≠ idleTask) (m : X) :
    ∃ k', mutexLock k m = some k' ∧ k'.Models (q.lock m) ∧ (q.lock m).Inv := by
  unfold mutexLock Queues.lock
  simp only [hm.vars]
  by_cases h0 : (q.vars.mutex m).locker = 0
  · simp only [eq_true h0, reduceIte]
    exact ⟨_, rfl, hm.withVars, hi.placed, hi.running⟩
  simp only [eq_false h0, reduceIte]
  by_cases ho : (q.vars.mutex m).owner = q.vars.runningTask
  · simp only [eq_true ho, reduceIte]
    exact ⟨_, rfl, hm.withVars, hi.placed, hi.running⟩
  · simp only [eq_false ho, reduceIte]
    obtain ⟨k₁, heap, h₁, h₂, hm₂, hp⟩ := moveTo_sim hm hi hr
      (nofun : (TaskList.mutexWaitList m : TaskList X S) ≠ .taskList) nofun
    obtain ⟨k', h', hm'⟩ := tssTaskDispatch_sim hm₂
    simp only [TaskList.node] at h₂
    simp only [hi.runningTask_eq, h₁, h₂, Option.bind_eq_bind, Option.bind_some]
    exact ⟨k', h', hm', Queues.dispatch_inv hp⟩

theorem semWait_sim (hm : k.Models q) (hi : q.Inv) (hr : q.running ≠ idleTask) (s : S) :
    ∃ k', semWait k s = some k' ∧ k'.Models (q.wait s) ∧ (q.wait s).Inv := by
  unfold semWait Queues.wait
  simp only [hm.vars]
  by_cases hc : q.vars.counter s > 0
  · simp only [eq_true hc, reduceIte]
    exact ⟨_, rfl, hm.withVars, hi.placed, hi.running⟩
  · simp only [eq_false hc, reduceIte]
    obtain ⟨k₁, heap, h₁, h₂, hm₂, hp⟩ := moveTo_sim hm hi hr
      (nofun : (TaskList.semWaitList s : TaskList X S) ≠ .taskList) nofun
    obtain ⟨k', h', hm'⟩ := tssTaskDispatch_sim hm₂
    simp only [TaskList.node] at h₂
    simp only [hi.runningTask_eq, h₁, h₂, Option.bind_eq_bind, Option.bind_some]
    exact ⟨k', h', hm', Queues.dispatch_inv hp⟩

/-- The first waiter of a list is taken out and made ready. -/
theorem grant_sim (hm : k.Models q) (hi : q.Inv) (hl : q.lists l = t :: ts)
    (hne : l ≠ .taskList) (hne' : l ≠ .readyList) :
    ∃ heap k₁, listRemoveFront k.heap l = some (heap, some (l.node t))
      ∧ tssTaskSetReady { k with heap } t = some k₁
      ∧ k₁.Models ((q.setList l ts).setReady t) ∧ ((q.setList l ts).setReady t).Inv := by
  have hnd := hi.placed.nodup l
  rw [hl, List.nodup_cons] at hnd
  have hh : t ≠ idleTask → Homeless (q.setList l ts).lists t :=
    fun _ => hi.placed.homeless hne (by simp [hl]) hnd.1
  obtain ⟨heap, h₁, hm₁⟩ := hm.removeFront hl
  obtain ⟨k₁, h₂, hm₂⟩ := tssTaskSetReady_sim hm₁ hh
  have hsub : ts.Sublist (q.lists l) := by
    rw [hl]
    exact List.sublist_cons_self ..
  have hi₁ := Queues.setList_inv hi hne' hsub
  exact ⟨heap, k₁, h₁, h₂, hm₂, Queues.setReady_inv hi₁ hh⟩

theorem semNotify_sim (hm : k.Models q) (hi : q.Inv) (s : S) :
    ∃ k', semNotify k s = some k' ∧ k'.Models (q.notify s) ∧ (q.notify s).Inv := by
  unfold semNotify Queues.notify
  simp only [hm.isEmpty, Option.bind_eq_bind, Option.bind_some, hm.vars]
  cases hl : q.lists (.semWaitList s) with
  | nil => exact ⟨_, rfl, hm.withVars, hi.placed, hi.running⟩
  | cons t ts =>
      obtain ⟨heap, k₁, h₁, h₂, hm₁, hi₁⟩ := grant_sim hm hi hl nofun nofun
      obtain ⟨k', h', hm'⟩ := tssTaskDispatch_sim hm₁
      refine ⟨k', ?_, hm', Queues.dispatch_inv hi₁.placed⟩
      rw [hm.vars] at h₂
      simp only [List.isEmpty_cons, Bool.not_false, reduceIte, h₁, h₂, h', Option.bind_some,
        TaskList.node, taskOfWaitNode]

theorem mutexUnlock_sim (hm : k.Models q) (hi : q.Inv) (m : X) :
    ∃ k', mutexUnlock k m = some k' ∧ k'.Models (q.unlock m) ∧ (q.unlock m).Inv := by
  unfold mutexUnlock Queues.unlock
  simp only [hm.isEmpty, Option.bind_eq_bind, Option.bind_some, hm.vars]
  by_cases ho : (q.vars.mutex m).owner = q.vars.runningTask
  · simp only [eq_true ho, reduceIte]
    by_cases h0 : (q.vars.mutex m).locker - 1 = 0
    · simp only [eq_true h0, reduceIte]
      cases hl : q.lists (.mutexWaitList m) with
      | nil => exact ⟨_, rfl, hm.withVars, hi.placed, hi.running⟩
      | cons t ts =>
          let vars := q.vars.setMutex m
            { owner := none, locker := (q.vars.mutex m).locker - 1 }
          have hm₁ : Kernel.Models { k with vars } { q with vars } := hm.withVars
          have hi₁ : Queues.Inv { q with vars } := ⟨hi.placed, hi.running⟩
          obtain ⟨heap, k₁, h₁, h₂, hm₂, hi₂⟩ := grant_sim hm₁ hi₁ hl nofun nofun
          obtain ⟨k', h', hm'⟩ := tssTaskDispatch_sim hm₂.withVars
          simp only [List.isEmpty_cons, Bool.not_false, reduceIte, h₁, Option.bind_some,
            TaskList.node, taskOfWaitNode]
          have h₂' : tssTaskSetReady { heap, vars } t = some k₁ := h₂
          refine ⟨k', ?_, hm', Queues.dispatch_inv hi₂.placed⟩
          rw [h₂', Option.bind_some, hm₂.vars]
          exact h'
    · simp only [eq_false h0, reduceIte]
      exact ⟨_, rfl, hm.withVars, hi.placed, hi.running⟩
  · simp only [eq_false ho, reduceIte]
    exact ⟨k, rfl, hm, hi⟩

/-- One step of the system: it comes back, does to the queues what it
should, and keeps the invariant. A call needs a task that makes it. -/
theorem Kernel.step_sim {a : Action X S} (hm : k.Models q) (hi : q.Inv)
    (hr : a.IsCall → q.running ≠ idleTask) :
    ∃ k', k.step a = some k' ∧ k'.Models (q.step a) ∧ (q.step a).Inv := by
  cases a with
  | lock m => exact mutexLock_sim hm hi (hr rfl) m
  | unlock m => exact mutexUnlock_sim hm hi m
  | wait s => exact semWait_sim hm hi (hr rfl) s
  | notify s => exact semNotify_sim hm hi s
  | yield => exact tssTaskYield_sim hm hi
  | sleep ms => exact tssTaskSleep_sim hm hi (hr rfl) ms
  | tick => exact tssTaskTs_sim hm hi

/-- The system is up; only the list `l` may not have been initialised. -/
def Kernel.UpBut (k : Kernel T X S) (l : TaskList X S) : Prop :=
  ∃ q : Queues T X S, q.Inv ∧ q.lists l = [] ∧ k.vars = q.vars
    ∧ k.heap.Holds (Function.update q.seqs l none)

/-- `list_init` makes the system complete. -/
theorem Kernel.UpBut.listInit (hk : k.UpBut l) :
    ∃ heap q, listInit k.heap l = some heap ∧ Kernel.Models { k with heap } q ∧ q.Inv
      ∧ q.lists l = [] := by
  obtain ⟨q, hi, hl, hv, hh⟩ := hk
  have hvalid : (ListOp.init l).Valid (Function.update q.seqs l none) := trivial
  obtain ⟨heap, he, hh', -⟩ := ListOp.exec_spec hh hvalid
  refine ⟨heap, q, ?_, ⟨hv, ?_⟩, hi, hl⟩
  · simpa [ListOp.exec, ListOp.apply, ListOp.effect] using he
  · have hq : (ListOp.apply (Function.update q.seqs l none) (.init l)).1 = q.seqs := by
      simp [ListOp.apply, ListOp.effect, ListOp.list, Queues.seqs, hl]
    rwa [hq] at hh'

/-- A call needs a task that makes it, and the idle task makes none. -/
def Kernel.Calls (k : Kernel T X S) (a : Action X S) : Prop :=
  a.IsCall → k.vars.runningTask ≠ some idleTask

instance (k : Kernel T X S) (a : Action X S) : Decidable (k.Calls a) :=
  inferInstanceAs (Decidable (_ → _))

omit [DecidableEq T] [DecidableEq X] [DecidableEq S] [HasAddr (TaskNode T)] in
theorem Kernel.Calls.running_ne {a : Action X S} (hc : k.Calls a) (hm : k.Models q)
    (hi : q.Inv) : a.IsCall → q.running ≠ idleTask := by
  intro ha he
  refine hc ha ?_
  rw [hm.vars, hi.runningTask_eq, he]

end Invariant

/-! ## What the scheduler leaves alone -/

section Frames

variable {T X S : Type} {q q' q'' : Queues T X S}

namespace Queues

/-- No mutex, no semaphore and no wait list has changed. -/
structure Keeps (q q' : Queues T X S) : Prop where
  mutex : q'.vars.mutex = q.vars.mutex
  counter : q'.vars.counter = q.vars.counter
  lists : ∀ l, l ≠ .readyList → l ≠ .sleepList → q'.lists l = q.lists l

theorem Keeps.refl (q : Queues T X S) : Keeps q q := ⟨rfl, rfl, fun _ _ _ => rfl⟩

theorem Keeps.trans (h : Keeps q q') (h' : Keeps q' q'') : Keeps q q'' :=
  ⟨h'.mutex.trans h.mutex, h'.counter.trans h.counter,
    fun l hl hl' => (h'.lists l hl hl').trans (h.lists l hl hl')⟩

variable [DecidableEq T] [DecidableEq X] [DecidableEq S] [IdleTask T] {l : TaskList X S}
  {t : T} {ts : List T}

omit [DecidableEq X] [DecidableEq S] [IdleTask T] in
theorem setTask_keeps (task : TssTask) : Keeps q { q with vars := q.vars.setTask t task } :=
  ⟨rfl, rfl, fun _ _ _ => rfl⟩

omit [DecidableEq T] [IdleTask T] in
theorem setList_keeps (hl : l = .readyList ∨ l = .sleepList) : Keeps q (q.setList l ts) := by
  refine ⟨rfl, rfl, fun l' h h' => setList_lists_of_ne ?_⟩
  rintro rfl
  exact hl.elim h h'

theorem setBlock_keeps : Keeps q (q.setBlock t) := by
  unfold setBlock
  split
  · exact Keeps.refl q
  · exact setList_keeps (Or.inl rfl)

theorem setReady_keeps : Keeps q (q.setReady t) := by
  unfold setReady
  split
  · exact Keeps.refl q
  · exact (setTask_keeps _).trans (setList_keeps (Or.inl rfl))

omit [DecidableEq X] [DecidableEq S] in
theorem dispatch_keeps : Keeps q q.dispatch := by
  unfold dispatch
  dsimp only
  split
  · exact Keeps.refl q
  · exact ⟨rfl, rfl, fun _ _ _ => rfl⟩

theorem requeue_keeps : Keeps q q.requeue :=
  (setBlock_keeps.trans setReady_keeps).trans dispatch_keeps

theorem yield_keeps : Keeps q q.yield := by
  unfold yield
  split
  · exact requeue_keeps
  · exact Keeps.refl q

theorem wake_keeps : Keeps q (wake ts q) := by
  induction ts generalizing q with
  | nil => exact Keeps.refl q
  | cons t ts ih =>
      simp only [wake]
      split
      · exact ((setTask_keeps _).trans (setList_keeps (Or.inr rfl))).trans setReady_keeps
      · exact (setTask_keeps _).trans ih

theorem tick_keeps : Keeps q q.tick := by
  unfold tick
  dsimp only
  split
  · exact (wake_keeps.trans (setTask_keeps _)).trans requeue_keeps
  · exact wake_keeps.trans (setTask_keeps _)

theorem sleep_keeps (ms : UInt32) : Keeps q (q.sleep ms) := by
  have hmove : Keeps q (q.moveTo .sleepList) :=
    setBlock_keeps.trans (setList_keeps (Or.inr rfl))
  unfold sleep
  split
  · exact setBlock_keeps.trans dispatch_keeps
  · refine Keeps.trans ?_ dispatch_keeps
    exact ⟨rfl, rfl, hmove.lists⟩

/-- A task that gives up the processor does not get it back at once. -/
theorem moveTo_dispatch_runningTask (hi : q.Inv) (hr : q.running ≠ idleTask)
    (hl : l ≠ .readyList) :
    (q.moveTo l).dispatch.vars.runningTask ≠ q.vars.runningTask := by
  obtain ⟨ts, hts⟩ := hi.ready_eq hr
  have hnd := hi.placed.nodup .readyList
  rw [hts, List.nodup_cons] at hnd
  have hready : (q.moveTo l).lists .readyList = ts := by
    rw [moveTo, setList_lists_of_ne hl.symm, setBlock, if_neg hr, setList_lists_self, hts,
      List.erase_cons_head]
  rw [dispatch_runningTask, hready, hi.runningTask_eq, Ne, Option.some.injEq]
  cases ts with
  | nil => exact hr.symm
  | cons u us =>
      rintro h
      exact hnd.1 (by simp [← h])

theorem moveTo_vars : (q.moveTo l).vars = q.vars := setBlock_vars

theorem moveTo_lists_self : (q.moveTo l).lists l = q.lists l ++ [q.running] :=
  setList_lists_self

theorem moveTo_lists_of_ne {l' : TaskList X S} (hl : l' ≠ l) (hl' : l' ≠ .readyList) :
    (q.moveTo l).lists l' = q.lists l' := by
  rw [moveTo, setList_lists_of_ne hl, setBlock]
  split
  · rfl
  · rw [setList_lists_of_ne hl']

end Queues

end Frames

/-! ## A small system -/

/-- The idle task and two more. -/
inductive ThreeTasks where
  | idle
  | first
  | second
deriving DecidableEq

instance : IdleTask ThreeTasks := ⟨.idle⟩

instance : HasAddr (TaskNode ThreeTasks) where
  addr
    | .runningNode t => 0x1000 + 8 * t.ctorIdx.toUInt32
    | .taskNode t => 0x2000 + 8 * t.ctorIdx.toUInt32
    | .waitNode t => 0x3000 + 8 * t.ctorIdx.toUInt32
  addr_injective := by
    rintro (⟨_ | _ | _⟩ | ⟨_ | _ | _⟩ | ⟨_ | _ | _⟩) (⟨_ | _ | _⟩ | ⟨_ | _ | _⟩ | ⟨_ | _ | _⟩) h <;>
      first | rfl | exact absurd h (by decide)
  addr_ne_zero := by
    rintro (⟨_ | _ | _⟩ | ⟨_ | _ | _⟩ | ⟨_ | _ | _⟩) <;> decide

/-- Two tasks are ready and the first one runs. -/
def twoReady : Kernel ThreeTasks Unit Unit where
  heap :=
    { pre := fun n => if n = .runningNode .second then some (.runningNode .first) else none
      next := fun n => if n = .runningNode .first then some (.runningNode .second) else none
      head := fun l => if l = .readyList then some (.runningNode .first) else none
      tail := fun l => if l = .readyList then some (.runningNode .second) else none
      size := fun l => if l = .readyList then 2 else 0 }
  vars :=
    { task := fun _ => { state := .ready, ticks := 10, slices := 10, sleep := 0 }
      runningTask := some .first
      mutex := fun _ => { owner := none, locker := 0 }
      counter := fun _ => 0 }

theorem twoReady_upBut {l : TaskList Unit Unit} (hl : l ≠ .readyList) : twoReady.UpBut l := by
  refine ⟨{ lists := fun l => if l = .readyList then [.first, .second] else [],
            vars := twoReady.vars }, ⟨⟨?_, ?_, ?_⟩, Or.inr ⟨.first, [.second], rfl, rfl⟩⟩,
    if_neg hl, rfl, ?_, ?_⟩
  · intro l
    dsimp only
    split <;> simp
  · intro l l' _ _ hne t ht ht'
    by_cases h : l = .readyList <;> by_cases h' : l' = .readyList <;> simp_all
  · intro l _
    dsimp only
    split <;> simp [idleTask]
  · intro l' ns h
    by_cases hll : l' = l
    · simp [hll] at h
    rw [Function.update_of_ne hll] at h
    obtain rfl := Option.some.inj h
    rw [Heap.rep_iff_dseg]
    by_cases hr : l' = .readyList
    · subst hr
      simp [twoReady, TaskList.node, dseg_cons]
    · simp [twoReady, hr]
  · intro l₁ l₂ ns₁ ns₂ hne h₁ h₂ n hn₁ hn₂
    by_cases hl₁ : l₁ = l
    · simp [hl₁] at h₁
    by_cases hl₂ : l₂ = l
    · simp [hl₂] at h₂
    rw [Function.update_of_ne hl₁] at h₁
    rw [Function.update_of_ne hl₂] at h₂
    obtain rfl := Option.some.inj h₁
    obtain rfl := Option.some.inj h₂
    by_cases h : l₁ = .readyList <;> by_cases h' : l₂ = .readyList <;> simp_all

end Csos
