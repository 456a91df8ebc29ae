import Csos.Queues

/-!
# No task is lost (`tss_task_init` and the scheduler)

A task that has been set up stays on exactly one of the ready list, the
sleep list and the wait lists. Every function of the scheduler takes a
task out of one of these lists only to put it into another one
(`Moves`), with one exception: `tss_task_sleep(0)` takes the running
task off the ready list and puts it nowhere, because
`tss_task_set_sleep` returns early. `Kernel.sleep_zero_loses` is that
exception, `scheduler_noneLost` the law for all runs without it.
-/

namespace Csos

open Lib

/-! ## `tss_task_init` and the boot sequence -/

section Functions

variable {T X S : Type} [DecidableEq T] [DecidableEq X] [DecidableEq S] [IdleTask T]

/-- `TASK_DEFAULT_TICKS`. -/
abbrev taskDefaultTicks : UInt32 := 10

/-- `tss_task_init`, where `r` is what `tss_init` returns. -/
def tssTaskInit (k : Kernel T X S) (task : T) (r : Int32) : Option (Kernel T X S × Int32) :=
  if r < 0 then some (k, r)
  else do
    let vars := k.vars.setTask task { k.vars.task task with state := .created }
    let heap ← listNodeInit k.heap (.taskNode task)
    let heap ← listNodeInit heap (.runningNode task)
    let heap ← listInsertFront heap .taskList (.taskNode task)
    let k ← tssTaskSetReady { heap, vars } task
    let fields := { k.vars.task task with
      ticks := taskDefaultTicks, slices := taskDefaultTicks, sleep := 0 }
    return ({ k with vars := k.vars.setTask task fields }, 0)

/-- `tss_task_queue_init`, where `r` is what `tss_init` returns for the
idle task. -/
def tssTaskQueueInit (k : Kernel T X S) (r : Int32) : Option (Kernel T X S) := do
  let heap ← listInit k.heap .readyList
  let heap ← listInit heap .taskList
  let heap ← listInit heap .sleepList
  let (k, _) ← tssTaskInit { heap, vars := { k.vars with runningTask := none } } idleTask r
  return k

/-- `default_tss_task_init`. -/
def defaultTssTaskInit (k : Kernel T X S) (defaultTask : T) (r : Int32) :
    Option (Kernel T X S) := do
  let (k, _) ← tssTaskInit k defaultTask r
  return { k with vars := { k.vars with runningTask := some defaultTask } }

/-- What can happen next: a task is set up, or one of the actions. -/
inductive SchedOp (T X S : Type) where
  | init (task : T) (r : Int32)
  | act (a : Action X S)
deriving DecidableEq

def Kernel.schedStep (k : Kernel T X S) : SchedOp T X S → Option (Kernel T X S)
  | .init task r => (tssTaskInit k task r).map Prod.fst
  | .act a => k.step a

/-- A task is set up once, and calls are made by a task. -/
def SchedOp.Legal (k : Kernel T X S) : SchedOp T X S → Prop
  | init task _ => ∀ ns, k.heap.Rep .taskList ns → .taskNode task ∉ ns
  | act a => k.Calls a

end Functions

/-! ## Tasks keep a place -/

section Homed

variable {T X S : Type} {q q' q'' : Queues T X S} {l : TaskList X S} {t u : T} {ts : List T}

/-- `t` is ready, asleep or waiting. -/
def Homed (lists : TaskList X S → List T) (t : T) : Prop :=
  ∃ l, l ≠ .taskList ∧ t ∈ lists l

/-- No task comes, and none goes. -/
structure Moves (q q' : Queues T X S) : Prop where
  tasks : q'.lists .taskList = q.lists .taskList
  homed : ∀ t, Homed q'.lists t ↔ Homed q.lists t

theorem Moves.of_lists (h : q'.lists = q.lists) : Moves q q' :=
  ⟨by rw [h], fun t => by rw [h]⟩

theorem Moves.refl (q : Queues T X S) : Moves q q := .of_lists rfl

theorem Moves.trans (h : Moves q q') (h' : Moves q' q'') : Moves q q'' :=
  ⟨h'.tasks.trans h.tasks, fun t => (h'.homed t).trans (h.homed t)⟩

/-- A task that is taken out of one place and put into another. -/
theorem Moves.of_take_put {q₁ q₂ : Queues T X S}
    (htasks : q₂.lists .taskList = q.lists .taskList) (ht : Homed q.lists t)
    (htake : ∀ u, Homed q₁.lists u ↔ Homed q.lists u ∧ u ≠ t)
    (hput : ∀ u, Homed q₂.lists u ↔ Homed q₁.lists u ∨ u = t) : Moves q q₂ := by
  refine ⟨htasks, fun u => ?_⟩
  rw [hput, htake]
  by_cases hu : u = t
  · subst hu
    exact ⟨fun _ => ht, fun _ => Or.inr rfl⟩
  · exact ⟨fun h => h.elim And.left fun h => absurd h hu, fun h => Or.inl ⟨h, hu⟩⟩

variable [DecidableEq X] [DecidableEq S]

theorem homed_put (hl : l ≠ .taskList) :
    Homed (q.setList l (q.lists l ++ [t])).lists u ↔ Homed q.lists u ∨ u = t := by
  constructor
  · rintro ⟨l', hl', hmem⟩
    by_cases heq : l' = l
    · subst heq
      rw [Queues.setList_lists_self, List.mem_append, List.mem_singleton] at hmem
      exact hmem.imp_left fun h => ⟨l', hl', h⟩
    · rw [Queues.setList_lists_of_ne heq] at hmem
      exact Or.inl ⟨l', hl', hmem⟩
  · rintro (⟨l', hl', hmem⟩ | rfl)
    · refine ⟨l', hl', ?_⟩
      by_cases heq : l' = l
      · subst heq
        rw [Queues.setList_lists_self]
        exact List.mem_append_left _ hmem
      · rwa [Queues.setList_lists_of_ne heq]
    · refine ⟨l, hl, ?_⟩
      rw [Queues.setList_lists_self]
      exact List.mem_append_right _ (List.mem_singleton_self u)

variable [DecidableEq T] [IdleTask T]

theorem homed_take (hp : Placed q.lists) (hl : l ≠ .taskList) (ht : t ∈ q.lists l) :
    Homed (q.setList l ((q.lists l).erase t)).lists u ↔ Homed q.lists u ∧ u ≠ t := by
  constructor
  · rintro ⟨l', hl', hmem⟩
    by_cases heq : l' = l
    · subst heq
      rw [Queues.setList_lists_self, (hp.nodup l').mem_erase_iff] at hmem
      exact ⟨⟨l', hl', hmem.2⟩, hmem.1⟩
    · rw [Queues.setList_lists_of_ne heq] at hmem
      refine ⟨⟨l', hl', hmem⟩, ?_⟩
      rintro rfl
      exact hp.disjoint l l' hl hl' (Ne.symm heq) u ht hmem
  · rintro ⟨⟨l', hl', hmem⟩, hne⟩
    refine ⟨l', hl', ?_⟩
    by_cases heq : l' = l
    · subst heq
      rw [Queues.setList_lists_self]
      exact (List.mem_erase_of_ne hne).mpr hmem
    · rwa [Queues.setList_lists_of_ne heq]

theorem setReady_homed (hi : t ≠ idleTask) :
    Homed (q.setReady t).lists u ↔ Homed q.lists u ∨ u = t := by
  rw [Queues.setReady, if_neg hi]
  exact homed_put (by simp)

theorem setReady_tasks : (q.setReady t).lists .taskList = q.lists .taskList :=
  Queues.setReady_keeps.lists _ nofun nofun

/-- A task that wakes up or is granted what it waits for. -/
theorem take_setReady_moves (hp : Placed q.lists) (hl : l ≠ .taskList) (ht : t ∈ q.lists l) :
    Moves q ((q.setList l ((q.lists l).erase t)).setReady t) := by
  have hi : t ≠ idleTask := fun h => hp.idle l hl (h ▸ ht)
  refine .of_take_put ?_ ⟨l, hl, ht⟩ (fun u => homed_take hp hl ht) fun u => setReady_homed hi
  rw [setReady_tasks, Queues.setList_lists_of_ne (Ne.symm hl)]

theorem requeue_moves (hi : q.Inv) : Moves q q.requeue := by
  refine Moves.trans ?_ (.of_lists Queues.dispatch_lists)
  by_cases hr : q.running = idleTask
  · refine .of_lists ?_
    rw [Queues.setReady, if_pos hr, Queues.setBlock, if_pos hr]
  · rw [Queues.setBlock, if_neg hr]
    exact take_setReady_moves hi.placed (by simp) (hi.mem_ready hr)

theorem moveTo_moves (hi : q.Inv) (hr : q.running ≠ idleTask) (hl : l ≠ .taskList)
    (hl' : l ≠ .readyList) : Moves q (q.moveTo l) := by
  have hmem := hi.mem_ready hr
  have hsame : q.lists l = (q.setBlock q.running).lists l := by
    rw [Queues.setBlock, if_neg hr, Queues.setList_lists_of_ne hl']
  have htasks := @Queues.moveTo_lists_of_ne _ _ _ q _ _ _ _ l .taskList (Ne.symm hl)
    (by simp)
  refine @Moves.of_take_put _ _ _ q q.running (q.setBlock q.running) _ htasks
    ⟨.readyList, by simp, hmem⟩ (fun u => ?_) fun u => ?_
  · rw [Queues.setBlock, if_neg hr]
    exact homed_take hi.placed (by simp) hmem
  · rw [Queues.moveTo, hsame]
    exact homed_put hl

theorem wake_moves (hp : Placed q.lists) (hsub : ∀ t ∈ ts, t ∈ q.lists .sleepList) :
    Moves q (Queues.wake ts q) := by
  induction ts generalizing q with
  | nil => exact .refl q
  | cons t ts ih =>
      have ht := hsub t (List.mem_cons_self ..)
      let vars := q.vars.setTask t { q.vars.task t with sleep := (q.vars.task t).sleep - 1 }
      simp only [Queues.wake]
      split
      case isTrue =>
        refine (Moves.of_lists (rfl : { q with vars }.lists = q.lists)).trans ?_
        exact @take_setReady_moves _ _ _ { q with vars } .sleepList t _ _ _ _ hp (by simp) ht
      case isFalse =>
        refine (Moves.of_lists (rfl : { q with vars }.lists = q.lists)).trans ?_
        exact @ih { q with vars } hp fun u hu => hsub u (List.mem_cons_of_mem _ hu)

theorem tick_moves (hi : q.Inv) : Moves q q.tick := by
  have hwake := wake_moves hi.placed fun t (ht : t ∈ q.lists .sleepList) => ht
  have hi₁ := Queues.wake_inv hi fun t (ht : t ∈ q.lists .sleepList) => ht
  unfold Queues.tick
  generalize Queues.wake (q.lists .sleepList) q = q₁ at hwake hi₁ ⊢
  let vars := q₁.vars.setTask q₁.running
    { q₁.vars.task q₁.running with ticks := (q₁.vars.task q₁.running).slices }
  dsimp only
  split
  case isTrue =>
    refine hwake.trans ((Moves.of_lists (rfl : { q₁ with vars }.lists = q₁.lists)).trans ?_)
    exact requeue_moves ⟨hi₁.placed, hi₁.running⟩
  case isFalse => exact ⟨hwake.tasks, hwake.homed⟩

theorem yield_moves (hi : q.Inv) : Moves q q.yield := by
  unfold Queues.yield
  split
  case isTrue => exact requeue_moves hi
  case isFalse => exact .refl q

theorem sleep_moves {ms : UInt32} (hi : q.Inv) (hr : q.running ≠ idleTask) (hms : ms ≠ 0) :
    Moves q (q.sleep ms) := by
  have hmove := moveTo_moves hi hr (nofun : (TaskList.sleepList : TaskList X S) ≠ .taskList) nofun
  rw [Queues.sleep, if_neg hms]
  refine Moves.trans ?_ (.of_lists Queues.dispatch_lists)
  exact ⟨hmove.tasks, hmove.homed⟩

theorem lock_moves (hi : q.Inv) (hr : q.running ≠ idleTask) (m : X) : Moves q (q.lock m) := by
  unfold Queues.lock
  dsimp only
  split
  case isTrue => exact .of_lists rfl
  case isFalse =>
    split
    case isTrue => exact .of_lists rfl
    case isFalse =>
      exact (moveTo_moves (l := .mutexWaitList m) hi hr nofun nofun).trans
        (.of_lists Queues.dispatch_lists)

theorem wait_moves (hi : q.Inv) (hr : q.running ≠ idleTask) (s : S) : Moves q (q.wait s) := by
  unfold Queues.wait
  split
  case isTrue => exact .of_lists rfl
  case isFalse =>
    exact (moveTo_moves (l := .semWaitList s) hi hr nofun nofun).trans
      (.of_lists Queues.dispatch_lists)

/-- The first waiter of a list is taken out and made ready. -/
theorem grant_moves (hp : Placed q.lists) (hl : l ≠ .taskList) (hlist : q.lists l = t :: ts) :
    Moves q ((q.setList l ts).setReady t) := by
  have ht : t ∈ q.lists l := by
    rw [hlist]
    exact List.mem_cons_self ..
  have herase : ts = (q.lists l).erase t := by rw [hlist, List.erase_cons_head]
  rw [herase]
  exact take_setReady_moves hp hl ht

theorem unlock_moves (hi : q.Inv) (m : X) : Moves q (q.unlock m) := by
  unfold Queues.unlock
  dsimp only
  split
  case isFalse => exact .refl q
  case isTrue =>
    split
    case isFalse => exact .of_lists rfl
    case isTrue =>
      cases hlist : q.lists (.mutexWaitList m) with
      | nil => exact .of_lists rfl
      | cons t ts =>
          refine Moves.trans ?_ (.of_lists Queues.dispatch_lists)
          let vars := q.vars.setMutex m
            { owner := none, locker := (q.vars.mutex m).locker - 1 }
          have hgrant := @grant_moves _ _ _ { q with vars } (.mutexWaitList m) t ts _ _ _ _
            hi.placed nofun hlist
          exact ⟨hgrant.tasks, hgrant.homed⟩

theorem notify_moves (hi : q.Inv) (s : S) : Moves q (q.notify s) := by
  unfold Queues.notify
  cases hlist : q.lists (.semWaitList s) with
  | nil => exact .of_lists rfl
  | cons t ts =>
      exact (grant_moves (l := .semWaitList s) hi.placed nofun hlist).trans
        (.of_lists Queues.dispatch_lists)

theorem Queues.step_moves {a : Action X S} (hi : q.Inv) (hr : a.IsCall → q.running ≠ idleTask)
    (ha : a ≠ .sleep 0) : Moves q (q.step a) := by
  cases a with
  | lock m => exact lock_moves hi (hr rfl) m
  | unlock m => exact unlock_moves hi m
  | wait s => exact wait_moves hi (hr rfl) s
  | notify s => exact notify_moves hi s
  | yield => exact yield_moves hi
  | sleep ms => exact sleep_moves hi (hr rfl) fun h => ha (by rw [h])
  | tick => exact tick_moves hi

end Homed

/-! ## New tasks -/

section Init

variable {T X S : Type} [DecidableEq T] [DecidableEq X] [DecidableEq S] [IdleTask T]
  [HasAddr (TaskNode T)] {k : Kernel T X S} {q : Queues T X S} {t : T} {r : Int32}

/-- `tss_task_init`, over queues. -/
def Queues.initTask (q : Queues T X S) (t : T) (r : Int32) : Queues T X S :=
  if r < 0 then q
  else
    let vars := q.vars.setTask t { q.vars.task t with state := .created }
    let q := (({ q with vars }.setList .taskList (t :: q.lists .taskList)).setReady t)
    let fields := { q.vars.task t with
      ticks := taskDefaultTicks, slices := taskDefaultTicks, sleep := 0 }
    { q with vars := q.vars.setTask t fields }

omit [DecidableEq X] [DecidableEq S] [IdleTask T] [HasAddr (TaskNode T)] in
/-- A node that is in no list may be cleared. -/
theorem Kernel.Models.nodeInit [DecidableEq X] [DecidableEq S] (hm : k.Models q) {n : TaskNode T}
    (hfree : ∀ l, n ∉ (q.lists l).map l.node) :
    ∃ heap, listNodeInit k.heap n = some heap ∧ Models { k with heap } q := by
  obtain ⟨heap, he, -, -, hrep⟩ := Heap.listNodeInit_spec k.heap n
  refine ⟨heap, he, hm.vars, fun l ns hl => ?_, hm.holds.disjoint⟩
  obtain rfl := Option.some.inj hl
  exact hrep l _ (hm.holds.rep l _ rfl) (hfree l)

omit [IdleTask T] in
theorem Kernel.Models.insertFront (hm : k.Models q) (hnew : t ∉ q.lists .taskList) :
    ∃ heap, listInsertFront k.heap .taskList (.taskNode t) = some heap
      ∧ Models { k with heap } (q.setList .taskList (t :: q.lists .taskList)) := by
  have hv : (ListOp.insertFront (.taskList : TaskList X S) (.taskNode t)).Valid q.seqs := by
    refine ⟨⟨_, rfl⟩, ?_⟩
    rintro l ns ⟨⟩ hmem
    obtain ⟨u, hu, hnode⟩ := List.mem_map.mp hmem
    cases l with
    | taskList =>
        obtain rfl : u = t := by simpa [TaskList.node] using hnode
        exact hnew hu
    | _ => simp [TaskList.node] at hnode
  obtain ⟨heap, he, hh, -⟩ := ListOp.exec_spec hm.holds hv
  refine ⟨heap, ?_, hm.vars, ?_⟩
  · simpa [ListOp.exec, ListOp.apply, ListOp.effect] using he
  · rw [Queues.seqs_setList, List.map_cons]
    simpa [ListOp.apply, ListOp.effect, ListOp.list, Queues.seqs, TaskList.node] using hh

/-- A task that is nowhere yet is set up. -/
theorem tssTaskInit_sim (hm : k.Models q) (hnew : ∀ l, t ∉ q.lists l) (r : Int32) :
    ∃ k', tssTaskInit k t r = some (k', if r < 0 then r else 0) ∧ k'.Models (q.initTask t r) := by
  unfold tssTaskInit Queues.initTask
  split
  case isTrue => exact ⟨k, rfl, hm⟩
  case isFalse =>
    let vars := q.vars.setTask t { q.vars.task t with state := .created }
    have hfree : ∀ (f : T → TaskNode T), (∀ l : TaskList X S, l.node = f ∨ ∀ u, l.node u ≠ f t) →
        ∀ l, f t ∉ (q.lists l).map l.node := by
      intro f hf l hmem
      obtain ⟨u, hu, hnode⟩ := List.mem_map.mp hmem
      rcases hf l with h | h
      · obtain rfl : u = t := l.node_injective (hnode.trans (congrFun h t).symm)
        exact hnew l hu
      · exact h u hnode
    obtain ⟨h₁, e₁, hm₁⟩ := hm.nodeInit (hfree .taskNode fun l => by
      cases l <;> simp [TaskList.node, funext_iff])
    obtain ⟨h₂, e₂, hm₂⟩ := hm₁.nodeInit (hfree .runningNode fun l => by
      cases l <;> simp [TaskList.node, funext_iff])
    obtain ⟨h₃, e₃, hm₃⟩ := hm₂.insertFront (hnew .taskList)
    have hv : k.vars = q.vars := hm.vars
    have hm₄ : Kernel.Models { heap := h₃, vars }
        ({ q with vars }.setList .taskList (t :: q.lists .taskList)) := ⟨rfl, hm₃.holds⟩
    have hhome : Homeless ({ q with vars }.setList .taskList (t :: q.lists .taskList)).lists t := by
      intro l hl
      rw [Queues.setList_lists_of_ne hl]
      exact hnew l
    obtain ⟨k₅, e₅, hm₅⟩ := tssTaskSetReady_sim hm₄ fun _ => hhome
    let fields := { k₅.vars.task t with
      ticks := taskDefaultTicks, slices := taskDefaultTicks, sleep := 0 }
    refine ⟨{ k₅ with vars := k₅.vars.setTask t fields }, ?_, ?_, hm₅.holds⟩
    · simp only [e₁, e₂, e₃, Option.bind_eq_bind, Option.bind_some, hv]
      have e₅' : tssTaskSetReady { heap := h₃, vars } t = some k₅ := e₅
      exact (congrArg (Option.bind · _) e₅').trans rfl
    · simp only [fields, hm₅.vars]
      rfl

end Init

/-! ## The law -/

/-- Every live task but the idle one is ready, asleep or waiting for one
mutex or semaphore, in one place and once; the running task is the idle
one or the first one that is ready. -/
def Kernel.NoneLost {T X S : Type} [DecidableEq T] [IdleTask T] (k : Kernel T X S) : Prop :=
  ∃ lists : TaskList X S → List T, (∀ l, k.heap.Rep l ((lists l).map l.node))
    ∧ (∀ t ∈ lists .taskList, t ≠ idleTask → ∃ l, l ≠ .taskList ∧ (lists l).count t = 1
      ∧ ∀ l', l' ≠ .taskList → l' ≠ l → t ∉ lists l')
    ∧ (k.vars.runningTask = some idleTask
      ∨ ∃ t, (lists .readyList).head? = some t ∧ k.vars.runningTask = some t)

section Law

variable {T X S : Type} [IdleTask T] {k k' : Kernel T X S} {q : Queues T X S} {t : T} {r : Int32}

/-- What every step keeps. -/
structure Queues.AllPlaced (q : Queues T X S) : Prop where
  inv : q.Inv
  idle : idleTask ∈ q.lists .taskList
  homed : ∀ t ∈ q.lists .taskList, t ≠ idleTask → Homed q.lists t
  live : ∀ l t, t ∈ q.lists l → t ∈ q.lists .taskList

omit [IdleTask T] in
/-- If only live tasks have a place, that stays so. -/
theorem Moves.live {q' : Queues T X S} (hm : Moves q q')
    (h : ∀ l t, t ∈ q.lists l → t ∈ q.lists .taskList) :
    ∀ l t, t ∈ q'.lists l → t ∈ q'.lists .taskList := by
  intro l t ht
  by_cases hl : l = .taskList
  · exact hl ▸ ht
  · obtain ⟨l', -, hmem⟩ := (hm.homed t).mp ⟨l, hl, ht⟩
    exact hm.tasks ▸ h l' t hmem

theorem Queues.AllPlaced.moves {q' : Queues T X S} (h : q.AllPlaced) (hm : Moves q q')
    (hi : q'.Inv) : q'.AllPlaced := by
  refine ⟨hi, hm.tasks ▸ h.idle, fun t ht hne => ?_, hm.live h.live⟩
  rw [hm.tasks] at ht
  exact (hm.homed t).mpr (h.homed t ht hne)

variable [DecidableEq T] [DecidableEq X] [DecidableEq S]

omit [DecidableEq X] [DecidableEq S] in
theorem Queues.AllPlaced.noneLost (hm : k.Models q) (h : q.AllPlaced) : k.NoneLost := by
  refine ⟨q.lists, fun l => hm.holds.rep l _ rfl, fun t ht hne => ?_, ?_⟩
  · obtain ⟨l, hl, hmem⟩ := h.homed t ht hne
    exact ⟨l, hl, List.count_eq_one_of_mem (h.inv.placed.nodup l) hmem,
      fun l' hl' hne' => h.inv.placed.disjoint l l' hl hl' (Ne.symm hne') t hmem⟩
  · rw [hm.vars]
    rcases h.inv.running with hidle | ⟨t, ts, hlist, hrun⟩
    · exact Or.inl hidle
    · exact Or.inr ⟨t, by rw [hlist]; rfl, hrun⟩

omit [IdleTask T] [DecidableEq T] [DecidableEq X] [DecidableEq S] in
/-- The kernel stores one family of queues. -/
theorem Kernel.Models.lists_eq {lists : TaskList X S → List T} {l : TaskList X S}
    (hm : k.Models q) (hr : k.heap.Rep l ((lists l).map l.node)) : lists l = q.lists l :=
  List.map_injective_iff.mpr l.node_injective (hr.unique (hm.holds.rep l _ rfl))

omit [IdleTask T] [DecidableEq T] in
theorem setTaskList_homed {ts : List T} :
    Homed (q.setList .taskList ts).lists t ↔ Homed q.lists t := by
  constructor
  · rintro ⟨l, hl, hmem⟩
    exact ⟨l, hl, by rwa [Queues.setList_lists_of_ne hl] at hmem⟩
  · rintro ⟨l, hl, hmem⟩
    exact ⟨l, hl, by rwa [Queues.setList_lists_of_ne hl]⟩

omit [DecidableEq T] in
/-- A new task is linked into the task list. -/
theorem Queues.Inv.newTask (hi : q.Inv) (hnew : t ∉ q.lists .taskList) :
    (q.setList .taskList (t :: q.lists .taskList)).Inv := by
  have hsame : ∀ l, l ≠ .taskList →
      (q.setList .taskList (t :: q.lists .taskList)).lists l = q.lists l :=
    fun l hl => Queues.setList_lists_of_ne hl
  refine ⟨⟨fun l => ?_, fun l l' hl hl' => ?_, fun l hl => ?_⟩, ?_⟩
  · by_cases hl : l = .taskList
    · subst hl
      rw [Queues.setList_lists_self, List.nodup_cons]
      exact ⟨hnew, hi.placed.nodup _⟩
    · rw [hsame l hl]
      exact hi.placed.nodup l
  · rw [hsame l hl, hsame l' hl']
    exact hi.placed.disjoint l l' hl hl'
  · rw [hsame l hl]
    exact hi.placed.idle l hl
  · rw [hsame .readyList nofun]
    exact hi.running

/-- A task that is nowhere yet gets into the task list and the ready list. -/
theorem Queues.Inv.initTask (hi : q.Inv) (hnew : ∀ l, t ∉ q.lists l) (r : Int32) :
    (q.initTask t r).Inv := by
  unfold Queues.initTask
  split
  case isTrue => exact hi
  case isFalse =>
    let vars := q.vars.setTask t { q.vars.task t with state := .created }
    have hi₀ : Queues.Inv { q with vars } := ⟨hi.placed, hi.running⟩
    have hhome : Homeless ({ q with vars }.setList .taskList (t :: q.lists .taskList)).lists t := by
      intro l hl
      rw [Queues.setList_lists_of_ne hl]
      exact hnew l
    have hi₁ := Queues.setReady_inv (hi₀.newTask (hnew .taskList)) fun _ => hhome
    exact ⟨hi₁.placed, hi₁.running⟩

/-- A new task gets a place. -/
theorem Queues.AllPlaced.initTask (h : q.AllPlaced) (hnew : t ∉ q.lists .taskList) (r : Int32) :
    (q.initTask t r).AllPlaced := by
  have hnowhere : ∀ l, t ∉ q.lists l := fun l hmem => hnew (h.live l t hmem)
  have hidle : t ≠ idleTask := fun heq => hnew (heq ▸ h.idle)
  have hi := h.inv.initTask hnowhere r
  unfold Queues.initTask at hi ⊢
  split
  case isTrue => exact h
  case isFalse hr =>
    rw [if_neg hr] at hi
    let vars := q.vars.setTask t { q.vars.task t with state := .created }
    let q₁ := { q with vars }.setList .taskList (t :: q.lists .taskList)
    have htasks : (q₁.setReady t).lists .taskList = t :: q.lists .taskList :=
      setReady_tasks.trans Queues.setList_lists_self
    have hhomed : ∀ u, Homed (q₁.setReady t).lists u ↔ Homed q.lists u ∨ u = t := by
      intro u
      rw [setReady_homed hidle]
      exact or_congr_left setTaskList_homed
    refine ⟨hi, ?_, fun u hu hne => ?_, fun l u hu => ?_⟩
    · show idleTask ∈ (q₁.setReady t).lists .taskList
      rw [htasks]
      exact List.mem_cons_of_mem _ h.idle
    · refine (hhomed u).mpr ?_
      rcases List.mem_cons.mp (htasks ▸ hu) with rfl | hold
      · exact Or.inr rfl
      · exact Or.inl (h.homed u hold hne)
    · show u ∈ (q₁.setReady t).lists .taskList
      rw [htasks]
      by_cases hl : l = .taskList
      · rw [hl] at hu
        exact htasks ▸ hu
      · rcases (hhomed u).mp ⟨l, hl, hu⟩ with ⟨l', -, hmem⟩ | rfl
        · exact List.mem_cons_of_mem _ (h.live l' u hmem)
        · exact List.mem_cons_self ..

variable [HasAddr (TaskNode T)]

/-- One step of the system, whichever it is. -/
theorem Kernel.schedStep_allPlaced {op : SchedOp T X S} (hm : k.Models q) (h : q.AllPlaced)
    (hl : op.Legal k) (hok : op ≠ .act (.sleep 0)) :
    ∃ k' q', k.schedStep op = some k' ∧ k'.Models q' ∧ q'.AllPlaced := by
  cases op with
  | init t r =>
      have hnew : t ∉ q.lists .taskList := by
        intro hmem
        exact hl _ (hm.holds.rep .taskList _ rfl) (List.mem_map_of_mem hmem)
      obtain ⟨k', heq, hm'⟩ := tssTaskInit_sim hm (fun l hmem => hnew (h.live l t hmem)) r
      exact ⟨k', _, by rw [Kernel.schedStep, heq]; rfl, hm', h.initTask hnew r⟩
  | act a =>
      have hr := hl.running_ne hm h.inv
      obtain ⟨k', heq, hm', hi'⟩ := Kernel.step_sim hm h.inv hr
      exact ⟨k', _, heq, hm', h.moves (Queues.step_moves h.inv hr fun ha => hok (by rw [ha])) hi'⟩

/-- Before the scheduler is set up: no task waits for anything, and the
lists of `tss_task_queue` hold anything at all. -/
def Kernel.Blank (k : Kernel T X S) : Prop :=
  k.heap.Holds fun
    | .mutexWaitList _ | .semWaitList _ => some []
    | _ => none

omit [DecidableEq T] [DecidableEq X] [DecidableEq S] [IdleTask T] [HasAddr (TaskNode T)] in
/-- Wait lists that are all zero hold nothing. -/
theorem Kernel.Blank.of_zero {k : Kernel T X S}
    (hm : ∀ x, k.heap.head (.mutexWaitList x) = none ∧ k.heap.tail (.mutexWaitList x) = none
      ∧ k.heap.size (.mutexWaitList x) = 0)
    (hs : ∀ x, k.heap.head (.semWaitList x) = none ∧ k.heap.tail (.semWaitList x) = none
      ∧ k.heap.size (.semWaitList x) = 0) : k.Blank := by
  have hrep : ∀ l, k.heap.head l = none ∧ k.heap.tail l = none ∧ k.heap.size l = 0 →
      k.heap.Rep l [] := fun l ⟨hhead, htail, hsize⟩ =>
    ⟨by rw [hhead]; rfl, by rw [htail]; rfl, by rw [hsize]; rfl, .nil⟩
  constructor
  · intro l ns h
    cases l with
    | mutexWaitList x => cases h; exact hrep _ (hm x)
    | semWaitList x => cases h; exact hrep _ (hs x)
    | _ => cases h
  · intro l l' ns ns' _ h
    cases l with
    | mutexWaitList => cases h; exact fun _ _ hn => nomatch hn
    | semWaitList => cases h; exact fun _ _ hn => nomatch hn
    | _ => cases h

omit [HasAddr (TaskNode T)] in
theorem initTask_lists (hr : ¬ r < 0) {l : TaskList X S} :
    (q.initTask t r).lists l
      = if l = .taskList then t :: q.lists .taskList
        else if l = .readyList ∧ t ≠ idleTask then q.lists .readyList ++ [t] else q.lists l := by
  rw [Queues.initTask, if_neg hr]
  refine Queues.setReady_lists.trans ?_
  by_cases hl : l = .taskList
  · subst hl
    rw [if_pos rfl, if_neg fun h => nomatch h.1]
    exact Queues.setList_lists_self
  · rw [if_neg hl, Queues.setList_lists_of_ne hl]
    exact ite_congr rfl (fun _ => congrArg (· ++ [t]) (Queues.setList_lists_of_ne nofun))
      fun _ => rfl

omit [IdleTask T] in
/-- `list_init` of the three lists of `tss_task_queue`. -/
theorem Kernel.Blank.listInit (hk : k.Blank) :
    ∃ h₁ h₂ h₃, Csos.listInit k.heap .readyList = some h₁
      ∧ Csos.listInit h₁ .taskList = some h₂ ∧ Csos.listInit h₂ .sleepList = some h₃
      ∧ h₃.Holds fun _ => some [] := by
  have hinit : ∀ {h : Heap (TaskList X S) (TaskNode T)} {σ} (l : TaskList X S), h.Holds σ →
      ∃ h', Csos.listInit h l = some h' ∧ h'.Holds (Function.update σ l (some [])) := by
    intro h σ l hh
    have hv : (ListOp.init l).Valid σ := trivial
    obtain ⟨h', he, hh', -⟩ := ListOp.exec_spec hh hv
    exact ⟨h', by simpa [ListOp.exec, ListOp.apply, ListOp.effect] using he, hh'⟩
  obtain ⟨h₁, e₁, hh₁⟩ := hinit .readyList hk
  obtain ⟨h₂, e₂, hh₂⟩ := hinit .taskList hh₁
  obtain ⟨h₃, e₃, hh₃⟩ := hinit .sleepList hh₂
  refine ⟨h₁, h₂, h₃, e₁, e₂, e₃, ?_⟩
  refine cast (congrArg _ (funext fun l => ?_)) hh₃
  cases l <;> simp

/-- The boot sequence leaves one task, which is ready and runs. -/
theorem Kernel.Blank.boot (hk : k.Blank) (ht : t ≠ idleTask) {r₀ : Int32} (hr₀ : ¬ r₀ < 0)
    (hr : ¬ r < 0) :
    ∃ k' q', (tssTaskQueueInit k r₀).bind (fun k => defaultTssTaskInit k t r) = some k'
      ∧ k'.Models q' ∧ q'.AllPlaced ∧ q'.running = t
      ∧ q'.lists .taskList = [t, idleTask] := by
  obtain ⟨h₁, h₂, h₃, e₁, e₂, e₃, hh₃⟩ := hk.listInit
  let q₀ : Queues T X S := { lists := fun _ => [], vars := { k.vars with runningTask := none } }
  have hm₀ : Kernel.Models { heap := h₃, vars := q₀.vars } q₀ := ⟨rfl, hh₃⟩
  obtain ⟨k₁, f₁, hm₁⟩ := tssTaskInit_sim (t := idleTask) hm₀ (fun l => List.not_mem_nil) r₀
  have hlists₁ : ∀ l,
      (q₀.initTask idleTask r₀).lists l = if l = .taskList then [idleTask] else [] := by
    intro l
    rw [initTask_lists hr₀]
    simp only [ne_eq, not_true_eq_false, and_false, if_false]
    rfl
  obtain ⟨k₂, f₂, hm₂⟩ := tssTaskInit_sim (t := t) hm₁ (fun l => by
    rw [hlists₁]
    split <;> simp [ht]) r
  have hlists₂ : ∀ l, ((q₀.initTask idleTask r₀).initTask t r).lists l
      = if l = .taskList then [t, idleTask] else if l = .readyList then [t] else [] := by
    intro l
    rw [initTask_lists hr, hlists₁, hlists₁, hlists₁]
    simp only [ne_eq, ht, not_false_eq_true, and_true, reduceIte, reduceCtorEq, List.nil_append]
    by_cases hl : l = .taskList
    · simp only [if_pos hl]
    · simp only [if_neg hl]
  generalize (q₀.initTask idleTask r₀).initTask t r = q₂ at hm₂ hlists₂
  refine ⟨{ k₂ with vars := { k₂.vars with runningTask := some t } },
    { q₂ with vars := { q₂.vars with runningTask := some t } }, ?_, ⟨by rw [hm₂.vars], hm₂.holds⟩,
    ⟨⟨⟨fun l => ?_, fun l l' hl hl' hne u hu hu' => ?_, fun l hl hmem => ?_⟩, ?_⟩, ?_,
      fun u hu hne => ?_, fun l u hu => ?_⟩, rfl, hlists₂ .taskList⟩
  · simp only [tssTaskQueueInit, e₁, e₂, e₃, Option.bind_eq_bind, Option.bind_some]
    simp only [q₀] at f₁
    simp only [f₁, defaultTssTaskInit, f₂, Option.bind_eq_bind, Option.bind_some, Option.pure_def]
  · rw [hlists₂]
    split
    · simp [ht]
    · split <;> simp
  · rw [hlists₂, if_neg hl] at hu
    rw [hlists₂, if_neg hl'] at hu'
    by_cases hready : l = .readyList
    · rw [if_neg (fun h => hne (hready.trans h.symm))] at hu'
      cases hu'
    · rw [if_neg hready] at hu
      cases hu
  · rw [hlists₂, if_neg hl] at hmem
    by_cases hready : l = .readyList
    · rw [if_pos hready, List.mem_singleton] at hmem
      exact ht hmem.symm
    · rw [if_neg hready] at hmem
      cases hmem
  · exact Or.inr ⟨t, [], hlists₂ .readyList, rfl⟩
  · rw [hlists₂]
    simp
  · refine ⟨.readyList, nofun, ?_⟩
    rw [hlists₂] at hu ⊢
    simpa [hne] using hu
  · rw [hlists₂] at hu ⊢
    by_cases hl : l = .taskList
    · rwa [if_pos hl] at hu
    · rw [if_neg hl] at hu
      by_cases hready : l = .readyList
      · rw [if_pos hready, List.mem_singleton] at hu
        simp [hu]
      · rw [if_neg hready] at hu
        cases hu

/-- From the initial queue on, every run that nobody makes sleep for 0 ms
comes back, and loses no task. -/
theorem scheduler_noneLost {r₀ : Int32} {ops : List (SchedOp T X S)} {k₀ : Kernel T X S}
    (hk : k.Blank) (ht : t ≠ idleTask) (hr₀ : ¬ r₀ < 0) (hr : ¬ r < 0)
    (hboot : (tssTaskQueueInit k r₀).bind (fun k => defaultTssTaskInit k t r) = some k₀)
    (hops : Always Kernel.schedStep (fun k op => op.Legal k ∧ op ≠ .act (.sleep 0)) k₀ ops) :
    ∃ k', run Kernel.schedStep k₀ ops = some k' ∧ k'.NoneLost := by
  obtain ⟨k₁, q, heq, hm, hq, -, -⟩ := hk.boot ht hr₀ hr
  obtain rfl := Option.some.inj (heq.symm.trans hboot)
  let I : Kernel T X S → Prop := fun k => ∃ q : Queues T X S, k.Models q ∧ q.AllPlaced
  have hstep : ∀ k op, I k → (op.Legal k ∧ op ≠ .act (.sleep 0)) →
      ∃ k', Kernel.schedStep k op = some k' ∧ I k' := by
    rintro k op ⟨q, hm, hq⟩ ⟨hl, hok⟩
    obtain ⟨k', q', heq, hm', hq'⟩ := Kernel.schedStep_allPlaced hm hq hl hok
    exact ⟨k', heq, q', hm', hq'⟩
  obtain ⟨k', hrun, q', hm', hq'⟩ := run_total_of_always hstep ⟨q, hm, hq⟩ hops
  exact ⟨k', hrun, hq'.noneLost hm'⟩

/-- A task that sleeps for 0 ms is lost. -/
theorem Kernel.sleep_zero_loses (hm : k.Models q) (h : q.AllPlaced) (hr : q.running ≠ idleTask) :
    ∃ k', k.schedStep (.act (.sleep 0)) = some k' ∧ ¬ k'.NoneLost := by
  obtain ⟨k', heq, hm', -⟩ := tssTaskSleep_sim hm h.inv hr 0
  refine ⟨k', heq, ?_⟩
  rintro ⟨lists, hrep, hplaces, -⟩
  have hlists : ∀ l, lists l = (q.setBlock q.running).lists l := by
    intro l
    rw [hm'.lists_eq (hrep l), Queues.sleep, if_pos rfl, Queues.dispatch_lists]
  have hmem := h.inv.mem_ready hr
  have hlive : q.running ∈ lists .taskList := by
    rw [hlists, Queues.setBlock_keeps.lists .taskList nofun nofun]
    exact h.live _ _ hmem
  obtain ⟨l, hl, hone, -⟩ := hplaces q.running hlive hr
  refine Queues.setBlock_homeless h.inv.placed hr hmem l hl ?_
  rw [← hlists]
  exact List.count_pos_iff.mp (by omega)

end Law

/-- Runs in which no task is set up. -/
theorem always_act {T X S : Type} [DecidableEq T] [DecidableEq X] [DecidableEq S] [IdleTask T]
    {k : Kernel T X S} {as : List (Action X S)} :
    Always Kernel.schedStep (fun k op => op.Legal k ∧ op ≠ .act (.sleep 0)) k (as.map .act)
      ↔ Always Kernel.step (fun k a => k.Calls a ∧ a ≠ .sleep 0) k as := by
  induction as generalizing k with
  | nil => exact Iff.rfl
  | cons a as ih =>
      refine and_congr (and_congr Iff.rfl ?_) (forall_congr' fun k' => imp_congr Iff.rfl ih)
      rw [ne_eq, SchedOp.act.injEq]

/-! ## From power-on -/

/-- Two wait lists, and nothing else that means anything. -/
def powerOn : Kernel ThreeTasks Unit Unit where
  heap :=
    { pre := fun _ => some (.waitNode .second)
      next := fun _ => some (.waitNode .second)
      head := fun _ => none
      tail := fun _ => none
      size := fun l => if l = .taskList then 7 else 0 }
  vars :=
    { task := fun _ => { state := .died, ticks := 3, slices := 3, sleep := 3 }
      runningTask := some .second
      mutex := fun _ => { owner := none, locker := 0 }
      counter := fun _ => 0 }

theorem powerOn_blank : powerOn.Blank :=
  .of_zero (fun _ => ⟨rfl, rfl, rfl⟩) fun _ => ⟨rfl, rfl, rfl⟩

/-- The system right after the boot sequence. -/
def booted : Kernel ThreeTasks Unit Unit :=
  ((tssTaskQueueInit powerOn 0).bind fun k => defaultTssTaskInit k .first 0).get (by decide)

theorem booted_eq :
    ((tssTaskQueueInit powerOn 0).bind fun k => defaultTssTaskInit k .first 0) = some booted :=
  (Option.some_get _).symm

theorem booted_new : SchedOp.Legal booted (.init .second 0) := by
  have hrep : booted.heap.Rep .taskList [.taskNode .first, .taskNode .idle] :=
    Heap.rep_iff_dseg.mpr ⟨by decide, by decide,
      ⟨by decide, by decide, by decide, by decide, trivial⟩, by decide, by decide⟩
  intro ns hns
  rw [hns.unique hrep]
  decide

/-- A second task is set up; then both sleep, wake up and wait. -/
theorem scheduler_noneLost_two :
    ∃ k', run Kernel.schedStep booted (.init .second 0 :: List.map .act
        [.yield, .sleep 2, .lock (), .tick, .tick, .wait (), .notify ()]) = some k'
      ∧ k'.NoneLost := by
  have hacts : ∀ k₁, booted.schedStep (.init .second 0) = some k₁ →
      Always Kernel.schedStep (fun k op => op.Legal k ∧ op ≠ .act (.sleep 0)) k₁ (List.map .act
        [.yield, .sleep 2, .lock (), .tick, .tick, .wait (), .notify ()]) := by
    intro k₁ h₁
    obtain rfl : k₁ = (booted.schedStep (.init .second 0)).get (by decide) := by simp [h₁]
    exact always_act.mpr (by decide)
  have hok : Always Kernel.schedStep (fun k op => op.Legal k ∧ op ≠ .act (.sleep 0)) booted
      (.init .second 0 :: List.map .act
        [.yield, .sleep 2, .lock (), .tick, .tick, .wait (), .notify ()]) :=
    And.intro (And.intro booted_new nofun) hacts
  exact scheduler_noneLost powerOn_blank (by decide) (by decide) (by decide) booted_eq hok

/-- The default task sleeps for 0 ms. -/
theorem scheduler_loses : ¬ ∀ (ops : List (SchedOp ThreeTasks Unit Unit)) (k' : _),
    Always Kernel.schedStep (fun k op => op.Legal k) booted ops →
    run Kernel.schedStep booted ops = some k' → k'.NoneLost := by
  intro hall
  obtain ⟨k, q, heq, hm, hq, hrun, -⟩ :=
    powerOn_blank.boot (t := .first) (r := 0) (by decide) (by decide : ¬ (0 : Int32) < 0) (by decide)
  obtain rfl := Option.some.inj (heq.symm.trans booted_eq)
  obtain ⟨k', hstep, hlost⟩ := Kernel.sleep_zero_loses hm hq (by rw [hrun]; decide)
  have hcall : SchedOp.Legal booted (.act (.sleep 0)) := by
    rw [SchedOp.Legal, Kernel.Calls]
    decide
  refine hlost (hall [.act (.sleep 0)] k' ⟨hcall, fun _ _ => trivial⟩ ?_)
  rw [run_cons, hstep]
  rfl

end Csos
