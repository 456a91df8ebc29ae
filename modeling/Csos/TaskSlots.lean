import Csos.Execve

/-!
# Slots of live tasks

`alloc_task` takes a slot of `task_table` to be free when the name in it
is empty. A child gets the name of its parent, and `tss_task_destroy`
empties the name; but `tss_task_execve` empties it too, since
`kernel_strncpy` ends by writing the NUL at the start of the buffer. As
long as no task in a slot has called it, the slots with names are those
of the live tasks.

A run also keeps a record of which tasks are live, and where; no function
reads it.
-/

namespace Csos

open Lib

/-! ## Runs -/

/-- What can happen next. The running task makes the first three calls. -/
inductive TaskCall (X S : Type) where
  | fork
  | execve (image : Bytes) (retAddr name argv : Nat)
  | exit (code : Int)
  | act (a : Action X S)

/-- The system, and the number and the place of each live task. -/
structure TaskRun (X S : Type) where
  sys : TaskSystem X S
  live : List (Nat × TaskPtr)

namespace TaskRun

variable {X S : Type} [DecidableEq X] [DecidableEq S] [TaskMutex X]

def step (r : TaskRun X S) : TaskCall X S → Option (TaskRun X S)
  | .fork => do
      let (sys, ret) ← r.sys.tssTaskFork
      match r.sys.freeSlot with
      | some i => if ret < 0 then return { r with sys }
                  else return ⟨sys, (ret.toNat, .slot i) :: r.live⟩
      | none => return { r with sys }
  | .execve image retAddr name argv => do
      let (sys, _) ← r.sys.tssTaskExecve image retAddr name argv
      return { r with sys }
  | .exit code => do
      let sys ← r.sys.tssTaskExit code
      return ⟨sys, r.live.filter fun p => some p.2 ≠ r.sys.kernel.vars.runningTask⟩
  | .act a => do
      let kernel ← r.sys.kernel.step a
      return { r with sys := r.sys.withKernel kernel }

/-- A task makes the call, and the slots keep their names: no task in a
slot calls `execve`, and no task without a name calls `fork`. -/
def Fits (r : TaskRun X S) : TaskCall X S → Prop
  | .fork => ∃ t, r.sys.kernel.vars.runningTask = some t ∧ t ≠ idleTask
      ∧ (r.sys.proc t).name 0 ≠ 0
  | .execve .. => ∃ t, r.sys.kernel.vars.runningTask = some t ∧ t ≠ idleTask ∧ ∀ i, t ≠ .slot i
  | .exit _ => ∃ t, r.sys.kernel.vars.runningTask = some t ∧ t ≠ idleTask
  | .act a => r.sys.kernel.Calls a

/-- A task other than the idle task makes the call, and a program has a
name. -/
def Asks (r : TaskRun X S) : TaskCall X S → Prop
  | .execve _ _ name _ => ∃ t, r.sys.kernel.vars.runningTask = some t ∧ t ≠ idleTask
      ∧ ∃ c, r.sys.machine.read8 name = some c ∧ c ≠ 0
  | .act a => r.sys.kernel.Calls a
  | _ => ∃ t, r.sys.kernel.vars.runningTask = some t ∧ t ≠ idleTask

/-- The task list links the live tasks, no two of them are in one place,
and `alloc_task` returns the place of none. -/
structure SlotLaw (r : TaskRun X S) : Prop where
  linked : r.sys.kernel.heap.Rep .taskList (r.live.map fun p => .taskNode p.2)
  distinct : (r.live.map Prod.snd).Nodup
  unlinked : ∀ s t, r.sys.allocTask = some (s, some t) → t ∉ r.live.map Prod.snd

/-- The system after the boot sequence: the idle task and the default
task are live, and `task_table` is empty. -/
structure Booted (r : TaskRun X S) : Prop where
  kernel : ∃ k : Kernel TaskPtr X S, ∃ r₀ r₁ : Int32, k.Blank ∧ ¬ r₀ < 0 ∧ ¬ r₁ < 0
    ∧ (tssTaskQueueInit k r₀).bind (fun k => defaultTssTaskInit k .defaultTask r₁)
      = some r.sys.kernel
  table : ∀ i, (r.sys.proc (.slot i)).name = fun _ => 0
  live : r.live.map Prod.snd = [.defaultTask, .idleTask]

end TaskRun

/-! ## The kernel -/

section Kernel

variable {X S : Type} [DecidableEq X] [DecidableEq S] [HasAddr (TaskNode TaskPtr)]
  {k k' : Kernel TaskPtr X S} {q : Queues TaskPtr X S} {t : TaskPtr}

/-- The kernel stores queues in which every task that has a place is one
of `tasks`. -/
structure Kernel.Stores (k : Kernel TaskPtr X S) (q : Queues TaskPtr X S) (tasks : List TaskPtr) :
    Prop where
  models : k.Models q
  placed : Placed q.lists
  live : ∀ l t, t ∈ q.lists l → t ∈ q.lists .taskList
  tasks : q.lists .taskList = tasks

/-- The same, with the scheduler's choice of the running task. -/
def Kernel.Keeps (k : Kernel TaskPtr X S) (tasks : List TaskPtr) : Prop :=
  ∃ q : Queues TaskPtr X S, k.Stores q tasks ∧ q.Inv

variable {tasks : List TaskPtr}

omit [DecidableEq X] [DecidableEq S] [HasAddr (TaskNode TaskPtr)] in
theorem Kernel.Stores.nowhere (h : k.Stores q tasks) (ht : t ∉ tasks) : ∀ l, t ∉ q.lists l :=
  fun l hmem => ht (h.tasks ▸ h.live l t hmem)

omit [DecidableEq X] [DecidableEq S] [HasAddr (TaskNode TaskPtr)] in
theorem Kernel.Stores.running (h : k.Stores q tasks) (hi : q.Inv)
    (ht : k.vars.runningTask = some t) : q.running = t := by
  rw [h.models.vars, hi.runningTask_eq] at ht
  exact Option.some.inj ht

theorem Kernel.Keeps.step {a : Action X S} (h : k.Keeps tasks) (hc : k.Calls a)
    (hstep : k.step a = some k') : k'.Keeps tasks := by
  obtain ⟨q, hs, hi⟩ := h
  have hr := hc.running_ne hs.models hi
  obtain ⟨k₁, heq, hm, hi'⟩ := Kernel.step_sim hs.models hi hr
  obtain rfl := Option.some.inj (heq.symm.trans hstep)
  by_cases ha : a = .sleep 0
  · subst ha
    have hlists : ∀ l, (q.step (.sleep 0)).lists l = (q.setBlock q.running).lists l := fun l => by
      rw [Queues.step, Queues.sleep, if_pos rfl, Queues.dispatch_lists]
    have htasks : (q.step (.sleep 0)).lists .taskList = q.lists .taskList := by
      rw [hlists, Queues.setBlock_keeps.lists .taskList (by simp) (by simp)]
    refine ⟨_, ⟨hm, hi'.placed, fun l u hu => ?_, htasks.trans hs.tasks⟩, hi'⟩
    rw [htasks]
    rw [hlists, Queues.setBlock] at hu
    split at hu
    · exact hs.live l u hu
    · by_cases hl : l = .readyList
      · subst hl
        rw [Queues.setList_lists_self] at hu
        exact hs.live _ u (List.mem_of_mem_erase hu)
      · rw [Queues.setList_lists_of_ne hl] at hu
        exact hs.live l u hu
  · have hmoves := Queues.step_moves hi hr ha
    exact ⟨_, ⟨hm, hi'.placed, hmoves.live hs.live, hmoves.tasks.trans hs.tasks⟩, hi'⟩

omit [HasAddr (TaskNode TaskPtr)] in
/-- A task that is in no list is set to 0. -/
theorem Kernel.Stores.clearTask (h : k.Stores q tasks) (ht : t ∉ tasks)
    (heq : TaskSystem.clearTask k t = some k') :
    ∃ q', k'.Stores q' tasks ∧ q'.lists = q.lists ∧ q'.vars.runningTask = q.vars.runningTask := by
  have hfree : ∀ (f : TaskPtr → TaskNode TaskPtr),
      (∀ (l : TaskList X S) u, l.node u = f t → u = t) →
      ∀ l, f t ∉ (q.lists l).map l.node := by
    intro f hf l hmem
    obtain ⟨u, hu, hnode⟩ := List.mem_map.mp hmem
    obtain rfl := hf l u hnode
    exact h.nowhere ht l hu
  obtain ⟨h₁, e₁, hm₁⟩ := h.models.nodeInit (hfree .runningNode fun l u => by
    cases l <;> simp [TaskList.node])
  obtain ⟨h₂, e₂, hm₂⟩ := hm₁.nodeInit (hfree .taskNode fun l u => by
    cases l <;> simp [TaskList.node])
  obtain ⟨h₃, e₃, hm₃⟩ := hm₂.nodeInit (hfree .waitNode fun l u => by
    cases l <;> simp [TaskList.node])
  simp only [TaskSystem.clearTask, e₁, e₂, e₃, Option.bind_eq_bind, Option.bind_some] at heq
  obtain rfl := Option.some.inj heq
  refine ⟨_, ⟨hm₃.withVars, h.placed, h.live, h.tasks⟩, rfl, ?_⟩
  show k.vars.runningTask = q.vars.runningTask
  rw [h.models.vars]

omit [HasAddr (TaskNode TaskPtr)] in
theorem Kernel.Keeps.clearTask (h : k.Keeps tasks) (ht : t ∉ tasks)
    (heq : TaskSystem.clearTask k t = some k') : k'.Keeps tasks := by
  obtain ⟨q, hs, hi⟩ := h
  obtain ⟨q', hs', hlists, hrun⟩ := hs.clearTask ht heq
  refine ⟨q', hs', hs'.placed, ?_⟩
  rw [hlists, hrun]
  exact hi.running

omit [DecidableEq X] [DecidableEq S] [HasAddr (TaskNode TaskPtr)] in
/-- The scheduler's fields of a task are of no account here. -/
theorem Kernel.Keeps.setTask {fields : TssTask} (h : k.Keeps tasks) :
    Kernel.Keeps { k with vars := k.vars.setTask t fields } tasks := by
  obtain ⟨q, hs, hi⟩ := h
  refine ⟨_, ⟨hs.models.withVars, hs.placed, hs.live, hs.tasks⟩, hs.placed, ?_⟩
  show k.vars.runningTask = _ ∨ _
  rw [hs.models.vars]
  exact hi.running

/-- A task that is in no list is linked into the task list. -/
theorem Kernel.Keeps.initTask {r : Int32} (h : k.Keeps tasks) (ht : t ∉ tasks)
    (heq : tssTaskInit k t 0 = some (k', r)) : k'.Keeps (t :: tasks) := by
  obtain ⟨q, hs, hi⟩ := h
  have hnew := hs.nowhere ht
  obtain ⟨k₁, heq₁, hm⟩ := tssTaskInit_sim hs.models hnew 0
  obtain ⟨rfl, -⟩ := Prod.mk.inj (Option.some.inj (heq₁.symm.trans heq))
  have hlists : ∀ l, (q.initTask t 0).lists l
      = if l = .taskList then t :: q.lists .taskList
        else if l = .readyList ∧ t ≠ idleTask then q.lists .readyList ++ [t] else q.lists l :=
    fun l => initTask_lists (by decide)
  have htasks := hlists .taskList
  rw [if_pos rfl] at htasks
  have hi' := hi.initTask hnew 0
  refine ⟨_, ⟨hm, hi'.placed, fun l u hu => ?_, htasks.trans (by rw [hs.tasks])⟩, hi'⟩
  rw [htasks]
  rw [hlists] at hu
  split at hu
  · exact hu
  · split at hu
    · rcases List.mem_append.mp hu with hold | hone
      · exact List.mem_cons_of_mem _ (hs.live _ u hold)
      · rw [List.mem_singleton.mp hone]
        exact List.mem_cons_self ..
    · exact List.mem_cons_of_mem _ (hs.live l u hu)

/-- The running task leaves the ready list and the task list. -/
theorem Kernel.Keeps.leave {heap heap' : Heap (TaskList X S) (TaskNode TaskPtr)}
    {n n' : TaskNode TaskPtr} (h : k.Keeps tasks) (ht : t ≠ idleTask)
    (hrun : k.vars.runningTask = some t)
    (heq : listRemove k.heap .readyList (.runningNode t) = some (heap, n))
    (heq' : listRemove heap .taskList (.taskNode t) = some (heap', n')) :
    (∃ q, Kernel.Stores { k with heap := heap' } q (tasks.erase t)) ∧ t ∉ tasks.erase t := by
  obtain ⟨q, hs, hi⟩ := h
  have hne : (TaskList.readyList : TaskList X S) ≠ .taskList := nofun
  have hq := hs.running hi hrun
  have hready : t ∈ q.lists .readyList := hq ▸ hi.mem_ready (hq ▸ ht)
  obtain ⟨h₁, e₁, hm₁⟩ := hs.models.remove hready
  obtain ⟨rfl, -⟩ := Prod.mk.inj (Option.some.inj (e₁.symm.trans heq))
  have hlive : t ∈ (q.setList .readyList ((q.lists .readyList).erase t)).lists .taskList := by
    rw [Queues.setList_lists_of_ne hne.symm]
    exact hs.live _ _ hready
  obtain ⟨h₂, e₂, hm₂⟩ := hm₁.remove hlive
  obtain ⟨rfl, -⟩ := Prod.mk.inj (Option.some.inj (e₂.symm.trans heq'))
  have hp₁ := hs.placed.shrink (@List.erase_sublist _ _ t (q.lists .readyList))
  have hhome := hs.placed.homeless hne hready (hs.placed.nodup .readyList).not_mem_erase
  refine ⟨⟨_, hm₂, hp₁.shrink List.erase_sublist, fun l u hu => ?_, ?_⟩, ?_⟩
  · rw [Queues.setList_lists_self]
    by_cases hl : l = .taskList
    · rwa [hl, Queues.setList_lists_self] at hu
    · rw [Queues.setList_lists_of_ne hl] at hu
      have hut : u ≠ t := fun he => hhome l hl (he ▸ hu)
      refine (List.mem_erase_of_ne hut).mpr ?_
      rw [Queues.setList_lists_of_ne hne.symm]
      by_cases hl' : l = .readyList
      · rw [hl', Queues.setList_lists_self] at hu
        exact hs.live _ u (List.mem_of_mem_erase hu)
      · rw [Queues.setList_lists_of_ne hl'] at hu
        exact hs.live l u hu
  · rw [Queues.setList_lists_self, Queues.setList_lists_of_ne hne.symm, hs.tasks]
  · rw [← hs.tasks]
    exact (hs.placed.nodup _).not_mem_erase

omit [HasAddr (TaskNode TaskPtr)] in
theorem Kernel.Stores.dispatch (h : k.Stores q tasks) (heq : tssTaskDispatch k = some k') :
    k'.Keeps tasks := by
  obtain ⟨k₁, heq₁, hm⟩ := tssTaskDispatch_sim h.models
  obtain rfl := Option.some.inj (heq₁.symm.trans heq)
  have hi := Queues.dispatch_inv h.placed
  refine ⟨_, ⟨hm, hi.placed, ?_, ?_⟩, hi⟩
  · rw [Queues.dispatch_lists]
    exact h.live
  · rw [Queues.dispatch_lists]
    exact h.tasks

end Kernel

/-! ## Names -/

/-- `kernel_strcpy` copies the first byte, and all others come after it. -/
theorem kernelStrcpyLoop_first {src dst name : Bytes} {n i : Nat} (hi : 0 < i)
    (h : kernelStrcpyLoop src n i dst = some name) : name 0 = dst 0 := by
  induction n generalizing i dst with
  | zero => cases h
  | succ n ih =>
      have hne : (0 : Nat) ≠ i := Nat.ne_of_lt hi
      rw [kernelStrcpyLoop] at h
      split at h
      · rw [← Option.some.inj h, Bytes.store8_of_ne hne]
      · rw [ih (Nat.succ_pos i) h, Bytes.store8_of_ne hne]

theorem kernelStrcpy_first {src dst name : Bytes} (hsrc : src 0 ≠ 0)
    (h : kernelStrcpy dst src = some name) : name 0 = src 0 := by
  rw [kernelStrcpy, show stringFuel = 0xFFFFFFFF + 1 from rfl, kernelStrcpyLoop, if_neg hsrc] at h
  rw [kernelStrcpyLoop_first Nat.one_pos h, Bytes.store8_self]

/-! ## The system -/

namespace TaskSystem

section Slots

variable {X S : Type} {s s' : TaskSystem X S} {t : TaskPtr} {tasks : List TaskPtr}

/-- The kernel keeps `tasks`, and those of them in a slot have a name. -/
structure Slots (s : TaskSystem X S) (tasks : List TaskPtr) : Prop where
  kernel : s.kernel.Keeps tasks
  named : ∀ i, .slot i ∈ tasks → (s.proc (.slot i)).name 0 ≠ 0

@[simp] theorem withKernel_kernel {kernel : Kernel TaskPtr X S} :
    (s.withKernel kernel).kernel = kernel := by
  rw [withKernel]
  split
  · rfl
  · split <;> rfl

@[simp] theorem withKernel_proc {kernel : Kernel TaskPtr X S} :
    (s.withKernel kernel).proc = s.proc := by
  rw [withKernel]
  split
  · rfl
  · split <;> rfl

/-- A free slot is not the slot of a live task. -/
theorem Slots.freeSlot {i : Fin osTaskMaxSize} (h : s.Slots tasks) (hi : s.freeSlot = some i) :
    .slot i ∉ tasks := by
  intro hmem
  have hempty := List.find?_some hi
  exact h.named i hmem (of_decide_eq_true hempty)

/-- A task that is not live, has no slot or has a name may change. -/
theorem Slots.modify {f : Proc → Proc} (h : s.Slots tasks)
    (hf : ∀ i, t = .slot i → t ∈ tasks → (f (s.proc t)).name 0 ≠ 0) :
    (s.modify t f).Slots tasks := by
  refine ⟨h.kernel, fun i hi => ?_⟩
  by_cases ht : .slot i = t
  · subst ht
    rw [modify_self]
    exact hf i rfl hi
  · rw [modify_of_ne ht]
    exact h.named i hi

/-- Everything but the name may change. -/
theorem Slots.keepName {f : Proc → Proc} (h : s.Slots tasks) (hf : ∀ p, (f p).name = p.name) :
    (s.modify t f).Slots tasks := by
  refine h.modify fun i ht hmem => ?_
  subst ht
  rw [hf]
  exact h.named i hmem

theorem Slots.setMachine {m : Machine} (h : s.Slots tasks) : (s.setMachine m).Slots tasks :=
  ⟨h.kernel, h.named⟩

theorem Slots.setGdt {gdt : Nat → Nat} (h : s.Slots tasks) : (s.setGdt gdt).Slots tasks :=
  ⟨h.kernel, h.named⟩

end Slots

variable {X S : Type} [DecidableEq X] [DecidableEq S] [HasAddr (TaskNode TaskPtr)]
  {s s' : TaskSystem X S} {t : TaskPtr} {tasks : List TaskPtr}

omit [HasAddr (TaskNode TaskPtr)] in
theorem tssTaskDestroy_cases (h : s.tssTaskDestroy t = some s') :
    ∃ k, clearTask s.kernel t = some k ∧ s'.kernel = k
      ∧ s'.proc = Function.update s.proc t .zero := by
  rw [tssTaskDestroy] at h
  obtain ⟨running, -, h⟩ := Option.bind_eq_some_iff.mp h
  obtain ⟨m, -, h⟩ := Option.bind_eq_some_iff.mp h
  obtain ⟨k, hk, h⟩ := Option.bind_eq_some_iff.mp h
  obtain rfl := Option.some.inj h
  exact ⟨k, hk, rfl, rfl⟩

omit [HasAddr (TaskNode TaskPtr)] in
/-- `tss_task_destroy`, of a task that is in no list. -/
theorem Slots.destroy (h : s.Slots tasks) (ht : t ∉ tasks) (heq : s.tssTaskDestroy t = some s') :
    s'.Slots tasks := by
  obtain ⟨k, hk, hk', hp⟩ := tssTaskDestroy_cases heq
  have hz : (s.modify t fun _ => .zero).Slots tasks := h.modify fun _ _ hmem => absurd hmem ht
  refine ⟨?_, ?_⟩
  · rw [hk']
    exact h.kernel.clearTask ht hk
  · rw [hp]
    exact hz.named

omit [DecidableEq X] [DecidableEq S] [HasAddr (TaskNode TaskPtr)] in
/-- `tss_init` does not touch the kernel or a name. -/
theorem tssInit_keeps {entry esp : Nat} :
    (s.tssInit t entry esp).1.kernel = s.kernel
      ∧ ∀ u, ((s.tssInit t entry esp).1.proc u).name = (s.proc u).name := by
  have hname : ∀ {s₁ : TaskSystem X S} {f : Proc → Proc}, s₁.proc = s.proc →
      (∀ p, (f p).name = p.name) → ∀ u, ((s₁.modify t f).proc u).name = (s.proc u).name := by
    intro s₁ f hs₁ hf u
    by_cases hu : u = t
    · rw [hu, modify_self, hf, hs₁]
    · rw [modify_of_ne hu, hs₁]
  rw [tssInit]
  dsimp only
  split
  · simp only [modify_kernel, setGdt_kernel, setMachine_kernel]
    exact ⟨trivial, hname (by simp only [setGdt_proc, setMachine_proc]) fun _ => rfl⟩
  · simp only [modify_kernel, setGdt_kernel, setMachine_kernel]
    exact ⟨trivial, hname (by simp only [setGdt_proc, setMachine_proc]) fun _ => rfl⟩

/-- A task in no list either stays there, or gets a name and a place. -/
theorem Slots.tssTaskInit {named : TaskPtr} {entry esp : Nat} {r : Int} (h : s.Slots tasks)
    (ht : t ∉ tasks) (hname : (s.proc named).name 0 ≠ 0)
    (heq : s.tssTaskInit t named entry esp = some (s', r)) :
    (r ≠ 0 ∧ s'.Slots tasks) ∨ (r = 0 ∧ s'.Slots (t :: tasks)) := by
  have hkernel : (s.tssInit t entry esp).1.kernel = s.kernel := tssInit_keeps.1
  have hnames : ∀ u, ((s.tssInit t entry esp).1.proc u).name = (s.proc u).name := tssInit_keeps.2
  have h₁ : (s.tssInit t entry esp).1.Slots tasks :=
    ⟨by rw [hkernel]; exact h.kernel, fun i hi => by rw [hnames]; exact h.named i hi⟩
  have hname₁ : ((s.tssInit t entry esp).1.proc named).name 0 ≠ 0 := by rwa [hnames]
  rw [TaskSystem.tssTaskInit] at heq
  generalize s.tssInit t entry esp = result at h₁ hname₁ heq
  obtain ⟨s₁, r₁⟩ := result
  dsimp only at h₁ hname₁ heq
  split at heq
  case isTrue hr =>
    obtain ⟨rfl, rfl⟩ := Prod.mk.inj (Option.some.inj heq)
    exact Or.inl ⟨Int.ne_of_lt hr, h₁⟩
  case isFalse =>
    obtain ⟨name, hcopy, heq⟩ := Option.bind_eq_some_iff.mp heq
    obtain ⟨⟨k, r'⟩, hk, heq⟩ := Option.bind_eq_some_iff.mp heq
    obtain ⟨rfl, rfl⟩ := Prod.mk.inj (Option.some.inj heq)
    have hfirst := kernelStrcpy_first hname₁ hcopy
    have h₂ : (s₁.modify t fun p => { p with name }).Slots tasks :=
      h₁.modify fun _ _ hmem => absurd hmem ht
    have h₃ : ((s₁.modify t fun p => { p with name }).setKernel k).Slots (t :: tasks) := by
      refine ⟨h₂.kernel.initTask ht hk, fun i hi => ?_⟩
      by_cases hit : .slot i = t
      · subst hit
        rw [setKernel_proc, modify_self]
        exact fun hz => hname₁ (hfirst ▸ hz)
      · exact h₂.named i ((List.mem_cons.mp hi).resolve_left hit)
    have h₄ := h₃.keepName (t := t) (f := fun p => { p with
      pid := (s₁.modify t fun p => { p with name }).taskPid, bheap := 0, eheap := 0 }) fun _ => rfl
    exact Or.inr ⟨rfl, h₄.kernel, h₄.named⟩

variable [TaskMutex X]

/-- Taking the mutex without waiting does not change who runs. -/
theorem lockTaskMutex_slots (h : s.Slots tasks) (ht : s.kernel.vars.runningTask = some t)
    (hne : t ≠ idleTask) (hlock : s.lockTaskMutex = some s') :
    s'.Slots tasks ∧ s'.proc = s.proc ∧ s'.kernel.vars.runningTask = some t := by
  have hcalls : s.kernel.Calls (.lock taskMutex) := fun _ hidle =>
    hne (Option.some.inj (ht.symm.trans hidle))
  rw [lockTaskMutex] at hlock
  split at hlock
  case isFalse => cases hlock
  case isTrue hfree =>
    obtain ⟨k, hk, heq⟩ := Option.bind_eq_some_iff.mp hlock
    obtain rfl := Option.some.inj heq
    refine ⟨⟨h.kernel.step hcalls hk, h.named⟩, rfl, ?_⟩
    have hrun : k.vars.runningTask = s.kernel.vars.runningTask := by
      rw [mutexLock] at hk
      by_cases hzero : (s.kernel.vars.mutex taskMutex).locker = 0
      · simp only [if_pos hzero] at hk
        obtain rfl := Option.some.inj hk
        rfl
      · simp only [if_neg hzero, if_pos (hfree.resolve_left hzero)] at hk
        obtain rfl := Option.some.inj hk
        rfl
    exact hrun.trans ht

theorem unlockTaskMutex_slots (hunlock : s.unlockTaskMutex = some s') (h : s.Slots tasks)
    (ht : s.kernel.vars.runningTask = some t) (hne : t ≠ idleTask) :
    s'.Slots tasks ∧ s'.proc = s.proc := by
  have hcalls : s.kernel.Calls (.unlock taskMutex) := fun _ hidle =>
    hne (Option.some.inj (ht.symm.trans hidle))
  obtain ⟨k, hk, heq⟩ := Option.bind_eq_some_iff.mp hunlock
  obtain rfl := Option.some.inj heq
  refine ⟨⟨?_, ?_⟩, withKernel_proc⟩
  · rw [withKernel_kernel]
    exact h.kernel.step hcalls hk
  · rw [withKernel_proc]
    exact h.named

/-- `alloc_task` finds the first slot without a name. -/
theorem allocTask_slots {child : Option TaskPtr} (h : s.Slots tasks)
    (ht : s.kernel.vars.runningTask = some t) (hne : t ≠ idleTask)
    (heq : s.allocTask = some (s', child)) :
    s'.Slots tasks ∧ s'.proc = s.proc ∧ child = s.freeSlot.map .slot := by
  obtain ⟨s₁, hlock, heq⟩ := Option.bind_eq_some_iff.mp heq
  obtain ⟨s₂, hunlock, heq⟩ := Option.bind_eq_some_iff.mp heq
  obtain ⟨rfl, rfl⟩ := Prod.mk.inj (Option.some.inj heq)
  obtain ⟨h₁, hp₁, ht₁⟩ := lockTaskMutex_slots h ht hne hlock
  obtain ⟨h₂, hp₂⟩ := unlockTaskMutex_slots hunlock h₁ ht₁ hne
  refine ⟨h₂, hp₂.trans hp₁, ?_⟩
  rw [freeSlot, freeSlot, hp₁]

/-! ## The calls -/

/-- The child of a task with a name gets a slot that no live task has. -/
theorem Slots.tssTaskFork {r : Int} (h : s.Slots tasks) (ht : s.kernel.vars.runningTask = some t)
    (hne : t ≠ idleTask) (hname : (s.proc t).name 0 ≠ 0) (heq : s.tssTaskFork = some (s', r)) :
    ((s.freeSlot = none ∨ r < 0) ∧ s'.Slots tasks)
      ∨ ∃ i, s.freeSlot = some i ∧ ¬ r < 0 ∧ s'.Slots (.slot i :: tasks) := by
  rw [TaskSystem.tssTaskFork, ht, Option.bind_eq_bind, Option.bind_some] at heq
  obtain ⟨⟨s₁, child⟩, halloc, heq⟩ := Option.bind_eq_some_iff.mp heq
  obtain ⟨h₁, hp₁, hchild⟩ := allocTask_slots h ht hne halloc
  cases hfree : s.freeSlot with
  | none =>
      rw [hfree, Option.map_none] at hchild
      subst hchild
      obtain ⟨rfl, -⟩ := Prod.mk.inj (Option.some.inj heq)
      exact Or.inl ⟨Or.inl rfl, h₁⟩
  | some i =>
      rw [hfree, Option.map_some] at hchild
      subst hchild
      have hi := h.freeSlot hfree
      dsimp only at heq
      obtain ⟨⟨s₂, ret⟩, hinit, heq⟩ := Option.bind_eq_some_iff.mp heq
      have hinit := h₁.tssTaskInit hi (by rwa [hp₁]) hinit
      dsimp only at heq
      by_cases hret : ret = 0
      · have h₂ := (hinit.resolve_left fun hfail => hfail.1 hret).2
        rw [if_neg (not_not.mpr hret)] at heq
        obtain ⟨⟨m, r'⟩, -, heq⟩ := Option.bind_eq_some_iff.mp heq
        obtain ⟨rfl, rfl⟩ := Prod.mk.inj (Option.some.inj heq)
        have h₃ := h₂.keepName (t := .slot i) (f := fun p => { p with
          tss := forkTss p.tss (syscallFrame s₁.machine.mem (s₁.proc t).tss.esp0)
          parent := some t }) fun _ => rfl
        exact Or.inr ⟨i, rfl, Int.not_lt.mpr (Int.natCast_nonneg _),
          h₃.setMachine.keepName fun _ => rfl⟩
      · have h₂ := (hinit.resolve_right fun hok => hret hok.1).2
        rw [if_pos hret] at heq
        obtain ⟨s₃, hdestroy, heq⟩ := Option.bind_eq_some_iff.mp heq
        obtain ⟨rfl, rfl⟩ := Prod.mk.inj (Option.some.inj heq)
        exact Or.inl ⟨Or.inr (by decide), h₂.destroy hi hdestroy⟩

omit [DecidableEq X] [DecidableEq S] [HasAddr (TaskNode TaskPtr)] [TaskMutex X] in
theorem Slots.setPde (h : s.Slots tasks) (t : TaskPtr) (pde : Nat) :
    (s.setPde t pde).Slots tasks :=
  h.setMachine.keepName fun _ => rfl

/-- The end of a failing `execve`. -/
theorem Slots.execveFails {oldPde : Nat} {r : Int} (h : s.Slots tasks)
    (ht : s.kernel.vars.runningTask = some t) (hne : t ≠ idleTask)
    (heq : s.execveFails t oldPde = some (s', r)) : s'.Slots tasks := by
  rw [TaskSystem.execveFails] at heq
  obtain ⟨m, -, heq⟩ := Option.bind_eq_some_iff.mp heq
  obtain ⟨s₁, hunlock, heq⟩ := Option.bind_eq_some_iff.mp heq
  obtain ⟨rfl, -⟩ := Prod.mk.inj (Option.some.inj heq)
  exact (unlockTaskMutex_slots hunlock (h.setPde t oldPde).setMachine ht hne).1

/-- The end of an `execve` that succeeds. -/
theorem Slots.execveEnters {oldPde newPde entry stackTop : Nat} {r : Int} (h : s.Slots tasks)
    (ht : s.kernel.vars.runningTask = some t) (hne : t ≠ idleTask)
    (heq : s.execveEnters t oldPde newPde entry stackTop = some (s', r)) : s'.Slots tasks := by
  rw [TaskSystem.execveEnters] at heq
  obtain ⟨m, -, heq⟩ := Option.bind_eq_some_iff.mp heq
  obtain ⟨⟨m', heap⟩, -, heq⟩ := Option.bind_eq_some_iff.mp heq
  obtain ⟨s₁, hunlock, heq⟩ := Option.bind_eq_some_iff.mp heq
  obtain ⟨rfl, -⟩ := Prod.mk.inj (Option.some.inj heq)
  exact (unlockTaskMutex_slots hunlock
    ((h.setMachine.setPde t newPde).setMachine.keepName fun _ => rfl) ht hne).1

theorem Slots.execveLoads {image : Bytes} {oldPde newPde retAddr argv : Nat} {r : Int}
    (h : s.Slots tasks) (ht : s.kernel.vars.runningTask = some t) (hne : t ≠ idleTask)
    (heq : s.execveLoads t image oldPde newPde retAddr argv = some (s', r)) : s'.Slots tasks := by
  rw [TaskSystem.execveLoads] at heq
  obtain ⟨⟨m, heap, entry⟩, -, heq⟩ := Option.bind_eq_some_iff.mp heq
  have h₁ : ((s.setMachine m).modify t fun p =>
      { p with bheap := heap.1, eheap := heap.2 }).Slots tasks := h.setMachine.keepName fun _ => rfl
  generalize hs₁ : (s.setMachine m).modify t _ = s₁ at h₁
  have ht₁ : s₁.kernel.vars.runningTask = some t := by
    rw [← hs₁]
    exact ht
  simp only [hs₁] at heq
  by_cases hentry : entry = 0
  · rw [if_pos hentry] at heq
    exact h₁.execveFails ht₁ hne heq
  rw [if_neg hentry] at heq
  generalize allocTaskPages s₁.machine newPde _ _ _ = result at heq
  obtain ⟨m₂, err⟩ := result
  dsimp only at heq
  by_cases herr : err < 0
  · rw [if_pos herr] at heq
    refine h₁.setMachine.execveFails ?_ hne heq
    rw [setMachine_kernel]
    exact ht₁
  rw [if_neg herr] at heq
  obtain ⟨argc, -, heq⟩ := Option.bind_eq_some_iff.mp heq
  obtain ⟨⟨m₃, err'⟩, -, heq⟩ := Option.bind_eq_some_iff.mp heq
  dsimp only at heq
  by_cases herr' : err' < 0
  · rw [if_pos herr'] at heq
    refine h₁.setMachine.setMachine.execveFails ?_ hne heq
    rw [setMachine_kernel, setMachine_kernel]
    exact ht₁
  · rw [if_neg herr'] at heq
    refine h₁.setMachine.setMachine.execveEnters ?_ hne heq
    rw [setMachine_kernel, setMachine_kernel]
    exact ht₁

/-- A task outside of `task_table` may lose its name. -/
theorem Slots.tssTaskExecve {image : Bytes} {retAddr name argv : Nat} {r : Int}
    (h : s.Slots tasks) (ht : s.kernel.vars.runningTask = some t) (hne : t ≠ idleTask)
    (hslot : ∀ i, t ≠ .slot i) (heq : s.tssTaskExecve image retAddr name argv = some (s', r)) :
    s'.Slots tasks := by
  rw [TaskSystem.tssTaskExecve] at heq
  obtain ⟨s₁, hlock, heq⟩ := Option.bind_eq_some_iff.mp heq
  obtain ⟨h₁, -, ht₁⟩ := lockTaskMutex_slots h ht hne hlock
  rw [ht₁, Option.bind_eq_bind, Option.bind_some] at heq
  obtain ⟨file, -, heq⟩ := Option.bind_eq_some_iff.mp heq
  obtain ⟨taskName, -, heq⟩ := Option.bind_eq_some_iff.mp heq
  have h₂ : (s₁.modify t fun p => { p with name := taskName }).Slots tasks :=
    h₁.modify fun i hi => absurd hi (hslot i)
  dsimp only at heq
  generalize memory32CreatePde _ = created at heq
  obtain ⟨m, newPde⟩ := created
  dsimp only at heq
  by_cases hpde : newPde = 0
  · rw [if_pos hpde] at heq
    obtain ⟨rfl, -⟩ := Prod.mk.inj (Option.some.inj heq)
    exact h₂.setMachine
  · rw [if_neg hpde] at heq
    exact h₂.setMachine.execveLoads (by rwa [setMachine_kernel]) hne heq

omit [TaskMutex X] in
/-- A task leaves the system: its slot has no name any more. -/
theorem Slots.tssTaskExit {code : Int} (h : s.Slots tasks)
    (ht : s.kernel.vars.runningTask = some t) (hne : t ≠ idleTask)
    (heq : s.tssTaskExit code = some s') : s'.Slots (tasks.erase t) := by
  rw [TaskSystem.tssTaskExit, ht, Option.bind_eq_bind, Option.bind_some] at heq
  obtain ⟨s₁, hs₁, h₁, ht₁⟩ : ∃ s₁, s₁ = (if (s.kernel.vars.task t).state = .dying then
      let vars := s.kernel.vars.setTask t { s.kernel.vars.task t with state := .died }
      (s.setKernel { s.kernel with vars }).modify t fun p => { p with exitCode := code }
    else s) ∧ s₁.Slots tasks ∧ s₁.kernel.vars.runningTask = some t := by
    refine ⟨_, rfl, ?_⟩
    split
    · exact ⟨Slots.keepName ⟨Kernel.Keeps.setTask h.kernel, h.named⟩ fun _ => rfl, ht⟩
    · exact ⟨h, ht⟩
  rw [← hs₁] at heq
  obtain ⟨⟨heap, n⟩, hready, heq⟩ := Option.bind_eq_some_iff.mp heq
  obtain ⟨⟨heap', n'⟩, htask, heq⟩ := Option.bind_eq_some_iff.mp heq
  obtain ⟨s₂, hdestroy, heq⟩ := Option.bind_eq_some_iff.mp heq
  obtain ⟨k, hdispatch, heq⟩ := Option.bind_eq_some_iff.mp heq
  obtain rfl := Option.some.inj heq
  obtain ⟨⟨q, hq⟩, hgone⟩ := h₁.kernel.leave hne ht₁ hready htask
  obtain ⟨k₂, hclear, hk₂, hp₂⟩ := tssTaskDestroy_cases hdestroy
  obtain ⟨q', hq', -, -⟩ := hq.clearTask hgone hclear
  refine ⟨?_, fun i hi => ?_⟩
  · rw [withKernel_kernel]
    exact Kernel.Stores.dispatch (hk₂ ▸ hq') hdispatch
  · have hit : .slot i ≠ t := fun he => hgone (he ▸ hi)
    rw [withKernel_proc, hp₂, Function.update_of_ne hit]
    exact h₁.named i (List.mem_of_mem_erase hi)

end TaskSystem

/-! ## The law -/

namespace TaskRun

variable {X S : Type} [DecidableEq X] [DecidableEq S] [TaskMutex X] {r r' : TaskRun X S}

theorem allocTask_free {s s' : TaskSystem X S} {t : TaskPtr}
    (h : s.allocTask = some (s', some t)) : ∃ i, t = .slot i ∧ s.freeSlot = some i := by
  obtain ⟨s₁, hlock, h⟩ := Option.bind_eq_some_iff.mp h
  obtain ⟨s₂, -, h⟩ := Option.bind_eq_some_iff.mp h
  obtain ⟨i, hi, rfl⟩ := Option.map_eq_some_iff.mp (Prod.mk.inj (Option.some.inj h)).2
  refine ⟨i, rfl, ?_⟩
  rw [TaskSystem.lockTaskMutex] at hlock
  split at hlock
  case isFalse => cases hlock
  case isTrue =>
    obtain ⟨k, -, heq⟩ := Option.bind_eq_some_iff.mp hlock
    obtain rfl := Option.some.inj heq
    exact hi

/-- What every step keeps. -/
theorem slotLaw_of_slots (h : r.sys.Slots (r.live.map Prod.snd)) : r.SlotLaw := by
  obtain ⟨q, hs, -⟩ := h.kernel
  refine ⟨?_, hs.tasks ▸ hs.placed.nodup .taskList, fun s t halloc => ?_⟩
  · have hrep := hs.models.holds.rep .taskList _ rfl
    rw [hs.tasks, List.map_map] at hrep
    exact hrep
  · obtain ⟨i, rfl, hi⟩ := allocTask_free halloc
    exact h.freeSlot hi

variable [HasAddr (TaskNode TaskPtr)]

omit [TaskMutex X] in
theorem Booted.slots (h : r.Booted) : r.sys.Slots (r.live.map Prod.snd) := by
  obtain ⟨k, r₀, r₁, hk, hr₀, hr₁, hboot⟩ := h.kernel
  have hne : TaskPtr.defaultTask ≠ idleTask := by decide
  obtain ⟨k', q, heq, hm, hq, -, htasks⟩ := hk.boot hne hr₀ hr₁
  obtain rfl := Option.some.inj (heq.symm.trans hboot)
  rw [h.live]
  exact ⟨⟨q, ⟨hm, hq.inv.placed, hq.live, htasks⟩, hq.inv⟩, fun i hi => by simp at hi⟩

theorem step_slots {c : TaskCall X S} (h : r.sys.Slots (r.live.map Prod.snd)) (hfit : r.Fits c)
    (hstep : r.step c = some r') : r'.sys.Slots (r'.live.map Prod.snd) := by
  cases c with
  | fork =>
      obtain ⟨t, ht, hne, hname⟩ := hfit
      obtain ⟨⟨s, ret⟩, hfork, heq⟩ := Option.bind_eq_some_iff.mp hstep
      rcases h.tssTaskFork ht hne hname hfork with ⟨hnone | hret, hs⟩ | ⟨i, hi, hret, hs⟩
      · simp only [hnone] at heq
        obtain rfl := Option.some.inj heq
        exact hs
      · cases hfree : r.sys.freeSlot with
        | none =>
            simp only [hfree] at heq
            obtain rfl := Option.some.inj heq
            exact hs
        | some i =>
            simp only [hfree, if_pos hret] at heq
            obtain rfl := Option.some.inj heq
            exact hs
      · simp only [hi, if_neg hret] at heq
        obtain rfl := Option.some.inj heq
        exact hs
  | execve image retAddr name argv =>
      obtain ⟨t, ht, hne, hslot⟩ := hfit
      obtain ⟨⟨s, ret⟩, hexecve, heq⟩ := Option.bind_eq_some_iff.mp hstep
      obtain rfl := Option.some.inj heq
      exact h.tssTaskExecve ht hne hslot hexecve
  | exit code =>
      obtain ⟨t, ht, hne⟩ := hfit
      obtain ⟨s, hexit, heq⟩ := Option.bind_eq_some_iff.mp hstep
      obtain rfl := Option.some.inj heq
      have hs := h.tssTaskExit ht hne hexit
      obtain ⟨q, hq, -⟩ := h.kernel
      have hnodup : (r.live.map Prod.snd).Nodup := hq.tasks ▸ hq.placed.nodup .taskList
      have hlive : (r.live.filter fun p => some p.2 ≠ r.sys.kernel.vars.runningTask).map Prod.snd
          = (r.live.map Prod.snd).erase t := by
        rw [hnodup.erase_eq_filter, List.filter_map, ht]
        congr 2
        funext p
        by_cases hp : p.2 = t <;> simp [hp]
      show s.Slots ((r.live.filter fun p => some p.2 ≠ r.sys.kernel.vars.runningTask).map Prod.snd)
      rw [hlive]
      exact hs
  | act a =>
      obtain ⟨k, hk, heq⟩ := Option.bind_eq_some_iff.mp hstep
      obtain rfl := Option.some.inj heq
      refine ⟨?_, fun i hi => ?_⟩
      · rw [TaskSystem.withKernel_kernel]
        exact h.kernel.step hfit hk
      · rw [TaskSystem.withKernel_proc]
        exact h.named i hi

/-- From the boot sequence on, as long as no task in a slot calls
`execve` and no task without a name calls `fork`, no slot of a live task
is given to another. -/
theorem taskSlots_law {calls : List (TaskCall X S)} (h : r.Booted)
    (hfit : Always step Fits r calls) (hrun : run step r calls = some r') : r'.SlotLaw := by
  let I : TaskRun X S → Prop := fun r => r.sys.Slots (r.live.map Prod.snd)
  have hkeeps : ∀ r c r', I r → Fits r c → step r c = some r' → I r' :=
    fun _ _ _ => step_slots
  exact slotLaw_of_slots (run_invariant_of_always hkeeps h.slots hfit hrun)

end TaskRun

/-! ## A small system -/

namespace TaskPtr

/-- The number of a task, as if all lay in one table. -/
def number : TaskPtr → Nat
  | slot i => i
  | defaultTask => 128
  | idleTask => 129

theorem number_lt (t : TaskPtr) : t.number < 130 := by
  cases t with
  | slot i => exact Nat.lt_trans i.isLt (by decide)
  | defaultTask => decide
  | idleTask => decide

theorem number_injective {t u : TaskPtr} (h : t.number = u.number) : t = u := by
  have hslot : ∀ i : Fin osTaskMaxSize, i.val < 128 := fun i => i.isLt
  cases t with
  | slot i =>
      cases u with
      | slot j => exact congrArg slot (Fin.ext h)
      | defaultTask => exact absurd h (Nat.ne_of_lt (hslot i))
      | idleTask => exact absurd h (Nat.ne_of_lt (Nat.lt_succ_of_lt (hslot i)))
  | defaultTask =>
      cases u with
      | slot j => exact absurd h.symm (Nat.ne_of_lt (hslot j))
      | defaultTask => rfl
      | idleTask => cases h
  | idleTask =>
      cases u with
      | slot j => exact absurd h.symm (Nat.ne_of_lt (Nat.lt_succ_of_lt (hslot j)))
      | defaultTask => cases h
      | idleTask => rfl

end TaskPtr

instance : HasAddr (TaskNode TaskPtr) where
  addr
    | .runningNode t => UInt32.ofNat (0x10000 + 0x1000 * t.number)
    | .taskNode t => UInt32.ofNat (0x10008 + 0x1000 * t.number)
    | .waitNode t => UInt32.ofNat (0x10010 + 0x1000 * t.number)
  addr_injective := by
    rintro (t | t | t) (u | u | u) h <;>
      have h := congrArg UInt32.toNat h <;>
      simp only [UInt32.toNat_ofNat'] at h <;>
      have := t.number_lt <;> have := u.number_lt <;>
      first | omega | skip
    all_goals
      congr 1
      exact TaskPtr.number_injective (by omega)
  addr_ne_zero := by
    rintro (t | t | t) h <;>
      have h := congrArg UInt32.toNat h <;>
      simp only [UInt32.toNat_ofNat', UInt32.toNat_zero] at h <;>
      have := t.number_lt <;> omega

instance : TaskMutex Unit := ⟨()⟩

/-- The lists are not set up yet. -/
def resetKernel : Kernel TaskPtr Unit Unit where
  heap :=
    { pre := fun _ => none
      next := fun _ => none
      head := fun _ => none
      tail := fun _ => none
      size := fun _ => 0 }
  vars :=
    { task := fun _ => { state := .created, ticks := 0, slices := 0, sleep := 0 }
      runningTask := none
      mutex := fun _ => { owner := none, locker := 0 }
      counter := fun _ => 0 }

theorem resetKernel_blank : resetKernel.Blank :=
  .of_zero (fun _ => ⟨rfl, rfl, rfl⟩) fun _ => ⟨rfl, rfl, rfl⟩

/-- The boot sequence is over; two pages are free, and at 0x3000 there is
a name. -/
def bootedSystem : TaskSystem Unit Unit where
  kernel := ((tssTaskQueueInit resetKernel 0).bind fun k =>
    defaultTssTaskInit k .defaultTask 0).get (by decide)
  proc t := { Proc.zero with
    name := fun a => if t = .defaultTask ∧ a = 0 then 0x64 else 0
    tss := { Tss.zero with esp0 := 0x9000, cr3 := 0x100000 } }
  machine :=
    { mem := fun a => if a = 0x3000 then 0x2F else if a = 0x3001 then 0x73
        else if a = 0x3002 then 0x68 else 0
      cr3 := 0x100000
      kernelPde := 0x8000
      info :=
        { start := 0x100000
          pageSize := 0x1000
          bitmap := { bitSize := 3, bits := fun i => if i = 0 then 1 else 0 } } }
  gdt := fun i => if i < 10 then 1 else 0
  taskPid := 2
  ucSelector := 0x38
  udSelector := 0x30

def bootedRun : TaskRun Unit Unit := ⟨bootedSystem, [(1, .defaultTask), (0, .idleTask)]⟩

theorem bootedRun_booted : bootedRun.Booted where
  kernel := ⟨resetKernel, 0, 0, resetKernel_blank, by decide, by decide,
    (Option.some_get (by decide)).symm⟩
  table i := by
    funext a
    show (if TaskPtr.slot i = .defaultTask ∧ a = 0 then (0x64 : BitVec 8) else 0) = 0
    exact if_neg fun h => TaskPtr.noConfusion h.1
  live := rfl

/-- The default task forks, lets its child run, and calls `execve`. -/
theorem taskSlots_law_child :
    ∃ r, run TaskRun.step bootedRun [.fork, .act .yield, .act .yield,
        .execve (fun _ => 0) 0 0x3000 0] = some r
      ∧ r.SlotLaw ∧ r.live = [(2, .slot 0), (1, .defaultTask), (0, .idleTask)] := by
  have hfit : Always TaskRun.step TaskRun.Fits bootedRun [.fork, .act .yield, .act .yield,
      .execve (fun _ => 0) 0 0x3000 0] := by
    refine always_cons_get ⟨.defaultTask, by decide +kernel, by decide, by decide +kernel⟩
      (by decide +kernel) ?_
    refine always_cons_get (by show Kernel.Calls _ _; decide +kernel) (by decide +kernel) ?_
    refine always_cons_get (by show Kernel.Calls _ _; decide +kernel) (by decide +kernel) ?_
    refine always_cons_get ⟨.defaultTask, by decide +kernel, by decide, nofun⟩
      (by decide +kernel) trivial
  obtain ⟨r, hrun, hlive⟩ := Option.map_eq_some_iff.mp
    (show (run TaskRun.step bootedRun [.fork, .act .yield, .act .yield,
        .execve (fun _ => 0) 0 0x3000 0]).map TaskRun.live
      = some [(2, .slot 0), (1, .defaultTask), (0, .idleTask)] by decide +kernel)
  exact ⟨r, hrun, TaskRun.taskSlots_law bootedRun_booted hfit hrun, hlive⟩

/-- The child calls `execve`. -/
theorem taskSlots_law_fails :
    ¬ ∀ (calls : List (TaskCall Unit Unit)) (r : TaskRun Unit Unit),
      Always TaskRun.step TaskRun.Asks bootedRun calls →
      run TaskRun.step bootedRun calls = some r → r.SlotLaw := by
  intro hall
  let calls : List (TaskCall Unit Unit) :=
    [.fork, .act .yield, .execve (fun _ => 0) 0 0x3000 0]
  have hasks : Always TaskRun.step TaskRun.Asks bootedRun calls := by
    refine always_cons_get ⟨.defaultTask, by decide +kernel, by decide⟩ (by decide +kernel) ?_
    refine always_cons_get (by show Kernel.Calls _ _; decide +kernel) (by decide +kernel) ?_
    refine always_cons_get
      ⟨.slot 0, by decide +kernel, by decide, 0x2F, by decide +kernel, by decide⟩
      (by decide +kernel) trivial
  obtain ⟨r, hrun, hr⟩ := Option.map_eq_some_iff.mp
    (show (run TaskRun.step bootedRun calls).map (fun r => (r.live.map Prod.snd,
        r.sys.allocTask.bind Prod.snd))
      = some ([.slot 0, .defaultTask, .idleTask], some (.slot 0)) by decide +kernel)
  obtain ⟨hlive, halloc⟩ := Prod.mk.inj hr
  obtain ⟨⟨s, child⟩, halloc, hchild⟩ := Option.bind_eq_some_iff.mp halloc
  obtain rfl := hchild
  refine (hall calls r hasks hrun).unlinked s _ halloc ?_
  rw [hlive]
  exact List.mem_cons_self ..

end Csos
