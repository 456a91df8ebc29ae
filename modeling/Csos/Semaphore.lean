import Csos.Lib.Semaphore
import Csos.Queues

/-!
# One semaphore of the system

A driver that only waits for and notifies its own semaphore sees the
kernel as a counter and a queue of tasks. `sem_wait` and `sem_notify` do
to these what the semaphore by itself does: the developments of the
drivers start from here.
-/

namespace Csos

open Lib

section SemView

variable {T X S : Type} [DecidableEq T] [DecidableEq X] [DecidableEq S] [IdleTask T]
  {k : Kernel T X S} {q : Queues T X S} {s : S}

omit [DecidableEq T] [DecidableEq X] [DecidableEq S] [IdleTask T] in
/-- The semaphore `s` by itself. -/
def Queues.sem (q : Queues T X S) (s : S) : Sem T :=
  { counter := q.vars.counter s, waiting := q.lists (.semWaitList s) }

/-- `sem_wait` by the running task, which still runs exactly when it got
a token. -/
theorem Queues.wait_sem (hi : q.Inv) (hr : q.running ≠ idleTask) :
    (q.wait s).sem s = ((q.sem s).wait q.running).1
      ∧ ((q.wait s).vars.runningTask = q.vars.runningTask
        ↔ ((q.sem s).wait q.running).2 = true) := by
  by_cases hc : q.vars.counter s > 0
  · have hw : (q.sem s).wait q.running
        = ({ q.sem s with counter := (q.sem s).counter - 1 }, true) := if_pos hc
    rw [hw, Queues.wait, if_pos hc]
    exact ⟨by simp [Queues.sem, TaskVars.setCounter], by simp [TaskVars.setCounter]⟩
  · have hw : (q.sem s).wait q.running
        = ({ q.sem s with waiting := (q.sem s).waiting ++ [q.running] }, false) := if_neg hc
    have hne : (TaskList.semWaitList s : TaskList X S) ≠ .readyList := nofun
    have hout := Queues.moveTo_dispatch_runningTask hi hr hne
    rw [hw, Queues.wait, if_neg hc]
    refine ⟨?_, by simp [hout]⟩
    rw [Queues.sem, Queues.dispatch_keeps.counter, Queues.dispatch_lists, Queues.moveTo_vars,
      Queues.moveTo_lists_self]
    rfl

/-- `sem_notify`: whoever goes on is ready again. -/
theorem Queues.notify_sem (hi : q.Inv) :
    (q.notify s).sem s = (q.sem s).notify.1
      ∧ (q.notify s).lists .readyList
        = q.lists .readyList ++ (q.sem s).notify.2.toList := by
  cases hl : q.lists (.semWaitList s) with
  | nil =>
      have hn : (q.sem s).notify = _ := Sem.notify_nil (s := q.sem s) hl
      rw [hn, Queues.notify, hl]
      exact ⟨by simp [Queues.sem, TaskVars.setCounter, hl], by simp⟩
  | cons t ts =>
      have hn : (q.sem s).notify = _ := Sem.notify_cons (s := q.sem s) hl
      have hsem : (TaskList.semWaitList s : TaskList X S) ≠ .taskList := nofun
      have hsem' : (TaskList.semWaitList s : TaskList X S) ≠ .readyList := nofun
      have ht : t ≠ idleTask := fun he => hi.placed.idle _ hsem (he ▸ by simp [hl])
      simp only [hn, Queues.notify, hl]
      refine ⟨?_, ?_⟩
      · rw [Queues.sem, Queues.dispatch_keeps.counter, Queues.setReady_keeps.counter,
          Queues.setList_vars, Queues.dispatch_lists, Queues.setReady_keeps.lists _ hsem' nofun,
          Queues.setList_lists_self]
        rfl
      · rw [Queues.dispatch_lists, Queues.setReady, if_neg ht, Queues.setList_lists_self,
          Queues.setList_lists_of_ne hsem'.symm]
        rfl

variable [HasAddr (TaskNode T)]

/-- `sem_wait` of the kernel refines the semaphore by itself. -/
theorem semWait_sem (hm : k.Models q) (hi : q.Inv) (hr : q.running ≠ idleTask) :
    ∃ k' q', semWait k s = some k' ∧ k'.Models q' ∧ q'.Inv
      ∧ q'.sem s = ((q.sem s).wait q.running).1
      ∧ (k'.vars.runningTask = k.vars.runningTask ↔ ((q.sem s).wait q.running).2 = true) := by
  obtain ⟨k', hk', hm', hi'⟩ := semWait_sim hm hi hr s
  obtain ⟨hsem, hrun⟩ := Queues.wait_sem (s := s) hi hr
  refine ⟨k', q.wait s, hk', hm', hi', hsem, ?_⟩
  rw [hm'.vars, hm.vars]
  exact hrun

/-- `sem_notify` of the kernel refines the semaphore by itself. -/
theorem semNotify_sem (hm : k.Models q) (hi : q.Inv) :
    ∃ k' q', semNotify k s = some k' ∧ k'.Models q' ∧ q'.Inv
      ∧ q'.sem s = (q.sem s).notify.1
      ∧ q'.lists .readyList = q.lists .readyList ++ (q.sem s).notify.2.toList := by
  obtain ⟨k', hk', hm', hi'⟩ := semNotify_sim hm hi s
  obtain ⟨hsem, hready⟩ := Queues.notify_sem (s := s) hi
  exact ⟨k', q.notify s, hk', hm', hi', hsem, hready⟩

end SemView

end Csos
