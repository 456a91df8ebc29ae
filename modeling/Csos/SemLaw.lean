import Csos.Lib.Counter
import Csos.Queues

/-!
# Conservation of semaphore tokens

The law of `sem_wait` and `sem_notify` in every state that a run of the
system reaches: no token is lost or made, and no wake-up is lost. The
log looks at the kernel before and after each step: a `sem_wait` has
completed when its caller still runs, and a `sem_notify` has granted a
token to the task that it put at the end of the ready list.
-/

namespace Csos

open Lib

/-! ## The log -/

/-- What the calls on one semaphore have come to. -/
structure SemLog (T : Type) where
  /-- calls of `sem_wait` that completed or were granted -/
  completed : Nat
  /-- calls of `sem_notify` -/
  notifies : Nat
  /-- the callers that blocked, in order -/
  blocked : List T
  /-- the tasks that were granted a token, in order -/
  granted : List T

namespace SemLog

variable {T X S : Type}

def empty : SemLog T := ⟨0, 0, [], []⟩

variable [DecidableEq T] [DecidableEq S]

/-- The task at the end of the ready list, if it got there just now. -/
def woken (k k' : Kernel T X S) : Option T :=
  if k'.heap.tail .readyList = k.heap.tail .readyList then none
  else (taskOfRunningNode (k'.heap.tail .readyList)).join

/-- Log the step from `k` to `k'`. -/
def observe (s : S) (k : Kernel T X S) (a : Action X S) (k' : Kernel T X S)
    (log : SemLog T) : SemLog T :=
  match a with
  | .wait x =>
      if x ≠ s then log
      else if k'.vars.runningTask = k.vars.runningTask then
        { log with completed := log.completed + 1 }
      else { log with blocked := log.blocked ++ k.vars.runningTask.toList }
  | .notify x =>
      if x ≠ s then log
      else
        match woken k k' with
        | none => { log with notifies := log.notifies + 1 }
        | some t =>
            { log with
              notifies := log.notifies + 1
              completed := log.completed + 1
              granted := log.granted ++ [t] }
  | _ => log

end SemLog

/-! ## The invariant of one semaphore -/

/-- The counter, the waiters and the log agree. -/
structure SemInv {T : Type} (count : Nat) (counter : Int32) (ws : List T) (log : SemLog T) :
    Prop where
  conserved : counter.toInt + log.completed = count + log.notifies
  nonneg : 0 ≤ counter.toInt
  waiters : ws ≠ [] → counter = 0
  order : log.blocked = log.granted ++ ws

namespace SemInv

variable {T : Type} {count : Nat} {counter : Int32} {ws : List T} {log : SemLog T} {t : T}

/-- A `sem_wait` that finds a token. -/
theorem wait_takes (h : SemInv count counter ws log) (hpos : counter > 0) :
    SemInv count (counter - 1) ws { log with completed := log.completed + 1 } := by
  have hp : 0 < counter.toInt := Int32.lt_iff_toInt_lt.mp hpos
  have hs := toInt_sub_one hp
  refine ⟨?_, by omega, fun hw => ?_, h.order⟩
  · have := h.conserved
    simp only [hs]
    omega
  · rw [h.waiters hw] at hp
    exact absurd hp (by decide)

/-- A `sem_wait` that blocks. -/
theorem wait_blocks (h : SemInv count counter ws log) (hpos : ¬ counter > 0) :
    SemInv count counter (ws ++ [t]) { log with blocked := log.blocked ++ [t] } := by
  refine ⟨h.conserved, h.nonneg, fun _ => ?_, by simp [h.order]⟩
  have hp : ¬ 0 < counter.toInt := fun hp => hpos (Int32.lt_iff_toInt_lt.mpr hp)
  have hz := h.nonneg
  exact Int32.toInt_inj.mp (by rw [Int32.toInt_zero]; omega)

/-- A `sem_notify` with nobody waiting. -/
theorem notify_counts (h : SemInv count counter [] log) (hmax : counter ≠ Int32.maxValue) :
    SemInv count (counter + 1) ([] : List T) { log with notifies := log.notifies + 1 } := by
  have hn := h.nonneg
  have hs := toInt_add_one (toInt_lt_max hmax)
  refine ⟨?_, by omega, by simp, h.order⟩
  have := h.conserved
  simp only [hs]
  omega

/-- A `sem_notify` passes its token to the first waiter. -/
theorem notify_grants (h : SemInv count counter (t :: ws) log) :
    SemInv count counter ws
      { log with
        notifies := log.notifies + 1
        completed := log.completed + 1
        granted := log.granted ++ [t] } := by
  refine ⟨?_, h.nonneg, fun _ => h.waiters (by simp), by simp [h.order]⟩
  have := h.conserved
  simp only
  omega

end SemInv

/-! ## One step -/

section Step

variable {T X S : Type} [DecidableEq T] [DecidableEq X] [DecidableEq S] [IdleTask T]
  {k k' : Kernel T X S} {q : Queues T X S} {log : SemLog T} {s : S} {count : Nat}

/-- The invariant of the semaphore `s`, in the state `q`. -/
def Queues.SemInv (s : S) (count : Nat) (q : Queues T X S) (log : SemLog T) : Prop :=
  Csos.SemInv count (q.vars.counter s) (q.lists (.semWaitList s)) log

omit [DecidableEq T] [DecidableEq X] [DecidableEq S] [IdleTask T] in
theorem Queues.Keeps.semInv {q' : Queues T X S} (hk : q.Keeps q') (h : q.SemInv s count log) :
    q'.SemInv s count log := by
  have hl := hk.lists (.semWaitList s) nofun nofun
  rw [Queues.SemInv, hk.counter, hl]
  exact h

omit [DecidableEq X] [DecidableEq S] [IdleTask T] in
/-- `woken`, on the queues. -/
theorem woken_eq {q' : Queues T X S} (hm : k.Models q) (hm' : k'.Models q') :
    SemLog.woken k k' = if (q'.lists .readyList).getLast? = (q.lists .readyList).getLast? then none
      else (q'.lists .readyList).getLast? := by
  have hinj := Option.map_injective (@TaskList.node_injective T X S .readyList)
  simp only [SemLog.woken, hm.tail, hm'.tail, hinj.eq_iff]
  split
  · rfl
  · cases (q'.lists .readyList).getLast? <;> rfl

theorem wait_semInv (hm : k.Models q) (hi : q.Inv) (h : q.SemInv s count log)
    (hr : q.running ≠ idleTask) (x : S) (hm' : k'.Models (q.wait x)) :
    (q.wait x).SemInv s count (log.observe s k (.wait x) k') := by
  have hrun := hi.runningTask_eq
  by_cases hx : x = s
  · subst hx
    simp only [SemLog.observe, ne_eq, not_true_eq_false, if_false, hm.vars, hm'.vars]
    by_cases hc : q.vars.counter x > 0
    · simpa [Queues.wait, eq_true hc, TaskVars.setCounter, Queues.SemInv] using h.wait_takes hc
    · have hne : (TaskList.semWaitList x : TaskList X S) ≠ .readyList := nofun
      have hout := Queues.moveTo_dispatch_runningTask hi hr hne
      simp only [Queues.wait, eq_false hc, eq_false hout, reduceIte, Queues.SemInv]
      rw [hrun, Option.toList_some]
      rw [Queues.dispatch_keeps.counter, Queues.dispatch_lists, Queues.moveTo_vars,
        Queues.moveTo_lists_self]
      exact h.wait_blocks hc
  · have hne : (TaskList.semWaitList s : TaskList X S) ≠ .semWaitList x := by
      simpa using Ne.symm hx
    simp only [SemLog.observe, ne_eq, hx, not_false_eq_true, if_true, Queues.wait]
    split
    · simpa [Queues.SemInv, TaskVars.setCounter, Function.update_of_ne (Ne.symm hx)] using h
    · refine Queues.dispatch_keeps.semInv ?_
      rw [Queues.SemInv, Queues.moveTo_vars, Queues.moveTo_lists_of_ne hne nofun]
      exact h

theorem notify_semInv (hm : k.Models q) (hi : q.Inv) (h : q.SemInv s count log) (x : S)
    (hmax : x = s → q.vars.counter s ≠ Int32.maxValue) (hm' : k'.Models (q.notify x)) :
    (q.notify x).SemInv s count (log.observe s k (.notify x) k') := by
  by_cases hx : x = s
  case neg =>
    have hne : (TaskList.semWaitList s : TaskList X S) ≠ .semWaitList x := by
      simpa using Ne.symm hx
    simp only [SemLog.observe, ne_eq, hx, not_false_eq_true, if_true, Queues.notify]
    split
    · simpa [Queues.SemInv, TaskVars.setCounter, Function.update_of_ne (Ne.symm hx)] using h
    · refine Queues.dispatch_keeps.semInv (Queues.setReady_keeps.semInv ?_)
      rw [Queues.SemInv, Queues.setList_vars, Queues.setList_lists_of_ne hne]
      exact h
  subst hx
  simp only [SemLog.observe, ne_eq, not_true_eq_false, if_false, woken_eq hm hm']
  cases hl : q.lists (.semWaitList x) with
  | nil =>
      have hinv : Csos.SemInv count (q.vars.counter x) [] log := hl ▸ h
      simpa [Queues.notify, hl, Queues.SemInv, TaskVars.setCounter]
        using hinv.notify_counts (hmax rfl)
  | cons t ts =>
      have hinv : Csos.SemInv count (q.vars.counter x) (t :: ts) log := hl ▸ h
      have hmem : t ∈ q.lists (.semWaitList x) := by simp [hl]
      have hsem : (TaskList.semWaitList x : TaskList X S) ≠ .taskList := by simp
      have hsem' : (TaskList.semWaitList x : TaskList X S) ≠ .readyList := by simp
      have ht : t ≠ idleTask := fun he => hi.placed.idle _ hsem (he ▸ hmem)
      have hout := (hi.waiter hsem hsem' hmem).1
      have hready : (q.notify x).lists .readyList = q.lists .readyList ++ [t] := by
        simp only [Queues.notify, hl]
        rw [Queues.dispatch_lists, Queues.setReady, if_neg ht, Queues.setList_lists_self,
          Queues.setList_lists_of_ne hsem'.symm]
      have hlast : some t ≠ (q.lists .readyList).getLast? :=
        fun he => hout (List.mem_of_getLast? he.symm)
      have hwait : (q.notify x).lists (.semWaitList x) = ts := by
        simp only [Queues.notify, hl]
        rw [Queues.dispatch_lists, Queues.setReady_keeps.lists _ hsem' (by simp),
          Queues.setList_lists_self]
      have hcounter : (q.notify x).vars.counter = q.vars.counter := by
        simp only [Queues.notify, hl]
        rw [Queues.dispatch_keeps.counter, Queues.setReady_keeps.counter, Queues.setList_vars]
      simp only [hready, List.getLast?_concat, hlast, if_false, Queues.SemInv, hwait, hcounter]
      exact hinv.notify_grants

/-- The invariant of one semaphore over one step of the system,
whichever step it is. -/
theorem Queues.SemInv.step {a : Action X S} (hm : k.Models q) (hi : q.Inv)
    (h : q.SemInv s count log) (hr : a.IsCall → q.running ≠ idleTask)
    (hmax : a = .notify s → q.vars.counter s ≠ Int32.maxValue) (hm' : k'.Models (q.step a)) :
    (q.step a).SemInv s count (log.observe s k a k') := by
  cases a with
  | lock x =>
      simp only [SemLog.observe, Queues.step, Queues.lock]
      split
      · exact h
      · split
        · exact h
        · refine Queues.dispatch_keeps.semInv ?_
          have hne : (TaskList.semWaitList s : TaskList X S) ≠ .mutexWaitList x := nofun
          rw [Queues.SemInv, Queues.moveTo_vars, Queues.moveTo_lists_of_ne hne nofun]
          exact h
  | unlock x =>
      simp only [SemLog.observe, Queues.step, Queues.unlock]
      split
      · split
        · split
          · exact h
          · refine Queues.dispatch_keeps.semInv ?_
            have hne : (TaskList.semWaitList s : TaskList X S) ≠ .mutexWaitList x := nofun
            refine Queues.setReady_keeps.semInv ?_
            rw [Queues.SemInv, Queues.setList_vars, Queues.setList_lists_of_ne hne]
            exact h
        · exact h
      · exact h
  | wait x => exact wait_semInv hm hi h (hr rfl) x hm'
  | notify x => exact notify_semInv hm hi h x (fun hx => hmax (by rw [hx])) hm'
  | yield => exact Queues.yield_keeps.semInv h
  | sleep ms => exact (Queues.sleep_keeps ms).semInv h
  | tick => exact Queues.tick_keeps.semInv h

end Step

/-! ## Every run -/

section Law

variable {T X S : Type} [DecidableEq T] [DecidableEq X] [DecidableEq S] [IdleTask T]

/-- The law of the semaphore `s`, which started with `count` tokens, in
one state. -/
structure SemLaw (s : S) (count : Nat) (k : Kernel T X S) (log : SemLog T)
    (ready waiting : List T) : Prop where
  readyList : k.heap.Rep .readyList (ready.map .runningNode)
  waitList : k.heap.Rep (.semWaitList s) (waiting.map .waitNode)
  conserved : (k.vars.counter s).toInt + log.completed = count + log.notifies
  waiters : waiting ≠ [] → k.vars.counter s = 0
  stopped : ∀ t ∈ waiting, t ∉ ready ∧ k.vars.runningTask ≠ some t
  order : log.blocked = log.granted ++ waiting

omit [DecidableEq T] [DecidableEq X] [DecidableEq S] in
theorem semLaw_of_inv {k : Kernel T X S} {q : Queues T X S} {s : S} {count : Nat}
    {log : SemLog T} (hm : k.Models q) (hi : q.Inv) (h : q.SemInv s count log) :
    SemLaw s count k log (q.lists .readyList) (q.lists (.semWaitList s)) := by
  constructor
  case readyList => exact hm.holds.rep .readyList _ rfl
  case waitList => exact hm.holds.rep (.semWaitList s) _ rfl
  case conserved => rw [hm.vars]; exact h.conserved
  case waiters => rw [hm.vars]; exact h.waiters
  case stopped =>
    intro t ht
    rw [hm.vars]
    have hl : (TaskList.semWaitList s : TaskList X S) ≠ .taskList := nofun
    exact hi.waiter hl nofun ht
  case order => exact h.order

/-- A step of the system that is logged for the semaphore `s`. -/
def Kernel.stepSem (s : S) (st : Kernel T X S × SemLog T) (a : Action X S) :
    Option (Kernel T X S × SemLog T) :=
  (st.1.step a).map fun k => (k, st.2.observe s st.1 a k)

/-- The step does not take the counter of `s` out of the `int` range. -/
def Kernel.InRange (s : S) (k : Kernel T X S) (a : Action X S) : Prop :=
  a = .notify s → k.vars.counter s ≠ Int32.maxValue

instance (s : S) (k : Kernel T X S) (a : Action X S) : Decidable (k.InRange s a) :=
  inferInstanceAs (Decidable (_ → _))

variable [HasAddr (TaskNode T)]

/-- Conservation: from `sem_init` on, every run of the system comes back
and ends in a state that obeys the law, as long as the counter stays in
range. -/
theorem sem_conservation {k : Kernel T X S} {s : S} {count : UInt32}
    (hk : k.UpBut (.semWaitList s)) (hcount : count.toNat < 2 ^ 31) :
    ∃ k₀, semInit k s count = some k₀ ∧ ∀ as : List (Action X S),
      Always (Kernel.stepSem s) (fun st a => st.1.Calls a ∧ st.1.InRange s a)
        (k₀, SemLog.empty) as →
      ∃ k' log ready waiting, run (Kernel.stepSem s) (k₀, SemLog.empty) as = some (k', log)
        ∧ SemLaw s count.toNat k' log ready waiting := by
  obtain ⟨heap, q, he, hm, hi, hl⟩ := hk.listInit
  refine ⟨{ heap, vars := k.vars.setCounter s count.toInt32 }, ?_, ?_⟩
  · simp [semInit, he]
  intro as has
  let I : Kernel T X S × SemLog T → Prop := fun st =>
    ∃ q : Queues T X S, st.1.Models q ∧ q.Inv ∧ q.SemInv s count.toNat st.2
  have hstep : ∀ st a, I st → (st.1.Calls a ∧ st.1.InRange s a) →
      ∃ st', Kernel.stepSem s st a = some st' ∧ I st' := by
    rintro ⟨k₁, log⟩ a ⟨q₁, hm₁, hi₁, h₁⟩ ⟨hcall, hrange⟩
    have hr := hcall.running_ne hm₁ hi₁
    obtain ⟨k₂, h₂, hm₂, hi₂⟩ := Kernel.step_sim hm₁ hi₁ hr
    refine ⟨(k₂, log.observe s k₁ a k₂), by simp [Kernel.stepSem, h₂], _, hm₂, hi₂, ?_⟩
    refine h₁.step hm₁ hi₁ hr (fun ha => ?_) hm₂
    rw [← hm₁.vars]
    exact hrange ha
  have hstart : I ({ heap, vars := k.vars.setCounter s count.toInt32 }, SemLog.empty) := by
    have hv : k.vars = q.vars := hm.vars
    have hint : count.toInt32.toInt = count.toNat := by
      have hlt : 2 * count.toBitVec.toNat < 2 ^ 32 := by
        rw [UInt32.toNat_toBitVec]
        omega
      exact BitVec.toInt_eq_toNat_of_lt hlt
    refine ⟨{ q with vars := q.vars.setCounter s count.toInt32 },
      ⟨by rw [hv], hm.holds⟩, ⟨hi.placed, hi.running⟩, ?_⟩
    constructor <;> simp [TaskVars.setCounter, SemLog.empty, hl, hint]
  obtain ⟨⟨k', log⟩, hrun, q', hm', hi', h'⟩ := run_total_of_always hstep hstart has
  exact ⟨k', log, _, _, hrun, semLaw_of_inv hm' hi' h'⟩

end Law

/-- The only token goes to the first task; the second one blocks, and a
notify from an interrupt handler grants it the next. -/
theorem sem_conservation_grant :
    ∃ k₀ k' log ready waiting, semInit twoReady () 1 = some k₀
      ∧ run (Kernel.stepSem ()) (k₀, SemLog.empty)
          [.wait (), .yield, .wait (), .tick, .notify ()] = some (k', log)
      ∧ SemLaw () 1 k' log ready waiting ∧ log.granted = [.second] := by
  obtain ⟨k₀, hk₀, h⟩ := sem_conservation (twoReady_upBut nofun : twoReady.UpBut (.semWaitList ()))
    (by decide : (1 : UInt32).toNat < 2 ^ 31)
  have hk : k₀ = (semInit twoReady () 1).get (by decide) := by simp [hk₀]
  subst hk
  obtain ⟨k', log, ready, waiting, hrun, hlaw⟩ := h
    [.wait (), .yield, .wait (), .tick, .notify ()] (by decide)
  have hgranted : (run (Kernel.stepSem ()) ((semInit twoReady () 1).get (by decide),
      SemLog.empty) [.wait (), .yield, .wait (), .tick, .notify ()]).map
        (fun s => s.2.granted) = some [.second] := by decide
  rw [hrun] at hgranted
  exact ⟨_, k', log, ready, waiting, hk₀, hrun, hlaw, Option.some.inj hgranted⟩

end Csos
