import Csos.Queues

/-!
# Mutual exclusion

What `mutex_lock` and `mutex_unlock` are for, as a law about every state
that a run of the system reaches. The calls are counted in a log that
only looks at the kernel before and after each step: a call to
`mutex_lock` has returned when its caller still runs, and a change of
owner is a handoff. The law relates the lock, its wait list, the ready
list and the running task to this log.

`locker` counts nested calls in 32 bits and is not checked. A task that
nests the lock 2^32 times leaves it looking free, so the law is about
runs in which no task does (`NoWrap`).
-/

namespace Csos

open Lib

/-! ## The log -/

/-- What the calls on one mutex have come to. -/
structure MutexLog (T : Type) where
  /-- calls of `mutex_lock` that returned, handoffs included -/
  entered : T → Nat
  /-- calls of `mutex_unlock` by the owner -/
  left : T → Nat
  /-- the callers that blocked, in order -/
  blocked : List T
  /-- the tasks that ownership was handed to, in order -/
  granted : List T

namespace MutexLog

variable {T X S : Type}

def empty : MutexLog T := ⟨fun _ => 0, fun _ => 0, [], []⟩

variable [DecidableEq T] [DecidableEq X]

def enter (log : MutexLog T) (t : T) : MutexLog T :=
  { log with entered := Function.update log.entered t (log.entered t + 1) }

def leave (log : MutexLog T) (t : T) : MutexLog T :=
  { log with left := Function.update log.left t (log.left t + 1) }

/-- Log the step from `v` to `v'`. -/
def observe (m : X) (v : TaskVars T X S) (a : Action X S) (v' : TaskVars T X S)
    (log : MutexLog T) : MutexLog T :=
  match v.runningTask, a with
  | some t, .lock x =>
      if x ≠ m then log
      else if v'.runningTask = some t then log.enter t
      else { log with blocked := log.blocked ++ [t] }
  | some t, .unlock x =>
      if x ≠ m ∨ (v.mutex m).owner ≠ some t then log
      else
        match (v'.mutex m).owner with
        | none => log.leave t
        | some u =>
            if u = t then log.leave t
            else { (log.leave t).enter u with granted := log.granted ++ [u] }
  | _, _ => log

end MutexLog

/-! ## The invariant of one mutex -/

/-- The mutex, its waiters and the log agree. -/
structure MutexInv {T : Type} (mutex : MutexT T) (ws : List T) (log : MutexLog T) : Prop where
  locked : mutex.locker = 0 ↔ mutex.owner = none
  count : ∀ t, mutex.owner = some t → mutex.locker.toNat + log.left t = log.entered t
  outside : ∀ t, mutex.owner ≠ some t → log.entered t = log.left t
  owner_out : ∀ t, mutex.owner = some t → t ∉ ws
  free : mutex.owner = none → ws = []
  order : log.blocked = log.granted ++ ws

namespace MutexInv

variable {T : Type} [DecidableEq T] {mutex : MutexT T} {ws : List T} {log : MutexLog T} {t u : T}

omit [DecidableEq T] in
theorem init : MutexInv (T := T) { owner := none, locker := 0 } [] MutexLog.empty := by
  constructor <;> simp [MutexLog.empty]

/-- The first lock of a free mutex. -/
theorem lock_free (h : MutexInv mutex ws log) (h0 : mutex.locker = 0) :
    MutexInv { owner := some t, locker := mutex.locker + 1 } ws (log.enter t) := by
  have hn := h.locked.mp h0
  obtain rfl := h.free hn
  have hout := fun u => h.outside u (by simp [hn])
  refine ⟨by simp [h0], ?_, ?_, by simp, by simp, h.order⟩
  · rintro u ⟨⟩
    simp [MutexLog.enter, h0, hout]
    omega
  · intro u hu
    have hne : u ≠ t := fun he => hu (by rw [he])
    simp [MutexLog.enter, hne, hout]

/-- A nested lock. -/
theorem lock_nested (h : MutexInv mutex ws log) (ho : mutex.owner = some t)
    (hmax : mutex.locker ≠ 0xFFFFFFFF) :
    MutexInv { mutex with locker := mutex.locker + 1 } ws (log.enter t) := by
  have hlt : mutex.locker.toNat < 0xFFFFFFFF := by
    have := mutex.locker.toNat_lt
    have hne : mutex.locker.toNat ≠ 0xFFFFFFFF := fun he => hmax (UInt32.toNat_inj.mp he)
    omega
  have hs : (mutex.locker + 1).toNat = mutex.locker.toNat + 1 := by
    rw [UInt32.toNat_add, UInt32.toNat_one]
    omega
  refine ⟨?_, ?_, ?_, h.owner_out, h.free, h.order⟩
  · have hz : mutex.locker + 1 ≠ 0 := fun he => by simp [he] at hs
    simp [hz, ho]
  · intro u hu
    obtain rfl : t = u := Option.some.inj (ho.symm.trans hu)
    have := h.count t ho
    simp only [MutexLog.enter, Function.update_self, hs]
    omega
  · intro u hu
    have hne : u ≠ t := fun he => hu (by rw [he]; exact ho)
    simpa [MutexLog.enter, hne] using h.outside u hu

omit [DecidableEq T] in
/-- A lock that blocks. -/
theorem lock_blocks (h : MutexInv mutex ws log) (h0 : mutex.locker ≠ 0)
    (ho : mutex.owner ≠ some t) :
    MutexInv mutex (ws ++ [t]) { log with blocked := log.blocked ++ [t] } := by
  refine ⟨h.locked, h.count, h.outside, ?_, ?_, by simp [h.order]⟩
  · intro u hu hmem
    rcases List.mem_append.mp hmem with hmem | hmem
    · exact h.owner_out u hu hmem
    · obtain rfl := List.mem_singleton.mp hmem
      exact ho hu
  · exact fun hn => absurd (h.locked.mpr hn) h0

omit [DecidableEq T] in
theorem locker_pos (h : MutexInv mutex ws log) (ho : mutex.owner = some t) :
    (mutex.locker - 1).toNat + 1 = mutex.locker.toNat := by
  have hz : mutex.locker ≠ 0 := fun h0 => by simp [h.locked.mp h0] at ho
  have hpos : 1 ≤ mutex.locker.toNat := by
    have : mutex.locker.toNat ≠ 0 := fun he => hz (UInt32.toNat_inj.mp he)
    omega
  have hle : (1 : UInt32) ≤ mutex.locker := UInt32.le_iff_toNat_le.mpr hpos
  rw [UInt32.toNat_sub_of_le _ _ hle, UInt32.toNat_one]
  omega

/-- An unlock that leaves the owner inside. -/
theorem unlock_nested (h : MutexInv mutex ws log) (ho : mutex.owner = some t)
    (h0 : mutex.locker - 1 ≠ 0) :
    MutexInv { mutex with locker := mutex.locker - 1 } ws (log.leave t) := by
  have hs := h.locker_pos ho
  refine ⟨by simp [h0, ho], ?_, ?_, h.owner_out, h.free, h.order⟩
  · intro u hu
    obtain rfl : t = u := Option.some.inj (ho.symm.trans hu)
    have := h.count t ho
    simp only [MutexLog.leave, Function.update_self]
    omega
  · intro u hu
    have hne : u ≠ t := fun he => hu (by rw [he]; exact ho)
    simpa [MutexLog.leave, hne] using h.outside u hu

/-- After the last unlock nobody is inside. -/
theorem left_all (h : MutexInv mutex ws log) (ho : mutex.owner = some t)
    (h0 : mutex.locker - 1 = 0) (u : T) :
    (log.leave t).entered u = (log.leave t).left u := by
  have hs := h.locker_pos ho
  by_cases hne : u = t
  · subst hne
    have := h.count u ho
    simp only [MutexLog.leave, Function.update_self]
    rw [h0] at hs
    simp at hs
    omega
  · have := h.outside u (fun hu => hne (Option.some.inj (hu.symm.trans ho)))
    simpa [MutexLog.leave, hne] using this

/-- The last unlock with nobody waiting. -/
theorem unlock_free (h : MutexInv mutex [] log) (ho : mutex.owner = some t)
    (h0 : mutex.locker - 1 = 0) :
    MutexInv { owner := none, locker := mutex.locker - 1 } [] (log.leave t) :=
  ⟨by simp [h0], by simp, fun u _ => h.left_all ho h0 u, by simp, by simp, h.order⟩

/-- The last unlock hands the mutex to the first waiter. -/
theorem unlock_handoff (h : MutexInv mutex (u :: ws) log) (ho : mutex.owner = some t)
    (h0 : mutex.locker - 1 = 0) (hnd : (u :: ws).Nodup) :
    MutexInv { owner := some u, locker := mutex.locker - 1 + 1 } ws
      { (log.leave t).enter u with granted := log.granted ++ [u] } := by
  have hall := h.left_all ho h0
  refine ⟨by simp [h0], ?_, ?_, ?_, by simp, ?_⟩
  · rintro v ⟨⟩
    have := hall u
    simp [MutexLog.enter, h0, this]
    omega
  · intro v hv
    have hne : v ≠ u := fun he => hv (by rw [he])
    simpa [MutexLog.enter, hne] using hall v
  · rintro v ⟨⟩
    exact (List.nodup_cons.mp hnd).1
  · simpa [MutexLog.leave, MutexLog.enter] using h.order

end MutexInv

/-! ## One step -/

section Step

variable {T X S : Type} [DecidableEq T] [DecidableEq X] [DecidableEq S] [IdleTask T]
  {q : Queues T X S} {log : MutexLog T} {m : X}

/-- The invariant of the mutex `m`, in the state `q`. -/
def Queues.MutexInv (m : X) (q : Queues T X S) (log : MutexLog T) : Prop :=
  Csos.MutexInv (q.vars.mutex m) (q.lists (.mutexWaitList m)) log

omit [DecidableEq T] [DecidableEq X] [DecidableEq S] [IdleTask T] in
theorem Queues.Keeps.mutexInv {q' : Queues T X S} (hk : q.Keeps q') (h : q.MutexInv m log) :
    q'.MutexInv m log := by
  have hl := hk.lists (.mutexWaitList m) nofun nofun
  rw [Queues.MutexInv, hk.mutex, hl]
  exact h

theorem lock_mutexInv (hi : q.Inv) (h : q.MutexInv m log) (hr : q.running ≠ idleTask)
    (x : X)
    (hmax : x = m → (q.vars.mutex m).owner = q.vars.runningTask →
      (q.vars.mutex m).locker ≠ 0xFFFFFFFF) :
    (q.lock x).MutexInv m (log.observe m q.vars (.lock x) (q.lock x).vars) := by
  have hrun := hi.runningTask_eq
  by_cases hx : x = m
  · subst hx
    simp only [MutexLog.observe, hrun, ne_eq, not_true_eq_false, if_false, Queues.lock]
    by_cases h0 : (q.vars.mutex x).locker = 0
    · simpa [eq_true h0, TaskVars.setMutex, Queues.MutexInv, hrun] using h.lock_free h0
    · by_cases ho : (q.vars.mutex x).owner = some q.running
      · have := h.lock_nested ho (hmax rfl (ho.trans hrun.symm))
        simpa [eq_false h0, ho, TaskVars.setMutex, Queues.MutexInv, hrun] using this
      · have hne : (TaskList.mutexWaitList x : TaskList X S) ≠ .readyList := nofun
        have hout := Queues.moveTo_dispatch_runningTask hi hr hne
        rw [hrun] at hout
        have := h.lock_blocks h0 ho
        simp only [eq_false h0, eq_false ho, eq_false hout, reduceIte, Queues.MutexInv]
        rw [Queues.dispatch_keeps.mutex, Queues.dispatch_lists, Queues.moveTo_vars,
          Queues.moveTo_lists_self]
        exact this
  · have hlog : log.observe m q.vars (.lock x) (q.lock x).vars = log := by
      simp [MutexLog.observe, hrun, hx]
    have hne : (TaskList.mutexWaitList m : TaskList X S) ≠ .mutexWaitList x := by
      simpa using Ne.symm hx
    rw [hlog]
    simp only [Queues.lock]
    split
    · simpa [Queues.MutexInv, TaskVars.setMutex, Function.update_of_ne (Ne.symm hx)] using h
    · split
      · simpa [Queues.MutexInv, TaskVars.setMutex, Function.update_of_ne (Ne.symm hx)] using h
      · refine Queues.dispatch_keeps.mutexInv ?_
        rw [Queues.MutexInv, Queues.moveTo_vars, Queues.moveTo_lists_of_ne hne nofun]
        exact h

/-- What an unlock of `m` by its owner does to `m`. -/
theorem unlock_self (ho : (q.vars.mutex m).owner = q.vars.runningTask)
    (h0 : (q.vars.mutex m).locker - 1 = 0) {u : T} {us : List T}
    (hl : q.lists (.mutexWaitList m) = u :: us) :
    (q.unlock m).vars.mutex m = { owner := some u, locker := (q.vars.mutex m).locker - 1 + 1 }
      ∧ (q.unlock m).lists (.mutexWaitList m) = us := by
  have hwait : (TaskList.mutexWaitList m : TaskList X S) ≠ .readyList := nofun
  simp only [Queues.unlock, eq_true ho, eq_true h0, reduceIte, hl]
  rw [Queues.dispatch_keeps.mutex, Queues.dispatch_lists,
    Queues.setReady_keeps.lists _ hwait nofun]
  simp [TaskVars.setMutex]

/-- An unlock of another mutex. -/
theorem unlock_other {x : X} (hx : x ≠ m) (h : q.MutexInv m log) :
    (q.unlock x).MutexInv m log := by
  have hne : (TaskList.mutexWaitList m : TaskList X S) ≠ .mutexWaitList x := by
    simpa using Ne.symm hx
  have hvars : ∀ (v : TaskVars T X S) mutex, (v.setMutex x mutex).mutex m = v.mutex m :=
    fun v mutex => Function.update_of_ne (Ne.symm hx) ..
  have hset : ∀ mutex us, Queues.MutexInv m
      ({ q with vars := q.vars.setMutex x mutex }.setList (.mutexWaitList x) us) log := by
    intro mutex us
    rw [Queues.MutexInv, Queues.setList_vars, hvars, Queues.setList_lists_of_ne hne]
    exact h
  simp only [Queues.unlock]
  split
  · split
    · split
      · rwa [Queues.MutexInv, hvars]
      · refine Queues.dispatch_keeps.mutexInv ?_
        rw [Queues.MutexInv, hvars]
        exact Queues.setReady_keeps.mutexInv (hset _ _)
    · rwa [Queues.MutexInv, hvars]
  · exact h

theorem unlock_mutexInv (hi : q.Inv) (h : q.MutexInv m log) (x : X) :
    (q.unlock x).MutexInv m (log.observe m q.vars (.unlock x) (q.unlock x).vars) := by
  have hrun := hi.runningTask_eq
  by_cases hx : x = m
  case neg =>
    simp only [MutexLog.observe, hrun, hx, ne_eq, not_false_eq_true, true_or, if_true]
    exact unlock_other hx h
  subst hx
  by_cases ho : (q.vars.mutex x).owner = some q.running
  case neg =>
    simpa [MutexLog.observe, hrun, ho, Queues.unlock] using h
  have ho' := ho.trans hrun.symm
  simp only [MutexLog.observe, hrun, ho, ne_eq, not_true_eq_false, or_self, if_false]
  by_cases h0 : (q.vars.mutex x).locker - 1 = 0
  · cases hl : q.lists (.mutexWaitList x) with
    | nil =>
        have hfree : Csos.MutexInv (q.vars.mutex x) [] log := hl ▸ h
        simpa [Queues.unlock, hl, h0, ho, hrun, TaskVars.setMutex, Queues.MutexInv]
          using hfree.unlock_free ho h0
    | cons u us =>
        have hnd := hi.placed.nodup (.mutexWaitList x)
        rw [hl] at hnd
        have hinv : Csos.MutexInv (q.vars.mutex x) (u :: us) log := hl ▸ h
        have hu : u ≠ q.running := fun he => hinv.owner_out _ ho (by simp [he])
        obtain ⟨hmutex, hlist⟩ := unlock_self ho' h0 hl
        simp only [Queues.MutexInv, hmutex, hlist, hu, if_false]
        exact hinv.unlock_handoff ho h0 hnd
  · have := h.unlock_nested ho h0
    simpa [Queues.unlock, h0, ho, hrun, TaskVars.setMutex, Queues.MutexInv] using this

/-- The invariant of one mutex over one step of the system, whichever
step it is. -/
theorem Queues.MutexInv.step {a : Action X S} (hi : q.Inv) (h : q.MutexInv m log)
    (hr : a.IsCall → q.running ≠ idleTask)
    (hmax : a = .lock m → (q.vars.mutex m).owner = q.vars.runningTask →
      (q.vars.mutex m).locker ≠ 0xFFFFFFFF) :
    (q.step a).MutexInv m (log.observe m q.vars a (q.step a).vars) := by
  have hrun := hi.runningTask_eq
  cases a with
  | lock x => exact lock_mutexInv hi h (hr rfl) x fun hx => hmax (by rw [hx])
  | unlock x => exact unlock_mutexInv hi h x
  | wait s =>
      simp only [MutexLog.observe, hrun, Queues.step, Queues.wait]
      split
      · exact h
      · refine Queues.dispatch_keeps.mutexInv ?_
        have hne : (TaskList.mutexWaitList m : TaskList X S) ≠ .semWaitList s := nofun
        rw [Queues.MutexInv, Queues.moveTo_vars, Queues.moveTo_lists_of_ne hne nofun]
        exact h
  | notify s =>
      simp only [MutexLog.observe, hrun, Queues.step, Queues.notify]
      split
      · exact h
      · refine Queues.dispatch_keeps.mutexInv (Queues.setReady_keeps.mutexInv ?_)
        have hne : (TaskList.mutexWaitList m : TaskList X S) ≠ .semWaitList s := nofun
        rw [Queues.MutexInv, Queues.setList_vars, Queues.setList_lists_of_ne hne]
        exact h
  | yield =>
      simp only [MutexLog.observe, hrun]
      exact Queues.yield_keeps.mutexInv h
  | sleep ms =>
      simp only [MutexLog.observe, hrun]
      exact (Queues.sleep_keeps ms).mutexInv h
  | tick =>
      simp only [MutexLog.observe, hrun]
      exact Queues.tick_keeps.mutexInv h

end Step

/-! ## Every run -/

section Law

variable {T X S : Type} [DecidableEq T] [DecidableEq X] [DecidableEq S] [IdleTask T]

/-- The law of mutual exclusion, for the mutex `m` in one state. -/
structure MutexLaw (m : X) (k : Kernel T X S) (log : MutexLog T) (ready waiting : List T) :
    Prop where
  readyList : k.heap.Rep .readyList (ready.map .runningNode)
  waitList : k.heap.Rep (.mutexWaitList m) (waiting.map .waitNode)
  locked : 0 < (k.vars.mutex m).locker ↔ (k.vars.mutex m).owner ≠ none
  count : ∀ t, (k.vars.mutex m).owner = some t →
    ((k.vars.mutex m).locker.toNat : Int) = log.entered t - log.left t
  exclusive : ∀ t, (k.vars.mutex m).owner ≠ some t → log.entered t = log.left t
  owner_out : ∀ t, (k.vars.mutex m).owner = some t → t ∉ waiting
  nodup : waiting.Nodup
  free : (k.vars.mutex m).owner = none → waiting = []
  stopped : ∀ t ∈ waiting, t ∉ ready ∧ k.vars.runningTask ≠ some t
  stranger : (k.vars.mutex m).owner ≠ k.vars.runningTask → mutexUnlock k m = some k
  order : log.blocked = log.granted ++ waiting

theorem mutexUnlock_stranger {k : Kernel T X S} {m : X}
    (ho : (k.vars.mutex m).owner ≠ k.vars.runningTask) : mutexUnlock k m = some k := by
  simp only [mutexUnlock, eq_false ho, reduceIte]
  rfl

theorem mutexLaw_of_inv {k : Kernel T X S} {q : Queues T X S} {m : X} {log : MutexLog T}
    (hm : k.Models q) (hi : q.Inv) (h : q.MutexInv m log) :
    MutexLaw m k log (q.lists .readyList) (q.lists (.mutexWaitList m)) := by
  constructor
  case readyList => exact hm.holds.rep .readyList _ rfl
  case waitList => exact hm.holds.rep (.mutexWaitList m) _ rfl
  case locked => rw [hm.vars, Ne, ← h.locked, UInt32.pos_iff_ne_zero]
  case count =>
    intro t ho
    rw [hm.vars] at ho ⊢
    have := h.count t ho
    omega
  case exclusive => rw [hm.vars]; exact h.outside
  case owner_out => rw [hm.vars]; exact h.owner_out
  case nodup => exact hi.placed.nodup _
  case free => rw [hm.vars]; exact h.free
  case stopped =>
    intro t ht
    rw [hm.vars]
    have hl : (TaskList.mutexWaitList m : TaskList X S) ≠ .taskList := nofun
    exact hi.waiter hl nofun ht
  case stranger => exact mutexUnlock_stranger
  case order => exact h.order

/-- A step of the system that is logged for the mutex `m`. -/
def Kernel.stepMutex (m : X) (s : Kernel T X S × MutexLog T) (a : Action X S) :
    Option (Kernel T X S × MutexLog T) :=
  (s.1.step a).map fun k => (k, s.2.observe m s.1.vars a k.vars)

/-- The step does not nest `m` for the 2^32nd time. -/
def Kernel.NoWrap (m : X) (k : Kernel T X S) (a : Action X S) : Prop :=
  a = .lock m → (k.vars.mutex m).owner = k.vars.runningTask →
    (k.vars.mutex m).locker ≠ 0xFFFFFFFF

instance (m : X) (k : Kernel T X S) (a : Action X S) : Decidable (k.NoWrap m a) :=
  inferInstanceAs (Decidable (_ → _ → _))

variable [HasAddr (TaskNode T)]

/-- Mutual exclusion: from `mutex_init` on, every run of the system comes
back and ends in a state that obeys the law, as long as no task nests
the lock 2^32 times. -/
theorem mutex_exclusion {k : Kernel T X S} {m : X} (hk : k.UpBut (.mutexWaitList m)) :
    ∃ k₀, mutexInit k m = some k₀ ∧ ∀ as : List (Action X S),
      Always (Kernel.stepMutex m) (fun s a => s.1.Calls a ∧ s.1.NoWrap m a)
        (k₀, MutexLog.empty) as →
      ∃ k' log ready waiting,
        run (Kernel.stepMutex m) (k₀, MutexLog.empty) as = some (k', log)
          ∧ MutexLaw m k' log ready waiting := by
  obtain ⟨heap, q, he, hm, hi, hl⟩ := hk.listInit
  refine ⟨{ heap, vars := k.vars.setMutex m { owner := none, locker := 0 } }, ?_, ?_⟩
  · simp [mutexInit, he]
  intro as has
  let I : Kernel T X S × MutexLog T → Prop := fun s =>
    ∃ q : Queues T X S, s.1.Models q ∧ q.Inv ∧ q.MutexInv m s.2
  have hstep : ∀ s a, I s → (s.1.Calls a ∧ s.1.NoWrap m a) →
      ∃ s', Kernel.stepMutex m s a = some s' ∧ I s' := by
    rintro ⟨k₁, log⟩ a ⟨q₁, hm₁, hi₁, h₁⟩ ⟨hcall, hwrap⟩
    have hr := hcall.running_ne hm₁ hi₁
    obtain ⟨k₂, h₂, hm₂, hi₂⟩ := Kernel.step_sim hm₁ hi₁ hr
    refine ⟨(k₂, log.observe m k₁.vars a k₂.vars), by simp [Kernel.stepMutex, h₂],
      _, hm₂, hi₂, ?_⟩
    rw [hm₁.vars, hm₂.vars]
    refine h₁.step hi₁ hr fun ha ho => ?_
    rw [← hm₁.vars] at ho ⊢
    exact hwrap ha ho
  have hstart : I ({ heap, vars := k.vars.setMutex m { owner := none, locker := 0 } },
      MutexLog.empty) := by
    have hv : k.vars = q.vars := hm.vars
    refine ⟨{ q with vars := q.vars.setMutex m { owner := none, locker := 0 } },
      ⟨by rw [hv], hm.holds⟩, ⟨hi.placed, hi.running⟩, ?_⟩
    simpa [Queues.MutexInv, TaskVars.setMutex, hl] using MutexInv.init
  obtain ⟨⟨k', log⟩, hrun, q', hm', hi', h'⟩ := run_total_of_always hstep hstart has
  exact ⟨k', log, _, _, hrun, mutexLaw_of_inv hm' hi' h'⟩

end Law

/-- The first task holds the mutex while the second one asks for it, and
hands it over. -/
theorem mutex_exclusion_handoff :
    ∃ k₀ k' log ready waiting, mutexInit twoReady () = some k₀
      ∧ run (Kernel.stepMutex ()) (k₀, MutexLog.empty)
          [.lock (), .yield, .lock (), .unlock (), .yield, .unlock ()] = some (k', log)
      ∧ MutexLaw () k' log ready waiting ∧ log.granted = [.second] := by
  obtain ⟨k₀, hk₀, h⟩ := mutex_exclusion (twoReady_upBut nofun : twoReady.UpBut (.mutexWaitList ()))
  have hk : k₀ = (mutexInit twoReady ()).get (by decide) := by simp [hk₀]
  subst hk
  obtain ⟨k', log, ready, waiting, hrun, hlaw⟩ := h
    [.lock (), .yield, .lock (), .unlock (), .yield, .unlock ()] (by decide)
  have hgranted : (run (Kernel.stepMutex ()) ((mutexInit twoReady ()).get (by decide),
      MutexLog.empty) [.lock (), .yield, .lock (), .unlock (), .yield, .unlock ()]).map
        (fun s => s.2.granted) = some [.second] := by decide
  rw [hrun] at hgranted
  exact ⟨_, k', log, ready, waiting, hk₀, hrun, hlaw, Option.some.inj hgranted⟩

section Wrap

variable {T X S : Type} [DecidableEq T] [DecidableEq X] [DecidableEq S] [IdleTask T]

/-- The running task has nested the mutex `m` in `n` calls. -/
structure Nested (m : X) (t : T) (n : Nat) (s : Kernel T X S × MutexLog T) : Prop where
  running : s.1.vars.runningTask = some t
  locker : (s.1.vars.mutex m).locker = UInt32.ofNat n
  owner : n ≠ 0 → (s.1.vars.mutex m).owner = some t

theorem Nested.lock {m : X} {t : T} {n : Nat} {s : Kernel T X S × MutexLog T}
    (h : Nested m t n s) :
    ∃ s', Kernel.stepMutex m s (.lock m) = some s' ∧ Nested m t (n + 1) s' := by
  let mutexT : MutexT T := { owner := some t, locker := UInt32.ofNat n + 1 }
  have hlock : mutexLock s.1 m = some { s.1 with vars := s.1.vars.setMutex m mutexT } := by
    simp only [mutexLock, h.running, h.locker]
    split
    · rfl
    case isFalse h0 =>
      have hn : n ≠ 0 := by
        rintro rfl
        exact h0 rfl
      simp only [h.owner hn, reduceIte]
      rfl
  refine ⟨_, by simp only [Kernel.stepMutex, Kernel.step, hlock, Option.map_some]; rfl,
    ?_, ?_, ?_⟩
  · exact h.running
  · simp [TaskVars.setMutex, mutexT, UInt32.ofNat_add]
  · simp [TaskVars.setMutex, mutexT]

theorem Nested.locks {m : X} {t : T} (ht : t ≠ idleTask) {n : Nat}
    {s : Kernel T X S × MutexLog T} (h : Nested m t n s) (j : Nat) :
    Always (Kernel.stepMutex m) (fun s a => s.1.Calls a) s (List.replicate j (.lock m))
      ∧ ∃ s', run (Kernel.stepMutex m) s (List.replicate j (.lock m)) = some s'
        ∧ Nested m t (n + j) s' := by
  induction j generalizing n s with
  | zero => exact ⟨trivial, s, rfl, h⟩
  | succ j ih =>
      obtain ⟨s₁, h₁, hn₁⟩ := h.lock
      obtain ⟨ha, s', h', hn'⟩ := ih hn₁
      rw [List.replicate_succ]
      refine ⟨⟨?_, ?_⟩, s', by rw [run_cons, h₁, Option.bind_some, h'], ?_⟩
      · intro _ hidle
        exact ht (Option.some.inj (h.running.symm.trans hidle))
      · intro s₂ h₂
        obtain rfl := Option.some.inj (h₁.symm.trans h₂)
        exact ha
      · rwa [Nat.add_right_comm] at hn'

end Wrap

/-- The law does not survive 2^32 nested calls: `locker` is 0 again while
the caller is still the owner. -/
theorem mutex_exclusion_wraps :
    ¬ ∃ k₀, mutexInit twoReady () = some k₀ ∧ ∀ as : List (Action Unit Unit),
      Always (Kernel.stepMutex ()) (fun s a => s.1.Calls a) (k₀, MutexLog.empty) as →
      ∃ k' log ready waiting,
        run (Kernel.stepMutex ()) (k₀, MutexLog.empty) as = some (k', log)
          ∧ MutexLaw () k' log ready waiting := by
  rintro ⟨k₀, hk₀, h⟩
  have hk : k₀ = (mutexInit twoReady ()).get (by decide) := by simp [hk₀]
  subst hk
  have hstart : Nested () ThreeTasks.first 0
      ((mutexInit twoReady ()).get (by decide), MutexLog.empty) :=
    ⟨by decide, by decide, by simp⟩
  obtain ⟨j, hj⟩ : ∃ j, j = 2 ^ 32 := ⟨_, rfl⟩
  obtain ⟨halways, s', hrun', hnested⟩ := hstart.locks (by decide) j
  obtain ⟨k', log, ready, waiting, hrun, hlaw⟩ := h _ halways
  obtain rfl := Option.some.inj (hrun'.symm.trans hrun)
  have howner := hnested.owner (by omega)
  have hlocker : (k'.vars.mutex ()).locker = 0 := by
    rw [hnested.locker, hj]
    decide
  have hpos := hlaw.locked.mpr fun hn => nomatch hn.symm.trans howner
  rw [hlocker] at hpos
  exact absurd hpos (by decide)

end Csos
