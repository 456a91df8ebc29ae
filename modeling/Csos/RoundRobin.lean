import Csos.Timer
import Csos.Lib.Run
import Mathlib.Data.List.Rotate
import Mathlib.Data.Nat.Periodic

/-!
# Round robin

With no task asleep and nothing but the timer, the ready list is a wheel:
every slice of ticks turns it by one task, and the task at the front runs.
`Robin` says how the wheel stands after a number of ticks. Over a whole turn
each task runs for one slice, which is a count over a periodic function.
-/

namespace Csos

open Lib

section RoundRobin

variable {T X S : Type} [DecidableEq T] [IdleTask T] {k : Kernel T X S} {q : Queues T X S}
  {t : T} {ts rs : List T} {slice : UInt32} {n : Nat}

/-- The tasks `rs` are ready, with a whole slice each; the first one runs
and none is asleep. -/
structure RobinStart (q : Queues T X S) (rs : List T) (slice : UInt32) : Prop where
  ready : q.lists .readyList = rs
  ne_nil : rs ≠ []
  nodup : rs.Nodup
  idle : idleTask ∉ rs
  running : q.vars.runningTask = rs.head?
  awake : q.lists .sleepList = []
  slices : ∀ r ∈ rs, (q.vars.task r).ticks = slice ∧ (q.vars.task r).slices = slice
  pos : 0 < slice.toNat

/-- How the wheel stands after `n` ticks: the task at the front has used up
a part of its slice, the others have a whole one. -/
structure Robin (q : Queues T X S) (rs : List T) (slice : UInt32) (n : Nat) : Prop where
  ready : q.lists .readyList = rs.rotate (n / slice.toNat)
  running : q.vars.runningTask = (rs.rotate (n / slice.toNat)).head?
  awake : q.lists .sleepList = []
  slices : ∀ r ∈ rs, (q.vars.task r).slices = slice
  ticks : ∀ r ∈ rs, (q.vars.task r).ticks.toNat
    = if some r = (rs.rotate (n / slice.toNat)).head? then slice.toNat - n % slice.toNat
      else slice.toNat

theorem RobinStart.robin (h : RobinStart q rs slice) : Robin q rs slice 0 := by
  have hzero : rs.rotate (0 / slice.toNat) = rs := by
    rw [Nat.zero_div, List.rotate_zero]
  refine ⟨h.ready.trans hzero.symm, ?_, h.awake, fun r hr => (h.slices r hr).2, fun r hr => ?_⟩
  · rw [hzero]
    exact h.running
  · rw [(h.slices r hr).1, Nat.zero_mod, Nat.sub_zero, ite_self]

/-! ## One tick -/

variable [DecidableEq X] [DecidableEq S]

/-- A tick while nobody sleeps. -/
theorem tssTaskTs_awake [HasAddr (TaskNode T)] (hm : k.Models q)
    (hready : q.lists .readyList = t :: ts) (hrun : q.vars.runningTask = some t)
    (hidle : t ≠ idleTask) (ht : t ∉ ts) (hawake : q.lists .sleepList = []) :
    ∃ k', tssTaskTs k = some k' ∧ k'.Models q.tick := by
  have hrunning : q.running = t := by
    rw [Queues.running, hrun, Option.getD_some]
  have hloop : ∀ n, tssTaskTsLoop n k none = some k := by
    intro n
    cases n <;> rfl
  unfold tssTaskTs Queues.tick
  simp only [listGetFirst, Heap.mem_head, hm.head, hawake, List.head?_nil, Option.map_none,
    Option.bind_eq_bind, Option.bind_some, hloop, hm.vars, hrun, Queues.wake, hrunning]
  by_cases hticks : (q.vars.task t).ticks - 1 = 0
  · simp only [eq_true hticks, reduceIte]
    let vars := q.vars.setTask t { q.vars.task t with ticks := (q.vars.task t).slices }
    have hm₁ : Kernel.Models { k with vars } { q with vars } := hm.withVars
    have hrunning₁ : Queues.running { q with vars } = t := hrunning
    have hmem : t ∈ (Queues.lists { q with vars } .readyList) := by
      rw [hready]
      exact List.mem_cons_self
    obtain ⟨k₂, h₂, hm₂⟩ := tssTaskSetBlock_sim hm₁ fun _ => hmem
    -- the task has left the only list that its node was on
    have hfree : ∀ l : TaskList X S, l.node t = TaskNode.runningNode t →
        t ∉ (Queues.setBlock { q with vars } t).lists l := by
      intro l hl
      rw [Queues.setBlock, if_neg hidle]
      cases l with
      | readyList =>
          rw [Queues.setList_lists_self, hready, List.erase_cons_head]
          exact ht
      | sleepList =>
          have hne : (TaskList.sleepList : TaskList X S) ≠ .readyList := by simp
          rw [Queues.setList_lists_of_ne hne, hawake]
          exact List.not_mem_nil
      | taskList | mutexWaitList _ | semWaitList _ => cases hl
    obtain ⟨k₃, h₃, hm₃⟩ := tssTaskSetReady_sim_of_free hm₂ fun _ => hfree
    obtain ⟨k', h', hm'⟩ := tssTaskDispatch_sim hm₃
    refine ⟨k', ?_, ?_⟩
    · change (tssTaskSetBlock { k with vars } t).bind (fun k =>
        (tssTaskSetReady k t).bind tssTaskDispatch) = some k'
      rw [h₂, Option.bind_some, h₃, Option.bind_some, h']
    · rw [Queues.requeue, hrunning₁]
      exact hm'
  · simp only [eq_false hticks, reduceIte]
    exact ⟨_, rfl, hm.withVars⟩

/-! ### The wheel -/

/-- A task that goes to the back of the ready list changes its state only. -/
theorem requeue_task (u : T) : ∃ state, q.requeue.vars.task u = { q.vars.task u with state } := by
  have hready : ∃ state, ((q.setBlock q.running).setReady q.running).vars.task u
      = { q.vars.task u with state } := by
    unfold Queues.setReady Queues.setBlock
    by_cases hi : q.running = idleTask
    · simp only [if_pos hi]
      exact ⟨_, rfl⟩
    · simp only [if_neg hi, Queues.setList_vars, TaskVars.setTask]
      by_cases hu : u = q.running
      · rw [hu, Function.update_self]
        exact ⟨_, rfl⟩
      · rw [Function.update_of_ne hu]
        exact ⟨_, rfl⟩
  obtain ⟨state, hstate⟩ := hready
  unfold Queues.requeue Queues.dispatch
  dsimp only
  split
  · exact ⟨state, hstate⟩
  · by_cases hu : u = ((Queues.lists ((q.setBlock q.running).setReady q.running)
        .readyList).head?.getD idleTask)
    · simp only [TaskVars.setTask, ← hu, Function.update_self, hstate]
      exact ⟨_, rfl⟩
    · simp only [TaskVars.setTask, Function.update_of_ne hu, hstate]
      exact ⟨_, rfl⟩

omit [DecidableEq X] [DecidableEq S] in
/-- The task at the front is the one that runs. -/
theorem Robin.front (h : Robin q rs slice n) (hrs : rs ≠ []) :
    ∃ t ts, rs.rotate (n / slice.toNat) = t :: ts ∧ t ∈ rs ∧ q.vars.runningTask = some t
      ∧ q.running = t := by
  have hne : rs.rotate (n / slice.toNat) ≠ [] := by
    rwa [Ne, List.rotate_eq_nil_iff]
  obtain ⟨t, ts, hrot⟩ := List.exists_cons_of_ne_nil hne
  have hrun := h.running
  rw [hrot, List.head?_cons] at hrun
  refine ⟨t, ts, hrot, ?_, hrun, by rw [Queues.running, hrun, Option.getD_some]⟩
  rw [← List.mem_rotate (n := n / slice.toNat), hrot]
  exact List.mem_cons_self

/-- The slice goes on. -/
theorem Robin.tick_within (h : Robin q rs slice n) (hrs : rs ≠ [])
    (hwithin : n % slice.toNat + 1 < slice.toNat) : Robin q.tick rs slice (n + 1) := by
  obtain ⟨t, ts, hrot, ht, hrun, hrunning⟩ := h.front hrs
  obtain ⟨hdiv, hmod⟩ : (n + 1) / slice.toNat = n / slice.toNat
      ∧ (n + 1) % slice.toNat = n % slice.toNat + 1 := by
    rw [Nat.div_mod_unique (by omega)]
    have := Nat.mod_add_div n slice.toNat
    omega
  have hticks := h.ticks t ht
  rw [if_pos (by rw [hrot, List.head?_cons])] at hticks
  have hne : (q.vars.task t).ticks ≠ 0 := by
    intro hz
    rw [hz, UInt32.toNat_zero] at hticks
    omega
  have hsub := toNat_sub_one hne
  have hne' : (q.vars.task t).ticks - 1 ≠ 0 := by
    intro hz
    rw [hz, UInt32.toNat_zero] at hsub
    omega
  have heq : q.tick = { q with
      vars := q.vars.setTask t { q.vars.task t with ticks := (q.vars.task t).ticks - 1 } } := by
    simp only [Queues.tick, h.awake, Queues.wake, hrunning, if_neg hne']
  rw [heq]
  refine ⟨hdiv ▸ h.ready, hdiv ▸ h.running, h.awake, fun r hr => ?_, fun r hr => ?_⟩
  · by_cases hrt : r = t
    · simp only [hrt, TaskVars.setTask, Function.update_self]
      exact h.slices t ht
    · simp only [TaskVars.setTask, Function.update_of_ne hrt]
      exact h.slices r hr
  · rw [hdiv, hmod, hrot, List.head?_cons]
    by_cases hrt : r = t
    · simp only [hrt, TaskVars.setTask, Function.update_self, if_true]
      omega
    · have hr' := h.ticks r hr
      rw [hrot, List.head?_cons, if_neg (fun he => hrt (Option.some.inj he))] at hr'
      simp only [TaskVars.setTask, Function.update_of_ne hrt]
      rw [hr', if_neg (fun he => hrt (Option.some.inj he))]

/-- The slice is over: the wheel turns. -/
theorem Robin.tick_over (h : Robin q rs slice n) (hrs : rs ≠ []) (hidle : idleTask ∉ rs)
    (hover : n % slice.toNat + 1 = slice.toNat) : Robin q.tick rs slice (n + 1) := by
  obtain ⟨t, ts, hrot, ht, hrun, hrunning⟩ := h.front hrs
  have hti : t ≠ idleTask := ne_of_mem_of_not_mem ht hidle
  obtain ⟨hdiv, hmod⟩ : (n + 1) / slice.toNat = n / slice.toNat + 1
      ∧ (n + 1) % slice.toNat = 0 := by
    rw [Nat.div_mod_unique (by omega), Nat.mul_add]
    have := Nat.mod_add_div n slice.toNat
    omega
  have hturn : rs.rotate ((n + 1) / slice.toNat) = ts ++ [t] := by
    rw [hdiv, ← List.rotate_rotate, hrot, List.rotate_cons_succ, List.rotate_zero]
  have hticks := h.ticks t ht
  rw [if_pos (by rw [hrot, List.head?_cons])] at hticks
  have hone : (q.vars.task t).ticks - 1 = 0 := by
    rw [sub_one_eq_zero, ← UInt32.toNat_inj, hticks, UInt32.toNat_one]
    omega
  let q₁ : Queues T X S := { q with
    vars := q.vars.setTask t { q.vars.task t with ticks := (q.vars.task t).slices } }
  have heq : q.tick = q₁.requeue := by
    simp only [Queues.tick, h.awake, Queues.wake, hrunning, if_pos hone]
    rfl
  have hrunning₁ : q₁.running = t := hrunning
  have hready : q₁.requeue.lists .readyList = ts ++ [t] := by
    rw [requeue_ready, hrunning₁, if_neg hti]
    have hlist : q₁.lists .readyList = t :: ts := h.ready.trans hrot
    rw [hlist, List.erase_cons_head]
  have htask : ∀ r ∈ rs, (q₁.vars.task r).slices = slice ∧ (q₁.vars.task r).ticks = slice := by
    intro r hr
    by_cases hrt : r = t
    · simp only [q₁, hrt, TaskVars.setTask, Function.update_self]
      exact ⟨h.slices t ht, h.slices t ht⟩
    · have hr' := h.ticks r hr
      rw [hrot, List.head?_cons, if_neg (fun he => hrt (Option.some.inj he))] at hr'
      simp only [q₁, TaskVars.setTask, Function.update_of_ne hrt]
      exact ⟨h.slices r hr, UInt32.toNat_inj.mp hr'⟩
  rw [heq]
  refine ⟨hready.trans hturn.symm, ?_, ?_, fun r hr => ?_, fun r hr => ?_⟩
  · have hdisp : q₁.requeue.vars.runningTask
        = some ((q₁.requeue.lists .readyList).head?.getD idleTask) := by
      rw [Queues.requeue, Queues.dispatch_lists]
      exact Queues.dispatch_runningTask
    rw [hdisp, hready, hturn]
    cases ts <;> rfl
  · exact (requeue_dozes (q := q₁)).asleep.trans h.awake
  · obtain ⟨state, hstate⟩ := requeue_task (q := q₁) r
    rw [hstate]
    exact (htask r hr).1
  · obtain ⟨state, hstate⟩ := requeue_task (q := q₁) r
    rw [hstate, hmod, Nat.sub_zero, ite_self]
    exact congrArg UInt32.toNat (htask r hr).2

theorem Robin.tick (h : Robin q rs slice n) (hrs : rs ≠ []) (hidle : idleTask ∉ rs)
    (hpos : 0 < slice.toNat) : Robin q.tick rs slice (n + 1) := by
  by_cases hover : n % slice.toNat + 1 = slice.toNat
  · exact h.tick_over hrs hidle hover
  · have hlt := Nat.mod_lt n hpos
    exact h.tick_within hrs (by omega)

/-! ## Any number of ticks -/

variable [HasAddr (TaskNode T)]

/-- From any stand of the wheel. -/
theorem robin_run (hm : k.Models q) (h : Robin q rs slice n) (hrs : rs ≠ []) (hnd : rs.Nodup)
    (hidle : idleTask ∉ rs) (hpos : 0 < slice.toNat) (m : Nat) :
    ∃ k' q', run Kernel.step k (List.replicate m .tick) = some k' ∧ k'.Models q'
      ∧ Robin q' rs slice (n + m) := by
  induction m generalizing k q n with
  | zero => exact ⟨k, q, rfl, hm, h⟩
  | succ m ih =>
      obtain ⟨t, ts, hrot, ht, hrun, -⟩ := h.front hrs
      have hnodup : (t :: ts).Nodup := hrot ▸ List.nodup_rotate.mpr hnd
      obtain ⟨k₁, h₁, hm₁⟩ := tssTaskTs_awake hm (h.ready.trans hrot) hrun
        (ne_of_mem_of_not_mem ht hidle) (List.nodup_cons.mp hnodup).1 h.awake
      obtain ⟨k', q', hk', hm', h'⟩ := ih hm₁ (h.tick hrs hidle hpos)
      refine ⟨k', q', ?_, hm', ?_⟩
      · rw [List.replicate_succ, run_cons, Kernel.step, h₁, Option.bind_some, hk']
      · rw [Nat.add_comm m 1, ← Nat.add_assoc]
        exact h'

/-- The task that runs after `n` ticks. -/
def Kernel.runningAt (k : Kernel T X S) (n : Nat) : Option T :=
  (run Kernel.step k (List.replicate n .tick)).bind fun k => k.vars.runningTask

end RoundRobin

/-! ## The share of a task -/

/-- Among `n * s` numbers in a row, `s` fall into the slice `j` of their
turn. -/
theorem card_slice {n s j : Nat} (hs : 0 < s) (hj : j < n) (m : Nat) :
    (Finset.filter (fun i => i / s % n = j) (Finset.Ico m (m + n * s))).card = s := by
  have hperiodic : Function.Periodic (fun i => i / s % n = j) (n * s) := by
    intro i
    simp only [Nat.add_mul_div_right _ _ hs, Nat.add_mod_right]
  rw [Nat.filter_Ico_card_eq_of_periodic m (n * s) _ hperiodic, Nat.count_eq_card_filter_range]
  have hslice : Finset.filter (fun i => i / s % n = j) (Finset.range (n * s))
      = Finset.Ico (j * s) (j * s + s) := by
    ext i
    rw [Finset.mem_filter, Finset.mem_range, Finset.mem_Ico]
    constructor
    · rintro ⟨hlt, hmod⟩
      rw [Nat.mod_eq_of_lt ((Nat.div_lt_iff_lt_mul hs).mpr hlt)] at hmod
      have hdiv := Nat.div_add_mod i s
      have hrem := Nat.mod_lt i hs
      rw [hmod, Nat.mul_comm] at hdiv
      omega
    · rintro ⟨hle, hlt⟩
      have hdiv : i / s = j := by
        refine Nat.div_eq_of_lt_le hle ?_
        rwa [Nat.succ_mul]
      have hin : i < n * s := (Nat.div_lt_iff_lt_mul hs).mp (by omega)
      exact ⟨hin, by rw [hdiv, Nat.mod_eq_of_lt hj]⟩
  rw [hslice, Nat.card_Ico, Nat.add_sub_cancel_left]

section Law

variable {T X S : Type} [DecidableEq T] [IdleTask T] [DecidableEq X] [DecidableEq S]
  [HasAddr (TaskNode T)] {k : Kernel T X S} {q : Queues T X S} {rs : List T} {slice : UInt32}

/-- After `n` ticks the wheel has turned `n / slice` times, and in as many
ticks as all slices together each task runs for one slice. -/
theorem tssTaskTs_robin (hm : k.Models q) (h : RobinStart q rs slice) :
    (∀ n, ∃ k' q', run Kernel.step k (List.replicate n .tick) = some k' ∧ k'.Models q'
        ∧ k'.vars.runningTask = rs[n / slice.toNat % rs.length]?
        ∧ q'.lists .readyList = rs.rotate (n / slice.toNat % rs.length))
      ∧ ∀ r ∈ rs, ∀ m, (Finset.filter (fun i => k.runningAt i = some r)
          (Finset.Ico m (m + rs.length * slice.toNat))).card = slice.toNat := by
  have hlen : 0 < rs.length := List.length_pos_iff.mpr h.ne_nil
  have hrun : ∀ n, ∃ k' q', run Kernel.step k (List.replicate n .tick) = some k' ∧ k'.Models q'
      ∧ k'.vars.runningTask = rs[n / slice.toNat % rs.length]?
      ∧ q'.lists .readyList = rs.rotate (n / slice.toNat % rs.length) := by
    intro n
    obtain ⟨k', q', hk', hm', h'⟩ :=
      robin_run hm h.robin h.ne_nil h.nodup h.idle h.pos n
    rw [Nat.zero_add] at h'
    refine ⟨k', q', hk', hm', ?_, ?_⟩
    · rw [hm'.vars, h'.running, ← List.rotate_mod, List.head?_rotate (Nat.mod_lt _ hlen)]
    · rw [h'.ready, List.rotate_mod]
  refine ⟨hrun, fun r hr m => ?_⟩
  obtain ⟨j, hj, rfl⟩ := List.getElem_of_mem hr
  refine Eq.trans (congrArg Finset.card (Finset.filter_congr fun i _ => ?_))
    (card_slice h.pos hj m)
  obtain ⟨k', q', hk', -, hrunning, -⟩ := hrun i
  have hi : i / slice.toNat % rs.length < rs.length := Nat.mod_lt _ hlen
  rw [Kernel.runningAt, hk', Option.bind_some, hrunning, List.getElem?_eq_getElem hi,
    Option.some.injEq]
  exact h.nodup.getElem_inj_iff

/-- Two tasks with slices of ten ticks. -/
theorem tssTaskTs_robin_two :
    (∃ k' q', run Kernel.step twoReady (List.replicate 25 .tick) = some k' ∧ k'.Models q'
        ∧ k'.vars.runningTask = some .first ∧ q'.lists .readyList = [.first, .second])
      ∧ (Finset.filter (fun i => twoReady.runningAt i = some .second)
          (Finset.Ico 3 23)).card = 10 := by
  have hstart : RobinStart (twoOn .readyList twoReady.vars) [.first, .second] 10 :=
    ⟨rfl, by decide, by decide, by decide, rfl, rfl, fun _ _ => ⟨rfl, rfl⟩, by decide⟩
  have h := tssTaskTs_robin twoReady_models hstart
  exact ⟨h.1 25, h.2 .second (by decide) 3⟩

end Law

end Csos
