import Csos.Queues

/-!
# The timer law (`tss_task_ts`)

Every tick should count down every sleeping task, and wake up those
that reach zero in the order in which they went to sleep. The walk of
`tss_task_ts` takes the next node from the task that it has just moved
to the ready list, so it ends at the first task that wakes up: the law
holds exactly when that task is the last one of the sleep list
(`Queues.LastWakes`), and then a task sleeps for as many ticks as it
asked for.
-/

namespace Csos

open Lib

section Timer

variable {T X S : Type} [DecidableEq T] [IdleTask T] {q q' q'' : Queues T X S}
  {t u : T} {ts as bs : List T}

/-- Time slices end when the counter of ticks runs out. -/
abbrev Queues.SliceEnds (q : Queues T X S) : Prop := (q.vars.task q.running).ticks = 1

/-- The tasks whose counter reaches zero in the next tick. -/
def Queues.due (q : Queues T X S) : List T :=
  (q.lists .sleepList).filter fun t => (q.vars.task t).sleep = 1

/-- One tick: every sleeping task is counted down by one, those whose
counter reaches zero go to the back of the ready list in their order, and
the running task follows them if its time slice ends. -/
structure TickLaw (q q' : Queues T X S) : Prop where
  counter : ∀ t ∈ q.lists .sleepList,
    (q'.vars.task t).sleep.toNat + 1 = (q.vars.task t).sleep.toNat
  asleep : q'.lists .sleepList
    = (q.lists .sleepList).filter fun t => (q.vars.task t).sleep ≠ 1
  ready : q'.lists .readyList
    = if q.SliceEnds ∧ q.running ≠ idleTask
      then (q.lists .readyList ++ q.due).erase q.running ++ [q.running]
      else q.lists .readyList ++ q.due

/-- No task but the last one is about to wake up. -/
def Queues.LastWakes (q : Queues T X S) : Prop :=
  ∀ t ∈ (q.lists .sleepList).dropLast, (q.vars.task t).sleep ≠ 1

/-- What holds between two steps: tasks that sleep have ticks left. -/
structure Queues.Timed (q : Queues T X S) : Prop where
  inv : q.Inv
  left : ∀ t ∈ q.lists .sleepList, (q.vars.task t).sleep ≠ 0

theorem sub_one_eq_zero {x : UInt32} : x - 1 = 0 ↔ x = 1 := by
  constructor
  · intro h
    have := congrArg UInt32.toNat h
    rw [UInt32.toNat_sub] at this
    refine UInt32.toNat_inj.mp ?_
    have := x.toNat_lt
    simp at *
    omega
  · rintro rfl
    rfl

theorem toNat_sub_one {x : UInt32} (h : x ≠ 0) : (x - 1).toNat + 1 = x.toNat := by
  have hpos : x.toNat ≠ 0 := fun h0 => h (UInt32.toNat_inj.mp h0)
  rw [UInt32.toNat_sub]
  have := x.toNat_lt
  simp
  omega

/-! ## The walk -/

/-- Count down some tasks. -/
def Queues.countDown (q : Queues T X S) (as : List T) : Queues T X S :=
  { q with vars := { q.vars with task := fun t =>
      if t ∈ as then { q.vars.task t with sleep := (q.vars.task t).sleep - 1 } else q.vars.task t } }

omit [IdleTask T] in
theorem countDown_mem (h : t ∈ as) :
    (q.countDown as).vars.task t
      = { q.vars.task t with sleep := (q.vars.task t).sleep - 1 } := if_pos h

omit [IdleTask T] in
theorem countDown_not_mem (h : t ∉ as) : (q.countDown as).vars.task t = q.vars.task t := if_neg h

/-- Count down one task, as the walk does it. -/
abbrev Queues.tickOne (q : Queues T X S) (t : T) : Queues T X S :=
  { q with vars :=
    q.vars.setTask t { q.vars.task t with sleep := (q.vars.task t).sleep - 1 } }

omit [IdleTask T] in
theorem tickOne_countDown (h : t ∉ as) : (q.tickOne t).countDown as = q.countDown (t :: as) := by
  have htask : ((q.tickOne t).countDown as).vars.task = (q.countDown (t :: as)).vars.task := by
    funext u
    by_cases hut : u = t
    · subst hut
      rw [countDown_not_mem h, countDown_mem (List.mem_cons_self ..)]
      exact Function.update_self ..
    · by_cases hu : u ∈ as
      · rw [countDown_mem hu, countDown_mem (List.mem_cons_of_mem _ hu)]
        simp only [TaskVars.setTask, Function.update_of_ne hut]
      · rw [countDown_not_mem hu, countDown_not_mem (by simp [hut, hu])]
        exact Function.update_of_ne hut ..
  simp only [Queues.countDown, TaskVars.setTask] at htask ⊢
  rw [htask]

variable [DecidableEq X] [DecidableEq S]

/-- As long as nobody wakes up the walk goes on. -/
theorem wake_append (hnd : as.Nodup) (h : ∀ t ∈ as, (q.vars.task t).sleep ≠ 1) :
    Queues.wake (as ++ bs) q = Queues.wake bs (q.countDown as) := by
  induction as generalizing q with
  | nil => rfl
  | cons t as ih =>
      obtain ⟨hout, hnd'⟩ := List.nodup_cons.mp hnd
      have ht : ¬ (q.vars.task t).sleep - 1 = 0 :=
        fun h0 => h t (List.mem_cons_self ..) (sub_one_eq_zero.mp h0)
      rw [List.cons_append, Queues.wake, if_neg ht, ih hnd' fun u hu => ?_, tickOne_countDown hout]
      have hne : u ≠ t := fun hut => hout (hut ▸ hu)
      simp only [TaskVars.setTask, Function.update_of_ne hne]
      exact h u (List.mem_cons_of_mem _ hu)

/-- Somebody wakes up, and the walk is over. -/
theorem wake_cons (h : (q.vars.task t).sleep = 1) : Queues.wake (t :: ts) q
    = ((q.countDown [t]).setList .sleepList ((q.lists .sleepList).erase t)).setReady t := by
  have ht : (q.vars.task t).sleep - 1 = 0 := sub_one_eq_zero.mpr h
  have hcount : q.tickOne t = q.countDown [t] :=
    (tickOne_countDown List.not_mem_nil : (q.tickOne t).countDown [] = _)
  rw [Queues.wake, if_pos ht, ← hcount]

/-! ## What leaves the sleepers alone -/

omit [DecidableEq T] [IdleTask T] [DecidableEq X] [DecidableEq S] in
/-- The same tasks sleep, for as long as before. -/
structure Dozes (q q' : Queues T X S) : Prop where
  asleep : q'.lists .sleepList = q.lists .sleepList
  counter : ∀ t, (q'.vars.task t).sleep = (q.vars.task t).sleep

omit [DecidableEq T] [IdleTask T] [DecidableEq X] [DecidableEq S] in
theorem Dozes.refl (q : Queues T X S) : Dozes q q := ⟨rfl, fun _ => rfl⟩

omit [DecidableEq T] [IdleTask T] [DecidableEq X] [DecidableEq S] in
theorem Dozes.trans (h : Dozes q q') (h' : Dozes q' q'') : Dozes q q'' :=
  ⟨h'.asleep.trans h.asleep, fun t => (h'.counter t).trans (h.counter t)⟩

omit [IdleTask T] [DecidableEq X] [DecidableEq S] in
theorem setTask_dozes {task : TssTask} (h : task.sleep = (q.vars.task t).sleep) :
    Dozes q { q with vars := q.vars.setTask t task } := by
  refine ⟨rfl, fun u => ?_⟩
  by_cases hu : u = t
  · subst hu
    simp only [TaskVars.setTask, Function.update_self, h]
  · simp only [TaskVars.setTask, Function.update_of_ne hu]

omit [DecidableEq T] [IdleTask T] in
theorem setList_dozes {l : TaskList X S} (hl : l ≠ .sleepList) : Dozes q (q.setList l ts) :=
  ⟨Queues.setList_lists_of_ne (Ne.symm hl), fun _ => rfl⟩

theorem setBlock_dozes : Dozes q (q.setBlock t) := by
  unfold Queues.setBlock
  split
  case isTrue => exact .refl q
  case isFalse => exact setList_dozes nofun

theorem setReady_dozes : Dozes q (q.setReady t) := by
  unfold Queues.setReady
  split
  case isTrue => exact .refl q
  case isFalse => exact (setTask_dozes (by rfl)).trans (setList_dozes (by nofun))

omit [DecidableEq X] [DecidableEq S] in
theorem dispatch_dozes : Dozes q q.dispatch := by
  unfold Queues.dispatch
  dsimp only
  split
  case isTrue => exact .refl q
  case isFalse => exact ⟨rfl, (setTask_dozes (by rfl)).counter⟩

theorem requeue_dozes : Dozes q q.requeue :=
  (setBlock_dozes.trans setReady_dozes).trans dispatch_dozes

theorem requeue_ready : q.requeue.lists .readyList
    = if q.running = idleTask then q.lists .readyList
      else (q.lists .readyList).erase q.running ++ [q.running] := by
  rw [Queues.requeue, Queues.dispatch_lists]
  by_cases hr : q.running = idleTask
  · rw [if_pos hr, Queues.setReady, if_pos hr, Queues.setBlock, if_pos hr]
  · rw [if_neg hr, Queues.setReady, if_neg hr, Queues.setList_lists_self, Queues.setBlock,
      if_neg hr, Queues.setList_lists_self]

theorem setReady_ticks : ((q.setReady t).vars.task u).ticks = (q.vars.task u).ticks := by
  unfold Queues.setReady
  split
  case isTrue => rfl
  case isFalse =>
    by_cases hu : u = t
    · subst hu
      simp only [Queues.setList_vars, TaskVars.setTask, Function.update_self]
    · simp only [Queues.setList_vars, TaskVars.setTask, Function.update_of_ne hu]

theorem setReady_runningTask : (q.setReady t).vars.runningTask = q.vars.runningTask := by
  unfold Queues.setReady
  split <;> rfl

theorem wake_vars : (Queues.wake ts q).vars.runningTask = q.vars.runningTask
    ∧ ∀ t, ((Queues.wake ts q).vars.task t).ticks = (q.vars.task t).ticks := by
  induction ts generalizing q with
  | nil => exact ⟨rfl, fun _ => rfl⟩
  | cons t ts ih =>
      have hticks : ∀ u, ((q.tickOne t).vars.task u).ticks = (q.vars.task u).ticks := by
        intro u
        by_cases hu : u = t
        · subst hu
          simp only [TaskVars.setTask, Function.update_self]
        · simp only [TaskVars.setTask, Function.update_of_ne hu]
      simp only [Queues.wake]
      split
      case isTrue => exact ⟨setReady_runningTask, fun u => setReady_ticks.trans (hticks u)⟩
      case isFalse =>
        obtain ⟨hrun, hrest⟩ := @ih (q.tickOne t)
        exact ⟨hrun, fun u => (hrest u).trans (hticks u)⟩

/-- The half of the tick that comes after the walk. -/
theorem tick_after_wake : Dozes (Queues.wake (q.lists .sleepList) q) q.tick
    ∧ q.tick.lists .readyList
      = if q.SliceEnds ∧ q.running ≠ idleTask
        then ((Queues.wake (q.lists .sleepList) q).lists .readyList).erase q.running ++ [q.running]
        else (Queues.wake (q.lists .sleepList) q).lists .readyList := by
  obtain ⟨hrun, hticks⟩ := @wake_vars _ _ _ _ _ q (q.lists .sleepList) _ _
  unfold Queues.tick
  generalize Queues.wake (q.lists .sleepList) q = q₁ at hrun hticks ⊢
  have hr : q₁.running = q.running := by rw [Queues.running, hrun, Queues.running]
  have hslice : (q₁.vars.task q₁.running).ticks - 1 = 0 ↔ q.SliceEnds := by
    rw [sub_one_eq_zero, hticks, hr]
  dsimp only
  split
  case isTrue h =>
    refine ⟨(setTask_dozes (by rfl)).trans requeue_dozes, requeue_ready.trans ?_⟩
    by_cases hi : q.running = idleTask
    · exact (if_pos (hr.trans hi)).trans (if_neg fun h' => h'.2 hi).symm
    · refine (if_neg fun h' => hi (hr.symm.trans h')).trans ?_
      rw [if_pos ⟨hslice.mp h, hi⟩, ← hr]
      rfl
  case isFalse h =>
    refine ⟨setTask_dozes (by rfl), ?_⟩
    rw [if_neg fun h' => h (hslice.mpr h'.1)]

/-! ## One tick -/

/-- The walk does what it should if only the last sleeper may wake up. -/
theorem wake_law (hq : q.Timed) (hlast : q.LastWakes) :
    (∀ t ∈ q.lists .sleepList, ((Queues.wake (q.lists .sleepList) q).vars.task t).sleep
      = (q.vars.task t).sleep - 1)
    ∧ (Queues.wake (q.lists .sleepList) q).lists .sleepList
      = (q.lists .sleepList).filter (fun t => (q.vars.task t).sleep ≠ 1)
    ∧ (Queues.wake (q.lists .sleepList) q).lists .readyList = q.lists .readyList ++ q.due := by
  have hnd := hq.inv.placed.nodup .sleepList
  have hidle := hq.inv.placed.idle .sleepList nofun
  unfold Queues.due
  rcases (q.lists .sleepList).eq_nil_or_concat' with hnil | ⟨as, t, hsl⟩
  · rw [hnil]
    exact ⟨fun _ ht => (nomatch ht), hnil, (List.append_nil _).symm⟩
  unfold Queues.LastWakes at hlast
  rw [hsl] at hlast hnd hidle ⊢
  rw [List.dropLast_concat] at hlast
  have hout : t ∉ as := fun h =>
    (List.nodup_append.mp hnd).2.2 t h t (List.mem_singleton_self t) rfl
  have has := (List.nodup_append.mp hnd).1
  have hi : t ≠ idleTask := fun h => hidle (h ▸ List.mem_append_right _ (List.mem_singleton_self t))
  have herase : (q.lists .sleepList).erase t = as := by
    rw [hsl, List.erase_append_right _ hout, List.erase_cons_head, List.append_nil]
  have hawake : as.filter (fun u => decide ((q.vars.task u).sleep = 1)) = [] :=
    List.filter_eq_nil_iff.mpr fun u hu => by simpa using hlast u hu
  have hasleep : as.filter (fun u => decide ((q.vars.task u).sleep ≠ 1)) = as :=
    List.filter_eq_self.mpr fun u hu => by simpa using hlast u hu
  have ht : (q.countDown as).vars.task t = q.vars.task t := countDown_not_mem hout
  have hcount : ∀ u ∈ as ++ [t], (((q.countDown as).countDown [t]).vars.task u).sleep
      = (q.vars.task u).sleep - 1 := by
    intro u hu
    rcases List.mem_append.mp hu with hu | hu
    · have hne : u ∉ [t] := fun h => hout (List.mem_singleton.mp h ▸ hu)
      rw [countDown_not_mem hne, countDown_mem hu]
    · rw [countDown_mem hu, List.mem_singleton.mp hu, ht]
  rw [wake_append has hlast, List.filter_append, hasleep, List.filter_append, hawake]
  by_cases hone : (q.vars.task t).sleep = 1
  · -- the last sleeper wakes up
    rw [wake_cons (ht ▸ hone)]
    refine ⟨fun u hu => (setReady_dozes.counter u).trans (hcount u hu), ?_, ?_⟩
    · have hsame : (q.countDown as).lists .sleepList = q.lists .sleepList := rfl
      rw [setReady_dozes.asleep, Queues.setList_lists_self, hsame, herase]
      simp [hone]
    · have hready : ((q.countDown as).countDown [t]).lists .readyList = q.lists .readyList := rfl
      rw [Queues.setReady_lists, if_pos ⟨rfl, hi⟩, Queues.setList_lists_of_ne (by nofun), hready]
      simp [hone]
  · have hwake : Queues.wake [t] (q.countDown as) = (q.countDown as).countDown [t] :=
      @wake_append _ _ _ _ _ (q.countDown as) [t] [] _ _ (List.nodup_singleton t) fun u hu => by
        rw [List.mem_singleton.mp hu, ht]
        exact hone
    rw [hwake]
    refine ⟨hcount, hsl.trans ?_, ?_⟩
    · simp [hone]
    · simp [hone, Queues.countDown]

/-- If somebody wakes up in front of a sleeper, that one is not counted
down. -/
theorem wake_breaks (hq : q.Timed) (hlast : ¬ q.LastWakes) :
    ∃ b ∈ q.lists .sleepList, ((Queues.wake (q.lists .sleepList) q).vars.task b).sleep
      = (q.vars.task b).sleep := by
  unfold Queues.LastWakes at hlast
  push Not at hlast
  obtain ⟨t₀, hmem₀, hone₀⟩ := hlast
  -- the first task that wakes up
  obtain ⟨t, hfind⟩ :
      ∃ t, (q.lists .sleepList).find? (fun t => (q.vars.task t).sleep = 1) = some t :=
    Option.isSome_iff_exists.mp (List.find?_isSome.mpr
      ⟨t₀, List.dropLast_subset _ hmem₀, by simpa using hone₀⟩)
  obtain ⟨hone, as, bs, hsl, has⟩ := List.find?_eq_some_iff_append.mp hfind
  have hone' : (q.vars.task t).sleep = 1 := by simpa using hone
  have has' : ∀ u ∈ as, (q.vars.task u).sleep ≠ 1 := fun u hu => by simpa using has u hu
  have hnd := hq.inv.placed.nodup .sleepList
  cases bs with
  | nil =>
      rw [hsl, List.dropLast_concat] at hmem₀
      exact absurd hone₀ (has' t₀ hmem₀)
  | cons b bs =>
      rw [hsl] at hnd
      have hbas : b ∉ as := fun h => (List.nodup_append.mp hnd).2.2 b h b (by simp) rfl
      have htas : t ∉ as := fun h => (List.nodup_append.mp hnd).2.2 t h t (by simp) rfl
      have hbt : b ∉ [t] := by
        intro h
        have hnd' := (List.nodup_append.mp hnd).2.1
        rw [List.mem_singleton.mp h] at hnd'
        exact (List.nodup_cons.mp hnd').1 (List.mem_cons_self ..)
      have hcount : (q.countDown as).vars.task t = q.vars.task t := countDown_not_mem htas
      refine ⟨b, by simp [hsl], ?_⟩
      rw [hsl, wake_append (List.nodup_append.mp hnd).1 has', wake_cons (hcount ▸ hone'),
        setReady_dozes.counter, Queues.setList_vars, countDown_not_mem hbt, countDown_not_mem hbas]

/-- A tick obeys the law exactly if only the last sleeper may wake up. -/
theorem tickLaw_iff (hq : q.Timed) : TickLaw q q.tick ↔ q.LastWakes := by
  obtain ⟨hdoze, hready⟩ := @tick_after_wake _ _ _ _ _ q _ _
  constructor
  · intro hlaw
    by_contra hlast
    obtain ⟨b, hb, heq⟩ := wake_breaks hq hlast
    have hcount := hlaw.counter b hb
    rw [hdoze.counter, heq] at hcount
    omega
  · intro hlast
    obtain ⟨hcount, hasleep, hback⟩ := wake_law hq hlast
    refine ⟨fun t ht => ?_, hdoze.asleep.trans hasleep, ?_⟩
    · rw [hdoze.counter, hcount t ht]
      exact toNat_sub_one (hq.left t ht)
    · rw [hready, hback]

/-! ## Runs -/

theorem moveTo_dozes {l : TaskList X S} (hl : l ≠ .sleepList) : Dozes q (q.moveTo l) :=
  setBlock_dozes.trans (setList_dozes hl)

/-- A step that is neither a tick nor a call of `tss_task_sleep`. -/
theorem step_dozes {a : Action X S} (htick : a ≠ .tick) (hsleep : ∀ ms, a ≠ .sleep ms) :
    Dozes q (q.step a) := by
  cases a with
  | lock m =>
      simp only [Queues.step, Queues.lock]
      split
      case isTrue => exact ⟨rfl, fun _ => rfl⟩
      case isFalse =>
        split
        case isTrue => exact ⟨rfl, fun _ => rfl⟩
        case isFalse => exact (moveTo_dozes (by nofun)).trans dispatch_dozes
  | unlock m =>
      simp only [Queues.step, Queues.unlock]
      split
      case isFalse => exact .refl q
      case isTrue =>
        split
        case isFalse => exact ⟨rfl, fun _ => rfl⟩
        case isTrue =>
          cases q.lists (.mutexWaitList m) with
          | nil => exact ⟨rfl, fun _ => rfl⟩
          | cons t ts =>
              let vars := q.vars.setMutex m
                { owner := none, locker := (q.vars.mutex m).locker - 1 }
              let q₁ : Queues T X S := { q with vars }
              have hgrant : Dozes q₁ ((q₁.setList (.mutexWaitList m) ts).setReady t) :=
                (setList_dozes (by nofun)).trans setReady_dozes
              refine Dozes.trans ?_ dispatch_dozes
              exact ⟨hgrant.asleep, hgrant.counter⟩
  | wait s =>
      simp only [Queues.step, Queues.wait]
      split
      case isTrue => exact ⟨rfl, fun _ => rfl⟩
      case isFalse => exact (moveTo_dozes (by nofun)).trans dispatch_dozes
  | notify s =>
      simp only [Queues.step, Queues.notify]
      cases q.lists (.semWaitList s) with
      | nil => exact ⟨rfl, fun _ => rfl⟩
      | cons t ts => exact ((setList_dozes (by nofun)).trans setReady_dozes).trans dispatch_dozes
  | yield =>
      simp only [Queues.step, Queues.yield]
      split
      case isTrue => exact requeue_dozes
      case isFalse => exact .refl q
  | sleep ms => exact absurd rfl (hsleep ms)
  | tick => exact absurd rfl htick

/-- `tss_task_sleep` only adds the running task to the sleepers. -/
theorem sleep_asleep {ms : UInt32} (hms : ms ≠ 0) :
    (q.sleep ms).lists .sleepList = q.lists .sleepList ++ [q.running]
    ∧ ∀ u, ((q.sleep ms).vars.task u).sleep
      = if u = q.running then ms else (q.vars.task u).sleep := by
  rw [Queues.sleep, if_neg hms]
  have hmove : (q.moveTo .sleepList).lists .sleepList = q.lists .sleepList ++ [q.running] :=
    Queues.moveTo_lists_self
  refine ⟨dispatch_dozes.asleep.trans hmove, fun u => ?_⟩
  rw [dispatch_dozes.counter]
  by_cases hu : u = q.running
  · subst hu
    rw [if_pos rfl]
    simp only [TaskVars.setTask, Function.update_self]
  · rw [if_neg hu]
    simp only [TaskVars.setTask, Function.update_of_ne hu]

theorem sleep_zero_dozes : Dozes q (q.sleep 0) := by
  rw [Queues.sleep, if_pos rfl]
  exact setBlock_dozes.trans dispatch_dozes

omit [DecidableEq T] [DecidableEq X] [DecidableEq S] in
theorem Queues.Timed.of_dozes (hq : q.Timed) (hd : Dozes q q') (hi : q'.Inv) : q'.Timed := by
  refine ⟨hi, fun t ht => ?_⟩
  rw [hd.counter]
  exact hq.left t (hd.asleep ▸ ht)

/-- A task that is counted down to zero leaves the sleep list. -/
theorem wake_timed (hq : q.Timed) (hsub : ∀ t ∈ ts, t ∈ q.lists .sleepList) (hnd : ts.Nodup) :
    (Queues.wake ts q).Timed := by
  induction ts generalizing q with
  | nil => exact hq
  | cons t ts ih =>
      have ht := hsub t (List.mem_cons_self ..)
      have hi := Queues.wake_inv hq.inv hsub
      have hcount : ∀ u, u ≠ t → ((q.tickOne t).vars.task u).sleep = (q.vars.task u).sleep := by
        intro u hu
        simp only [TaskVars.setTask, Function.update_of_ne hu]
      simp only [Queues.wake] at hi ⊢
      split
      case isTrue h =>
        rw [if_pos h] at hi
        refine ⟨hi, fun u hu => ?_⟩
        have hu' : u ∈ (q.lists .sleepList).erase t := by
          rw [setReady_dozes.asleep, Queues.setList_lists_self] at hu
          exact hu
        obtain ⟨hne, hmem⟩ := ((hq.inv.placed.nodup _).mem_erase_iff).mp hu'
        rw [setReady_dozes.counter]
        exact (hcount u hne).symm ▸ hq.left u hmem
      case isFalse h =>
        obtain ⟨-, hnd'⟩ := List.nodup_cons.mp hnd
        refine ih ⟨⟨hq.inv.placed, hq.inv.running⟩, fun u hu => ?_⟩
          (fun u hu => hsub u (List.mem_cons_of_mem _ hu)) hnd'
        by_cases hut : u = t
        · subst hut
          simp only [TaskVars.setTask, Function.update_self]
          exact h
        · exact (hcount u hut).symm ▸ hq.left u hu

/-- Whatever the step is, every sleeper has ticks left after it. -/
theorem Queues.Timed.step {a : Action X S} (hq : q.Timed) (hi : (q.step a).Inv) :
    (q.step a).Timed := by
  by_cases htick : a = .tick
  · subst htick
    exact (wake_timed hq (fun _ ht => ht) (hq.inv.placed.nodup _)).of_dozes tick_after_wake.1 hi
  by_cases hsleep : ∃ ms, a = .sleep ms
  · obtain ⟨ms, rfl⟩ := hsleep
    by_cases hms : ms = 0
    · subst hms
      exact hq.of_dozes sleep_zero_dozes hi
    · obtain ⟨hasleep, hcount⟩ := @sleep_asleep _ _ _ _ _ q _ _ _ hms
      refine ⟨hi, fun t ht => ?_⟩
      have ht' : t ∈ q.lists .sleepList ++ [q.running] := hasleep ▸ ht
      show ((q.sleep ms).vars.task t).sleep ≠ 0
      rw [hcount]
      split
      case isTrue => exact hms
      case isFalse hne =>
        refine hq.left t ((List.mem_append.mp ht').resolve_right fun h => hne ?_)
        exact List.mem_singleton.mp h
  · push Not at hsleep
    exact hq.of_dozes (step_dozes htick hsleep) hi

/-- A task that sleeps goes on sleeping, and only ticks count it down. -/
theorem step_asleep {a : Action X S} (hq : q.Timed) (ht : t ∈ q.lists .sleepList)
    (htick : a = .tick → q.LastWakes) (hlong : a = .tick → 1 < (q.vars.task t).sleep.toNat) :
    t ∈ (q.step a).lists .sleepList
    ∧ ((q.step a).vars.task t).sleep.toNat + (if a = .tick then 1 else 0)
      = (q.vars.task t).sleep.toNat := by
  by_cases ha : a = .tick
  · subst ha
    have hlaw := (tickLaw_iff hq).mpr (htick rfl)
    refine ⟨?_, hlaw.counter t ht⟩
    show t ∈ q.tick.lists .sleepList
    rw [hlaw.asleep]
    refine List.mem_filter.mpr ⟨ht, ?_⟩
    have hne : (q.vars.task t).sleep ≠ 1 := by
      intro h1
      have := hlong rfl
      rw [h1] at this
      exact absurd this (by decide)
    simpa using hne
  · rw [if_neg ha]
    by_cases hsleep : ∃ ms, a = .sleep ms
    · obtain ⟨ms, rfl⟩ := hsleep
      by_cases hms : ms = 0
      · subst hms
        have hd := @sleep_zero_dozes _ _ _ _ _ q _ _
        exact ⟨hd.asleep.symm ▸ ht, congrArg UInt32.toNat (hd.counter t)⟩
      · obtain ⟨hasleep, hcount⟩ := @sleep_asleep _ _ _ _ _ q _ _ _ hms
        have hne : t ≠ q.running := by
          rintro rfl
          exact (hq.inv.waiter (by nofun) (by nofun) ht).2 hq.inv.runningTask_eq
        refine ⟨?_, ?_⟩
        · show t ∈ (q.sleep ms).lists .sleepList
          rw [hasleep]
          exact List.mem_append_left _ ht
        · show ((q.sleep ms).vars.task t).sleep.toNat + 0 = _
          rw [hcount, if_neg hne, Nat.add_zero]
    · push Not at hsleep
      have hd := @step_dozes _ _ _ _ _ q _ _ a ha hsleep
      exact ⟨hd.asleep.symm ▸ ht, congrArg UInt32.toNat (hd.counter t)⟩

/-- The task that is due is ready after the tick. -/
theorem tick_ready (hq : q.Timed) (hlast : q.LastWakes) (ht : t ∈ q.lists .sleepList)
    (hone : (q.vars.task t).sleep = 1) :
    t ∈ q.tick.lists .readyList ∧ t ∉ q.tick.lists .sleepList := by
  have hlaw := (tickLaw_iff hq).mpr hlast
  have hdue : t ∈ q.lists .readyList ++ q.due :=
    List.mem_append_right _ (List.mem_filter.mpr ⟨ht, by simpa using hone⟩)
  have hne : t ≠ q.running := by
    rintro rfl
    exact (hq.inv.waiter (by nofun) (by nofun) ht).2 hq.inv.runningTask_eq
  rw [hlaw.ready, hlaw.asleep]
  constructor
  · split
    case isTrue => exact List.mem_append_left _ ((List.mem_erase_of_ne hne).mpr hdue)
    case isFalse => exact hdue
  · intro hmem
    have hout := (List.mem_filter.mp hmem).2
    simp [hone] at hout

variable {k k₁ : Kernel T X S}

/-- No task but the last one of the sleep list is about to wake up. -/
def Kernel.LastWakes (k : Kernel T X S) : Prop :=
  ∀ ts : List T, k.heap.Rep .sleepList (ts.map .runningNode) →
    ∀ t ∈ ts.dropLast, (k.vars.task t).sleep ≠ 1

omit [DecidableEq T] [IdleTask T] [DecidableEq X] [DecidableEq S] in
theorem Kernel.Models.lastWakes_iff (hm : k.Models q) : k.LastWakes ↔ q.LastWakes := by
  have hrep : k.heap.Rep .sleepList ((q.lists .sleepList).map .runningNode) :=
    hm.holds.rep .sleepList _ rfl
  rw [Kernel.LastWakes, Queues.LastWakes, ← hm.vars]
  constructor
  · exact fun h => h _ hrep
  · intro h ts hts
    have heq : ts = q.lists .sleepList :=
      List.map_injective_iff.mpr (fun _ _ => TaskNode.runningNode.inj) (hts.unique hrep)
    exact heq ▸ h

variable [HasAddr (TaskNode T)]

/-- As long as there are ticks left the task sleeps, whatever happens. -/
theorem run_asleep {as : List (Action X S)} (hm : k.Models q) (hq : q.Timed)
    (ht : t ∈ q.lists .sleepList) (hcount : as.count .tick < (q.vars.task t).sleep.toNat)
    (hops : Always Kernel.step (fun k a => k.Calls a ∧ (a = .tick → k.LastWakes)) k as) :
    ∃ k' q', run Kernel.step k as = some k' ∧ k'.Models q' ∧ q'.Timed
      ∧ t ∈ q'.lists .sleepList
      ∧ (q'.vars.task t).sleep.toNat + as.count .tick = (q.vars.task t).sleep.toNat := by
  induction as generalizing k q with
  | nil => exact ⟨k, q, rfl, hm, hq, ht, rfl⟩
  | cons a as ih =>
      obtain ⟨⟨hcall, htick⟩, hrest⟩ := hops
      have htick' : a = .tick → q.LastWakes := fun ha => hm.lastWakes_iff.mp (htick ha)
      obtain ⟨k₁, h₁, hm₁, hi₁⟩ := Kernel.step_sim hm hq.inv (hcall.running_ne hm hq.inv)
      rw [List.count_cons] at hcount
      have hlong : a = .tick → 1 < (q.vars.task t).sleep.toNat := by
        rintro rfl
        rw [if_pos (beq_self_eq_true _)] at hcount
        omega
      obtain ⟨ht₁, hcount₁⟩ := step_asleep hq ht htick' hlong
      simp only [beq_iff_eq] at hcount
      obtain ⟨k', q', hrun, hm', hq', ht', hcount'⟩ :=
        ih hm₁ (hq.step hi₁) ht₁ (by omega) (hrest k₁ h₁)
      refine ⟨k', q', by rw [run_cons, h₁, Option.bind_some, hrun], hm', hq', ht', ?_⟩
      rw [List.count_cons]
      simp only [beq_iff_eq]
      omega

/-- The timer law. One tick counts down every sleeper and wakes up those
that are due exactly if no task but the last one of the sleep list is
due. In runs whose ticks are all like this, a task that sleeps for `ms`
ticks sleeps until the `ms`-th one and is ready then. -/
theorem tssTaskTs_law (hm : k.Models q) (hq : q.Timed) :
    (∃ k' q', tssTaskTs k = some k' ∧ k'.Models q' ∧ (TickLaw q q' ↔ k.LastWakes))
    ∧ ∀ (ms : UInt32) (as : List (Action X S)), ms ≠ 0 → as.count .tick < ms.toNat →
      Always Kernel.step (fun k a => k.Calls a ∧ (a = .tick → k.LastWakes)) k (.sleep ms :: as) →
      ∃ k' q', run Kernel.step k (.sleep ms :: as) = some k' ∧ k'.Models q'
        ∧ q.running ∈ q'.lists .sleepList ∧ q.running ∉ q'.lists .readyList
        ∧ (q'.vars.task q.running).sleep.toNat + as.count .tick = ms.toNat
        ∧ (as.count .tick + 1 = ms.toNat → k'.LastWakes → ∃ k'' q'', tssTaskTs k' = some k''
          ∧ k''.Models q'' ∧ q.running ∈ q''.lists .readyList
          ∧ q.running ∉ q''.lists .sleepList) := by
  constructor
  · obtain ⟨k', heq, hm', -⟩ := tssTaskTs_sim hm hq.inv
    exact ⟨k', _, heq, hm', (tickLaw_iff hq).trans hm.lastWakes_iff.symm⟩
  · intro ms as hms hlt hops
    obtain ⟨⟨hcall, -⟩, hrest⟩ := hops
    obtain ⟨k₁, h₁, hm₁, hi₁⟩ := Kernel.step_sim hm hq.inv (hcall.running_ne hm hq.inv)
    obtain ⟨hasleep, hcount⟩ := @sleep_asleep _ _ _ _ _ q _ _ _ hms
    have ht₁ : q.running ∈ (q.step (.sleep ms)).lists .sleepList := by
      show q.running ∈ (q.sleep ms).lists .sleepList
      rw [hasleep]
      exact List.mem_append_right _ (List.mem_singleton_self _)
    have hleft : ((q.step (.sleep ms)).vars.task q.running).sleep = ms :=
      (hcount q.running).trans (if_pos rfl)
    have hq₁ : (q.step (.sleep ms)).Timed := hq.step hi₁
    rw [← hleft] at hlt
    obtain ⟨k', q', hrun, hm', hq', ht', hcount'⟩ := run_asleep hm₁ hq₁ ht₁ hlt (hrest k₁ h₁)
    rw [hleft] at hcount'
    refine ⟨k', q', by rw [run_cons, h₁, Option.bind_some, hrun], hm', ht',
      (hq'.inv.waiter (by nofun) (by nofun) ht').1, hcount', fun hdue hlast => ?_⟩
    have hone : (q'.vars.task q.running).sleep = 1 :=
      UInt32.toNat_inj.mp (by rw [UInt32.toNat_one]; omega)
    obtain ⟨k'', heq, hm'', -⟩ := tssTaskTs_sim hm' hq'.inv
    exact ⟨k'', _, heq, hm'', tick_ready hq' (hm'.lastWakes_iff.mp hlast) ht' hone⟩

end Timer

/-! ## Two sleepers -/

/-- Two tasks on one list, and none on the others. -/
def twoOn (l : TaskList Unit Unit) (vars : TaskVars ThreeTasks Unit Unit) :
    Queues ThreeTasks Unit Unit where
  lists := fun l' => if l' = l then [.first, .second] else []
  vars := vars

theorem models_twoOn {k : Kernel ThreeTasks Unit Unit} {l : TaskList Unit Unit}
    (h : k.heap.Rep l [l.node .first, l.node .second]) (hother : ∀ l', l' ≠ l → k.heap.Rep l' []) :
    k.Models (twoOn l k.vars) := by
  refine ⟨rfl, fun l' ns hl' => ?_, fun l₁ l₂ ns₁ ns₂ hne h₁ h₂ n hn => ?_⟩
  · obtain rfl := Option.some.inj hl'
    by_cases heq : l' = l
    · subst heq
      simpa [twoOn] using h
    · simpa [twoOn, heq] using hother l' heq
  · obtain rfl := Option.some.inj h₁
    obtain rfl := Option.some.inj h₂
    by_cases hl₁ : l₁ = l
    · have hl₂ : l₂ ≠ l := fun h => hne (hl₁.trans h.symm)
      simp [twoOn, hl₂]
    · simp [twoOn, hl₁] at hn

theorem placed_twoOn {l : TaskList Unit Unit} {vars : TaskVars ThreeTasks Unit Unit} :
    Placed (twoOn l vars).lists := by
  refine ⟨fun l' => ?_, fun l₁ l₂ _ _ hne t ht => ?_, fun l' _ => ?_⟩
  · dsimp only [twoOn]
    split <;> decide
  · by_cases hl₁ : l₁ = l
    · have hl₂ : l₂ ≠ l := fun h => hne (hl₁.trans h.symm)
      simp [twoOn, hl₂]
    · simp [twoOn, hl₁] at ht
  · dsimp only [twoOn]
    split <;> decide

/-- Both tasks have gone to sleep until the next tick. -/
def bothAsleep : Kernel ThreeTasks Unit Unit :=
  (run Kernel.step twoReady [.sleep 1, .sleep 1]).get (by decide)

theorem bothAsleep_models : bothAsleep.Models (twoOn .sleepList bothAsleep.vars) := by
  refine models_twoOn ?_ fun l hl => ?_
  · exact Heap.rep_iff_dseg.mpr ⟨by decide, by decide,
      ⟨by decide, by decide, by decide, by decide, trivial⟩, by decide, by decide⟩
  · cases l with
    | sleepList => exact absurd rfl hl
    | _ => exact Heap.rep_iff_dseg.mpr ⟨rfl, rfl, trivial, rfl, .nil⟩

theorem bothAsleep_timed : (twoOn .sleepList bothAsleep.vars).Timed := by
  exact ⟨⟨placed_twoOn, Or.inl (by decide)⟩, by decide⟩

theorem twoReady_models : twoReady.Models (twoOn .readyList twoReady.vars) := by
  refine models_twoOn ?_ fun l hl => ?_
  · exact Heap.rep_iff_dseg.mpr ⟨by decide, by decide,
      ⟨by decide, by decide, by decide, by decide, trivial⟩, by decide, by decide⟩
  · exact Heap.rep_iff_dseg.mpr ⟨if_neg hl, if_neg hl, trivial, congrArg _ (if_neg hl), .nil⟩

theorem twoReady_timed : (twoOn .readyList twoReady.vars).Timed :=
  ⟨⟨placed_twoOn, Or.inr ⟨.first, [.second], rfl, rfl⟩⟩, by decide⟩

theorem lastWakes_of_single {k : Kernel ThreeTasks Unit Unit} {n : TaskNode ThreeTasks}
    (h : k.heap.Rep .sleepList [n]) : k.LastWakes := by
  intro ts hts t ht
  have hlen := congrArg List.length (hts.unique h)
  obtain ⟨u, rfl⟩ := List.length_eq_one_iff.mp (by simpa using hlen)
  cases ht

/-- The first task has gone to sleep, for two ticks. -/
def oneAsleep : Kernel ThreeTasks Unit Unit := (twoReady.step (.sleep 2)).get (by decide)

/-- One of them has passed. -/
def oneLeft : Kernel ThreeTasks Unit Unit :=
  (run Kernel.step twoReady [.sleep 2, .tick, .yield]).get (by decide)

theorem oneAsleep_lastWakes : oneAsleep.LastWakes :=
  lastWakes_of_single (n := .runningNode .first) (Heap.rep_iff_dseg.mpr
    ⟨by decide, by decide, ⟨by decide, by decide, trivial⟩, by decide, by decide⟩)

theorem oneLeft_lastWakes : oneLeft.LastWakes :=
  lastWakes_of_single (n := .runningNode .first) (Heap.rep_iff_dseg.mpr
    ⟨by decide, by decide, ⟨by decide, by decide, trivial⟩, by decide, by decide⟩)

/-- A task sleeps for two ticks. -/
theorem tssTaskTs_law_two : ∃ k' q' k'' q'',
    run Kernel.step twoReady [.sleep 2, .tick, .yield] = some k' ∧ k'.Models q'
      ∧ .first ∈ q'.lists .sleepList ∧ tssTaskTs k' = some k'' ∧ k''.Models q''
      ∧ .first ∈ q''.lists .readyList := by
  have hok : Always Kernel.step (fun k a => k.Calls a ∧ (a = .tick → k.LastWakes)) twoReady
      [.sleep 2, .tick, .yield] := by
    refine ⟨⟨by decide, nofun⟩, fun k₁ h₁ => ?_⟩
    obtain rfl : k₁ = oneAsleep := by simp [oneAsleep, h₁]
    refine ⟨⟨nofun, fun _ => oneAsleep_lastWakes⟩, fun k₂ h₂ => ?_⟩
    obtain rfl : k₂ = (oneAsleep.step .tick).get (by decide) := by simp [h₂]
    exact ⟨⟨by decide, nofun⟩, fun _ _ => trivial⟩
  obtain ⟨k', q', hrun, hm', hasleep, -, hcount, hwake⟩ :=
    (tssTaskTs_law twoReady_models twoReady_timed).2 2 [.tick, .yield] (by decide) (by decide) hok
  obtain rfl : k' = oneLeft := by simp [oneLeft, hrun]
  obtain ⟨k'', q'', heq, hm'', hready, -⟩ := hwake (by decide) oneLeft_lastWakes
  exact ⟨oneLeft, q', k'', q'', hrun, hm', hasleep, heq, hm'', hready⟩

/-- One tick later the second task is still asleep. -/
theorem tssTaskTs_law_fails : ¬ ∀ (k : Kernel ThreeTasks Unit Unit) (q : Queues ThreeTasks Unit Unit),
    k.Models q → q.Timed → ∃ k' q', tssTaskTs k = some k' ∧ k'.Models q' ∧ TickLaw q q' := by
  intro hall
  obtain ⟨k', q', heq, hm', hlaw⟩ := hall _ _ bothAsleep_models bothAsleep_timed
  have hcount := hlaw.counter .second (by decide)
  rw [← hm'.vars, Option.some.inj (heq.symm.trans (Option.some_get (by decide)).symm)] at hcount
  exact absurd hcount (by decide)

end Csos
