import Csos.Lib.Census
import Csos.Lib.Run
import Csos.Semaphore
import Csos.Tty

/-!
# Output flow control (`dev_tty_write`)

Any number of tasks in `dev_tty_write` on one terminal, step by step. A
writer takes a credit from `osem` for each byte before it puts the byte,
and when it is through with its bytes it drains the queue, giving back a
credit for each byte it takes. What the bytes do to the screen is left
out here; the control of `com_esc` decides which routine takes the next
byte and is kept.

A task that has taken a byte and not given back its credit yet is neither
in the counter nor in the queue, so it has to be counted as well.
-/

namespace Csos

open Lib

/-- Where a task is in `dev_tty_write`. -/
inductive WriterPc where
  | idle
  /-- before `sem_wait`, in it, and before `tty_fifo_put` -/
  | wait (c : UInt8) (rest : List UInt8)
  | blocked (c : UInt8) (rest : List UInt8)
  | put (c : UInt8) (rest : List UInt8)
  /-- in `tty_write` or `com_esc`: before `tty_fifo_get`, and before
  `sem_notify` -/
  | get (p : Parse)
  | notify (p : Parse) (c : UInt8)

namespace WriterPc

/-- Has passed `sem_wait` and not put its byte. -/
def passed : WriterPc → Bool
  | put .. => true
  | _ => false

/-- Has taken a byte and not given back the credit. -/
def notifying : WriterPc → Bool
  | notify .. => true
  | _ => false

def isBlocked : WriterPc → Bool
  | blocked .. => true
  | _ => false

/-- What `sem_notify` does to the task that it lets go. -/
def release : WriterPc → WriterPc
  | blocked c rest => put c rest
  | pc => pc

/-- The loop of `dev_tty_write` with the bytes that are left, or
`tty_write` without any. -/
def loop : List UInt8 → WriterPc
  | [] => get .text
  | c :: rest => wait c rest

end WriterPc

/-- The output queue, its semaphore, the tasks, and the bytes that were
put and drained. -/
structure OutState (T : Type) where
  ofifo : TtyFifo
  osem : Sem T
  pc : T → WriterPc
  queued : List UInt8
  drained : List UInt8

inductive OutAction (T : Type) where
  | call (t : T) (buf : List UInt8)
  | step (t : T)

namespace OutState

variable {T : Type} [DecidableEq T]

def goto (s : OutState T) (t : T) (pc : WriterPc) : OutState T :=
  { s with pc := Function.update s.pc t pc }

/-- `dev_tty_open`. -/
def devTtyOpen (buf : Nat → UInt8) : OutState T where
  ofifo := ttyFifoInit buf ttyObufSize
  osem := { counter := Int32.ofNat ttyObufSize, waiting := [] }
  pc := fun _ => .idle
  queued := []
  drained := []

/-- `dev_tty_write` is called. -/
def devTtyWrite (s : OutState T) (t : T) : List UInt8 → OutState T
  | [] => s
  | c :: rest => s.goto t (.wait c rest)

/-- `sem_wait(&tty->osem)`. -/
def stepWait (s : OutState T) (t : T) (c : UInt8) (rest : List UInt8) : OutState T :=
  { s.goto t (if (s.osem.wait t).2 then .put c rest else .blocked c rest) with
    osem := (s.osem.wait t).1 }

/-- `tty_fifo_put(&tty->ofifo, c)`. -/
def stepPut (s : OutState T) (t : T) (c : UInt8) (rest : List UInt8) : OutState T :=
  match ttyFifoPut s.ofifo c with
  | none => s.goto t (.get .text)
  | some ofifo => { s.goto t (.loop rest) with ofifo, queued := s.queued ++ [c] }

/-- `tty_fifo_get(&tty->ofifo, &c)`. -/
def stepGet (s : OutState T) (t : T) (p : Parse) : OutState T :=
  match ttyFifoGet s.ofifo with
  | none => s.goto t (match p.starve with
      | none => .idle
      | some (p', _) => .get p')
  | some (ofifo, c) => { s.goto t (.notify p c) with ofifo, drained := s.drained ++ [c] }

/-- `sem_notify(&tty->osem)`. -/
def stepNotify (s : OutState T) (t : T) (p : Parse) (c : UInt8) : OutState T :=
  let s' := { s.goto t (.get (p.feed c).1) with osem := s.osem.notify.1 }
  match s.osem.notify.2 with
  | none => s'
  | some u => s'.goto u (s'.pc u).release

/-- A task that is not in `dev_tty_write` calls it, or one that is and does
not wait goes on. Other steps there are none. -/
def step (s : OutState T) : OutAction T → Option (OutState T)
  | .call t buf =>
      match s.pc t with
      | .idle => some (s.devTtyWrite t buf)
      | _ => none
  | .step t =>
      match s.pc t with
      | .idle | .blocked .. => none
      | .wait c rest => some (s.stepWait t c rest)
      | .put c rest => some (s.stepPut t c rest)
      -- the loop of `com_esc` that goes round for ever
      | .get .stuck => some s
      | .get p => some (s.stepGet t p)
      | .notify p c => some (s.stepNotify t p c)

/-- The law, for the tasks that have passed `sem_wait` and those that are
about to give back a credit. -/
structure OutLaw (s : OutState T) (ps ns : Finset T) : Prop where
  passed : Census ps WriterPc.passed s.pc
  notifying : Census ns WriterPc.notifying s.pc
  /-- every place in the queue is accounted for -/
  credit : s.osem.counter.toInt + s.ofifo.count + ps.card + ns.card = ttyObufSize
  /-- who has passed can put -/
  room : ∀ t c rest, s.pc t = .put c rest → (ttyFifoPut s.ofifo c).isSome
  /-- nothing is lost, and the order is kept -/
  order : ∃ cs, s.ofifo.Holds cs ∧ s.queued = s.drained ++ cs

/-! ## The invariant -/

structure OutInv (s : OutState T) (ps ns : Finset T) (cs : List UInt8) : Prop where
  passed : Census ps WriterPc.passed s.pc
  notifying : Census ns WriterPc.notifying s.pc
  credit : s.osem.counter.toInt + cs.length + ps.card + ns.card = 512
  holds : s.ofifo.Holds cs
  size : s.ofifo.size = 512
  order : s.queued = s.drained ++ cs
  sem : s.osem.Ok
  waiters : Waiters s.osem.waiting WriterPc.isBlocked s.pc

variable {s : OutState T} {ps ns : Finset T} {cs : List UInt8} {t : T}

omit [DecidableEq T] in
theorem OutInv.law (h : OutInv s ps ns cs) : OutLaw s ps ns := by
  refine ⟨h.passed, h.notifying, ?_, fun t c rest ht => ?_, cs, h.holds, h.order⟩
  · rw [h.holds.count]
    exact h.credit
  · have hpos := h.passed.card_pos (t := t) (by rw [ht]; rfl)
    have hcredit := h.credit
    have hn := h.sem.nonneg
    have hsize := h.size
    obtain ⟨fifo', hput, -, -⟩ := h.holds.put (c := c) (by omega)
    rw [hput]
    rfl

/-- A task moves between places where it does not wait. -/
theorem OutInv.move (h : OutInv s ps ns cs) (pc : WriterPc) (hb : (s.pc t).isBlocked = false)
    (hb' : pc.isBlocked = false) :
    ∃ ps' ns', Census ps' WriterPc.passed (s.goto t pc).pc
      ∧ Census ns' WriterPc.notifying (s.goto t pc).pc
      ∧ Waiters s.osem.waiting WriterPc.isBlocked (s.goto t pc).pc
      ∧ ps'.card + (s.pc t).passed.toNat = ps.card + pc.passed.toNat
      ∧ ns'.card + (s.pc t).notifying.toNat = ns.card + pc.notifying.toNat := by
  obtain ⟨ps', hps, hpc⟩ := h.passed.move t pc
  obtain ⟨ns', hns, hnc⟩ := h.notifying.move t pc
  exact ⟨ps', ns', hps, hns, h.waiters.move hb hb', hpc, hnc⟩

/-- A step that only moves one task, between places that do not count. -/
theorem OutInv.goto (h : OutInv s ps ns cs) (pc : WriterPc)
    (hp : (s.pc t).passed = pc.passed) (hn : (s.pc t).notifying = pc.notifying)
    (hb : (s.pc t).isBlocked = false) (hb' : pc.isBlocked = false) :
    ∃ ps' ns', OutInv (s.goto t pc) ps' ns' cs := by
  obtain ⟨ps', ns', hps, hns, hw, hpc, hnc⟩ := h.move pc hb hb'
  have hcredit := h.credit
  rw [hp] at hpc
  rw [hn] at hnc
  refine ⟨ps', ns', { h with
    passed := hps
    notifying := hns
    credit := ?_
    waiters := hw }⟩
  change s.osem.counter.toInt + _ + _ + _ = _
  omega

/-! ## The steps -/

theorem OutInv.devTtyWrite (h : OutInv s ps ns cs) (buf : List UInt8) (ht : s.pc t = .idle) :
    ∃ ps' ns', OutInv (s.devTtyWrite t buf) ps' ns' cs := by
  cases buf with
  | nil => exact ⟨ps, ns, h⟩
  | cons c rest => exact h.goto _ (by rw [ht]; rfl) (by rw [ht]; rfl) (by rw [ht]; rfl) rfl

theorem OutInv.stepWait {c : UInt8} {rest : List UInt8} (h : OutInv s ps ns cs)
    (ht : s.pc t = .wait c rest) : ∃ ps' ns', OutInv (s.stepWait t c rest) ps' ns' cs := by
  have hcredit := h.credit
  have hsem := h.sem.wait (t := t)
  unfold OutState.stepWait
  by_cases hpos : 0 < s.osem.counter.toInt
  · rw [Sem.wait_of_pos hpos] at hsem ⊢
    obtain ⟨ps', ns', hps, hns, hw, hpc, hnc⟩ :=
      h.move (t := t) (.put c rest) (by rw [ht]; rfl) rfl
    rw [ht] at hpc hnc
    have hone := toInt_sub_one hpos
    refine ⟨ps', ns', { h with
      passed := hps
      notifying := hns
      credit := ?_
      sem := hsem
      waiters := hw }⟩
    change (s.osem.counter - 1).toInt + _ + _ + _ = _
    simp only [WriterPc.passed, WriterPc.notifying, Bool.toNat_false, Bool.toNat_true] at hpc hnc
    omega
  · rw [Sem.wait_of_not_pos hpos] at hsem ⊢
    obtain ⟨ps', hps, hpc⟩ := h.passed.move t (.blocked c rest)
    obtain ⟨ns', hns, hnc⟩ := h.notifying.move t (.blocked c rest)
    rw [ht] at hpc hnc
    refine ⟨ps', ns', { h with
      passed := hps
      notifying := hns
      credit := ?_
      sem := hsem
      waiters := h.waiters.join (by rw [ht]; rfl) rfl }⟩
    change s.osem.counter.toInt + _ + _ + _ = _
    simp only [WriterPc.passed, WriterPc.notifying, Bool.toNat_false] at hpc hnc
    omega

/-- Who has passed `sem_wait` puts its byte. -/
theorem OutInv.stepPut {c : UInt8} {rest : List UInt8} (h : OutInv s ps ns cs)
    (ht : s.pc t = .put c rest) : ∃ ps' ns', OutInv (s.stepPut t c rest) ps' ns' (cs ++ [c]) := by
  have hcredit := h.credit
  have hpos := h.passed.card_pos (t := t) (by rw [ht]; rfl)
  have hn := h.sem.nonneg
  have hsize := h.size
  obtain ⟨fifo', hput, hholds, hsize'⟩ := h.holds.put (c := c) (by omega)
  have hloop : (WriterPc.loop rest).isBlocked = false ∧ (WriterPc.loop rest).passed = false
      ∧ (WriterPc.loop rest).notifying = false := by
    cases rest <;> exact ⟨rfl, rfl, rfl⟩
  obtain ⟨hb, hp, hnn⟩ := hloop
  obtain ⟨ps', ns', hps, hns, hw, hpc, hnc⟩ :=
    h.move (t := t) (.loop rest) (by rw [ht]; rfl) hb
  rw [ht, hp] at hpc
  rw [ht, hnn] at hnc
  unfold OutState.stepPut
  rw [hput]
  refine ⟨ps', ns', { h with
    passed := hps
    notifying := hns
    credit := ?_
    holds := hholds
    size := hsize'.trans hsize
    order := ?_
    waiters := hw }⟩
  · change s.osem.counter.toInt + _ + _ + _ = _
    simp only [WriterPc.passed, WriterPc.notifying, Bool.toNat_false, Bool.toNat_true] at hpc hnc
    rw [List.length_append, List.length_singleton]
    omega
  · exact (congrArg (· ++ [c]) h.order).trans (List.append_assoc _ _ _)

theorem OutInv.stepGet {p : Parse} (h : OutInv s ps ns cs) (ht : s.pc t = .get p) :
    ∃ ps' ns' cs', OutInv (s.stepGet t p) ps' ns' cs' := by
  have hcredit := h.credit
  unfold OutState.stepGet
  cases cs with
  | nil =>
      rw [h.holds.get_empty]
      cases p.starve with
      | none =>
          obtain ⟨ps', ns', h'⟩ := h.goto (t := t) .idle (by rw [ht]; rfl) (by rw [ht]; rfl)
            (by rw [ht]; rfl) rfl
          exact ⟨ps', ns', [], h'⟩
      | some r =>
          obtain ⟨ps', ns', h'⟩ := h.goto (t := t) (.get r.1) (by rw [ht]; rfl)
            (by rw [ht]; rfl) (by rw [ht]; rfl) rfl
          exact ⟨ps', ns', [], h'⟩
  | cons c cs =>
      obtain ⟨fifo', hget, hholds, hsize⟩ := h.holds.get
      obtain ⟨ps', ns', hps, hns, hw, hpc, hnc⟩ :=
        h.move (t := t) (.notify p c) (by rw [ht]; rfl) rfl
      rw [ht] at hpc hnc
      rw [hget]
      refine ⟨ps', ns', cs, { h with
        passed := hps
        notifying := hns
        credit := ?_
        holds := hholds
        size := hsize.trans h.size
        order := ?_
        waiters := hw }⟩
      · change s.osem.counter.toInt + _ + _ + _ = _
        simp only [WriterPc.passed, WriterPc.notifying, Bool.toNat_false,
          Bool.toNat_true] at hpc hnc
        rw [List.length_cons] at hcredit
        omega
      · change s.queued = (s.drained ++ [c]) ++ cs
        rw [h.order, List.append_assoc, List.singleton_append]

/-- The credit comes back: to the counter, or to the first who waits. -/
theorem OutInv.stepNotify {p : Parse} {c : UInt8} (h : OutInv s ps ns cs)
    (ht : s.pc t = .notify p c) : ∃ ps' ns', OutInv (s.stepNotify t p c) ps' ns' cs := by
  have hcredit := h.credit
  have hpos := h.notifying.card_pos (t := t) (by rw [ht]; rfl)
  have hsem := h.sem.notify (by omega)
  obtain ⟨ps', ns', hps, hns, hw, hpc, hnc⟩ :=
    h.move (t := t) (.get (p.feed c).1) (by rw [ht]; rfl) rfl
  rw [ht] at hpc hnc
  simp only [WriterPc.passed, WriterPc.notifying, Bool.toNat_false, Bool.toNat_true] at hpc hnc
  unfold OutState.stepNotify
  cases hq : s.osem.waiting with
  | nil =>
      rw [Sem.notify_nil hq] at hsem ⊢
      have hone := toInt_add_one (c := s.osem.counter) (by omega)
      refine ⟨ps', ns', { h with
        passed := hps
        notifying := hns
        credit := ?_
        sem := hsem
        waiters := hw }⟩
      change (s.osem.counter + 1).toInt + _ + _ + _ = _
      omega
  | cons u us =>
      rw [Sem.notify_cons hq] at hsem ⊢
      have hwait := h.waiters
      rw [hq] at hwait hw
      have hu := hwait.head
      have hne : u ≠ t := fun he => by
        rw [he, ht] at hu
        cases hu
      have hsame : (s.goto t (.get (p.feed c).1)).pc u = s.pc u := Function.update_of_ne hne _ _
      obtain ⟨d, rest, hd⟩ : ∃ d rest, s.pc u = .blocked d rest := by
        cases hpcu : s.pc u with
        | blocked d rest => exact ⟨d, rest, rfl⟩
        | _ =>
            rw [hpcu] at hu
            cases hu
      obtain ⟨ps'', hps', hpc'⟩ := hps.move u (.put d rest)
      obtain ⟨ns'', hns', hnc'⟩ := hns.move u (.put d rest)
      rw [hsame, hd] at hpc' hnc'
      simp only [WriterPc.passed, WriterPc.notifying, Bool.toNat_false, Bool.toNat_true]
        at hpc' hnc'
      dsimp only
      rw [hsame, hd]
      refine ⟨ps'', ns'', { h with
        passed := hps'
        notifying := hns'
        credit := ?_
        sem := hsem
        waiters := hw.leave rfl }⟩
      change s.osem.counter.toInt + _ + _ + _ = _
      omega

/-- Every step keeps the invariant. -/
theorem OutInv.step {s' : OutState T} {a : OutAction T} (h : OutInv s ps ns cs)
    (hs' : s.step a = some s') : ∃ ps' ns' cs', OutInv s' ps' ns' cs' := by
  cases a with
  | call t buf =>
      cases ht : s.pc t with
      | idle =>
          simp only [OutState.step, ht, Option.some.injEq] at hs'
          obtain ⟨ps', ns', h'⟩ := h.devTtyWrite buf ht
          exact ⟨ps', ns', cs, hs' ▸ h'⟩
      | _ =>
          simp only [OutState.step, ht] at hs'
          cases hs'
  | step t =>
      cases ht : s.pc t with
      | idle =>
          simp only [OutState.step, ht] at hs'
          cases hs'
      | blocked c rest =>
          simp only [OutState.step, ht] at hs'
          cases hs'
      | wait c rest =>
          simp only [OutState.step, ht, Option.some.injEq] at hs'
          obtain ⟨ps', ns', h'⟩ := h.stepWait ht
          exact ⟨ps', ns', cs, hs' ▸ h'⟩
      | put c rest =>
          simp only [OutState.step, ht, Option.some.injEq] at hs'
          obtain ⟨ps', ns', h'⟩ := h.stepPut ht
          exact ⟨ps', ns', cs ++ [c], hs' ▸ h'⟩
      | get p =>
          obtain ⟨ps', ns', cs', h'⟩ := h.stepGet ht
          cases p with
          | stuck =>
              simp only [OutState.step, ht, Option.some.injEq] at hs'
              exact ⟨ps, ns, cs, hs' ▸ h⟩
          | _ =>
              simp only [OutState.step, ht, Option.some.injEq] at hs'
              exact ⟨ps', ns', cs', hs' ▸ h'⟩
      | notify p c =>
          simp only [OutState.step, ht, Option.some.injEq] at hs'
          obtain ⟨ps', ns', h'⟩ := h.stepNotify ht
          exact ⟨ps', ns', cs, hs' ▸ h'⟩

/-! ## Runs -/

end OutState

end Csos
