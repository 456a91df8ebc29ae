import Csos.Keyboard
import Csos.Lib.Census
import Csos.Lib.Run

/-!
# Input flow control (`dev_tty_read`, `kbd.c`)

Keyboard interrupts put bytes into the input queue of the terminal in
front, and tasks in `dev_tty_read` take them out, on any of the terminals.
`isem` is meant to count the bytes that nobody has claimed yet.

Two interrupts count without a byte: a function key that brings a terminal
to the front lets one of its readers go, and `tty_put` looks at the counter
instead of the queue, so that it may find the queue full while readers that
have been let go still have to fetch.

The echo of a byte writes to the output of a terminal and is one step here;
`tty_select` changes what is on the screen and is left out.
-/

namespace Csos

open Lib

/-- A call of `dev_tty_read`: `size` bytes are still to be read of the
`asked` ones, and `got` are in `buf`. -/
structure ReadCall where
  tty : Nat
  asked : Nat
  size : Nat
  got : List UInt8
deriving DecidableEq

/-- Where a task is in `dev_tty_read`. -/
inductive ReaderPc where
  | idle
  /-- before `sem_wait`, in it, and before `tty_fifo_get` -/
  | wait (r : ReadCall)
  | blocked (r : ReadCall)
  | fetch (r : ReadCall)
  /-- in the `dev_tty_write` of the echo -/
  | echo (r : ReadCall) (ch : UInt8)
  | returned (r : ReadCall)
deriving DecidableEq

namespace ReaderPc

/-- Has been let go by `isem` of the terminal and has not fetched yet. -/
def released (tty : Nat) : ReaderPc → Bool
  | fetch r => r.tty = tty
  | _ => false

def isBlocked (tty : Nat) : ReaderPc → Bool
  | blocked r => r.tty = tty
  | _ => false

/-- What `sem_notify` does to the task that it lets go. -/
def release : ReaderPc → ReaderPc
  | blocked r => fetch r
  | pc => pc

/-- The `while (size)`. -/
def loop (r : ReadCall) : ReaderPc := if r.size = 0 then returned r else wait r

/-- The task reads from the terminal. -/
def Reads (tty : Nat) : ReaderPc → Prop
  | idle => False
  | wait r | blocked r | fetch r | echo r _ | returned r => r.tty = tty

/-- The bytes that are read and those that are still to be read are the
ones that were asked for. -/
def Sound : ReaderPc → Prop
  | idle => True
  | wait r | blocked r | fetch r => r.got.length + r.size = r.asked ∧ 0 < r.size
  | echo r _ => r.got.length + r.size = r.asked
  | returned r => r.got.length = r.asked

theorem sound_loop {r : ReadCall} (h : r.got.length + r.size = r.asked) : (loop r).Sound := by
  unfold loop
  split
  case isTrue hz =>
    rw [hz] at h
    exact h
  case isFalse hz => exact ⟨h, Nat.pos_of_ne_zero hz⟩

@[simp] theorem loop_released {r : ReadCall} {n : Nat} : (loop r).released n = false := by
  unfold loop
  split <;> rfl

@[simp] theorem loop_isBlocked {r : ReadCall} {n : Nat} : (loop r).isBlocked n = false := by
  unfold loop
  split <;> rfl

theorem eq_blocked {pc : ReaderPc} {n : Nat} (h : pc.isBlocked n = true) :
    ∃ r, pc = blocked r ∧ r.tty = n := by
  cases pc with
  | blocked r => exact ⟨r, rfl, of_decide_eq_true h⟩
  | _ => cases h

end ReaderPc

/-- The terminals, the keyboard and the tasks, and for each terminal the
bytes that were put into its input queue and taken from it. -/
structure InputState (T : Type) where
  ttys : Nat → TtyT T
  ks : KeyState
  ttyNow : Nat
  pc : T → ReaderPc
  queued : Nat → List UInt8
  taken : Nat → List UInt8

inductive InputAction (T : Type) where
  | kbd (rc : UInt8)
  | call (t : T) (tty size : Nat)
  | step (t : T)

namespace InputState

variable {T : Type} [DecidableEq T]

def setTty (s : InputState T) (n : Nat) (tty : TtyT T) : InputState T :=
  { s with ttys := Function.update s.ttys n tty }

def goto (s : InputState T) (t : T) (pc : ReaderPc) : InputState T :=
  { s with pc := Function.update s.pc t pc }

/-- Nothing has been opened yet. -/
def boot : InputState T where
  ttys := fun _ => {
    ofifo := ttyFifoInit (fun _ => 0) 0
    ififo := ttyFifoInit (fun _ => 0) 0
    osem := { counter := 0, waiting := [] }
    isem := { counter := 0, waiting := [] }
    iecho := false
    terminalIndex := 0
    cursor := ⟨0, 0, false, false, false, false⟩ }
  ks := ⟨false, false, false, false, false, false, false, false⟩
  ttyNow := 0
  pc := fun _ => .idle
  queued := fun _ => []
  taken := fun _ => []

/-- `dev_tty_open` of the terminal `n`. -/
def devTtyOpen (s : InputState T) (n : Nat) (ibuf obuf : Nat → UInt8) : InputState T :=
  { s.setTty n {
      ofifo := ttyFifoInit obuf ttyObufSize
      ififo := ttyFifoInit ibuf ttyIbufSize
      osem := { counter := Int32.ofNat ttyObufSize, waiting := [] }
      isem := { counter := 0, waiting := [] }
      iecho := true
      terminalIndex := Int32.ofNat n
      cursor := { (s.ttys n).cursor with
        total := 0, current := 0, canBackspace := false, canLeft := false, canRight := false } } with
    queued := Function.update s.queued n []
    taken := Function.update s.taken n [] }

/-! ## The keyboard -/

/-- `sem_notify(&ttys[n].isem)`. -/
def notifyIsem (s : InputState T) (n : Nat) : InputState T :=
  let s' := s.setTty n { s.ttys n with isem := (s.ttys n).isem.notify.1 }
  match (s.ttys n).isem.notify.2 with
  | none => s'
  | some u => s'.goto u (s'.pc u).release

/-- `tty_fifo_put(&tty->ififo, ch)`, whose result nobody looks at. -/
def putIfifo (s : InputState T) (n : Nat) (ch : UInt8) : InputState T :=
  match ttyFifoPut (s.ttys n).ififo ch with
  | none => s
  | some ififo =>
      { s.setTty n { s.ttys n with ififo } with
        queued := Function.update s.queued n (s.queued n ++ [ch]) }

/-- The terminal in front takes no more characters. -/
def Refuses (s : InputState T) : Prop :=
  (s.ttys s.ttyNow).isem.counter.toUInt32 ≥ UInt32.ofNat ttyIbufSize

instance (s : InputState T) : Decidable s.Refuses := inferInstanceAs (Decidable (_ ≥ _))

def ttyPut (s : InputState T) (ch : UInt8) : InputState T :=
  if s.Refuses then s
  else
    let tty := s.ttys s.ttyNow
    let s := s.setTty s.ttyNow { tty with cursor := tty.cursor.typed s.ks ch }
    (s.putIfifo s.ttyNow ch).notifyIsem s.ttyNow

def handleFx (s : InputState T) (key : UInt8) : InputState T :=
  let index := (key - keyF1).toNat
  let s := if index ≠ s.ttyNow then { s with ttyNow := index } else s
  s.notifyIsem s.ttyNow

def handleNormalKey (past : UInt8 → KeyMap) (s : InputState T) (rc : UInt8) : InputState T :=
  let s := if rc = keyE0 then { s with ks := { s.ks with e0 := true } } else s
  let isMake := makeCode rc
  let key := keyCode rc
  match keyCase key with
  | .fx => s.handleFx key
  | .log => s
  | .arrow =>
      if isMake && s.ks.e0 then
        let s := s.ttyPut key
        { s with ks := { s.ks with e0 := false } }
      else s
  | .plain ch => if isMake then s.ttyPut ch else s
  | .caps => if isMake then { s with ks := { s.ks with capsLock := !s.ks.capsLock } } else s
  | .ctrl =>
      if s.ks.e0 then { s with ks := { s.ks with rpCtrl := isMake, e0 := false } }
      else { s with ks := { s.ks with lpCtrl := isMake } }
  | .alt =>
      if s.ks.e0 then { s with ks := { s.ks with rpAlt := isMake, e0 := false } }
      else { s with ks := { s.ks with lpAlt := isMake } }
  | .leftShift => { s with ks := { s.ks with lpShift := isMake } }
  | .rightShift => { s with ks := { s.ks with rpShift := isMake } }
  | .default => if isMake then s.ttyPut (s.ks.char past key) else s

/-! ## The readers -/

/-- `dev_tty_read` is called. -/
def devTtyRead (s : InputState T) (t : T) (tty size : Nat) : InputState T :=
  if size = 0 then s else s.goto t (.wait { tty, asked := size, size, got := [] })

/-- `sem_wait(&tty->isem)`. -/
def stepWait (s : InputState T) (t : T) (r : ReadCall) : InputState T :=
  let tty := s.ttys r.tty
  (s.setTty r.tty { tty with isem := (tty.isem.wait t).1 }).goto t
    (if (tty.isem.wait t).2 then .fetch r else .blocked r)

/-- `tty_fifo_get(&tty->ififo, &ch)`. -/
def stepFetch (s : InputState T) (t : T) (r : ReadCall) : InputState T :=
  let tty := s.ttys r.tty
  match ttyFifoGet tty.ififo with
  | none => s.goto t (.returned r)
  | some (ififo, ch) =>
      let r' := { r with size := r.size - 1, got := r.got ++ [ch] }
      { (s.setTty r.tty { tty with ififo }).goto t
          (if tty.iecho then .echo r' ch else .loop r') with
        taken := Function.update s.taken r.tty (s.taken r.tty ++ [ch]) }

/-- A byte comes from the keyboard, a task that is not in `dev_tty_read`
calls it, or one that is and does not wait goes on. -/
def step (past : UInt8 → KeyMap) (s : InputState T) : InputAction T → Option (InputState T)
  | .kbd rc => some (s.handleNormalKey past rc)
  | .call t tty size =>
      match s.pc t with
      | .idle => some (s.devTtyRead t tty size)
      | _ => none
  | .step t =>
      match s.pc t with
      | .idle | .blocked _ => none
      | .wait r => some (s.stepWait t r)
      | .fetch r => some (s.stepFetch t r)
      | .echo r _ => some (s.goto t (.loop r))
      | .returned _ => some (s.goto t .idle)

/-! ## The law -/

/-- The law of the terminal `n`, for the readers that `isem` has let go. -/
structure InLaw (s : InputState T) (n : Nat) (rs : Finset T) : Prop where
  released : Census rs (ReaderPc.released n) s.pc
  credit : (s.ttys n).isem.counter.toInt + rs.card = (s.ttys n).ififo.count
  /-- who has been let go finds a byte -/
  finds : ∀ t r, s.pc t = .fetch r → r.tty = n → (ttyFifoGet (s.ttys n).ififo).isSome
  /-- who returns has all its bytes -/
  delivered : ∀ t r, s.pc t = .returned r → r.tty = n → r.got.length = r.asked
  /-- nothing is lost, and the order is kept -/
  order : ∃ cs, (s.ttys n).ififo.Holds cs ∧ s.queued n = s.taken n ++ cs

/-- Nobody reads from the terminal `n`, and the readers of the others are
where the queues of `isem` say. -/
structure Unread (s : InputState T) (n : Nat) : Prop where
  waiters : ∀ m, Waiters (s.ttys m).isem.waiting (ReaderPc.isBlocked m) s.pc
  none : ∀ t, ¬ (s.pc t).Reads n

/-- The step counts a byte of the terminal `n` only when it puts one. -/
def Meets (past : UInt8 → KeyMap) (n : Nat) (s : InputState T) : InputAction T → Prop
  | .kbd rc =>
      match keyEffect past s.ks rc with
      | .nothing => True
      | .put _ => s.ttyNow = n → s.Refuses ∨ (s.ttys n).ififo.count < ttyIbufSize
      | .front index => index ≠ n
  | .call .. | .step _ => True

/-! ## The invariant -/

/-- `d` bytes are in the queue that `isem` has not been told of. -/
structure InInv (s : InputState T) (n : Nat) (d : Int) (rs : Finset T) (cs : List UInt8) :
    Prop where
  released : Census rs (ReaderPc.released n) s.pc
  credit : (s.ttys n).isem.counter.toInt + rs.card + d = cs.length
  holds : (s.ttys n).ififo.Holds cs
  size : (s.ttys n).ififo.size = 512
  order : s.queued n = s.taken n ++ cs
  sem : (s.ttys n).isem.Ok
  waiters : ∀ m, Waiters (s.ttys m).isem.waiting (ReaderPc.isBlocked m) s.pc
  sound : ∀ t, (s.pc t).Reads n → (s.pc t).Sound

variable {s s' : InputState T} {n m : Nat} {d : Int} {rs : Finset T} {cs : List UInt8} {t : T}

omit [DecidableEq T] in
theorem InInv.law (h : InInv s n 0 rs cs) : InLaw s n rs := by
  refine ⟨h.released, ?_, fun t r ht hr => ?_, fun t r ht hr => ?_, cs, h.holds, h.order⟩
  · rw [h.holds.count]
    exact (Int.add_zero _).symm.trans h.credit
  · have hpos := h.released.card_pos (t := t) (by rw [ht]; exact decide_eq_true hr)
    have hcredit := h.credit
    have hn := h.sem.nonneg
    have hholds := h.holds
    cases cs with
    | nil =>
        rw [List.length_nil] at hcredit
        omega
    | cons c cs =>
        obtain ⟨fifo', hget, -, -⟩ := hholds.get
        rw [hget]
        rfl
  · have hsound := h.sound t
    rw [ht] at hsound
    exact hsound hr

omit [DecidableEq T] in
/-- A token without a byte breaks the law. -/
theorem InInv.not_law (h : InInv s n (-1) rs cs) : ¬ ∃ rs, InLaw s n rs := by
  rintro ⟨rs', hlaw⟩
  have hcredit := h.credit
  have hlaw' := hlaw.credit
  rw [hlaw.released.unique h.released, h.holds.count] at hlaw'
  omega

omit [DecidableEq T] in
/-- The counter does not overflow. -/
theorem InInv.counter_lt (h : InInv s n d rs cs) (hd : 0 ≤ d) :
    (s.ttys n).isem.counter.toInt < 2147483647 := by
  have hcredit := h.credit
  have hfits := h.holds.ring.fits
  have hsize := h.size
  omega

omit [DecidableEq T] in
/-- `dev_tty_open`. -/
theorem inInv_open (h : s.Unread n) (ibuf obuf : Nat → UInt8) :
    InInv (s.devTtyOpen n ibuf obuf) n 0 ∅ [] := by
  have htty : (s.devTtyOpen n ibuf obuf).ttys n = _ := Function.update_self n _ _
  have hnone : ∀ t (pc : ReaderPc), s.pc t = pc → ¬ pc.Reads n := fun t pc he => he ▸ h.none t
  refine ⟨Census.empty fun t => ?_, ?_, ?_, ?_, ?_, ?_, fun m => ?_, fun t ht => ?_⟩
  · change (s.pc t).released n = false
    cases ht : s.pc t with
    | fetch r => exact decide_eq_false (hnone t _ ht)
    | _ => rfl
  · rw [htty]
    rfl
  · rw [htty]
    exact TtyFifo.holds_init (by decide)
  · rw [htty]
    rfl
  · change Function.update s.queued n [] n = Function.update s.taken n [] n ++ []
    rw [Function.update_self, Function.update_self]
    rfl
  · rw [htty]
    exact ⟨Int.le_refl 0, fun hne => absurd rfl hne⟩
  · by_cases hm : m = n
    · subst hm
      rw [htty]
      refine Waiters.empty fun t => ?_
      change (s.pc t).isBlocked m = false
      cases ht : s.pc t with
      | blocked r => exact decide_eq_false (hnone t _ ht)
      | _ => rfl
    · have hother : (s.devTtyOpen n ibuf obuf).ttys m = s.ttys m := Function.update_of_ne hm _ _
      rw [hother]
      exact h.waiters m
  · exact absurd ht (h.none t)

omit [DecidableEq T] in
/-- What else there is in the state does not matter. -/
theorem InInv.congr (h : InInv s n d rs cs) (hpc : s'.pc = s.pc)
    (hfifo : (s'.ttys n).ififo = (s.ttys n).ififo) (hsem : ∀ m, (s'.ttys m).isem = (s.ttys m).isem)
    (hq : s'.queued n = s.queued n) (ht : s'.taken n = s.taken n) : InInv s' n d rs cs where
  released := hpc ▸ h.released
  credit := by
    rw [hsem n]
    exact h.credit
  holds := hfifo ▸ h.holds
  size := hfifo ▸ h.size
  order := by
    rw [hq, ht]
    exact h.order
  sem := hsem n ▸ h.sem
  waiters := fun m => by
    rw [hsem m, hpc]
    exact h.waiters m
  sound := hpc ▸ h.sound

/-- A task moves between places where it does not wait. -/
theorem InInv.move (h : InInv s n d rs cs) (pc : ReaderPc)
    (hb : ∀ m, (s.pc t).isBlocked m = false) (hb' : ∀ m, pc.isBlocked m = false)
    (hsound : pc.Reads n → pc.Sound) :
    ∃ rs', Census rs' (ReaderPc.released n) (s.goto t pc).pc
      ∧ (∀ m, Waiters (s.ttys m).isem.waiting (ReaderPc.isBlocked m) (s.goto t pc).pc)
      ∧ (∀ u, ((s.goto t pc).pc u).Reads n → ((s.goto t pc).pc u).Sound)
      ∧ rs'.card + ((s.pc t).released n).toNat = rs.card + (pc.released n).toNat := by
  obtain ⟨rs', hrs, hc⟩ := h.released.move t pc
  refine ⟨rs', hrs, fun m => (h.waiters m).move (hb m) (hb' m), fun u => ?_, hc⟩
  change (Function.update s.pc t pc u).Reads n → (Function.update s.pc t pc u).Sound
  by_cases hu : u = t
  · rw [hu, Function.update_self]
    exact hsound
  · rw [Function.update_of_ne hu]
    exact h.sound u

/-- A step that only moves a task that has not been let go. -/
theorem InInv.goto (h : InInv s n d rs cs) (pc : ReaderPc)
    (hb : ∀ m, (s.pc t).isBlocked m = false) (hb' : ∀ m, pc.isBlocked m = false)
    (hr : (s.pc t).released n = false) (hr' : pc.released n = false)
    (hsound : pc.Reads n → pc.Sound) : ∃ rs', InInv (s.goto t pc) n d rs' cs := by
  obtain ⟨rs', hrs, hw, hs, hc⟩ := h.move pc hb hb' hsound
  have hcredit := h.credit
  rw [hr, hr'] at hc
  refine ⟨rs', { h with released := hrs, credit := ?_, waiters := hw, sound := hs }⟩
  change (s.ttys n).isem.counter.toInt + _ + _ = _
  simp only [Bool.toNat_false] at hc
  omega

omit [DecidableEq T] in
/-- One `isem` changes, and the places of the tasks with it. -/
theorem InInv.setIsem {sem : Sem T} {d' : Int} {rs' : Finset T} (h : InInv s n d rs cs)
    (htty : s'.ttys = Function.update s.ttys m { s.ttys m with isem := sem })
    (hq : s'.queued n = s.queued n) (ht : s'.taken n = s.taken n)
    (hrs : Census rs' (ReaderPc.released n) s'.pc)
    (hw : Waiters sem.waiting (ReaderPc.isBlocked m) s'.pc)
    (hother : ∀ k, k ≠ m → Waiters (s.ttys k).isem.waiting (ReaderPc.isBlocked k) s'.pc)
    (hok : m = n → sem.Ok)
    (hcredit : (if m = n then sem else (s.ttys n).isem).counter.toInt + rs'.card + d' = cs.length)
    (hsound : ∀ t, (s'.pc t).Reads n → (s'.pc t).Sound) : InInv s' n d' rs' cs := by
  have hself : s'.ttys m = { s.ttys m with isem := sem } := by rw [htty, Function.update_self]
  have hne : ∀ k, k ≠ m → s'.ttys k = s.ttys k := fun k hk => by
    rw [htty, Function.update_of_ne hk]
  have hfifo : (s'.ttys n).ififo = (s.ttys n).ififo := by
    by_cases hm : n = m
    · rw [hm, hself]
    · rw [hne n hm]
  have hisem : (s'.ttys n).isem = if m = n then sem else (s.ttys n).isem := by
    by_cases hm : m = n
    · rw [if_pos hm, ← hm, hself]
    · rw [if_neg hm, hne n (Ne.symm hm)]
  refine ⟨hrs, hisem ▸ hcredit, hfifo ▸ h.holds, hfifo ▸ h.size, ?_, ?_, fun k => ?_, hsound⟩
  · rw [hq, ht]
    exact h.order
  · rw [hisem]
    split
    case isTrue hm => exact hok hm
    case isFalse => exact h.sem
  · by_cases hk : k = m
    · rw [hk, hself]
      exact hw
    · rw [hne k hk]
      exact hother k hk

/-! ## The keyboard -/

/-- A token: one byte more that `isem` has been told of. -/
theorem InInv.notifyIsem (h : InInv s n d rs cs) (hd : 0 ≤ d) (m : Nat) :
    ∃ rs', InInv (s.notifyIsem m) n (if m = n then d - 1 else d) rs' cs := by
  have hcredit := h.credit
  have hlt := h.counter_lt hd
  have hwait := h.waiters m
  have hok : m = n → (s.ttys m).isem.notify.1.Ok := fun hm => hm ▸ h.sem.notify hlt
  unfold InputState.notifyIsem
  cases hq : (s.ttys m).isem.waiting with
  | nil =>
      rw [Sem.notify_nil hq] at hok ⊢
      refine ⟨rs, h.setIsem rfl rfl rfl h.released hwait (fun k _ => h.waiters k) hok ?_ h.sound⟩
      by_cases hm : m = n
      · rw [if_pos hm, if_pos hm, hm, toInt_add_one hlt]
        omega
      · rw [if_neg hm, if_neg hm]
        exact hcredit
  | cons u us =>
      rw [hq] at hwait
      rw [Sem.notify_cons hq] at hok ⊢
      obtain ⟨r, hpc, hr⟩ := ReaderPc.eq_blocked hwait.head
      obtain ⟨rs', hrs, hc⟩ := h.released.move u (.fetch r)
      rw [hpc] at hc
      have hsound := h.sound u
      rw [hpc] at hsound
      have hrel : (s.setTty m { s.ttys m with isem := { (s.ttys m).isem with waiting := us } }).pc u
          = .blocked r := hpc
      dsimp only
      rw [hrel]
      refine ⟨rs', h.setIsem rfl rfl rfl hrs (hwait.leave rfl) (fun k hk => ?_) hok ?_
        fun v => ?_⟩
      · refine (h.waiters k).move ?_ rfl
        rw [hpc]
        exact decide_eq_false fun he => hk (he.symm.trans hr)
      · by_cases hm : m = n
        · have hrel' : (ReaderPc.fetch r).released n = true := decide_eq_true (hr.trans hm)
          rw [hrel'] at hc
          simp only [ReaderPc.released, Bool.toNat_false, Bool.toNat_true] at hc
          rw [if_pos hm, if_pos hm, hm]
          change (s.ttys n).isem.counter.toInt + _ + (d - 1) = _
          omega
        · have hrel' : (ReaderPc.fetch r).released n = false :=
            decide_eq_false fun he => hm (hr.symm.trans he)
          rw [hrel'] at hc
          simp only [ReaderPc.released, Bool.toNat_false] at hc
          rw [if_neg hm, if_neg hm]
          omega
      · change (Function.update s.pc u (.fetch r) v).Reads n →
          (Function.update s.pc u (.fetch r) v).Sound
        by_cases hv : v = u
        · rw [hv, Function.update_self]
          exact hsound
        · rw [Function.update_of_ne hv]
          exact h.sound v

omit [DecidableEq T] in
theorem InInv.setKs (h : InInv s n d rs cs) (ks : KeyState) : InInv { s with ks } n d rs cs :=
  h.congr rfl rfl (fun _ => rfl) rfl rfl

omit [DecidableEq T] in
/-- One terminal changes, but its `isem` does not. -/
theorem setTty_isem (tty : TtyT T) (h : tty.isem = (s.ttys m).isem) (k : Nat) :
    ((s.setTty m tty).ttys k).isem = (s.ttys k).isem := by
  change (Function.update s.ttys m tty k).isem = _
  by_cases hk : k = m
  · rw [hk, Function.update_self, h]
  · rw [Function.update_of_ne hk]

omit [DecidableEq T] in
theorem setTty_self (tty : TtyT T) : (s.setTty n tty).ttys n = tty := by
  change Function.update s.ttys n tty n = tty
  exact Function.update_self n tty s.ttys

omit [DecidableEq T] in
theorem setTty_of_ne (tty : TtyT T) (h : m ≠ n) : (s.setTty m tty).ttys n = s.ttys n :=
  Function.update_of_ne h.symm _ _

omit [DecidableEq T] in
theorem InInv.setCursor (h : InInv s n d rs cs) (m : Nat) (cursor : CursorCtrl) :
    InInv (s.setTty m { s.ttys m with cursor }) n d rs cs := by
  refine h.congr rfl ?_ (setTty_isem _ rfl) rfl rfl
  by_cases hm : m = n
  · rw [← hm, setTty_self]
  · rw [setTty_of_ne _ hm]

omit [DecidableEq T] in
/-- A byte more in the queue. -/
theorem InInv.putIfifo (h : InInv s n d rs cs) (ch : UInt8) (hroom : cs.length < 512) :
    InInv (s.putIfifo n ch) n (d + 1) rs (cs ++ [ch]) := by
  obtain ⟨fifo', hput, hholds, hsize⟩ := h.holds.put (c := ch) (by rw [h.size]; exact hroom)
  have hcredit := h.credit
  have hself := setTty_self (s := s) (n := n) { s.ttys n with ififo := fifo' }
  have hisem := setTty_isem (s := s) (m := n) { s.ttys n with ififo := fifo' } rfl
  unfold InputState.putIfifo
  rw [hput]
  refine ⟨h.released, ?_, ?_, ?_, ?_, ?_, fun m => ?_, h.sound⟩
  · dsimp only
    rw [hisem n, List.length_append, List.length_singleton]
    omega
  · dsimp only
    rw [hself]
    exact hholds
  · dsimp only
    rw [hself]
    exact hsize.trans h.size
  · dsimp only
    rw [Function.update_self, h.order, List.append_assoc]
    rfl
  · dsimp only
    rw [hisem n]
    exact h.sem
  · dsimp only
    rw [hisem m]
    exact h.waiters m

omit [DecidableEq T] in
theorem InInv.putIfifo_full {ch : UInt8} (h : InInv s n d rs cs) (hfull : cs.length = 512) :
    s.putIfifo n ch = s := by
  unfold InputState.putIfifo
  rw [h.holds.put_full (hfull.trans h.size.symm)]

omit [DecidableEq T] in
/-- A byte for another terminal. -/
theorem InInv.putIfifo_of_ne (h : InInv s n d rs cs) (ch : UInt8) (hm : m ≠ n) :
    InInv (s.putIfifo m ch) n d rs cs := by
  unfold InputState.putIfifo
  cases ttyFifoPut (s.ttys m).ififo ch with
  | none => exact h
  | some fifo' =>
      refine h.congr rfl ?_ (setTty_isem _ rfl) (Function.update_of_ne hm.symm _ _) rfl
      exact congrArg TtyT.ififo (setTty_of_ne _ hm)

/-- `tty_put` keeps the law, unless it finds the queue full. -/
theorem InInv.ttyPut (h : InInv s n 0 rs cs) (ch : UInt8)
    (hmeets : s.ttyNow = n → s.Refuses ∨ cs.length < 512) :
    ∃ rs' cs', InInv (s.ttyPut ch) n 0 rs' cs' := by
  unfold InputState.ttyPut
  by_cases hrefuses : s.Refuses
  · rw [if_pos hrefuses]
    exact ⟨rs, cs, h⟩
  · rw [if_neg hrefuses]
    have hcursor := h.setCursor s.ttyNow ((s.ttys s.ttyNow).cursor.typed s.ks ch)
    dsimp only
    have hnow : (s.setTty s.ttyNow { s.ttys s.ttyNow with
        cursor := (s.ttys s.ttyNow).cursor.typed s.ks ch }).ttyNow = s.ttyNow := rfl
    rw [hnow]
    by_cases hn : s.ttyNow = n
    · have hroom := (hmeets hn).resolve_left hrefuses
      rw [hn] at hcursor ⊢
      obtain ⟨rs', h'⟩ := (hcursor.putIfifo ch hroom).notifyIsem (by omega) n
      rw [if_pos rfl] at h'
      exact ⟨rs', _, h'⟩
    · obtain ⟨rs', h'⟩ := (hcursor.putIfifo_of_ne ch hn).notifyIsem (by omega) s.ttyNow
      rw [if_neg hn] at h'
      exact ⟨rs', _, h'⟩

/-- A full queue: the byte is lost, but `isem` counts it. -/
theorem InInv.ttyPut_full (h : InInv s n 0 rs cs) (ch : UInt8) (hn : s.ttyNow = n)
    (hrefuses : ¬ s.Refuses) (hfull : cs.length = 512) :
    ∃ rs', InInv (s.ttyPut ch) n (-1) rs' cs := by
  have hcursor := h.setCursor s.ttyNow ((s.ttys s.ttyNow).cursor.typed s.ks ch)
  unfold InputState.ttyPut
  rw [if_neg hrefuses]
  dsimp only
  have hnow : (s.setTty s.ttyNow { s.ttys s.ttyNow with
      cursor := (s.ttys s.ttyNow).cursor.typed s.ks ch }).ttyNow = s.ttyNow := rfl
  rw [hnow]
  rw [hn] at hcursor ⊢
  rw [hcursor.putIfifo_full hfull]
  obtain ⟨rs', h'⟩ := hcursor.notifyIsem (Int.le_refl 0) n
  rw [if_pos rfl] at h'
  exact ⟨rs', h'⟩

/-- A terminal is brought to the front: one of its readers gets a token. -/
theorem InInv.handleFx (h : InInv s n 0 rs cs) (key : UInt8) :
    ∃ rs', InInv (s.handleFx key) n (if (key - keyF1).toNat = n then -1 else 0) rs' cs := by
  unfold InputState.handleFx
  by_cases hi : (key - keyF1).toNat = s.ttyNow
  · dsimp only
    rw [if_neg (not_not_intro hi), hi]
    exact h.notifyIsem (Int.le_refl 0) s.ttyNow
  · dsimp only
    rw [if_pos hi]
    have h' : InInv { s with ttyNow := (key - keyF1).toNat } n 0 rs cs :=
      h.congr rfl rfl (fun _ => rfl) rfl rfl
    exact h'.notifyIsem (Int.le_refl 0) _

/-! ## `handle_normal_key` -/

variable {past : UInt8 → KeyMap} {rc : UInt8}

/-- `handle_normal_key` does what the key asks for, and apart from that
only changes the state of the modifier keys. -/
theorem handleNormalKey_eq (s : InputState T) (past : UInt8 → KeyMap) (rc : UInt8) :
    ∃ ks₁ ks₂, s.handleNormalKey past rc =
    match keyEffect past s.ks rc with
    | .nothing => { s with ks := ks₂ }
    | .put ch => { ({ s with ks := ks₁ } : InputState T).ttyPut ch with ks := ks₂ }
    | .front _ => ({ s with ks := ks₁ } : InputState T).handleFx (keyCode rc) := by
  by_cases he : rc = keyE0
  · subst he
    exact ⟨s.ks, { s.ks with e0 := true }, rfl⟩
  · unfold handleNormalKey keyEffect
    rw [if_neg he]
    dsimp only
    cases keyCase (keyCode rc) with
    | fx => exact ⟨s.ks, s.ks, rfl⟩
    | log => exact ⟨s.ks, s.ks, rfl⟩
    | arrow =>
        cases makeCode rc && s.ks.e0 with
        | true => exact ⟨s.ks, _, rfl⟩
        | false => exact ⟨s.ks, s.ks, rfl⟩
    | plain ch =>
        cases makeCode rc with
        | true => exact ⟨s.ks, (s.ttyPut ch).ks, rfl⟩
        | false => exact ⟨s.ks, s.ks, rfl⟩
    | caps =>
        cases makeCode rc with
        | true => exact ⟨s.ks, _, rfl⟩
        | false => exact ⟨s.ks, s.ks, rfl⟩
    | ctrl =>
        cases s.ks.e0 with
        | true => exact ⟨s.ks, _, rfl⟩
        | false => exact ⟨s.ks, _, rfl⟩
    | alt =>
        cases s.ks.e0 with
        | true => exact ⟨s.ks, _, rfl⟩
        | false => exact ⟨s.ks, _, rfl⟩
    | leftShift => exact ⟨s.ks, _, rfl⟩
    | rightShift => exact ⟨s.ks, _, rfl⟩
    | default =>
        cases makeCode rc with
        | true => exact ⟨s.ks, (s.ttyPut (s.ks.char past (keyCode rc))).ks, rfl⟩
        | false => exact ⟨s.ks, s.ks, rfl⟩

theorem keyEffect_front {ks : KeyState} {i : Nat} (h : keyEffect past ks rc = .front i) :
    (keyCode rc - keyF1).toNat = i := by
  unfold keyEffect at h
  cases hc : keyCase (keyCode rc) <;> simp only [hc] at h
  case fx => exact KeyEffect.front.inj h
  case arrow => split at h <;> cases h
  case plain => split at h <;> cases h
  case default => split at h <;> cases h
  all_goals cases h

theorem InInv.handleNormalKey (h : InInv s n 0 rs cs) (hmeets : s.Meets past n (.kbd rc)) :
    ∃ rs' cs', InInv (s.handleNormalKey past rc) n 0 rs' cs' := by
  obtain ⟨ks₁, ks₂, heq⟩ := handleNormalKey_eq s past rc
  unfold Meets at hmeets
  rw [heq]
  cases hk : keyEffect past s.ks rc with
  | nothing => exact ⟨rs, cs, h.setKs ks₂⟩
  | put ch =>
      simp only [hk] at hmeets
      rw [h.holds.count] at hmeets
      obtain ⟨rs', cs', h'⟩ := (h.setKs ks₁).ttyPut ch hmeets
      exact ⟨rs', cs', h'.setKs ks₂⟩
  | front i =>
      simp only [hk] at hmeets
      obtain ⟨rs', h'⟩ := (h.setKs ks₁).handleFx (keyCode rc)
      rw [keyEffect_front hk, if_neg hmeets] at h'
      exact ⟨rs', cs, h'⟩

/-- A key that does not meet the condition breaks the law at once. -/
theorem InInv.handleNormalKey_breaks (h : InInv s n 0 rs cs)
    (hmeets : ¬ s.Meets past n (.kbd rc)) :
    ¬ ∃ rs', InLaw (s.handleNormalKey past rc) n rs' := by
  obtain ⟨ks₁, ks₂, heq⟩ := handleNormalKey_eq s past rc
  unfold Meets at hmeets
  rw [heq]
  cases hk : keyEffect past s.ks rc with
  | nothing => simp only [hk, not_true_eq_false] at hmeets
  | put ch =>
      simp only [hk, Classical.not_imp, not_or, not_lt] at hmeets
      obtain ⟨hn, hrefuses, hfull⟩ := hmeets
      have hfits := h.holds.ring.fits
      rw [h.size] at hfits
      rw [h.holds.count] at hfull
      obtain ⟨rs', h'⟩ := (h.setKs ks₁).ttyPut_full ch hn hrefuses
        (Nat.le_antisymm hfits hfull)
      exact (h'.setKs ks₂).not_law
  | front i =>
      simp only [hk, not_not] at hmeets
      obtain ⟨rs', h'⟩ := (h.setKs ks₁).handleFx (keyCode rc)
      rw [keyEffect_front hk, if_pos hmeets] at h'
      exact h'.not_law

/-! ## The readers -/

theorem InInv.devTtyRead (h : InInv s n 0 rs cs) (tty size : Nat) (ht : s.pc t = .idle) :
    ∃ rs', InInv (s.devTtyRead t tty size) n 0 rs' cs := by
  unfold InputState.devTtyRead
  split
  case isTrue => exact ⟨rs, h⟩
  case isFalse hsize =>
    refine h.goto _ (fun m => by rw [ht]; rfl) (fun _ => rfl) (by rw [ht]; rfl) rfl fun _ => ?_
    exact ⟨Nat.zero_add size, Nat.pos_of_ne_zero hsize⟩

theorem InInv.stepWait {r : ReadCall} (h : InInv s n 0 rs cs) (ht : s.pc t = .wait r) :
    ∃ rs', InInv (s.stepWait t r) n 0 rs' cs := by
  have hcredit := h.credit
  have hsound := h.sound t
  rw [ht] at hsound
  unfold InputState.stepWait
  dsimp only
  by_cases hpos : 0 < (s.ttys r.tty).isem.counter.toInt
  · obtain ⟨rs', hrs, hw, hs, hc⟩ := h.move (t := t) (.fetch r) (fun m => by rw [ht]; rfl)
      (fun _ => rfl) hsound
    have hok : r.tty = n → ((s.ttys r.tty).isem.wait t).1.Ok := fun hr => hr ▸ h.sem.wait
    rw [Sem.wait_of_pos hpos] at hok ⊢
    rw [ht] at hc
    refine ⟨rs', h.setIsem rfl rfl rfl hrs (hw r.tty) (fun k _ => hw k) hok ?_ hs⟩
    by_cases hr : r.tty = n
    · have hrel : (ReaderPc.fetch r).released n = true := decide_eq_true hr
      rw [hrel] at hc
      simp only [ReaderPc.released, Bool.toNat_false, Bool.toNat_true] at hc
      rw [if_pos hr, toInt_sub_one hpos, hr]
      omega
    · have hrel : (ReaderPc.fetch r).released n = false := decide_eq_false hr
      rw [hrel] at hc
      simp only [ReaderPc.released, Bool.toNat_false] at hc
      rw [if_neg hr]
      omega
  · obtain ⟨rs', hrs, hc⟩ := h.released.move t (.blocked r)
    have hok : r.tty = n → ((s.ttys r.tty).isem.wait t).1.Ok := fun hr => hr ▸ h.sem.wait
    rw [Sem.wait_of_not_pos hpos] at hok ⊢
    rw [ht] at hc
    simp only [ReaderPc.released, Bool.toNat_false] at hc
    refine ⟨rs', h.setIsem rfl rfl rfl hrs ?_ (fun k hk => ?_) hok ?_ fun u => ?_⟩
    · exact (h.waiters r.tty).join (by rw [ht]; rfl) (decide_eq_true rfl)
    · exact (h.waiters k).move (by rw [ht]; rfl) (decide_eq_false (Ne.symm hk))
    · by_cases hr : r.tty = n
      · rw [if_pos hr, hr]
        change (s.ttys n).isem.counter.toInt + _ + _ = _
        omega
      · rw [if_neg hr]
        omega
    · change (Function.update s.pc t (.blocked r) u).Reads n →
        (Function.update s.pc t (.blocked r) u).Sound
      by_cases hu : u = t
      · rw [hu, Function.update_self]
        exact hsound
      · rw [Function.update_of_ne hu]
        exact h.sound u

/-- Where a reader goes that has fetched the byte `ch`. -/
theorem after_fetch {r : ReadCall} (ch : UInt8) (iecho : Bool)
    (hr : r.got.length + r.size = r.asked) (hpos : 0 < r.size) :
    let r' := { r with size := r.size - 1, got := r.got ++ [ch] }
    let pc := if iecho then ReaderPc.echo r' ch else ReaderPc.loop r'
    (∀ m, pc.isBlocked m = false) ∧ (∀ m, pc.released m = false) ∧ pc.Sound := by
  have hlen : (r.got ++ [ch]).length + (r.size - 1) = r.asked := by
    rw [List.length_append, List.length_singleton]
    omega
  cases iecho with
  | true => exact ⟨fun _ => rfl, fun _ => rfl, hlen⟩
  | false => exact ⟨fun _ => ReaderPc.loop_isBlocked, fun _ => ReaderPc.loop_released,
      ReaderPc.sound_loop hlen⟩

/-- A reader of the terminal that has been let go fetches its byte. -/
theorem InInv.stepFetch {r : ReadCall} (h : InInv s n 0 rs cs) (ht : s.pc t = .fetch r)
    (hr : r.tty = n) : ∃ rs' cs', InInv (s.stepFetch t r) n 0 rs' cs' := by
  subst hr
  have hcredit := h.credit
  have hnonneg := h.sem.nonneg
  have hpos := h.released.card_pos (t := t) (by rw [ht]; exact decide_eq_true rfl)
  have hsound := h.sound t
  rw [ht] at hsound
  obtain ⟨hlen, hsize⟩ := hsound rfl
  have hholds := h.holds
  have horder := h.order
  cases cs with
  | nil =>
      rw [List.length_nil] at hcredit
      omega
  | cons ch cs =>
      obtain ⟨fifo', hget, hholds', hsize'⟩ := hholds.get
      obtain ⟨hb, hrel, hs⟩ := after_fetch ch (s.ttys r.tty).iecho hlen hsize
      obtain ⟨rs', hrs, hw, hsnd, hc⟩ := h.move (t := t) _ (fun m => by rw [ht]; rfl) hb fun _ => hs
      rw [ht, hrel r.tty] at hc
      have hfetch : (ReaderPc.fetch r).released r.tty = true := decide_eq_true rfl
      rw [hfetch, Bool.toNat_true, Bool.toNat_false] at hc
      have hself := setTty_self (s := s) (n := r.tty) { s.ttys r.tty with ififo := fifo' }
      have hisem := setTty_isem (s := s) (m := r.tty) { s.ttys r.tty with ififo := fifo' } rfl
      unfold InputState.stepFetch
      dsimp only
      rw [hget]
      refine ⟨rs', cs, hrs, ?_, ?_, ?_, ?_, ?_, fun m => ?_, hsnd⟩
      · change ((s.setTty r.tty { s.ttys r.tty with ififo := fifo' }).ttys r.tty).isem.counter.toInt
          + _ + _ = _
        rw [hisem r.tty]
        rw [List.length_cons] at hcredit
        omega
      · change ((s.setTty r.tty { s.ttys r.tty with ififo := fifo' }).ttys r.tty).ififo.Holds cs
        rw [hself]
        exact hholds'
      · change ((s.setTty r.tty { s.ttys r.tty with ififo := fifo' }).ttys r.tty).ififo.size = 512
        rw [hself]
        exact hsize'.trans h.size
      · change s.queued r.tty = Function.update s.taken r.tty (s.taken r.tty ++ [ch]) r.tty ++ cs
        rw [Function.update_self, horder, List.append_assoc, List.singleton_append]
      · change ((s.setTty r.tty { s.ttys r.tty with ififo := fifo' }).ttys r.tty).isem.Ok
        rw [hisem r.tty]
        exact h.sem
      · change Waiters
          ((s.setTty r.tty { s.ttys r.tty with ififo := fifo' }).ttys m).isem.waiting _ _
        rw [hisem m]
        exact hw m

/-- A reader of another terminal. -/
theorem InInv.stepFetch_of_ne {r : ReadCall} (h : InInv s n 0 rs cs) (ht : s.pc t = .fetch r)
    (hr : r.tty ≠ n) : ∃ rs', InInv (s.stepFetch t r) n 0 rs' cs := by
  have hrel : (s.pc t).released n = false := by
    rw [ht]
    exact decide_eq_false hr
  have hb : ∀ m, (s.pc t).isBlocked m = false := fun m => by rw [ht]; rfl
  unfold InputState.stepFetch
  dsimp only
  cases ttyFifoGet (s.ttys r.tty).ififo with
  | none => exact h.goto _ hb (fun _ => rfl) hrel rfl fun he => absurd he hr
  | some q =>
      have hother : InInv { s.setTty r.tty { s.ttys r.tty with ififo := q.1 } with
          taken := Function.update s.taken r.tty (s.taken r.tty ++ [q.2]) } n 0 rs cs :=
        h.congr rfl (congrArg TtyT.ififo (setTty_of_ne _ hr)) (setTty_isem _ rfl) rfl
          (Function.update_of_ne hr.symm _ _)
      refine hother.goto _ hb (fun m => ?_) hrel ?_ fun he => ?_
      · split
        case isTrue => rfl
        case isFalse => exact ReaderPc.loop_isBlocked
      · split
        case isTrue => rfl
        case isFalse => exact ReaderPc.loop_released
      · unfold ReaderPc.loop at he
        split at he
        case isTrue => exact absurd he hr
        case isFalse => split at he <;> exact absurd he hr

/-! ## Runs -/

/-- Every step that meets the condition keeps the invariant. -/
theorem InInv.step {a : InputAction T} (h : InInv s n 0 rs cs) (hmeets : s.Meets past n a)
    (hs' : s.step past a = some s') : ∃ rs' cs', InInv s' n 0 rs' cs' := by
  cases a with
  | kbd rc =>
      obtain rfl := Option.some.inj hs'
      exact h.handleNormalKey hmeets
  | call t tty size =>
      cases ht : s.pc t with
      | idle =>
          simp only [InputState.step, ht, Option.some.injEq] at hs'
          obtain ⟨rs', h'⟩ := h.devTtyRead tty size ht
          exact ⟨rs', cs, hs' ▸ h'⟩
      | _ =>
          simp only [InputState.step, ht] at hs'
          cases hs'
  | step t =>
      have hsound := h.sound t
      cases ht : s.pc t with
      | idle =>
          simp only [InputState.step, ht] at hs'
          cases hs'
      | blocked r =>
          simp only [InputState.step, ht] at hs'
          cases hs'
      | wait r =>
          simp only [InputState.step, ht, Option.some.injEq] at hs'
          obtain ⟨rs', h'⟩ := h.stepWait ht
          exact ⟨rs', cs, hs' ▸ h'⟩
      | fetch r =>
          simp only [InputState.step, ht, Option.some.injEq] at hs'
          by_cases hr : r.tty = n
          · obtain ⟨rs', cs', h'⟩ := h.stepFetch ht hr
            exact ⟨rs', cs', hs' ▸ h'⟩
          · obtain ⟨rs', h'⟩ := h.stepFetch_of_ne ht hr
            exact ⟨rs', cs, hs' ▸ h'⟩
      | echo r ch =>
          simp only [InputState.step, ht, Option.some.injEq] at hs'
          rw [ht] at hsound
          obtain ⟨rs', h'⟩ := h.goto (t := t) (.loop r) (fun m => by rw [ht]; rfl)
            (fun _ => ReaderPc.loop_isBlocked) (by rw [ht]; rfl) ReaderPc.loop_released
            fun hreads => ReaderPc.sound_loop (hsound (by
              unfold ReaderPc.loop at hreads
              split at hreads <;> exact hreads))
          exact ⟨rs', cs, hs' ▸ h'⟩
      | returned r =>
          simp only [InputState.step, ht, Option.some.injEq] at hs'
          obtain ⟨rs', h'⟩ := h.goto (t := t) .idle (fun m => by rw [ht]; rfl)
            (fun _ => rfl) (by rw [ht]; rfl) rfl fun hreads => absurd hreads id
          exact ⟨rs', cs, hs' ▸ h'⟩

/-- From `dev_tty_open` the law of the terminal holds all along a run
exactly when no step of it counts a byte that it does not put. -/
theorem input_law (past : UInt8 → KeyMap) (ibuf obuf : Nat → UInt8) (hs : s.Unread n)
    (as : List (InputAction T)) :
    Throughout (step past) (fun s' => ∃ rs, InLaw s' n rs) (s.devTtyOpen n ibuf obuf) as
      ↔ Always (step past) (Meets past n) (s.devTtyOpen n ibuf obuf) as := by
  refine throughout_iff_always (B := fun _ _ => True) (I := fun s' => ∃ rs cs, InInv s' n 0 rs cs)
    (fun s' h => ?_) (fun s' a s'' h _ hmeets hstep => ?_) (fun s' a h _ hmeets => ?_)
    ⟨∅, [], inInv_open hs ibuf obuf⟩ (always_of_forall fun _ _ => trivial)
  · obtain ⟨rs, cs, h⟩ := h
    exact ⟨rs, h.law⟩
  · obtain ⟨rs, cs, h⟩ := h
    exact h.step hmeets hstep
  · obtain ⟨rs, cs, h⟩ := h
    cases a with
    | kbd rc => exact ⟨_, rfl, h.handleNormalKey_breaks hmeets⟩
    | call t tty size => exact absurd trivial hmeets
    | step t => exact absurd trivial hmeets

omit [DecidableEq T] in
theorem unread_boot (n : Nat) : (boot : InputState T).Unread n where
  waiters := fun _ => Waiters.empty fun _ => rfl
  none := fun _ => id

/-- A key is typed, and a task reads it. -/
theorem input_law_typed :
    Throughout (step fun _ => ⟨0, 0⟩) (fun s' => ∃ rs, InLaw s' 0 rs)
      ((boot : InputState Unit).devTtyOpen 0 (fun _ => 0) fun _ => 0)
      [.kbd 0x1E, .call () 0 1, .step (), .step ()] := by
  refine (input_law _ _ _ (unread_boot 0) _).mpr ⟨fun _ => Or.inr (by decide), ?_⟩
  exact fun _ _ => ⟨trivial, fun _ _ => ⟨trivial, fun _ _ => ⟨trivial, fun _ _ => trivial⟩⟩⟩

/-- A task waits for a byte and F1 is pressed: the task returns without
one. -/
theorem input_law_fails :
    ¬ Throughout (step fun _ => ⟨0, 0⟩) (fun s' => ∃ rs, InLaw s' 0 rs)
      ((boot : InputState Unit).devTtyOpen 0 (fun _ => 0) fun _ => 0)
      [.call () 0 1, .step (), .kbd 0x3B, .step ()] := by
  intro h
  obtain ⟨rs, hlaw⟩ := h _ _ List.prefix_rfl rfl
  have hgot := hlaw.delivered () { tty := 0, asked := 1, size := 1, got := [] } rfl rfl
  exact absurd hgot (by decide)

end InputState

end Csos
