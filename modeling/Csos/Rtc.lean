import Csos.ArpMap
import Csos.Lib.Period

/-!
# The clock interrupt (`kernel32/rtc.c`)

`handler_rtc` runs twice a second. It writes the ARP map to its sector and
lets the default interface ask for an address, each when its timer has
expired.

`netif_create` sets the period of the interface to 4, and clears the whole
interface behind that, unless it came from the disk with an address. A new
interface so has the period 0, and asks every 16 ticks.
-/

namespace Csos

open Lib

/-- What the interrupt reads of an interface. -/
structure RtcNetif where
  status : NetifStatus
  clock : FieldTimer 4

/-- `netif_create`, with the interface as `NET_INFO_SECTOR` has it. -/
def netifCreate (netif : RtcNetif) : RtcNetif :=
  let netif := { netif with clock.period := 4 }
  if netif.status ≠ .ack then { status := .down, clock := ⟨0, 0⟩ } else netif

structure Rtc where
  arpMap : ArpMap
  arpClock : FieldTimer 3
  netif : RtcNetif

/-- What happens to the ARP map and to the interface. -/
inductive RtcEvent where
  | tick
  | put (ip : IpAddr) (mac : MacAddr)
  /-- `sys_arpc` -/
  | clear
  /-- `dhcp_offer` and `dhcp_ack` set the status. -/
  | status (status : NetifStatus)
deriving DecidableEq

namespace Rtc

/-- `arp_map_init` and `netif_create`. -/
def start (arpMap : ArpMap) (netif : RtcNetif) : Rtc where
  arpMap := arpMap.arpMapInit
  arpClock := ⟨0, 4⟩
  netif := netifCreate netif

/-- `handler_rtc`, and whether it calls `dhcp_discover`. -/
def handlerRtc (s : Rtc) : Rtc × Bool :=
  let s := { s with arpClock.now := s.arpClock.now + 1 }
  let s :=
    if s.arpClock.now = s.arpClock.period then
      { s with arpMap := s.arpMap.flushArpMap, arpClock.now := 0 }
    else s
  let s := { s with netif.clock.now := s.netif.clock.now + 1 }
  if s.netif.clock.now = s.netif.clock.period then
    ({ s with netif.clock.now := 0 }, s.netif.status ≠ .ack)
  else (s, false)

def step (s : Rtc) : RtcEvent → Option Rtc
  | .tick => some s.handlerRtc.1
  | .put ip mac => some { s with arpMap := s.arpMap.putArpMap ip mac }
  | .clear => some { s with arpMap := s.arpMap.clearArpMap.flushArpMap }
  | .status status => some { s with netif.status := status }

/-- How often the interrupt came. -/
def ticks (es : List RtcEvent) : Nat := es.count .tick

/-- What `put_arp_map` needs so that the map is dirty when it has changed. -/
def Noted (s : Rtc) : RtcEvent → Prop
  | .put ip mac => s.arpMap.Noted (.put ip mac)
  | _ => True

/-! ## One tick -/

section Tick

variable {s : Rtc}

theorem handlerRtc_eq : s.handlerRtc =
    ({ arpMap := if s.arpClock.expires then s.arpMap.flushArpMap else s.arpMap
       arpClock := s.arpClock.tick
       netif := { s.netif with clock := s.netif.clock.tick } },
     s.netif.clock.expires && s.netif.status ≠ .ack) := by
  unfold handlerRtc FieldTimer.expires FieldTimer.tick
  by_cases harp : s.arpClock.now + 1 = s.arpClock.period
  all_goals by_cases hclock : s.netif.clock.now + 1 = s.netif.clock.period
  all_goals simp only [harp, hclock, if_true, if_false, decide_true, decide_false, Bool.true_and,
    Bool.false_and, Bool.false_eq_true]

/-- The timer of the ARP map goes round from 0 to 3. -/
theorem arpClock_tick {t : FieldTimer 3} (hperiod : t.period = 4) (hnow : t.now.toNat < 4) :
    t.expires = true ∧ t.tick.now.toNat = 0
      ∨ t.expires = false ∧ t.tick.now.toNat = t.now.toNat + 1 ∧ t.now.toNat + 1 < 4 := by
  have hall : ∀ now : BitVec 3, now.toNat < 4 →
      (decide (now + 1 = 4) = true ∧ (if now + 1 = 4 then (0 : BitVec 3) else now + 1).toNat = 0)
      ∨ (decide (now + 1 = 4) = false
        ∧ (if now + 1 = 4 then (0 : BitVec 3) else now + 1).toNat = now.toNat + 1
        ∧ now.toNat + 1 < 4) := by decide
  rw [FieldTimer.expires, FieldTimer.tick, hperiod]
  exact hall t.now hnow

end Tick

/-! ## The sector of the ARP map -/

section Sector

variable {m : ArpMap} {ip : IpAddr} {mac : MacAddr}

theorem flushArpMap_data : m.flushArpMap.data = m.data := by
  rw [ArpMap.flushArpMap]
  split <;> rfl

theorem putArpMap_disk : (m.putArpMap ip mac).disk = m.disk := by
  rw [ArpMap.putArpMap]
  split
  · rfl
  · split <;> rfl

theorem clearArpMap_coherent : m.clearArpMap.Coherent := fun hclean => Bool.noConfusion hclean

/-- Behind `flush_arp_map` the sector is the map. -/
theorem flushArpMap_saved (h : m.Coherent) {b : Nat} (hb : b < arpMapSize) :
    m.flushArpMap.disk b = m.flushArpMap.data b := by
  refine ArpMap.flushArpMap_coherent h ?_ b hb
  rw [ArpMap.flushArpMap]
  split
  · rfl
  case isFalse hclean => exact Bool.eq_false_of_not_eq_true hclean

end Sector

/-! ## Runs -/

/-- After the events `done`. -/
structure RtcInv (s₀ : Rtc) (done : List RtcEvent) (s : Rtc) : Prop where
  reached : run step s₀ done = some s
  clock : s.netif.clock = FieldTimer.tick^[ticks done] s₀.netif.clock
  period : s.arpClock.period = 4
  now : s.arpClock.now.toNat < 4
  coherent : s.arpMap.Coherent
  /-- Since the sector was the map, there were no more ticks than the timer shows. -/
  saved : ∃ pre post s₁, done = pre ++ post ∧ run step s₀ pre = some s₁
    ∧ ticks post ≤ s.arpClock.now.toNat ∧ ∀ b < arpMapSize, s.arpMap.disk b = s₁.arpMap.data b

section Inv

variable {s₀ s s' : Rtc} {done es : List RtcEvent} {e : RtcEvent}

theorem ticks_concat (es : List RtcEvent) (e : RtcEvent) :
    ticks (es ++ [e]) = ticks es + if e = .tick then 1 else 0 := by
  rw [ticks, List.count_append, List.count_singleton, ← ticks]
  simp only [beq_iff_eq]

variable (h : RtcInv s₀ done s)
include h

theorem RtcInv.reached_step (hstep : s.step e = some s') : run step s₀ (done ++ [e]) = some s' :=
  run_concat_eq_some.mpr ⟨s, h.reached, hstep⟩

/-- The sector stays as it is. -/
theorem RtcInv.saved_same (hdisk : s'.arpMap.disk = s.arpMap.disk)
    (hnow : s'.arpClock.now.toNat = s.arpClock.now.toNat + if e = .tick then 1 else 0) :
    ∃ pre post s₁, done ++ [e] = pre ++ post ∧ run step s₀ pre = some s₁
      ∧ ticks post ≤ s'.arpClock.now.toNat
      ∧ ∀ b < arpMapSize, s'.arpMap.disk b = s₁.arpMap.data b := by
  obtain ⟨pre, post, s₁, rfl, hpre, hticks, hsaved⟩ := h.saved
  refine ⟨pre, post ++ [e], s₁, List.append_assoc pre post [e], hpre, ?_, ?_⟩
  · rw [ticks_concat, hnow]
    exact Nat.add_le_add_right hticks _
  · rw [hdisk]
    exact hsaved

/-- The sector is written. -/
theorem RtcInv.saved_now (hstep : s.step e = some s')
    (hdisk : ∀ b < arpMapSize, s'.arpMap.disk b = s'.arpMap.data b) :
    ∃ pre post s₁, done ++ [e] = pre ++ post ∧ run step s₀ pre = some s₁
      ∧ ticks post ≤ s'.arpClock.now.toNat
      ∧ ∀ b < arpMapSize, s'.arpMap.disk b = s₁.arpMap.data b :=
  ⟨done ++ [e], [], s', (List.append_nil _).symm, h.reached_step hstep, Nat.zero_le _, hdisk⟩

theorem RtcInv.tick : RtcInv s₀ (done ++ [.tick]) s.handlerRtc.1 := by
  have hstep : s.step .tick = some s.handlerRtc.1 := rfl
  have hnow := arpClock_tick h.period h.now
  have hcount : ticks (done ++ [.tick]) = ticks done + 1 := ticks_concat done .tick
  constructor
  case reached => exact h.reached_step hstep
  case clock =>
    rw [hcount, Function.iterate_succ_apply', ← h.clock, handlerRtc_eq]
  case period =>
    rw [handlerRtc_eq]
    exact h.period
  case now =>
    rw [handlerRtc_eq]
    rcases hnow with ⟨-, hzero⟩ | ⟨-, hone, hlt⟩
    · exact hzero ▸ Nat.zero_lt_succ 3
    · exact hone ▸ hlt
  case coherent =>
    rw [handlerRtc_eq]
    dsimp only
    split
    · exact ArpMap.flushArpMap_coherent h.coherent
    · exact h.coherent
  case saved =>
    rcases hnow with ⟨hexp, -⟩ | ⟨hexp, hone, -⟩
    · refine h.saved_now hstep fun b hb => ?_
      rw [handlerRtc_eq]
      simp only [hexp, if_true]
      exact flushArpMap_saved h.coherent hb
    · refine h.saved_same ?_ ?_
      · rw [handlerRtc_eq]
        simp only [hexp, Bool.false_eq_true, if_false]
      · rw [handlerRtc_eq]
        exact hone

/-- Each event. -/
theorem RtcInv.step (hn : s.Noted e) :
    ∃ s', s.step e = some s' ∧ RtcInv s₀ (done ++ [e]) s' := by
  have hcount : e ≠ .tick → ticks (done ++ [e]) = ticks done := fun hne => by
    rw [ticks_concat, if_neg hne, Nat.add_zero]
  cases e with
  | tick => exact ⟨_, rfl, h.tick⟩
  | put ip mac =>
      refine ⟨_, rfl, h.reached_step rfl, ?_, h.period, h.now, h.coherent.put hn,
        h.saved_same putArpMap_disk rfl⟩
      rw [hcount fun he => RtcEvent.noConfusion he]
      exact h.clock
  | clear =>
      refine ⟨_, rfl, h.reached_step rfl, ?_, h.period, h.now,
        ArpMap.flushArpMap_coherent clearArpMap_coherent,
        h.saved_now rfl fun b hb => flushArpMap_saved clearArpMap_coherent hb⟩
      rw [hcount fun he => RtcEvent.noConfusion he]
      exact h.clock
  | status status =>
      refine ⟨_, rfl, h.reached_step rfl, ?_, h.period, h.now, h.coherent, h.saved_same rfl rfl⟩
      rw [hcount fun he => RtcEvent.noConfusion he]
      exact h.clock

/-- All of a run. -/
theorem RtcInv.run (hn : Always Rtc.step Noted s es) :
    ∃ s', Lib.run Rtc.step s es = some s' ∧ RtcInv s₀ (done ++ es) s' := by
  induction es generalizing done s with
  | nil => exact ⟨s, rfl, (List.append_nil done).symm ▸ h⟩
  | cons e es ih =>
      obtain ⟨s₁, h₁, hinv⟩ := h.step hn.1
      obtain ⟨s', h', hinv'⟩ := ih hinv (hn.2 s₁ h₁)
      rw [List.append_assoc, List.singleton_append] at hinv'
      exact ⟨s', by rw [run_cons, h₁, Option.bind_some, h'], hinv'⟩

end Inv

theorem start_inv (arpMap : ArpMap) (netif : RtcNetif) :
    RtcInv (start arpMap netif) [] (start arpMap netif) where
  reached := rfl
  clock := rfl
  period := rfl
  now := by
    show (0 : BitVec 3).toNat < 4
    decide
  coherent := ArpMap.arpMapInit_coherent
  saved := ⟨[], [], _, rfl, rfl, Nat.zero_le _, fun b hb => ArpMap.arpMapInit_coherent rfl b hb⟩

/-! ## The law -/

end Rtc

namespace RtcNetif

/-- The first tick at which the interface may ask: a new one has to wait
until its timer has gone round, another one goes on from the timer that
the disk has. -/
def firstTick (netif : RtcNetif) : Nat :=
  if netif.status = .ack then (3 - netif.clock.now).toNat + 1 else 16

/-- 2 seconds, or 8. -/
def askInterval (netif : RtcNetif) : Nat := if netif.status = .ack then 4 else 16

def Due (netif : RtcNetif) (k : Nat) : Prop :=
  netif.firstTick ≤ k ∧ (k - netif.firstTick) % netif.askInterval = 0

theorem netifCreate_left (netif : RtcNetif) :
    (netifCreate netif).clock.left = netif.firstTick := by
  have hall : ∀ now : BitVec 4, (4 - (now + 1)).toNat = (3 - now).toNat := by decide
  unfold netifCreate firstTick
  by_cases hack : netif.status = .ack
  · simp only [hack, ne_eq, not_true_eq_false, if_false, if_true]
    exact congrArg (· + 1) (hall netif.clock.now)
  · simp only [hack, ne_eq, not_false_eq_true, if_true, if_false]
    rfl

theorem netifCreate_interval (netif : RtcNetif) :
    (netifCreate netif).clock.interval = netif.askInterval := by
  unfold netifCreate askInterval
  by_cases hack : netif.status = .ack
  · simp only [hack, ne_eq, not_true_eq_false, if_false, if_true]
    show (4 - 1 : BitVec 4).toNat + 1 = 4
    decide
  · simp only [hack, ne_eq, not_false_eq_true, if_true, if_false]
    rfl

end RtcNetif

namespace Rtc

/-- After the events `es` since the start. -/
structure RtcLaw (arpMap : ArpMap) (netif : RtcNetif) (es : List RtcEvent) (s : Rtc) : Prop where
  /-- The sector has the map of less than four ticks ago. -/
  sector : ∃ pre post s₁, es = pre ++ post ∧ run step (start arpMap netif) pre = some s₁
    ∧ ticks post < 4 ∧ ∀ b < arpMapSize, s.arpMap.disk b = s₁.arpMap.data b
  /-- The next tick asks for an address if it is due and there is none. -/
  asks : s.handlerRtc.2 = true ↔ s.netif.status ≠ .ack ∧ netif.Due (ticks es + 1)

/-- In every order of interrupts, entries of the map and answers: a restart
finds the map of the last two seconds, and a new interface without an
address asks for one every eight. -/
theorem rtc_law (arpMap : ArpMap) (netif : RtcNetif) {es : List RtcEvent}
    (hn : Always step Noted (start arpMap netif) es) :
    ∃ s, run step (start arpMap netif) es = some s ∧ RtcLaw arpMap netif es s := by
  obtain ⟨s, hs, h⟩ := (start_inv arpMap netif).run hn
  rw [List.nil_append] at h
  refine ⟨s, hs, ?_, ?_⟩
  · obtain ⟨pre, post, s₁, hes, hpre, hticks, hsaved⟩ := h.saved
    exact ⟨pre, post, s₁, hes, hpre, Nat.lt_of_le_of_lt hticks h.now, hsaved⟩
  · rw [handlerRtc_eq, Bool.and_eq_true, decide_eq_true_iff, h.clock, FieldTimer.expires_iterate,
      and_comm]
    show _ ∧ ((netifCreate netif).clock.left ≤ _
      ∧ (_ - (netifCreate netif).clock.left) % (netifCreate netif).clock.interval = 0) ↔ _
    rw [netif.netifCreate_left, netif.netifCreate_interval]
    exact Iff.rfl

/-- A disk of zeros. -/
def blankMap : ArpMap := { data := fun _ => 0, dirty := false, disk := fun _ => 0 }

def newNetif : RtcNetif := { status := .down, clock := ⟨0, 0⟩ }

/-- A host answers, and the map is written at the fourth tick. -/
theorem rtc_law_new : ∃ s, run step (start blankMap newNetif)
      [.tick, .put (fun _ => 1) (fun _ => 2), .tick, .tick, .tick, .tick] = some s
    ∧ RtcLaw blankMap newNetif
      [.tick, .put (fun _ => 1) (fun _ => 2), .tick, .tick, .tick, .tick] s := by
  have hidx : (start blankMap newNetif).handlerRtc.1.arpMap.idx = 0 := by decide
  refine rtc_law blankMap newNetif ⟨trivial, fun s hs => ?_⟩
  obtain rfl := Option.some.inj hs
  refine ⟨Or.inr (Or.inr fun i hi => ?_), fun _ _ => ⟨trivial, fun _ _ => ⟨trivial, fun _ _ =>
    ⟨trivial, fun _ _ => ⟨trivial, fun _ _ => trivial⟩⟩⟩⟩⟩
  rw [hidx] at hi
  cases hi

end Rtc

end Csos
