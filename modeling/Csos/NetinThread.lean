import Csos.Lib.Run
import Csos.Semaphore

/-!
# The receive thread (`kernel32/netx.c`)

`netin_thread`, cut into the steps between which a packet can arrive, and
`netif_input`, which is one step because it runs in the interrupt. Each
`rx_list` is a queue. The thread tests the interfaces one after the other
and sleeps when a whole round found nothing; packets that arrive behind
its back leave a token in `netin_sem`.

`counter` is an `int` that every packet raises and only a `sem_wait`
lowers. Nothing keeps it in range.
-/

namespace Csos

open Lib

/-- The queues, the semaphore, the local variables `i` and `count` of the
thread, and what was appended to and taken from each queue. -/
structure Netin (B : Type) where
  rxList : Nat → List B
  netinSem : Sem Unit
  i : Nat
  count : Nat
  appended : Nat → List B
  dequeued : Nat → List B

inductive NetinAction (B : Type) where
  | thread
  | packet (netif : Nat) (buff : B)

namespace Netin

variable {B : Type}

/-- The thread is in `sem_wait`. -/
def Blocked (s : Netin B) : Prop := s.netinSem.waiting ≠ []

instance (s : Netin B) : Decidable s.Blocked := inferInstanceAs (Decidable (_ ≠ _))

/-- The next step of `netin_thread`: one interface, or the end of a round. -/
def netinThread (netifCount : Nat) (s : Netin B) : Netin B :=
  if s.i < netifCount then
    match s.rxList s.i with
    | [] => { s with i := s.i + 1 }
    | buff :: rest =>
        { s with
          rxList := Function.update s.rxList s.i rest
          dequeued := Function.update s.dequeued s.i (s.dequeued s.i ++ [buff])
          i := s.i + 1
          count := s.count + 1 }
  else if s.count = 0 then { s with netinSem := (s.netinSem.wait ()).1, i := 0, count := 0 }
  else { s with i := 0, count := 0 }

/-- `netif_input` for a packet to the interface `netif`. -/
def netifInput (s : Netin B) (netif : Nat) (buff : B) : Netin B :=
  { s with
    rxList := Function.update s.rxList netif (s.rxList netif ++ [buff])
    appended := Function.update s.appended netif (s.appended netif ++ [buff])
    netinSem := s.netinSem.notify.1 }

/-- A thread that is blocked takes no step. -/
def step (netifCount : Nat) (s : Netin B) : NetinAction B → Option (Netin B)
  | .thread => if s.Blocked then none else some (s.netinThread netifCount)
  | .packet netif buff => some (s.netifInput netif buff)

/-- The thread runs, or a packet arrives for an interface that exists. -/
def Fits (netifCount : Nat) (s : Netin B) : NetinAction B → Prop
  | .thread => ¬ s.Blocked
  | .packet netif _ => netif < netifCount

instance (netifCount : Nat) (s : Netin B) : ∀ a, Decidable (s.Fits netifCount a)
  | .thread => inferInstanceAs (Decidable (¬ _))
  | .packet _ _ => inferInstanceAs (Decidable (_ < _))

/-- The packet does not take the counter out of the `int` range. -/
def InRange (s : Netin B) : NetinAction B → Prop
  | .thread => True
  | .packet _ _ => s.netinSem.counter ≠ Int32.maxValue

instance (s : Netin B) : ∀ a, Decidable (s.InRange a)
  | .thread => isTrue trivial
  | .packet _ _ => inferInstanceAs (Decidable (_ ≠ _))

/-- No packet is left to a sleeping thread, and each is taken at most once
and in order. -/
structure NetinLaw (netifCount : Nat) (s : Netin B) : Prop where
  asleep : s.Blocked → ∀ i < netifCount, s.rxList i = []
  order : ∀ i, s.appended i = s.dequeued i ++ s.rxList i

/-- `sem_init(&netin_sem, 0)` and empty queues. -/
def start : Netin B where
  rxList := fun _ => []
  netinSem := { counter := 0, waiting := [] }
  i := 0
  count := 0
  appended := fun _ => []
  dequeued := fun _ => []

/-! ## The invariant -/

/-- While a round has found nothing, whatever lies behind the thread left
a token. -/
structure NetinInv (netifCount : Nat) (s : Netin B) : Prop extends NetinLaw netifCount s where
  nonneg : 0 ≤ s.netinSem.counter.toInt
  place : s.i ≤ netifCount
  restart : s.Blocked → s.i = 0
  alone : s.netinSem.waiting.length ≤ 1
  behind : s.count = 0 → ∀ i < s.i, s.rxList i ≠ [] → 0 < s.netinSem.counter.toInt

variable {netifCount : Nat} {s : Netin B}

theorem NetinInv.start : NetinInv netifCount (start : Netin B) where
  asleep := fun _ _ _ => rfl
  order := fun _ => rfl
  nonneg := Int.le_refl 0
  place := Nat.zero_le _
  alone := Nat.zero_le _
  restart := fun _ => rfl
  behind := fun _ _ hi => absurd hi (Nat.not_lt_zero _)

/-- One interface was tested and found empty. -/
theorem NetinInv.skip (h : NetinInv netifCount s) (hb : ¬ s.Blocked) (hi : s.i < netifCount)
    (he : s.rxList s.i = []) : NetinInv netifCount { s with i := s.i + 1 } :=
  { h with
    place := hi
    restart := fun hb' => absurd hb' hb
    behind := fun hc i hlt hne => by
      rcases Nat.lt_succ_iff_lt_or_eq.mp hlt with hlt | rfl
      · exact h.behind hc i hlt hne
      · exact absurd he hne }

/-- A packet was taken. -/
theorem NetinInv.take {buff : B} {rest : List B} (h : NetinInv netifCount s) (hb : ¬ s.Blocked)
    (hi : s.i < netifCount) (he : s.rxList s.i = buff :: rest) :
    NetinInv netifCount (s.netinThread netifCount) := by
  unfold netinThread
  rw [if_pos hi, he]
  refine { h with
    asleep := fun hb' => absurd hb' hb
    order := fun i => ?_
    place := hi
    restart := fun hb' => absurd hb' hb
    behind := nofun }
  by_cases hii : i = s.i
  · subst hii
    dsimp only
    rw [Function.update_self, Function.update_self, List.append_assoc, List.singleton_append, ← he]
    exact h.order s.i
  · dsimp only
    rw [Function.update_of_ne hii, Function.update_of_ne hii]
    exact h.order i

/-- A whole round found nothing. -/
theorem NetinInv.sleep (h : NetinInv netifCount s) (hb : ¬ s.Blocked) (hi : s.i = netifCount)
    (hc : s.count = 0) :
    NetinInv netifCount { s with netinSem := (s.netinSem.wait ()).1, i := 0, count := 0 } := by
  by_cases hp : 0 < s.netinSem.counter.toInt
  · rw [Sem.wait_of_pos hp]
    have hs := toInt_sub_one hp
    exact { h with
      asleep := fun hb' => absurd hb' hb
      nonneg := by dsimp only; omega
      place := Nat.zero_le _
      restart := fun _ => rfl
      behind := fun _ _ hi => absurd hi (Nat.not_lt_zero _) }
  · rw [Sem.wait_of_not_pos hp]
    exact { h with
      asleep := fun _ i hlt => by
        by_contra hne
        exact hp (h.behind hc i (hi ▸ hlt) hne)
      place := Nat.zero_le _
      restart := fun _ => rfl
      alone := by
        have hw : s.netinSem.waiting = [] := not_not.mp hb
        simp [hw]
      behind := fun _ _ hi => absurd hi (Nat.not_lt_zero _) }

theorem NetinInv.thread (h : NetinInv netifCount s) (hb : ¬ s.Blocked) :
    NetinInv netifCount (s.netinThread netifCount) := by
  by_cases hi : s.i < netifCount
  · cases he : s.rxList s.i with
    | nil =>
        unfold netinThread
        rw [if_pos hi, he]
        exact h.skip hb hi he
    | cons buff rest => exact h.take hb hi he
  · have hend : s.i = netifCount := Nat.le_antisymm h.place (Nat.le_of_not_lt hi)
    unfold netinThread
    rw [if_neg hi]
    split
    case isTrue hc => exact h.sleep hb hend hc
    case isFalse hc =>
      exact { h with
        asleep := fun hb' => absurd hb' hb
        place := Nat.zero_le _
        restart := fun _ => rfl
        behind := fun _ _ hi => absurd hi (Nat.not_lt_zero _) }

theorem NetinInv.packet {netif : Nat} {buff : B} (h : NetinInv netifCount s)
    (hmax : s.netinSem.counter ≠ Int32.maxValue) :
    NetinInv netifCount (s.netifInput netif buff) := by
  have horder : ∀ i, (s.netifInput netif buff).appended i
      = (s.netifInput netif buff).dequeued i ++ (s.netifInput netif buff).rxList i := by
    intro i
    unfold netifInput
    dsimp only
    by_cases hi : i = netif
    · rw [hi, Function.update_self, Function.update_self, h.order netif, List.append_assoc]
    · rw [Function.update_of_ne hi, Function.update_of_ne hi]
      exact h.order i
  have hn := h.nonneg
  cases hw : s.netinSem.waiting with
  | nil =>
      have hs := toInt_add_one (toInt_lt_max hmax)
      have hsem : (s.netifInput netif buff).netinSem
          = { s.netinSem with counter := s.netinSem.counter + 1 } := by
        unfold netifInput
        rw [Sem.notify_nil hw]
      have hb : ¬ (s.netifInput netif buff).Blocked := by
        unfold Blocked
        rw [hsem]
        exact fun hne => hne hw
      refine ⟨⟨fun hb' => absurd hb' hb, horder⟩, ?_, h.place, fun hb' => absurd hb' hb, ?_, ?_⟩
      · rw [hsem]
        dsimp only
        omega
      · rw [hsem]
        exact h.alone
      · intro _ _ _ _
        rw [hsem]
        dsimp only
        omega
  | cons t ts =>
      have halone := h.alone
      rw [hw, List.length_cons] at halone
      obtain rfl : ts = [] := List.length_eq_zero_iff.mp (by omega)
      have hi : s.i = 0 := h.restart (by simp [Blocked, hw])
      have hsem : (s.netifInput netif buff).netinSem = { s.netinSem with waiting := [] } := by
        unfold netifInput
        rw [Sem.notify_cons hw]
      have hb : ¬ (s.netifInput netif buff).Blocked := by
        unfold Blocked
        rw [hsem]
        exact fun hne => hne rfl
      refine ⟨⟨fun hb' => absurd hb' hb, horder⟩, ?_, h.place, fun hb' => absurd hb' hb, ?_, ?_⟩
      · rw [hsem]
        exact hn
      · rw [hsem]
        exact Nat.zero_le 1
      · intro _ i hlt
        change i < s.i at hlt
        omega

theorem NetinInv.step {a : NetinAction B} (h : NetinInv netifCount s) (hf : s.Fits netifCount a)
    (hr : s.InRange a) : ∃ s', s.step netifCount a = some s' ∧ NetinInv netifCount s' := by
  cases a with
  | thread => exact ⟨_, if_neg hf, h.thread hf⟩
  | packet netif buff => exact ⟨_, rfl, h.packet hr⟩

/-! ## Every run -/

/-- No wake-up is lost: every run comes back and ends in a state that
obeys the law, as long as the counter stays in range. -/
theorem netin_law (netifCount : Nat) (as : List (NetinAction B))
    (has : Always (step netifCount) (fun s a => s.Fits netifCount a ∧ s.InRange a) start as) :
    ∃ s', run (step netifCount) start as = some s' ∧ NetinLaw netifCount s' := by
  obtain ⟨s', hrun, h⟩ := run_total_of_always (I := NetinInv netifCount)
    (fun s a h hfit => h.step hfit.1 hfit.2) NetinInv.start has
  exact ⟨s', hrun, h.toNetinLaw⟩

end Netin

/-- Two interfaces; a packet arrives behind the thread, which finds the
token, and then sleeps until the next one. -/
theorem netin_law_behind :
    let as : List (NetinAction Nat) := [.thread, .packet 0 7, .thread, .thread, .thread, .thread,
      .thread, .thread, .thread, .thread, .packet 1 8]
    ∃ s', run (Netin.step 2) Netin.start as = some s' ∧ s'.NetinLaw 2
      ∧ s'.dequeued 0 = [7] ∧ s'.rxList 1 = [8] := by
  intro as
  obtain ⟨s', hrun, hlaw⟩ := Netin.netin_law 2 as (by decide)
  have hend : (run (Netin.step 2) Netin.start as).map (fun s => (s.dequeued 0, s.rxList 1))
      = some ([7], [8]) := by decide
  rw [hrun] at hend
  obtain ⟨h0, h1⟩ := Prod.mk.inj (Option.some.inj hend)
  exact ⟨s', hrun, hlaw, h0, h1⟩

/-! ## Out of range -/

namespace Netin

/-- One packet that is taken before the next arrives. -/
def cycle : List (NetinAction Nat) := [.packet 0 0, .thread, .thread]

/-- The thread is at the start of a round, nothing waits, and `n` tokens
were left. -/
structure Idle (n : Nat) (s : Netin Nat) : Prop where
  rxList : s.rxList 0 = []
  sem : s.netinSem = { counter := Int32.ofNat n, waiting := [] }
  i : s.i = 0
  count : s.count = 0

theorem Idle.packet {n : Nat} {s : Netin Nat} (h : Idle n s) :
    (s.netifInput 0 0).rxList 0 = [0]
      ∧ (s.netifInput 0 0).netinSem = { counter := Int32.ofNat (n + 1), waiting := [] } := by
  unfold netifInput
  refine ⟨by simp [h.rxList], ?_⟩
  dsimp only
  rw [h.sem, Sem.notify_nil rfl, Int32.ofNat_add]
  rfl

theorem Idle.cycle {n : Nat} {s : Netin Nat} (h : Idle n s) (as : List (NetinAction Nat)) :
    ∃ s', Idle (n + 1) s' ∧ run (step 1) s (cycle ++ as) = run (step 1) s' as
      ∧ (Always (step 1) (fun s a => s.Fits 1 a) s' as →
        Always (step 1) (fun s a => s.Fits 1 a) s (cycle ++ as)) := by
  obtain ⟨hlist, hsem⟩ := h.packet
  have hb₁ : ¬ (s.netifInput 0 0).Blocked := fun hb => hb (by rw [hsem])
  obtain ⟨s₂, hs₂, hempty, hsem₂, hi₂, hc₂⟩ : ∃ s₂, (s.netifInput 0 0).netinThread 1 = s₂
      ∧ s₂.rxList 0 = [] ∧ s₂.netinSem = (s.netifInput 0 0).netinSem ∧ s₂.i = 1
      ∧ s₂.count = 1 := by
    refine ⟨_, rfl, ?_⟩
    have hi : (s.netifInput 0 0).i = 0 := h.i
    have hc : (s.netifInput 0 0).count = 0 := h.count
    unfold netinThread
    rw [if_pos (by rw [hi]; decide), hi, hlist]
    dsimp only
    exact ⟨Function.update_self .., rfl, rfl, by rw [hc]⟩
  have hb₂ : ¬ s₂.Blocked := fun hb => hb (by rw [hsem₂, hsem])
  have hs₃ : s₂.netinThread 1 = { s₂ with i := 0, count := 0 } := by
    unfold netinThread
    rw [if_neg (by rw [hi₂]; decide), if_neg (by rw [hc₂]; decide)]
  have h₂ : step 1 (s.netifInput 0 0) .thread = some s₂ := (if_neg hb₁).trans (by rw [hs₂])
  have h₃ : step 1 s₂ .thread = some { s₂ with i := 0, count := 0 } :=
    (if_neg hb₂).trans (by rw [hs₃])
  refine ⟨{ s₂ with i := 0, count := 0 }, ⟨hempty, hsem₂.trans hsem, rfl, rfl⟩, ?_, fun hrest => ?_⟩
  · change run (step 1) s (.packet 0 0 :: .thread :: .thread :: as) = _
    rw [run_cons]
    change run (step 1) (s.netifInput 0 0) (.thread :: .thread :: as) = _
    rw [run_cons, h₂, Option.bind_some, run_cons, h₃, Option.bind_some]
  · refine ⟨Nat.zero_lt_one, fun s' hs' => ?_⟩
    obtain rfl := Option.some.inj hs'
    refine ⟨hb₁, fun s' hs' => ?_⟩
    obtain rfl := Option.some.inj (h₂.symm.trans hs')
    refine ⟨hb₂, fun s' hs' => ?_⟩
    obtain rfl := Option.some.inj (h₃.symm.trans hs')
    exact hrest

/-- `n` packets, each taken before the next arrives. -/
def cycles : Nat → List (NetinAction Nat) → List (NetinAction Nat)
  | 0, as => as
  | n + 1, as => cycle ++ cycles n as

theorem Idle.cycles {j : Nat} (n : Nat) {s : Netin Nat} (h : Idle j s)
    (as : List (NetinAction Nat)) :
    ∃ s', Idle (j + n) s' ∧ run (step 1) s (cycles n as) = run (step 1) s' as
      ∧ (Always (step 1) (fun s a => s.Fits 1 a) s' as →
        Always (step 1) (fun s a => s.Fits 1 a) s (cycles n as)) := by
  induction n generalizing j s with
  | zero => exact ⟨s, h, rfl, id⟩
  | succ n ih =>
      obtain ⟨s₁, h₁, hrun₁, hall₁⟩ := h.cycle (Netin.cycles n as)
      obtain ⟨s', h', hrun, hall⟩ := ih h₁
      refine ⟨s', ?_, hrun₁.trans hrun, fun hs' => hall₁ (hall hs')⟩
      rwa [Nat.add_right_comm] at h'

/-- The run after the counter has wrapped: the thread tests the interface,
the packet arrives behind it, and the thread sleeps. -/
def late : List (NetinAction Nat) := [.thread, .packet 0 0, .thread]

theorem Idle.late {s : Netin Nat} (h : Idle (2 ^ 31) s) :
    Always (step 1) (fun s a => s.Fits 1 a) s late
      ∧ ∃ s', run (step 1) s late = some s' ∧ ¬ s'.NetinLaw 1 := by
  have hb : ¬ s.Blocked := fun hb => hb (by rw [h.sem])
  have hskip : s.netinThread 1 = { s with i := 1 } := by
    unfold netinThread
    rw [if_pos (by rw [h.i]; decide), h.i, h.rxList]
  obtain ⟨s₂, hs₂, hlist, hsem, hi, hc⟩ : ∃ s₂, netifInput { s with i := 1 } 0 0 = s₂
      ∧ s₂.rxList 0 = [0] ∧ s₂.netinSem = { counter := Int32.ofNat (2 ^ 31 + 1), waiting := [] }
      ∧ s₂.i = 1 ∧ s₂.count = 0 := by
    refine ⟨_, rfl, ?_, ?_, rfl, h.count⟩
    · exact h.packet.1
    · exact h.packet.2
  have hb₂ : ¬ s₂.Blocked := fun hb => hb (by rw [hsem])
  have hsleep : s₂.netinThread 1
      = { s₂ with netinSem := (s₂.netinSem.wait ()).1, i := 0, count := 0 } := by
    unfold netinThread
    rw [if_neg (by rw [hi]; decide), if_pos hc]
  have hwait : (s₂.netinSem.wait ()).1.waiting = [()] := by
    rw [hsem]
    decide
  have h₁ : step 1 s .thread = some { s with i := 1 } := (if_neg hb).trans (by rw [hskip])
  have h₂ : step 1 { s with i := 1 } (.packet 0 0) = some s₂ := by rw [← hs₂]; rfl
  have h₃ : step 1 s₂ .thread
      = some { s₂ with netinSem := (s₂.netinSem.wait ()).1, i := 0, count := 0 } :=
    (if_neg hb₂).trans (by rw [hsleep])
  constructor
  · refine ⟨hb, fun s' hs' => ?_⟩
    obtain rfl := Option.some.inj (h₁.symm.trans hs')
    refine ⟨Nat.zero_lt_one, fun s' hs' => ?_⟩
    obtain rfl := Option.some.inj (h₂.symm.trans hs')
    exact ⟨hb₂, fun _ _ => trivial⟩
  · refine ⟨{ s₂ with netinSem := (s₂.netinSem.wait ()).1, i := 0, count := 0 }, ?_,
      fun hlaw => ?_⟩
    · change run (step 1) s [.thread, .packet 0 0, .thread] = _
      rw [run_cons, h₁, Option.bind_some, run_cons, h₂, Option.bind_some, run_cons, h₃]
      rfl
    · have hasleep := hlaw.asleep (by unfold Blocked; rw [hwait]; exact List.cons_ne_nil _ _) 0
        Nat.zero_lt_one
      cases hlist.symm.trans hasleep

end Netin

/-- After 2^31 packets that were each taken at once, the thread sleeps on
a packet. -/
theorem netin_law_wraps :
    ¬ ∀ (netifCount : Nat) (as : List (NetinAction Nat)), netifCount ≤ 4 →
      Always (Netin.step netifCount) (fun s a => s.Fits netifCount a) Netin.start as →
      ∃ s', run (Netin.step netifCount) Netin.start as = some s' ∧ s'.NetinLaw netifCount := by
  intro hall
  have hstart : Netin.Idle 0 Netin.start := ⟨rfl, rfl, rfl, rfl⟩
  obtain ⟨n, hn⟩ : ∃ n, n = 2 ^ 31 := ⟨_, rfl⟩
  obtain ⟨s₁, h₁, hrun₁, halways₁⟩ := hstart.cycles n Netin.late
  rw [Nat.zero_add, hn] at h₁
  obtain ⟨halways, s', hrun, hbad⟩ := h₁.late
  obtain ⟨s'', hrun'', hlaw⟩ := hall 1 _ (by decide) (halways₁ halways)
  rw [hrun₁, hrun] at hrun''
  obtain rfl := Option.some.inj hrun''
  exact hbad hlaw

end Csos
