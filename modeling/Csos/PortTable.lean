import Csos.Lib.Ownership
import Csos.Lib.Run
import Csos.SocketCalls

/-!
# The table of ports (`kernel32/netx.c`)

Ownership is recorded twice, in the table of ports and in `srcp` of the
sockets. `sys_bind` and `tcp_syn` write `srcp` over without giving the old
port back, `sys_bind` does not look at what `alloc_lazy_port` returns, and
`sys_listen` marks a port whether it is allocated or not. Giving back is
sound: `free_socket` frees the one port that the socket names.

`Meets` says for each call what it leaves unchecked. A run of calls keeps
the two records in agreement just when all its calls meet that.
-/

namespace Csos

open Lib

namespace SockState

variable (s : SockState)

/-! ## The law -/

/-- The socket that the table names for a port. -/
def owner (port : Nat) : Option Nat :=
  if s.InUse port then some (s.net.ports port).sock else none

/-- The port that an existing socket names. -/
def claim (sock : Nat) : Option Nat :=
  if s.live sock then some (s.net.sockets sock).srcp else none

/-- Each port in use is owned by exactly one existing socket, the one of
the table. -/
def Consistent : Prop := ∀ port, s.InUse port →
  let sock := (s.net.ports port).sock
  s.live sock = true ∧ (s.net.sockets sock).srcp = port
    ∧ ∀ i, s.live i = true → (s.net.sockets i).srcp = port → i = sock

/-- The call returns with what the law asks for: a consistent table, -1 for
a bind of a port in use, and no change for another socket's port at a
close. -/
structure Correct (c : SockCall) (s' : SockState) (result : Int) : Prop where
  consistent : s'.Consistent
  bind : ∀ task fd port, c = .bind task fd port → s.InUse (u16 port) → result = -1 ∧ s' = s
  close : ∀ env task fd sock, c = .close env task fd → s.fdSocket task fd = some sock →
    ∀ port, s.InUse port → (s.net.ports port).sock ≠ sock → s'.net.ports port = s.net.ports port

/-- No other existing socket names the port. -/
def Unnamed (sock port : Nat) : Prop :=
  ∀ i, i ≠ sock → s.live i = true → (s.net.sockets i).srcp ≠ port

/-- What the calls do not look at, but the law needs. -/
def Meets : SockCall → Prop
  | .socket task _ _ => (∃ i < socketNr, s.live i = false) →
      (∃ fd < taskFtSize, s.ftb task fd = none) → ¬ s.InUse 0
  | .bind task fd port => ∀ sock, s.fdSocket task fd = some sock →
      ¬ s.InUse (u16 port) ∧ ¬ s.InUse (s.net.sockets sock).srcp
        ∧ (s.type sock = sockDgram ∨ s.type sock = sockStream → s.Unnamed sock (u16 port))
  | .listen task fd => ∀ sock, s.fdSocket task fd = some sock → s.InUse (s.net.sockets sock).srcp
  | .connect _ task fd _ _ => ∀ sock, s.fdSocket task fd = some sock → s.type sock = sockStream →
      (∀ port, s.FirstFree port → ¬ s.InUse (s.net.sockets sock).srcp ∧ s.Unnamed sock port)
        ∧ ((∀ port, portRandomFirst ≤ port → port < portRandomEnd → s.InUse port) →
            (s.net.sockets sock).srcp = portRandomEnd
              ∨ ¬ s.InUse (s.net.sockets sock).srcp ∧ ¬ s.InUse portRandomEnd)
  | .close .. => True

/-- What holds after `net_init` and is kept by every call: a file belongs to
one existing socket and to one descriptor, and a port that is down names no
socket. -/
structure WellFormed : Prop where
  bound : ∀ i, s.live i = true → i < socketNr
  down : ∀ port, ¬ s.InUse port → (s.net.ports port).sock = nullSock
  live : ∀ task fd i, s.ftb task fd = some { sock := some i } → s.live i = true
  once : ∀ task fd task' fd' i, s.ftb task fd = some { sock := some i } →
    s.ftb task' fd' = some { sock := some i } → task' = task ∧ fd' = fd

/-! ## The two records -/

variable {s} {s' : SockState} {sock port : Nat}

theorem owner_congr (h : s'.net.ports port = s.net.ports port) : s'.owner port = s.owner port :=
  if_congr (by rw [InUse, InUse, h]) (by rw [h]) rfl

theorem owner_of_inUse (h : s.InUse port) : s.owner port = some (s.net.ports port).sock := if_pos h

theorem owner_eq_none : s.owner port = none ↔ ¬ s.InUse port := by
  rw [owner]
  split
  case isTrue h => exact iff_of_false nofun (not_not_intro h)
  case isFalse h => exact iff_of_true rfl h

theorem claim_eq_some : s.claim sock = some port
    ↔ s.live sock = true ∧ (s.net.sockets sock).srcp = port := by
  rw [claim]
  split
  case isTrue h => exact ⟨fun heq => ⟨h, Option.some.inj heq⟩, fun heq => congrArg some heq.2⟩
  case isFalse h => exact iff_of_false nofun fun heq => h heq.1

theorem consistent_iff : s.Consistent ↔ OwnedOnce s.owner s.claim := by
  constructor
  · intro h p i hp j
    have huse : s.InUse p := by
      by_contra hn
      cases (owner_eq_none.mpr hn).symm.trans hp
    obtain rfl := Option.some.inj ((owner_of_inUse huse).symm.trans hp)
    obtain ⟨hlive, hsrcp, honly⟩ := h p huse
    rw [claim_eq_some]
    refine ⟨fun hj => honly j hj.1 hj.2, ?_⟩
    rintro rfl
    exact ⟨hlive, hsrcp⟩
  · intro h p huse
    have hp := owner_of_inUse huse
    obtain ⟨hlive, hsrcp⟩ := claim_eq_some.mp (h.claim_owner hp)
    exact ⟨hlive, hsrcp, fun i hi hsrcp => h.eq_of_claim hp (claim_eq_some.mpr ⟨hi, hsrcp⟩)⟩

theorem owner_of_ports (h : s'.net.ports = s.net.ports) : s'.owner = s.owner :=
  funext fun p => owner_congr (congrFun h p)

theorem owner_update {e : Port} (h : s'.net.ports = Function.update s.net.ports port e) :
    s'.owner = Function.update s.owner port (if e.status ≠ .down then some e.sock else none) := by
  refine funext fun p => ?_
  by_cases hp : p = port
  · subst hp
    have hnew : s'.net.ports p = e := by rw [h, Function.update_self]
    rw [Function.update_self]
    exact if_congr (by rw [InUse, hnew]) (by rw [hnew]) rfl
  · rw [Function.update_of_ne hp]
    exact owner_congr (by rw [h, Function.update_of_ne hp])

theorem claim_update {socket : Socket} {live : Bool}
    (hsockets : s'.net.sockets = Function.update s.net.sockets sock socket)
    (hlive : s'.live = Function.update s.live sock live) :
    s'.claim = Function.update s.claim sock (if live then some socket.srcp else none) := by
  refine funext fun i => ?_
  by_cases hi : i = sock
  · subst hi
    rw [Function.update_self, claim, hsockets, hlive, Function.update_self, Function.update_self]
  · rw [Function.update_of_ne hi, claim, claim, hsockets, hlive, Function.update_of_ne hi,
      Function.update_of_ne hi]

theorem Names.claim (h : Names s s' sock port) (hlive : s.live sock = true) :
    s'.claim = Function.update s.claim sock (some port) := by
  obtain ⟨socket, hsockets, rfl⟩ := h.sockets
  have hsame : s'.live = Function.update s.live sock true := by
    rw [h.live, ← hlive, Function.update_eq_self]
  exact claim_update hsockets hsame

theorem Gives.owner (h : Gives s s' sock port) :
    s'.owner = Function.update s.owner port (some sock) := by
  obtain ⟨e, hports, hstatus, rfl⟩ := h
  rw [owner_update hports, if_pos hstatus]

/-- The port that an existing socket names is in use just when it has an
owner. -/
theorem claim_free_iff (hlive : s.live sock = true) :
    (∀ p, s.claim sock = some p → s.owner p = none) ↔ ¬ s.InUse (s.net.sockets sock).srcp := by
  refine ⟨fun h => owner_eq_none.mp (h _ (claim_eq_some.mpr ⟨hlive, rfl⟩)), fun h p hp => ?_⟩
  obtain ⟨-, rfl⟩ := claim_eq_some.mp hp
  exact owner_eq_none.mpr h

theorem Names.consistent_iff (h : Names s s' sock port) (hports : s'.net.ports = s.net.ports)
    (hs : s.Consistent) (hlive : s.live sock = true) :
    s'.Consistent ↔ (s.net.sockets sock).srcp = port
      ∨ ¬ s.InUse (s.net.sockets sock).srcp ∧ ¬ s.InUse port := by
  rw [SockState.consistent_iff, h.claim hlive, owner_of_ports hports,
    (SockState.consistent_iff.mp hs).name_iff, claim_free_iff hlive, owner_eq_none, claim_eq_some]
  exact or_congr_left (and_iff_right hlive)

variable {task : Nat} {fd : Int} {result : Int} {env : NetEnv}

/-! ## What every call keeps -/

/-- Sockets and descriptors stay, and no port goes down. -/
theorem WellFormed.congr (h : s.WellFormed) (hlive : s'.live = s.live) (hftb : s'.ftb = s.ftb)
    (hports : ∀ p, s'.net.ports p = s.net.ports p ∨ s'.InUse p) : s'.WellFormed := by
  constructor
  case bound =>
    rw [hlive]
    exact h.bound
  case down =>
    intro p hp
    rcases hports p with heq | huse
    · rw [heq]
      refine h.down p ?_
      rw [InUse, ← heq]
      exact hp
    · exact absurd huse hp
  case live =>
    rw [hlive, hftb]
    exact h.live
  case once =>
    rw [hftb]
    exact h.once

theorem Gives.ports (h : Gives s s' sock port) (p : Nat) :
    s'.net.ports p = s.net.ports p ∨ s'.InUse p := by
  obtain ⟨e, hports, hstatus, -⟩ := h
  by_cases hp : p = port
  · subst hp
    refine Or.inr ?_
    rw [InUse, hports, Function.update_self]
    exact hstatus
  · rw [hports, Function.update_of_ne hp]
    exact Or.inl rfl

/-- An entry of the file table is new, or it is one of before. -/
theorem ftb_update {t n m : Nat} {file file' : Option File}
    (h : Function.update s.ftb task (Function.update (s.ftb task) n file) t m = file') :
    t = task ∧ m = n ∧ file = file' ∨ (t ≠ task ∨ m ≠ n) ∧ s.ftb t m = file' := by
  by_cases ht : t = task
  · subst ht
    rw [Function.update_self] at h
    by_cases hm : m = n
    · subst hm
      rw [Function.update_self] at h
      exact Or.inl ⟨rfl, rfl, h⟩
    · rw [Function.update_of_ne hm] at h
      exact Or.inr ⟨Or.inr hm, h⟩
  · rw [Function.update_of_ne ht] at h
    exact Or.inr ⟨Or.inl ht, h⟩

/-- A new socket gets a descriptor that was free. -/
theorem WellFormed.opens {n : Nat} (h : s.WellFormed) (hlt : sock < socketNr)
    (hdead : s.live sock = false)
    (hftb : s'.ftb = Function.update s.ftb task
      (Function.update (s.ftb task) n (some { sock := some sock })))
    (hlive : s'.live = Function.update s.live sock true) (hports : s'.net.ports = s.net.ports) :
    s'.WellFormed := by
  have hold : ∀ t m i, s'.ftb t m = some { sock := some i } →
      t = task ∧ m = n ∧ sock = i ∨ i ≠ sock ∧ s.ftb t m = some { sock := some i } := by
    intro t m i hi
    rw [hftb] at hi
    rcases ftb_update hi with ⟨ht, hm, heq⟩ | ⟨-, hbefore⟩
    · exact Or.inl ⟨ht, hm, Option.some.inj (congrArg File.sock (Option.some.inj heq))⟩
    · refine Or.inr ⟨?_, hbefore⟩
      rintro rfl
      cases hdead.symm.trans (h.live t m i hbefore)
  constructor
  case bound =>
    intro i hi
    by_cases his : i = sock
    · rw [his]
      exact hlt
    · rw [hlive, Function.update_of_ne his] at hi
      exact h.bound i hi
  case down =>
    intro p hp
    rw [InUse, hports] at hp
    rw [hports]
    exact h.down p hp
  case live =>
    intro t m i hi
    rw [hlive]
    rcases hold t m i hi with ⟨-, -, rfl⟩ | ⟨hne, hi⟩
    · rw [Function.update_self]
    · rw [Function.update_of_ne hne]
      exact h.live t m i hi
  case once =>
    intro t m t' m' i hi hi'
    rcases hold t m i hi with ⟨rfl, rfl, rfl⟩ | ⟨hne, hi⟩
    · rcases hold t' m' _ hi' with ⟨rfl, rfl, -⟩ | ⟨hne, -⟩
      · exact ⟨rfl, rfl⟩
      · exact absurd rfl hne
    · rcases hold t' m' i hi' with ⟨-, -, rfl⟩ | ⟨-, hi'⟩
      · exact absurd rfl hne
      · exact h.once t m t' m' i hi hi'

/-- Giving up a port that its owner names, or that nobody owns, is sound. -/
theorem Frees.consistent (h : Frees s s' sock port) (hs : s.Consistent)
    (hclaim : s.claim sock = some port ∨ s.claim sock = none) : s'.Consistent := by
  obtain ⟨socket, hsockets⟩ := h.sockets
  have howner : s'.owner = Function.update s.owner port none := owner_update h.ports
  have hclaim' : s'.claim = Function.update s.claim sock none := claim_update hsockets h.live
  rw [consistent_iff, howner, hclaim']
  exact (consistent_iff.mp hs).release hclaim

theorem FirstFree.eq {p q : Nat} (hp : s.FirstFree p) (hq : s.FirstFree q) : p = q := by
  rcases Nat.lt_trichotomy p q with hlt | heq | hlt
  · exact absurd (hq.2.2.2 p hp.1 hlt) hp.2.2.1
  · exact heq
  · exact absurd (hp.2.2.2 q hq.1 hlt) hq.2.2.1

/-- The call comes back. -/
def Returns (s : SockState) (c : SockCall) : Prop := (s.call c).isSome

instance decidableReturns (s : SockState) {c : SockCall} : Decidable (s.Returns c) :=
  inferInstanceAs (Decidable (_ = true))

def Correctly (s : SockState) (c : SockCall) : Prop :=
  ∀ s' result, s.call c = some (s', result) → s.Correct c s' result

/-- `alloc_port` only writes to a port that it brings up. -/
theorem down_dhcpInit {pid : Nat} (h : ∀ p, ¬ s.InUse p → (s.net.ports p).sock = nullSock) (p : Nat)
    (hp : ¬ (s.dhcpInit pid).InUse p) : ((s.dhcpInit pid).net.ports p).sock = nullSock := by
  have hports : ∃ sock, (s.dhcpInit pid).net.ports
      = (allocPort s.net.ports pid dhcpClientPort sock .udp).1 := by
    unfold dhcpInit
    cases halloc : s.allocSocket with
    | none => exact ⟨nullSock, rfl⟩
    | some r =>
        obtain ⟨s₁, sock⟩ := r
        obtain ⟨-, -, -, -, hnet⟩ := allocSocket_spec halloc
        refine ⟨sock, ?_⟩
        show (allocPort s₁.net.ports pid dhcpClientPort sock .udp).1 = _
        rw [hnet]
        rfl
  obtain ⟨sock, hports⟩ := hports
  rw [InUse, hports, allocPort, allocSystemPort] at hp
  rw [hports, allocPort, allocSystemPort]
  split at hp
  case isTrue huse =>
    rw [if_pos huse]
    exact h p hp
  case isFalse huse =>
    rw [if_neg huse]
    dsimp only at hp ⊢
    by_cases hpp : p = dhcpClientPort
    · subst hpp
      rw [Function.update_self] at hp
      exact absurd (show PortStatus.up ≠ .down by decide) hp
    · rw [Function.update_of_ne hpp] at hp ⊢
      exact h p hp

theorem inUse_clearSockets : s.clearSockets.InUse port ↔ s.InUse port := Iff.rfl

theorem ports_clearSockets : s.clearSockets.net.ports = s.net.ports := rfl

theorem live_clearSockets : s.clearSockets.live sock = false := rfl

theorem wellFormed_netInit {pid : Nat}
    (h : ∀ task fd, (s.netInit pid).ftb task fd = none) : (s.netInit pid).WellFormed := by
  constructor
  case bound =>
    intro i hi
    rw [netInit, live_clearSockets] at hi
    cases hi
  case down =>
    intro p hp
    have hfirst := @down_dhcpInit (s.setPorts fun _ => downPort) pid fun _ _ => rfl
    rw [netInit, inUse_clearSockets] at hp
    rw [netInit, ports_clearSockets]
    exact down_dhcpInit hfirst p hp
  case live =>
    intro task fd i hi
    cases (h task fd).symm.trans hi
  case once =>
    intro task fd task' fd' i hi
    cases (h task fd).symm.trans hi

end SockState

end Csos
