import Csos.TcpReceive
import Csos.TcpSend
import Csos.TcpSyn

/-!
# The state ESTABLISHED (`tcp_input`, `tcp_ack`, `tcp_finack`, `sys_connect`)

The state of a socket is changed in `tcp_input` and again in `tcp_ack` and
`tcp_finack`. `segState` is what becomes of it, as a function of the port,
the socket and the flags of the segment; the numbers of the segment and
where it comes from play no part in it. So the law of ESTABLISHED holds as
long as no segment comes that `tcp_input` should have refused.

`sys_connect` waits for the state for at most 30 sleeps and then returns
0, whether it has come or not.
-/

namespace Csos

open Lib

/-! ## What becomes of the state -/

/-- The state after a segment with these flags. -/
def segState (status : PortStatus) (socket : Socket) (flags : Nat) : TcpState :=
  match status with
  | .up =>
      if flags = flagsFinAck then finackState { socket with state := ackState socket }
      else if flags = flagsSynAck then ackState socket
      else if flags = flagsRstAck then .closed
      else if flags = flagsPshAck then ackState socket
      else if flags = flagsAck then ackedState socket.state
      else socket.state
  | .listen =>
      if flags = flagsFinAck then
        match socket.state with
        | .established => finackState { socket with state := ackState socket }
        | .closeWait => ackState socket
        | state => state
      else if flags = flagsRstAck then .closed
      else if flags = flagsPshAck then ackState socket
      else if flags = flagsSyn then .synReceived
      else if flags = flagsAck then ackedState socket.state
      else socket.state
  | _ => socket.state
where
  /-- The state after an ACK. -/
  ackedState : TcpState → TcpState
    | .finWait1 => .finWait2
    | .synReceived => .established
    | state => state

section State

variable {status : PortStatus} {random flags : Nat} {socket : Socket} {p reply : Bytes}

theorem ackedSocket_state : (ackedSocket socket p).state = segState.ackedState socket.state := by
  rw [ackedSocket]
  cases hstate : socket.state with
  | finWait1 => rfl
  | synReceived => rfl
  | established => rfl
  | _ => exact hstate

theorem finackState_congr {socket' : Socket} (h : socket'.socktype = socket.socktype)
    (h' : socket'.state = socket.state) : finackState socket' = finackState socket := by
  rw [finackState, finackState, h, h']

theorem ackSocket_state : (ackSocket socket p).state = ackState socket := rfl

theorem finackSocket_state : (finackSocket socket).state = finackState socket := rfl

theorem finackState_ackSocket :
    finackState (ackSocket socket p) = finackState { socket with state := ackState socket } :=
  finackState_congr rfl rfl

/-- The ports of a socket do not matter here. -/
theorem finackState_ports {srcp dstp : Nat} :
    finackState { ackSocket socket p with state := ackState socket, srcp, dstp }
      = finackState { socket with state := ackState socket } := finackState_congr rfl rfl

theorem segSocket_state : (segSocket status random socket p reply).state
    = segState status socket (segFlags p) := by
  cases status with
  | up =>
      simp only [segSocket, segSocketUp, segState, apply_ite Socket.state, ackedSocket_state,
        ackSocket_state, finackSocket_state, finackState_ports]
  | listen =>
      simp only [segSocket, segSocketListen, segState, apply_ite Socket.state, ackedSocket_state,
        ackSocket_state]
      cases hstate : socket.state with
      | established => simp only [finackSocket_state, finackState_ackSocket, synackSocket]
      | _ => simp only [synackSocket, hstate, ackSocket_state]
  | _ => rfl

theorem segState_congr {socket' : Socket} (h : socket'.socktype = socket.socktype)
    (h' : socket'.state = socket.state) :
    segState status socket' flags = segState status socket flags := by
  have hack : ackState socket' = ackState socket := ackState_congr h h'
  have hfin : finackState { socket' with state := ackState socket }
      = finackState { socket with state := ackState socket } := finackState_congr h rfl
  simp only [segState, hack, hfin, h']

/-- The flags that `tcp_input` looks for. -/
def knownFlags : List Nat :=
  [flagsSynAck, flagsFinAck, flagsRstAck, flagsPshAck, flagsSyn, flagsAck]

theorem segState_unknown (h : flags ∉ knownFlags) :
    segState status socket flags = socket.state := by
  have hne : ∀ known ∈ knownFlags, ¬ flags = known := fun known hmem heq => h (heq ▸ hmem)
  cases status with
  | up =>
      rw [segState, if_neg (hne _ (by decide)), if_neg (hne _ (by decide)),
        if_neg (hne _ (by decide)),
        if_neg (hne _ (by decide)), if_neg (hne _ (by decide))]
  | listen =>
      rw [segState, if_neg (hne _ (by decide)), if_neg (hne _ (by decide)),
        if_neg (hne _ (by decide)),
        if_neg (hne _ (by decide)), if_neg (hne _ (by decide))]
  | _ => rfl

/-- A socket with this role and this state. -/
def bareSocket (socktype : SockType) (state : TcpState) : Socket :=
  { socktype, state, srcp := 0, dstp := 0, dipv4 := fun _ => 0, seq := 0, ack := 0, netif := 0 }

theorem segState_bareSocket :
    segState status socket flags
      = segState status (bareSocket socket.socktype socket.state) flags :=
  segState_congr rfl rfl

/-- The segments that make a client in SYN_SENT believe that it is
connected. -/
theorem segState_of_synSent (hclient : socket.socktype = .client)
    (hstate : socket.state = .synSent) :
    segState status socket flags = .established
      ↔ status.Open ∧ flags = flagsPshAck ∨ status = .up ∧ flags = flagsSynAck := by
  rw [segState_bareSocket, hclient, hstate]
  by_cases hknown : flags ∈ knownFlags
  · revert flags
    cases status <;> decide
  · rw [segState_unknown hknown]
    refine iff_of_false nofun ?_
    rintro (⟨-, rfl⟩ | ⟨-, rfl⟩) <;> exact hknown (by decide)

/-- The segments that end a connection. -/
theorem segState_of_established (hstate : socket.state = .established) :
    segState status socket flags ≠ .established
      ↔ status.Open ∧ (flags = flagsFinAck ∨ flags = flagsRstAck)
        ∨ socket.socktype = .server ∧ status.Open ∧ flags = flagsPshAck
        ∨ socket.socktype = .server ∧ status = .up ∧ flags = flagsSynAck
        ∨ status = .listen ∧ flags = flagsSyn := by
  rw [segState_bareSocket, hstate]
  by_cases hknown : flags ∈ knownFlags
  · revert flags
    generalize socket.socktype = socktype
    cases status <;> cases socktype <;> decide
  · rw [segState_unknown hknown]
    refine iff_of_false (not_not_intro rfl) ?_
    rintro (⟨-, rfl | rfl⟩ | ⟨-, -, rfl⟩ | ⟨-, -, rfl⟩ | ⟨-, rfl⟩) <;> exact hknown (by decide)

end State

/-! ## `sys_connect` -/

abbrev sockStream : Nat := 1

abbrev sockDgram : Nat := 2

namespace NetIn

/-- The loop of `sys_connect`: `tryc` sleeps are left, and `i` are over.
`during` is what all other threads do in a sleep. -/
def waitEstablished (sock : Nat) (during : Nat → NetIn → Option NetIn) :
    Nat → Nat → NetIn → Option NetIn
  | 0, _, s => some s
  | tryc + 1, i, s =>
      if (s.sockets sock).state = .established then some s
      else (during i s).bind (waitEstablished sock during tryc (i + 1))

/-- `sys_connect` up to its loop, for a socket with SOCK_STREAM. -/
def startConnect (env : NetEnv) (s : NetIn) (pid sock : Nat) (ip : IpAddr) (port : Nat) :
    Option NetIn := do
  let s := s.setSocket sock { s.sockets sock with dstp := port, dipv4 := ip }
  let payload ← env.descBuff
  s.tcpSyn env pid sock { payload, length := 0 } ip

/-- `sys_connect`, for the socket of the file descriptor, with its field
`type`. -/
def sysConnect (env : NetEnv) (s : NetIn) (pid sock type : Nat) (ip : IpAddr) (port : Nat)
    (during : Nat → NetIn → Option NetIn) : Option (NetIn × Int) :=
  if type = sockDgram then
    some (s.setSocket sock { s.sockets sock with dstp := port, dipv4 := ip }, -1)
  else if type = sockStream then do
    let s ← s.startConnect env pid sock ip port
    let s ← s.waitEstablished sock during 30 0
    return (s, 0)
  else some (s.setSocket sock { s.sockets sock with dstp := port, dipv4 := ip }, -1)

/-- The state after the first sleeps. -/
def sleeps (during : Nat → NetIn → Option NetIn) (s : NetIn) : Nat → Option NetIn
  | 0 => some s
  | n + 1 => (sleeps during s n).bind (during n)

end NetIn

section Connect

variable {env : NetEnv} {s s₀ s' : NetIn} {sock i tryc : Nat}
  {during : Nat → NetIn → Option NetIn}

/-- The loop ends in ESTABLISHED just when one of the sleeps does. -/
theorem waitEstablished_iff (hs : NetIn.sleeps during s₀ i = some s)
    (h : s.waitEstablished sock during tryc i = some s') :
    (s'.sockets sock).state = .established
      ↔ ∃ j t, i ≤ j ∧ j ≤ i + tryc ∧ NetIn.sleeps during s₀ j = some t
          ∧ (t.sockets sock).state = .established := by
  induction tryc generalizing i s with
  | zero =>
      obtain rfl := Option.some.inj h
      refine ⟨fun hstate => ⟨i, s, Nat.le_refl i, Nat.le_refl i, hs, hstate⟩, ?_⟩
      rintro ⟨j, t, hij, hji, ht, hstate⟩
      obtain rfl := Nat.le_antisymm hji hij
      rwa [← Option.some.inj (ht.symm.trans hs)]
  | succ tryc ih =>
      rw [NetIn.waitEstablished] at h
      by_cases hstate : (s.sockets sock).state = .established
      · rw [if_pos hstate] at h
        obtain rfl := Option.some.inj h
        exact iff_of_true hstate ⟨i, s, Nat.le_refl i, Nat.le_add_right i _, hs, hstate⟩
      rw [if_neg hstate] at h
      obtain ⟨s₁, hs₁, h⟩ := Option.bind_eq_some_iff.mp h
      have hnext : NetIn.sleeps during s₀ (i + 1) = some s₁ := by
        rw [NetIn.sleeps, hs, Option.bind_some, hs₁]
      rw [ih hnext h]
      refine ⟨?_, ?_⟩
      · rintro ⟨j, t, hij, hji, ht⟩
        exact ⟨j, t, by omega, by omega, ht⟩
      · rintro ⟨j, t, hij, hji, ht, hest⟩
        refine ⟨j, t, ?_, by omega, ht, hest⟩
        -- the sleep `i` did not end in the state
        rcases Nat.eq_or_lt_of_le hij with rfl | hlt
        · rw [← Option.some.inj (hs.symm.trans ht)] at hest
          exact absurd hest hstate
        · exact hlt

/-- What `sys_connect` returns for a stream socket. -/
theorem sysConnect_stream {pid port : Nat} {ip : IpAddr} {result : Int}
    (h : s.sysConnect env pid sock sockStream ip port during = some (s', result)) :
    result = 0 ∧ ∃ s₁, s.startConnect env pid sock ip port = some s₁
      ∧ s₁.waitEstablished sock during 30 0 = some s' := by
  rw [NetIn.sysConnect, if_neg (by decide), if_pos rfl] at h
  obtain ⟨s₁, hs₁, h⟩ := Option.bind_eq_some_iff.mp h
  obtain ⟨s₂, hs₂, h⟩ := Option.bind_eq_some_iff.mp h
  obtain ⟨rfl, rfl⟩ := Prod.mk.inj (Option.some.inj h)
  exact ⟨rfl, s₁, hs₁, hs₂⟩

end Connect

/-! ## Runs -/

section Runs

variable (sock isn : Nat) (s : NetIn) (a : Arrival)

/-- The segment comes from the peer of the socket. -/
def FromPeer (socket : Socket) (p : Bytes) : Prop :=
  ipAt p ipv4SrcIp = socket.dipv4 ∧ segSrcPort p = socket.dstp

/-- The transitions into ESTABLISHED and out of it, for a client whose
SYN had the number `isn`. -/
structure Lawful (s' : NetIn) : Prop where
  opened : (s.sockets sock).socktype = .client → (s.sockets sock).state = .synSent →
    (s'.sockets sock).state = .established →
      segFlags a.buff.payload = flagsSynAck ∧ segAck a.buff.payload = u32 (isn + 1)
  left : (s.sockets sock).state = .established → (s'.sockets sock).state ≠ .established →
    segFlags a.buff.payload &&& (flagsFin ||| flagsRst) ≠ 0
      ∧ FromPeer (s.sockets sock) a.buff.payload

/-- `tcp_input` takes the segment as the law says. -/
def TakenLawfully : Prop := ∀ s', s.arrive a = some s' → Lawful sock isn s a s'

/-- A segment for a client in SYN_SENT carries no data, and if it is a SYN
ACK, it acknowledges the SYN. -/
def FitsSynSent (status : PortStatus) (p : Bytes) : Prop :=
  segFlags p ≠ flagsPshAck
    ∧ (status = .up → segFlags p = flagsSynAck → segAck p = u32 (isn + 1))

/-- A segment for a connected socket carries no data and is no SYN ACK, if
the socket is a server's; it is no SYN for a port on which a server
listens; and if it is a FIN or RST, it comes from the peer. -/
def FitsEstablished (status : PortStatus) (socket : Socket) (p : Bytes) : Prop :=
  (socket.socktype = .server →
      segFlags p ≠ flagsPshAck ∧ (status = .up → segFlags p ≠ flagsSynAck))
    ∧ (status = .listen → segFlags p ≠ flagsSyn)
    ∧ (segFlags p = flagsFinAck ∨ segFlags p = flagsRstAck → FromPeer socket p)

/-- The segment is none of those that move the socket into ESTABLISHED or
out of it against the law. -/
def Fits : Prop :=
  let port := s.portOf a.buff.payload
  let socket := s.sockets sock
  port.sock = sock → port.status.Open →
    (socket.socktype = .client → socket.state = .synSent →
        FitsSynSent isn port.status a.buff.payload)
      ∧ (socket.state = .established → FitsEstablished port.status socket a.buff.payload)

variable {sock isn s a} {s' : NetIn}

/-- The state of the socket of the port, and of any other. -/
theorem arrive_state (h : s.arrive a = some s') :
    (s'.sockets sock).state
      = if (s.portOf a.buff.payload).sock = sock then
          segState (s.portOf a.buff.payload).status (s.sockets sock) (segFlags a.buff.payload)
        else (s.sockets sock).state := by
  obtain ⟨reply, -, hhandles⟩ := tcpInput_handles h
  split
  case isTrue hsock =>
    rw [hsock] at hhandles
    rw [hhandles.self, segSocket_state]
  case isFalse hsock => rw [hhandles.other (Ne.symm hsock)]

theorem Fits.lawful (h : Fits sock isn s a) (hs : s.arrive a = some s') :
    Lawful sock isn s a s' := by
  have hstate := @arrive_state sock s a s' hs
  by_cases hsock : (s.portOf a.buff.payload).sock = sock
  swap
  · rw [if_neg hsock] at hstate
    refine ⟨fun _ hsyn hest => ?_, fun hest hne => ?_⟩
    · rw [hstate, hsyn] at hest
      cases hest
    · exact absurd (hstate.trans hest) hne
  rw [if_pos hsock] at hstate
  refine ⟨fun hclient hsyn hest => ?_, fun hest hne => ?_⟩
  · rw [hstate, segState_of_synSent hclient hsyn] at hest
    rcases hest with ⟨hopen, hpsh⟩ | ⟨hup, hack⟩
    · exact absurd hpsh ((h hsock hopen).1 hclient hsyn).1
    · exact ⟨hack, ((h hsock (Or.inl hup)).1 hclient hsyn).2 hup hack⟩
  · rw [hstate, segState_of_established hest] at hne
    rcases hne with
      ⟨hopen, hflags⟩ | ⟨hserver, hopen, hpsh⟩ | ⟨hserver, hup, hack⟩ | ⟨hlisten, hsyn⟩
    · obtain ⟨-, -, hpeer⟩ := (h hsock hopen).2 hest
      refine ⟨?_, hpeer hflags⟩
      rcases hflags with hfin | hrst
      · rw [hfin]
        decide
      · rw [hrst]
        decide
    · exact absurd hpsh (((h hsock hopen).2 hest).1 hserver).1
    · exact absurd hack ((((h hsock (Or.inl hup)).2 hest).1 hserver).2 hup)
    · exact absurd hsyn (((h hsock (Or.inr hlisten)).2 hest).2.1 hlisten)

theorem Lawful.fits (h : Lawful sock isn s a s') (hs : s.arrive a = some s') :
    Fits sock isn s a := by
  intro hsock hopen
  have hstate := @arrive_state sock s a s' hs
  rw [if_pos hsock] at hstate
  refine ⟨fun hclient hsyn => ⟨fun hpsh => ?_, fun hup hack => ?_⟩, fun hest => ?_⟩
  · have hnew := (segState_of_synSent hclient hsyn).mpr (Or.inl ⟨hopen, hpsh⟩)
    have hlaw := (h.opened hclient hsyn (hstate.trans hnew)).1
    rw [hpsh] at hlaw
    exact absurd hlaw (by decide)
  · have hnew := (segState_of_synSent hclient hsyn).mpr (Or.inr ⟨hup, hack⟩)
    exact (h.opened hclient hsyn (hstate.trans hnew)).2
  · have hleft := fun hcase => h.left hest (fun hsame =>
      segState_of_established hest |>.mpr hcase (hstate.symm.trans hsame))
    refine ⟨fun hserver => ⟨fun hpsh => ?_, fun hup hack => ?_⟩, fun hlisten hsyn => ?_,
      fun hflags => (hleft (Or.inl ⟨hopen, hflags⟩)).2⟩
    · have hbits := (hleft (Or.inr (Or.inl ⟨hserver, hopen, hpsh⟩))).1
      rw [hpsh] at hbits
      exact absurd hbits (by decide)
    · have hbits := (hleft (Or.inr (Or.inr (Or.inl ⟨hserver, hup, hack⟩)))).1
      rw [hack] at hbits
      exact absurd hbits (by decide)
    · have hbits := (hleft (Or.inr (Or.inr (Or.inr ⟨hlisten, hsyn⟩)))).1
      rw [hsyn] at hbits
      exact absurd hbits (by decide)

theorem takenLawfully_iff_fits (h : (s.arrive a).isSome) :
    TakenLawfully sock isn s a ↔ Fits sock isn s a := by
  obtain ⟨s', hs⟩ := Option.isSome_iff_exists.mp h
  exact ⟨fun hlaw => (hlaw s' hs).fits hs, fun hfits s' hs => hfits.lawful hs⟩

end Runs

/-- Along a run of segments the state ESTABLISHED is reached and left as
it should be exactly when every segment fits, and `sys_connect` returns 0
in ESTABLISHED only exactly when one of the 30 sleeps ends in it. -/
theorem established_safety (sock : Nat) (net : NetIn) (segments : List Arrival)
    (hback : Always NetIn.arrive (fun s a => (s.arrive a).isSome) net segments)
    (env : NetEnv) (s s₁ s' : NetIn) (pid port : Nat) (ip : IpAddr)
    (during : Nat → NetIn → Option NetIn) (result : Int)
    (hstart : s.startConnect env pid sock ip port = some s₁)
    (hconnect : s.sysConnect env pid sock sockStream ip port during = some (s', result)) :
    (Always NetIn.arrive (TakenLawfully sock (net.sockets sock).seq) net segments
        ↔ Always NetIn.arrive (Fits sock (net.sockets sock).seq) net segments)
      ∧ ((result = 0 → (s'.sockets sock).state = .established)
        ↔ ∃ i ≤ 30, ∃ t, NetIn.sleeps during s₁ i = some t ∧ (t.sockets sock).state = .established) := by
  refine ⟨always_congr_of_invariant (I := fun _ => True) (fun _ _ _ _ _ _ _ => trivial)
    (fun _ _ _ h => takenLawfully_iff_fits h) trivial hback, ?_⟩
  obtain ⟨rfl, s₂, hs₂, hwait⟩ := sysConnect_stream hconnect
  obtain rfl := Option.some.inj (hstart.symm.trans hs₂)
  refine (imp_iff_right rfl).trans ((waitEstablished_iff rfl hwait).trans ⟨?_, ?_⟩)
  · rintro ⟨i, t, -, hi, ht⟩
    exact ⟨i, by omega, t, ht⟩
  · rintro ⟨i, hi, t, ht⟩
    exact ⟨i, t, Nat.zero_le i, by omega, ht⟩

/-! ## A handshake, and a data segment that is taken for one -/

/-- The peer's data segment of one byte. -/
def dataArrival : Arrival := ⟨silentEnv, ReceiveRun.firstByte.buff⟩

/-- The answer of the gateway comes in every sleep. -/
def answered (_ : Nat) (s : NetIn) : Option NetIn :=
  s.tcpInput silentEnv SynRun.gatewayCall.answer

theorem established_safety_answered : ∃ s', (SynRun.idleNet.sysConnect SendRun.blankEnv 1 0 sockStream
    testNetif.gw 80 answered = some (s', 0)) ∧ (s'.sockets 0).state = .established := by
  have hstart : (SynRun.idleNet.startConnect SendRun.blankEnv 1 0 testNetif.gw 80).isSome := by
    decide +kernel
  obtain ⟨s₁, hs₁⟩ := Option.isSome_iff_exists.mp hstart
  have hresult : (SynRun.idleNet.sysConnect SendRun.blankEnv 1 0 sockStream testNetif.gw 80
      answered).map Prod.snd = some 0 := by decide +kernel
  obtain ⟨⟨s', result⟩, hconnect, rfl⟩ := Option.map_eq_some_iff.mp hresult
  have hsleep : ((SynRun.idleNet.startConnect SendRun.blankEnv 1 0 testNetif.gw 80).bind
      fun s => NetIn.sleeps answered s 1).map (fun s => (s.sockets 0).state) = some .established := by
    decide +kernel
  rw [hs₁, Option.bind_some] at hsleep
  obtain ⟨t, ht, hstate⟩ := Option.map_eq_some_iff.mp hsleep
  have hback : (ReceiveRun.openNet.arrive dataArrival).isSome := by decide +kernel
  have hsafe := established_safety 0 ReceiveRun.openNet [dataArrival] ⟨hback, fun _ _ => trivial⟩
    SendRun.blankEnv SynRun.idleNet s₁ s' 1 80 testNetif.gw answered 0 hs₁ hconnect
  exact ⟨s', hconnect, hsafe.2.mpr ⟨1, by decide, t, ht, hstate⟩ rfl⟩

/-- A client that waits for the answer to its SYN. -/
def synSentNet : NetIn :=
  ReceiveRun.openNet.setSocket 0 { ReceiveRun.openNet.sockets 0 with state := .synSent }

/-- No answer in any sleep. -/
def unanswered (_ : Nat) (s : NetIn) : Option NetIn := some s

/-- A data segment opens the connection, and `sys_connect` returns 0 for a
peer that does not answer. -/
theorem established_safety_fails :
    (¬ ∀ (sock : Nat) (net : NetIn) (segments : List Arrival),
      Always NetIn.arrive (TakenLawfully sock (net.sockets sock).seq) net segments)
    ∧ ¬ ∀ (env : NetEnv) (s s' : NetIn) (pid sock port : Nat) (ip : IpAddr)
        (during : Nat → NetIn → Option NetIn),
        s.sysConnect env pid sock sockStream ip port during = some (s', 0) →
          (s'.sockets sock).state = .established := by
  refine ⟨fun hall => ?_, fun hall => ?_⟩
  · have hlaw := (hall 0 synSentNet [dataArrival]).1
    have hstate : (synSentNet.arrive dataArrival).map (fun s => (s.sockets 0).state)
        = some .established := by decide +kernel
    obtain ⟨s', hs, hest⟩ := Option.map_eq_some_iff.mp hstate
    exact absurd ((hlaw s' hs).opened rfl rfl hest).1 (by decide)
  · have hresult : (SynRun.idleNet.sysConnect SendRun.blankEnv 1 0 sockStream testNetif.gw 80
        unanswered).map (fun r => (r.2, (r.1.sockets 0).state)) = some (0, .synSent) := by
      decide +kernel
    obtain ⟨⟨s', result⟩, hconnect, hr⟩ := Option.map_eq_some_iff.mp hresult
    obtain ⟨rfl, hsyn⟩ := Prod.mk.inj hr
    rw [hall _ _ s' _ _ _ _ _ hconnect] at hsyn
    cases hsyn

end Csos
