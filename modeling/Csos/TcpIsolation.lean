import Csos.TcpEstablished

/-!
# Connections and strangers

A port has one socket, and `tcp_input` does not look at where a segment
comes from. So a stranger's segment does to a connection what the peer's
would do. `Quiet` collects the segments that change nothing: flags that
`tcp_input` ignores, and the few segments whose numbers are the ones that
the socket has already.
-/

namespace Csos

open Lib

/-! ## The connection of a socket -/

/-- The fields of a socket that belong to its connection. -/
structure Connection where
  state : TcpState
  seq : Nat
  ack : Nat
  dipv4 : IpAddr
  dstp : Nat

def Socket.connection (socket : Socket) : Connection :=
  ⟨socket.state, socket.seq, socket.ack, socket.dipv4, socket.dstp⟩

/-! ## Segments that change nothing -/

/-- `tcp_ack` leaves the state, and the numbers are those of the socket. -/
structure Repeats (socket : Socket) (p : Bytes) (ack : Nat) : Prop where
  state : ackState socket = socket.state
  seq : segAck p = socket.seq
  ack : ack = socket.ack

/-- An ACK that neither changes the state nor moves the numbers. -/
structure QuietAck (socket : Socket) (p : Bytes) : Prop where
  finWait1 : socket.state ≠ .finWait1
  synReceived : socket.state ≠ .synReceived
  established : socket.state = .established → segSeq p = socket.ack ∧ segAck p = socket.seq

/-- The segments that change nothing at a port that is up. -/
def QuietUp (socket : Socket) (p : Bytes) : Prop :=
  if segFlags p = flagsFinAck then
    finackState { socket with state := ackState socket } = socket.state ∧ segAck p = socket.seq
      ∧ u32 (segSeq p + 1) = socket.ack ∧ segDstPort p = socket.dstp
  else if segFlags p = flagsSynAck then Repeats socket p (u32 (segSeq p + 1))
  else if segFlags p = flagsRstAck then False
  else if segFlags p = flagsPshAck then Repeats socket p (u32 (socket.ack + segDataLen p))
  else if segFlags p = flagsAck then QuietAck socket p
  else True

/-- The segments that change nothing at a port on which a server
listens. -/
def QuietListen (socket : Socket) (p : Bytes) : Prop :=
  if segFlags p = flagsFinAck then
    socket.state ≠ .established
      ∧ (socket.state = .closeWait → Repeats socket p (u32 (segSeq p + 1)))
  else if segFlags p = flagsRstAck then False
  else if segFlags p = flagsPshAck then Repeats socket p (u32 (socket.ack + segDataLen p))
  else if segFlags p = flagsSyn then False
  else if segFlags p = flagsAck then QuietAck socket p
  else True

def Quiet (status : PortStatus) (socket : Socket) (p : Bytes) : Prop :=
  match status with
  | .up => QuietUp socket p
  | .listen => QuietListen socket p
  | _ => True

/-- The socket has got beyond LISTEN. -/
def PastListen (socket : Socket) : Prop := socket.state ≠ .closed ∧ socket.state ≠ .listen

section Quiet

variable {status : PortStatus} {random : Nat} {socket : Socket} {p reply : Bytes}

theorem ackSocket_connection {ack : Nat} (hack : (ackSocket socket p).ack = ack) :
    (ackSocket socket p).connection = socket.connection ↔ Repeats socket p ack := by
  rw [Socket.connection, Socket.connection, Connection.mk.injEq, hack]
  refine ⟨fun h => ⟨h.1, h.2.1, h.2.2.1⟩, fun h => ⟨h.state, h.seq, h.ack, rfl, rfl⟩⟩

theorem ackedSocket_connection :
    (ackedSocket socket p).connection = socket.connection ↔ QuietAck socket p := by
  cases hstate : socket.state with
  | finWait1 =>
      refine iff_of_false (fun h => ?_) fun h => h.finWait1 hstate
      have hnew := congrArg Connection.state h
      rw [Socket.connection, Socket.connection, ackedSocket_state, hstate] at hnew
      cases hnew
  | synReceived =>
      refine iff_of_false (fun h => ?_) fun h => h.synReceived hstate
      have hnew := congrArg Connection.state h
      rw [Socket.connection, Socket.connection, ackedSocket_state, hstate] at hnew
      cases hnew
  | established =>
      rw [ackedSocket, hstate, Socket.connection, Socket.connection, Connection.mk.injEq]
      refine ⟨fun h => ⟨?_, ?_, fun _ => ⟨h.2.2.1, h.2.1⟩⟩, fun h => ?_⟩
      · rw [hstate]
        decide
      · rw [hstate]
        decide
      · obtain ⟨hack, hseq⟩ := h.established hstate
        exact ⟨hstate.symm, hseq, hack, rfl, rfl⟩
  | _ =>
      rw [ackedSocket, hstate]
      refine iff_of_true rfl ⟨?_, ?_, fun h => ?_⟩
      · rw [hstate]
        decide
      · rw [hstate]
        decide
      · rw [hstate] at h
        cases h

/-- An RST ends every connection. -/
theorem closed_connection (hpast : PastListen socket) :
    { socket with state := .closed }.connection ≠ socket.connection := fun h =>
  hpast.1 (congrArg Connection.state h).symm

theorem finackSocket_connection {srcp dstp : Nat} :
    (finackSocket { ackSocket socket p with srcp, dstp }).connection
      = ⟨finackState { socket with state := ackState socket }, segAck p, (ackSocket socket p).ack,
          socket.dipv4, dstp⟩ :=
  congrArg (fun state =>
    (⟨state, segAck p, (ackSocket socket p).ack, socket.dipv4, dstp⟩ : Connection))
    (finackState_congr rfl rfl)

/-- The flags decide at the same time what becomes of the socket and whether
that is quiet. -/
theorem ite_connection_iff {c : Prop} [Decidable c] {x y : Socket} {k : Connection} {P Q : Prop}
    (hx : c → (x.connection = k ↔ P)) (hy : ¬ c → (y.connection = k ↔ Q)) :
    (if c then x else y).connection = k ↔ if c then P else Q := by
  by_cases hc : c
  · rw [if_pos hc, if_pos hc]
    exact hx hc
  · rw [if_neg hc, if_neg hc]
    exact hy hc

theorem segSocketUp_connection (hpast : segFlags p = flagsRstAck → PastListen socket)
    (hport : segSrcPort reply = segDstPort p) :
    (segSocketUp socket p reply).connection = socket.connection ↔ QuietUp socket p := by
  refine ite_connection_iff (fun hfin => ?_) fun _ => ?_
  · rw [finackSocket_connection, ackSocket_ack_finAck hfin, hport, Socket.connection,
      Connection.mk.injEq]
    exact ⟨fun h => ⟨h.1, h.2.1, h.2.2.1, h.2.2.2.2⟩, fun h => ⟨h.1, h.2.1, h.2.2.1, rfl, h.2.2.2⟩⟩
  refine ite_connection_iff (fun hsyn => ?_) fun _ => ?_
  · exact ackSocket_connection (ackSocket_ack_synAck hsyn)
  refine ite_connection_iff (fun hrst => ?_) fun _ => ?_
  · exact iff_of_false (closed_connection (hpast hrst)) not_false
  refine ite_connection_iff (fun hpsh => ?_) fun _ => ?_
  · exact ackSocket_connection (ackSocket_ack_pshAck hpsh)
  exact ite_connection_iff (fun _ => ackedSocket_connection) fun _ => iff_of_true rfl trivial

/-- A FIN ACK at a port on which a server listens. -/
theorem finListen_connection (hfin : segFlags p = flagsFinAck) :
    Socket.connection (match socket.state with
      | .established => finackSocket (ackSocket socket p)
      | .closeWait => ackSocket socket p
      | _ => socket) = socket.connection
    ↔ socket.state ≠ .established
        ∧ (socket.state = .closeWait → Repeats socket p (u32 (segSeq p + 1))) := by
  cases hstate : socket.state with
  | established =>
      refine iff_of_false (fun h => ?_) fun h => h.1 rfl
      have hnew := congrArg Connection.state h
      change finackState (ackSocket socket p) = socket.state at hnew
      rw [finackState_ackSocket, ackState, finackState, hstate] at hnew
      cases htype : socket.socktype with
      | client =>
          rw [htype] at hnew
          cases hnew
      | server =>
          rw [htype] at hnew
          cases hnew
  | closeWait =>
      rw [ackSocket_connection (ackSocket_ack_finAck hfin)]
      exact ⟨fun h => ⟨by decide, fun _ => h⟩, fun h => h.2 rfl⟩
  | _ =>
      refine iff_of_true rfl ⟨by decide, fun h => ?_⟩
      cases h

/-- A SYN gives the socket to its sender. -/
theorem synackSocket_connection (hforeign : ¬ FromPeer socket p) :
    (synackSocket random socket p).connection ≠ socket.connection := fun h =>
  hforeign ⟨congrArg Connection.dipv4 h, congrArg Connection.dstp h⟩

theorem segSocketListen_connection (hpast : segFlags p = flagsRstAck → PastListen socket)
    (hforeign : segFlags p = flagsSyn → ¬ FromPeer socket p) :
    (segSocketListen random socket p).connection = socket.connection ↔ QuietListen socket p := by
  refine ite_connection_iff (fun hfin => ?_) fun _ => ?_
  · exact finListen_connection hfin
  refine ite_connection_iff (fun hrst => ?_) fun _ => ?_
  · exact iff_of_false (closed_connection (hpast hrst)) not_false
  refine ite_connection_iff (fun hpsh => ?_) fun _ => ?_
  · exact ackSocket_connection (ackSocket_ack_pshAck hpsh)
  refine ite_connection_iff (fun hsyn => ?_) fun _ => ?_
  · exact iff_of_false (synackSocket_connection (hforeign hsyn)) not_false
  exact ite_connection_iff (fun _ => ackedSocket_connection) fun _ => iff_of_true rfl trivial

/-- A stranger's segment leaves a connection alone just when it is
quiet. -/
theorem segSocket_connection (hpast : PastListen socket) (hforeign : ¬ FromPeer socket p)
    (hport : segSrcPort reply = segDstPort p) :
    (segSocket status random socket p reply).connection = socket.connection
      ↔ Quiet status socket p := by
  cases status with
  | up => exact segSocketUp_connection (fun _ => hpast) hport
  | listen => exact segSocketListen_connection (fun _ => hpast) fun _ => hforeign
  | _ => exact iff_of_true rfl trivial

/-- A quiet segment leaves any socket alone, whoever sent it. -/
theorem Quiet.connection (h : Quiet status socket p) (hport : segSrcPort reply = segDstPort p) :
    (segSocket status random socket p reply).connection = socket.connection := by
  cases status with
  | up =>
      refine (segSocketUp_connection (fun hrst => ?_) hport).mpr h
      rw [Quiet, QuietUp, hrst, if_neg (by decide), if_neg (by decide), if_pos rfl] at h
      exact h.elim
  | listen =>
      refine (segSocketListen_connection (fun hrst => ?_) fun hsyn => ?_).mpr h
      · rw [Quiet, QuietListen, hrst, if_neg (by decide), if_pos rfl] at h
        exact h.elim
      · rw [Quiet, QuietListen, hsyn, if_neg (by decide), if_neg (by decide), if_neg (by decide),
          if_pos rfl] at h
        exact h.elim
  | _ => rfl

end Quiet

section Role

variable {status : PortStatus} {random : Nat} {socket : Socket} {p reply : Bytes}

theorem ackedSocket_socktype : (ackedSocket socket p).socktype = socket.socktype := by
  rw [ackedSocket]
  cases socket.state <;> rfl

/-- The role of a socket is settled. -/
theorem segSocket_socktype :
    (segSocket status random socket p reply).socktype = socket.socktype := by
  cases status with
  | up =>
      simp only [segSocket, segSocketUp, apply_ite Socket.socktype, ackedSocket_socktype, ackSocket,
        finackSocket, ite_self]
  | listen =>
      simp only [segSocket, segSocketListen, apply_ite Socket.socktype, ackedSocket_socktype,
        ackSocket, synackSocket, ite_self]
      cases socket.state <;> simp only [finackSocket, ite_self]
  | _ => rfl

end Role

/-! ## Sockets with the same connection -/

/-- Two sockets in the same role with the same connection. -/
structure Same (socket socket' : Socket) : Prop where
  socktype : socket'.socktype = socket.socktype
  connection : socket'.connection = socket.connection

section Same

variable {status : PortStatus} {random : Nat} {socket socket' : Socket} {p reply reply' : Bytes}

theorem Same.state (h : Same socket socket') : socket'.state = socket.state :=
  congrArg Connection.state h.connection

theorem Same.ack (h : Same socket socket') : socket'.ack = socket.ack :=
  congrArg Connection.ack h.connection

theorem Same.seq (h : Same socket socket') : socket'.seq = socket.seq :=
  congrArg Connection.seq h.connection

theorem Same.dipv4 (h : Same socket socket') : socket'.dipv4 = socket.dipv4 :=
  congrArg Connection.dipv4 h.connection

theorem Same.dstp (h : Same socket socket') : socket'.dstp = socket.dstp :=
  congrArg Connection.dstp h.connection

theorem Same.mk' (htype : socket'.socktype = socket.socktype)
    (hstate : socket'.state = socket.state)
    (hseq : socket'.seq = socket.seq) (hack : socket'.ack = socket.ack)
    (hdipv4 : socket'.dipv4 = socket.dipv4) (hdstp : socket'.dstp = socket.dstp) :
    Same socket socket' :=
  ⟨htype, by rw [Socket.connection, Socket.connection, hstate, hseq, hack, hdipv4, hdstp]⟩

theorem Same.ackSocket (h : Same socket socket') :
    Same (ackSocket socket p) (Csos.ackSocket socket' p) := by
  refine Same.mk' h.socktype (ackState_congr h.socktype h.state) rfl ?_ h.dipv4 h.dstp
  rw [Csos.ackSocket, Csos.ackSocket, h.ack]

theorem Same.finackSocket (h : Same socket socket') :
    Same (finackSocket socket) (Csos.finackSocket socket') :=
  Same.mk' h.socktype (finackState_congr h.socktype h.state) h.seq h.ack h.dipv4 h.dstp

theorem Same.ackedSocket (h : Same socket socket') :
    Same (ackedSocket socket p) (Csos.ackedSocket socket' p) := by
  rw [Csos.ackedSocket, Csos.ackedSocket, h.state]
  cases socket.state with
  | finWait1 => exact Same.mk' h.socktype rfl h.seq h.ack h.dipv4 h.dstp
  | synReceived => exact Same.mk' h.socktype rfl h.seq h.ack h.dipv4 h.dstp
  | established => exact Same.mk' h.socktype rfl rfl rfl h.dipv4 h.dstp
  | _ => exact h

theorem Same.closed (h : Same socket socket') :
    Same { socket with state := .closed } { socket' with state := .closed } :=
  Same.mk' h.socktype rfl h.seq h.ack h.dipv4 h.dstp

theorem Same.segSocketUp (h : Same socket socket')
    (hport : segSrcPort reply' = segSrcPort reply) :
    Same (segSocketUp socket p reply) (Csos.segSocketUp socket' p reply') := by
  rw [Csos.segSocketUp, Csos.segSocketUp]
  split
  · have hack : Same (Csos.ackSocket socket p) (Csos.ackSocket socket' p) := h.ackSocket
    refine Same.finackSocket (Same.mk' ?_ hack.state hack.seq hack.ack hack.dipv4 hport)
    exact hack.socktype
  split
  · exact h.ackSocket
  split
  · exact h.closed
  split
  · exact h.ackSocket
  split
  · exact h.ackedSocket
  · exact h

theorem Same.segSocketListen (h : Same socket socket') :
    Same (segSocketListen random socket p) (Csos.segSocketListen random socket' p) := by
  rw [Csos.segSocketListen, Csos.segSocketListen, h.state]
  split
  · cases socket.state with
    | established => exact h.ackSocket.finackSocket
    | closeWait => exact h.ackSocket
    | _ => exact h
  split
  · exact h.closed
  split
  · exact h.ackSocket
  split
  · exact Same.mk' h.socktype rfl rfl rfl rfl rfl
  split
  · exact h.ackedSocket
  · exact h

theorem Same.segSocket (h : Same socket socket') (hport : segSrcPort reply' = segSrcPort reply) :
    Same (segSocket status random socket p reply)
      (Csos.segSocket status random socket' p reply') := by
  cases status with
  | up => exact h.segSocketUp hport
  | listen => exact h.segSocketListen
  | _ => exact h

end Same

/-! ## Runs -/

section Runs

variable {sock : Nat} {s s' t t' : NetIn} {a : Arrival} {ip : IpAddr} {port : Nat}

/-- The segment comes from this address and this port. -/
def Arrival.isFrom (ip : IpAddr) (port : Nat) (a : Arrival) : Bool :=
  ipAt a.buff.payload ipv4SrcIp = ip ∧ segSrcPort a.buff.payload = port

/-- The segment changes nothing of the socket. -/
def QuietFor (sock : Nat) (s : NetIn) (a : Arrival) : Prop :=
  let port := s.portOf a.buff.payload
  port.sock = sock → Quiet port.status (s.sockets sock) a.buff.payload

/-- The two states have the same ports, and the same connection in the
socket. -/
structure Alike (sock : Nat) (s t : NetIn) : Prop where
  ports : t.ports = s.ports
  same : Same (s.sockets sock) (t.sockets sock)

theorem Alike.shown (h : Alike sock s t) (hp : IsTcp a.buff.payload) (hs : s.arrive a = some s')
    (ht : t.arrive a = some t') : Alike sock s' t' := by
  obtain ⟨reply, hreply, hs⟩ := tcpInput_handles hs
  obtain ⟨reply', hreply', ht⟩ := tcpInput_handles ht
  have hport : t.portOf a.buff.payload = s.portOf a.buff.payload := by
    rw [NetIn.portOf, NetIn.portOf, h.ports]
  rw [hport] at ht
  refine ⟨by rw [hs.ports, ht.ports, h.ports], ?_⟩
  by_cases hsock : (s.portOf a.buff.payload).sock = sock
  · rw [hsock] at hs ht
    rw [hs.self, ht.self]
    exact h.same.segSocket ((hreply' hp).1.trans (hreply hp).1.symm)
  · rw [hs.other (Ne.symm hsock), ht.other (Ne.symm hsock)]
    exact h.same

theorem Alike.hidden (h : Alike sock s t) (hp : IsTcp a.buff.payload) (hquiet : QuietFor sock s a)
    (hs : s.arrive a = some s') : Alike sock s' t := by
  obtain ⟨reply, hreply, hs⟩ := tcpInput_handles hs
  refine ⟨h.ports.trans hs.ports.symm, ?_⟩
  by_cases hsock : (s.portOf a.buff.payload).sock = sock
  · rw [hsock] at hs
    have hconnection :
        (segSocket _ (a.env.xrandom 0) (s.sockets sock) a.buff.payload reply).connection
        = (s.sockets sock).connection := (hquiet hsock).connection (hreply hp).1
    rw [hs.self]
    exact ⟨h.same.socktype.trans segSocket_socktype.symm, h.same.connection.trans hconnection.symm⟩
  · rw [hs.other (Ne.symm hsock)]
    exact h.same

end Runs

/-- Of the segments for the port of a connection beyond LISTEN that are
not its peer's, just the quiet ones leave it unchanged; and when all
segments of others are quiet, they change nothing about how the segments
from one address and port are taken. -/
theorem connection_isolation (sock : Nat) (s s' : NetIn) (a : Arrival) (hs : s.arrive a = some s')
    (htcp : IsTcp a.buff.payload) (hport : (s.portOf a.buff.payload).sock = sock)
    (hpast : PastListen (s.sockets sock)) (hforeign : ¬ FromPeer (s.sockets sock) a.buff.payload)
    (ip : IpAddr) (port : Nat) (net t t' : NetIn) (segments : List Arrival)
    (htcps : ∀ a ∈ segments, IsTcp a.buff.payload)
    (hquiet : Always NetIn.arrive (fun s a => a.isFrom ip port = false → QuietFor sock s a) net
      segments)
    (hrun : run NetIn.arrive net segments = some t)
    (halone : run NetIn.arrive net (segments.filter (Arrival.isFrom ip port)) = some t') :
    ((s'.sockets sock).connection = (s.sockets sock).connection
        ↔ Quiet (s.portOf a.buff.payload).status (s.sockets sock) a.buff.payload)
      ∧ (t'.sockets sock).connection = (t.sockets sock).connection := by
  refine ⟨?_, ?_⟩
  · obtain ⟨reply, hreply, hhandles⟩ := tcpInput_handles hs
    rw [hport] at hhandles
    rw [hhandles.self]
    have hswap : segSrcPort reply = segDstPort a.buff.payload := (hreply htcp).1
    exact segSocket_connection hpast hforeign hswap
  · have halike : Alike sock t t' :=
      run_filter (R := Alike sock) (B := fun a => IsTcp a.buff.payload) (P := QuietFor sock)
        (fun _ _ a _ _ h hp _ hs ht => h.shown (a := a) hp hs ht)
        (fun _ _ a _ h hp _ hquiet hs => h.hidden (a := a) hp hquiet hs)
        ⟨rfl, rfl, rfl⟩ htcps hquiet hrun halone
    exact halike.same.connection

/-- A segment with these flags from port 80 of 2.2.2.2, for port 20000. -/
def strangerSegment (flags : BitVec 8) : Arrival where
  env := silentEnv
  buff :=
    { length := 54
      payload := fun b =>
        ([0x52, 0x52, 0x52, 0x52, 0x52, 0x52, 0x53, 0x53, 0x53, 0x53, 0x53, 0x53, 0x08, 0x00,
          0x45, 0, 0, 40, 0, 0, 0, 0, 64, 6, 0, 0, 2, 2, 2, 2, 10, 10, 10, 10,
          0, 80, 0x4E, 0x20, 0, 0, 0, 0, 0, 0, 0, 0, 0x50, flags] : List (BitVec 8))[b]?.getD 0 }

theorem not_fromPeer_stranger :
    ¬ FromPeer (ReceiveRun.openNet.sockets 0) (strangerSegment 0x02).buff.payload := by
  rintro ⟨hip, -⟩
  exact absurd (congrFun hip 0) (by decide)

/-- A SYN for a port that is up is ignored. -/
theorem connection_isolation_syn : ∃ s', ReceiveRun.openNet.arrive (strangerSegment 0x02) = some s'
    ∧ (s'.sockets 0).connection = (ReceiveRun.openNet.sockets 0).connection := by
  have hback : (ReceiveRun.openNet.arrive (strangerSegment 0x02)).isSome := by decide +kernel
  obtain ⟨s', hs⟩ := Option.isSome_iff_exists.mp hback
  have htcp : IsTcp (strangerSegment 0x02).buff.payload := ⟨by decide, by decide⟩
  have hflags : segFlags (strangerSegment 0x02).buff.payload = flagsSyn := by decide
  have hquiet : Quiet .up (ReceiveRun.openNet.sockets 0) (strangerSegment 0x02).buff.payload := by
    rw [Quiet, QuietUp, hflags, if_neg (by decide), if_neg (by decide), if_neg (by decide),
      if_neg (by decide), if_neg (by decide)]
    trivial
  have hrun : run NetIn.arrive ReceiveRun.openNet [strangerSegment 0x02] = some s' := by
    rw [run_cons, hs, Option.bind_some, run_nil]
  have halone : run NetIn.arrive ReceiveRun.openNet
      ([strangerSegment 0x02].filter (Arrival.isFrom testNetif.gw 80)) = some ReceiveRun.openNet := by
    rw [List.filter_cons_of_neg (by decide), List.filter_nil, run_nil]
  have hisolated := connection_isolation 0 ReceiveRun.openNet s' (strangerSegment 0x02) hs htcp rfl
    ⟨nofun, nofun⟩ not_fromPeer_stranger testNetif.gw 80 ReceiveRun.openNet s' ReceiveRun.openNet
    [strangerSegment 0x02] (List.forall_mem_singleton.mpr htcp)
    ⟨fun _ _ => hquiet, fun _ _ => trivial⟩
    hrun halone
  exact ⟨s', hs, hisolated.1.mpr hquiet⟩

/-- An RST from anywhere closes the connection. -/
theorem connection_isolation_fails : ¬ ∀ (sock : Nat) (s s' : NetIn) (a : Arrival),
    s.arrive a = some s' → IsTcp a.buff.payload → (s.portOf a.buff.payload).sock = sock →
      PastListen (s.sockets sock) → ¬ FromPeer (s.sockets sock) a.buff.payload →
        (s'.sockets sock).connection = (s.sockets sock).connection := by
  intro hall
  have hstate :
      (ReceiveRun.openNet.arrive (strangerSegment 0x14)).map (fun s => (s.sockets 0).state)
      = some .closed := by decide +kernel
  obtain ⟨s', hs, hclosed⟩ := Option.map_eq_some_iff.mp hstate
  have hforeign :
      ¬ FromPeer (ReceiveRun.openNet.sockets 0) (strangerSegment 0x14).buff.payload := by
    rintro ⟨hip, -⟩
    exact absurd (congrFun hip 0) (by decide)
  have hsame := hall 0 ReceiveRun.openNet s' (strangerSegment 0x14) hs ⟨by decide, by decide⟩ rfl
    ⟨nofun, nofun⟩ hforeign
  have hstate := congrArg Connection.state hsame
  change (s'.sockets 0).state = .established at hstate
  rw [hclosed] at hstate
  cases hstate

end Csos
