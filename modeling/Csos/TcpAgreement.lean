import Csos.TcpEstablished

/-!
# The two ends of a connection (`tcp_syn`, `tcp_synack`, `tcp_ack`, `tcp_build`)

Two kernels on one link: a client that calls `tcp_syn` and then sends with
`tcp_build`, and a server that listens. The link delivers every segment
once and in order, and a call runs without a break.

`seq` and `ack` of the two sockets move at different calls: at the client
when the ACK comes back, at the server when the data arrive, by what the
headers say. In between, the number that both will have is in the segment
on the way; `Phase` says where. It survives every step, and with nothing
on the way it is the law.
-/

namespace Csos

open Lib

/-! ## What `tcp_input` does, at once -/

section Exact

variable {env : NetEnv} {s s' : NetIn} {sock length i : Nat} {p : Bytes} {buff : Frame}

theorem bind_fst_eq_map (r : Option (NetIn × Frame)) :
    (do let (s, _) ← r; return s : Option NetIn) = r.map Prod.fst := by
  rw [Option.map_eq_bind]
  rfl

/-- Data at an open port, and a SYN ACK at one that is up. -/
theorem tcpInput_tcpAck
    (h : (s.portOf buff.payload).status.Open ∧ segFlags buff.payload = flagsPshAck
      ∨ (s.portOf buff.payload).status = .up ∧ segFlags buff.payload = flagsSynAck) :
    s.tcpInput env buff
      = (s.tcpAck env (s.portOf buff.payload).sock ⟨buff.length, hostFlags buff.payload⟩).map
          Prod.fst := by
  rw [NetIn.tcpInput]
  rcases h with ⟨hopen, hflags⟩ | ⟨hup, hflags⟩
  · rcases hopen with hup | hlisten
    · rw [hup]
      dsimp only
      rw [NetIn.tcpInputUp, tcpFlagsAt_hostFlags, hflags, if_neg (by decide), if_neg (by decide),
        if_neg (by decide), if_pos rfl, bind_fst_eq_map]
    · rw [hlisten]
      dsimp only
      rw [NetIn.tcpInputListen, tcpFlagsAt_hostFlags, hflags, if_neg (by decide),
        if_neg (by decide), if_pos rfl, bind_fst_eq_map]
  · rw [hup]
    dsimp only
    rw [NetIn.tcpInputUp, tcpFlagsAt_hostFlags, hflags, if_pos rfl, bind_fst_eq_map]

theorem tcpInput_ack (hopen : (s.portOf buff.payload).status.Open)
    (h : segFlags buff.payload = flagsAck) :
    s.tcpInput env buff
      = some (s.tcpAcked (s.portOf buff.payload).sock (hostFlags buff.payload)) := by
  rw [NetIn.tcpInput]
  rcases hopen with hup | hlisten
  · rw [hup]
    dsimp only
    rw [NetIn.tcpInputUp, tcpFlagsAt_hostFlags, h, if_neg (by decide), if_neg (by decide),
      if_neg (by decide), if_neg (by decide), if_pos rfl]
    rfl
  · rw [hlisten]
    dsimp only
    rw [NetIn.tcpInputListen, tcpFlagsAt_hostFlags, h, if_neg (by decide), if_neg (by decide),
      if_neg (by decide), if_neg (by decide), if_pos rfl]
    rfl

theorem tcpInput_syn (hlisten : (s.portOf buff.payload).status = .listen)
    (h : segFlags buff.payload = flagsSyn) :
    s.tcpInput env buff
      = s.tcpSynack env (s.portOf buff.payload).sock ⟨buff.length, hostFlags buff.payload⟩ := by
  rw [NetIn.tcpInput]
  rw [hlisten]
  dsimp only
  rw [NetIn.tcpInputListen, tcpFlagsAt_hostFlags, h, if_neg (by decide), if_neg (by decide),
    if_neg (by decide), if_pos rfl]

theorem tcpAcked_established (h : (s.sockets sock).state = .established) :
    s.tcpAcked sock (hostFlags p)
      = s.setSocket sock { s.sockets sock with ack := segSeq p, seq := segAck p } := by
  rw [NetIn.tcpAcked]
  dsimp only
  rw [h, hostFlags_load32 (by decide), hostFlags_load32 (by decide), segSeq, segAck]

theorem tcpAcked_synReceived (h : (s.sockets sock).state = .synReceived) :
    s.tcpAcked sock p = s.setSocket sock { s.sockets sock with state := .established } := by
  rw [NetIn.tcpAcked]
  dsimp only
  rw [h]

/-- The segment with which `tcp_synack` answers `p`. -/
structure SynackOf (netif : Netif) (random : Nat) (p reply : Bytes) : Prop where
  tcp : IsTcp reply
  flags : segFlags reply = flagsSynAck
  srcPort : segSrcPort reply = segDstPort p
  dstPort : segDstPort reply = segSrcPort p
  seq : segSeq reply = u32 random
  ack : segAck reply = u32 (segSeq p + 1)
  src : macAt reply ethSrc = netif.mac

theorem tcpSynackOptions_outside {b : Nat} (h : b < 54) : tcpSynackOptions p b = p b := by
  simp (disch := omega) only [tcpSynackOptions, tcpPayload, Bytes.store8_of_ne]

/-- The header with which `tcp_synack` calls `ipv4_build`. -/
theorem tcpSynackHeader_fields {socket : Socket} {random : Nat} :
    HasFields (tcpSynackHeader socket random (hostFlags p)).2 (segDstPort p) (segSrcPort p)
      (u32 random) (u32 (segSeq p + 1)) (tcpFlagWord flagsSynAck ((20 + 4) / 4)) := by
  rw [tcpSynackHeader]
  dsimp only
  generalize hq : ((hostFlags p).store16 tcpSrcPort ((hostFlags p).load16 tcpDstPort)).store16
    tcpDstPort ((hostFlags p).load16 tcpSrcPort) = q
  have hseq : ntohl (q.load32 tcpSeqNum) = segSeq p := by
    rw [← hq]
    exact ntohl_seqNum_exchanged
  rw [hseq]
  generalize hr : (tcpSynackOptions ((q.store32 tcpSeqNum (htonl random)).store32 tcpAckNum
    (htonl (u32 (segSeq p + 1))))).store16 tcpFlags (htons (tcpFlagWord flagsSynAck ((20 + 4) / 4)))
      = r
  have hout : ∀ b, b < 46 → r.store16 tcpChecksum 0 b
      = (q.store32 tcpSeqNum (htonl random)).store32 tcpAckNum (htonl (u32 (segSeq p + 1))) b :=
    fun b hb => by
      rw [← hr, Bytes.store16_outside (Or.inl (Nat.lt_trans hb (by decide))),
        Bytes.store16_outside (Or.inl hb), tcpSynackOptions_outside (Nat.lt_trans hb (by decide))]
  have hports : ∀ b, b < 38 → r.store16 tcpChecksum 0 b = q b := fun b hb => by
    rw [hout b (Nat.lt_trans hb (by decide)),
      Bytes.store32_outside (Or.inl (Nat.lt_trans hb (by decide))),
      Bytes.store32_outside (Or.inl hb)]
  have hword : tcpFlagWord flagsSynAck ((20 + 4) / 4) < 0x10000 := by decide
  constructor
  case srcPort =>
    rw [segSrcPort, Bytes.load16_congr (hports _ (by decide)) (hports _ (by decide)), ← hq,
      Bytes.load16_congr (Bytes.store16_outside (by decide)) (Bytes.store16_outside (by decide)),
      Bytes.load16_store16_self (Bytes.load16_lt _ _), hostFlags_load16 (by decide), segDstPort]
  case dstPort =>
    rw [segDstPort, Bytes.load16_congr (hports _ (by decide)) (hports _ (by decide)), ← hq,
      Bytes.load16_store16_self (Bytes.load16_lt _ _), hostFlags_load16 (by decide), segSrcPort]
  case seq =>
    rw [segSeq, Bytes.load32_congr fun b _ hb => hout b (Nat.lt_of_lt_of_le hb (by decide)),
      Bytes.load32_store32_of_disjoint (by decide), Bytes.load32_store32_self (htonl_lt _),
      ntohl_htonl]
  case ack =>
    rw [segAck, Bytes.load32_congr fun b _ hb => hout b hb,
      Bytes.load32_store32_self (htonl_lt _), ntohl_htonl]
    exact Nat.mod_mod _ _
  case word =>
    rw [Bytes.load16_congr (Bytes.store16_outside (by decide)) (Bytes.store16_outside (by decide)),
      ← hr, Bytes.load16_store16_self (htons_lt _), ntohs_htons, Nat.mod_eq_of_lt hword]

/-- `tcp_synack` changes the socket and passes the buffer on. -/
theorem tcpSynack_some (h : s.tcpSynack env sock ⟨length, hostFlags p⟩ = some s') :
    ∃ f, SynackOf (s.netifs (s.sockets sock).netif) (env.xrandom 0) p f.payload
      ∧ s' = (s.setSocket sock (synackSocket (env.xrandom 0) (s.sockets sock) p)).output f := by
  rw [NetIn.tcpSynack] at h
  obtain ⟨dstMac, -, h⟩ := Option.bind_eq_some_iff.mp h
  obtain ⟨f, hf, h⟩ := Option.bind_eq_some_iff.mp h
  obtain rfl := Option.some.inj h
  obtain ⟨hheaded, hsame⟩ := ipv4Build_segment hf
  have hfields := (@tcpSynackHeader_fields p (s.sockets sock) (env.xrandom 0)).congr hsame
  refine ⟨f, ⟨hheaded.isTcp, ?_, hfields.srcPort, hfields.dstPort, hfields.seq, hfields.ack,
    hheaded.src⟩, ?_⟩
  · rw [hfields.flags]
    decide
  · rw [← tcpSynackHeader_fst]
    rfl

end Exact

/-! ## The link -/

/-- The frames that a call puts on the wait list of an interface, which are
the ones that it sends there. -/
def sentAt (i : Nat) (s s' : NetIn) : List Frame := (s'.waiting i).drop (s.waiting i).length

/-- The two sockets, and the interfaces that the link joins. -/
structure Ends where
  clientSock : Nat
  clientIf : Nat
  serverSock : Nat
  serverIf : Nat

/-- The two kernels and the segments on the way in each direction. `isn` is
the number of the SYN, and `total` counts the bytes that the client has
sent since; no call reads them. -/
structure Link where
  client : NetIn
  server : NetIn
  toServer : List Frame
  toClient : List Frame
  isn : Nat
  total : Nat

inductive LinkEvent where
  | send (env : NetEnv) (data : Option Bytes) (len : Nat)
  | serverReceives (env : NetEnv)
  | clientReceives (env : NetEnv)

/-- The bytes that are sent fit into one packet with the headers, whose
`total_len` has 16 bits. -/
def LinkEvent.Fits : LinkEvent → Prop
  | .send _ _ len => 20 + 20 + u16 len < 0x10000
  | _ => True

namespace Link

variable (e : Ends) (l : Link)

/-- `tcp_syn`, at the client. -/
def connect (env : NetEnv) (pid : Nat) (buff : Frame) (dstIp : IpAddr) : Option Link := do
  let client ← l.client.tcpSyn env pid e.clientSock buff dstIp
  return { l with
    client, toServer := l.toServer ++ sentAt e.clientIf l.client client, isn := env.xrandom 0
    total := 0 }

/-- One call: `tcp_build` at the client, or `tcp_input` of the segment that
is first on the way. -/
def step : LinkEvent → Option Link
  | .send env data len => do
      let buff ← l.client.sendSegment env e.clientSock data len
      let client := (l.client.netifOutput buff).1
      return { l with
        client, toServer := l.toServer ++ sentAt e.clientIf l.client client
        total := l.total + u16 len }
  | .serverReceives env =>
      match l.toServer with
      | [] => none
      | buff :: toServer => do
          let server ← l.server.tcpInput env buff
          return { l with
            server, toServer, toClient := l.toClient ++ sentAt e.serverIf l.server server }
  | .clientReceives env =>
      match l.toClient with
      | [] => none
      | buff :: toClient => do
          let client ← l.client.tcpInput env buff
          return { l with
            client, toClient, toServer := l.toServer ++ sentAt e.clientIf l.client client }

def clientSocket : Socket := l.client.sockets e.clientSock

def serverSocket : Socket := l.server.sockets e.serverSock

/-- No segment is on the way. -/
def Idle : Prop := l.toServer = [] ∧ l.toClient = []

/-- The two sockets agree, and the client's number counts what it has
sent. -/
structure Agrees : Prop where
  seq : (l.clientSocket e).seq = (l.serverSocket e).ack
  ack : (l.clientSocket e).ack = (l.serverSocket e).seq
  count : (l.clientSocket e).seq = u32 (l.isn + 1 + l.total)

/-- A client that is about to call `tcp_syn`, for the port on which the
server listens. -/
structure Ready : Prop where
  idle : l.Idle
  client : (l.clientSocket e).socktype = .client
  status : (l.server.ports (u16 (l.clientSocket e).dstp)).status = .listen
  sock : (l.server.ports (u16 (l.clientSocket e).dstp)).sock = e.serverSock

/-- The way of the SYN, the SYN ACK and the ACK. -/
def handshake (synEnv synackEnv ackEnv : NetEnv) : List LinkEvent :=
  [.serverReceives synEnv, .clientReceives synackEnv, .serverReceives ackEnv]

/-- A send waits until the ACK of the one before it has been processed. -/
def Waits : LinkEvent → Prop
  | .send .. => l.Idle
  | _ => True

end Link

/-! ## What a call sends, and what it leaves alone -/

section Sent

variable {s s' : NetIn} {i sock : Nat} {buff : Frame} {socket : Socket}

theorem sentAt_setSocket : sentAt i s (s.setSocket sock socket) = [] := List.drop_length

/-- Only the interface of the source address sends a frame. -/
theorem sentAt_netifOutput : sentAt i s (s.netifOutput buff).1
    = if findNetif s.netifs s.netifCount (macAt buff.payload ethSrc) = some i then [buff] else [] := by
  rw [sentAt, NetIn.netifOutput]
  cases hfind : findNetif s.netifs s.netifCount (macAt buff.payload ethSrc) with
  | none =>
      rw [if_neg (Option.some_ne_none i).symm]
      exact List.drop_length
  | some j =>
      dsimp only
      by_cases hij : j = i
      · subst hij
        rw [if_pos rfl, Function.update_self, List.drop_left]
      · rw [if_neg fun h => hij (Option.some.inj h), Function.update_of_ne (Ne.symm hij),
          List.drop_length]

theorem sentAt_output : sentAt i s ((s.setSocket sock socket).output buff)
    = if findNetif s.netifs s.netifCount (macAt buff.payload ethSrc) = some i then [buff] else [] :=
  @sentAt_netifOutput (s.setSocket sock socket) i buff

/-- What decides where a segment goes: the tables of the kernel, and the
ports and the interface of the socket. -/
structure Kept (sock : Nat) (s s' : NetIn) : Prop where
  ports : s'.ports = s.ports
  netifs : s'.netifs = s.netifs
  netifCount : s'.netifCount = s.netifCount
  srcp : (s'.sockets sock).srcp = (s.sockets sock).srcp
  dstp : (s'.sockets sock).dstp = (s.sockets sock).dstp
  netif : (s'.sockets sock).netif = (s.sockets sock).netif

theorem kept_setSocket (hsrcp : socket.srcp = (s.sockets sock).srcp)
    (hdstp : socket.dstp = (s.sockets sock).dstp) (hnetif : socket.netif = (s.sockets sock).netif) :
    Kept sock s (s.setSocket sock socket) := by
  refine ⟨rfl, rfl, rfl, ?_, ?_, ?_⟩
  · rw [setSocket_sockets, Function.update_self, hsrcp]
  · rw [setSocket_sockets, Function.update_self, hdstp]
  · rw [setSocket_sockets, Function.update_self, hnetif]

theorem netifOutput_netifCount : (s.netifOutput buff).1.netifCount = s.netifCount := by
  rw [NetIn.netifOutput]
  split <;> rfl

theorem output_netifCount : (s.output buff).netifCount = s.netifCount := netifOutput_netifCount

theorem Kept.netifOutput (h : Kept sock s s') : Kept sock s (s'.netifOutput buff).1 := by
  obtain ⟨hnetifs, hsockets, hports⟩ := @netifOutput_frame s' buff
  refine ⟨hports.trans h.ports, hnetifs.trans h.netifs, netifOutput_netifCount.trans h.netifCount,
    ?_, ?_, ?_⟩
  · rw [hsockets, h.srcp]
  · rw [hsockets, h.dstp]
  · rw [hsockets, h.netif]

theorem Kept.output (h : Kept sock s s') : Kept sock s (s'.output buff) :=
  have hout : Kept sock s (s'.netifOutput buff).1 := h.netifOutput
  ⟨hout.ports, hout.netifs, hout.netifCount, hout.srcp, hout.dstp, hout.netif⟩

theorem Kept.refl : Kept sock s s := ⟨rfl, rfl, rfl, rfl, rfl, rfl⟩

end Sent

namespace Link

variable {e : Ends} {l l' : Link} {n : Nat} {env : NetEnv}

/-! ## The invariant -/

/-- Segments with the numbers of the connection reach its two sockets, and
their answers reach the link. -/
structure Wired (e : Ends) (l : Link) : Prop where
  established : (l.clientSocket e).state = .established
  clientStatus : (l.client.ports (u16 (l.clientSocket e).srcp)).status = .up
  clientSock : (l.client.ports (u16 (l.clientSocket e).srcp)).sock = e.clientSock
  clientIf : findNetif l.client.netifs l.client.netifCount
    (l.client.netifs (l.clientSocket e).netif).mac = some e.clientIf
  serverStatus : (l.server.ports (u16 (l.clientSocket e).dstp)).status = .listen
  serverSock : (l.server.ports (u16 (l.clientSocket e).dstp)).sock = e.serverSock
  serverIf : findNetif l.server.netifs l.server.netifCount
    (l.server.netifs (l.serverSocket e).netif).mac = some e.serverIf

theorem Wired.congr (h : Wired e l) (hclient : Kept e.clientSock l.client l'.client)
    (hserver : Kept e.serverSock l.server l'.server)
    (hstate : (l'.clientSocket e).state = .established) : Wired e l' := by
  have hsrcp : (l'.clientSocket e).srcp = (l.clientSocket e).srcp := hclient.srcp
  have hdstp : (l'.clientSocket e).dstp = (l.clientSocket e).dstp := hclient.dstp
  have hcnetif : (l'.clientSocket e).netif = (l.clientSocket e).netif := hclient.netif
  have hsnetif : (l'.serverSocket e).netif = (l.serverSocket e).netif := hserver.netif
  constructor
  case established => exact hstate
  case clientStatus => rw [hclient.ports, hsrcp, h.clientStatus]
  case clientSock => rw [hclient.ports, hsrcp, h.clientSock]
  case clientIf => rw [hclient.netifs, hclient.netifCount, hcnetif, h.clientIf]
  case serverStatus => rw [hserver.ports, hdstp, h.serverStatus]
  case serverSock => rw [hserver.ports, hdstp, h.serverSock]
  case serverIf => rw [hserver.netifs, hserver.netifCount, hsnetif, h.serverIf]

/-- Where the number `n`, which both sockets are to have, is by now. -/
inductive Phase (e : Ends) (n : Nat) (l : Link) : Prop
  | settled (toServer : l.toServer = []) (toClient : l.toClient = [])
      (clientSeq : (l.clientSocket e).seq = n) (serverAck : (l.serverSocket e).ack = n)
      (clientAck : (l.clientSocket e).ack = (l.serverSocket e).seq)
  | data (buff : Frame) (toServer : l.toServer = [buff]) (toClient : l.toClient = [])
      (tcp : IsTcp buff.payload) (flags : segFlags buff.payload = flagsPshAck)
      (srcPort : segSrcPort buff.payload = u16 (l.clientSocket e).srcp)
      (dstPort : segDstPort buff.payload = u16 (l.clientSocket e).dstp)
      (next : u32 ((l.serverSocket e).ack + segDataLen buff.payload) = n)
  | ack (buff : Frame) (toServer : l.toServer = []) (toClient : l.toClient = [buff])
      (flags : segFlags buff.payload = flagsAck)
      (dstPort : segDstPort buff.payload = u16 (l.clientSocket e).srcp)
      (seq : segSeq buff.payload = (l.serverSocket e).seq) (next : segAck buff.payload = n)
      (serverAck : (l.serverSocket e).ack = n)

/-- The connection is up, and `n` is the number after all that was sent. -/
structure Tracks (e : Ends) (n : Nat) (l : Link) : Prop where
  wired : Wired e l
  phase : Phase e n l

theorem Tracks.settled (h : Tracks e n l) (hidle : l.Idle) : (l.clientSocket e).seq = n
    ∧ (l.serverSocket e).ack = n ∧ (l.clientSocket e).ack = (l.serverSocket e).seq := by
  cases h.phase with
  | settled _ _ clientSeq serverAck clientAck => exact ⟨clientSeq, serverAck, clientAck⟩
  | data buff toServer => exact absurd (hidle.1.symm.trans toServer) nofun
  | ack buff _ toClient => exact absurd (hidle.2.symm.trans toClient) nofun

/-! ## One step -/

theorem serverReceives_some (hstep : l.step e (.serverReceives env) = some l') :
    ∃ buff toServer, l.toServer = buff :: toServer ∧ ∃ server, l.server.tcpInput env buff = some server
      ∧ l' = { l with
          server, toServer, toClient := l.toClient ++ sentAt e.serverIf l.server server } := by
  rw [step] at hstep
  cases hqueue : l.toServer with
  | nil =>
      rw [hqueue] at hstep
      cases hstep
  | cons buff toServer =>
      rw [hqueue] at hstep
      obtain ⟨server, hserver, hstep⟩ := Option.bind_eq_some_iff.mp hstep
      exact ⟨buff, toServer, rfl, server, hserver, (Option.some.inj hstep).symm⟩

theorem clientReceives_some (hstep : l.step e (.clientReceives env) = some l') :
    ∃ buff toClient, l.toClient = buff :: toClient ∧ ∃ client, l.client.tcpInput env buff = some client
      ∧ l' = { l with
          client, toClient, toServer := l.toServer ++ sentAt e.clientIf l.client client } := by
  rw [step] at hstep
  cases hqueue : l.toClient with
  | nil =>
      rw [hqueue] at hstep
      cases hstep
  | cons buff toClient =>
      rw [hqueue] at hstep
      obtain ⟨client, hclient, hstep⟩ := Option.bind_eq_some_iff.mp hstep
      exact ⟨buff, toClient, rfl, client, hclient, (Option.some.inj hstep).symm⟩

theorem kept_ackSocket {s : NetIn} {sock : Nat} {p : Bytes} :
    Kept sock s (s.setSocket sock (ackSocket (s.sockets sock) p)) := kept_setSocket rfl rfl rfl

/-- What `sendSegment` counts for a segment of `len` bytes. -/
theorem segDataLen_of_fields {netif : Netif} {dstIp : IpAddr} {p : Bytes}
    {totalLen srcPort dstPort seq ack : Nat} (hheaded : Headed netif dstIp totalLen p)
    (hfields : HasFields p srcPort dstPort seq ack (tcpFlagWord flagsPshAck (20 / 4))) :
    segDataLen p = u32 (totalLen + 0x100000000 - 40) := by
  have hheader : segHeaderLen p = 40 := by
    rw [segHeaderLen, hheaded.headerLen, hfields.word]
    decide
  rw [segDataLen, hheaded.total, hheader]

/-- A send with nothing on the way puts the data on the way. -/
theorem Tracks.send {data : Option Bytes} {len : Nat} (h : Tracks e n l) (hidle : l.Idle)
    (hstep : l.step e (.send env data len) = some l') :
    Tracks e (u32 (n + u32 (u16 (20 + 20 + u16 len + 0) + 0x100000000 - 40))) l'
      ∧ l'.isn = l.isn ∧ l'.total = l.total + u16 len := by
  rw [step] at hstep
  obtain ⟨buff, hbuff, hstep⟩ := Option.bind_eq_some_iff.mp hstep
  obtain rfl := Option.some.inj hstep
  obtain ⟨hheaded, hfields⟩ := sendSegment_fields hbuff
  obtain ⟨-, hack, -⟩ := h.settled hidle
  have hsockets := (@netifOutput_frame l.client buff).2.1
  have hsent : sentAt e.clientIf l.client (l.client.netifOutput buff).1 = [buff] := by
    have hfound := h.wired.clientIf
    rw [sentAt_netifOutput, hheaded.src]
    exact if_pos hfound
  have hflags : segFlags buff.payload = flagsPshAck := by
    rw [hfields.flags]
    decide
  refine ⟨⟨h.wired.congr Kept.refl.netifOutput Kept.refl ?_, ?_⟩, rfl, rfl⟩
  · rw [clientSocket, hsockets]
    exact h.wired.established
  · refine .data buff ?_ hidle.2 hheaded.isTcp hflags ?_ ?_ ?_
    · rw [hsent, hidle.1, List.nil_append]
    · rw [hfields.srcPort, clientSocket, hsockets]
    · rw [hfields.dstPort, clientSocket, hsockets]
    · rw [segDataLen_of_fields hheaded hfields]
      exact congrArg (fun m => u32 (m + _)) hack

/-- The data at the server: they are acknowledged. -/
theorem Tracks.serverReceives (h : Tracks e n l)
    (hstep : l.step e (.serverReceives env) = some l') :
    Tracks e n l' ∧ l'.isn = l.isn ∧ l'.total = l.total := by
  obtain ⟨buff', rest, hqueue, server, hserver, rfl⟩ := serverReceives_some hstep
  cases h.phase with
  | settled toServer => exact absurd (toServer.symm.trans hqueue) nofun
  | ack buff toServer => exact absurd (toServer.symm.trans hqueue) nofun
  | data buff toServer toClient tcp flags srcPort dstPort next =>
      obtain ⟨rfl, rfl⟩ := List.cons.inj (toServer.symm.trans hqueue)
      have hport : l.server.portOf buff.payload = l.server.ports (u16 (l.clientSocket e).dstp) :=
        congrArg l.server.ports dstPort
      have hopen : (l.server.portOf buff.payload).status.Open := by
        rw [hport, h.wired.serverStatus]
        exact Or.inr rfl
      rw [tcpInput_tcpAck (Or.inl ⟨hopen, flags⟩), hport, h.wired.serverSock] at hserver
      obtain ⟨⟨server', reply⟩, hack, rfl⟩ := Option.map_eq_some_iff.mp hserver
      obtain ⟨hreply, rfl⟩ := tcpAck_some hack
      have hreply := ackOf_ipv4Output tcp hreply
      have hself : ∀ socket, ((l.server.setSocket e.serverSock socket).output reply).sockets
          e.serverSock = socket := fun socket => by
        rw [output_sockets, setSocket_sockets, Function.update_self]
      have hpshAck : ackSocket (l.serverSocket e) buff.payload
          = ackSocket (l.server.sockets e.serverSock) buff.payload := rfl
      have hnum : (ackSocket (l.serverSocket e) buff.payload).ack = n := by
        rw [ackSocket_ack_pshAck flags, next]
      refine ⟨⟨h.wired.congr Kept.refl kept_ackSocket.output h.wired.established, ?_⟩, rfl, rfl⟩
      refine .ack reply rfl ?_ hreply.flags ?_ ?_ ?_ ?_
      · dsimp only
        rw [toClient, List.nil_append, sentAt_output, hreply.src]
        exact if_pos h.wired.serverIf
      · rw [hreply.dstPort, srcPort]
        rfl
      · rw [hreply.seq, serverSocket, hself]
        rfl
      · rw [hreply.ack, ackNumOf, if_neg (by rw [flags]; decide), if_pos flags, Option.getD_some]
        exact next
      · rw [serverSocket, hself, ← hpshAck, hnum]

/-- The ACK at the client: nothing is on the way any more. -/
theorem Tracks.clientReceives (h : Tracks e n l)
    (hstep : l.step e (.clientReceives env) = some l') :
    Tracks e n l' ∧ l'.Idle ∧ l'.isn = l.isn ∧ l'.total = l.total := by
  obtain ⟨buff', rest, hqueue, client, hclient, rfl⟩ := clientReceives_some hstep
  cases h.phase with
  | settled _ toClient => exact absurd (toClient.symm.trans hqueue) nofun
  | data buff _ toClient => exact absurd (toClient.symm.trans hqueue) nofun
  | ack buff toServer toClient flags dstPort seq next serverAck =>
      obtain ⟨rfl, rfl⟩ := List.cons.inj (toClient.symm.trans hqueue)
      have hport : l.client.portOf buff.payload = l.client.ports (u16 (l.clientSocket e).srcp) :=
        congrArg l.client.ports dstPort
      have hopen : (l.client.portOf buff.payload).status.Open := by
        rw [hport, h.wired.clientStatus]
        exact Or.inl rfl
      have hstate : (l.client.sockets e.clientSock).state = .established := h.wired.established
      rw [tcpInput_ack hopen flags, hport, h.wired.clientSock,
        tcpAcked_established hstate] at hclient
      obtain rfl := Option.some.inj hclient
      have hself : ∀ socket,
          (l.client.setSocket e.clientSock socket).sockets e.clientSock = socket :=
        fun socket => by rw [setSocket_sockets, Function.update_self]
      have hnone : l.toServer ++ sentAt e.clientIf l.client (l.client.setSocket e.clientSock
          { l.client.sockets e.clientSock with ack := segSeq buff.payload, seq := segAck buff.payload })
            = [] := by
        rw [toServer, List.nil_append, sentAt_setSocket]
      refine ⟨⟨h.wired.congr (kept_setSocket rfl rfl rfl) Kept.refl ?_, ?_⟩, ⟨hnone, rfl⟩, rfl, rfl⟩
      · rw [clientSocket, hself]
        exact hstate
      · refine .settled hnone rfl ?_ serverAck ?_
        · rw [clientSocket, hself, next]
        · rw [clientSocket, hself, seq]
          rfl

/-- The ACK is processed when it comes. -/
theorem Tracks.drains_client (h : Tracks e n l) (env : NetEnv) (hserver : l.toServer = []) :
    ∃ as l', Always (step e) Waits l as ∧ run (step e) l as = some l' ∧ l'.Idle ∧ Tracks e n l'
      ∧ l'.isn = l.isn ∧ l'.total = l.total := by
  cases h.phase with
  | settled toServer toClient =>
      exact ⟨[], l, trivial, rfl, ⟨toServer, toClient⟩, h, rfl, rfl⟩
  | data buff toServer => exact absurd (hserver.symm.trans toServer) nofun
  | ack buff toServer toClient flags dstPort =>
      have hopen : (l.client.portOf buff.payload).status.Open := by
        rw [NetIn.portOf, ← segDstPort, dstPort, h.wired.clientStatus]
        exact Or.inl rfl
      have hstep : ∃ l', l.step e (.clientReceives env) = some l' := by
        rw [step, toClient]
        dsimp only
        rw [tcpInput_ack hopen flags]
        exact ⟨_, rfl⟩
      obtain ⟨l', hstep⟩ := hstep
      obtain ⟨htracks, hidle, hisn, htotal⟩ := h.clientReceives hstep
      refine ⟨[.clientReceives env], l', ⟨trivial, fun _ _ => trivial⟩, ?_, hidle, htracks, hisn,
        htotal⟩
      rw [run_cons, hstep, Option.bind_some, run_nil]

/-- Whatever is on the way is processed when it comes. -/
theorem Tracks.drains (h : Tracks e n l) (env : NetEnv) :
    ∃ as l', Always (step e) Waits l as ∧ run (step e) l as = some l' ∧ l'.Idle ∧ Tracks e n l'
      ∧ l'.isn = l.isn ∧ l'.total = l.total := by
  cases h.phase with
  | settled toServer => exact h.drains_client env toServer
  | ack buff toServer => exact h.drains_client env toServer
  | data buff toServer toClient tcp flags srcPort dstPort =>
      have hopen : (l.server.portOf buff.payload).status.Open := by
        rw [NetIn.portOf, ← segDstPort, dstPort, h.wired.serverStatus]
        exact Or.inr rfl
      obtain ⟨reply, hreply⟩ := @tcpAck_returns env l.server
        (l.server.portOf buff.payload).sock buff.length buff.payload tcp
      have hstep : ∃ l', l.step e (.serverReceives env) = some l' ∧ l'.toServer = [] := by
        rw [step, toServer]
        dsimp only
        rw [tcpInput_tcpAck (Or.inl ⟨hopen, flags⟩), hreply]
        exact ⟨_, rfl, rfl⟩
      obtain ⟨l₁, hstep, hserver⟩ := hstep
      obtain ⟨htracks, hisn, htotal⟩ := h.serverReceives hstep
      obtain ⟨as, l', hwaits, hrun, hidle, hlast, hisn', htotal'⟩ :=
        htracks.drains_client env hserver
      refine ⟨.serverReceives env :: as, l', ⟨trivial, fun l₂ h₂ => ?_⟩, ?_, hidle, hlast,
        hisn'.trans hisn, htotal'.trans htotal⟩
      · obtain rfl := Option.some.inj (hstep.symm.trans h₂)
        exact hwaits
      · rw [run_cons, hstep, Option.bind_some, hrun]

/-! ## The handshake -/

/-- A client in SYN_SENT, and the port on which the server listens. -/
structure Opening (e : Ends) (l : Link) : Prop where
  clientIf : findNetif l.client.netifs l.client.netifCount
    (l.client.netifs (l.clientSocket e).netif).mac = some e.clientIf
  client : (l.clientSocket e).socktype = .client
  synSent : (l.clientSocket e).state = .synSent
  serverStatus : (l.server.ports (u16 (l.clientSocket e).dstp)).status = .listen
  serverSock : (l.server.ports (u16 (l.clientSocket e).dstp)).sock = e.serverSock
  total : l.total = 0

/-- The SYN is on the way. -/
structure Called (e : Ends) (l : Link) (syn : Frame) : Prop where
  opening : Opening e l
  toServer : l.toServer = [syn]
  toClient : l.toClient = []
  flags : segFlags syn.payload = flagsSyn
  srcPort : segSrcPort syn.payload = u16 (l.clientSocket e).srcp
  dstPort : segDstPort syn.payload = u16 (l.clientSocket e).dstp
  seq : segSeq syn.payload = u32 l.isn

/-- The SYN ACK is on the way. -/
structure Answered (e : Ends) (l : Link) (synack : Frame) : Prop where
  opening : Opening e l
  toServer : l.toServer = []
  toClient : l.toClient = [synack]
  tcp : IsTcp synack.payload
  flags : segFlags synack.payload = flagsSynAck
  srcPort : segSrcPort synack.payload = u16 (l.clientSocket e).dstp
  dstPort : segDstPort synack.payload = u16 (l.clientSocket e).srcp
  ack : segAck synack.payload = u32 (l.isn + 1)
  serverIf : findNetif l.server.netifs l.server.netifCount
    (l.server.netifs (l.serverSocket e).netif).mac = some e.serverIf
  synReceived : (l.serverSocket e).state = .synReceived
  serverSeq : (l.serverSocket e).seq = u32 (segSeq synack.payload + 1)
  serverAck : (l.serverSocket e).ack = u32 (l.isn + 1)

/-- The ACK is on the way. -/
structure Confirmed (e : Ends) (l : Link) (ack : Frame) : Prop where
  wired : Wired e l
  toServer : l.toServer = [ack]
  toClient : l.toClient = []
  flags : segFlags ack.payload = flagsAck
  dstPort : segDstPort ack.payload = u16 (l.clientSocket e).dstp
  synReceived : (l.serverSocket e).state = .synReceived
  clientSeq : (l.clientSocket e).seq = u32 (l.isn + 1)
  clientAck : (l.clientSocket e).ack = (l.serverSocket e).seq
  serverAck : (l.serverSocket e).ack = u32 (l.isn + 1)
  total : l.total = 0

theorem sentAt_tcpSyn {s : NetIn} {ports : Nat → Port} {sock i : Nat} {socket : Socket}
    {buff : Frame} : sentAt i s (({ s with ports }.setSocket sock socket).netifOutput buff).1
      = if findNetif s.netifs s.netifCount (macAt buff.payload ethSrc) = some i then [buff] else [] :=
  @sentAt_netifOutput ({ s with ports }.setSocket sock socket) i buff

/-- What `tcp_syn` leaves, if its SYN goes out at the interface. -/
theorem Ready.connect {pid : Nat} {buff : Frame} {dstIp : IpAddr} (h : l.Ready e)
    (hconnect : l.connect e env pid buff dstIp = some l') (hsent : l'.toServer ≠ []) :
    ∃ syn, Called e l' syn := by
  rw [Link.connect] at hconnect
  obtain ⟨client, hclient, hconnect⟩ := Option.bind_eq_some_iff.mp hconnect
  obtain rfl := Option.some.inj hconnect
  obtain ⟨ports, srcp, syn, -, hheaded, hfields, rfl⟩ := tcpSyn_some hclient
  dsimp only at hsent
  rw [h.idle.1, List.nil_append, sentAt_tcpSyn, hheaded.src] at hsent
  have hfound : findNetif l.client.netifs l.client.netifCount
      (l.client.netifs (l.clientSocket e).netif).mac = some e.clientIf := by
    by_contra hne
    exact hsent (if_neg hne)
  have hframe := @netifOutput_frame ({ l.client with ports }.setSocket e.clientSock
    { l.client.sockets e.clientSock with srcp, seq := env.xrandom 0, state := .synSent }) syn
  have hself : (({ l.client with ports }.setSocket e.clientSock { l.client.sockets e.clientSock with
      srcp, seq := env.xrandom 0, state := .synSent }).netifOutput syn).1.sockets e.clientSock
        = { l.client.sockets e.clientSock with srcp, seq := env.xrandom 0, state := .synSent } := by
    rw [hframe.2.1, setSocket_sockets, Function.update_self]
  refine ⟨syn, ⟨?_, ?_, ?_, ?_, ?_, rfl⟩, ?_, h.idle.2, ?_, ?_, ?_, hfields.seq⟩
  · rw [clientSocket, hself, hframe.1, netifOutput_netifCount]
    exact hfound
  · rw [clientSocket, hself]
    exact h.client
  · rw [clientSocket, hself]
  · rw [clientSocket, hself]
    exact h.status
  · rw [clientSocket, hself]
    exact h.sock
  · dsimp only
    rw [h.idle.1, List.nil_append, sentAt_tcpSyn, hheaded.src]
    exact if_pos hfound
  · rw [hfields.flags]
    decide
  · rw [clientSocket, hself, hfields.srcPort]
  · rw [clientSocket, hself, hfields.dstPort]

theorem u32_u32_succ {v : Nat} : u32 (u32 v + 1) = u32 (v + 1) := by
  rw [u32, u32, u32]
  omega

/-- The SYN at the server, if the SYN ACK goes out at the interface. -/
theorem Called.serverReceives {syn : Frame} (h : Called e l syn)
    (hstep : l.step e (.serverReceives env) = some l') (hsent : l'.toClient ≠ []) :
    ∃ synack, Answered e l' synack := by
  obtain ⟨buff, rest, hqueue, server, hserver, rfl⟩ := serverReceives_some hstep
  obtain ⟨rfl, rfl⟩ := List.cons.inj (h.toServer.symm.trans hqueue)
  have hport : l.server.portOf syn.payload = l.server.ports (u16 (l.clientSocket e).dstp) :=
    congrArg l.server.ports h.dstPort
  have hlisten : (l.server.portOf syn.payload).status = .listen := by
    rw [hport, h.opening.serverStatus]
  rw [tcpInput_syn hlisten h.flags, hport, h.opening.serverSock] at hserver
  obtain ⟨synack, hreply, rfl⟩ := tcpSynack_some hserver
  have hself : ∀ socket, ((l.server.setSocket e.serverSock socket).output synack).sockets
      e.serverSock = socket := fun socket => by
    rw [output_sockets, setSocket_sockets, Function.update_self]
  dsimp only at hsent
  rw [h.toClient, List.nil_append, sentAt_output, hreply.src] at hsent
  have hfound : findNetif l.server.netifs l.server.netifCount
      (l.server.netifs (l.serverSocket e).netif).mac = some e.serverIf := by
    by_contra hne
    exact hsent (if_neg hne)
  have hack : u32 (segSeq syn.payload + 1) = u32 (l.isn + 1) := by
    rw [h.seq, u32_u32_succ]
  refine ⟨synack, ⟨h.opening.clientIf, h.opening.client, h.opening.synSent, ?_, ?_,
    h.opening.total⟩, rfl, ?_, hreply.tcp, hreply.flags, ?_, ?_, ?_, ?_, ?_, ?_, ?_⟩
  · rw [output_ports]
    exact h.opening.serverStatus
  · rw [output_ports]
    exact h.opening.serverSock
  · dsimp only
    rw [h.toClient, List.nil_append, sentAt_output, hreply.src]
    exact if_pos hfound
  · rw [hreply.srcPort, h.dstPort]
    rfl
  · rw [hreply.dstPort, h.srcPort]
    rfl
  · rw [hreply.ack, hack]
  · rw [serverSocket, hself, output_netifs, output_netifCount]
    exact hfound
  · rw [serverSocket, hself, synackSocket]
  · rw [serverSocket, hself, synackSocket, hreply.seq, u32_u32_succ]
  · rw [serverSocket, hself, ← hack, synackSocket]

/-- The SYN ACK at the client, if it opens the connection. -/
theorem Answered.clientReceives {synack : Frame} (h : Answered e l synack)
    (hstep : l.step e (.clientReceives env) = some l')
    (hstate : (l'.clientSocket e).state = .established) : ∃ ack, Confirmed e l' ack := by
  obtain ⟨buff, rest, hqueue, client, hclient, rfl⟩ := clientReceives_some hstep
  obtain ⟨rfl, rfl⟩ := List.cons.inj (h.toClient.symm.trans hqueue)
  have hport : l.client.portOf synack.payload = l.client.ports (u16 (l.clientSocket e).srcp) :=
    congrArg l.client.ports h.dstPort
  -- any other port would have left the state
  obtain ⟨hsock, hup⟩ : (l.client.portOf synack.payload).sock = e.clientSock
      ∧ (l.client.portOf synack.payload).status = .up := by
    have hnew : (client.sockets e.clientSock).state = _ :=
      @arrive_state e.clientSock l.client ⟨env, synack⟩ client hclient
    rw [show (client.sockets e.clientSock).state = .established from hstate] at hnew
    split at hnew
    case isFalse =>
      exact absurd (hnew.trans h.opening.synSent) nofun
    case isTrue hsock =>
      rcases (segState_of_synSent h.opening.client h.opening.synSent).mp hnew.symm with
        ⟨-, hpsh⟩ | ⟨hup, -⟩
      · exact absurd (h.flags.symm.trans hpsh) (by decide)
      · exact ⟨hsock, hup⟩
  rw [tcpInput_tcpAck (Or.inr ⟨hup, h.flags⟩), hsock] at hclient
  obtain ⟨⟨client', ack⟩, hack, rfl⟩ := Option.map_eq_some_iff.mp hclient
  obtain ⟨hreply, rfl⟩ := tcpAck_some hack
  have hreply := ackOf_ipv4Output h.tcp hreply
  have hself : ∀ socket, ((l.client.setSocket e.clientSock socket).output ack).sockets
      e.clientSock = socket := fun socket => by
    rw [output_sockets, setSocket_sockets, Function.update_self]
  refine ⟨ack, ⟨hstate, ?_, ?_, ?_, ?_, ?_, h.serverIf⟩, ?_, rfl, hreply.flags, ?_, h.synReceived,
    ?_, ?_, h.serverAck, h.opening.total⟩
  · rw [clientSocket, hself, output_ports]
    exact (congrArg Port.status hport).symm.trans hup
  · rw [clientSocket, hself, output_ports]
    exact (congrArg Port.sock hport).symm.trans hsock
  · rw [clientSocket, hself, output_netifs, output_netifCount]
    exact h.opening.clientIf
  · rw [clientSocket, hself]
    exact h.opening.serverStatus
  · rw [clientSocket, hself]
    exact h.opening.serverSock
  · dsimp only
    rw [h.toServer, List.nil_append, sentAt_output, hreply.src]
    exact if_pos h.opening.clientIf
  · rw [hreply.dstPort, h.srcPort, clientSocket, clientSocket, hself]
    rfl
  · rw [clientSocket, hself, ← h.ack]
    rfl
  · rw [clientSocket, hself, ackSocket_ack_synAck h.flags]
    exact h.serverSeq.symm

/-- The ACK at the server: both sockets have their numbers. -/
theorem Confirmed.serverReceives {ack : Frame} (h : Confirmed e l ack)
    (hstep : l.step e (.serverReceives env) = some l') :
    Tracks e (u32 (l'.isn + 1 + l'.total)) l' ∧ l'.Idle := by
  obtain ⟨buff, rest, hqueue, server, hserver, rfl⟩ := serverReceives_some hstep
  obtain ⟨rfl, rfl⟩ := List.cons.inj (h.toServer.symm.trans hqueue)
  have hport : l.server.portOf ack.payload = l.server.ports (u16 (l.clientSocket e).dstp) :=
    congrArg l.server.ports h.dstPort
  have hopen : (l.server.portOf ack.payload).status.Open := by
    rw [hport, h.wired.serverStatus]
    exact Or.inr rfl
  rw [tcpInput_ack hopen h.flags, hport, h.wired.serverSock, tcpAcked_synReceived h.synReceived]
    at hserver
  obtain rfl := Option.some.inj hserver
  have hself : ∀ socket, (l.server.setSocket e.serverSock socket).sockets e.serverSock = socket :=
    fun socket => by rw [setSocket_sockets, Function.update_self]
  have hnone : l.toClient ++ sentAt e.serverIf l.server (l.server.setSocket e.serverSock
      { l.server.sockets e.serverSock with state := .established }) = [] := by
    rw [h.toClient, List.nil_append, sentAt_setSocket]
  have hwired := h.wired
  refine ⟨⟨hwired.congr Kept.refl (kept_setSocket rfl rfl rfl) hwired.established, ?_⟩, rfl, hnone⟩
  refine .settled rfl hnone ?_ ?_ ?_
  · dsimp only
    rw [h.total]
    exact h.clientSeq
  · rw [serverSocket, hself]
    dsimp only
    rw [h.total]
    exact h.serverAck
  · rw [serverSocket, hself]
    exact h.clientAck

/-- After a handshake that has opened the connection, both sockets have
the numbers of the law. -/
theorem Ready.handshake {pid : Nat} {buff : Frame} {dstIp : IpAddr} {l₁ : Link}
    {synEnv synackEnv ackEnv : NetEnv} (h : l.Ready e)
    (hconnect : l.connect e env pid buff dstIp = some l₁)
    (hrun : run (step e) l₁ (handshake synEnv synackEnv ackEnv) = some l')
    (hstate : (l'.clientSocket e).state = .established) :
    Tracks e (u32 (l'.isn + 1 + l'.total)) l' ∧ l'.Idle := by
  obtain ⟨l₂, h₂, hrun⟩ := Option.bind_eq_some_iff.mp hrun
  obtain ⟨l₃, h₃, hrun⟩ := Option.bind_eq_some_iff.mp hrun
  obtain ⟨l₄, h₄, hrun⟩ := Option.bind_eq_some_iff.mp hrun
  obtain rfl := Option.some.inj hrun
  -- a segment that is received was on the way
  obtain ⟨syn', rest, hsyn, -⟩ := serverReceives_some h₂
  obtain ⟨synack', rest', hsynack, -⟩ := clientReceives_some h₃
  obtain ⟨syn, hcalled⟩ := h.connect hconnect (hsyn ▸ nofun)
  obtain ⟨synack, hsynack⟩ := hcalled.serverReceives h₂ (hsynack ▸ nofun)
  have hclient : (l₃.clientSocket e).state = .established := by
    obtain ⟨buff, rest, -, server, -, rfl⟩ := serverReceives_some h₄
    exact hstate
  obtain ⟨ack, hack⟩ := hsynack.clientReceives h₃ hclient
  exact hack.serverReceives h₄

/-! ## Every number of sends -/

/-- The invariant, with the number that the law asks for. -/
def Counts (e : Ends) (l : Link) : Prop := Tracks e (u32 (l.isn + 1 + l.total)) l

theorem Counts.agrees (h : Counts e l) (hidle : l.Idle) : l.Agrees e := by
  obtain ⟨hseq, hack, hclient⟩ := h.settled hidle
  exact ⟨hseq.trans hack.symm, hclient, hseq⟩

theorem Counts.step {a : LinkEvent} (h : Counts e l) (hwait : l.Waits a) (hfits : a.Fits)
    (hstep : l.step e a = some l') : Counts e l' := by
  cases a with
  | send env data len =>
      have hidle : l.Idle := hwait
      have hlen : 20 + 20 + u16 len < 0x10000 := hfits
      obtain ⟨htracks, hisn, htotal⟩ := h.send hidle hstep
      have hnext : u32 (u32 (l.isn + 1 + l.total)
          + u32 (u16 (20 + 20 + u16 len + 0) + 0x100000000 - 40)) = u32 (l'.isn + 1 + l'.total) := by
        rw [hisn, htotal]
        generalize u16 len = m at hlen ⊢
        rw [u32, u32, u32, u32, u16]
        omega
      rw [hnext] at htracks
      exact htracks
  | serverReceives env =>
      obtain ⟨htracks, hisn, htotal⟩ := h.serverReceives hstep
      rw [Counts, hisn, htotal]
      exact htracks
  | clientReceives env =>
      obtain ⟨htracks, -, hisn, htotal⟩ := h.clientReceives hstep
      rw [Counts, hisn, htotal]
      exact htracks

/-- Whatever the numbers of the SYN and the SYN ACK are, and however often
the client sends after a handshake that has opened the connection: when no
segment is on the way, the two sockets agree, and the client's number is
that of the SYN plus one and plus the bytes that it has sent. -/
theorem stop_and_wait (e : Ends) (l l₁ l₂ : Link) (env synEnv synackEnv ackEnv : NetEnv) (pid : Nat)
    (buff : Frame) (dstIp : IpAddr) (events : List LinkEvent) (hready : l.Ready e)
    (hconnect : l.connect e env pid buff dstIp = some l₁)
    (hhandshake : run (step e) l₁ (handshake synEnv synackEnv ackEnv) = some l₂)
    (hopened : (l₂.clientSocket e).state = .established)
    (hwait : Always (step e) Waits l₂ events) (hfits : ∀ a ∈ events, a.Fits) :
    Throughout (step e) (fun l' => l'.Idle → l'.Agrees e) l₂ events :=
  throughout_of_invariant (I := Counts e) (fun _ h => h.agrees)
    (fun _ _ _ h hwait hstep => h.step hwait.1 hwait.2 hstep)
    (hready.handshake hconnect hhandshake hopened).1 (hwait.and_of_forall hfits)

/-! ## A connection, and a segment that is too long -/

/-- A segment can be built for every length that the checksum can deal
with. -/
theorem sendSegment_returns {s : NetIn} {sock len : Nat} {data : Option Bytes} {payload : Bytes}
    {dstMac : MacAddr} (hbuff : env.descBuff = some payload)
    (hmac : s.kernelSetmac env (s.sockets sock).netif (s.sockets sock).dipv4 = some dstMac)
    (hlen : u16 len + 2 ≤ 0x10000) : ∃ f, s.sendSegment env sock data len = some f := by
  rw [NetIn.sendSegment, hbuff, Option.bind_eq_bind, Option.bind_some, hmac, Option.bind_eq_bind,
    Option.bind_some]
  exact tcpBuild_returns hlen

/-- The gateway, which listens at port 80. -/
def gatewayNet : NetIn :=
  { aloneNet with
    netifs := fun _ => { testNetif with
      mac := fun _ => 0x53, ipv4 := testNetif.gw, gw := testNetif.ipv4 }
    sockets := fun _ => { aloneNet.sockets 0 with socktype := .server }
    ports := Function.update aloneNet.ports 80
      { status := .listen, ptype := .tcp, pid := 0, sock := 0 }
    arpMap := [(testNetif.ipv4, testNetif.mac)] }

def gatewayEnds : Ends := { clientSock := 0, clientIf := 0, serverSock := 0, serverIf := 0 }

/-- A client that is about to call port 80 of the gateway. -/
def gatewayLink : Link where
  client := SynRun.idleNet.setSocket 0 { SynRun.idleNet.sockets 0 with dstp := 80, dipv4 := testNetif.gw }
  server := gatewayNet
  toServer := []
  toClient := []
  isn := 0
  total := 0

theorem ready_gatewayLink : gatewayLink.Ready gatewayEnds := ⟨⟨rfl, rfl⟩, rfl, rfl, rfl⟩

/-- Three bytes, and the calls that acknowledge them. -/
def threeBytes : List LinkEvent :=
  [.send SendRun.blankEnv none 3, .serverReceives SendRun.blankEnv, .clientReceives SendRun.blankEnv]

/-- `tcp_syn` and the handshake, with the number 0 on both sides. -/
theorem exists_opened : ∃ l₁ l₂,
    gatewayLink.connect gatewayEnds SendRun.blankEnv 1 SynRun.gatewayCall.buff testNetif.gw = some l₁
      ∧ run (step gatewayEnds) l₁ (handshake silentEnv silentEnv silentEnv) = some l₂
      ∧ (l₂.clientSocket gatewayEnds).state = .established
      ∧ (l₂.client.kernelSetmac SendRun.blankEnv (l₂.clientSocket gatewayEnds).netif
          (l₂.clientSocket gatewayEnds).dipv4).isSome
      ∧ (run (step gatewayEnds) l₂ threeBytes).isSome := by
  have hresult : ((gatewayLink.connect gatewayEnds SendRun.blankEnv 1 SynRun.gatewayCall.buff
      testNetif.gw).bind fun l₁ => (run (step gatewayEnds) l₁
        (handshake silentEnv silentEnv silentEnv)).map fun l₂ =>
          ((l₂.clientSocket gatewayEnds).state, (l₂.client.kernelSetmac SendRun.blankEnv
            (l₂.clientSocket gatewayEnds).netif (l₂.clientSocket gatewayEnds).dipv4).isSome,
            (run (step gatewayEnds) l₂ threeBytes).isSome))
      = some (.established, true, true) := by decide +kernel
  obtain ⟨l₁, hconnect, hresult⟩ := Option.bind_eq_some_iff.mp hresult
  obtain ⟨l₂, hrun, hl₂⟩ := Option.map_eq_some_iff.mp hresult
  obtain ⟨hstate, hrest⟩ := Prod.mk.inj hl₂
  obtain ⟨hmac, hsend⟩ := Prod.mk.inj hrest
  exact ⟨l₁, l₂, hconnect, hrun, hstate, hmac, hsend⟩

/-- After three bytes that were acknowledged the two sockets agree. -/
theorem stop_and_wait_three : ∃ l₁ l₂ l₃,
    gatewayLink.connect gatewayEnds SendRun.blankEnv 1 SynRun.gatewayCall.buff testNetif.gw = some l₁
      ∧ run (step gatewayEnds) l₁ (handshake silentEnv silentEnv silentEnv) = some l₂
      ∧ run (step gatewayEnds) l₂ threeBytes = some l₃ ∧ (l₃.Idle → l₃.Agrees gatewayEnds) := by
  obtain ⟨l₁, l₂, hconnect, hrun, hopened, -, hsend⟩ := exists_opened
  obtain ⟨l₃, hsend⟩ := Option.isSome_iff_exists.mp hsend
  obtain ⟨-, hidle⟩ := ready_gatewayLink.handshake hconnect hrun hopened
  have hlaw := stop_and_wait gatewayEnds gatewayLink l₁ l₂ SendRun.blankEnv silentEnv silentEnv
    silentEnv 1 SynRun.gatewayCall.buff testNetif.gw threeBytes ready_gatewayLink hconnect hrun hopened
    ⟨hidle, fun _ _ => ⟨trivial, fun _ _ => ⟨trivial, fun _ _ => trivial⟩⟩⟩
    (List.forall_mem_cons.mpr ⟨show 20 + 20 + u16 3 < 0x10000 by decide,
      List.forall_mem_cons.mpr ⟨trivial, List.forall_mem_singleton.mpr trivial⟩⟩)
  exact ⟨l₁, l₂, l₃, hconnect, hrun, hsend, hlaw threeBytes l₃ List.prefix_rfl hsend⟩

/-- The `total_len` of 65500 bytes and the headers is 4, so that the server
takes the segment to be 36 bytes shorter than nothing. -/
theorem stop_and_wait_fails : ¬ ∀ (e : Ends) (l l₁ l₂ : Link) (env synEnv synackEnv ackEnv : NetEnv)
    (pid : Nat) (buff : Frame) (dstIp : IpAddr) (events : List LinkEvent), l.Ready e →
      l.connect e env pid buff dstIp = some l₁ →
      run (step e) l₁ (handshake synEnv synackEnv ackEnv) = some l₂ →
      (l₂.clientSocket e).state = .established → Always (step e) Waits l₂ events →
        Throughout (step e) (fun l' => l'.Idle → l'.Agrees e) l₂ events := by
  intro hall
  obtain ⟨l₁, l₂, hconnect, hrun, hopened, hmac, -⟩ := exists_opened
  obtain ⟨hcounts, hidle⟩ := ready_gatewayLink.handshake hconnect hrun hopened
  obtain ⟨dstMac, hmac⟩ := Option.isSome_iff_exists.mp hmac
  obtain ⟨f, hf⟩ : ∃ f, l₂.client.sendSegment SendRun.blankEnv gatewayEnds.clientSock none 65500
      = some f := sendSegment_returns rfl hmac (by decide)
  obtain ⟨l₃, hsend⟩ : ∃ l₃, l₂.step gatewayEnds (.send SendRun.blankEnv none 65500) = some l₃ := by
    rw [step, hf]
    exact ⟨_, rfl⟩
  obtain ⟨htracks, hisn, htotal⟩ := Tracks.send hcounts hidle hsend
  obtain ⟨as, l₄, hwaits, hrest, hidle₄, htracks₄, hisn₄, htotal₄⟩ :=
    htracks.drains SendRun.blankEnv
  have hrun₄ : run (step gatewayEnds) l₂ (.send SendRun.blankEnv none 65500 :: as) = some l₄ := by
    rw [run_cons, hsend, Option.bind_some, hrest]
  have hagrees := hall gatewayEnds gatewayLink l₁ l₂ SendRun.blankEnv silentEnv silentEnv silentEnv 1
    SynRun.gatewayCall.buff testNetif.gw (.send SendRun.blankEnv none 65500 :: as) ready_gatewayLink
    hconnect hrun hopened ⟨hidle, fun l' hl' => Option.some.inj (hsend.symm.trans hl') ▸ hwaits⟩ _ l₄
    List.prefix_rfl hrun₄ hidle₄
  have hcount := (htracks₄.settled hidle₄).1.symm.trans hagrees.count
  rw [hisn₄, hisn, htotal₄, htotal] at hcount
  have hlen : u16 65500 = 65500 := by decide
  rw [hlen, u32, u32, u32, u32, u16] at hcount
  omega

end Link

end Csos
