import Csos.NetBuild

/-!
# Receiving packets (`eth_input` and the protocols)

`netin_thread` takes a buffer off the list of an interface and calls
`eth_input`, which must dispose of it: free it, pass it on for sending,
or leave it with the request that it answers. The model keeps a record
of what happens to the received buffer. `NetQueues.lean` has the lists
themselves; here the wait list of an interface is only the sequence of
the buffers on it.

What comes from outside is in `NetEnv`. A function that waits for ever or
scans memory without an end has no result.
-/

namespace Csos

open Lib

/-! ## The state -/

/-- What happens to a buffer: `free_desc_buff`, a place on the list of an
interface for sending, or one in the field `refp` of a request. -/
inductive Disposal where
  | freed
  | queued
  | stored
deriving DecidableEq

/-- The interfaces, sockets, ports and ARP map, the buffers that wait for
a reply at each interface, and what has happened to the received buffer. -/
structure NetIn where
  netifs : Nat → Netif
  netifCount : Nat
  sockets : Nat → Socket
  ports : Nat → Port
  arpMap : List (IpAddr × MacAddr)
  waiting : Nat → List Frame
  disposals : List Disposal

/-- The answer that `ask_mac` gets, if one comes, the random numbers, and
the payload of the buffer that `alloc_desc_buff` returns, unless it
returns NULL. -/
structure NetEnv where
  askMac : Nat → IpAddr → Option MacAddr
  xrandom : Nat → Nat
  descBuff : Option Bytes

namespace NetIn

variable (env : NetEnv) (s : NetIn)

def setNetif (i : Nat) (netif : Netif) : NetIn :=
  { s with netifs := Function.update s.netifs i netif }

def setSocket (i : Nat) (socket : Socket) : NetIn :=
  { s with sockets := Function.update s.sockets i socket }

/-- `free_desc_buff`, of the received buffer. -/
def freeDescBuff : NetIn := { s with disposals := s.disposals ++ [.freed] }

/-- `netif_output`, and what it does with the buffer. -/
def netifOutput (buff : Frame) : NetIn × Disposal :=
  match findNetif s.netifs s.netifCount (macAt buff.payload ethSrc) with
  | some i => ({ s with waiting := Function.update s.waiting i (s.waiting i ++ [buff]) }, .queued)
  | none => (s, .freed)

/-- `netif_output`, of the received buffer. -/
def output (buff : Frame) : NetIn :=
  let (s, disposal) := s.netifOutput buff
  { s with disposals := s.disposals ++ [disposal] }

/-- `reply_arp_desc_buff` and `reply_icmp_desc_buff`. -/
def replyWith (answers : Bytes → Bytes → Bool) (netif : Nat) (buff : Frame) : NetIn :=
  let answered := fun txbuff : Frame => answers buff.payload txbuff.payload
  if (s.waiting netif).any answered then
    { s with
      waiting := Function.update s.waiting netif ((s.waiting netif).eraseP answered)
      disposals := s.disposals ++ [.stored] }
  else s

end NetIn

/-! ## `arp_map.c` -/

abbrev arpMapNr : Nat := 51

/-- The loop of `put_arp_map`. -/
def putArpMapLoop (ip : IpAddr) (mac : MacAddr) :
    List (IpAddr × MacAddr) → Option (List (IpAddr × MacAddr))
  | [] => none
  | item :: items =>
      if item.2 = mac then some ((ip, mac) :: items)
      else (putArpMapLoop ip mac items).map (item :: ·)

def putArpMap (arpMap : List (IpAddr × MacAddr)) (ip : IpAddr) (mac : MacAddr) :
    List (IpAddr × MacAddr) :=
  if arpMapNr ≤ arpMap.length then arpMap
  else (putArpMapLoop ip mac arpMap).getD (arpMap ++ [(ip, mac)])

def findMac (arpMap : List (IpAddr × MacAddr)) (ip : IpAddr) : Option MacAddr :=
  (arpMap.find? fun item => item.1 = ip).map Prod.snd

def ip2uint32 (ip : IpAddr) : Nat :=
  ((ip 0).toNat <<< 24) ||| ((ip 1).toNat <<< 16) ||| ((ip 2).toNat <<< 8) ||| (ip 3).toNat

/-- The bytes of an address in a row. -/
def ipWord (ip : IpAddr) : BitVec (8 + 8 + 8 + 8) := ip 0 ++ ip 1 ++ ip 2 ++ ip 3

def broadcastIp : IpAddr := fun _ => 0xFF

/-- `kernel_setmac`: the address that it leaves in `mac`. -/
def NetIn.kernelSetmac (env : NetEnv) (s : NetIn) (netif : Nat) (ip : IpAddr) : Option MacAddr :=
  let n := s.netifs netif
  if ip = broadcastIp then some broadcastMac
  else
    let mask := ip2uint32 n.mask
    let ipm := ip2uint32 ip &&& mask
    let selfm := ip2uint32 n.ipv4 &&& mask
    if ipm = selfm then (findMac s.arpMap ip).orElse fun _ => env.askMac netif ip
    else (findMac s.arpMap n.gw).orElse fun _ => env.askMac netif ip

/-! ## The way out for a received buffer -/

/-- `eth_output`, up to the call of `netif_output`. -/
def ethOutput (netif : Netif) (buff : Frame) (data : Option Bytes) (dlen : Nat) : Option Frame :=
  let p := buff.payload
  let p := setAddr p ethDst (macAt p ethSrc)
  let p := setAddr p ethSrc netif.mac
  netifSetChecksum (netifSetPayload { buff with payload := p } data dlen) dlen

/-- The fields that `ipv4_output` writes. -/
def ipv4OutputHeader (netif : Netif) (p : Bytes) (random totalLen : Nat) : Bytes :=
  let p := p.store16 ipv4TotalLen (htons totalLen)
  let p := p.store16 ipv4Checksum 0
  let p := p.store16 ipv4Id (u16 random)
  let p := p.store8 ipv4Ttl 64
  let p := setAddr p ipv4DstIp (ipAt p ipv4SrcIp)
  setAddr p ipv4SrcIp netif.ipv4

/-- The flags of a segment, whose word is in host order by now. -/
def tcpFlagsAt (p : Bytes) : Nat := p.load16 tcpFlags &&& 0x3F

def ipv4Output (netif : Netif) (buff : Frame) (random : Nat) (data : Option Bytes) (dlen : Nat) :
    Option Frame :=
  let p := buff.payload
  let tp := (p ipv4Proto).toNat
  let p :=
    if tp = ipTypeTcp ∧ tcpFlagsAt p = flagsAck then
      p.store16 tcpFlags (htons (tcpFlagWord flagsAck (20 / 4)))
    else p
  let payload := ipv4OutputHeader netif p random (ipv4BuildLen tp dlen 0)
  ethOutput netif { buff with payload } data dlen

/-- The fields that `icmp_output` writes. -/
def icmpOutputHeader (p : Bytes) : Bytes :=
  let p :=
    if p icmpType = 8 ∧ p icmpCode = 0 then (p.store8 icmpType 0).store8 icmpCode 0 else p
  p.store16 icmpChecksum 0

def icmpOutput (netif : Netif) (buff : Frame) (random : Nat) (data : Option Bytes) (dlen : Nat) :
    Option Frame :=
  ipv4Output netif { buff with payload := icmpOutputHeader buff.payload } random data dlen

/-- The fields that `arp_output` writes. -/
def arpOutputHeader (netif : Netif) (p : Bytes) : Bytes :=
  let p := p.store16 arpOp (htons arpOpReply)
  let p := setAddr p arpDstMac (macAt p arpSrcMac)
  let p := setAddr p arpDstIp (ipAt p arpSrcIp)
  let p := setAddr p arpSrcMac netif.mac
  setAddr p arpSrcIp netif.ipv4

def arpOutput (netif : Netif) (buff : Frame) : Option Frame :=
  ethOutput netif { buff with payload := arpOutputHeader netif buff.payload } none 0

/-! ## Answers of `tcp.c` -/

def flagsSynAck : Nat := flagsSyn ||| flagsAck

def flagsFinAck : Nat := flagsFin ||| flagsAck

def flagsRstAck : Nat := flagsRst ||| flagsAck

def flagsPshAck : Nat := flagsPsh ||| flagsAck

/-- The state after `tcp_ack`. -/
def ackState (socket : Socket) : TcpState :=
  match socket.socktype, socket.state with
  | .client, .synSent => .established
  | .client, .finWait1 => .finWait2
  | .client, .finWait2 => .timeWait
  | .server, .established => .closeWait
  | .server, .lastAck => .closed
  | _, state => state

/-- The socket and the segment when `tcp_ack` calls `ipv4_output`. -/
def tcpAckHeader (socket : Socket) (p : Bytes) : Socket × Bytes :=
  let dstPort := p.load16 tcpSrcPort
  let p := p.store16 tcpSrcPort (p.load16 tcpDstPort)
  let p := p.store16 tcpDstPort dstPort
  let packSeqNum := ntohl (p.load32 tcpSeqNum)
  let p := p.store32 tcpSeqNum (p.load32 tcpAckNum)
  let socket := { socket with seq := ntohl (p.load32 tcpSeqNum) }
  let flags := tcpFlagsAt p
  let (socket, p) :=
    if flags = flagsSynAck ∨ flags = flagsFinAck then
      let ack := u32 (packSeqNum + 1)
      ({ socket with ack }, p.store32 tcpAckNum (htonl ack))
    else if flags = flagsPshAck then
      let hlen := ipv4HeaderLen p ipv4Base + (p.load16 tcpFlags >>> 12) * 4
      let ack := u32 (socket.ack + ntohs (p.load16 ipv4TotalLen) + 0x100000000 - hlen)
      ({ socket with ack }, p.store32 tcpAckNum (htonl ack))
    else (socket, p)
  let p := p.store16 tcpFlags ((p.load16 tcpFlags &&& 0xFFC0) ||| flagsAck)
  let p := p.store16 tcpWindowSize (htons 0xFF)
  (socket, p.store16 tcpChecksum 0)

/-- `tcp_ack`, and the buffer that it passes on. -/
def NetIn.tcpAck (env : NetEnv) (s : NetIn) (sock : Nat) (buff : Frame) :
    Option (NetIn × Frame) := do
  let (socket, payload) := tcpAckHeader (s.sockets sock) buff.payload
  let buff ← ipv4Output (s.netifs socket.netif) { buff with payload } (env.xrandom 0) none 0
  let s := (s.setSocket sock { socket with state := ackState socket }).output buff
  return (s, buff)

/-- The state after `tcp_finack`. -/
def finackState (socket : Socket) : TcpState :=
  match socket.socktype, socket.state with
  | .client, .established => .finWait1
  | .server, .closeWait => .lastAck
  | .server, .established => .closeWait
  | _, state => state

/-- The header that `tcp_finack` fills in. -/
def tcpFinackHeader (socket : Socket) (p : Bytes) : Bytes :=
  let p := p.store16 tcpSrcPort (htons socket.srcp)
  let p := p.store16 tcpDstPort (htons socket.dstp)
  let p := p.store32 tcpSeqNum (htonl socket.seq)
  let p := p.store32 tcpAckNum (htonl socket.ack)
  tcpHeaderEnd p flagsFinAck

/-- `tcp_finack`, of a buffer other than the received one. -/
def NetIn.tcpFinack (env : NetEnv) (s : NetIn) (sock : Nat) (payload : Bytes) (dstIp : IpAddr) :
    Option NetIn := do
  let socket := s.sockets sock
  let payload := tcpFinackHeader socket payload
  let dstMac ← s.kernelSetmac env socket.netif dstIp
  let buff ← ipv4Build (s.netifs socket.netif) { payload, length := 20 } dstMac (env.xrandom 1)
    dstIp ipTypeTcp none 0 0
  let s := s.setSocket sock { socket with state := finackState socket }
  return (s.netifOutput buff).1

/-- The options of a SYN ACK. -/
def tcpSynackOptions (p : Bytes) : Bytes :=
  (((p.store8 tcpPayload 0x02).store8 (tcpPayload + 1) 0x04).store8 (tcpPayload + 2) 0x05).store8
    (tcpPayload + 3) 0xB4

/-- The socket and the segment when `tcp_synack` calls `ipv4_build`. -/
def tcpSynackHeader (socket : Socket) (seq : Nat) (p : Bytes) : Socket × Bytes :=
  let dstPort := p.load16 tcpSrcPort
  let p := p.store16 tcpSrcPort (p.load16 tcpDstPort)
  let p := p.store16 tcpDstPort dstPort
  let seqNum := ntohl (p.load32 tcpSeqNum)
  let ack := u32 (seqNum + 1)
  let p := p.store32 tcpSeqNum (htonl seq)
  let p := p.store32 tcpAckNum (htonl ack)
  let p := tcpSynackOptions p
  let p := p.store16 tcpFlags (htons (tcpFlagWord flagsSynAck ((20 + 4) / 4)))
  ({ socket with dstp := htons dstPort, dipv4 := ipAt p ipv4SrcIp, seq := u32 (seq + 1), ack },
    p.store16 tcpChecksum 0)

def NetIn.tcpSynack (env : NetEnv) (s : NetIn) (sock : Nat) (buff : Frame) : Option NetIn := do
  let (socket, payload) := tcpSynackHeader (s.sockets sock) (env.xrandom 0) buff.payload
  let dstIp := ipAt payload ipv4SrcIp
  let dstMac ← s.kernelSetmac env socket.netif dstIp
  let buff ← ipv4Build (s.netifs socket.netif) { payload, length := 24 } dstMac (env.xrandom 1)
    dstIp ipTypeTcp none 0 4
  return (s.setSocket sock { socket with state := .synReceived }).output buff

/-! ## `tcp_input` -/

/-- What happens on an RST ACK. -/
def NetIn.tcpReset (s : NetIn) (sock : Nat) : NetIn :=
  s.setSocket sock { s.sockets sock with state := .closed }

/-- What happens on an ACK. -/
def NetIn.tcpAcked (s : NetIn) (sock : Nat) (p : Bytes) : NetIn :=
  let socket := s.sockets sock
  match socket.state with
  | .finWait1 => (s.setSocket sock { socket with state := .finWait2 }).freeDescBuff
  | .synReceived => s.setSocket sock { socket with state := .established }
  | .established =>
      s.setSocket sock
        { socket with ack := ntohl (p.load32 tcpSeqNum), seq := ntohl (p.load32 tcpAckNum) }
  | _ => s

/-- The offset of `payload` in `desc_buff_t`. -/
abbrev descBuffHeader : Nat := 16

/-- A second buffer, with a copy of the received one, goes out as a FIN
ACK. -/
def NetIn.copyFinack (env : NetEnv) (s : NetIn) (sock : Nat) (buff : Frame) : Option NetIn := do
  let fresh ← env.descBuff
  let nbuff := fresh.copy 0 buff.payload (buff.length - descBuffHeader)
  s.tcpFinack env sock nbuff (ipAt buff.payload ipv4DstIp)

/-- The ports that `tcp_input` notes before it answers a FIN ACK. -/
def NetIn.notePorts (s : NetIn) (sock : Nat) (p : Bytes) : NetIn :=
  s.setSocket sock
    { s.sockets sock with
      srcp := ntohs (p.load16 tcpDstPort)
      dstp := ntohs (p.load16 tcpSrcPort) }

/-- `tcp_input`, at a port that is up. -/
def NetIn.tcpInputUp (env : NetEnv) (s : NetIn) (sock : Nat) (buff : Frame) : Option NetIn := do
  let flags := tcpFlagsAt buff.payload
  if flags = flagsSynAck then
    let (s, _) ← s.tcpAck env sock buff
    return s
  else if flags = flagsFinAck then
    let (s, buff) ← s.tcpAck env sock buff
    (s.notePorts sock buff.payload).copyFinack env sock buff
  else if flags = flagsRstAck then
    return s.tcpReset sock
  else if flags = flagsPshAck then
    let (s, _) ← s.tcpAck env sock buff
    return s
  else if flags = flagsAck then
    return s.tcpAcked sock buff.payload
  else return s

/-- `tcp_input`, at a port on which a server listens. -/
def NetIn.tcpInputListen (env : NetEnv) (s : NetIn) (sock : Nat) (buff : Frame) :
    Option NetIn := do
  let flags := tcpFlagsAt buff.payload
  if flags = flagsFinAck then
    match (s.sockets sock).state with
    | .established => do
        let (s, buff) ← s.tcpAck env sock buff
        s.copyFinack env sock buff
    | .closeWait => do
        let (s, _) ← s.tcpAck env sock buff
        return s
    | _ => return s.freeDescBuff
  else if flags = flagsRstAck then
    return s.tcpReset sock
  else if flags = flagsPshAck then
    let (s, _) ← s.tcpAck env sock buff
    return s
  else if flags = flagsSyn then
    s.tcpSynack env sock buff
  else if flags = flagsAck then
    return s.tcpAcked sock buff.payload
  else return s

/-- The port that a segment goes to. -/
def NetIn.portOf (s : NetIn) (p : Bytes) : Port := s.ports (ntohs (p.load16 tcpDstPort))

/-- The segment with its word of the flags in host order. -/
def hostFlags (p : Bytes) : Bytes := p.store16 tcpFlags (ntohs (p.load16 tcpFlags))

def NetIn.tcpInput (env : NetEnv) (s : NetIn) (buff : Frame) : Option NetIn :=
  let port := s.portOf buff.payload
  let buff := { buff with payload := hostFlags buff.payload }
  match port.status with
  | .up => s.tcpInputUp env port.sock buff
  | .listen => s.tcpInputListen env port.sock buff
  | _ => some s.freeDescBuff

/-! ## `dhcp.c` and `udp_input` -/

abbrev dhcpOptionEnd : Nat := 255

abbrev dhcpOptionMessageType : Nat := 53

abbrev dhcpOptionRouter : Nat := 3

abbrev dhcpOptionSubnetMask : Nat := 1

inductive DhcpType where
  | offer
  | ack

/-- More options than memory holds. -/
def optionFuel : Nat := 0x100000000

/-- The loop of `dhcp_input`, from the option at `a` on: the first offer
or acknowledgement before the end of the options. -/
def dhcpMessage (p : Bytes) : Nat → Nat → Option (Option DhcpType)
  | 0, _ => none
  | n + 1, a =>
      if (p a).toNat = dhcpOptionEnd then some none
      else if (p a).toNat = dhcpOptionMessageType ∧ p (a + 2) = 2 then some (some .offer)
      else if (p a).toNat = dhcpOptionMessageType ∧ p (a + 2) = 5 then some (some .ack)
      else dhcpMessage p n (a + (p (a + 1)).toNat + 2)

/-- The loop of `dhcp_offer`. -/
def dhcpOfferLoop (p : Bytes) : Nat → Nat → Netif → Option Netif
  | 0, _, _ => none
  | n + 1, a, netif =>
      if (p a).toNat = dhcpOptionEnd then some netif
      else
        let netif :=
          if (p a).toNat = dhcpOptionRouter then { netif with dhcpGw := ipAt p (a + 2) }
          else if (p a).toNat = dhcpOptionSubnetMask then { netif with dhcpMask := ipAt p (a + 2) }
          else netif
        dhcpOfferLoop p n (a + (p (a + 1)).toNat + 2) netif

/-- `dhcp_offer`, for the interface. -/
def dhcpOffer (netif : Netif) (p : Bytes) : Option Netif := do
  let netif := { netif with dhcpIpv4 := ipAt p dhcpYiaddr }
  let netif ← dhcpOfferLoop p optionFuel dhcpOptions netif
  return { netif with status := .requested }

/-- `DHCP_PARAM_REQUEST_LIST`. -/
def dhcpParamRequestList (p : Bytes) (a : Nat) : Bytes :=
  ((((p.store8 a 0x01).store8 (a + 1) 0x03).store8 (a + 2) 0x06).store8 (a + 3) 0x1A).store8
    (a + 4) 0x2A

/-- What `dhcp_request` writes over the offer. -/
def dhcpRequestOptions (netif : Netif) (p : Bytes) : Bytes :=
  let p := p.store8 dhcpOp 1
  let p := (p.store8 (dhcpOptions + 1) 1).store8 (dhcpOptions + 2) 3
  let p := (p.store8 (dhcpOptions + 3) 55).store8 (dhcpOptions + 4) 5
  let p := dhcpParamRequestList p (dhcpOptions + 5)
  let p := (p.store8 (dhcpOptions + 10) 50).store8 (dhcpOptions + 11) 4
  let p := setAddr p (dhcpOptions + 12) netif.dhcpIpv4
  p.store8 (dhcpOptions + 16) 255

def NetIn.dhcpRequest (env : NetEnv) (s : NetIn) (netif : Nat) (buff : Frame) :
    Option NetIn := do
  let payload := dhcpRequestOptions (s.netifs netif) buff.payload
  let dstMac ← s.kernelSetmac env netif broadcastIp
  let buff ← udpBuild (s.netifs netif) { buff with payload } dstMac (env.xrandom 0) broadcastIp
    dhcpClientPort dhcpServerPort none (240 + 17)
  return s.output buff

/-- `dhcp_ack`, for the interface. -/
def dhcpAck (netif : Netif) : Netif :=
  { netif with gw := netif.dhcpGw, mask := netif.dhcpMask, ipv4 := netif.dhcpIpv4, status := .ack }

def NetIn.dhcpInput (env : NetEnv) (s : NetIn) (netif : Nat) (buff : Frame) : Option NetIn := do
  let p := buff.payload
  if p dhcpOp = 2 then
    match ← dhcpMessage p optionFuel dhcpOptions with
    | some .offer => do
        let n ← dhcpOffer (s.netifs netif) p
        (s.setNetif netif n).dhcpRequest env netif buff
    | some .ack => return s.setNetif netif (dhcpAck (s.netifs netif))
    | none => return s
  else return s

/-- From a DHCP server to a client. -/
def isDhcp (p : Bytes) : Bool :=
  ntohs (p.load16 udpSrcPort) = dhcpServerPort ∧ ntohs (p.load16 udpDstPort) = dhcpClientPort

def NetIn.udpInput (env : NetEnv) (s : NetIn) (netif : Nat) (buff : Frame) : Option NetIn :=
  if isDhcp buff.payload then s.dhcpInput env netif buff
  else some s.freeDescBuff

/-! ## `icmp_input`, `arp_input`, `ipv4_input` and `eth_input` -/

def NetIn.icmpInput (env : NetEnv) (s : NetIn) (netif : Nat) (buff : Frame) : Option NetIn := do
  let p := buff.payload
  if p icmpType = 8 then
    let buff ← icmpOutput (s.netifs netif) buff (env.xrandom 0) none 0
    return (s.output buff).freeDescBuff
  else if p icmpType = 0 then
    return (s.replyWith icmpReplies netif buff).freeDescBuff
  else return s.freeDescBuff

def NetIn.putArpMap (s : NetIn) (p : Bytes) : NetIn :=
  { s with arpMap := Csos.putArpMap s.arpMap (ipAt p arpSrcIp) (macAt p arpSrcMac) }

def NetIn.arpInput (s : NetIn) (netif : Nat) (buff : Frame) : Option NetIn := do
  let p := buff.payload
  let op := ntohs (p.load16 arpOp)
  if op = arpOpReply then
    return (s.putArpMap p).replyWith arpReplies netif buff
  else if op = arpOpRequest then
    if ipAt p arpDstIp = (s.netifs netif).ipv4 then
      let buff ← arpOutput (s.netifs netif) buff
      return ((s.output buff).putArpMap buff.payload).freeDescBuff
    else return (s.putArpMap p).freeDescBuff
  else return s.freeDescBuff

def NetIn.ipv4Input (env : NetEnv) (s : NetIn) (netif : Nat) (buff : Frame) : Option NetIn :=
  let proto := (buff.payload ipv4Proto).toNat
  if proto = ipTypeIcmp then s.icmpInput env netif buff
  else if proto = ipTypeTcp then s.tcpInput env buff
  else if proto = ipTypeUdp then s.udpInput env netif buff
  else some s.freeDescBuff

/-- The frame is for this interface. -/
def isFor (netif : Netif) (p : Bytes) : Bool :=
  macAt p ethDst = netif.mac ∨ macAt p ethDst = broadcastMac

/-- `eth_input`, for the interface with this index. -/
def NetIn.ethInput (env : NetEnv) (s : NetIn) (netif : Nat) (buff : Frame) : Option NetIn :=
  let type := ntohs (buff.payload.load16 ethType)
  if isFor (s.netifs netif) buff.payload then
    if type = ethTypeArp then s.arpInput netif buff
    else if type = ethTypeIPv4 then s.ipv4Input env netif buff
    else if type = ethTypeIPv6 then some s
    else if type = ethTypeTest then some s
    else some s.freeDescBuff
  else some s.freeDescBuff

end Csos
