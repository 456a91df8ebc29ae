import Csos.Memory32
import Csos.Packet

/-!
# Building packets (`kernel32/netx/*.c`, `calc_checksum` of `netx.c`)

Every builder fills its header in the descriptor buffer and calls the
next lower layer, down to `eth_build`, which copies the payload behind
the headers, computes the checksums and passes the buffer on to
`netif_output`. What the model returns is the buffer at this point.

The builders only see one buffer, a `Frame`. What comes from elsewhere
is an argument: the random numbers of `xrandom`, and the MAC address
that `kernel_setmac` leaves behind, for which it may have to wait. A
pointer to payload is NULL or leads to bytes outside the buffer. A loop
whose counter wraps never ends and has no result.
-/

namespace Csos

open Lib

/-! ## The data -/

/-- `desc_buff_t`, without its links. -/
structure Frame where
  length : Nat
  payload : Bytes

/-! ## Words -/

def u16 (x : Nat) : Nat := x % 0x10000

theorem shiftRight_16 (x : Nat) : x >>> 16 = x / 0x10000 := Nat.shiftRight_eq_div_pow x 16

theorem and_0xFFFF (x : Nat) : x &&& 0xFFFF = x % 0x10000 := Nat.and_two_pow_sub_one_eq_mod x 16

/-- The operator `~` on 32 bits. -/
def not32 (x : Nat) : Nat := 0xFFFFFFFF - x

/-- `kernel_memcpy` into a buffer: nothing happens when `data` is NULL. -/
def memcpyInto (p : Bytes) (a : Nat) (data : Option Bytes) (size : Nat) : Bytes :=
  match data with
  | none => p
  | some data => p.copy a data size

/-! ## Checksums -/

/-- The loops of the checksum functions over `length` bytes from `start`
on. The counter `i` wraps at `wrap`; the first argument bounds the number
of rounds. -/
def checksumLoop (wrap : Nat) (p : Bytes) (start length : Nat) : Nat → Nat → Nat → Option Nat
  | 0, _, _ => none
  | n + 1, i, checksum =>
      if i < length then
        let word := (p (start + i)).toNat <<< 8
        let word := if i + 1 < length then word ||| (p (start + i + 1)).toNat else word
        checksumLoop wrap p start length n ((i + 2) % wrap) (u32 (checksum + word))
      else some checksum

/-- `while (checksum >> 16)`: the high half is added to the low one. -/
def foldChecksum (checksum : Nat) : Nat :=
  if checksum >>> 16 ≠ 0 then foldChecksum (u32 ((checksum &&& 0xFFFF) + (checksum >>> 16)))
  else checksum
termination_by checksum
decreasing_by
  rename_i h
  rw [shiftRight_16] at h
  rw [shiftRight_16, and_0xFFFF]
  have hle := Nat.mod_le (checksum % 0x10000 + checksum / 0x10000) 0x100000000
  rw [u32]
  omega

def calcChecksum (p : Bytes) (data length : Nat) : Option Nat := do
  let checksum ← checksumLoop 0x100000000 p data length (length + 1) 0 0
  return htons (u16 (not32 (foldChecksum checksum)))

/-- One word of an address. -/
def addrWord (p : Bytes) (a : Nat) : Nat := ((p a).toNat <<< 8) ||| (p (a + 1)).toNat

/-- The sum of the pseudo header, for the IPv4 header at `ip`. -/
def pseudoChecksum (p : Bytes) (ip proto length : Nat) : Nat :=
  let checksum := u32 (addrWord p (ip + 12))
  let checksum := u32 (checksum + addrWord p (ip + 14))
  let checksum := u32 (checksum + addrWord p (ip + 16))
  let checksum := u32 (checksum + addrWord p (ip + 18))
  let checksum := u32 (checksum + proto)
  u32 (checksum + length)

/-- The last line of `calc_tcp_checksum` and `calc_udp_checksum`. -/
def endChecksum (checksum : Nat) : Nat :=
  htons (if not32 checksum ≠ 0 then u16 (not32 checksum) else 0xFFFF)

/-- `ip->ihl * 4`. -/
def ipv4HeaderLen (p : Bytes) (ip : Nat) : Nat := (p ip &&& 0x0F).toNat * 4

def calcTcpChecksum (p : Bytes) (ip tcp payload dataLen : Nat) : Option (Bytes × Nat) := do
  let tcpHdrLen := u16 (ntohs (p.load16 (ip + 2)) + 0x20000 - ipv4HeaderLen p ip - dataLen)
  let tcpLen := u16 (tcpHdrLen + dataLen)
  let checksum := pseudoChecksum p ip ipTypeTcp tcpLen
  let p := p.store16 (tcp + 16) 0
  let checksum ← checksumLoop 0x10000 p tcp tcpHdrLen (tcpHdrLen + 1) 0 checksum
  let checksum ← checksumLoop 0x10000 p payload dataLen (dataLen + 1) 0 checksum
  return (p, endChecksum (foldChecksum checksum))

def calcUdpChecksum (p : Bytes) (ip udp dataLen : Nat) : Option (Bytes × Nat) := do
  let udpLen := u16 (8 + dataLen)
  let checksum := pseudoChecksum p ip ipTypeUdp udpLen
  let p := p.store16 (udp + 6) 0
  let checksum ← checksumLoop 0x10000 p udp udpLen (udpLen + 1) 0 checksum
  return (p, endChecksum (foldChecksum checksum))

/-! ## `eth.c` -/

/-- The `icmp_t` at `icmp` is an echo request or reply. -/
def isIcmpEcho (p : Bytes) (icmp : Nat) : Bool :=
  (p icmp = 0 ∨ p icmp = 8) ∧ p (icmp + 1) = 0

def netifSetPayload (buff : Frame) (data : Option Bytes) (dlen : Nat) : Frame :=
  let p := buff.payload
  let payload :=
    if ntohs (p.load16 ethType) = ethTypeIPv4 then
      let pd := ipv4Base + ipv4HeaderLen p ipv4Base
      if (p ipv4Proto).toNat = ipTypeIcmp then
        if isIcmpEcho p pd then memcpyInto p (pd + 8) data dlen else p
      else if (p ipv4Proto).toNat = ipTypeUdp then memcpyInto p (pd + 8) data dlen
      else if (p ipv4Proto).toNat = ipTypeTcp then memcpyInto p (pd + 20) data dlen
      else p
    else p
  { payload, length := u16 (buff.length + dlen) }

def netifSetChecksum (buff : Frame) (dlen : Nat) : Option Frame := do
  let p := buff.payload
  if ntohs (p.load16 ethType) = ethTypeIPv4 then
    let ipv4l := ipv4HeaderLen p ipv4Base
    let checksum ← calcChecksum p ipv4Base ipv4l
    let p := p.store16 ipv4Checksum checksum
    let pd := ipv4Base + ipv4l
    if (p ipv4Proto).toNat = ipTypeIcmp then
      if isIcmpEcho p pd then
        let checksum ← calcChecksum p pd (8 + dlen)
        return { buff with payload := p.store16 (pd + 2) checksum }
      else return { buff with payload := p }
    else if (p ipv4Proto).toNat = ipTypeUdp then
      let (p, checksum) ← calcUdpChecksum p ipv4Base pd dlen
      return { buff with payload := p.store16 (pd + 6) checksum }
    else if (p ipv4Proto).toNat = ipTypeTcp then
      let (p, checksum) ← calcTcpChecksum p ipv4Base pd (pd + 20) dlen
      return { buff with payload := p.store16 (pd + 16) checksum }
    else return { buff with payload := p }
  else return buff

/-- The fields that `eth_build` writes. -/
def ethHeader (netif : Netif) (p : Bytes) (dstMac : MacAddr) (type : Nat) : Bytes :=
  let p := p.store16 ethType (htons type)
  let p := setAddr p ethDst dstMac
  setAddr p ethSrc netif.mac

/-- `eth_build`, up to the call of `netif_output`. -/
def ethBuild (netif : Netif) (buff : Frame) (dstMac : MacAddr) (type : Nat)
    (data : Option Bytes) (dlen : Nat) : Option Frame :=
  let payload := ethHeader netif buff.payload dstMac type
  let buff := { payload, length := u16 (buff.length + 14) }
  netifSetChecksum (netifSetPayload buff data dlen) dlen

/-! ## `ipv4.c` -/

/-- `total_len` of `ipv4_build`. -/
def ipv4BuildLen (tp dlen olen : Nat) : Nat :=
  if tp = ipTypeUdp then u16 (20 + 8 + dlen)
  else if tp = ipTypeIcmp then u16 (20 + 8 + dlen)
  else if tp = ipTypeTcp then u16 (20 + 20 + dlen + olen)
  else 0

/-- The fields that `ipv4_build` writes. -/
def ipv4Header (netif : Netif) (p : Bytes) (random : Nat) (dstIp : IpAddr) (tp totalLen : Nat) :
    Bytes :=
  let p := p.store8 ipv4Ihl ((p ipv4Ihl &&& 0x0F) ||| 0x40)
  let p := p.store8 ipv4Ihl ((p ipv4Ihl &&& 0xF0) ||| 5)
  let p := p.store16 ipv4TotalLen (htons totalLen)
  let p := p.store8 ipv4Tos 0
  let p := p.store16 ipv4Flags 0
  let p := p.store16 ipv4Id (htons (u16 random))
  let p := p.store8 ipv4Ttl 64
  let p := p.store8 ipv4Proto (BitVec.ofNat 8 tp)
  let p := p.store16 ipv4Checksum 0
  let p := setAddr p ipv4SrcIp netif.ipv4
  setAddr p ipv4DstIp dstIp

/-- `ipv4_build`, with the random number for the field `id`. -/
def ipv4Build (netif : Netif) (buff : Frame) (dstMac : MacAddr) (random : Nat) (dstIp : IpAddr)
    (tp : Nat) (data : Option Bytes) (dlen olen : Nat) : Option Frame :=
  let payload := ipv4Header netif buff.payload random dstIp tp (ipv4BuildLen tp dlen olen)
  let buff := { payload, length := u16 (buff.length + 20) }
  ethBuild netif buff dstMac ethTypeIPv4 data dlen

/-! ## `icmp.c`, `udp.c` and `tcp.c` -/

/-- `echo_payload`, with the NUL that `sizeof` counts. -/
def echoPayload : List Char :=
  "csos.icmp.abcdefghijklmnopqrstuvwxyz0123456789".toList ++ [Char.ofNat 0]

def echoBytes : Bytes := fun b => BitVec.ofNat 8 ((echoPayload[b]?.map Char.toNat).getD 0)

/-- The header that `icmp_build` fills in. -/
def icmpHeader (type code : BitVec 8) (seq : Nat) (buff : Frame) : Frame :=
  let p := buff.payload
  let p := p.store8 icmpType type
  let p := p.store8 icmpCode code
  let p := p.store16 icmpChecksum 0
  let p := p.store16 icmpId (htons 1)
  let p := p.store16 icmpSeq (u16 seq)
  { payload := p, length := u16 (buff.length + 8) }

/-- `icmp_build`, with the random numbers for `seq` and for `ipv4_build`. -/
def icmpBuild (netif : Netif) (buff : Frame) (dstMac : MacAddr) (seq random : Nat)
    (type code : BitVec 8) (dstIp : IpAddr) (data : Option Bytes) (dlen : Nat) : Option Frame :=
  let buff := icmpHeader type code seq buff
  if data.isNone ∧ dlen = 0 then
    ipv4Build netif buff dstMac random dstIp ipTypeIcmp (some echoBytes) echoPayload.length 0
  else ipv4Build netif buff dstMac random dstIp ipTypeIcmp data dlen 0

def udpBuild (netif : Netif) (buff : Frame) (dstMac : MacAddr) (random : Nat) (dstIp : IpAddr)
    (srcPort dstPort : Nat) (data : Option Bytes) (dlen : Nat) : Option Frame :=
  let p := buff.payload
  let p := p.store16 udpSrcPort (htons srcPort)
  let p := p.store16 udpDstPort (htons dstPort)
  let p := p.store16 udpLength (htons (u16 (8 + dlen)))
  let p := p.store16 udpChecksum 0
  let buff := { payload := p, length := u16 (buff.length + 8) }
  ipv4Build netif buff dstMac random dstIp ipTypeUdp data dlen 0

/-- The word of the flags: `flags`, no reserved bits, and `offset`. -/
def tcpFlagWord (flags offset : Nat) : Nat := flags ||| (offset <<< 12)

/-- The header that `tcp_build` and `tcp_syn` fill in, from `ff` on. -/
def tcpHeaderEnd (p : Bytes) (flags : Nat) : Bytes :=
  let p := p.store16 tcpFlags (htons (tcpFlagWord flags (20 / 4)))
  let p := p.store16 tcpWindowSize (htons 0xFF)
  let p := p.store16 tcpChecksum 0
  p.store16 tcpUrgentPointer 0

abbrev flagsFin : Nat := 0b000001

abbrev flagsSyn : Nat := 0b000010

abbrev flagsRst : Nat := 0b000100

abbrev flagsPsh : Nat := 0b001000

abbrev flagsAck : Nat := 0b010000

def tcpBuild (netif : Netif) (socket : Socket) (buff : Frame) (dstMac : MacAddr) (random : Nat)
    (data : Option Bytes) (dlen : Nat) : Option Frame :=
  let p := buff.payload
  let p := p.store16 tcpSrcPort (htons socket.srcp)
  let p := p.store16 tcpDstPort (htons socket.dstp)
  let p := p.store32 tcpSeqNum (htonl socket.seq)
  let p := p.store32 tcpAckNum (htonl socket.ack)
  let p := tcpHeaderEnd p (flagsAck ||| flagsPsh)
  let buff := { payload := p, length := u16 (buff.length + 20) }
  ipv4Build netif buff dstMac random socket.dipv4 ipTypeTcp data dlen 0

/-- `alloc_random_port`, for the task with this `pid`. -/
def allocRandomPort (ports : Nat → Port) (pid sock : Nat) (protocol : DescBuffType) :
    (Nat → Port) × Nat :=
  match (List.range' 20000 (65535 - 20000)).find? fun port => (ports port).status = .down with
  | some port =>
      (Function.update ports port { status := .up, ptype := protocol, pid, sock }, port)
  | none => (ports, 65535)

/-- The header that `tcp_syn` fills in. -/
def tcpSynHeader (socket : Socket) (srcp seq : Nat) (buff : Frame) : Frame :=
  let p := buff.payload
  let p := p.store16 tcpSrcPort (htons srcp)
  let p := p.store16 tcpDstPort (htons socket.dstp)
  let p := p.store32 tcpSeqNum (htonl seq)
  let p := p.store32 tcpAckNum 0
  { payload := tcpHeaderEnd p flagsSyn, length := u16 (buff.length + 20) }

/-- `tcp_syn`, with the random numbers for `seq` and for `ipv4_build`. -/
def tcpSyn (netif : Netif) (socket : Socket) (ports : Nat → Port) (pid sock : Nat) (buff : Frame)
    (dstMac : MacAddr) (seq random : Nat) (dstIp : IpAddr) :
    Option (Frame × Socket × (Nat → Port)) := do
  let (ports, srcp) := allocRandomPort ports pid sock .tcp
  let buff := tcpSynHeader socket srcp seq buff
  let frame ← ipv4Build netif buff dstMac random dstIp ipTypeTcp none 0 0
  return (frame, { socket with srcp, seq, state := .synSent }, ports)

end Csos
