import Csos.Lib.Bytes
import Mathlib.Data.Fintype.Basic

/-!
# Packet formats and interfaces (`inc/netx/*.h`, `inc/netx.h`)

A frame lies in the `payload` of a descriptor buffer. The structures of
the headers have no padding; each field is given by its offset from the
start of the frame, where an IPv4 header has no options. Words are
little-endian in memory, so the fields of more than one byte hold what
`htons` and `htonl` return.
-/

namespace Csos

open Lib

/-- `mac_addr`. -/
abbrev MacAddr := Fin 6 → BitVec 8

/-- `ip_addr`. -/
abbrev IpAddr := Fin 4 → BitVec 8

/-- The `mac_addr` at `a`. -/
def macAt (p : Bytes) (a : Nat) : MacAddr := fun i => p (a + i)

/-- The `ip_addr` at `a`. -/
def ipAt (p : Bytes) (a : Nat) : IpAddr := fun i => p (a + i)

/-- Copy an address to `a`. -/
def setAddr (p : Bytes) (a : Nat) {n : Nat} (addr : Fin n → BitVec 8) : Bytes := fun b =>
  if h : a ≤ b ∧ b < a + n then addr ⟨b - a, by omega⟩ else p b

section SetAddr

variable {p q : Bytes} {a b n : Nat} {addr : Fin n → BitVec 8}

theorem ipAt_congr (h : ∀ b, a ≤ b → b < a + 4 → q b = p b) : ipAt q a = ipAt p a :=
  funext fun i => h _ (Nat.le_add_right a i) (Nat.add_lt_add_left i.isLt a)

theorem macAt_congr (h : ∀ b, a ≤ b → b < a + 6 → q b = p b) : macAt q a = macAt p a :=
  funext fun i => h _ (Nat.le_add_right a i) (Nat.add_lt_add_left i.isLt a)

theorem setAddr_outside (h : b < a ∨ a + n ≤ b) : setAddr p a addr b = p b := dif_neg (by omega)

theorem setAddr_inside (i : Fin n) : setAddr p a addr (a + i) = addr i := by
  have h : a ≤ a + i ∧ a + i < a + n := ⟨Nat.le_add_right a i, Nat.add_lt_add_left i.isLt a⟩
  rw [setAddr, dif_pos h]
  exact congrArg addr (Fin.ext (Nat.add_sub_cancel_left a i))

theorem ipAt_setAddr {ip : IpAddr} : ipAt (setAddr p a ip) a = ip := funext setAddr_inside

theorem macAt_setAddr {mac : MacAddr} : macAt (setAddr p a mac) a = mac := funext setAddr_inside

/-! Another field does not see the address. -/

theorem ipAt_setAddr_other (h : b + 4 ≤ a ∨ a + n ≤ b) :
    ipAt (setAddr p a addr) b = ipAt p b :=
  ipAt_congr fun _ _ _ => setAddr_outside (by omega)

theorem macAt_setAddr_other (h : b + 6 ≤ a ∨ a + n ≤ b) :
    macAt (setAddr p a addr) b = macAt p b :=
  macAt_congr fun _ _ _ => setAddr_outside (by omega)

theorem load16_setAddr_other (h : b + 2 ≤ a ∨ a + n ≤ b) :
    (setAddr p a addr).load16 b = p.load16 b :=
  Bytes.load16_congr (setAddr_outside (by omega)) (setAddr_outside (by omega))

end SetAddr

/-! ## The structures of `inet.h` -/

/-- The state of a connection. -/
inductive TcpState where
  | closed
  | listen
  | synSent
  | synReceived
  | established
  | finWait1
  | finWait2
  | closeWait
  | lastAck
  | closing
  | timeWait
deriving DecidableEq

inductive SockType where
  | client
  | server
deriving DecidableEq

/-- The field `status` of `netif_t`. -/
inductive NetifStatus where
  | down
  | requested
  | ack
deriving DecidableEq

/-- `netif_t`, with the fields that the protocols read and write. -/
structure Netif where
  mac : MacAddr
  ipv4 : IpAddr
  mask : IpAddr
  gw : IpAddr
  dhcpIpv4 : IpAddr
  dhcpMask : IpAddr
  dhcpGw : IpAddr
  status : NetifStatus

def broadcastMac : MacAddr := fun _ => 0xFF

/-- `find_netif`: 0 is the loopback interface, 1 the default card. -/
def findNetif (netifs : Nat → Netif) (netifCount : Nat) (mac : MacAddr) : Option Nat :=
  if mac = broadcastMac then some 1
  else (List.range netifCount).find? fun i => (netifs i).mac = mac

/-- `socket_t`, with the fields that the protocols read. `netif` is the
interface's place in `netifs`. -/
structure Socket where
  socktype : SockType
  state : TcpState
  srcp : Nat
  dstp : Nat
  dipv4 : IpAddr
  seq : Nat
  ack : Nat
  netif : Nat

/-- `DBT_UNK` and so on: what a buffer carries, and what a port is for. -/
inductive DescBuffType where
  | unk
  | arp
  | icmp
  | udp
  | tcp
deriving DecidableEq

inductive PortStatus where
  | down
  | busy
  | up
  | listen
deriving DecidableEq

/-- `port_t`. `sock` is a place in `sockets`; it means something only as
long as the port is not down. -/
structure Port where
  status : PortStatus
  ptype : DescBuffType
  pid : Nat
  sock : Nat

/-! ## Byte order -/

def htons (hostshort : Nat) : Nat :=
  ((hostshort &&& 0xFF00) >>> 8) ||| ((hostshort &&& 0x00FF) <<< 8)

def ntohs (netshort : Nat) : Nat :=
  ((netshort &&& 0xFF00) >>> 8) ||| ((netshort &&& 0x00FF) <<< 8)

def htonl (hostlong : Nat) : Nat :=
  ((hostlong &&& 0xFF000000) >>> 24) ||| ((hostlong &&& 0x00FF0000) >>> 8)
    ||| ((hostlong &&& 0x0000FF00) <<< 8) ||| ((hostlong &&& 0x000000FF) <<< 24)

def ntohl (netlong : Nat) : Nat :=
  ((netlong &&& 0xFF000000) >>> 24) ||| ((netlong &&& 0x00FF0000) >>> 8)
    ||| ((netlong &&& 0x0000FF00) <<< 8) ||| ((netlong &&& 0x000000FF) <<< 24)

/-! ## `eth_t` -/

abbrev ethDst : Nat := 0

abbrev ethSrc : Nat := 6

abbrev ethType : Nat := 12

/-- `eth_t.payload`, and `sizeof(eth_t)`. -/
abbrev ipv4Base : Nat := 14

abbrev ethTypeIPv4 : Nat := 0x0800

abbrev ethTypeArp : Nat := 0x0806

abbrev ethTypeIPv6 : Nat := 0x86DD

abbrev ethTypeTest : Nat := 0x9000

/-! ## `arp_t` -/

abbrev arpOp : Nat := 20

abbrev arpSrcMac : Nat := 22

abbrev arpSrcIp : Nat := 28

abbrev arpDstMac : Nat := 32

abbrev arpDstIp : Nat := 38

abbrev arpOpRequest : Nat := 1

abbrev arpOpReply : Nat := 2

/-! ## `ipv4_t` -/

/-- `ihl` is the low half of this byte, `ver` the high one. -/
abbrev ipv4Ihl : Nat := 14

abbrev ipv4Tos : Nat := 15

abbrev ipv4TotalLen : Nat := 16

abbrev ipv4Id : Nat := 18

abbrev ipv4Flags : Nat := 20

abbrev ipv4Ttl : Nat := 22

abbrev ipv4Proto : Nat := 23

abbrev ipv4Checksum : Nat := 24

abbrev ipv4SrcIp : Nat := 26

abbrev ipv4DstIp : Nat := 30

abbrev ipTypeIcmp : Nat := 1

abbrev ipTypeTcp : Nat := 6

abbrev ipTypeUdp : Nat := 17

/-! ## `icmp_t` and `icmp_echo_t` -/

abbrev icmpType : Nat := 34

abbrev icmpCode : Nat := 35

abbrev icmpChecksum : Nat := 36

abbrev icmpId : Nat := 38

abbrev icmpSeq : Nat := 40

/-! ## `udp_t` -/

abbrev udpSrcPort : Nat := 34

abbrev udpDstPort : Nat := 36

abbrev udpLength : Nat := 38

abbrev udpChecksum : Nat := 40

/-! ## `tcp_t` -/

abbrev tcpSrcPort : Nat := 34

abbrev tcpDstPort : Nat := 36

abbrev tcpSeqNum : Nat := 38

abbrev tcpAckNum : Nat := 42

abbrev tcpFlags : Nat := 46

abbrev tcpWindowSize : Nat := 48

abbrev tcpChecksum : Nat := 50

abbrev tcpUrgentPointer : Nat := 52

abbrev tcpPayload : Nat := 54

/-! ## `dhcp_t` -/

abbrev dhcpOp : Nat := 42

abbrev dhcpYiaddr : Nat := 58

abbrev dhcpOptions : Nat := 282

abbrev dhcpServerPort : Nat := 67

abbrev dhcpClientPort : Nat := 68

/-! ## Requests and replies -/

/-- The condition in the loop of `reply_arp_desc_buff`. -/
def arpReplies (rxbuff txbuff : Bytes) : Bool :=
  ipAt txbuff arpDstIp = ipAt rxbuff arpSrcIp

/-- The condition in the loop of `reply_icmp_desc_buff`. -/
def icmpReplies (rxbuff txbuff : Bytes) : Bool :=
  rxbuff.load16 icmpId = txbuff.load16 icmpId ∧ ipAt txbuff ipv4DstIp = ipAt rxbuff ipv4SrcIp

end Csos
