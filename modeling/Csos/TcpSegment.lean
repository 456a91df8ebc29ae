import Csos.NetDisposal

/-!
# Segments and sockets (`kernel32/netx/tcp.c`)

The laws of connections speak of the numbers in a segment and of the
fields of a socket. `seg…` reads a segment as it arrives; `segSocket` is
what `tcp_input` makes of the socket of the port, as one function of the
socket and the segment (`tcpInput_handles`). The frames that the kernel
sends out keep the TCP header that was built for them, since a header of
20 bytes or more lies before it.
-/

namespace Csos

open Lib

/-! ## Byte order -/

section ByteOrder

theorem and_shiftLeft (x m k : Nat) : x &&& (m <<< k) = ((x >>> k) &&& m) <<< k := by
  refine Nat.eq_of_testBit_eq fun i => ?_
  rw [Nat.testBit_and, Nat.testBit_shiftLeft, Nat.testBit_shiftLeft, Nat.testBit_and,
    Nat.testBit_shiftRight]
  by_cases h : k ≤ i
  · rw [Nat.add_sub_cancel' h, decide_eq_true h, Bool.true_and, Bool.true_and]
  · rw [decide_eq_false h, Bool.false_and, Bool.false_and, Bool.and_false]

/-- One byte of a word, in its place. -/
theorem and_byte (x k : Nat) : x &&& (0xFF <<< k) = (x / 2 ^ k % 0x100) <<< k := by
  rw [and_shiftLeft, Nat.shiftRight_eq_div_pow]
  exact congrArg (· <<< k) (Nat.and_two_pow_sub_one_eq_mod _ 8)

/-- A byte above a shorter number. -/
theorem or_shiftLeft {x k : Nat} (hx : x < 2 ^ k) (b : Nat) : x ||| (b <<< k) = x + b * 2 ^ k := by
  rw [Nat.or_comm, ← Nat.shiftLeft_add_eq_or_of_lt hx, Nat.shiftLeft_eq, Nat.add_comm]

theorem htonl_eq (v : Nat) : htonl v
    = v / 2 ^ 24 % 0x100 + v / 2 ^ 16 % 0x100 * 2 ^ 8 + v / 2 ^ 8 % 0x100 * 2 ^ 16
      + v % 0x100 * 2 ^ 24 := by
  have h₀ : v &&& 0x000000FF = v % 0x100 := Nat.and_two_pow_sub_one_eq_mod v 8
  have h₁ : v &&& 0x0000FF00 = (v / 2 ^ 8 % 0x100) <<< 8 := and_byte v 8
  have h₂ : v &&& 0x00FF0000 = (v / 2 ^ 16 % 0x100) <<< (8 + 8) := and_byte v 16
  have h₃ : v &&& 0xFF000000 = (v / 2 ^ 24 % 0x100) <<< 24 := and_byte v 24
  rw [htonl, h₀, h₁, h₂, h₃, Nat.shiftLeft_shiftRight, Nat.shiftLeft_add, Nat.shiftLeft_shiftRight,
    ← Nat.shiftLeft_add]
  have ha : v / 2 ^ 24 % 0x100 < 2 ^ 8 := Nat.mod_lt _ (by decide)
  have hb : v / 2 ^ 16 % 0x100 < 2 ^ 8 := Nat.mod_lt _ (by decide)
  have hc : v / 2 ^ 8 % 0x100 < 2 ^ 8 := Nat.mod_lt _ (by decide)
  rw [or_shiftLeft ha]
  rw [or_shiftLeft (k := 8 + 8) (by omega), or_shiftLeft (by omega)]

theorem htonl_lt (v : Nat) : htonl v < 2 ^ 32 := by
  rw [htonl_eq]
  omega

theorem ntohl_eq (v : Nat) : ntohl v
    = v / 2 ^ 24 % 0x100 + v / 2 ^ 16 % 0x100 * 2 ^ 8 + v / 2 ^ 8 % 0x100 * 2 ^ 16
      + v % 0x100 * 2 ^ 24 := htonl_eq v

theorem ntohl_lt (v : Nat) : ntohl v < 2 ^ 32 := htonl_lt v

/-- Swapping the bytes twice leaves a word of 32 bits. -/
theorem ntohl_htonl (v : Nat) : ntohl (htonl v) = u32 v := by
  have hsplit : v % 0x100000000
      = v % 0x100 + v / 2 ^ 8 % 0x100 * 2 ^ 8 + v / 2 ^ 16 % 0x100 * 2 ^ 16
      + v / 2 ^ 24 % 0x100 * 2 ^ 24 := by omega
  have h₀ : v % 0x100 < 0x100 := Nat.mod_lt _ (by decide)
  have h₁ : v / 2 ^ 8 % 0x100 < 0x100 := Nat.mod_lt _ (by decide)
  have h₂ : v / 2 ^ 16 % 0x100 < 0x100 := Nat.mod_lt _ (by decide)
  have h₃ : v / 2 ^ 24 % 0x100 < 0x100 := Nat.mod_lt _ (by decide)
  rw [ntohl_eq, u32, hsplit, htonl_eq]
  generalize v % 0x100 = a at *
  generalize v / 2 ^ 8 % 0x100 = b at *
  generalize v / 2 ^ 16 % 0x100 = c at *
  generalize v / 2 ^ 24 % 0x100 = d at *
  clear hsplit
  omega

theorem ntohs_htons (v : Nat) : ntohs (htons v) = v % 0x10000 := by
  have hsplit : v % 0x10000 = v % 0x100 + v / 0x100 % 0x100 * 0x100 := by omega
  have h₀ : v % 0x100 < 0x100 := Nat.mod_lt _ (by decide)
  have h₁ : v / 0x100 % 0x100 < 0x100 := Nat.mod_lt _ (by decide)
  rw [ntohs_eq, hsplit, htons_eq]
  generalize v % 0x100 = a at *
  generalize v / 0x100 % 0x100 = b at *
  clear hsplit
  omega

theorem htons_lt (v : Nat) : htons v < 0x10000 := by
  rw [htons_eq]
  omega

end ByteOrder

/-! ## What a segment says -/

/-- The flags of a segment. -/
def segFlags (p : Bytes) : Nat := ntohs (p.load16 tcpFlags) &&& 0x3F

def segSeq (p : Bytes) : Nat := ntohl (p.load32 tcpSeqNum)

def segAck (p : Bytes) : Nat := ntohl (p.load32 tcpAckNum)

def segSrcPort (p : Bytes) : Nat := ntohs (p.load16 tcpSrcPort)

def segDstPort (p : Bytes) : Nat := ntohs (p.load16 tcpDstPort)

/-- The length of its two headers. -/
def segHeaderLen (p : Bytes) : Nat :=
  ipv4HeaderLen p ipv4Base + (ntohs (p.load16 tcpFlags) >>> 12) * 4

/-- The number of its data bytes, in 32 bits. -/
def segDataLen (p : Bytes) : Nat :=
  u32 (ntohs (p.load16 ipv4TotalLen) + 0x100000000 - segHeaderLen p)

section HostFlags

variable {p : Bytes}

theorem ntohs_lt (v : Nat) : ntohs v < 2 ^ 16 := htons_lt v

theorem hostFlags_outside {b : Nat} (h : b < 46 ∨ 48 ≤ b) : hostFlags p b = p b :=
  Bytes.store16_outside h

theorem hostFlags_word : (hostFlags p).load16 tcpFlags = ntohs (p.load16 tcpFlags) :=
  Bytes.load16_store16_self (ntohs_lt _)

theorem tcpFlagsAt_hostFlags : tcpFlagsAt (hostFlags p) = segFlags p := by
  rw [tcpFlagsAt, hostFlags_word, segFlags]

/-- The words in front of the flags are not touched. -/
theorem hostFlags_load16 {a : Nat} (h : a + 2 ≤ 46) : (hostFlags p).load16 a = p.load16 a :=
  Bytes.load16_congr (hostFlags_outside (Or.inl (by omega))) (hostFlags_outside (Or.inl (by omega)))

theorem hostFlags_load32 {a : Nat} (h : a + 4 ≤ 46) : (hostFlags p).load32 a = p.load32 a :=
  Bytes.load32_congr fun b _ hb => hostFlags_outside (Or.inl (by omega))

/-- The sequence number is still there when the ports have been
exchanged. -/
theorem ntohl_seqNum_exchanged :
    ntohl ((((hostFlags p).store16 tcpSrcPort ((hostFlags p).load16 tcpDstPort)).store16
      tcpDstPort ((hostFlags p).load16 tcpSrcPort)).load32 tcpSeqNum) = segSeq p := by
  rw [segSeq, Bytes.load32_congr fun b hb hb' => ?_]
  rw [Bytes.store16_outside (Or.inr hb),
    Bytes.store16_outside (Or.inr (Nat.le_trans (by decide) hb)),
    hostFlags_outside (Or.inl (Nat.lt_of_lt_of_le hb' (by decide)))]

end HostFlags

/-! ## What a segment does to a socket -/

/-- The socket after `tcp_ack`. -/
def ackSocket (socket : Socket) (p : Bytes) : Socket :=
  { socket with
    seq := segAck p
    ack :=
      if segFlags p = flagsSynAck ∨ segFlags p = flagsFinAck then u32 (segSeq p + 1)
      else if segFlags p = flagsPshAck then u32 (socket.ack + segDataLen p)
      else socket.ack
    state := ackState socket }

/-- The socket after an ACK. -/
def ackedSocket (socket : Socket) (p : Bytes) : Socket :=
  match socket.state with
  | .finWait1 => { socket with state := .finWait2 }
  | .synReceived => { socket with state := .established }
  | .established => { socket with ack := segSeq p, seq := segAck p }
  | _ => socket

/-- The socket after `tcp_finack`. -/
def finackSocket (socket : Socket) : Socket := { socket with state := finackState socket }

/-- The socket after `tcp_synack`, with its random number. -/
def synackSocket (random : Nat) (socket : Socket) (p : Bytes) : Socket :=
  { socket with
    dstp := segSrcPort p
    dipv4 := ipAt p ipv4SrcIp
    seq := u32 (random + 1)
    ack := u32 (segSeq p + 1)
    state := .synReceived }

/-- The socket of a port that is up after a segment. The ports that are
noted on a FIN ACK come from the reply. -/
def segSocketUp (socket : Socket) (p reply : Bytes) : Socket :=
  if segFlags p = flagsFinAck then
    finackSocket
      { ackSocket socket p with srcp := segDstPort reply, dstp := segSrcPort reply }
  else if segFlags p = flagsSynAck then ackSocket socket p
  else if segFlags p = flagsRstAck then { socket with state := .closed }
  else if segFlags p = flagsPshAck then ackSocket socket p
  else if segFlags p = flagsAck then ackedSocket socket p
  else socket

/-- The socket of a port on which a server listens. -/
def segSocketListen (random : Nat) (socket : Socket) (p : Bytes) : Socket :=
  if segFlags p = flagsFinAck then
    match socket.state with
    | .established => finackSocket (ackSocket socket p)
    | .closeWait => ackSocket socket p
    | _ => socket
  else if segFlags p = flagsRstAck then { socket with state := .closed }
  else if segFlags p = flagsPshAck then ackSocket socket p
  else if segFlags p = flagsSyn then synackSocket random socket p
  else if segFlags p = flagsAck then ackedSocket socket p
  else socket

def segSocket (status : PortStatus) (random : Nat) (socket : Socket) (p reply : Bytes) : Socket :=
  match status with
  | .up => segSocketUp socket p reply
  | .listen => segSocketListen random socket p
  | _ => socket

/-- The statuses at which `tcp_input` looks at a segment. -/
def PortStatus.Open (status : PortStatus) : Prop := status = .up ∨ status = .listen

instance decidableOpen {status : PortStatus} : Decidable status.Open :=
  inferInstanceAs (Decidable (_ ∨ _))

section Flags

variable {status : PortStatus} {random : Nat} {socket : Socket} {p reply : Bytes}

theorem segSocket_ack (hopen : status.Open) (h : segFlags p = flagsAck) :
    segSocket status random socket p reply = ackedSocket socket p := by
  rcases hopen with rfl | rfl
  · rw [segSocket, segSocketUp, h, if_neg (by decide), if_neg (by decide), if_neg (by decide),
      if_neg (by decide), if_pos rfl]
  · rw [segSocket, segSocketListen, h, if_neg (by decide), if_neg (by decide), if_neg (by decide),
      if_neg (by decide), if_pos rfl]

theorem segSocket_synAck (h : segFlags p = flagsSynAck) :
    segSocket .up random socket p reply = ackSocket socket p := by
  rw [segSocket, segSocketUp, h, if_neg (by decide), if_pos rfl]

theorem segSocket_pshAck (hopen : status.Open) (h : segFlags p = flagsPshAck) :
    segSocket status random socket p reply = ackSocket socket p := by
  rcases hopen with rfl | rfl
  · rw [segSocket, segSocketUp, h, if_neg (by decide), if_neg (by decide), if_neg (by decide),
      if_pos rfl]
  · rw [segSocket, segSocketListen, h, if_neg (by decide), if_neg (by decide), if_pos rfl]

theorem ackSocket_ack_synAck (h : segFlags p = flagsSynAck) :
    (ackSocket socket p).ack = u32 (segSeq p + 1) := if_pos (Or.inl h)

theorem ackSocket_ack_finAck (h : segFlags p = flagsFinAck) :
    (ackSocket socket p).ack = u32 (segSeq p + 1) := if_pos (Or.inr h)

theorem ackSocket_ack_pshAck (h : segFlags p = flagsPshAck) :
    (ackSocket socket p).ack = u32 (socket.ack + segDataLen p) := by
  rw [ackSocket, h, if_neg (by decide), if_pos rfl]

end Flags

section AckHeader

variable {socket : Socket} {p : Bytes}

/-- The segment with its ports swapped, and with `ack_num` for `seq_num`. -/
def swapped (p : Bytes) : Bytes :=
  let q := (p.store16 tcpSrcPort (p.load16 tcpDstPort)).store16 tcpDstPort (p.load16 tcpSrcPort)
  q.store32 tcpSeqNum (q.load32 tcpAckNum)

theorem swapped_outside {b : Nat} (h : b < 34 ∨ 42 ≤ b) : swapped p b = p b := by
  simp (disch := omega) only [swapped, tcpSeqNum, tcpSrcPort, tcpDstPort, Bytes.store32_outside,
    Bytes.store16_outside]

theorem swapped_srcPort : (swapped p).load16 tcpSrcPort = p.load16 tcpDstPort := by
  rw [swapped, Bytes.load16_congr (Bytes.store32_outside (by decide))
    (Bytes.store32_outside (by decide)), Bytes.load16_congr (Bytes.store16_outside (by decide))
    (Bytes.store16_outside (by decide)), Bytes.load16_store16_self (Bytes.load16_lt _ _)]

theorem swapped_dstPort : (swapped p).load16 tcpDstPort = p.load16 tcpSrcPort := by
  rw [swapped, Bytes.load16_congr (Bytes.store32_outside (by decide))
    (Bytes.store32_outside (by decide)), Bytes.load16_store16_self (Bytes.load16_lt _ _)]

theorem swapped_seqNum : (swapped p).load32 tcpSeqNum = p.load32 tcpAckNum := by
  rw [swapped, Bytes.load32_store32_self (Bytes.load32_lt _ _)]
  refine Bytes.load32_congr fun b hb hb' => ?_
  rw [Bytes.store16_outside (Or.inr (Nat.le_trans (by decide) hb)),
    Bytes.store16_outside (Or.inr (Nat.le_trans (by decide) hb))]

theorem tcpFlagsAt_swapped : tcpFlagsAt (swapped p) = tcpFlagsAt p := by
  rw [tcpFlagsAt, tcpFlagsAt, Bytes.load16_congr (swapped_outside (by decide))
    (swapped_outside (by decide))]

/-- The field `ack_num` that `tcp_ack` puts in, unless it leaves it. -/
def ackNumOf (socket : Socket) (p : Bytes) : Option Nat :=
  if segFlags p = flagsSynAck ∨ segFlags p = flagsFinAck then some (u32 (segSeq p + 1))
  else if segFlags p = flagsPshAck then some (u32 (socket.ack + segDataLen p))
  else none

def withAckNum (p : Bytes) : Option Nat → Bytes
  | some ack => p.store32 tcpAckNum (htonl ack)
  | none => p

/-- The last fields that `tcp_ack` writes. -/
def withAckFlags (p : Bytes) : Bytes :=
  ((p.store16 tcpFlags ((p.load16 tcpFlags &&& 0xFFC0) ||| flagsAck)).store16 tcpWindowSize
    (htons 0xFF)).store16 tcpChecksum 0

theorem ipv4HeaderLen_congr {p' : Bytes} {ip : Nat} (h : p' ip = p ip) :
    ipv4HeaderLen p' ip = ipv4HeaderLen p ip := by
  rw [ipv4HeaderLen, ipv4HeaderLen, h]

theorem ipv4HeaderLen_le {ip : Nat} : ipv4HeaderLen p ip ≤ 60 := by
  have hihl : (p ip &&& 0x0F).toNat ≤ 15 := by
    rw [BitVec.toNat_and]
    exact Nat.and_le_right
  rw [ipv4HeaderLen]
  omega

theorem segHeaderLen_le : segHeaderLen p ≤ 120 := by
  have hle := @ipv4HeaderLen_le p ipv4Base
  have hlt := ntohs_lt (p.load16 tcpFlags)
  rw [segHeaderLen, Nat.shiftRight_eq_div_pow]
  omega

theorem tcpAckHeader_eq : tcpAckHeader socket (hostFlags p)
    = ({ socket with seq := segAck p, ack := (ackNumOf socket p).getD socket.ack },
        withAckFlags (withAckNum (swapped (hostFlags p)) (ackNumOf socket p))) := by
  have hout : ∀ b, b < 34 ∨ 42 ≤ b ∧ b < 46 → swapped (hostFlags p) b = p b := fun b hb => by
    rw [swapped_outside (by omega), hostFlags_outside (by omega)]
  have hseq : ntohl ((swapped (hostFlags p)).load32 tcpSeqNum) = segAck p := by
    rw [swapped_seqNum, segAck, Bytes.load32_congr fun b _ hb => hostFlags_outside (Or.inl hb)]
  have hflags : tcpFlagsAt (swapped (hostFlags p)) = segFlags p := by
    rw [tcpFlagsAt_swapped, tcpFlagsAt_hostFlags]
  have hlen : ipv4HeaderLen (swapped (hostFlags p)) ipv4Base
      + ((swapped (hostFlags p)).load16 tcpFlags >>> 12) * 4 = segHeaderLen p := by
    rw [segHeaderLen, ipv4HeaderLen_congr (hout _ (by decide)), Bytes.load16_congr
      (swapped_outside (by decide)) (swapped_outside (by decide)), hostFlags_word]
  have htotal : ntohs ((swapped (hostFlags p)).load16 ipv4TotalLen)
      = ntohs (p.load16 ipv4TotalLen) := by
    rw [Bytes.load16_congr (hout _ (by decide)) (hout _ (by decide))]
  have hdata : u32 (socket.ack + ntohs (p.load16 ipv4TotalLen) + 0x100000000 - segHeaderLen p)
      = u32 (socket.ack + segDataLen p) := by
    have hle := @segHeaderLen_le p
    rw [segDataLen, u32, u32, u32]
    omega
  rw [tcpAckHeader]
  dsimp only
  rw [ntohl_seqNum_exchanged]
  have hdef : (((hostFlags p).store16 tcpSrcPort ((hostFlags p).load16 tcpDstPort)).store16
      tcpDstPort ((hostFlags p).load16 tcpSrcPort)).store32 tcpSeqNum
        ((((hostFlags p).store16 tcpSrcPort ((hostFlags p).load16 tcpDstPort)).store16 tcpDstPort
          ((hostFlags p).load16 tcpSrcPort)).load32 tcpAckNum) = swapped (hostFlags p) := by
    rw [swapped]
  rw [hdef, hseq, hflags, hlen, htotal, hdata, ackNumOf]
  generalize u32 (segSeq p + 1) = next
  generalize u32 (socket.ack + segDataLen p) = past
  by_cases hone : segFlags p = flagsSynAck ∨ segFlags p = flagsFinAck
  · rw [if_pos hone, if_pos hone, withAckFlags, withAckNum, Option.getD_some]
  rw [if_neg hone, if_neg hone]
  by_cases hpsh : segFlags p = flagsPshAck
  · rw [if_pos hpsh, if_pos hpsh, withAckFlags, withAckNum, Option.getD_some]
  · rw [if_neg hpsh, if_neg hpsh, withAckFlags, withAckNum, Option.getD_none]

theorem ackState_congr {socket' : Socket} (h : socket'.socktype = socket.socktype)
    (h' : socket'.state = socket.state) : ackState socket' = ackState socket := by
  rw [ackState, ackState, h, h']

/-- What `tcp_ack` leaves of the socket. -/
theorem tcpAckHeader_socket : { (tcpAckHeader socket (hostFlags p)).1 with
    state := ackState (tcpAckHeader socket (hostFlags p)).1 } = ackSocket socket p := by
  have hstate : ackState (tcpAckHeader socket (hostFlags p)).1 = ackState socket :=
    ackState_congr (by rw [tcpAckHeader_eq]) (by rw [tcpAckHeader_eq])
  rw [hstate, tcpAckHeader_eq, ackSocket, ackNumOf]
  dsimp only
  split
  · rw [Option.getD_some]
  · split
    · rw [Option.getD_some]
    · rw [Option.getD_none]

theorem withAckNum_outside {b : Nat} {o : Option Nat} (h : b < 42 ∨ 46 ≤ b) :
    withAckNum p o b = p b := by
  cases o with
  | none => rfl
  | some ack => exact Bytes.store32_outside h

theorem withAckFlags_outside {b : Nat} (h : b < 46) : withAckFlags p b = p b := by
  simp (disch := omega) only [withAckFlags, tcpFlags, tcpWindowSize, tcpChecksum,
    Bytes.store16_outside]

theorem tcpFlagsAt_withAckFlags : tcpFlagsAt (withAckFlags p) = flagsAck := by
  have hlt : (p.load16 tcpFlags &&& 0xFFC0) ||| flagsAck < 2 ^ 16 :=
    Nat.or_lt_two_pow (Nat.and_lt_two_pow _ (by decide)) (by decide)
  have hword : (withAckFlags p).load16 tcpFlags = (p.load16 tcpFlags &&& 0xFFC0) ||| flagsAck := by
    rw [withAckFlags, Bytes.load16_congr (Bytes.store16_outside (by decide))
      (Bytes.store16_outside (by decide)), Bytes.load16_congr (Bytes.store16_outside (by decide))
      (Bytes.store16_outside (by decide)), Bytes.load16_store16_self hlt]
  rw [tcpFlagsAt, hword, Nat.and_or_distrib_right, Nat.and_assoc]
  show p.load16 tcpFlags &&& 0 ||| 0x10 = flagsAck
  rw [Nat.and_zero, Nat.zero_or]

end AckHeader

/-! ## The frames that go out -/

/-- An IPv4 packet that carries a segment. Its header has 20 bytes or
more. -/
structure IsTcp (p : Bytes) : Prop where
  proto : (p ipv4Proto).toNat = ipTypeTcp
  header : 20 ≤ ipv4HeaderLen p ipv4Base

section Output

variable {netif : Netif} {p q : Bytes} {length dlen random b : Nat} {f : Frame}

theorem IsTcp.congr (h : IsTcp p) (hihl : q ipv4Ihl = p ipv4Ihl)
    (hproto : q ipv4Proto = p ipv4Proto) : IsTcp q :=
  ⟨by rw [hproto, h.proto], by rw [ipv4HeaderLen_congr hihl]; exact h.header⟩

/-- The checksums lie in both headers, and nothing else changes before
the window of a segment. -/
theorem netifSetChecksum_outside (h : netifSetChecksum ⟨length, p⟩ dlen = some f) (hp : IsTcp p)
    (hb : b < 24 ∨ 26 ≤ b ∧ b < 50) : f.payload b = p b := by
  have hihl := hp.header
  have hbase : ipv4Base = 14 := rfl
  have hoffset : checksumOffset (p ipv4Proto).toNat = 16 := by
    rw [hp.proto]
    rfl
  exact (netifSetChecksum_frame h).2 b (by omega) (by omega)

/-- The header that `ipv4_output` fills in for a segment that is an ACK. -/
def ackOutputHeader (netif : Netif) (p : Bytes) (random : Nat) : Bytes :=
  let q := ipv4OutputHeader netif (p.store16 tcpFlags (htons (tcpFlagWord flagsAck (20 / 4)))) random 40
  setAddr (setAddr q ethDst (macAt q ethSrc)) ethSrc netif.mac

theorem ipv4Output_ack (hproto : (p ipv4Proto).toNat = ipTypeTcp)
    (hflags : tcpFlagsAt p = flagsAck) :
    ipv4Output netif ⟨length, p⟩ random none 0
      = netifSetChecksum ⟨u16 length, ackOutputHeader netif p random⟩ 0 := by
  rw [ipv4Output]
  dsimp only
  rw [if_pos ⟨hproto, hflags⟩, ethOutput, netifSetPayload_none, hproto]
  rfl

theorem ackOutputHeader_outside (h : 34 ≤ b) (h' : b < 46 ∨ 48 ≤ b) :
    ackOutputHeader netif p random b = p b := by
  simp (disch := omega) only [ackOutputHeader, ipv4OutputHeader, ethDst, ethSrc, ipv4TotalLen,
    ipv4Checksum, ipv4Id, ipv4Ttl, ipv4DstIp, ipv4SrcIp, tcpFlags, setAddr_outside,
    Bytes.store16_outside, Bytes.store8_of_ne]

/-- What stays of the headers, and the new fields. -/
theorem ackOutputHeader_fields : ackOutputHeader netif p random ipv4Ihl = p ipv4Ihl
    ∧ ackOutputHeader netif p random ipv4Proto = p ipv4Proto
    ∧ (ackOutputHeader netif p random).load16 ipv4TotalLen = htons 40
    ∧ (ackOutputHeader netif p random).load16 tcpFlags = htons (tcpFlagWord flagsAck (20 / 4))
    ∧ macAt (ackOutputHeader netif p random) ethSrc = netif.mac := by
  refine ⟨?_, ?_, ?_, ?_, macAt_setAddr⟩
  · simp (disch := decide) only [ackOutputHeader, ipv4OutputHeader, setAddr_outside,
      Bytes.store16_outside, Bytes.store8_of_ne]
  · simp (disch := decide) only [ackOutputHeader, ipv4OutputHeader, setAddr_outside,
      Bytes.store16_outside, Bytes.store8_of_ne]
  · have hout : ∀ b, b = 16 ∨ b = 17 → ackOutputHeader netif p random b
        = (p.store16 tcpFlags (htons (tcpFlagWord flagsAck (20 / 4)))).store16 ipv4TotalLen
          (htons 40) b := fun b hb => by
      simp (disch := omega) only [ackOutputHeader, ipv4OutputHeader, ethDst, ethSrc, ipv4Checksum,
        ipv4Id, ipv4Ttl, ipv4DstIp, ipv4SrcIp, setAddr_outside, Bytes.store16_outside,
        Bytes.store8_of_ne]
    rw [Bytes.load16_congr (hout _ (Or.inl rfl)) (hout _ (Or.inr rfl)),
      Bytes.load16_store16_self (htons_lt _)]
  · have hout : ∀ b, b = 46 ∨ b = 47 → ackOutputHeader netif p random b
        = p.store16 tcpFlags (htons (tcpFlagWord flagsAck (20 / 4))) b := fun b hb => by
      simp (disch := omega) only [ackOutputHeader, ipv4OutputHeader, ethDst, ethSrc, ipv4TotalLen,
        ipv4Checksum, ipv4Id, ipv4Ttl, ipv4DstIp, ipv4SrcIp, setAddr_outside,
        Bytes.store16_outside, Bytes.store8_of_ne]
    rw [Bytes.load16_congr (hout _ (Or.inl rfl)) (hout _ (Or.inr rfl)),
      Bytes.load16_store16_self (htons_lt _)]

theorem IsTcp.ackOutputHeader (h : IsTcp p) : IsTcp (ackOutputHeader netif p random) :=
  h.congr ackOutputHeader_fields.1 ackOutputHeader_fields.2.1

/-- A loop whose counter does not wrap comes to its end. -/
theorem checksumLoop_returns {wrap start : Nat} (hwrap : length + 2 ≤ wrap) {n i c : Nat}
    (hn : length + 2 ≤ 2 * n + i) (hi : i ≤ length + 1) :
    ∃ c', checksumLoop wrap p start length n i c = some c' := by
  induction n generalizing i c with
  | zero => omega
  | succ n ih =>
      rw [checksumLoop]
      by_cases hlt : i < length
      · rw [if_pos hlt]
        have hi2 : (i + 2) % wrap = i + 2 := Nat.mod_eq_of_lt (by omega)
        rw [hi2]
        exact ih (by omega) (by omega)
      · rw [if_neg hlt]
        exact ⟨c, rfl⟩

theorem calcTcpChecksum_returns {ip tcp payload : Nat}
    (hhdr : u16 (ntohs (p.load16 (ip + 2)) + 0x20000 - ipv4HeaderLen p ip - dlen) + 2 ≤ 0x10000)
    (hdlen : dlen + 2 ≤ 0x10000) :
    ∃ checksum, calcTcpChecksum p ip tcp payload dlen
      = some (p.store16 (tcp + 16) 0, checksum) := by
  rw [calcTcpChecksum]
  generalize u16 (ntohs (p.load16 (ip + 2)) + 0x20000 - ipv4HeaderLen p ip - dlen) = hdr at *
  obtain ⟨c, hc⟩ := @checksumLoop_returns (p.store16 (tcp + 16) 0) hdr 0x10000 tcp hhdr (hdr + 1) 0
    (pseudoChecksum p ip ipTypeTcp (u16 (hdr + dlen))) (by omega) (Nat.zero_le _)
  obtain ⟨c', hc'⟩ := @checksumLoop_returns (p.store16 (tcp + 16) 0) dlen 0x10000 payload hdlen
    (dlen + 1) 0 c (by omega) (Nat.zero_le _)
  rw [hc, Option.bind_eq_bind, Option.bind_some, hc', Option.bind_some]
  exact ⟨_, rfl⟩

/-- No loop of the checksums goes on for ever when the two lengths of
`calc_tcp_checksum` do not wrap. -/
theorem netifSetChecksum_returns_of_lengths (hp : IsTcp p) (hdlen : dlen + 2 ≤ 0x10000)
    (hhdr : u16 (ntohs (p.load16 ipv4TotalLen) + 0x20000 - ipv4HeaderLen p ipv4Base - dlen) + 2
      ≤ 0x10000) : ∃ f, netifSetChecksum ⟨length, p⟩ dlen = some f := by
  rw [netifSetChecksum]
  split
  case isFalse => exact ⟨_, rfl⟩
  dsimp only
  have hlt : ipv4HeaderLen p ipv4Base < 0x10000 :=
    Nat.lt_of_le_of_lt ipv4HeaderLen_le (by decide)
  rw [calcChecksum_eq hlt, Option.bind_eq_bind, Option.bind_some]
  generalize htons (0xFFFF - onesSum (p.beWords ipv4Base (ipv4HeaderLen p ipv4Base))) = checksum
  have hproto : ((p.store16 ipv4Checksum checksum) ipv4Proto).toNat = ipTypeTcp := by
    rw [Bytes.store16_outside (by decide), hp.proto]
  rw [if_neg (by rw [hproto]; decide), if_neg (by rw [hproto]; decide), if_pos hproto]
  have hhdr' : u16 (ntohs ((p.store16 ipv4Checksum checksum).load16 (ipv4Base + 2)) + 0x20000
      - ipv4HeaderLen (p.store16 ipv4Checksum checksum) ipv4Base - dlen) + 2 ≤ 0x10000 := by
    rw [Bytes.load16_congr (Bytes.store16_outside (by decide)) (Bytes.store16_outside (by decide)),
      ipv4HeaderLen_congr (Bytes.store16_outside (by decide))]
    exact hhdr
  obtain ⟨c, hc⟩ := @calcTcpChecksum_returns (p.store16 ipv4Checksum checksum) dlen ipv4Base
    (ipv4Base + ipv4HeaderLen p ipv4Base) (ipv4Base + ipv4HeaderLen p ipv4Base + 20) hhdr' hdlen
  rw [hc]
  exact ⟨_, rfl⟩

/-- A `total_len` of 40 is one that does not wrap. -/
theorem netifSetChecksum_returns (hp : IsTcp p) (htotal : p.load16 ipv4TotalLen = htons 40) :
    ∃ f, netifSetChecksum ⟨length, p⟩ 0 = some f := by
  refine netifSetChecksum_returns_of_lengths hp (by decide) ?_
  have hle := @ipv4HeaderLen_le p ipv4Base
  have h40 : ntohs (htons 40) = 40 := by decide
  have h4 : ipv4HeaderLen p ipv4Base % 4 = 0 := Nat.mul_mod_left _ 4
  rw [htotal, h40, u16]
  omega

end Output

/-! ## The builders -/

/-- The headers of a frame that `ipv4_build` has filled in for TCP. -/
structure Headed (netif : Netif) (dstIp : IpAddr) (totalLen : Nat) (p : Bytes) : Prop where
  ihl : p ipv4Ihl = 0x45
  proto : (p ipv4Proto).toNat = ipTypeTcp
  total : ntohs (p.load16 ipv4TotalLen) = totalLen
  src : macAt p ethSrc = netif.mac
  srcIp : ipAt p ipv4SrcIp = netif.ipv4
  dstIp : ipAt p ipv4DstIp = dstIp

section Built

variable {netif : Netif} {dstMac : MacAddr} {random totalLen : Nat} {dstIp : IpAddr}
  {p q : Bytes} {length dlen olen : Nat} {data : Option Bytes} {f : Frame}

theorem Headed.headerLen (h : Headed netif dstIp totalLen p) : ipv4HeaderLen p ipv4Base = 20 := by
  rw [ipv4HeaderLen, h.ihl]
  rfl

theorem Headed.isTcp (h : Headed netif dstIp totalLen p) : IsTcp p :=
  ⟨h.proto, Nat.le_of_eq h.headerLen.symm⟩

/-- The header checksum is not among these fields. -/
theorem Headed.congr (h : Headed netif dstIp totalLen p)
    (hsame : ∀ b, b < 24 ∨ 26 ≤ b ∧ b < 34 → q b = p b) : Headed netif dstIp totalLen q := by
  have haddr : ∀ a, 26 ≤ a → a ≤ 30 → ipAt q a = ipAt p a := fun a ha ha' =>
    ipAt_congr fun b hb hb' => hsame b (Or.inr ⟨by omega, by omega⟩)
  constructor
  case ihl => rw [hsame _ (by decide), h.ihl]
  case proto => rw [hsame _ (by decide), h.proto]
  case total =>
    rw [Bytes.load16_congr (hsame _ (by decide)) (hsame _ (by decide)), h.total]
  case src =>
    rw [← h.src]
    exact macAt_congr fun b _ hb => hsame b (Or.inl (Nat.lt_trans hb (by decide)))
  case srcIp => rw [haddr _ (by decide) (by decide), h.srcIp]
  case dstIp => rw [haddr _ (by decide) (by decide), h.dstIp]

theorem headed_headers (htotal : totalLen < 0x10000) :
    Headed netif dstIp totalLen
      (ethHeader netif (ipv4Header netif p random dstIp ipTypeTcp totalLen)
        dstMac ethTypeIPv4) := by
  obtain ⟨hihl, hproto, hword, -⟩ :=
    @ipv4Header_fields p ipTypeTcp netif random totalLen dstIp (by decide) htotal
  have hout := fun b => @ethHeader_outside (ipv4Header netif p random dstIp ipTypeTcp totalLen)
    netif dstMac ethTypeIPv4 b
  constructor
  case ihl => rw [hout _ (by decide), hihl]
  case proto => rw [hout _ (by decide), hproto]
  case total =>
    rw [Bytes.load16_congr (hout _ (by decide)) (hout _ (by decide)), ntohs_load16, hword]
  case src => exact macAt_setAddr
  case srcIp =>
    rw [ipAt_congr fun b hb _ => hout b (Nat.le_trans (by decide) hb), ipv4Header,
      ipAt_setAddr_other (by decide), ipAt_setAddr]
  case dstIp =>
    rw [ipAt_congr fun b hb _ => hout b (Nat.le_trans (by decide) hb), ipv4Header, ipAt_setAddr]

/-- What `ipv4_build` makes of a TCP header, up to the checksums. -/
theorem ipv4Build_headed : ∃ length' q,
    ipv4Build netif ⟨length, p⟩ dstMac random dstIp ipTypeTcp data dlen olen
        = netifSetChecksum ⟨length', q⟩ dlen
      ∧ Headed netif dstIp (u16 (20 + 20 + dlen + olen)) q ∧ ∀ b, 34 ≤ b → b < 50 → q b = p b := by
  have htotal : ipv4BuildLen ipTypeTcp dlen olen = u16 (20 + 20 + dlen + olen) := rfl
  have hlt : u16 (20 + 20 + dlen + olen) < 0x10000 := Nat.mod_lt _ (by decide)
  have hheaded := @headed_headers netif dstMac random (u16 (20 + 20 + dlen + olen)) dstIp p hlt
  rw [ipv4Build, htotal, ethBuild]
  dsimp only
  generalize hq : ethHeader netif (ipv4Header netif p random dstIp ipTypeTcp
    (u16 (20 + 20 + dlen + olen))) dstMac ethTypeIPv4 = q at hheaded ⊢
  have hpayload : ∀ b, b < 54 →
      (netifSetPayload ⟨u16 (u16 (length + 20) + 14), q⟩ data dlen).payload b = q b := by
    intro b hb
    rw [netifSetPayload]
    dsimp only
    rw [if_neg (show ¬ (q ipv4Proto).toNat = ipTypeIcmp by rw [hheaded.proto]; decide),
      if_neg (show ¬ (q ipv4Proto).toNat = ipTypeUdp by rw [hheaded.proto]; decide),
      if_pos hheaded.proto, hheaded.headerLen]
    split
    · exact memcpyInto_outside hb
    · rfl
  generalize netifSetPayload ⟨u16 (u16 (length + 20) + 14), q⟩ data dlen = filled at hpayload ⊢
  obtain ⟨filledLength, r⟩ := filled
  refine ⟨filledLength, r, rfl, hheaded.congr fun b hb => hpayload b (by omega), fun b hb hb' => ?_⟩
  rw [show r b = q b from hpayload b (by omega), ← hq, ethHeader_outside (by omega),
    ipv4Header_outside hb]

/-- What `ipv4_build` makes of a TCP header. -/
theorem ipv4Build_segment
    (h : ipv4Build netif ⟨length, p⟩ dstMac random dstIp ipTypeTcp data dlen olen = some f) :
    Headed netif dstIp (u16 (20 + 20 + dlen + olen)) f.payload
      ∧ ∀ b, 34 ≤ b → b < 50 → f.payload b = p b := by
  obtain ⟨length', q, heq, hheaded, hsame⟩ := @ipv4Build_headed netif dstMac random dstIp p length
    dlen olen data
  rw [heq] at h
  have hout : ∀ b, b < 24 ∨ 26 ≤ b ∧ b < 50 → f.payload b = q b := fun b hb =>
    netifSetChecksum_outside h hheaded.isTcp hb
  refine ⟨hheaded.congr fun b hb => hout b (by omega), fun b hb hb' => ?_⟩
  rw [hout b (by omega), hsame b hb hb']

/-- A segment with these fields in its header. -/
structure HasFields (p : Bytes) (srcPort dstPort seq ack flagWord : Nat) : Prop where
  srcPort : segSrcPort p = srcPort
  dstPort : segDstPort p = dstPort
  seq : segSeq p = seq
  ack : segAck p = ack
  word : ntohs (p.load16 tcpFlags) = flagWord

theorem HasFields.congr {srcPort dstPort seq ack flagWord : Nat}
    (h : HasFields p srcPort dstPort seq ack flagWord)
    (hsame : ∀ b, 34 ≤ b → b < 50 → q b = p b) : HasFields q srcPort dstPort seq ack flagWord := by
  have h16 : ∀ a, 34 ≤ a → a + 2 ≤ 50 → q.load16 a = p.load16 a := fun a ha ha' =>
    Bytes.load16_congr (hsame _ (by omega) (by omega)) (hsame _ (by omega) (by omega))
  have h32 : ∀ a, 34 ≤ a → a + 4 ≤ 50 → q.load32 a = p.load32 a := fun a ha ha' =>
    Bytes.load32_congr fun b hb hb' => hsame b (by omega) (by omega)
  constructor
  case srcPort => rw [segSrcPort, h16 _ (by decide) (by decide), ← segSrcPort, h.srcPort]
  case dstPort => rw [segDstPort, h16 _ (by decide) (by decide), ← segDstPort, h.dstPort]
  case seq => rw [segSeq, h32 _ (by decide) (by decide), ← segSeq, h.seq]
  case ack => rw [segAck, h32 _ (by decide) (by decide), ← segAck, h.ack]
  case word => rw [h16 _ (by decide) (by decide), h.word]

theorem HasFields.flags {srcPort dstPort seq ack flags offset : Nat}
    (h : HasFields p srcPort dstPort seq ack (tcpFlagWord flags offset)) :
    segFlags p = tcpFlagWord flags offset &&& 0x3F := by
  rw [segFlags, h.word]

/-- Where the last fields of a header begin. -/
theorem tcpHeaderEnd_outside {flags b : Nat} (h : b < 46) : tcpHeaderEnd p flags b = p b := by
  simp (disch := omega) only [tcpHeaderEnd, tcpFlags, tcpWindowSize, tcpChecksum,
    tcpUrgentPointer, Bytes.store16_outside]

theorem tcpHeaderEnd_word {flags : Nat} :
    (tcpHeaderEnd p flags).load16 tcpFlags = htons (tcpFlagWord flags (20 / 4)) := by
  rw [tcpHeaderEnd, Bytes.load16_congr (Bytes.store16_outside (by decide))
    (Bytes.store16_outside (by decide)), Bytes.load16_congr (Bytes.store16_outside (by decide))
    (Bytes.store16_outside (by decide)), Bytes.load16_congr (Bytes.store16_outside (by decide))
    (Bytes.store16_outside (by decide)), Bytes.load16_store16_self (htons_lt _)]

/-- The header that `tcp_build`, `tcp_syn` and `tcp_finack` fill in. -/
theorem filledHeader {srcp dstp seq ack flags : Nat} (hflags : flags < 0x40) :
    HasFields (tcpHeaderEnd ((((p.store16 tcpSrcPort (htons srcp)).store16 tcpDstPort
        (htons dstp)).store32 tcpSeqNum (htonl seq)).store32 tcpAckNum (htonl ack)) flags)
      (u16 srcp) (u16 dstp) (u32 seq) (u32 ack) (tcpFlagWord flags (20 / 4)) := by
  have h16 : ∀ {q : Bytes} {a}, a + 2 ≤ 46 → (tcpHeaderEnd q flags).load16 a = q.load16 a :=
    fun ha => Bytes.load16_congr (tcpHeaderEnd_outside (by omega)) (tcpHeaderEnd_outside (by omega))
  have h32 : ∀ {q : Bytes} {a}, a + 4 ≤ 46 → (tcpHeaderEnd q flags).load32 a = q.load32 a :=
    fun ha => Bytes.load32_congr fun b _ hb => tcpHeaderEnd_outside (by omega)
  constructor
  case srcPort =>
    rw [segSrcPort, h16 (by decide), Bytes.load16_congr (Bytes.store32_outside (by decide))
      (Bytes.store32_outside (by decide)), Bytes.load16_congr (Bytes.store32_outside (by decide))
      (Bytes.store32_outside (by decide)), Bytes.load16_congr (Bytes.store16_outside (by decide))
      (Bytes.store16_outside (by decide)), Bytes.load16_store16_self (htons_lt _), ntohs_htons, u16]
  case dstPort =>
    rw [segDstPort, h16 (by decide), Bytes.load16_congr (Bytes.store32_outside (by decide))
      (Bytes.store32_outside (by decide)), Bytes.load16_congr (Bytes.store32_outside (by decide))
      (Bytes.store32_outside (by decide)), Bytes.load16_store16_self (htons_lt _), ntohs_htons, u16]
  case seq =>
    rw [segSeq, h32 (by decide), Bytes.load32_store32_of_disjoint (by decide),
      Bytes.load32_store32_self (htonl_lt _), ntohl_htonl]
  case ack =>
    rw [segAck, h32 (by decide), Bytes.load32_store32_self (htonl_lt _), ntohl_htonl]
  case word =>
    have hword : tcpFlagWord flags (20 / 4) < 0x10000 := by
      rw [tcpFlagWord]
      exact Nat.or_lt_two_pow (n := 16) (Nat.lt_trans hflags (by decide)) (by decide)
    rw [tcpHeaderEnd_word, ntohs_htons, Nat.mod_eq_of_lt hword]

/-- What `tcp_build` passes on. -/
theorem tcpBuild_segment {socket : Socket} {buff : Frame}
    (h : tcpBuild netif socket buff dstMac random data dlen = some f) :
    Headed netif socket.dipv4 (u16 (20 + 20 + dlen + 0)) f.payload
      ∧ HasFields f.payload (u16 socket.srcp) (u16 socket.dstp) (u32 socket.seq) (u32 socket.ack)
          (tcpFlagWord flagsPshAck (20 / 4)) := by
  rw [tcpBuild] at h
  obtain ⟨hheaded, hsame⟩ := ipv4Build_segment h
  exact ⟨hheaded, (filledHeader (by decide)).congr hsame⟩

/-- `tcp_build` comes back for almost every length. -/
theorem tcpBuild_returns {socket : Socket} {buff : Frame} (hdlen : dlen + 2 ≤ 0x10000) :
    ∃ f, tcpBuild netif socket buff dstMac random data dlen = some f := by
  rw [tcpBuild]
  obtain ⟨length', q, heq, hheaded, -⟩ :=
    @ipv4Build_headed netif dstMac random socket.dipv4 _ _ dlen
    0 data
  rw [heq]
  refine netifSetChecksum_returns_of_lengths hheaded.isTcp hdlen ?_
  rw [hheaded.total, hheaded.headerLen, u16, u16]
  omega

/-- What `tcp_syn` passes on. -/
theorem tcpSynHeader_segment {socket : Socket} {srcp seq : Nat} {buff : Frame}
    (h : ipv4Build netif (tcpSynHeader socket srcp seq buff) dstMac random dstIp ipTypeTcp none 0 0
      = some f) :
    Headed netif dstIp (u16 (20 + 20 + 0 + 0)) f.payload
      ∧ HasFields f.payload (u16 srcp) (u16 socket.dstp) (u32 seq) (u32 0)
          (tcpFlagWord flagsSyn (20 / 4)) := by
  rw [tcpSynHeader] at h
  obtain ⟨hheaded, hsame⟩ := ipv4Build_segment h
  exact ⟨hheaded, (filledHeader (by decide)).congr hsame⟩

end Built

/-! ## `tcp_ack` -/

section Ack

variable {env : NetEnv} {s s' : NetIn} {sock length b : Nat} {p : Bytes} {f : Frame}

/-- The header with which `tcp_ack` calls `ipv4_output`. -/
def ackHeader (socket : Socket) (p : Bytes) : Bytes :=
  withAckFlags (withAckNum (swapped (hostFlags p)) (ackNumOf socket p))

theorem ackHeader_outside {socket : Socket} (h : b < 34) : ackHeader socket p b = p b := by
  rw [ackHeader, withAckFlags_outside (by omega), withAckNum_outside (by omega),
    swapped_outside (by omega), hostFlags_outside (by omega)]

theorem IsTcp.ackHeader {socket : Socket} (h : IsTcp p) : IsTcp (ackHeader socket p) :=
  h.congr (ackHeader_outside (by decide)) (ackHeader_outside (by decide))

/-- `tcp_ack` changes the socket and passes the buffer on. -/
theorem tcpAck_eq : s.tcpAck env sock ⟨length, hostFlags p⟩
    = (ipv4Output (s.netifs (s.sockets sock).netif) ⟨length, ackHeader (s.sockets sock) p⟩
        (env.xrandom 0) none 0).map fun f =>
          ((s.setSocket sock (ackSocket (s.sockets sock) p)).output f, f) := by
  rw [NetIn.tcpAck, ← tcpAckHeader_socket, ackHeader]
  have hpair := @tcpAckHeader_eq (s.sockets sock) p
  generalize tcpAckHeader (s.sockets sock) (hostFlags p) = header at hpair
  subst hpair
  rw [Option.map_eq_bind]
  rfl

theorem tcpAck_some (h : s.tcpAck env sock ⟨length, hostFlags p⟩ = some (s', f)) :
    ipv4Output (s.netifs (s.sockets sock).netif) ⟨length, ackHeader (s.sockets sock) p⟩
        (env.xrandom 0) none 0 = some f
      ∧ s' = (s.setSocket sock (ackSocket (s.sockets sock) p)).output f := by
  rw [tcpAck_eq] at h
  obtain ⟨f', hf', heq⟩ := Option.map_eq_some_iff.mp h
  obtain ⟨rfl, rfl⟩ := Prod.mk.inj heq
  exact ⟨hf', rfl⟩

/-- The segment with which `tcp_ack` answers `p`. -/
structure AckOf (netif : Netif) (socket : Socket) (p reply : Bytes) : Prop where
  tcp : IsTcp reply
  flags : segFlags reply = flagsAck
  srcPort : segSrcPort reply = segDstPort p
  dstPort : segDstPort reply = segSrcPort p
  seq : segSeq reply = segAck p
  ack : segAck reply = (ackNumOf socket p).getD (segAck p)
  src : macAt reply ethSrc = netif.mac

theorem segAck_withAckNum {socket : Socket} {q : Bytes}
    (hq : q.load32 tcpAckNum = p.load32 tcpAckNum) :
    segAck (withAckNum q (ackNumOf socket p)) = (ackNumOf socket p).getD (segAck p) := by
  have hword : ∀ x, segAck (withAckNum q (some (u32 x))) = u32 x := fun x => by
    rw [segAck, withAckNum, Bytes.load32_store32_self (htonl_lt _), ntohl_htonl]
    exact Nat.mod_mod _ _
  rw [ackNumOf]
  split
  · rw [hword, Option.getD_some]
  · split
    · rw [hword, Option.getD_some]
    · rw [withAckNum, Option.getD_none, segAck, segAck, hq]

theorem ackOf_ipv4Output {netif : Netif} {socket : Socket} {random : Nat} (hp : IsTcp p)
    (h : ipv4Output netif ⟨length, ackHeader socket p⟩ random none 0 = some f) :
    AckOf netif socket p f.payload := by
  have hheader : IsTcp (ackHeader socket p) := hp.ackHeader
  rw [ipv4Output_ack hheader.proto tcpFlagsAt_withAckFlags] at h
  have htcp : IsTcp (ackOutputHeader netif (ackHeader socket p) random) := hheader.ackOutputHeader
  obtain ⟨hihl, hproto, -, hflags, hsrc⟩ :=
    @ackOutputHeader_fields netif (ackHeader socket p) random
  have hsame : ∀ b, b < 24 ∨ 26 ≤ b ∧ b < 50 →
      f.payload b = ackOutputHeader netif (ackHeader socket p) random b := fun b hb =>
    netifSetChecksum_outside h htcp hb
  have hout : ∀ b, 34 ≤ b → b < 46 →
      f.payload b = withAckNum (swapped (hostFlags p)) (ackNumOf socket p) b := fun b hb hb' => by
    rw [hsame b (Or.inr ⟨by omega, by omega⟩), ackOutputHeader_outside hb (Or.inl hb'), ackHeader,
      withAckFlags_outside hb']
  have hswap : ∀ b, 34 ≤ b → b < 42 → f.payload b = swapped (hostFlags p) b := fun b hb hb' => by
    rw [hout b hb (by omega), withAckNum_outside (Or.inl hb')]
  constructor
  case tcp => exact htcp.congr (hsame _ (by decide)) (hsame _ (by decide))
  case flags =>
    rw [segFlags, Bytes.load16_congr (hsame _ (by decide)) (hsame _ (by decide)), hflags]
    decide
  case srcPort =>
    rw [segSrcPort, Bytes.load16_congr (hswap _ (by decide) (by decide))
      (hswap _ (by decide) (by decide)), swapped_srcPort, hostFlags_load16 (by decide), segDstPort]
  case dstPort =>
    rw [segDstPort, Bytes.load16_congr (hswap _ (by decide) (by decide))
      (hswap _ (by decide) (by decide)), swapped_dstPort, hostFlags_load16 (by decide), segSrcPort]
  case seq =>
    rw [segSeq, Bytes.load32_congr fun b hb hb' => hswap b (Nat.le_trans (by decide) hb)
      (Nat.lt_of_lt_of_le hb' (by decide)), swapped_seqNum, hostFlags_load32 (by decide), segAck]
  case ack =>
    have hq : (swapped (hostFlags p)).load32 tcpAckNum = p.load32 tcpAckNum := by
      rw [Bytes.load32_congr fun b hb _ => swapped_outside (Or.inr hb),
        hostFlags_load32 (by decide)]
    rw [← segAck_withAckNum hq, segAck, segAck, Bytes.load32_congr fun b hb hb' =>
      hout b (Nat.le_trans (by decide) hb) (Nat.lt_of_lt_of_le hb' (by decide))]
  case src =>
    rw [← hsrc]
    exact macAt_congr fun b _ hb => hsame b (Or.inl (Nat.lt_trans hb (by decide)))

/-- `tcp_ack` comes back. -/
theorem tcpAck_returns (hp : IsTcp p) :
    ∃ r, s.tcpAck env sock ⟨length, hostFlags p⟩ = some r := by
  have hheader : IsTcp (ackHeader (s.sockets sock) p) := hp.ackHeader
  obtain ⟨f, hf⟩ := @netifSetChecksum_returns
    (ackOutputHeader (s.netifs (s.sockets sock).netif) (ackHeader (s.sockets sock) p)
      (env.xrandom 0))
    (u16 length) hheader.ackOutputHeader ackOutputHeader_fields.2.2.1
  rw [tcpAck_eq, ipv4Output_ack hheader.proto tcpFlagsAt_withAckFlags, hf]
  exact ⟨_, rfl⟩

end Ack

/-! ## `tcp_input` -/

section Input

variable {env : NetEnv} {s s' : NetIn} {sock length i : Nat} {p : Bytes} {buff : Frame}

theorem setSocket_sockets {socket : Socket} :
    (s.setSocket sock socket).sockets = Function.update s.sockets sock socket := rfl

/-- The state after a handler, as far as the laws of connections go:
the socket of the port, and nothing else that a later segment depends on. -/
structure Handles (s s' : NetIn) (sock : Nat) (socket : Socket) : Prop where
  sockets : s'.sockets = Function.update s.sockets sock socket
  ports : s'.ports = s.ports
  netifs : s'.netifs = s.netifs

theorem Handles.refl : Handles s s sock (s.sockets sock) :=
  ⟨(Function.update_eq_self _ _).symm, rfl, rfl⟩

theorem Handles.setSocket {socket : Socket} : Handles s (s.setSocket sock socket) sock socket :=
  ⟨rfl, rfl, rfl⟩

theorem Handles.output {socket : Socket} (h : Handles s s' sock socket) :
    Handles s (s'.output buff) sock socket :=
  ⟨output_sockets.trans h.sockets, output_ports.trans h.ports, output_netifs.trans h.netifs⟩

theorem Handles.freeDescBuff {socket : Socket} (h : Handles s s' sock socket) :
    Handles s s'.freeDescBuff sock socket := ⟨h.sockets, h.ports, h.netifs⟩

theorem Handles.self {socket : Socket} (h : Handles s s' sock socket) :
    s'.sockets sock = socket := by
  rw [h.sockets, Function.update_self]

theorem Handles.trans {s₁ : NetIn} {socket socket' : Socket} (h : Handles s s₁ sock socket)
    (h' : Handles s₁ s' sock socket') : Handles s s' sock socket' :=
  ⟨by rw [h'.sockets, h.sockets, Function.update_idem], h'.ports.trans h.ports,
    h'.netifs.trans h.netifs⟩

theorem tcpAck_handles {f : Frame} (h : s.tcpAck env sock ⟨length, hostFlags p⟩ = some (s', f)) :
    Handles s s' sock (ackSocket (s.sockets sock) p) := by
  obtain ⟨-, rfl⟩ := tcpAck_some h
  exact Handles.setSocket.output

theorem tcpFinack_handles {payload : Bytes} {dstIp : IpAddr}
    (h : s.tcpFinack env sock payload dstIp = some s') :
    Handles s s' sock (finackSocket (s.sockets sock)) := by
  rw [NetIn.tcpFinack] at h
  obtain ⟨dstMac, -, h⟩ := Option.bind_eq_some_iff.mp h
  obtain ⟨f, -, h⟩ := Option.bind_eq_some_iff.mp h
  obtain rfl := Option.some.inj h
  exact ⟨netifOutput_frame.2.1, netifOutput_frame.2.2, netifOutput_frame.1⟩

theorem copyFinack_handles (h : s.copyFinack env sock buff = some s') :
    Handles s s' sock (finackSocket (s.sockets sock)) := by
  rw [NetIn.copyFinack] at h
  obtain ⟨fresh, -, h⟩ := Option.bind_eq_some_iff.mp h
  exact tcpFinack_handles h

theorem tcpSynackHeader_fst {socket : Socket} {random : Nat} :
    { (tcpSynackHeader socket random (hostFlags p)).1 with state := .synReceived }
      = synackSocket random socket p := by
  have hport : htons ((hostFlags p).load16 tcpSrcPort) = segSrcPort p := by
    rw [hostFlags_load16 (by decide)]
    exact (htons_eq _).trans (ntohs_eq _).symm
  have hip : ∀ q : Bytes, (∀ b, b < 34 → q b = p b) → ipAt q ipv4SrcIp = ipAt p ipv4SrcIp :=
    fun q hq => ipAt_congr fun b _ hb => hq b (Nat.lt_of_lt_of_le hb (by decide))
  rw [tcpSynackHeader]
  dsimp only
  rw [hport, ntohl_seqNum_exchanged, hip _ fun b hb => ?_, synackSocket]
  simp (disch := omega) only [tcpSynackOptions, tcpSrcPort, tcpDstPort, tcpSeqNum, tcpAckNum,
    tcpPayload, tcpFlags, Bytes.store16_outside, Bytes.store32_outside, Bytes.store8_of_ne,
    hostFlags_outside]

theorem tcpSynack_handles (h : s.tcpSynack env sock ⟨length, hostFlags p⟩ = some s') :
    Handles s s' sock (synackSocket (env.xrandom 0) (s.sockets sock) p) := by
  rw [NetIn.tcpSynack] at h
  obtain ⟨dstMac, -, h⟩ := Option.bind_eq_some_iff.mp h
  obtain ⟨f, -, h⟩ := Option.bind_eq_some_iff.mp h
  obtain rfl := Option.some.inj h
  rw [← tcpSynackHeader_fst]
  exact Handles.setSocket.output

theorem tcpAcked_handles : Handles s (s.tcpAcked sock (hostFlags p)) sock
    (ackedSocket (s.sockets sock) p) := by
  rw [NetIn.tcpAcked, ackedSocket]
  cases (s.sockets sock).state with
  | finWait1 => exact Handles.setSocket.freeDescBuff
  | synReceived => exact Handles.setSocket
  | established =>
      dsimp only
      rw [hostFlags_load32 (by decide), hostFlags_load32 (by decide)]
      exact Handles.setSocket
  | _ => exact Handles.refl

theorem tcpReset_handles :
    Handles s (s.tcpReset sock) sock { s.sockets sock with state := .closed } :=
  Handles.setSocket

/-- The frame that `tcp_ack` passes on names the ports the other way
round. -/
def Replies (p reply : Bytes) : Prop :=
  IsTcp p → segSrcPort reply = segDstPort p ∧ segDstPort reply = segSrcPort p

theorem tcpAck_replies {f : Frame} (h : s.tcpAck env sock ⟨length, hostFlags p⟩ = some (s', f)) :
    Replies p f.payload := fun hp =>
  have hreply := ackOf_ipv4Output hp (tcpAck_some h).1
  ⟨hreply.srcPort, hreply.dstPort⟩

theorem tcpAck_do_handles
    (h : (do let (s, _) ← s.tcpAck env sock ⟨length, hostFlags p⟩; return s) = some s') :
    Handles s s' sock (ackSocket (s.sockets sock) p) := by
  obtain ⟨⟨s₁, f⟩, hack, heq⟩ := Option.bind_eq_some_iff.mp h
  obtain rfl := Option.some.inj heq
  exact tcpAck_handles hack

theorem replies_swapped : Replies p (swapped p) := fun _ =>
  ⟨by rw [segSrcPort, swapped_srcPort, segDstPort], by rw [segDstPort, swapped_dstPort, segSrcPort]⟩

theorem tcpInputUp_handles (h : s.tcpInputUp env sock ⟨length, hostFlags p⟩ = some s') :
    ∃ reply, Replies p reply ∧ Handles s s' sock (segSocketUp (s.sockets sock) p reply) := by
  rw [NetIn.tcpInputUp] at h
  dsimp only at h
  rw [tcpFlagsAt_hostFlags] at h
  by_cases hfin : segFlags p = flagsFinAck
  · have hsyn : ¬ segFlags p = flagsSynAck := by
      rw [hfin]
      decide
    rw [if_neg hsyn, if_pos hfin] at h
    obtain ⟨⟨s₁, f⟩, hack, hcopy⟩ := Option.bind_eq_some_iff.mp h
    refine ⟨f.payload, tcpAck_replies hack, ?_⟩
    have hack := tcpAck_handles hack
    rw [segSocketUp, if_pos hfin, ← hack.self]
    have hnote : Handles s₁ (s₁.notePorts sock f.payload) sock
        { s₁.sockets sock with srcp := segDstPort f.payload, dstp := segSrcPort f.payload } :=
      Handles.setSocket
    rw [← hnote.self]
    exact (hack.trans hnote).trans (copyFinack_handles hcopy)
  refine ⟨swapped p, replies_swapped, ?_⟩
  rw [segSocketUp, if_neg hfin]
  by_cases hsyn : segFlags p = flagsSynAck
  · rw [if_pos hsyn] at h ⊢
    exact tcpAck_do_handles h
  rw [if_neg hsyn, if_neg hfin] at h
  rw [if_neg hsyn]
  by_cases hrst : segFlags p = flagsRstAck
  · rw [if_pos hrst] at h ⊢
    obtain rfl := Option.some.inj h
    exact tcpReset_handles
  rw [if_neg hrst] at h ⊢
  by_cases hpsh : segFlags p = flagsPshAck
  · rw [if_pos hpsh] at h ⊢
    exact tcpAck_do_handles h
  rw [if_neg hpsh] at h ⊢
  by_cases hack : segFlags p = flagsAck
  · rw [if_pos hack] at h ⊢
    obtain rfl := Option.some.inj h
    exact tcpAcked_handles
  · rw [if_neg hack] at h ⊢
    obtain rfl := Option.some.inj h
    exact Handles.refl

theorem tcpInputListen_handles (h : s.tcpInputListen env sock ⟨length, hostFlags p⟩ = some s') :
    Handles s s' sock (segSocketListen (env.xrandom 0) (s.sockets sock) p) := by
  rw [NetIn.tcpInputListen] at h
  dsimp only at h
  rw [tcpFlagsAt_hostFlags] at h
  rw [segSocketListen]
  by_cases hfin : segFlags p = flagsFinAck
  · rw [if_pos hfin] at h ⊢
    cases hstate : (s.sockets sock).state with
    | established =>
        rw [hstate] at h
        obtain ⟨⟨s₁, f⟩, hack, hcopy⟩ := Option.bind_eq_some_iff.mp h
        have hack := tcpAck_handles hack
        dsimp only
        rw [← hack.self]
        exact hack.trans (copyFinack_handles hcopy)
    | closeWait =>
        rw [hstate] at h
        exact tcpAck_do_handles h
    | _ =>
        rw [hstate] at h
        obtain rfl := Option.some.inj h
        exact Handles.refl.freeDescBuff
  rw [if_neg hfin] at h ⊢
  by_cases hrst : segFlags p = flagsRstAck
  · rw [if_pos hrst] at h ⊢
    obtain rfl := Option.some.inj h
    exact tcpReset_handles
  rw [if_neg hrst] at h ⊢
  by_cases hpsh : segFlags p = flagsPshAck
  · rw [if_pos hpsh] at h ⊢
    exact tcpAck_do_handles h
  rw [if_neg hpsh] at h ⊢
  by_cases hsyn : segFlags p = flagsSyn
  · rw [if_pos hsyn] at h ⊢
    exact tcpSynack_handles h
  rw [if_neg hsyn] at h ⊢
  by_cases hack : segFlags p = flagsAck
  · rw [if_pos hack] at h ⊢
    obtain rfl := Option.some.inj h
    exact tcpAcked_handles
  · rw [if_neg hack] at h ⊢
    obtain rfl := Option.some.inj h
    exact Handles.refl

/-- `tcp_input` only changes the socket of the port, to what `segSocket`
says. -/
theorem tcpInput_handles (h : s.tcpInput env buff = some s') :
    ∃ reply, Replies buff.payload reply ∧ Handles s s' (s.portOf buff.payload).sock
      (segSocket (s.portOf buff.payload).status (env.xrandom 0)
        (s.sockets (s.portOf buff.payload).sock) buff.payload reply) := by
  rw [NetIn.tcpInput] at h
  cases hstatus : (s.portOf buff.payload).status with
  | up =>
      rw [hstatus] at h
      exact tcpInputUp_handles h
  | listen =>
      rw [hstatus] at h
      exact ⟨swapped buff.payload, replies_swapped, tcpInputListen_handles h⟩
  | _ =>
      rw [hstatus] at h
      obtain rfl := Option.some.inj h
      exact ⟨swapped buff.payload, replies_swapped, Handles.refl.freeDescBuff⟩

theorem Handles.other {socket : Socket} (h : Handles s s' sock socket) (hne : i ≠ sock) :
    s'.sockets i = s.sockets i := by
  rw [h.sockets, Function.update_of_ne hne]

end Input

/-- A segment that is delivered to `tcp_input`. -/
structure Arrival where
  env : NetEnv
  buff : Frame

def NetIn.arrive (s : NetIn) (a : Arrival) : Option NetIn := s.tcpInput a.env a.buff

end Csos
