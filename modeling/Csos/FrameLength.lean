import Csos.DhcpRequest
import Csos.TcpSend
import Csos.TcpSyn

/-!
# The length of a frame (`ipv4_build` and what calls it)

`buff->length` is counted layer by layer, each adding its header, and
`total_len` comes out of one formula in `ipv4_build`. The two agree when the
count begins at 0: in a new buffer, or where the builder sets it. Only
`dhcp_request` goes on counting from the length of the received packet. Both
numbers have 16 bits, so a frame must not be longer than that either.
-/

namespace Csos

open Lib Lib.Bytes

variable {env : NetEnv} {s : NetIn} {netif : Netif} {p q : Bytes} {f : Frame}
  {length dlen olen random tp b : Nat} {dstMac : MacAddr} {dstIp : IpAddr} {data : Option Bytes}

/-! ## What `eth_build` keeps -/

/-- The payload goes behind at least 14 + 8 bytes. -/
theorem netifSetPayload_front (hb : b < 22) :
    (netifSetPayload ⟨length, p⟩ data dlen).payload b = p b := by
  have hbase : ipv4Base = 14 := rfl
  rw [netifSetPayload]
  dsimp only
  split_ifs
  all_goals first
    | rfl
    | exact memcpyInto_outside (by omega)

/-- The checksums lie behind `total_len`. -/
theorem netifSetChecksum_front (h : netifSetChecksum ⟨length, p⟩ dlen = some f)
    (hheader : 20 ≤ ipv4HeaderLen p ipv4Base) (hb : b < 24) : f.payload b = p b := by
  have hbase : ipv4Base = 14 := rfl
  exact (netifSetChecksum_frame h).2 b (Or.inl hb) (Or.inl (by omega))

theorem ipv4BuildLen_lt : ipv4BuildLen tp dlen olen < 0x10000 := by
  rw [ipv4BuildLen]
  split_ifs
  all_goals first
    | exact Nat.mod_lt _ (by decide)
    | decide

/-- The two lengths of a frame that `ipv4_build` makes. -/
theorem ipv4Build_lengths (htp : tp < 0x100)
    (h : ipv4Build netif ⟨length, p⟩ dstMac random dstIp tp data dlen olen = some f) :
    f.length = u16 (length + 34 + dlen)
      ∧ f.payload.beWord ipv4TotalLen = ipv4BuildLen tp dlen olen := by
  obtain ⟨hihl, -, htotal, -⟩ := @ipv4Header_fields p tp netif random (ipv4BuildLen tp dlen olen)
    dstIp htp ipv4BuildLen_lt
  rw [ipv4Build, ethBuild] at h
  dsimp only at h
  generalize hq : ethHeader netif (ipv4Header netif p random dstIp tp (ipv4BuildLen tp dlen olen))
    dstMac ethTypeIPv4 = q at h
  have hfront : ∀ b, 14 ≤ b → b < 22 →
      (netifSetPayload ⟨u16 (u16 (length + 20) + 14), q⟩ data dlen).payload b
        = ipv4Header netif p random dstIp tp (ipv4BuildLen tp dlen olen) b := by
    intro b hb hb'
    rw [netifSetPayload_front hb', ← hq, ethHeader_outside hb]
  have hcount : (netifSetPayload ⟨u16 (u16 (length + 20) + 14), q⟩ data dlen).length
      = u16 (length + 34 + dlen) := by
    show u16 (u16 (u16 (length + 20) + 14) + dlen) = u16 (length + 34 + dlen)
    simp only [u16]
    omega
  have hheader : ipv4HeaderLen (netifSetPayload ⟨u16 (u16 (length + 20) + 14), q⟩ data dlen).payload
      ipv4Base = 20 := by
    rw [ipv4HeaderLen, hfront _ (by decide) (by decide), hihl]
    rfl
  generalize netifSetPayload ⟨u16 (u16 (length + 20) + 14), q⟩ data dlen = filled at *
  obtain ⟨filledLength, r⟩ := filled
  have hsame := fun b => @netifSetChecksum_front _ _ _ _ b h (Nat.le_of_eq hheader.symm)
  refine ⟨(netifSetChecksum_frame h).1.trans hcount, ?_⟩
  rw [beWord_congr (hsame _ (by decide)) (hsame _ (by decide)),
    beWord_congr (hfront _ (by decide) (by decide)) (hfront _ (by decide) (by decide)), htotal]

/-! ## The frames -/

namespace NetIn

variable (env : NetEnv) (s : NetIn)

/-- The frame that `tcp_syn` passes to `netif_output`. -/
def synFrame (pid sock : Nat) (buff : Frame) (dstIp : IpAddr) : Option Frame := do
  let socket := s.sockets sock
  let dstMac ← s.kernelSetmac env socket.netif dstIp
  (Csos.tcpSyn (s.netifs socket.netif) socket s.ports pid sock buff dstMac (env.xrandom 0)
    (env.xrandom 1) dstIp).map Prod.fst

/-- And `tcp_synack`. -/
def synackFrame (sock : Nat) (buff : Frame) : Option Frame := do
  let (socket, payload) := tcpSynackHeader (s.sockets sock) (env.xrandom 0) buff.payload
  let dstIp := ipAt payload ipv4SrcIp
  let dstMac ← s.kernelSetmac env socket.netif dstIp
  ipv4Build (s.netifs socket.netif) { payload, length := 24 } dstMac (env.xrandom 1) dstIp
    ipTypeTcp none 0 4

/-- And `tcp_finack`. -/
def finackFrame (sock : Nat) (payload : Bytes) (dstIp : IpAddr) : Option Frame := do
  let socket := s.sockets sock
  let dstMac ← s.kernelSetmac env socket.netif dstIp
  ipv4Build (s.netifs socket.netif) { payload := tcpFinackHeader socket payload, length := 20 }
    dstMac (env.xrandom 1) dstIp ipTypeTcp none 0 0

/-- And `icmp_build`. -/
def echoBuildFrame (netif : Nat) (buff : Frame) (type code : BitVec 8) (dstIp : IpAddr)
    (data : Option Bytes) (dlen : Nat) : Option Frame := do
  let dstMac ← s.kernelSetmac env netif dstIp
  icmpBuild (s.netifs netif) buff dstMac (env.xrandom 0) (env.xrandom 1) type code dstIp data dlen

/-- And `dhcp_discover`. -/
def discoverFrame (netif : Nat) (buff : Frame) : Option Frame := do
  let payload := dhcpDiscoverMessage (s.netifs netif) (env.xrandom 0) buff.payload
  let dstMac ← s.kernelSetmac env netif broadcastIp
  udpBuild (s.netifs netif) { buff with payload } dstMac (env.xrandom 1) broadcastIp
    dhcpClientPort dhcpServerPort none (240 + 11)

end NetIn

section Frames

variable {pid sock i : Nat} {buff : Frame}

theorem tcpSynack_eq : s.tcpSynack env sock buff = (s.synackFrame env sock buff).map fun f =>
    (s.setSocket sock
      { (tcpSynackHeader (s.sockets sock) (env.xrandom 0) buff.payload).1 with
        state := .synReceived }).output f := by
  rw [NetIn.tcpSynack, NetIn.synackFrame, Option.map_eq_bind]
  exact (Option.bind_assoc ..).symm

theorem tcpFinack_eq {payload : Bytes} : s.tcpFinack env sock payload dstIp
    = (s.finackFrame env sock payload dstIp).map fun f =>
      ((s.setSocket sock { s.sockets sock with state := finackState (s.sockets sock) }).netifOutput
        f).1 := by
  rw [NetIn.tcpFinack, NetIn.finackFrame, Option.map_eq_bind]
  exact (Option.bind_assoc ..).symm

theorem dhcpDiscover_eq : s.dhcpDiscover env i buff
    = (s.discoverFrame env i buff).map fun f => (s.netifOutput f).1 := by
  rw [NetIn.dhcpDiscover, NetIn.discoverFrame, Option.map_eq_bind]
  exact (Option.bind_assoc ..).symm

end Frames

/-! ## The law -/

/-- A packet that a builder makes, in a new buffer with this payload or in the
received one. -/
inductive IpBuild where
  | tcpBuild (sock : Nat) (data : Option Bytes) (len : Nat)
  | tcpSyn (pid sock : Nat) (payload : Bytes) (dstIp : IpAddr)
  | tcpSynack (sock : Nat) (buff : Frame)
  | tcpFinack (sock : Nat) (payload : Bytes) (dstIp : IpAddr)
  | icmpBuild (netif : Nat) (payload : Bytes) (type code : BitVec 8) (dstIp : IpAddr)
      (data : Option Bytes) (dlen : Nat)
  | dhcpDiscover (netif : Nat) (payload : Bytes)
  | dhcpRequest (netif : Nat) (buff : Frame)

namespace IpBuild

/-- The frame that goes to `netif_output`. -/
def frame (env : NetEnv) (s : NetIn) : IpBuild → Option Frame
  | .tcpBuild sock data len => s.sendSegment env sock data len
  | .tcpSyn pid sock payload dstIp => s.synFrame env pid sock { payload, length := 0 } dstIp
  | .tcpSynack sock buff => s.synackFrame env sock buff
  | .tcpFinack sock payload dstIp => s.finackFrame env sock payload dstIp
  | .icmpBuild netif payload type code dstIp data dlen =>
      s.echoBuildFrame env netif { payload, length := 0 } type code dstIp data dlen
  | .dhcpDiscover netif payload => s.discoverFrame env netif { payload, length := 0 }
  | .dhcpRequest netif buff => s.requestFrame env netif buff

/-- `total_len`. -/
def totalLen : IpBuild → Nat
  | .tcpBuild _ _ len => u16 (20 + 20 + u16 len + 0)
  | .tcpSyn .. | .tcpFinack .. => 20 + 20
  | .tcpSynack .. => 20 + 20 + 4
  | .icmpBuild _ _ _ _ _ data dlen =>
      u16 (20 + 8 + if data.isNone ∧ dlen = 0 then echoPayload.length else dlen)
  | .dhcpDiscover .. => 20 + 8 + (240 + 11)
  | .dhcpRequest .. => 20 + 8 + (240 + 17)

/-- The length of the buffer before the builder adds anything. -/
def startLength : IpBuild → Nat
  | .dhcpRequest _ buff => buff.length
  | _ => 0

variable {c : IpBuild}

theorem lengths (h : c.frame env s = some f) :
    f.length = u16 (c.startLength + 14 + c.totalLen)
      ∧ f.payload.beWord ipv4TotalLen = c.totalLen := by
  cases c with
  | tcpBuild sock data len =>
      obtain ⟨payload, -, h⟩ := Option.bind_eq_some_iff.mp h
      obtain ⟨dstMac, -, h⟩ := Option.bind_eq_some_iff.mp h
      obtain ⟨hlength, htotal⟩ := ipv4Build_lengths (by decide) h
      refine ⟨hlength.trans ?_, htotal⟩
      simp only [u16, startLength, totalLen]
      omega
  | tcpSyn pid sock payload dstIp =>
      obtain ⟨dstMac, -, h⟩ := Option.bind_eq_some_iff.mp h
      obtain ⟨r, hr, rfl⟩ := Option.map_eq_some_iff.mp h
      obtain ⟨frame, hframe, hr⟩ := Option.bind_eq_some_iff.mp hr
      obtain rfl := Option.some.inj hr
      exact ipv4Build_lengths (by decide) hframe
  | tcpSynack sock buff =>
      obtain ⟨dstMac, -, h⟩ := Option.bind_eq_some_iff.mp h
      exact ipv4Build_lengths (by decide) h
  | tcpFinack sock payload dstIp =>
      obtain ⟨dstMac, -, h⟩ := Option.bind_eq_some_iff.mp h
      exact ipv4Build_lengths (by decide) h
  | icmpBuild i payload type code dstIp data dlen =>
      obtain ⟨dstMac, -, h⟩ := Option.bind_eq_some_iff.mp h
      rw [Csos.icmpBuild] at h
      by_cases hnone : data.isNone ∧ dlen = 0
      · rw [if_pos hnone] at h
        obtain ⟨hlength, htotal⟩ := ipv4Build_lengths (by decide) h
        rw [totalLen, if_pos hnone]
        exact ⟨hlength, htotal⟩
      · rw [if_neg hnone] at h
        obtain ⟨hlength, htotal⟩ := ipv4Build_lengths (by decide) h
        rw [totalLen, if_neg hnone]
        refine ⟨hlength.trans ?_, htotal⟩
        simp only [u16, startLength]
        omega
  | dhcpDiscover i payload =>
      rw [frame, NetIn.discoverFrame] at h
      obtain ⟨dstMac, -, h⟩ := Option.bind_eq_some_iff.mp h
      rw [udpBuild] at h
      exact ipv4Build_lengths (by decide) h
  | dhcpRequest i buff =>
      rw [frame, NetIn.requestFrame] at h
      obtain ⟨dstMac, -, h⟩ := Option.bind_eq_some_iff.mp h
      rw [udpBuild] at h
      obtain ⟨hlength, htotal⟩ := ipv4Build_lengths (by decide) h
      refine ⟨hlength.trans ?_, htotal⟩
      simp only [u16, startLength, totalLen]
      omega

/-- The buffer of a REQUEST is new, and no other frame is longer than 16 bits
say. -/
def Counted : IpBuild → Prop
  | .tcpBuild _ _ len => 14 + u16 (20 + 20 + u16 len) < 0x10000
  | .icmpBuild _ _ _ _ _ data dlen =>
      14 + u16 (20 + 8 + if data.isNone ∧ dlen = 0 then echoPayload.length else dlen) < 0x10000
  | .dhcpRequest _ buff => u16 buff.length = 0
  | _ => True

theorem counted_iff : c.Counted ↔ u16 c.startLength = 0 ∧ 14 + c.totalLen < 0x10000 := by
  cases c <;> simp [Counted, startLength, totalLen, u16]

/-- The length of a frame is that of its packet and the Ethernet header if and
only if the count began at 0 and did not wrap. -/
theorem frameLength_iff (env : NetEnv) (s : NetIn) (c : IpBuild) (f : Frame)
    (h : c.frame env s = some f) :
    f.length = 14 + f.payload.beWord ipv4TotalLen ↔ c.Counted := by
  obtain ⟨hlength, htotal⟩ := lengths h
  have hlt := f.payload.beWord_lt ipv4TotalLen
  rw [hlength, htotal, counted_iff]
  rw [htotal] at hlt
  simp only [u16]
  omega

theorem frameLength_finack :
    ∃ f, (tcpFinack 0 (fun _ => 0) broadcastIp).frame silentEnv aloneNet = some f
      ∧ (f.length = 14 + f.payload.beWord ipv4TotalLen
        ↔ (tcpFinack 0 (fun _ => 0) broadcastIp).Counted) := by
  obtain ⟨f, hf, -⟩ := @ipv4Build_tcp 0 (aloneNet.netifs (aloneNet.sockets 0).netif) broadcastMac
    (silentEnv.xrandom 1) broadcastIp ⟨20, tcpFinackHeader (aloneNet.sockets 0) fun _ => 0⟩ none
    (by decide)
  have hframe : (tcpFinack 0 (fun _ => 0) broadcastIp).frame silentEnv aloneNet = some f := by
    rw [frame, NetIn.finackFrame, kernelSetmac_broadcast, Option.bind_eq_bind, Option.bind_some]
    exact hf
  exact ⟨f, hframe, frameLength_iff silentEnv aloneNet _ f hframe⟩

/-- A REQUEST over an offer of 590 bytes. -/
theorem frameLength_fails :
    ¬ ∀ (env : NetEnv) (s : NetIn) (c : IpBuild) (f : Frame), c.frame env s = some f →
      f.length = 14 + f.payload.beWord ipv4TotalLen := by
  intro hall
  obtain ⟨f, hf, -⟩ := @requestFrame_spec silentEnv aloneNet 0 (offerOf [53, 1, 2, 255])
  have heq := hall silentEnv aloneNet (.dhcpRequest 0 (offerOf [53, 1, 2, 255])) f hf
  obtain ⟨hlength, htotal⟩ := @lengths silentEnv aloneNet f
    (.dhcpRequest 0 (offerOf [53, 1, 2, 255])) hf
  rw [hlength, htotal] at heq
  exact absurd heq (by decide)

end IpBuild

end Csos
