import Csos.Dhcp
import Csos.DhcpOptions

/-!
# The answer to an offer (`dhcp_request`)

The REQUEST is written over the OFFER. Of its options everything is written
but the code of the first one, which stays what the server put there. So the
options are those of a REQUEST exactly when the OFFER begins with its message
type, as `dhcp_discover` makes it.
-/

namespace Csos

open Lib Lib.Tlv Lib.Bytes

/-! ## The packet -/

/-- The options of a REQUEST for the address `ip`. -/
def requestOptions (ip : IpAddr) : List Tlv :=
  [⟨53, [3]⟩, ⟨55, [0x01, 0x03, 0x06, 0x1A, 0x2A]⟩, ⟨50, List.ofFn ip⟩]

/-- The options of the packet are these and END behind them, where the UDP
payload ends. -/
structure IsRequest (p : Bytes) (ip : IpAddr) : Prop where
  options : Lies p dhcpOptions (encodeAll (requestOptions ip) ++ [255])
  ends : p.beWord udpLength
    = 8 + (dhcpOptions - dhcpOp) + (encodeAll (requestOptions ip) ++ [255]).length

/-- The frame that `dhcp_request` passes to `netif_output`. -/
def NetIn.requestFrame (env : NetEnv) (s : NetIn) (netif : Nat) (buff : Frame) : Option Frame := do
  let payload := dhcpRequestOptions (s.netifs netif) buff.payload
  let dstMac ← s.kernelSetmac env netif broadcastIp
  udpBuild (s.netifs netif) { buff with payload } dstMac (env.xrandom 0) broadcastIp
    dhcpClientPort dhcpServerPort none (240 + 17)

section Request

variable {env : NetEnv} {s : NetIn} {i dlen random srcPort dstPort : Nat} {buff : Frame}
  {netif : Netif} {dstMac : MacAddr} {dstIp : IpAddr} {p : Bytes}

theorem dhcpRequest_eq :
    s.dhcpRequest env i buff = (s.requestFrame env i buff).map fun f => s.output f := by
  rw [NetIn.dhcpRequest, NetIn.requestFrame, Option.map_eq_bind]
  exact (Option.bind_assoc ..).symm

theorem kernelSetmac_broadcast : s.kernelSetmac env i broadcastIp = some broadcastMac := by
  rw [NetIn.kernelSetmac]
  exact if_pos rfl

/-- Without a payload to copy, `ipv4_build` leaves everything behind the UDP
header as it is. -/
theorem ipv4Build_udp_none {f : Frame} {b : Nat}
    (h : ipv4Build netif buff dstMac random dstIp ipTypeUdp none dlen 0 = some f) (hb : 34 ≤ b)
    (hb' : b < 40 ∨ 42 ≤ b) : f.payload b = buff.payload b := by
  obtain ⟨hihl, hproto, -⟩ := @ipv4Header_fields buff.payload ipTypeUdp netif random
    (ipv4BuildLen ipTypeUdp dlen 0) dstIp (by decide) (Nat.mod_lt _ (by decide))
  have hout := fun b => @ethHeader_outside (ipv4Header netif buff.payload random dstIp ipTypeUdp
    (ipv4BuildLen ipTypeUdp dlen 0)) netif dstMac ethTypeIPv4 b
  rw [ipv4Build, ethBuild, netifSetPayload_none] at h
  dsimp only at h
  refine ((netifSetChecksum_frame h).2 b (by omega) ?_).trans ?_
  · rw [ipv4HeaderLen, hout _ (by decide), hout _ (by decide), hihl, hproto]
    exact hb'
  · rw [hout b (by omega), ipv4Header_outside hb]

theorem udpBuild_none (buff : Frame) (hlen : dlen ≤ 2048) :
    ∃ f, udpBuild netif buff dstMac random dstIp srcPort dstPort none dlen = some f
      ∧ f.payload.beWord udpLength = 8 + dlen
      ∧ ∀ b, 42 ≤ b → f.payload b = buff.payload b := by
  have hu16 : u16 (8 + dlen) = 8 + dlen := Nat.mod_eq_of_lt (by omega)
  have hlength : ∀ q : Bytes, ((q.store16 udpLength (htons (8 + dlen))).store16 udpChecksum
      0).beWord udpLength = 8 + dlen := fun q => by
    rw [beWord_store16 (by decide)]
    exact beWord_store16_htons (by omega)
  rw [udpBuild, hu16]
  obtain ⟨f, hf, -⟩ := @ipv4Build_udp dlen netif dstMac random dstIp
    ⟨u16 (buff.length + 8), (((buff.payload.store16 udpSrcPort (htons srcPort)).store16 udpDstPort
      (htons dstPort)).store16 udpLength (htons (8 + dlen))).store16 udpChecksum 0⟩ none hlen
    (hlength _)
  have hsame := fun b => @ipv4Build_udp_none dlen random _ netif dstMac dstIp f b hf
  refine ⟨f, hf, ?_, fun b hb => ?_⟩
  · rw [beWord_congr (hsame _ (by decide) (by decide)) (hsame _ (by decide) (by decide))]
    exact hlength _
  · rw [hsame b (by omega) (by omega)]
    simp (disch := omega) only [store16_outside, udpSrcPort, udpDstPort, udpLength, udpChecksum]

/-! ## The options -/

theorem dhcpRequestOptions_code : dhcpRequestOptions netif p dhcpOptions = p dhcpOptions := by
  simp (disch := decide) only [dhcpRequestOptions, dhcpParamRequestList, store8_of_ne,
    setAddr_outside]

theorem dhcpRequestOptions_ip :
    ipAt (dhcpRequestOptions netif p) (dhcpOptions + 12) = netif.dhcpIpv4 := by
  refine funext fun i => ?_
  have hi := i.isLt
  rw [ipAt, dhcpRequestOptions, store8_of_ne (by simp only [dhcpOptions]; omega), setAddr_inside]

/-- What `dhcp_request` writes behind the first byte of the options. -/
theorem dhcpRequestOptions_lies : Lies (dhcpRequestOptions netif p) (dhcpOptions + 1)
    ((encodeAll (requestOptions netif.dhcpIpv4) ++ [255]).tail) := by
  have hip := fun i => congrFun (@dhcpRequestOptions_ip netif p) i
  show Lies _ _ [1, 3, 55, 5, 0x01, 0x03, 0x06, 0x1A, 0x2A, 50, 4, netif.dhcpIpv4 0,
    netif.dhcpIpv4 1, netif.dhcpIpv4 2, netif.dhcpIpv4 3, 255]
  simp only [lies_cons, lies_nil, and_true]
  refine ⟨?_, ?_, ?_, ?_, ?_, ?_, ?_, ?_, ?_, ?_, ?_, hip 0, hip 1, hip 2, hip 3, ?_⟩
  all_goals simp (disch := decide) only [dhcpRequestOptions, dhcpParamRequestList, store8_of_ne,
    store8_self, setAddr_outside]

theorem requestFrame_spec : ∃ f, s.requestFrame env i buff = some f
    ∧ f.payload.beWord udpLength = 8 + (240 + 17)
    ∧ ∀ b, 42 ≤ b → f.payload b = dhcpRequestOptions (s.netifs i) buff.payload b := by
  rw [NetIn.requestFrame, kernelSetmac_broadcast]
  exact udpBuild_none _ (by decide)

/-- The options of the packet, when the server's first byte is the code of a
message type and when it is not. -/
theorem isRequest_iff {f : Frame} (hlength : f.payload.beWord udpLength = 8 + (240 + 17))
    (hsame : ∀ b, 42 ≤ b → f.payload b = dhcpRequestOptions netif p b) :
    IsRequest f.payload netif.dhcpIpv4 ↔ p dhcpOptions = 53 := by
  have hcode : f.payload dhcpOptions = p dhcpOptions :=
    (hsame _ (by decide)).trans dhcpRequestOptions_code
  have hrest : Lies f.payload (dhcpOptions + 1)
      ((encodeAll (requestOptions netif.dhcpIpv4) ++ [255]).tail) :=
    dhcpRequestOptions_lies.congr fun b hb _ =>
      hsame b (Nat.le_trans (by decide) hb)
  constructor
  · intro h
    rw [← hcode]
    exact (lies_cons.mp h.options).1
  · intro h
    exact ⟨lies_cons.mpr ⟨hcode.trans h, hrest⟩, hlength⟩

/-- What `dhcp_input` does with an offer that it accepts. -/
theorem dhcpInput_offer {n : Netif} (hop : buff.payload dhcpOp = 2)
    (hmessage : dhcpMessage buff.payload optionFuel dhcpOptions = some (some .offer))
    (hn : dhcpOffer (s.netifs i) buff.payload = some n) :
    s.dhcpInput env i buff = (s.setNetif i n).dhcpRequest env i buff := by
  rw [NetIn.dhcpInput, if_pos hop, hmessage]
  show (dhcpOffer (s.netifs i) buff.payload).bind _ = _
  rw [hn]
  rfl

end Request

/-- The answer to an accepted offer is a well-formed REQUEST for the offered
address if and only if the first option of the offer is its message type. -/
theorem dhcpRequest_wellFormed_iff (env : NetEnv) (s : NetIn) (i : Nat) (buff : Frame) (n : Netif)
    (hop : buff.payload dhcpOp = 2)
    (hmessage : dhcpMessage buff.payload optionFuel dhcpOptions = some (some .offer))
    (hn : dhcpOffer (s.netifs i) buff.payload = some n) :
    (∃ f, (s.setNetif i n).requestFrame env i buff = some f
      ∧ s.dhcpInput env i buff = some ((s.setNetif i n).output f)
      ∧ IsRequest f.payload (ipAt buff.payload dhcpYiaddr))
      ↔ buff.payload dhcpOptions = 53 := by
  obtain ⟨f, hf, hlength, hsame⟩ := @requestFrame_spec env (s.setNetif i n) i buff
  rw [DhcpRun.setNetif_self] at hsame
  have hrequest := @isRequest_iff n buff.payload f hlength hsame
  rw [(DhcpRun.dhcpOffer_spec hn).1] at hrequest
  have hinput : s.dhcpInput env i buff = some ((s.setNetif i n).output f) := by
    rw [dhcpInput_offer hop hmessage hn, dhcpRequest_eq, hf]
    rfl
  constructor
  · rintro ⟨f', hf', -, h⟩
    obtain rfl := Option.some.inj (hf.symm.trans hf')
    exact hrequest.mp h
  · intro h
    exact ⟨f, hf, hinput, hrequest.mpr h⟩

/-- An offer of 10.0.0.9 whose options are `options`. -/
def offerOf (options : List (BitVec 8)) : Frame where
  length := 590
  payload := fun b =>
    if b = 42 then 2 else if b = 58 then 10 else if b = 61 then 9
    else if dhcpOptions ≤ b then options.getD (b - dhcpOptions) 0 else 0

/-- What it leaves in the interface if there is neither a router nor a mask. -/
def offeredNetif (options : List (BitVec 8)) : Netif :=
  { testNetif with dhcpIpv4 := ipAt (offerOf options).payload dhcpYiaddr, status := .requested }

/-- An offer that begins with its message type. -/
theorem dhcpRequest_wellFormed_type :
    (∃ f, (aloneNet.setNetif 0 (offeredNetif [53, 1, 2, 255])).requestFrame silentEnv 0
        (offerOf [53, 1, 2, 255]) = some f
      ∧ aloneNet.dhcpInput silentEnv 0 (offerOf [53, 1, 2, 255])
        = some ((aloneNet.setNetif 0 (offeredNetif [53, 1, 2, 255])).output f)
      ∧ IsRequest f.payload (ipAt (offerOf [53, 1, 2, 255]).payload dhcpYiaddr))
      ↔ (offerOf [53, 1, 2, 255]).payload dhcpOptions = 53 :=
  dhcpRequest_wellFormed_iff silentEnv aloneNet 0 (offerOf [53, 1, 2, 255])
    (offeredNetif [53, 1, 2, 255]) rfl rfl rfl

/-- Behind the identifier of the server the message type stays that
identifier. -/
theorem dhcpRequest_wellFormed_fails :
    ¬ ∀ (env : NetEnv) (s : NetIn) (i : Nat) (buff : Frame) (n : Netif),
      buff.payload dhcpOp = 2 →
      dhcpMessage buff.payload optionFuel dhcpOptions = some (some .offer) →
      dhcpOffer (s.netifs i) buff.payload = some n →
      ∃ f, (s.setNetif i n).requestFrame env i buff = some f
        ∧ IsRequest f.payload (ipAt buff.payload dhcpYiaddr) := by
  intro hall
  obtain ⟨f, hf, hrequest⟩ := hall silentEnv aloneNet 0
    (offerOf [54, 4, 10, 0, 0, 1, 53, 1, 2, 255])
    (offeredNetif [54, 4, 10, 0, 0, 1, 53, 1, 2, 255]) rfl rfl rfl
  obtain ⟨f', hf', -, hsame⟩ := @requestFrame_spec silentEnv
    (aloneNet.setNetif 0 (offeredNetif [54, 4, 10, 0, 0, 1, 53, 1, 2, 255])) 0
    (offerOf [54, 4, 10, 0, 0, 1, 53, 1, 2, 255])
  obtain rfl := Option.some.inj (hf.symm.trans hf')
  have hcode : f.payload dhcpOptions = 54 :=
    (hsame _ (by decide)).trans dhcpRequestOptions_code
  exact absurd (hcode.symm.trans (lies_cons.mp hrequest.options).1) (by decide)

end Csos
