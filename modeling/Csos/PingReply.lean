import Csos.NetDisposal

/-!
# The answer to a ping (`icmp_input`)

An echo request is answered in its own buffer: `icmp_output` turns the type
over, and `ipv4_output` fills in the header anew, for a message without a
payload. So the answer is complete for a request without a payload only. The
message is looked for behind a header of 20 bytes, wherever it is.
-/

namespace Csos

open Lib Lib.Bytes

/-! ## Requests and replies -/

/-- Where the ICMP message begins. -/
def icmpAt (p : Bytes) : Nat := ipv4Base + ipv4HeaderLen p ipv4Base

/-- A well-formed echo request to the interface, with `n` bytes of payload. -/
structure EchoRequest (netif : Netif) (p : Bytes) (n : Nat) : Prop where
  packet : Accepted p ipTypeIcmp (8 + n)
  version : p ipv4Ihl &&& 0xF0 = 0x40
  header : 20 ≤ ipv4HeaderLen p ipv4Base
  type : p (icmpAt p) = 8
  code : p (icmpAt p + 1) = 0
  dst : ipAt p ipv4DstIp = netif.ipv4

/-- `q` is the echo reply to the request `p` with `n` bytes of payload. -/
structure EchoReply (p q : Bytes) (n : Nat) : Prop where
  packet : Accepted q ipTypeIcmp (8 + n)
  type : q (icmpAt q) = 0
  code : q (icmpAt q + 1) = 0
  mac : macAt q ethDst = macAt p ethSrc
  src : ipAt q ipv4SrcIp = ipAt p ipv4DstIp
  dst : ipAt q ipv4DstIp = ipAt p ipv4SrcIp
  id : q.load16 (icmpAt q + 4) = p.load16 (icmpAt p + 4)
  seq : q.load16 (icmpAt q + 6) = p.load16 (icmpAt p + 6)
  payload : ∀ k < n, q (icmpAt q + 8 + k) = p (icmpAt p + 8 + k)

/-- The frame that `icmp_input` passes to `netif_output`. -/
def NetIn.echoFrame (env : NetEnv) (s : NetIn) (netif : Nat) (buff : Frame) : Option Frame :=
  if buff.payload icmpType = 8 then icmpOutput (s.netifs netif) buff (env.xrandom 0) none 0
  else none

variable {env : NetEnv} {s : NetIn} {netif : Netif} {p : Bytes} {i n b length random : Nat}
  {buff f : Frame}

theorem icmpInput_of_echoFrame (h : s.echoFrame env i buff = some f) :
    s.icmpInput env i buff = some (s.output f).freeDescBuff := by
  rw [NetIn.echoFrame] at h
  split_ifs at h with htype
  rw [NetIn.icmpInput, if_pos htype, h]
  rfl

/-! ## The frame -/

/-- What `icmp_output`, `ipv4_output` and `eth_output` fill in, up to the
checksums. -/
def echoHeader (netif : Netif) (p : Bytes) (random : Nat) : Bytes :=
  let q := ipv4OutputHeader netif (icmpOutputHeader p) random 28
  setAddr (setAddr q ethDst (macAt q ethSrc)) ethSrc netif.mac

theorem icmpOutputHeader_outside (h : b < 34 ∨ 38 ≤ b) : icmpOutputHeader p b = p b := by
  rw [icmpOutputHeader, store16_outside (by simp only [icmpChecksum]; omega)]
  split_ifs
  · rw [store8_of_ne (by simp only [icmpCode]; omega),
      store8_of_ne (by simp only [icmpType]; omega)]
  · rfl

theorem icmpOutput_eq (hproto : (p ipv4Proto).toNat = ipTypeIcmp) :
    icmpOutput netif ⟨length, p⟩ random none 0
      = netifSetChecksum ⟨u16 length, echoHeader netif p random⟩ 0 := by
  have hproto' : (icmpOutputHeader p ipv4Proto).toNat = ipTypeIcmp := by
    rw [icmpOutputHeader_outside (by decide), hproto]
  have hicmp : ¬ ((icmpOutputHeader p ipv4Proto).toNat = ipTypeTcp
      ∧ tcpFlagsAt (icmpOutputHeader p) = flagsAck) := by
    rw [hproto']
    exact fun h => absurd h.1 (by decide)
  rw [icmpOutput, ipv4Output]
  dsimp only
  rw [if_neg hicmp, ethOutput, netifSetPayload_none, hproto']
  rfl

theorem echoHeader_outside (h : 34 ≤ b) : echoHeader netif p random b = icmpOutputHeader p b := by
  simp (disch := omega) only [echoHeader, ipv4OutputHeader, ethDst, ethSrc, ipv4TotalLen,
    ipv4Checksum, ipv4Id, ipv4Ttl, ipv4DstIp, ipv4SrcIp, setAddr_outside, store16_outside,
    store8_of_ne]

theorem echoHeader_old (h : 12 ≤ b ∧ b < 16 ∨ b = 23) : echoHeader netif p random b = p b := by
  simp (disch := omega) only [echoHeader, ipv4OutputHeader, ethDst, ethSrc, ipv4TotalLen,
    ipv4Checksum, ipv4Id, ipv4Ttl, ipv4DstIp, ipv4SrcIp, setAddr_outside, store16_outside,
    store8_of_ne]
  exact icmpOutputHeader_outside (by omega)

theorem echoHeader_headerLen :
    ipv4HeaderLen (echoHeader netif p random) ipv4Base = ipv4HeaderLen p ipv4Base := by
  rw [ipv4HeaderLen, echoHeader_old (by decide), ← ipv4HeaderLen]

theorem echoHeader_total : (echoHeader netif p random).beWord ipv4TotalLen = 28 := by
  simp (disch := decide) only [echoHeader, ipv4OutputHeader, beWord_setAddr, beWord_store16,
    beWord_store8]
  exact beWord_store16_htons (by decide)

theorem echoHeader_zero : (echoHeader netif p random).beWord ipv4Checksum = 0 := by
  simp (disch := decide) only [echoHeader, ipv4OutputHeader, beWord_setAddr, beWord_store16,
    beWord_store8]
  exact beWord_store16_zero

/-- Whom the answer goes to, and whom it comes from. -/
theorem echoHeader_addrs : macAt (echoHeader netif p random) ethDst = macAt p ethSrc
    ∧ ipAt (echoHeader netif p random) ipv4SrcIp = netif.ipv4
    ∧ ipAt (echoHeader netif p random) ipv4DstIp = ipAt p ipv4SrcIp := by
  rw [echoHeader, ipv4OutputHeader]
  refine ⟨?_, ?_, ?_⟩
  · rw [macAt_setAddr_other (by decide), macAt_setAddr]
    refine macAt_congr fun b _ hb => ?_
    simp only [ethSrc] at hb
    simp (disch := omega) only [ipv4TotalLen, ipv4Checksum, ipv4Id, ipv4Ttl, ipv4DstIp, ipv4SrcIp,
      setAddr_outside, store16_outside, store8_of_ne]
    exact icmpOutputHeader_outside (by omega)
  · rw [ipAt_setAddr_other (by decide), ipAt_setAddr_other (by decide), ipAt_setAddr]
  · rw [ipAt_setAddr_other (by decide), ipAt_setAddr_other (by decide),
      ipAt_setAddr_other (by decide), ipAt_setAddr]
    refine ipAt_congr fun b hb hb' => ?_
    simp only [ipv4SrcIp] at hb hb'
    simp (disch := omega) only [ipv4TotalLen, ipv4Checksum, ipv4Id, ipv4Ttl, store16_outside,
      store8_of_ne]
    exact icmpOutputHeader_outside (by omega)

/-- The checksums of an ICMP packet change nothing but their own bytes. -/
theorem netifSetChecksum_icmp_outside {dlen : Nat}
    (h : netifSetChecksum ⟨length, p⟩ dlen = some f) (hproto : (p ipv4Proto).toNat = ipTypeIcmp)
    (hb : b < 24 ∨ 26 ≤ b) (hb' : b < icmpAt p + 2 ∨ icmpAt p + 4 ≤ b) : f.payload b = p b := by
  have hoffset : checksumOffset (p ipv4Proto).toNat = 2 := by
    rw [hproto]
    rfl
  refine (netifSetChecksum_frame h).2 b hb ?_
  rwa [hoffset]

/-! ## The law -/

theorem EchoRequest.ihl (h : EchoRequest netif p n) (hheader : ipv4HeaderLen p ipv4Base = 20) :
    p ipv4Ihl = 0x45 := by
  have hversion := h.version
  have hihl : (p ipv4Ihl &&& 0x0F).toNat = 5 := Nat.eq_of_mul_eq_mul_right (by decide) hheader
  generalize p ipv4Ihl = x at hversion hihl
  revert x
  decide

theorem EchoRequest.ready (h : EchoRequest netif p n) (hheader : ipv4HeaderLen p ipv4Base = 20) :
    Ready (echoHeader netif p random) ipTypeIcmp (8 + 0) := by
  constructor
  case type =>
    rw [beWord_congr (echoHeader_old (by decide)) (echoHeader_old (by decide)), h.packet.type]
  case ihl => rw [echoHeader_old (by decide), h.ihl hheader]
  case proto => rw [echoHeader_old (by decide), h.packet.proto]
  case total => exact echoHeader_total
  case zero => exact echoHeader_zero

theorem EchoRequest.turned (h : EchoRequest netif p n) (hheader : ipv4HeaderLen p ipv4Base = 20) :
    echoHeader netif p random 34 = 0 ∧ echoHeader netif p random 35 = 0
      ∧ (echoHeader netif p random).beWord icmpChecksum = 0 := by
  have htype : p icmpType = 8 := by
    have := h.type
    rwa [icmpAt, hheader] at this
  have hcode : p icmpCode = 0 := by
    have := h.code
    rwa [icmpAt, hheader] at this
  rw [echoHeader_outside (by decide), echoHeader_outside (by decide),
    beWord_congr (echoHeader_outside (by decide)) (echoHeader_outside (by decide)),
    icmpOutputHeader, if_pos ⟨htype, hcode⟩]
  refine ⟨rfl, ?_, beWord_store16_zero⟩
  rw [store16_outside (by decide)]
  exact store8_self

/-- The frame that answers a request without options: both checksums are
right, and everything else is as it was filled in. -/
theorem EchoRequest.frame (h : EchoRequest (s.netifs i) buff.payload n)
    (hheader : ipv4HeaderLen buff.payload ipv4Base = 20) :
    ∃ f, s.echoFrame env i buff = some f ∧ Accepted f.payload ipTypeIcmp (8 + 0)
      ∧ ∀ b, b < 24 ∨ 26 ≤ b ∧ b < 36 ∨ 38 ≤ b →
        f.payload b = echoHeader (s.netifs i) buff.payload (env.xrandom 0) b := by
  have hat : ∀ p, ipv4HeaderLen p ipv4Base = 20 → icmpAt p = 34 := fun p hp => by rw [icmpAt, hp]
  have hready := @EchoRequest.ready _ _ _ (env.xrandom 0) h hheader
  obtain ⟨hreply, hcode, hzero⟩ := @EchoRequest.turned _ _ _ (env.xrandom 0) h hheader
  have hecho : isIcmpEcho (echoHeader (s.netifs i) buff.payload (env.xrandom 0)) 34 = true := by
    rw [isIcmpEcho, hreply, hcode]
    rfl
  obtain ⟨f, hf, hpacket⟩ :=
    @netifSetChecksum_icmp _ 0 (u16 buff.length) hready (by decide) hecho hzero
  refine ⟨f, ?_, hpacket, fun b hb => ?_⟩
  · rw [NetIn.echoFrame, if_pos ((congrArg _ (hat _ hheader)).symm.trans h.type)]
    exact (icmpOutput_eq h.packet.proto).trans hf
  · refine netifSetChecksum_icmp_outside hf hready.proto (by omega) ?_
    rw [hat _ (echoHeader_headerLen.trans hheader)]
    omega

/-- The answer to a request without options and payload. -/
theorem EchoRequest.reply (h : EchoRequest (s.netifs i) buff.payload 0)
    (hheader : ipv4HeaderLen buff.payload ipv4Base = 20) :
    ∃ f, s.echoFrame env i buff = some f ∧ EchoReply buff.payload f.payload 0 := by
  obtain ⟨f, hf, hpacket, hsame⟩ := @EchoRequest.frame env s i 0 buff h hheader
  obtain ⟨hreply, hcode, -⟩ := @EchoRequest.turned _ _ _ (env.xrandom 0) h hheader
  obtain ⟨hmac, hsrc, hdst⟩ := @echoHeader_addrs (s.netifs i) buff.payload (env.xrandom 0)
  have hrequest : icmpAt buff.payload = 34 := by rw [icmpAt, hheader]
  have hanswer : icmpAt f.payload = 34 := by
    rw [icmpAt, ipv4HeaderLen, hsame _ (by decide), ← ipv4HeaderLen, echoHeader_headerLen, hheader]
  have hkept : ∀ b, 38 ≤ b → f.payload b = buff.payload b := fun b hb => by
    rw [hsame b (by omega), echoHeader_outside (by omega), icmpOutputHeader_outside (by omega)]
  have haddrs : ∀ a, 26 ≤ a → a + 4 ≤ 36 → ipAt f.payload a
      = ipAt (echoHeader (s.netifs i) buff.payload (env.xrandom 0)) a := fun a ha ha' =>
    ipAt_congr fun b hb hb' => hsame b (by omega)
  refine ⟨f, hf, ?_⟩
  constructor
  case packet => exact hpacket
  case type => rw [hanswer, hsame _ (by decide), hreply]
  case code => rw [hanswer, hsame _ (by decide), hcode]
  case mac => rw [macAt_congr fun b _ hb => hsame b (Or.inl (Nat.lt_trans hb (by decide))), hmac]
  case src => rw [haddrs _ (by decide) (by decide), hsrc, h.dst]
  case dst => rw [haddrs _ (by decide) (by decide), hdst]
  case id => rw [hanswer, hrequest, load16_congr (hkept _ (by decide)) (hkept _ (by decide))]
  case seq => rw [hanswer, hrequest, load16_congr (hkept _ (by decide)) (hkept _ (by decide))]
  case payload => exact fun i hi => absurd hi (Nat.not_lt_zero i)

/-- The answer announces 28 bytes. -/
theorem EchoReply.bare (hrequest : EchoRequest (s.netifs i) buff.payload n)
    (hf : s.echoFrame env i buff = some f) (h : EchoReply buff.payload f.payload n) :
    ipv4HeaderLen buff.payload ipv4Base = 20 ∧ n = 0 := by
  obtain ⟨length, p⟩ := buff
  rw [NetIn.echoFrame] at hf
  split_ifs at hf
  rw [icmpOutput_eq hrequest.packet.proto] at hf
  have hheader : 20 ≤ ipv4HeaderLen p ipv4Base := hrequest.header
  have hproto : (echoHeader (s.netifs i) p (env.xrandom 0) ipv4Proto).toNat = ipTypeIcmp := by
    rw [echoHeader_old (by decide), hrequest.packet.proto]
  have hsame : ∀ b < 24, f.payload b = echoHeader (s.netifs i) p (env.xrandom 0) b := by
    intro b hb
    refine netifSetChecksum_icmp_outside hf hproto (Or.inl hb) (Or.inl ?_)
    have hbase : ipv4Base = 14 := rfl
    rw [icmpAt, echoHeader_headerLen]
    omega
  have htotal := h.packet.total
  rw [beWord_congr (hsame _ (by decide)) (hsame _ (by decide)), echoHeader_total, ipv4HeaderLen,
    hsame _ (by decide), ← ipv4HeaderLen, echoHeader_headerLen] at htotal
  show ipv4HeaderLen p ipv4Base = 20 ∧ n = 0
  omega

/-- A well-formed request gets its echo if and only if it has neither options
nor a payload. -/
theorem icmpInput_echoes_iff (env : NetEnv) (s : NetIn) (i : Nat) (buff : Frame) (n : Nat)
    (h : EchoRequest (s.netifs i) buff.payload n) :
    (∃ f, s.echoFrame env i buff = some f
      ∧ s.icmpInput env i buff = some (s.output f).freeDescBuff
      ∧ EchoReply buff.payload f.payload n)
      ↔ ipv4HeaderLen buff.payload ipv4Base = 20 ∧ n = 0 := by
  constructor
  · rintro ⟨f, hf, -, hreply⟩
    exact hreply.bare h hf
  · rintro ⟨hheader, rfl⟩
    obtain ⟨f, hf, hreply⟩ := h.reply hheader
    exact ⟨f, hf, icmpInput_of_echoFrame hf, hreply⟩

/-- A frame with these bytes. -/
def frameOf (bytes : List (BitVec 8)) : Frame where
  length := bytes.length
  payload := fun b => bytes.getD b 0

/-- A ping of 10.10.10.10 without a payload. -/
def barePing : Frame :=
  frameOf [0x52, 0x52, 0x52, 0x52, 0x52, 0x52, 0x53, 0x53, 0x53, 0x53, 0x53, 0x53, 0x08, 0x00,
    0x45, 0, 0, 0x1C, 0, 0, 0, 0, 0x40, 1, 0x52, 0xC3, 10, 10, 10, 1, 10, 10, 10, 10,
    8, 0, 0xF7, 0xF7, 0, 1, 0, 7]

theorem barePing_request : EchoRequest (aloneNet.netifs 0) barePing.payload 0 := by
  refine ⟨⟨?_, ?_, ?_, ?_, ?_, nofun⟩, ?_, ?_, ?_, ?_, ?_⟩
  all_goals decide

theorem icmpInput_echoes_bare :
    (∃ f, aloneNet.echoFrame silentEnv 0 barePing = some f
      ∧ aloneNet.icmpInput silentEnv 0 barePing = some (aloneNet.output f).freeDescBuff
      ∧ EchoReply barePing.payload f.payload 0)
      ↔ ipv4HeaderLen barePing.payload ipv4Base = 20 ∧ 0 = 0 :=
  icmpInput_echoes_iff silentEnv aloneNet 0 barePing 0 barePing_request

/-- A ping with two bytes of payload. -/
def longPing : Frame :=
  frameOf [0x52, 0x52, 0x52, 0x52, 0x52, 0x52, 0x53, 0x53, 0x53, 0x53, 0x53, 0x53, 0x08, 0x00,
    0x45, 0, 0, 0x1E, 0, 0, 0, 0, 0x40, 1, 0x52, 0xC1, 10, 10, 10, 1, 10, 10, 10, 10,
    8, 0, 0x8F, 0x8E, 0, 1, 0, 7, 0x68, 0x69]

/-- Its answer has none. -/
theorem icmpInput_echoes_fails :
    ¬ ∀ (env : NetEnv) (s : NetIn) (i : Nat) (buff : Frame) (n : Nat),
      EchoRequest (s.netifs i) buff.payload n →
      ∃ f, s.echoFrame env i buff = some f ∧ EchoReply buff.payload f.payload n := by
  intro hall
  have hrequest : EchoRequest (aloneNet.netifs 0) longPing.payload 2 := by
    refine ⟨⟨?_, ?_, ?_, ?_, ?_, nofun⟩, ?_, ?_, ?_, ?_, ?_⟩
    all_goals decide
  obtain ⟨f, hf, hreply⟩ := hall silentEnv aloneNet 0 longPing 2 hrequest
  exact absurd (hreply.bare hrequest hf).2 (by decide)

end Csos
