import Csos.FrameLength
import Csos.NextHop

/-!
# The room for what is sent (`sys_send`)

`sys_send` puts all it is given into one descriptor buffer: it neither
looks at the length nor sends more than one segment. On the way down the
32-bit length becomes the `uint16_t` that `tcp_build` takes, `total_len`
adds 40 to it in 16 bits, and `netif_set_payload` copies that many bytes
behind the headers, where the half page of the buffer has room for 1980.
-/

namespace Csos

open Lib Lib.Bytes

/-! ## The frames -/

namespace NetIn

variable (env : NetEnv) (s : NetIn)

/-- The frames that `sys_send` passes to `netif_output`. -/
def sentFrames (sock : Nat) (data : Option Bytes) (len : Nat) : List Frame :=
  if (s.sockets sock).state ≠ .established then [] else (s.sendSegment env sock data len).toList

/-- `netif_output`, of one frame after the other. -/
def netifOutputs (frames : List Frame) : NetIn :=
  frames.foldl (fun s buff => (s.netifOutput buff).1) s

end NetIn

/-- The new buffer, if there is one, holds these bytes. -/
def NetEnv.withPayload (env : NetEnv) (payload : Bytes) : NetEnv :=
  { env with descBuff := env.descBuff.map fun _ => payload }

section Frames

variable {env : NetEnv} {s s' : NetIn} {sock len : Nat} {data : Option Bytes} {f : Frame}
  {result : Int} {payload : Bytes}

/-- Nothing else happens to the network. -/
theorem sysSend_outputs (h : s.sysSend env sock data len = some (s', result)) :
    s' = s.netifOutputs (s.sentFrames env sock data len) := by
  rw [NetIn.sysSend] at h
  rw [NetIn.sentFrames]
  split at h
  case isTrue hstate =>
    rw [if_pos hstate]
    exact (congrArg Prod.fst (Option.some.inj h)).symm
  case isFalse hstate =>
    obtain ⟨f, hf, heq⟩ := Option.map_eq_some_iff.mp h
    rw [if_neg hstate, hf]
    exact (congrArg Prod.fst heq).symm

theorem sysSend_established (hstate : (s.sockets sock).state = .established) :
    s.sysSend env sock data len
      = (s.sendSegment env sock data len).map fun buff => ((s.netifOutput buff).1, 0) :=
  if_neg (not_not_intro hstate)

theorem sentFrames_established (hstate : (s.sockets sock).state = .established) :
    s.sentFrames env sock data len = (s.sendSegment env sock data len).toList :=
  if_neg (not_not_intro hstate)

end Frames

/-! ## The payload of a segment -/

section Payload

variable {netif : Netif} {dstMac : MacAddr} {random len dlen length b : Nat} {dstIp : IpAddr}
  {p data : Bytes} {f : Frame}

/-- The payload of a segment goes behind both headers. -/
theorem netifSetPayload_tcp (h : Ready p ipTypeTcp len) :
    netifSetPayload ⟨length, p⟩ (some data) dlen
      = ⟨u16 (length + dlen), p.copy tcpPayload data dlen⟩ := by
  rw [netifSetPayload]
  simp only [ntohs_load16, h.type, if_true, h.headerLen, h.proto]
  rfl

/-- From the payload on, a segment is what was there, with the payload
copied over it. -/
theorem ipv4Build_payload (hlen : 20 + 20 + dlen < 0x10000) (hb : tcpPayload ≤ b)
    (h : ipv4Build netif ⟨length, p⟩ dstMac random dstIp ipTypeTcp (some data) dlen 0 = some f) :
    f.payload b = p.copy tcpPayload data dlen b := by
  have htotal : ipv4BuildLen ipTypeTcp dlen 0 = 20 + (20 + dlen) := by
    have hu16 : u16 (20 + 20 + dlen + 0) = 20 + (20 + dlen) := by
      rw [u16]
      omega
    exact hu16
  have hready := @headers_ready p ipTypeTcp (20 + dlen) netif dstMac random (20 + (20 + dlen)) dstIp
    (by decide) (by omega) rfl
  have hheaders : ethHeader netif (ipv4Header netif p random dstIp ipTypeTcp (20 + (20 + dlen)))
      dstMac ethTypeIPv4 b = p b := by
    rw [ethHeader_outside (Nat.le_trans (by decide) hb),
      ipv4Header_outside (Nat.le_trans (by decide) hb)]
  rw [ipv4Build, htotal, ethBuild] at h
  dsimp only at h
  rw [netifSetPayload_tcp hready] at h
  generalize ethHeader netif (ipv4Header netif p random dstIp ipTypeTcp (20 + (20 + dlen)))
    dstMac ethTypeIPv4 = q at h hready hheaders
  have hcopied : Ready (q.copy tcpPayload data dlen) ipTypeTcp (20 + dlen) :=
    hready.congr fun b _ hb => copy_outside (Or.inl (Nat.lt_of_lt_of_le hb (by decide)))
  have hbehind : ipv4Base + ipv4HeaderLen (q.copy tcpPayload data dlen) ipv4Base
      + checksumOffset (q.copy tcpPayload data dlen ipv4Proto).toNat + 2 ≤ b := by
    rw [hcopied.headerLen, hcopied.proto]
    exact Nat.le_trans (by decide) hb
  rw [(netifSetChecksum_frame h).2 b (Or.inr (Nat.le_trans (by decide) hb)) (Or.inr hbehind), copy,
    copy, hheaders]

theorem tcpBuild_payload {socket : Socket} (hlen : 20 + 20 + dlen < 0x10000) (hb : tcpPayload ≤ b)
    (h : tcpBuild netif socket ⟨length, p⟩ dstMac random (some data) dlen = some f) :
    f.payload b = p.copy tcpPayload data dlen b := by
  rw [tcpBuild] at h
  rw [ipv4Build_payload hlen hb h, copy, copy]
  have hb' : 54 ≤ b := hb
  simp (disch := omega) only [tcpHeaderEnd, tcpSrcPort, tcpDstPort, tcpSeqNum, tcpAckNum, tcpFlags,
    tcpWindowSize, tcpChecksum, tcpUrgentPointer, store16_outside, store32_outside]

end Payload

/-! ## The law -/

/-- The first `n` bytes. -/
def firstBytes (data : Bytes) (n : Nat) : List (BitVec 8) := (List.range n).map data

@[simp] theorem length_firstBytes {data : Bytes} {n : Nat} : (firstBytes data n).length = n := by
  rw [firstBytes, List.length_map, List.length_range]

theorem lies_firstBytes {p data : Bytes} {a n : Nat} :
    Lies p a (firstBytes data n) ↔ ∀ i < n, p (a + i) = data i := by
  rw [Lies, length_firstBytes]
  refine forall₂_congr fun i hi => ?_
  rw [firstBytes, List.getD_eq_getElem?_getD, List.getElem?_map, List.getElem?_range hi]
  rfl

/-- The frame is a segment with these bytes behind its headers, and
`total_len` counts them all. -/
structure Carries (f : Frame) (chunk : List (BitVec 8)) : Prop where
  ihl : f.payload ipv4Ihl = 0x45
  proto : (f.payload ipv4Proto).toNat = ipTypeTcp
  offset : ntohs (f.payload.load16 tcpFlags) >>> 12 = 20 / 4
  total : f.payload.beWord ipv4TotalLen = 20 + 20 + chunk.length
  length : f.length = tcpPayload + chunk.length
  data : Lies f.payload tcpPayload chunk

/-- `sys_send` returns -1 or hands on exactly the `len` bytes, in any number
of segments, and no byte behind the half page of a buffer is written,
whatever is there: not behind the segments, and not behind the ARP request
that may go before them. -/
structure SendsWhole (env : NetEnv) (s : NetIn) (sock : Nat) (data : Bytes) (len : Nat) :
    Prop where
  returns : ∀ payload, ∃ result,
    s.sysSend (env.withPayload payload) sock (some data) len = some
        (s.netifOutputs (s.sentFrames (env.withPayload payload) sock (some data) len), result)
      ∧ (result = -1 ∨ ∃ chunks, List.Forall₂ Carries
          (s.sentFrames (env.withPayload payload) sock (some data) len) chunks
            ∧ chunks.flatten = firstBytes data len)
  inside : ∀ payload, ∀ f ∈ s.sentFrames (env.withPayload payload) sock (some data) len,
    ∀ b, descBuffRoom ≤ b → f.payload b = payload b
  request : ∀ payload f, arpBuild (s.netifs (s.sockets sock).netif) ⟨0, payload⟩
    (s.sockets sock).dipv4 = some f → ∀ b, descBuffRoom ≤ b → f.payload b = payload b

/-- There is a buffer to be had, and the MAC address for the peer. -/
structure CanSend (env : NetEnv) (s : NetIn) (sock : Nat) : Prop where
  buffer : env.descBuff.isSome
  hop : (s.kernelSetmac env (s.sockets sock).netif (s.sockets sock).dipv4).isSome

section Law

variable {env : NetEnv} {s : NetIn} {sock len : Nat} {data payload : Bytes} {f : Frame}

theorem withPayload_kernelSetmac {i : Nat} {ip : IpAddr} :
    s.kernelSetmac (env.withPayload payload) i ip = s.kernelSetmac env i ip := rfl

/-- A segment is built in the new buffer. -/
theorem sendSegment_eq_some
    (h : s.sendSegment (env.withPayload payload) sock (some data) len = some f) :
    CanSend env s sock ∧ ∃ dstMac, tcpBuild (s.netifs (s.sockets sock).netif) (s.sockets sock)
      ⟨0, payload⟩ dstMac (env.xrandom 0) (some data) (u16 len) = some f := by
  rw [NetIn.sendSegment] at h
  obtain ⟨p, hp, h⟩ := Option.bind_eq_some_iff.mp h
  obtain ⟨dstMac, hmac, h⟩ := Option.bind_eq_some_iff.mp h
  obtain ⟨old, hold, rfl⟩ := Option.map_eq_some_iff.mp hp
  rw [withPayload_kernelSetmac] at hmac
  exact ⟨⟨Option.isSome_of_mem hold, Option.isSome_of_mem hmac⟩, dstMac, h⟩

theorem CanSend.sendSegment (h : CanSend env s sock) (hlen : u16 len + 2 ≤ 0x10000) :
    ∃ f, s.sendSegment (env.withPayload payload) sock (some data) len = some f := by
  obtain ⟨old, hold⟩ := Option.isSome_iff_exists.mp h.buffer
  obtain ⟨dstMac, hmac⟩ := Option.isSome_iff_exists.mp h.hop
  obtain ⟨f, hf⟩ := @tcpBuild_returns (s.netifs (s.sockets sock).netif) dstMac (env.xrandom 0)
    (u16 len) (some data) (s.sockets sock) ⟨0, payload⟩ hlen
  refine ⟨f, ?_⟩
  rw [NetIn.sendSegment, withPayload_kernelSetmac, hmac, NetEnv.withPayload, hold]
  exact hf

/-- One segment has to carry everything, and stay in the room. -/
theorem sendsWhole_iff_segment (hstate : (s.sockets sock).state = .established) :
    SendsWhole env s sock data len ↔ ∀ payload, ∃ f,
      s.sendSegment (env.withPayload payload) sock (some data) len = some f
        ∧ Carries f (firstBytes data len) ∧ ∀ b, descBuffRoom ≤ b → f.payload b = payload b := by
  constructor
  · intro h payload
    obtain ⟨result, hsend, hresult⟩ := h.returns payload
    rw [sysSend_established hstate] at hsend
    obtain ⟨f, hf, heq⟩ := Option.map_eq_some_iff.mp hsend
    have hframes : s.sentFrames (env.withPayload payload) sock (some data) len = [f] := by
      rw [sentFrames_established hstate, hf, Option.toList_some]
    have hinside := h.inside payload f (by rw [hframes]; exact List.mem_singleton_self f)
    rcases hresult with hminus | ⟨chunks, hchunks, hflatten⟩
    · cases (congrArg Prod.snd heq).trans hminus
    · rw [hframes] at hchunks
      cases hchunks with
      | cons hcarries hnil =>
          cases hnil
          rw [List.flatten_singleton] at hflatten
          exact ⟨f, hf, hflatten ▸ hcarries, hinside⟩
  · intro h
    constructor
    case returns =>
      intro payload
      obtain ⟨f, hf, hcarries, -⟩ := h payload
      have hsend : s.sysSend (env.withPayload payload) sock (some data) len
          = some ((s.netifOutput f).1, 0) := by
        rw [sysSend_established hstate, hf, Option.map_some]
      refine ⟨0, ?_, Or.inr ⟨[firstBytes data len], ?_, ?_⟩⟩
      · rw [← sysSend_outputs hsend, hsend]
      · rw [sentFrames_established hstate, hf, Option.toList_some]
        exact List.Forall₂.cons hcarries List.Forall₂.nil
      · exact List.flatten_singleton
    case inside =>
      intro payload f hf b hb
      obtain ⟨f', hf', -, hinside⟩ := h payload
      rw [sentFrames_established hstate, hf', Option.toList_some] at hf
      obtain rfl := List.mem_singleton.mp hf
      exact hinside b hb
    case request =>
      intro payload f hf b hb
      exact arpBuild_outside (Nat.le_trans (by decide) hb) hf

/-- A segment that fits carries everything. -/
theorem sendSegment_carries (hlen : tcpPayload + len ≤ descBuffRoom)
    (h : s.sendSegment (env.withPayload payload) sock (some data) len = some f) :
    Carries f (firstBytes data len) ∧ ∀ b, descBuffRoom ≤ b → f.payload b = payload b := by
  have hroom : 54 + len ≤ 2034 := hlen
  have hu16 : u16 len = len := Nat.mod_eq_of_lt (by omega)
  obtain ⟨hheaded, hfields⟩ := sendSegment_fields h
  obtain ⟨hlength, htotal⟩ := @IpBuild.lengths _ s f (.tcpBuild sock (some data) len) h
  obtain ⟨-, dstMac, hbuild⟩ := sendSegment_eq_some h
  rw [hu16] at hbuild
  have hpayload : ∀ b, tcpPayload ≤ b → f.payload b = payload.copy tcpPayload data len b :=
    fun b hb => tcpBuild_payload (by omega) hb hbuild
  have hcount : (IpBuild.tcpBuild sock (some data) len).totalLen = 20 + 20 + len := by
    rw [IpBuild.totalLen, hu16, u16]
    omega
  refine ⟨?_, fun b hb => ?_⟩
  · constructor
    case ihl => exact hheaded.ihl
    case proto => exact hheaded.proto
    case offset =>
      rw [hfields.word]
      decide
    case total => rw [htotal, hcount, length_firstBytes]
    case length =>
      rw [hlength, hcount, length_firstBytes, u16]
      show (0 + 14 + (20 + 20 + len)) % 0x10000 = 54 + len
      omega
    case data =>
      refine lies_firstBytes.mpr fun i hi => ?_
      rw [hpayload _ (Nat.le_add_right ..), copy_inside (Nat.le_add_right ..) (by omega),
        Nat.add_sub_cancel_left]
  · rw [hpayload b (Nat.le_trans (by decide) hb), copy_outside (Or.inr (Nat.le_trans hlen hb))]

/-- Nothing but a segment in one buffer is ever sent. -/
theorem SendsWhole.fits (hstate : (s.sockets sock).state = .established)
    (h : SendsWhole env s sock data len) : tcpPayload + len ≤ descBuffRoom := by
  rw [sendsWhole_iff_segment hstate] at h
  obtain ⟨f, hf, hcarries, hinside⟩ := h fun _ => 0
  obtain ⟨f', hf', hcarries', hinside'⟩ := h fun _ => 1
  by_contra hlt
  have hlong : 1980 < len := by
    have hroom : ¬ 54 + len ≤ 2034 := hlt
    omega
  -- The byte at 1980 of the buffer is the first one behind the half page.
  have hzero : data 1980 = 0 :=
    (lies_firstBytes.mp hcarries.data 1980 hlong).symm.trans (hinside _ (Nat.le_refl _))
  have hone : data 1980 = 1 :=
    (lies_firstBytes.mp hcarries'.data 1980 hlong).symm.trans (hinside' _ (Nat.le_refl _))
  exact absurd (hzero.symm.trans hone) (by decide)

/-- On a connected socket the call sends all of the buffer, and stays in the
half page, exactly when the bytes fit behind the headers, and there is a
buffer and a way to the peer. -/
theorem sendsWhole_iff (env : NetEnv) (s : NetIn) (sock : Nat) (data : Bytes) (len : Nat)
    (hstate : (s.sockets sock).state = .established) :
    SendsWhole env s sock data len
      ↔ CanSend env s sock ∧ tcpPayload + len ≤ descBuffRoom := by
  constructor
  · intro h
    obtain ⟨f, hf, -⟩ := (sendsWhole_iff_segment hstate).mp h fun _ => 0
    exact ⟨(sendSegment_eq_some hf).1, h.fits hstate⟩
  · rintro ⟨hcan, hlen⟩
    refine (sendsWhole_iff_segment hstate).mpr fun payload => ?_
    have hreturns : u16 len + 2 ≤ 0x10000 := by
      have hroom : 54 + len ≤ 2034 := hlen
      rw [u16]
      omega
    obtain ⟨f, hf⟩ := @CanSend.sendSegment env s sock len data payload hcan hreturns
    exact ⟨f, hf, sendSegment_carries hlen hf⟩

end Law

/-- The largest buffer that is sent. -/
theorem sendsWhole_largest :
    SendsWhole SendRun.blankEnv SendRun.connectedNet 0 (fun b => BitVec.ofNat 8 b) 1980 :=
  (sendsWhole_iff _ _ 0 _ 1980 rfl).mpr ⟨⟨rfl, by decide⟩, by decide⟩

/-- With 65537 bytes one is sent, and the call returns 0. -/
theorem sendsWhole_fails :
    ¬ ∀ (env : NetEnv) (s : NetIn) (sock : Nat) (data : Bytes) (len : Nat), len < 0x100000000 →
      (s.sockets sock).state = .established → SendsWhole env s sock data len := by
  intro hall
  have hwhole := hall SendRun.blankEnv SendRun.connectedNet 0 (fun _ => 0) 65537 (by decide) rfl
  exact absurd (hwhole.fits rfl) (by decide)

end Csos
