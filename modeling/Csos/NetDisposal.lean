import Csos.NetChecksum
import Csos.NetInput

/-!
# What becomes of a received packet

A received buffer is disposed of when exactly one thing happens to it. A
handler may also lose a buffer, when nothing happens to it, or free one
that it has already passed on. For each handler there is the condition
under which it disposes of the buffer: then every state that it returns
has one disposal more, and where the condition fails the handler does
return, with none or with two more.
-/

namespace Csos

open Lib

/-! ## Exactly one disposal -/

/-- The buffer has been freed once and is nowhere else, or it has not been
freed and is in exactly one place. -/
def Disposed (log : List Disposal) : Prop :=
  (log.count .freed = 1 ∧ log.count .queued = 0 ∧ log.count .stored = 0)
    ∨ (log.count .freed = 0 ∧ log.count .queued + log.count .stored = 1)

theorem length_eq_counts (log : List Disposal) :
    log.length = log.count .freed + log.count .queued + log.count .stored := by
  induction log with
  | nil => rfl
  | cons d log ih => cases d <;> simp [ih] <;> omega

theorem disposed_iff {log : List Disposal} : Disposed log ↔ log.length = 1 := by
  rw [length_eq_counts, Disposed]
  omega

/-- The handler disposes of the buffer in every state that it returns. -/
def Disposes (s : NetIn) (result : Option NetIn) : Prop :=
  ∀ s', result = some s' → s'.disposals.length = s.disposals.length + 1

/-- The handler returns without exactly one disposal. -/
def Mishandles (s : NetIn) (result : Option NetIn) : Prop :=
  ∃ s', result = some s' ∧ s'.disposals.length ≠ s.disposals.length + 1

/-- `handled` decides whether the buffer is disposed of. -/
def Decides (handled : Prop) (s : NetIn) (result : Option NetIn) : Prop :=
  (handled → Disposes s result) ∧ (¬ handled → Mishandles s result)

section Decides

variable {s s' : NetIn} {result : Option NetIn} {handled : Prop}

theorem Decides.of_disposes (h : Disposes s result) (hc : handled) : Decides handled s result :=
  ⟨fun _ => h, fun hn => absurd hc hn⟩

theorem Decides.of_mishandles (h : Mishandles s result) (hc : ¬ handled) :
    Decides handled s result :=
  ⟨fun hh => absurd hh hc, fun _ => h⟩

theorem Decides.ite {p : Prop} [Decidable p] {a b : Prop} {x y : Option NetIn}
    (hx : p → Decides a s x) (hy : ¬ p → Decides b s y) :
    Decides (if p then a else b) s (if p then x else y) := by
  by_cases hp : p
  · simp only [if_pos hp]
    exact hx hp
  · simp only [if_neg hp]
    exact hy hp

theorem Decides.iff (h : Decides handled s result) : Disposes s result ↔ handled := by
  refine ⟨fun hd => ?_, h.1⟩
  by_contra hn
  obtain ⟨s', heq, hne⟩ := h.2 hn
  exact hne (hd s' heq)

theorem Disposes.some (hs : s'.disposals.length = s.disposals.length + 1) :
    Disposes s (some s') := by
  rintro _ ⟨⟩
  exact hs

theorem Mishandles.some (hs : s'.disposals.length ≠ s.disposals.length + 1) :
    Mishandles s (some s') := ⟨s', rfl, hs⟩

end Decides

/-! ## The steps -/

section Steps

variable {env : NetEnv} {s s' : NetIn} {sock netif : Nat} {buff buff' : Frame}

theorem freeDescBuff_length : s.freeDescBuff.disposals.length = s.disposals.length + 1 :=
  List.length_append

theorem output_length : (s.output buff).disposals.length = s.disposals.length + 1 := by
  rw [NetIn.output, List.length_append, NetIn.netifOutput]
  split <;> rfl

/-- Sending only adds to the buffers that wait. -/
theorem netifOutput_frame : (s.netifOutput buff).1.netifs = s.netifs
    ∧ (s.netifOutput buff).1.sockets = s.sockets ∧ (s.netifOutput buff).1.ports = s.ports := by
  rw [NetIn.netifOutput]
  split
  · exact ⟨rfl, rfl, rfl⟩
  · exact ⟨rfl, rfl, rfl⟩

theorem netifOutput_netifs : (s.netifOutput buff).1.netifs = s.netifs := netifOutput_frame.1

theorem output_netifs : (s.output buff).netifs = s.netifs := netifOutput_netifs

theorem output_sockets : (s.output buff).sockets = s.sockets := netifOutput_frame.2.1

theorem output_ports : (s.output buff).ports = s.ports := netifOutput_frame.2.2

theorem replyWith_length {answers : Bytes → Bytes → Bool} :
    (s.replyWith answers netif buff).disposals.length
      = s.disposals.length
        + if (s.waiting netif).any fun tx => answers buff.payload tx.payload then 1 else 0 := by
  rw [NetIn.replyWith]
  split
  · exact List.length_append
  · rfl

theorem tcpAck_length (h : s.tcpAck env sock buff = some (s', buff')) :
    s'.disposals.length = s.disposals.length + 1 := by
  rw [NetIn.tcpAck] at h
  obtain ⟨f, hf, heq⟩ := Option.bind_eq_some_iff.mp h
  cases heq
  exact output_length

/-- The second buffer is not the received one. -/
theorem copyFinack_disposals (h : s.copyFinack env sock buff = some s') :
    s'.disposals = s.disposals := by
  rw [NetIn.copyFinack] at h
  obtain ⟨fresh, -, h⟩ := Option.bind_eq_some_iff.mp h
  obtain ⟨dstMac, -, h⟩ := Option.bind_eq_some_iff.mp h
  obtain ⟨f, -, heq⟩ := Option.bind_eq_some_iff.mp h
  cases heq
  rw [NetIn.netifOutput]
  split <;> rfl

theorem tcpSynack_disposes : Disposes s (s.tcpSynack env sock buff) := by
  intro s' h
  rw [NetIn.tcpSynack] at h
  obtain ⟨dstMac, -, h⟩ := Option.bind_eq_some_iff.mp h
  obtain ⟨f, -, heq⟩ := Option.bind_eq_some_iff.mp h
  cases heq
  exact output_length

theorem dhcpRequest_disposes : Disposes s (s.dhcpRequest env netif buff) := by
  intro s' h
  rw [NetIn.dhcpRequest] at h
  obtain ⟨dstMac, -, h⟩ := Option.bind_eq_some_iff.mp h
  obtain ⟨f, -, heq⟩ := Option.bind_eq_some_iff.mp h
  cases heq
  exact output_length

end Steps

/-! ## The way out returns -/

section Returns

variable {p : Bytes} {length : Nat} {netif : Netif} {buff : Frame}

theorem netifSetPayload_none {dlen : Nat} :
    netifSetPayload buff none dlen = { buff with length := u16 (buff.length + dlen) } := by
  rw [netifSetPayload]
  simp only [memcpyInto, ite_self]

theorem netifSetChecksum_other (h : ntohs (p.load16 ethType) ≠ ethTypeIPv4) {dlen : Nat} :
    netifSetChecksum ⟨length, p⟩ dlen = some ⟨length, p⟩ := by
  rw [netifSetChecksum]
  exact if_neg h

/-- Both checksums of an ICMP message are sums of at most a few words. -/
theorem netifSetChecksum_icmp_returns (h : (p ipv4Proto).toNat = ipTypeIcmp) :
    ∃ f, netifSetChecksum ⟨length, p⟩ 0 = some f := by
  have hlen : ipv4HeaderLen p ipv4Base < 0x10000 := by
    have hlt := (p ipv4Base &&& 0x0F).isLt
    rw [ipv4HeaderLen]
    omega
  have hproto : ∀ v, ((p.store16 ipv4Checksum v) ipv4Proto).toNat = ipTypeIcmp := fun v => by
    rw [Bytes.store16_outside (by decide), h]
  rw [netifSetChecksum]
  split
  · simp only [calcChecksum_eq hlen, Option.bind_eq_bind, Option.bind_some, hproto, if_true]
    split
    · rw [calcChecksum_eq (by decide)]
      exact ⟨_, rfl⟩
    · exact ⟨_, rfl⟩
  · exact ⟨_, rfl⟩

theorem ethOutput_arp_returns (h : ntohs (p.load16 ethType) = ethTypeArp) :
    ∃ f, ethOutput netif ⟨length, p⟩ none 0 = some f := by
  have htype : ntohs ((setAddr (setAddr p ethDst (macAt p ethSrc)) ethSrc netif.mac).load16 ethType)
      ≠ ethTypeIPv4 := by
    rw [Bytes.load16, setAddr_outside (by decide), setAddr_outside (by decide),
      setAddr_outside (by decide), setAddr_outside (by decide), ← Bytes.load16, h]
    decide
  rw [ethOutput, netifSetPayload_none, netifSetChecksum_other htype]
  exact ⟨_, rfl⟩

theorem arpOutput_returns (h : ntohs (p.load16 ethType) = ethTypeArp) :
    ∃ f, arpOutput netif ⟨length, p⟩ = some f := by
  refine ethOutput_arp_returns ?_
  simp (disch := decide) only [arpOutputHeader, Bytes.load16, setAddr_outside,
    Bytes.store16_outside]
  rw [← Bytes.load16, h]

theorem icmpOutput_returns (h : (p ipv4Proto).toNat = ipTypeIcmp) {random : Nat} :
    ∃ f, icmpOutput netif ⟨length, p⟩ random none 0 = some f := by
  have hproto : icmpOutputHeader p ipv4Proto = p ipv4Proto := by
    rw [icmpOutputHeader]
    split
    · rw [Bytes.store16_outside (by decide), Bytes.store8_of_ne (by decide),
        Bytes.store8_of_ne (by decide)]
    · rw [Bytes.store16_outside (by decide)]
  have hicmp : ¬ ((icmpOutputHeader p ipv4Proto).toNat = ipTypeTcp
      ∧ tcpFlagsAt (icmpOutputHeader p) = flagsAck) := by
    rw [hproto, h]
    exact fun hc => absurd hc.1 (by decide)
  rw [icmpOutput, ipv4Output]
  simp only [if_neg hicmp]
  rw [ethOutput, netifSetPayload_none]
  refine netifSetChecksum_icmp_returns ?_
  simp (disch := decide) only [ipv4OutputHeader, setAddr_outside, Bytes.store16_outside,
    Bytes.store8_of_ne]
  rw [hproto, h]

end Returns

/-! ## TCP -/

/-- An ACK is freed in one state only. -/
def AckHandled (s : NetIn) (sock : Nat) (flags : Nat) : Prop :=
  flags = flagsAck ∧ (s.sockets sock).state = .finWait1

def TcpUpHandled (s : NetIn) (sock : Nat) (flags : Nat) : Prop :=
  flags = flagsSynAck ∨ flags = flagsFinAck ∨ flags = flagsPshAck ∨ AckHandled s sock flags

def TcpListenHandled (s : NetIn) (sock : Nat) (flags : Nat) : Prop :=
  flags = flagsFinAck ∨ flags = flagsPshAck ∨ flags = flagsSyn ∨ AckHandled s sock flags

/-- The segments that `tcp_input` disposes of. -/
def TcpHandled (s : NetIn) (p : Bytes) : Prop :=
  match (s.portOf p).status with
  | .up => TcpUpHandled s (s.portOf p).sock (tcpFlagsAt (hostFlags p))
  | .listen => TcpListenHandled s (s.portOf p).sock (tcpFlagsAt (hostFlags p))
  | _ => True

section Tcp

variable {env : NetEnv} {s : NetIn} {sock : Nat} {buff : Frame} {p : Bytes}

theorem tcpAck_disposes : Disposes s (do let (s, _) ← s.tcpAck env sock buff; return s) := by
  intro s' h
  obtain ⟨⟨s₁, f⟩, hack, heq⟩ := Option.bind_eq_some_iff.mp h
  cases heq
  exact tcpAck_length hack

theorem tcpAck_copyFinack_disposes (f : NetIn → Frame → NetIn)
    (hf : ∀ s buff, (f s buff).disposals = s.disposals) :
    Disposes s (do
      let (s, buff) ← s.tcpAck env sock buff
      (f s buff).copyFinack env sock buff) := by
  intro s' h
  obtain ⟨⟨s₁, buff₁⟩, hack, h⟩ := Option.bind_eq_some_iff.mp h
  rw [copyFinack_disposals h, hf]
  exact tcpAck_length hack

theorem tcpReset_mishandles : Mishandles s (some (s.tcpReset sock)) :=
  .some (Nat.ne_of_lt (Nat.lt_succ_self _))

theorem tcpAcked_decides :
    Decides ((s.sockets sock).state = .finWait1) s (some (s.tcpAcked sock p)) := by
  rw [NetIn.tcpAcked]
  cases hstate : (s.sockets sock).state with
  | finWait1 => exact .of_disposes (.some freeDescBuff_length) rfl
  | _ => exact .of_mishandles (.some (Nat.ne_of_lt (Nat.lt_succ_self _))) nofun

/-- What both ports do with an ACK and with the flags that they ignore. -/
theorem ack_decides {flags : Nat} :
    Decides (AckHandled s sock flags) s
      (if flags = flagsAck then some (s.tcpAcked sock p) else some s) := by
  by_cases hack : flags = flagsAck
  · simp only [AckHandled, hack, true_and]
    exact tcpAcked_decides
  · rw [if_neg hack]
    exact .of_mishandles (.some (Nat.ne_of_lt (Nat.lt_succ_self _))) fun hc => hack hc.1

theorem tcpInputUp_decides :
    Decides (TcpUpHandled s sock (tcpFlagsAt buff.payload)) s (s.tcpInputUp env sock buff) := by
  rw [NetIn.tcpInputUp, TcpUpHandled]
  generalize tcpFlagsAt buff.payload = flags
  by_cases hsyn : flags = flagsSynAck
  · rw [if_pos hsyn]
    exact .of_disposes tcpAck_disposes (Or.inl hsyn)
  rw [if_neg hsyn]
  by_cases hfin : flags = flagsFinAck
  · rw [if_pos hfin]
    refine .of_disposes ?_ (Or.inr (Or.inl hfin))
    exact tcpAck_copyFinack_disposes (fun s buff => s.notePorts sock buff.payload) fun _ _ => rfl
  rw [if_neg hfin]
  by_cases hrst : flags = flagsRstAck
  · rw [if_pos hrst]
    refine .of_mishandles tcpReset_mishandles ?_
    rw [hrst]
    rintro (h | h | h | ⟨h, -⟩) <;> exact absurd h (by decide)
  rw [if_neg hrst]
  by_cases hpsh : flags = flagsPshAck
  · rw [if_pos hpsh]
    exact .of_disposes tcpAck_disposes (Or.inr (Or.inr (Or.inl hpsh)))
  rw [if_neg hpsh]
  simp only [hsyn, hfin, hpsh, false_or]
  exact ack_decides

theorem tcpInputListen_fin_disposes :
    Disposes s (match (s.sockets sock).state with
      | .established => do
          let (s, buff) ← s.tcpAck env sock buff
          s.copyFinack env sock buff
      | .closeWait => do
          let (s, _) ← s.tcpAck env sock buff
          return s
      | _ => return s.freeDescBuff) := by
  cases (s.sockets sock).state with
  | established => exact tcpAck_copyFinack_disposes (fun s _ => s) fun _ _ => rfl
  | closeWait => exact tcpAck_disposes
  | _ => exact .some freeDescBuff_length

theorem tcpInputListen_decides :
    Decides (TcpListenHandled s sock (tcpFlagsAt buff.payload)) s
      (s.tcpInputListen env sock buff) := by
  rw [NetIn.tcpInputListen, TcpListenHandled]
  generalize tcpFlagsAt buff.payload = flags
  by_cases hfin : flags = flagsFinAck
  · rw [if_pos hfin]
    exact .of_disposes tcpInputListen_fin_disposes (Or.inl hfin)
  rw [if_neg hfin]
  by_cases hrst : flags = flagsRstAck
  · rw [if_pos hrst]
    refine .of_mishandles tcpReset_mishandles ?_
    rw [hrst]
    rintro (h | h | h | ⟨h, -⟩) <;> exact absurd h (by decide)
  rw [if_neg hrst]
  by_cases hpsh : flags = flagsPshAck
  · rw [if_pos hpsh]
    exact .of_disposes tcpAck_disposes (Or.inr (Or.inl hpsh))
  rw [if_neg hpsh]
  by_cases hsyn : flags = flagsSyn
  · rw [if_pos hsyn]
    exact .of_disposes tcpSynack_disposes (Or.inr (Or.inr (Or.inl hsyn)))
  rw [if_neg hsyn]
  simp only [hsyn, hfin, hpsh, false_or]
  exact ack_decides

theorem tcpInput_decides :
    Decides (TcpHandled s buff.payload) s (s.tcpInput env buff) := by
  rw [NetIn.tcpInput, TcpHandled]
  cases (s.portOf buff.payload).status with
  | up => exact @tcpInputUp_decides env s _ { buff with payload := hostFlags buff.payload }
  | listen => exact @tcpInputListen_decides env s _ { buff with payload := hostFlags buff.payload }
  | _ => exact .of_disposes (.some freeDescBuff_length) trivial

end Tcp

/-! ## DHCP, ICMP and ARP -/

/-- A DHCP message that becomes a request, or whose options have no end. -/
def DhcpHandled (p : Bytes) : Prop :=
  p dhcpOp = 2 ∧ dhcpMessage p optionFuel dhcpOptions ≠ some none
    ∧ dhcpMessage p optionFuel dhcpOptions ≠ some (some .ack)

/-- An echo request is both sent back and freed, and an echo reply both
stored and freed. -/
def IcmpHandled (s : NetIn) (netif : Nat) (p : Bytes) : Prop :=
  p icmpType ≠ 8
    ∧ (p icmpType = 0 → ∀ tx ∈ s.waiting netif, icmpReplies p tx.payload = false)

/-- An ARP reply that nobody waits for is lost, and a request for the
address of the interface both answered and freed. -/
def ArpHandled (s : NetIn) (netif : Nat) (p : Bytes) : Prop :=
  (ntohs (p.load16 arpOp) = arpOpReply → ∃ tx ∈ s.waiting netif, arpReplies p tx.payload)
    ∧ (ntohs (p.load16 arpOp) = arpOpRequest → ipAt p arpDstIp ≠ (s.netifs netif).ipv4)

section Protocols

variable {env : NetEnv} {s : NetIn} {netif : Nat} {buff : Frame}

/-- A handler that returns the state as far as disposals go. -/
theorem Mishandles.unchanged {s' : NetIn} (h : s'.disposals = s.disposals) :
    Mishandles s (Option.some s') := by
  refine .some ?_
  rw [h]
  exact Nat.ne_of_lt (Nat.lt_succ_self _)

theorem dhcpInput_decides :
    Decides (DhcpHandled buff.payload) s (s.dhcpInput env netif buff) := by
  rw [NetIn.dhcpInput, DhcpHandled]
  by_cases hop : buff.payload dhcpOp = 2
  swap
  · simp only [if_neg hop]
    exact .of_mishandles (.unchanged rfl) fun hc => hop hc.1
  simp only [if_pos hop]
  cases hmsg : dhcpMessage buff.payload optionFuel dhcpOptions with
  | none => exact .of_disposes nofun ⟨hop, nofun, nofun⟩
  | some message =>
      cases message with
      | none => exact .of_mishandles (.unchanged rfl) fun hc => hc.2.1 rfl
      | some type =>
          cases type with
          | ack => exact .of_mishandles (.unchanged rfl) fun hc => hc.2.2 rfl
          | offer =>
              refine .of_disposes (fun s' h => ?_) ⟨hop, nofun, nofun⟩
              obtain ⟨_, heq, h⟩ := Option.bind_eq_some_iff.mp h
              cases heq
              obtain ⟨n, -, h⟩ := Option.bind_eq_some_iff.mp h
              exact @dhcpRequest_disposes env (s.setNetif netif n) netif buff s' h

theorem icmpInput_decides (hproto : (buff.payload ipv4Proto).toNat = ipTypeIcmp) :
    Decides (IcmpHandled s netif buff.payload) s (s.icmpInput env netif buff) := by
  rw [NetIn.icmpInput, IcmpHandled]
  by_cases hreq : buff.payload icmpType = 8
  · simp only [if_pos hreq]
    obtain ⟨f, hf⟩ := icmpOutput_returns hproto
    refine .of_mishandles ⟨(s.output f).freeDescBuff, ?_, ?_⟩ fun hc => hc.1 hreq
    · rw [hf]
      rfl
    · rw [freeDescBuff_length, output_length]
      omega
  simp only [if_neg hreq]
  by_cases hrep : buff.payload icmpType = 0
  · simp only [if_pos hrep]
    by_cases hany : (s.waiting netif).any fun tx => icmpReplies buff.payload tx.payload
    · refine .of_mishandles (.some ?_) fun hc => ?_
      · rw [freeDescBuff_length, replyWith_length, if_pos hany]
        omega
      · obtain ⟨tx, hmem, htx⟩ := List.any_eq_true.mp hany
        exact absurd htx (by rw [hc.2 hrep tx hmem]; decide)
    · refine .of_disposes (.some ?_) ⟨hreq, fun _ tx hmem => ?_⟩
      · rw [freeDescBuff_length, replyWith_length, if_neg hany]
      · exact Bool.eq_false_iff.mpr fun htx => hany (List.any_eq_true.mpr ⟨tx, hmem, htx⟩)
  · simp only [if_neg hrep]
    exact .of_disposes (.some freeDescBuff_length) ⟨hreq, fun hc => absurd hc hrep⟩

theorem arpInput_decides (htype : ntohs (buff.payload.load16 ethType) = ethTypeArp) :
    Decides (ArpHandled s netif buff.payload) s (s.arpInput netif buff) := by
  rw [NetIn.arpInput, ArpHandled]
  generalize hop : ntohs (buff.payload.load16 arpOp) = op
  by_cases hrep : op = arpOpReply
  · have hreq : ¬ op = arpOpRequest := by
      rw [hrep]
      decide
    simp only [if_pos hrep]
    by_cases hany : (s.waiting netif).any fun tx => arpReplies buff.payload tx.payload
    · refine .of_disposes (.some ?_) ⟨fun _ => List.any_eq_true.mp hany, fun hc => absurd hc hreq⟩
      rw [replyWith_length]
      exact congrArg _ (if_pos hany)
    · refine .of_mishandles (.some ?_) fun hc => hany (List.any_eq_true.mpr (hc.1 hrep))
      rw [replyWith_length]
      have hz : (if (s.waiting netif).any fun tx => arpReplies buff.payload tx.payload then 1 else 0)
          = 0 := if_neg hany
      rw [NetIn.putArpMap, hz]
      exact Nat.ne_of_lt (Nat.lt_succ_self _)
  simp only [if_neg hrep]
  by_cases hreq : op = arpOpRequest
  swap
  · simp only [if_neg hreq]
    exact .of_disposes (.some freeDescBuff_length)
      ⟨fun hc => absurd hc hrep, fun hc => absurd hc hreq⟩
  simp only [if_pos hreq]
  by_cases hip : ipAt buff.payload arpDstIp = (s.netifs netif).ipv4
  · simp only [if_pos hip]
    obtain ⟨f, hf⟩ := arpOutput_returns htype
    refine .of_mishandles ⟨((s.output f).putArpMap f.payload).freeDescBuff, ?_, ?_⟩
      fun hc => hc.2 hreq hip
    · rw [hf]
      rfl
    · rw [freeDescBuff_length, NetIn.putArpMap, output_length]
      omega
  · simp only [if_neg hip]
    exact .of_disposes (.some freeDescBuff_length) ⟨fun hc => absurd hc hrep, fun _ => hip⟩

end Protocols

/-! ## `ipv4_input` and `eth_input` -/

def Ipv4Handled (s : NetIn) (netif : Nat) (p : Bytes) : Prop :=
  if (p ipv4Proto).toNat = ipTypeIcmp then IcmpHandled s netif p
  else if (p ipv4Proto).toNat = ipTypeTcp then TcpHandled s p
  else if (p ipv4Proto).toNat = ipTypeUdp then isDhcp p → DhcpHandled p
  else True

/-- The frames that `eth_input` disposes of: of those for this interface,
none with the type of IPv6 or of the configuration test, and of the others
those that the protocol handles. -/
def Handled (s : NetIn) (netif : Nat) (p : Bytes) : Prop :=
  isFor (s.netifs netif) p →
    if ntohs (p.load16 ethType) = ethTypeArp then ArpHandled s netif p
    else if ntohs (p.load16 ethType) = ethTypeIPv4 then Ipv4Handled s netif p
    else ntohs (p.load16 ethType) ≠ ethTypeIPv6 ∧ ntohs (p.load16 ethType) ≠ ethTypeTest

section Input

variable {env : NetEnv} {s : NetIn} {netif : Nat} {buff : Frame}

theorem udpInput_decides :
    Decides (isDhcp buff.payload → DhcpHandled buff.payload) s (s.udpInput env netif buff) := by
  rw [NetIn.udpInput]
  by_cases hdhcp : isDhcp buff.payload
  · rw [if_pos hdhcp, imp_iff_right hdhcp]
    exact dhcpInput_decides
  · rw [if_neg hdhcp]
    exact .of_disposes (.some freeDescBuff_length) fun hc => absurd hc hdhcp

theorem ipv4Input_decides :
    Decides (Ipv4Handled s netif buff.payload) s (s.ipv4Input env netif buff) :=
  .ite icmpInput_decides fun _ =>
    .ite (fun _ => tcpInput_decides) fun _ =>
      .ite (fun _ => udpInput_decides) fun _ =>
        .of_disposes (.some freeDescBuff_length) trivial

theorem ethInput_decides :
    Decides (Handled s netif buff.payload) s (s.ethInput env netif buff) := by
  rw [NetIn.ethInput, Handled]
  by_cases hfor : isFor (s.netifs netif) buff.payload
  swap
  · rw [if_neg hfor]
    exact .of_disposes (.some freeDescBuff_length) fun hc => absurd hc hfor
  rw [if_pos hfor, imp_iff_right hfor]
  refine .ite arpInput_decides fun _ => .ite (fun _ => ipv4Input_decides) fun _ => ?_
  generalize ntohs (buff.payload.load16 ethType) = type
  by_cases hv6 : type = ethTypeIPv6
  · rw [if_pos hv6]
    exact .of_mishandles (.unchanged rfl) fun hc => hc.1 hv6
  rw [if_neg hv6]
  by_cases htest : type = ethTypeTest
  · rw [if_pos htest]
    exact .of_mishandles (.unchanged rfl) fun hc => hc.2 htest
  · rw [if_neg htest]
    exact .of_disposes (.some freeDescBuff_length) ⟨hv6, htest⟩

end Input

/-- A received buffer is disposed of exactly once by every call of
`eth_input` that returns if and only if its frame is one of those that
`Handled` describes. -/
theorem ethInput_disposes (env : NetEnv) (s : NetIn) (netif : Nat) (buff : Frame)
    (hs : s.disposals = []) :
    (∀ s', s.ethInput env netif buff = some s' → Disposed s'.disposals)
      ↔ Handled s netif buff.payload := by
  rw [← (@ethInput_decides env s netif buff).iff, Disposes, hs]
  exact forall₂_congr fun _ _ => disposed_iff

/-! ## Two frames -/

/-- A card with the address 10.10.10.10 and nothing else. -/
def aloneNet : NetIn where
  netifs := fun _ => testNetif
  netifCount := 1
  sockets := fun _ =>
    { socktype := .client, state := .closed, srcp := 0, dstp := 0, dipv4 := fun _ => 0
      seq := 0, ack := 0, netif := 0 }
  ports := fun _ => { status := .down, ptype := .unk, pid := 0, sock := 0 }
  arpMap := []
  waiting := fun _ => []
  disposals := []

/-- No answer to an ARP request, and no second buffer. -/
def silentEnv : NetEnv where
  askMac := fun _ _ => none
  xrandom := fun _ => 0
  descBuff := none

/-- A broadcast ARP request for 10.10.10.10, or for 10.10.10.11. -/
def arpRequestFor (last : BitVec 8) : Frame where
  length := 42
  payload := fun b =>
    ([0xFF, 0xFF, 0xFF, 0xFF, 0xFF, 0xFF, 0x52, 0x53, 0x54, 0x55, 0x56, 0x57, 0x08, 0x06,
      0x00, 0x01, 0x08, 0x00, 0x06, 0x04, 0x00, 0x01, 0x52, 0x53, 0x54, 0x55, 0x56, 0x57,
      10, 10, 10, 1, 0, 0, 0, 0, 0, 0, 10, 10, 10, last] : List (BitVec 8))[b]?.getD 0

/-- A request for another address is freed. -/
theorem ethInput_disposes_other :
    ∃ s', aloneNet.ethInput silentEnv 0 (arpRequestFor 11) = some s' ∧ Disposed s'.disposals := by
  have hret : (aloneNet.ethInput silentEnv 0 (arpRequestFor 11)).isSome := by decide +kernel
  obtain ⟨s', heq⟩ := Option.isSome_iff_exists.mp hret
  have hhandled : Handled aloneNet 0 (arpRequestFor 11).payload := by
    intro _
    refine ⟨fun h => ?_, fun _ => by decide⟩
    exact absurd h (by decide)
  exact ⟨s', heq,
    (ethInput_disposes silentEnv aloneNet 0 (arpRequestFor 11) rfl).mpr hhandled s' heq⟩

/-- A request for the card's own address is answered, so that its buffer
waits for being sent, and then freed. -/
theorem ethInput_disposes_fails : ¬ ∀ (env : NetEnv) (s : NetIn) (netif : Nat) (buff : Frame),
    s.disposals = [] → ∀ s', s.ethInput env netif buff = some s' → Disposed s'.disposals := by
  intro hall
  have hlog : (aloneNet.ethInput silentEnv 0 (arpRequestFor 10)).map NetIn.disposals
      = some [.queued, .freed] := by decide +kernel
  obtain ⟨s', heq, hs'⟩ := Option.map_eq_some_iff.mp hlog
  have hdisposed := hall silentEnv aloneNet 0 (arpRequestFor 10) rfl s' heq
  rw [hs', disposed_iff] at hdisposed
  exact absurd hdisposed (by decide)

end Csos
