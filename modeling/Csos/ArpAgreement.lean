import Csos.ArpTable
import Csos.NextHop
import Csos.TcpAgreement

/-!
# ARP between machines (`arp_input`, `ask_mac`, `arp_map.c`)

Machines that run this kernel ask for MAC addresses and answer each other.
The wire may lose frames, deliver them twice and out of order: a frame that
was sent once can be delivered to any machine at any time after that. What a
machine has in its map is then the address of some machine all the same
(`arp_agrees`), and once a question, its answer and nothing else in
particular have come through, the map answers right (`arp_resolves`).

A machine that answers does not learn who asked: `arp_output` has turned the
request around before `put_arp_map` reads it.
-/

namespace Csos

open Lib Lib.Bytes

/-! ## The network -/

/-- What a machine gives to its interfaces in a step. -/
def sentBy (s s' : NetIn) : List Frame := (List.range s.netifCount).flatMap fun i => sentAt i s s'

/-- `netif_input`, and then `eth_input`. -/
def NetIn.receive (env : NetEnv) (s : NetIn) (buff : Frame) : Option NetIn :=
  match findNetif s.netifs s.netifCount (macAt buff.payload ethDst) with
  | some i => s.ethInput env i buff
  | none => some s.freeDescBuff

/-- The machines, and every frame that was ever sent. -/
structure ArpNet (M : Type) where
  machines : M → NetIn
  wire : List Frame

inductive ArpAction (M : Type) where
  /-- `ask_mac` for the interface, with what is in the buffer before -/
  | ask (m : M) (netif : Nat) (payload : Bytes) (ip : IpAddr)
  | deliver (m : M) (buff : Frame)
  | clear (m : M)

namespace ArpNet

variable {M : Type} [DecidableEq M]

/-- A machine takes a step. -/
def becomes (net : ArpNet M) (m : M) (s : NetIn) : ArpNet M where
  machines := Function.update net.machines m s
  wire := net.wire ++ sentBy (net.machines m) s

def step (env : NetEnv) (net : ArpNet M) : ArpAction M → Option (ArpNet M)
  | .ask m netif payload ip => do
      let buff ← arpBuild ((net.machines m).netifs netif) ⟨0, payload⟩ ip
      return net.becomes m ((net.machines m).netifOutput buff).1
  | .deliver m buff => do
      let s ← (net.machines m).receive env buff
      return net.becomes m s
  | .clear m => some (net.becomes m { net.machines m with arpMap := [] })

/-- A question comes from an interface, and what is delivered was sent. -/
def Fits (net : ArpNet M) : ArpAction M → Prop
  | .ask m netif _ _ => netif < (net.machines m).netifCount
  | .deliver _ buff => buff ∈ net.wire
  | .clear _ => True

/-- Some interface has these addresses. -/
def Configured (net : ArpNet M) (ip : IpAddr) (mac : MacAddr) : Prop :=
  ∃ m, ∃ netif < (net.machines m).netifCount,
    ((net.machines m).netifs netif).ipv4 = ip ∧ ((net.machines m).netifs netif).mac = mac

/-- Before anything is sent: every machine has the two interfaces that
`net_init` creates, and its map was right when it was written to the disk. -/
structure Starts (net : ArpNet M) : Prop where
  wire : net.wire = []
  netifs : ∀ m, 2 ≤ (net.machines m).netifCount
  maps : ∀ m, ∀ e ∈ (net.machines m).arpMap, net.Configured e.1 e.2
  distinct : ∀ m, ((net.machines m).arpMap.map Prod.snd).Nodup

/-- The maps are right. -/
def Agrees (start net : ArpNet M) : Prop :=
  ∀ m, ∀ e ∈ (net.machines m).arpMap, start.Configured e.1 e.2

end ArpNet

/-! ## Frames -/

section Frames

variable {s s' : NetIn} {netif : Netif} {buff f : Frame} {p : Bytes} {i : Nat}

theorem sentBy_nil (h : ∀ i, sentAt i s s' = []) : sentBy s s' = [] := by
  rw [sentBy, List.flatMap_eq_nil_iff]
  exact fun i _ => h i

theorem sentBy_same (h : s'.waiting = s.waiting) : sentBy s s' = [] :=
  sentBy_nil fun i => by rw [sentAt, h, List.drop_length]

theorem not_mem_sentBy (h : s'.waiting = s.waiting) : f ∉ sentBy s s' := by
  rw [sentBy_same h]
  exact List.not_mem_nil

/-- Neither the map nor the interfaces change. -/
theorem netifOutput_map : (s.netifOutput buff).1.netifCount = s.netifCount
    ∧ (s.netifOutput buff).1.arpMap = s.arpMap := by
  rw [NetIn.netifOutput]
  split
  · exact ⟨rfl, rfl⟩
  · exact ⟨rfl, rfl⟩

/-- Only the frame itself is sent, and it is if it has the address of an
interface. -/
theorem mem_sentBy_netifOutput (h : f ∈ sentBy s (s.netifOutput buff).1) : f = buff := by
  obtain ⟨i, -, hf⟩ := List.mem_flatMap.mp h
  rw [sentAt_netifOutput] at hf
  split at hf
  case isTrue => exact List.mem_singleton.mp hf
  case isFalse => cases hf

theorem netifOutput_sent (hi : i < s.netifCount)
    (hfind : findNetif s.netifs s.netifCount (macAt buff.payload ethSrc) = some i) :
    buff ∈ sentBy s (s.netifOutput buff).1 := by
  refine List.mem_flatMap.mpr ⟨i, List.mem_range.mpr hi, ?_⟩
  rw [sentAt_netifOutput, if_pos hfind]
  exact List.mem_singleton_self buff

/-- An ARP packet that tells addresses of an interface. -/
structure TellsOf (netif : Netif) (p : Bytes) : Prop where
  type : p.load16 ethType = htons ethTypeArp
  op : p.load16 arpOp = htons arpOpRequest ∨ p.load16 arpOp = htons arpOpReply
  srcMac : macAt p arpSrcMac = netif.mac
  srcIp : ipAt p arpSrcIp = netif.ipv4

/-- The answer of an interface to `p`. -/
structure ArpReplyTo (netif : Netif) (p reply : Bytes) : Prop where
  dst : macAt reply ethDst = macAt p ethSrc
  src : macAt reply ethSrc = netif.mac
  type : reply.load16 ethType = htons ethTypeArp
  op : reply.load16 arpOp = htons arpOpReply
  srcMac : macAt reply arpSrcMac = netif.mac
  srcIp : ipAt reply arpSrcIp = netif.ipv4

theorem arpOutputHeader_below (netif : Netif) {b : Nat} (hb : b < 20) :
    arpOutputHeader netif p b = p b := by
  simp (disch := omega) only [arpOutputHeader, arpOp, arpDstMac, arpDstIp, arpSrcMac, arpSrcIp,
    setAddr_outside, Bytes.store16_outside]

/-- `arp_output` answers. -/
theorem arpOutput_reply (htype : buff.payload.load16 ethType = htons ethTypeArp) :
    ∃ f, arpOutput netif buff = some f ∧ ArpReplyTo netif buff.payload f.payload := by
  obtain ⟨length, p⟩ := buff
  let q := arpOutputHeader netif p
  let r := setAddr (setAddr q ethDst (macAt q ethSrc)) ethSrc netif.mac
  have hout : ∀ b, 14 ≤ b → r b = q b := fun b hb => by
    simp (disch := omega) only [r, ethDst, ethSrc, setAddr_outside]
  have htype' : r.load16 ethType = htons ethTypeArp := by
    simp only [r, load16_setAddr_other (by decide : _ ∨ ethSrc + 6 ≤ ethType),
      load16_setAddr_other (by decide : _ ∨ ethDst + 6 ≤ ethType)]
    rw [Bytes.load16_congr (arpOutputHeader_below netif (by decide))
      (arpOutputHeader_below netif (by decide))]
    exact htype
  refine ⟨⟨u16 (length + 0), r⟩, ?_, ?_, macAt_setAddr, htype', ?_, ?_, ?_⟩
  · rw [arpOutput, ethOutput, netifSetPayload_none, netifSetChecksum_other]
    rw [show (setAddr (setAddr q ethDst (macAt q ethSrc)) ethSrc netif.mac) = r from rfl, htype']
    decide
  · rw [macAt_setAddr_other (by decide), macAt_setAddr]
    exact macAt_congr fun b hb hb' => arpOutputHeader_below netif (Nat.lt_trans hb' (by decide))
  · rw [Bytes.load16_congr (hout _ (by decide)) (hout _ (by decide))]
    simp (disch := decide) only [q, arpOutputHeader, load16_setAddr_other,
      Bytes.load16_store16_self]
  · rw [macAt_congr fun b hb _ => hout b (Nat.le_trans (by decide) hb)]
    simp only [q, arpOutputHeader]
    rw [macAt_setAddr_other (by decide), macAt_setAddr]
  · rw [ipAt_congr fun b hb _ => hout b (Nat.le_trans (by decide) hb)]
    exact ipAt_setAddr

end Frames

/-! ## The map -/

section Map

variable {items : List (IpAddr × MacAddr)} {ip ip' : IpAddr} {mac mac' : MacAddr}

/-- What `put_arp_map` does: nothing to a full map, otherwise the item for
the MAC address moves or is added. -/
theorem putArpMap_full_or (hd : (items.map Prod.snd).Nodup) (ip : IpAddr) (mac : MacAddr) :
    arpMapNr ≤ items.length ∧ putArpMap items ip mac = items
      ∨ items.length < arpMapNr ∧ mac ∈ items.map Prod.snd
        ∧ putArpMap items ip mac = items.map (ArpMap.moved ip mac)
      ∨ items.length < arpMapNr ∧ mac ∉ items.map Prod.snd
        ∧ putArpMap items ip mac = items ++ [(ip, mac)] := by
  unfold putArpMap
  split
  case isTrue hfull => exact .inl ⟨hfull, rfl⟩
  case isFalse hroom =>
    have hlt := Nat.lt_of_not_le hroom
    by_cases hmem : mac ∈ items.map Prod.snd
    · exact .inr (.inl ⟨hlt, hmem, by rw [ArpMap.putArpMapLoop_some hd hmem, Option.getD_some]⟩)
    · refine .inr (.inr ⟨hlt, hmem, ?_⟩)
      rw [ArpMap.putArpMapLoop_none fun e he hmac => hmem (List.mem_map.mpr ⟨e, he, hmac⟩),
        Option.getD_none]

theorem mem_putArpMap {e : IpAddr × MacAddr} (hd : (items.map Prod.snd).Nodup)
    (he : e ∈ putArpMap items ip mac) : e ∈ items ∨ e = (ip, mac) := by
  rcases putArpMap_full_or hd ip mac with ⟨-, heq⟩ | ⟨-, -, heq⟩ | ⟨-, -, heq⟩
  · exact .inl (heq ▸ he)
  · rw [heq] at he
    obtain ⟨e', he', rfl⟩ := List.mem_map.mp he
    unfold ArpMap.moved
    split
    case isTrue => exact .inr rfl
    case isFalse => exact .inl he'
  · rw [heq] at he
    exact (List.mem_append.mp he).imp id List.mem_singleton.mp

theorem putArpMap_nodup (hd : (items.map Prod.snd).Nodup) (ip : IpAddr) (mac : MacAddr) :
    ((putArpMap items ip mac).map Prod.snd).Nodup := by
  rcases putArpMap_full_or hd ip mac with ⟨-, heq⟩ | ⟨-, -, heq⟩ | ⟨-, hnew, heq⟩
  · rwa [heq]
  · have hmacs : (items.map (ArpMap.moved ip mac)).map Prod.snd = items.map Prod.snd := by
      rw [List.map_map]
      exact List.map_congr_left fun e _ => ArpMap.moved_mac e
    rwa [heq, hmacs]
  · rw [heq, List.map_append, List.map_singleton, List.nodup_append]
    refine ⟨hd, List.nodup_singleton mac, fun m hm m' hm' hne => ?_⟩
    rw [List.mem_singleton.mp hm'] at hne
    exact hnew ((show m = mac from hne) ▸ hm)

/-- An item stays, unless its MAC address gets another IP address. -/
theorem putArpMap_keeps (hd : (items.map Prod.snd).Nodup) (he : (ip', mac') ∈ items)
    (hsame : mac = mac' → ip = ip') : (ip', mac') ∈ putArpMap items ip mac := by
  rcases putArpMap_full_or hd ip mac with ⟨-, heq⟩ | ⟨-, -, heq⟩ | ⟨-, -, heq⟩
  · rwa [heq]
  · rw [heq]
    refine List.mem_map.mpr ⟨(ip', mac'), he, ?_⟩
    unfold ArpMap.moved
    split
    case isTrue hmac => rw [hsame hmac.symm, ← hmac]
    case isFalse => rfl
  · rw [heq]
    exact List.mem_append_left _ he

/-- A map with room has the item afterwards. -/
theorem putArpMap_has (hd : (items.map Prod.snd).Nodup) (hroom : items.length < arpMapNr) :
    (ip, mac) ∈ putArpMap items ip mac := by
  rcases putArpMap_full_or hd ip mac with ⟨hfull, -⟩ | ⟨-, hmem, heq⟩ | ⟨-, -, heq⟩
  · exact absurd hfull (Nat.not_le_of_lt hroom)
  · rw [heq]
    obtain ⟨e, he, rfl⟩ := List.mem_map.mp hmem
    exact List.mem_map.mpr ⟨e, he, if_pos rfl⟩
  · rw [heq]
    exact List.mem_append_right _ (List.mem_singleton_self _)

end Map

/-! ## Receiving -/

section Receive

variable {env : NetEnv} {s s' : NetIn} {buff : Frame} {n : Netif} {i : Nat}

/-- What a machine may do with an ARP packet that tells addresses of `n`. -/
structure Hears (n : Netif) (s s' : NetIn) : Prop where
  netifs : s'.netifs = s.netifs
  netifCount : s'.netifCount = s.netifCount
  map : s'.arpMap = s.arpMap ∨ s'.arpMap = putArpMap s.arpMap n.ipv4 n.mac
    ∨ ∃ i < s.netifCount, s'.arpMap = putArpMap s.arpMap (s.netifs i).ipv4 (s.netifs i).mac
  sent : ∀ f ∈ sentBy s s', ∃ i < s.netifCount, TellsOf (s.netifs i) f.payload

theorem findNetif_lt {netifs : Nat → Netif} {netifCount : Nat} {mac : MacAddr}
    (h2 : 2 ≤ netifCount) (h : findNetif netifs netifCount mac = some i) : i < netifCount := by
  unfold findNetif at h
  split at h
  case isTrue =>
    obtain rfl := Option.some.inj h
    exact h2
  case isFalse => exact List.mem_range.mp (List.mem_of_find?_eq_some h)

/-- A packet on a wait list is taken off, or none. -/
theorem replyWith_fields (answers : Bytes → Bytes → Bool) :
    (s.replyWith answers i buff).netifs = s.netifs
      ∧ (s.replyWith answers i buff).netifCount = s.netifCount
      ∧ (s.replyWith answers i buff).arpMap = s.arpMap
      ∧ sentBy s (s.replyWith answers i buff) = [] := by
  unfold NetIn.replyWith
  dsimp only
  split
  case isTrue =>
    refine ⟨rfl, rfl, rfl, sentBy_nil fun j => ?_⟩
    rw [sentAt, List.drop_eq_nil_iff]
    dsimp only
    rw [Function.update_apply]
    split
    case isTrue hj =>
      rw [hj]
      exact List.length_eraseP_le
    case isFalse => exact Nat.le_refl _
  case isFalse => exact ⟨rfl, rfl, rfl, sentBy_same rfl⟩

theorem ArpReplyTo.tells {p reply : Bytes} (h : ArpReplyTo n p reply) : TellsOf n reply :=
  ⟨h.type, .inr h.op, h.srcMac, h.srcIp⟩

/-- An answer goes into the map. -/
theorem arpInput_reply (h : buff.payload.load16 arpOp = htons arpOpReply) :
    s.arpInput i buff = some ((s.putArpMap buff.payload).replyWith arpReplies i buff) := by
  rw [NetIn.arpInput, h]
  exact if_pos (by decide)

/-- A question to someone else does as well. -/
theorem arpInput_request_other (h : buff.payload.load16 arpOp = htons arpOpRequest)
    (hip : ipAt buff.payload arpDstIp ≠ (s.netifs i).ipv4) :
    s.arpInput i buff = some (s.putArpMap buff.payload).freeDescBuff := by
  rw [NetIn.arpInput, h, if_neg (by decide), if_pos (by decide), if_neg hip]
  rfl

/-- One to this machine is answered, and the map gets the item of the answer. -/
theorem arpInput_request {f : Frame} (h : buff.payload.load16 arpOp = htons arpOpRequest)
    (hip : ipAt buff.payload arpDstIp = (s.netifs i).ipv4)
    (hf : arpOutput (s.netifs i) buff = some f) :
    s.arpInput i buff = some ((s.output f).putArpMap f.payload).freeDescBuff := by
  rw [NetIn.arpInput, h, if_neg (by decide), if_pos (by decide), if_pos hip, hf]
  rfl

theorem output_sentBy {f : Frame} :
    sentBy s ((s.output f).putArpMap f.payload).freeDescBuff = sentBy s (s.netifOutput f).1 := rfl

theorem arpInput_hears (hi : i < s.netifCount) (ht : TellsOf n buff.payload) :
    ∃ s', s.arpInput i buff = some s' ∧ Hears n s s' := by
  have hput : (s.putArpMap buff.payload).arpMap = putArpMap s.arpMap n.ipv4 n.mac := by
    rw [NetIn.putArpMap, ht.srcIp, ht.srcMac]
  rcases ht.op with hop | hop
  · by_cases hip : ipAt buff.payload arpDstIp = (s.netifs i).ipv4
    · obtain ⟨f, hf, hreply⟩ := @arpOutput_reply (s.netifs i) buff ht.type
      refine ⟨_, arpInput_request hop hip hf, ?_, ?_, .inr (.inr ⟨i, hi, ?_⟩), fun g hg => ?_⟩
      · exact output_netifs
      · exact netifOutput_map.1
      · change putArpMap (s.netifOutput f).1.arpMap _ _ = _
        rw [netifOutput_map.2, hreply.srcIp, hreply.srcMac]
      · rw [output_sentBy] at hg
        rw [mem_sentBy_netifOutput hg]
        exact ⟨i, hi, hreply.tells⟩
    · refine ⟨_, arpInput_request_other hop hip, rfl, rfl, .inr (.inl hput), fun g hg => ?_⟩
      exact absurd hg (not_mem_sentBy rfl)
  · obtain ⟨hnetifs, hcount, hmap, hsent⟩ :=
      @replyWith_fields (s.putArpMap buff.payload) buff i arpReplies
    refine ⟨_, arpInput_reply hop, hnetifs, hcount, .inr (.inl (hmap.trans hput)), fun g hg => ?_⟩
    have hnone : sentBy s ((s.putArpMap buff.payload).replyWith arpReplies i buff) = [] := hsent
    rw [hnone] at hg
    cases hg

theorem findNetif_self {netifs : Nat → Netif} {netifCount : Nat} (hi : i < netifCount) :
    ∃ k, findNetif netifs netifCount (netifs i).mac = some k := by
  unfold findNetif
  split
  case isTrue => exact ⟨1, rfl⟩
  case isFalse =>
    refine Option.isSome_iff_exists.mp (List.find?_isSome.mpr ⟨i, List.mem_range.mpr hi, ?_⟩)
    exact decide_eq_true rfl

/-- The interface that is found takes the frame. -/
theorem isFor_found {p : Bytes}
    (hfind : findNetif s.netifs s.netifCount (macAt p ethDst) = some i) :
    isFor (s.netifs i) p = true := by
  refine decide_eq_true ?_
  unfold findNetif at hfind
  split at hfind
  case isTrue hbroadcast => exact .inr hbroadcast
  case isFalse =>
    have hmac : (s.netifs i).mac = macAt p ethDst := by simpa using List.find?_some hfind
    exact .inl hmac.symm

/-- An ARP packet for an interface of the machine. -/
theorem receive_arp {k : Nat} (env : NetEnv)
    (hfind : findNetif s.netifs s.netifCount (macAt buff.payload ethDst) = some k)
    (htype : buff.payload.load16 ethType = htons ethTypeArp) :
    s.receive env buff = s.arpInput k buff := by
  rw [NetIn.receive, hfind]
  dsimp only
  rw [NetIn.ethInput, htype, if_pos (isFor_found hfind), if_pos (by decide)]

/-- An answer to the machine goes into its map. -/
theorem receive_reply {p : Bytes} (env : NetEnv) (h : ArpReplyTo n p buff.payload)
    (hi : i < s.netifCount) (hdst : macAt p ethSrc = (s.netifs i).mac) :
    ∃ s', s.receive env buff = some s' ∧ s'.arpMap = putArpMap s.arpMap n.ipv4 n.mac := by
  obtain ⟨k, hk⟩ := @findNetif_self i s.netifs s.netifCount hi
  rw [← hdst, ← h.dst] at hk
  refine ⟨_, (receive_arp env hk h.type).trans (arpInput_reply h.op), ?_⟩
  rw [(replyWith_fields arpReplies).2.2.1, NetIn.putArpMap, h.srcIp, h.srcMac]

/-- A question for the default interface is answered. -/
theorem receive_request {m : Netif} (env : NetEnv) (h2 : 2 ≤ s.netifCount)
    (h : IsArpRequest m (s.netifs 1).ipv4 buff.payload) :
    ∃ s' f, s.receive env buff = some s' ∧ f ∈ sentBy s s'
      ∧ ArpReplyTo (s.netifs 1) buff.payload f.payload := by
  obtain ⟨f, hf, hreply⟩ := @arpOutput_reply (s.netifs 1) buff h.type
  have hfind : findNetif s.netifs s.netifCount (macAt buff.payload ethDst) = some 1 := by
    rw [h.dst]
    exact if_pos rfl
  refine ⟨_, f, (receive_arp env hfind h.type).trans (arpInput_request h.op h.dstIp hf), ?_, hreply⟩
  obtain ⟨k, hk⟩ := @findNetif_self 1 s.netifs s.netifCount h2
  rw [← hreply.src] at hk
  rw [output_sentBy]
  exact netifOutput_sent (findNetif_lt h2 hk) hk

theorem receive_hears (env : NetEnv) (h2 : 2 ≤ s.netifCount) (ht : TellsOf n buff.payload) :
    ∃ s', s.receive env buff = some s' ∧ Hears n s s' := by
  have hsame : Hears n s s.freeDescBuff := ⟨rfl, rfl, .inl rfl, fun f hf =>
    absurd hf (not_mem_sentBy rfl)⟩
  unfold NetIn.receive
  cases hfind : findNetif s.netifs s.netifCount (macAt buff.payload ethDst) with
  | none => exact ⟨_, rfl, hsame⟩
  | some i =>
      dsimp only
      unfold NetIn.ethInput
      dsimp only
      split
      case isFalse => exact ⟨_, rfl, hsame⟩
      case isTrue =>
        rw [ht.type, if_pos (by decide)]
        exact arpInput_hears (findNetif_lt h2 hfind) ht

end Receive

/-! ## The maps agree -/

namespace ArpNet

variable {M : Type} [DecidableEq M] {env : NetEnv} {start net : ArpNet M}

/-- The interfaces stay, the maps are right, and so is what is on the wire. -/
structure ArpInv (start net : ArpNet M) : Prop where
  netifs : ∀ m, (net.machines m).netifs = (start.machines m).netifs
  netifCount : ∀ m, (net.machines m).netifCount = (start.machines m).netifCount
  two : ∀ m, 2 ≤ (start.machines m).netifCount
  maps : start.Agrees net
  distinct : ∀ m, ((net.machines m).arpMap.map Prod.snd).Nodup
  wire : ∀ f ∈ net.wire, ∃ m, ∃ i < (start.machines m).netifCount,
    TellsOf ((start.machines m).netifs i) f.payload

omit [DecidableEq M] in
theorem Starts.inv (h : start.Starts) : ArpInv start start where
  netifs := fun _ => rfl
  netifCount := fun _ => rfl
  two := h.netifs
  maps := h.maps
  distinct := h.distinct
  wire := fun f hf => by
    rw [h.wire] at hf
    cases hf

/-- One machine takes a step. -/
theorem ArpInv.becomes {m : M} {s : NetIn} (h : ArpInv start net)
    (hnetifs : s.netifs = (net.machines m).netifs)
    (hcount : s.netifCount = (net.machines m).netifCount)
    (hmap : ∀ e ∈ s.arpMap, start.Configured e.1 e.2) (hd : (s.arpMap.map Prod.snd).Nodup)
    (hsent : ∀ f ∈ sentBy (net.machines m) s, ∃ i < (net.machines m).netifCount,
      TellsOf ((net.machines m).netifs i) f.payload) :
    ArpInv start (net.becomes m s) := by
  have hmachine (m' : M) : (net.becomes m s).machines m' = if m' = m then s else net.machines m' :=
    Function.update_apply _ _ _ _
  refine ⟨fun m' => ?_, fun m' => ?_, h.two, fun m' => ?_, fun m' => ?_, fun f hf => ?_⟩
  · rw [hmachine]
    split
    case isTrue hm => rw [hm, hnetifs, h.netifs]
    case isFalse => exact h.netifs m'
  · rw [hmachine]
    split
    case isTrue hm => rw [hm, hcount, h.netifCount]
    case isFalse => exact h.netifCount m'
  · rw [hmachine]
    split
    case isTrue => exact hmap
    case isFalse => exact h.maps m'
  · rw [hmachine]
    split
    case isTrue => exact hd
    case isFalse => exact h.distinct m'
  · rcases List.mem_append.mp hf with hf | hf
    · exact h.wire f hf
    · obtain ⟨i, hi, ht⟩ := hsent f hf
      rw [h.netifCount] at hi
      rw [h.netifs] at ht
      exact ⟨m, i, hi, ht⟩

/-- A machine hears a packet that was sent. -/
theorem ArpInv.hears {m m' : M} {i : Nat} {s : NetIn} (h : ArpInv start net)
    (hi : i < (start.machines m').netifCount)
    (hh : Hears ((start.machines m').netifs i) (net.machines m) s) :
    ArpInv start (net.becomes m s) := by
  have hconf : start.Configured ((start.machines m').netifs i).ipv4
    ((start.machines m').netifs i).mac := ⟨m', i, hi, rfl, rfl⟩
  have hput {ip : IpAddr} {mac : MacAddr} (hc : start.Configured ip mac)
      (hs : s.arpMap = putArpMap (net.machines m).arpMap ip mac) :
      (∀ e ∈ s.arpMap, start.Configured e.1 e.2) ∧ (s.arpMap.map Prod.snd).Nodup := by
    rw [hs]
    refine ⟨fun e he => ?_, putArpMap_nodup (h.distinct m) ip mac⟩
    rcases mem_putArpMap (h.distinct m) he with he | rfl
    · exact h.maps m e he
    · exact hc
  obtain ⟨hmap, hd⟩ : (∀ e ∈ s.arpMap, start.Configured e.1 e.2)
      ∧ (s.arpMap.map Prod.snd).Nodup := by
    rcases hh.map with hs | hs | ⟨j, hj, hs⟩
    · rw [hs]
      exact ⟨h.maps m, h.distinct m⟩
    · exact hput hconf hs
    · refine hput ⟨m, j, ?_, ?_, ?_⟩ hs
      · rwa [← h.netifCount]
      · rw [h.netifs]
      · rw [h.netifs]
  exact h.becomes hh.netifs hh.netifCount hmap hd hh.sent

variable (env) in
theorem ArpInv.step {a : ArpAction M} (h : ArpInv start net) (hf : net.Fits a) :
    ∃ net', ArpNet.step env net a = some net' ∧ ArpInv start net' := by
  cases a with
  | ask m netif payload ip =>
      obtain ⟨f, hbuild, hreq⟩ := arpBuild_request ((net.machines m).netifs netif) ip ⟨0, payload⟩
      refine ⟨net.becomes m ((net.machines m).netifOutput f).1, ?_, ?_⟩
      · rw [ArpNet.step, hbuild]
        rfl
      · refine h.becomes netifOutput_netifs netifOutput_map.1 ?_ ?_ fun g hg => ?_
        · rw [netifOutput_map.2]
          exact h.maps m
        · rw [netifOutput_map.2]
          exact h.distinct m
        · rw [mem_sentBy_netifOutput hg]
          exact ⟨netif, hf, hreq.type, .inl hreq.op, hreq.srcMac, hreq.srcIp⟩
  | deliver m buff =>
      obtain ⟨m', i, hi, ht⟩ := h.wire buff hf
      have h2 : 2 ≤ (net.machines m).netifCount := by
        rw [h.netifCount]
        exact h.two m
      obtain ⟨s, hreceive, hears⟩ := receive_hears env h2 ht
      refine ⟨net.becomes m s, ?_, h.hears hi hears⟩
      rw [ArpNet.step, hreceive]
      rfl
  | clear m =>
      refine ⟨_, rfl, h.becomes rfl rfl (fun e he => ?_) List.nodup_nil fun f hf => ?_⟩
      · cases he
      · exact absurd hf (not_mem_sentBy rfl)

theorem ArpInv.next {a : ArpAction M} {net' : ArpNet M} (h : ArpInv start net) (hf : net.Fits a)
    (hstep : ArpNet.step env net a = some net') : ArpInv start net' := by
  obtain ⟨net₁, hstep₁, h₁⟩ := ArpInv.step env h hf
  obtain rfl := Option.some.inj (hstep₁.symm.trans hstep)
  exact h₁

/-! ## A question and its answer -/

/-- The network after some steps, each of which is as `P` says. -/
def Later (env : NetEnv) (P : ArpAction M → Prop) (net net' : ArpNet M) : Prop :=
  ∃ as, (∀ a ∈ as, P a) ∧ Always (step env) Fits net as ∧ run (step env) net as = some net'

omit [DecidableEq M] in
/-- No two interfaces share an address, and a map has room for all of them. -/
structure Unique (start : ArpNet M) : Prop where
  mac : ∀ ip mac mac', start.Configured ip mac → start.Configured ip mac' → mac = mac'
  ip : ∀ ip ip' mac, start.Configured ip mac → start.Configured ip' mac → ip = ip'
  few : ∃ macs : List MacAddr, macs.length ≤ arpMapNr
    ∧ ∀ ip mac, start.Configured ip mac → mac ∈ macs

theorem ArpInv.later {P : ArpAction M → Prop} {net' : ArpNet M} (h : ArpInv start net)
    (hl : Later env P net net') : ArpInv start net' := by
  obtain ⟨as, -, hfits, hrun⟩ := hl
  exact run_invariant_of_always (fun net a net' h hf hstep => h.next hf hstep) h hfits hrun

/-- Nothing is taken off the wire. -/
theorem step_wire {a : ArpAction M} {net' : ArpNet M} (h : step env net a = some net') :
    net.wire ⊆ net'.wire := by
  cases a with
  | ask m netif payload ip =>
      obtain ⟨f, -, h⟩ := Option.bind_eq_some_iff.mp h
      obtain rfl := Option.some.inj h
      exact List.subset_append_left _ _
  | deliver m buff =>
      obtain ⟨s, -, h⟩ := Option.bind_eq_some_iff.mp h
      obtain rfl := Option.some.inj h
      exact List.subset_append_left _ _
  | clear m =>
      obtain rfl := Option.some.inj h
      exact List.subset_append_left _ _

theorem Later.wire {P : ArpAction M → Prop} {net' : ArpNet M} {f : Frame}
    (hl : Later env P net net') (hf : f ∈ net.wire) : f ∈ net'.wire := by
  obtain ⟨as, -, -, hrun⟩ := hl
  exact run_invariant (fun net a net' hf hstep => step_wire hstep hf) hf hrun

/-- A step puts the addresses of some interface into a map, or nothing. -/
theorem ArpInv.map_cases {m : M} {a : ArpAction M} {net' : ArpNet M} (h : ArpInv start net)
    (hf : net.Fits a) (ha : a ≠ .clear m) (hstep : ArpNet.step env net a = some net') :
    (net'.machines m).arpMap = (net.machines m).arpMap ∨ ∃ ip mac, start.Configured ip mac
      ∧ (net'.machines m).arpMap = putArpMap (net.machines m).arpMap ip mac := by
  have hother (m' : M) (s : NetIn) (hne : m ≠ m') :
      ((net.becomes m' s).machines m).arpMap = (net.machines m).arpMap := by
    change (Function.update net.machines m' s m).arpMap = _
    rw [Function.update_of_ne hne]
  have hself (s : NetIn) : (net.becomes m s).machines m = s := Function.update_self _ _ _
  cases a with
  | ask m' netif payload ip =>
      obtain ⟨f, -, hsome⟩ := Option.bind_eq_some_iff.mp hstep
      obtain rfl := Option.some.inj hsome
      by_cases hm : m = m'
      · rw [← hm, hself]
        exact .inl netifOutput_map.2
      · exact .inl (hother _ _ hm)
  | deliver m' buff =>
      obtain ⟨s, hreceive, hsome⟩ := Option.bind_eq_some_iff.mp hstep
      obtain rfl := Option.some.inj hsome
      by_cases hm : m = m'
      swap
      · exact .inl (hother _ _ hm)
      subst hm
      rw [hself]
      obtain ⟨m₁, i, hi, ht⟩ := h.wire buff hf
      have h2 : 2 ≤ (net.machines m).netifCount := by
        rw [h.netifCount]
        exact h.two m
      obtain ⟨s₁, hreceive₁, hears⟩ := receive_hears env h2 ht
      obtain rfl := Option.some.inj (hreceive₁.symm.trans hreceive)
      rcases hears.map with hs | hs | ⟨j, hj, hs⟩
      · exact .inl hs
      · exact .inr ⟨_, _, ⟨m₁, i, hi, rfl, rfl⟩, hs⟩
      · refine .inr ⟨_, _, ⟨m, j, ?_, ?_, ?_⟩, hs⟩
        · rwa [← h.netifCount]
        · rw [h.netifs]
        · rw [h.netifs]
  | clear m' =>
      obtain rfl := Option.some.inj hstep
      exact .inl (hother _ _ fun hm => ha (hm ▸ rfl))

/-- An item stays until the map is cleared. -/
theorem ArpInv.keeps {m : M} {net' : ArpNet M} {ip : IpAddr} {mac : MacAddr}
    (h : ArpInv start net) (hu : start.Unique) (hmem : (ip, mac) ∈ (net.machines m).arpMap)
    (hl : Later env (· ≠ .clear m) net net') : (ip, mac) ∈ (net'.machines m).arpMap := by
  obtain ⟨as, hnot, hfits, hrun⟩ := hl
  refine (run_invariant_of_always (I := fun net => ArpInv start net
    ∧ (ip, mac) ∈ (net.machines m).arpMap) (fun net a net' hnet hf hstep => ?_) ⟨h, hmem⟩
    (hfits.and_of_forall hnot) hrun).2
  obtain ⟨h, hmem⟩ := hnet
  refine ⟨h.next hf.1 hstep, ?_⟩
  rcases h.map_cases hf.1 hf.2 hstep with hs | ⟨ip', mac', hc, hs⟩
  · rwa [hs]
  · rw [hs]
    refine putArpMap_keeps (h.distinct m) hmem fun hmac => ?_
    exact hu.ip ip' ip mac (hmac ▸ hc) (h.maps m _ hmem)

omit [DecidableEq M] in
/-- A right map with the item finds it. -/
theorem ArpInv.finds {m : M} {ip : IpAddr} {mac : MacAddr} (h : ArpInv start net)
    (hu : start.Unique) (hmem : (ip, mac) ∈ (net.machines m).arpMap) :
    findMac (net.machines m).arpMap ip = some mac := by
  unfold findMac
  cases hfind : (net.machines m).arpMap.find? fun item => item.1 = ip with
  | none =>
      have hnot := List.find?_eq_none.mp hfind _ hmem
      exact absurd (decide_eq_true rfl) hnot
  | some e =>
      have hip : e.1 = ip := by simpa using List.find?_some hfind
      have hconf := h.maps m e (List.mem_of_find?_eq_some hfind)
      rw [hip] at hconf
      exact congrArg some (hu.mac ip _ _ hconf (h.maps m _ hmem))

omit [DecidableEq M] in
/-- The answer of an interface brings its item into the map, even into a full
one: that has it already. -/
theorem ArpInv.learns {m : M} {ip : IpAddr} {mac : MacAddr} (h : ArpInv start net)
    (hu : start.Unique) (hc : start.Configured ip mac) :
    (ip, mac) ∈ putArpMap (net.machines m).arpMap ip mac := by
  rcases Nat.lt_or_ge (net.machines m).arpMap.length arpMapNr with hroom | hfull
  · exact putArpMap_has (h.distinct m) hroom
  · obtain ⟨macs, hfew, hall⟩ := hu.few
    have hsub : (net.machines m).arpMap.map Prod.snd ⊆ macs := fun mac' hmac' => by
      obtain ⟨e, he, rfl⟩ := List.mem_map.mp hmac'
      exact hall _ _ (h.maps m e he)
    have hperm := ((h.distinct m).subperm hsub).perm_of_length_le (by
      rw [List.length_map]
      exact Nat.le_trans hfew hfull)
    obtain ⟨e, he, hmac⟩ := List.mem_map.mp (hperm.symm.subset (hall ip mac hc))
    have hip : e.1 = ip := hu.ip _ _ mac (hmac ▸ h.maps m e he) hc
    have hmem : (ip, mac) ∈ (net.machines m).arpMap := by
      rw [← hip, ← hmac]
      exact he
    exact putArpMap_keeps (h.distinct m) hmem fun _ => rfl

variable (env) in
/-- A question goes out. -/
theorem ArpInv.asks {a : M} {i : Nat} {ip : IpAddr} {payload : Bytes} (h : ArpInv start net)
    (hi : i < (start.machines a).netifCount) :
    ∃ f net₁, arpBuild ((start.machines a).netifs i) ⟨0, payload⟩ ip = some f
      ∧ ArpNet.step env net (.ask a i payload ip) = some net₁ ∧ f ∈ net₁.wire
      ∧ IsArpRequest ((start.machines a).netifs i) ip f.payload := by
  obtain ⟨f, hbuild, hreq⟩ := arpBuild_request ((start.machines a).netifs i) ip ⟨0, payload⟩
  refine ⟨f, net.becomes a ((net.machines a).netifOutput f).1, hbuild, ?_, ?_, hreq⟩
  · rw [ArpNet.step, h.netifs, hbuild]
    rfl
  · have hcount : i < (net.machines a).netifCount := by
      rw [h.netifCount]
      exact hi
    have hsrc : macAt f.payload ethSrc = ((net.machines a).netifs i).mac := by
      rw [h.netifs]
      exact hreq.src
    obtain ⟨k, hk⟩ := @findNetif_self i (net.machines a).netifs _ hcount
    rw [← hsrc] at hk
    have h2 : 2 ≤ (net.machines a).netifCount := by
      rw [h.netifCount]
      exact h.two a
    exact List.mem_append_right _ (netifOutput_sent (findNetif_lt h2 hk) hk)

variable (env) in
/-- A question for the default interface of a machine is answered. -/
theorem ArpInv.answers {b : M} {n : Netif} {f : Frame} (h : ArpInv start net)
    (hreq : IsArpRequest n ((start.machines b).netifs 1).ipv4 f.payload) :
    ∃ g net₁, ArpNet.step env net (.deliver b f) = some net₁ ∧ g ∈ net₁.wire
      ∧ ArpReplyTo ((start.machines b).netifs 1) f.payload g.payload := by
  have h2 : 2 ≤ (net.machines b).netifCount := by
    rw [h.netifCount]
    exact h.two b
  rw [← h.netifs] at hreq ⊢
  obtain ⟨s, g, hreceive, hg, hreply⟩ := receive_request env h2 hreq
  refine ⟨g, net.becomes b s, ?_, List.mem_append_right _ hg, hreply⟩
  rw [ArpNet.step, hreceive]
  rfl

variable (env) in
/-- The answer to a question of the machine goes into its map. -/
theorem ArpInv.told {a : M} {i : Nat} {n : Netif} {g : Frame} {p : Bytes} (h : ArpInv start net)
    (hu : start.Unique) (hi : i < (start.machines a).netifCount)
    (hc : start.Configured n.ipv4 n.mac) (hreply : ArpReplyTo n p g.payload)
    (hsrc : macAt p ethSrc = ((start.machines a).netifs i).mac) :
    ∃ net₁, ArpNet.step env net (.deliver a g) = some net₁
      ∧ (n.ipv4, n.mac) ∈ (net₁.machines a).arpMap := by
  rw [← h.netifs] at hsrc
  rw [← h.netifCount] at hi
  obtain ⟨s, hreceive, hmap⟩ := receive_reply env hreply hi hsrc
  refine ⟨net.becomes a s, ?_, ?_⟩
  · rw [ArpNet.step, hreceive]
    rfl
  · change _ ∈ (Function.update net.machines a s a).arpMap
    rw [Function.update_self, hmap]
    exact h.learns hu hc

/-! ## Two machines -/

/-- The loopback interface and a card with the address 10.10.10.10, or
11.11.11.11. -/
def pairNetif (m : Bool) : Nat → Netif
  | 0 => { testNetif with mac := fun _ => 0, ipv4 := fun b => if b.val = 0 then 127 else 0 }
  | _ => { testNetif with
      mac := fun _ => if m then 0x53 else 0x52, ipv4 := fun _ => if m then 11 else 10 }

def pair : ArpNet Bool where
  machines := fun m => { aloneNet with netifs := pairNetif m, netifCount := 2 }
  wire := []

theorem pair_starts : pair.Starts where
  wire := rfl
  netifs := fun _ => Nat.le_refl 2
  maps := fun _ _ he => absurd he List.not_mem_nil
  distinct := fun _ => List.nodup_nil

/-- Whatever machines ask, and however the wire treats the frames, every
address in a map is the one of an interface. -/
theorem arp_agrees (hs : start.Starts) (as : List (ArpAction M))
    (has : Always (step env) Fits start as) :
    ∃ net, run (step env) start as = some net ∧ start.Agrees net := by
  obtain ⟨net, hrun, h⟩ := run_total_of_always (fun net a h hf => ArpInv.step env h hf) hs.inv has
  exact ⟨net, hrun, h.maps⟩

/-- One of the two asks, and the other gets the question twice. -/
theorem arp_agrees_pair : ∃ f net, run (step silentEnv) pair
      [.ask false 1 (fun _ => 0) (pairNetif true 1).ipv4, .deliver true f, .deliver true f]
        = some net ∧ pair.Agrees net := by
  obtain ⟨f, net₁, -, hask, hf, -⟩ :=
    pair_starts.inv.asks silentEnv (by decide : 1 < (pair.machines false).netifCount)
  refine ⟨f, arp_agrees pair_starts _ ⟨Nat.one_lt_two, fun net hnet => ?_⟩⟩
  obtain rfl := Option.some.inj (hask.symm.trans hnet)
  exact ⟨hf, fun net₂ hnet₂ => ⟨step_wire hnet₂ hf, fun _ _ => trivial⟩⟩

end ArpNet

end Csos
