import Csos.NetDisposal
import Mathlib.Data.Fin.VecNotation

/-!
# The next hop (`kernel_setmac`, `ask_mac`, `arp_build`)

A packet for the interface's own subnet goes to its destination, any other
one to the gateway, and `kernel_setmac` looks for the MAC address of the
one or the other in the ARP map. When the map does not have it an ARP
request goes out, and that is for the destination in both branches.

`NetInput.lean` takes the answer to `ask_mac` from outside; here the
request is built, and the answer is a buffer that `reply_arp_desc_buff`
would leave with it.
-/

namespace Csos

open Lib

/-! ## `arp_build` -/

abbrev arpHwType : Nat := 14

abbrev arpProtoType : Nat := 16

abbrev arpHwSize : Nat := 18

abbrev arpProtoSize : Nat := 19

/-- `sizeof(arp_t)`. -/
abbrev arpSize : Nat := 28

/-- The fields that `arp_build` writes. -/
def arpBuildHeader (netif : Netif) (p : Bytes) (dstIp : IpAddr) : Bytes :=
  let p := p.store16 arpHwType (htons 1)
  let p := p.store8 arpHwSize 6
  let p := p.store16 arpProtoType (htons ethTypeIPv4)
  let p := p.store8 arpProtoSize 4
  let p := p.store16 arpOp (htons arpOpRequest)
  let p := setAddr p arpDstMac (fun _ : Fin 6 => 0)
  let p := setAddr p arpDstIp dstIp
  let p := setAddr p arpSrcMac netif.mac
  setAddr p arpSrcIp netif.ipv4

/-- `arp_build`, up to the call of `netif_output`. -/
def arpBuild (netif : Netif) (buff : Frame) (dstIp : IpAddr) : Option Frame :=
  ethBuild netif { buff with payload := arpBuildHeader netif buff.payload dstIp } broadcastMac
    ethTypeArp none arpSize

/-! ## `kernel_setmac` -/

/-- What `kernel_setmac` looks up in the map and what it sends, and the
address that it leaves in `mac`, if it comes back with one. -/
structure Setmac where
  looked : List IpAddr
  asked : List Frame
  mac : Option MacAddr

/-- The buffer that comes into the field `refp` of a request, if one does. -/
abbrev ArpAnswer := Frame → Option Bytes

/-- `ask_mac`. The first round of its loop waits for the answer, for ever
if none comes. -/
def askMac (netif : Netif) (payload : Bytes) (answer : ArpAnswer) (ip : IpAddr) :
    Nat → List Frame × Option MacAddr
  | 0 => ([], none)
  | _ + 1 =>
      match arpBuild netif ⟨0, payload⟩ ip with
      | some buff => ([buff], (answer buff).map fun rbuff => macAt rbuff arpSrcMac)
      | none => ([], none)

/-- One branch of `kernel_setmac`: look one address up, and ask for another
one. -/
def findOrAsk (arpMap : List (IpAddr × MacAddr)) (netif : Netif) (payload : Bytes)
    (answer : ArpAnswer) (look ask : IpAddr) : Setmac :=
  match findMac arpMap look with
  | some mac => { looked := [look], asked := [], mac := some mac }
  | none =>
      let (asked, mac) := askMac netif payload answer ask 3
      { looked := [look], asked, mac }

/-- `kernel_setmac`, with the payload of the buffer for a request. -/
def kernelSetmac (arpMap : List (IpAddr × MacAddr)) (netif : Netif) (payload : Bytes)
    (answer : ArpAnswer) (ip : IpAddr) : Setmac :=
  if ip = broadcastIp then { looked := [], asked := [], mac := some broadcastMac }
  else
    let mask := ip2uint32 netif.mask
    let ipm := ip2uint32 ip &&& mask
    let selfm := ip2uint32 netif.ipv4 &&& mask
    if ipm = selfm then findOrAsk arpMap netif payload answer ip ip
    else findOrAsk arpMap netif payload answer netif.gw ip

/-! ## The law -/

/-- The address is the interface's own wherever the mask has a bit. -/
def InSubnet (netif : Netif) (ip : IpAddr) : Prop :=
  ∀ k, ip k &&& netif.mask k = netif.ipv4 k &&& netif.mask k

instance (netif : Netif) (ip : IpAddr) : Decidable (InSubnet netif ip) :=
  inferInstanceAs (Decidable (∀ _ : Fin 4, _))

/-- Where a packet for `ip` goes next. -/
def nextHop (netif : Netif) (ip : IpAddr) : IpAddr := if InSubnet netif ip then ip else netif.gw

/-- The frame is an ARP request of the interface for the address. -/
structure IsArpRequest (netif : Netif) (ip : IpAddr) (p : Bytes) : Prop where
  dst : macAt p ethDst = broadcastMac
  src : macAt p ethSrc = netif.mac
  type : p.load16 ethType = htons ethTypeArp
  op : p.load16 arpOp = htons arpOpRequest
  srcMac : macAt p arpSrcMac = netif.mac
  srcIp : ipAt p arpSrcIp = netif.ipv4
  dstIp : ipAt p arpDstIp = ip

/-- An answer comes from the address that the request asks for. -/
def Answers (answer : ArpAnswer) : Prop :=
  ∀ buff rbuff, answer buff = some rbuff → arpReplies rbuff buff.payload

/-- The MAC address for `hop` is looked up, and used if the map has it;
otherwise one request for `hop` goes out, and the MAC address is the one
that the answer from `hop` tells. -/
structure FindsHop (arpMap : List (IpAddr × MacAddr)) (netif : Netif) (answer : ArpAnswer)
    (hop : IpAddr) (r : Setmac) : Prop where
  looked : r.looked = [hop]
  found : ∀ mac, findMac arpMap hop = some mac → r.asked = [] ∧ r.mac = some mac
  asked : findMac arpMap hop = none → ∃ buff, r.asked = [buff] ∧ IsArpRequest netif hop buff.payload
    ∧ ∀ mac, r.mac = some mac → ∃ rbuff, answer buff = some rbuff
        ∧ ipAt rbuff arpSrcIp = hop ∧ macAt rbuff arpSrcMac = mac

/-- Whatever is in the buffer for a request, and whatever answer comes, it
is the next hop that is found. -/
def ResolvesHop (arpMap : List (IpAddr × MacAddr)) (netif : Netif) (ip : IpAddr) : Prop :=
  ∀ payload answer, Answers answer →
    FindsHop arpMap netif answer (nextHop netif ip) (kernelSetmac arpMap netif payload answer ip)

/-! ## Subnets -/

theorem ip2uint32_eq (ip : IpAddr) : ip2uint32 ip = (ipWord ip).toNat := by
  rw [ipWord, BitVec.toNat_append, BitVec.toNat_append, BitVec.toNat_append, ip2uint32]
  simp only [Nat.shiftLeft_or_distrib, ← Nat.shiftLeft_add]

theorem ipWord_and (a b : IpAddr) : ipWord a &&& ipWord b = ipWord fun k => a k &&& b k := by
  rw [ipWord, ipWord, BitVec.and_append, BitVec.and_append, BitVec.and_append, ipWord]

theorem bitVec_append_inj {w v : Nat} {x x' : BitVec w} {y y' : BitVec v}
    (h : x ++ y = x' ++ y') : x = x' ∧ y = y' := by
  constructor
  · rw [← BitVec.extractLsb'_append_eq_left (a := x) (b := y), h,
      BitVec.extractLsb'_append_eq_left]
  · rw [← BitVec.extractLsb'_append_eq_right (a := x) (b := y), h,
      BitVec.extractLsb'_append_eq_right]

theorem ipWord_inj {a b : IpAddr} (h : ipWord a = ipWord b) : a = b := by
  obtain ⟨h, h₃⟩ := bitVec_append_inj h
  obtain ⟨h, h₂⟩ := bitVec_append_inj h
  obtain ⟨h₀, h₁⟩ := bitVec_append_inj h
  exact funext (Fin.forall_fin_succ.mpr ⟨h₀, Fin.forall_fin_succ.mpr ⟨h₁,
    Fin.forall_fin_succ.mpr ⟨h₂, Fin.forall_fin_one.mpr h₃⟩⟩⟩)

/-- The test of `kernel_setmac`. -/
theorem ip2uint32_and_eq_iff (netif : Netif) (ip : IpAddr) :
    ip2uint32 ip &&& ip2uint32 netif.mask = ip2uint32 netif.ipv4 &&& ip2uint32 netif.mask
      ↔ InSubnet netif ip := by
  simp only [ip2uint32_eq, ← BitVec.toNat_and, BitVec.toNat_inj, ipWord_and]
  exact ⟨fun h k => congrFun (ipWord_inj h) k, fun h => congrArg ipWord (funext h)⟩

/-! ## Requests -/

section Requests

variable {arpMap : List (IpAddr × MacAddr)} {netif : Netif} {payload : Bytes} {answer : ArpAnswer}
  {ip : IpAddr}

theorem arpBuildHeader_request (netif : Netif) (ip : IpAddr) (p : Bytes) :
    IsArpRequest netif ip
      (ethHeader netif (arpBuildHeader netif p ip) broadcastMac ethTypeArp) where
  dst := by
    rw [ethHeader, macAt_setAddr_other (Or.inl (by decide)), macAt_setAddr]
  src := macAt_setAddr
  type := by
    rw [ethHeader, load16_setAddr_other (by decide), load16_setAddr_other (by decide),
      Bytes.load16_store16_self (by decide)]
  op := by
    rw [Bytes.load16_congr (ethHeader_outside (by decide)) (ethHeader_outside (by decide)),
      arpBuildHeader, load16_setAddr_other (by decide), load16_setAddr_other (by decide),
      load16_setAddr_other (by decide), load16_setAddr_other (by decide),
      Bytes.load16_store16_self (by decide)]
  srcMac := by
    rw [macAt_congr fun b hb _ => ethHeader_outside (Nat.le_trans (by decide) hb), arpBuildHeader,
      macAt_setAddr_other (by decide), macAt_setAddr]
  srcIp := by
    rw [ipAt_congr fun b hb _ => ethHeader_outside (Nat.le_trans (by decide) hb), arpBuildHeader,
      ipAt_setAddr]
  dstIp := by
    rw [ipAt_congr fun b hb _ => ethHeader_outside (Nat.le_trans (by decide) hb), arpBuildHeader,
      ipAt_setAddr_other (by decide), ipAt_setAddr_other (by decide), ipAt_setAddr]

/-- `eth_build` adds no checksum to an ARP packet. -/
theorem arpBuild_eq (netif : Netif) (ip : IpAddr) (buff : Frame) :
    arpBuild netif buff ip = some ⟨u16 (u16 (buff.length + 14) + arpSize),
      ethHeader netif (arpBuildHeader netif buff.payload ip) broadcastMac ethTypeArp⟩ := by
  have htype : ntohs ((ethHeader netif (arpBuildHeader netif buff.payload ip) broadcastMac
      ethTypeArp).load16 ethType) ≠ ethTypeIPv4 := by
    rw [(arpBuildHeader_request netif ip buff.payload).type]
    decide
  rw [arpBuild, ethBuild, netifSetPayload_none, netifSetChecksum_other htype]

/-- `arp_build` builds a request. -/
theorem arpBuild_request (netif : Netif) (ip : IpAddr) (buff : Frame) :
    ∃ f, arpBuild netif buff ip = some f ∧ IsArpRequest netif ip f.payload :=
  ⟨_, arpBuild_eq netif ip buff, arpBuildHeader_request netif ip buff.payload⟩

/-- And writes nothing behind it. -/
theorem arpBuild_outside {f : Frame} {b : Nat} {buff : Frame} (hb : 42 ≤ b)
    (h : arpBuild netif buff ip = some f) : f.payload b = buff.payload b := by
  rw [arpBuild_eq] at h
  obtain rfl := Option.some.inj h
  show ethHeader netif (arpBuildHeader netif buff.payload ip) broadcastMac ethTypeArp b = _
  rw [ethHeader_outside (Nat.le_trans (by decide) hb)]
  simp (disch := omega) only [arpBuildHeader, arpHwType, arpHwSize, arpProtoType, arpProtoSize,
    arpOp, arpDstMac, arpDstIp, arpSrcMac, arpSrcIp, setAddr_outside, Bytes.store16_outside,
    Bytes.store8_of_ne]

/-- What a branch does, by what the map has. -/
theorem findOrAsk_finds {look : IpAddr} (hanswer : Answers answer) (h : look = ip
    ∨ (findMac arpMap look).isSome) :
    FindsHop arpMap netif answer look (findOrAsk arpMap netif payload answer look ip) := by
  rw [findOrAsk]
  cases hfind : findMac arpMap look with
  | some mac =>
      refine ⟨rfl, fun mac' hmac' => ⟨rfl, hfind.symm.trans hmac'⟩, fun hnone => ?_⟩
      cases hfind.symm.trans hnone
  | none =>
      obtain rfl : look = ip := h.resolve_right (by rw [hfind]; exact Bool.false_ne_true)
      obtain ⟨f, hbuild, hrequest⟩ := arpBuild_request netif look ⟨0, payload⟩
      simp only [askMac, hbuild]
      refine ⟨rfl, fun mac hmac => ?_, fun _ => ⟨f, rfl, hrequest, fun mac hmac => ?_⟩⟩
      · cases hfind.symm.trans hmac
      · obtain ⟨rbuff, hrbuff, hmac⟩ := Option.map_eq_some_iff.mp hmac
        have hreplies := of_decide_eq_true (hanswer f rbuff hrbuff)
        exact ⟨rbuff, hrbuff, hreplies.symm.trans hrequest.dstIp, hmac⟩

/-- A branch that asks for another address than it looks up does not find
the one it looks up. -/
theorem not_findOrAsk_finds {look : IpAddr} (hne : look ≠ ip) (hfind : findMac arpMap look = none) :
    ¬ FindsHop arpMap netif answer look (findOrAsk arpMap netif payload answer look ip) := by
  intro h
  obtain ⟨buff, hasked, hrequest, -⟩ := h.asked hfind
  obtain ⟨f, hbuild, hrequest'⟩ := arpBuild_request netif ip ⟨0, payload⟩
  simp only [findOrAsk, hfind, askMac, hbuild] at hasked
  obtain rfl := (List.cons.inj hasked).1
  exact hne (hrequest.dstIp.symm.trans hrequest'.dstIp)

theorem kernelSetmac_branch (hip : ip ≠ broadcastIp) :
    kernelSetmac arpMap netif payload answer ip
      = findOrAsk arpMap netif payload answer (nextHop netif ip) ip := by
  rw [kernelSetmac, if_neg hip, nextHop]
  simp only [ip2uint32_and_eq_iff]
  split <;> rfl

/-- The MAC address is the one that `NetIn.kernelSetmac` has, when the
answer is the same. -/
theorem kernelSetmac_mac {s : NetIn} {env : NetEnv} {i : Nat}
    (h : env.askMac i ip = (askMac (s.netifs i) payload answer ip 3).2) :
    (kernelSetmac s.arpMap (s.netifs i) payload answer ip).mac = s.kernelSetmac env i ip := by
  have hbranch : ∀ look, (findOrAsk s.arpMap (s.netifs i) payload answer look ip).mac
      = (findMac s.arpMap look).orElse fun _ => env.askMac i ip := by
    intro look
    rw [findOrAsk, h]
    cases findMac s.arpMap look <;> rfl
  rw [kernelSetmac, NetIn.kernelSetmac]
  dsimp only
  split
  · rfl
  · split <;> exact hbranch _

/-- The next hop is looked up and asked for exactly when the destination is
in the subnet, or the map has the gateway, or this is the destination. -/
theorem resolvesHop_iff (hip : ip ≠ broadcastIp) : ResolvesHop arpMap netif ip
    ↔ InSubnet netif ip ∨ (findMac arpMap netif.gw).isSome ∨ ip = netif.gw := by
  constructor
  · intro h
    by_contra hnot
    rw [not_or, not_or] at hnot
    obtain ⟨hsubnet, hfind, hgw⟩ := hnot
    have hfinds := h (fun _ => 0) (fun _ => none) (fun _ _ hnone => nomatch hnone)
    rw [kernelSetmac_branch hip, nextHop, if_neg hsubnet] at hfinds
    exact not_findOrAsk_finds (Ne.symm hgw) (Option.not_isSome_iff_eq_none.mp hfind) hfinds
  · intro h payload answer hanswer
    rw [kernelSetmac_branch hip]
    refine findOrAsk_finds hanswer ?_
    rw [nextHop]
    by_cases hsubnet : InSubnet netif ip
    · rw [if_pos hsubnet]
      exact Or.inl rfl
    · rw [if_neg hsubnet]
      rcases h with hin | hfind | hgw
      · exact absurd hin hsubnet
      · exact Or.inr hfind
      · exact Or.inl hgw.symm

end Requests

/-- A card in the network 192.168.1.0/24, whose gateway is 192.168.1.1. -/
def homeNetif : Netif where
  mac := fun _ => 2
  ipv4 := ![192, 168, 1, 5]
  mask := ![255, 255, 255, 0]
  gw := ![192, 168, 1, 1]
  dhcpIpv4 := fun _ => 0
  dhcpMask := fun _ => 0
  dhcpGw := fun _ => 0
  status := .ack

/-- A neighbour is asked for itself. -/
theorem resolvesHop_neighbour : ResolvesHop [] homeNetif ![192, 168, 1, 9] :=
  (resolvesHop_iff (by decide)).mpr (Or.inl (by decide))

/-- The map is empty, and a host elsewhere is asked for, not the gateway. -/
theorem resolvesHop_fails :
    ¬ ∀ (arpMap : List (IpAddr × MacAddr)) (netif : Netif) (ip : IpAddr), ip ≠ broadcastIp →
      ResolvesHop arpMap netif ip := by
  intro hall
  have hfinds := hall [] homeNetif ![8, 8, 8, 8] (by decide) (fun _ => 0) (fun _ => none)
    fun _ _ hnone => nomatch hnone
  rw [kernelSetmac_branch (by decide), nextHop, if_neg (by decide)] at hfinds
  exact not_findOrAsk_finds (by decide) rfl hfinds

end Csos
