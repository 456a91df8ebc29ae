import Csos.Lib.Run
import Csos.NetDisposal

/-!
# The DHCP client (`kernel32/netx/dhcp.c`)

`dhcp_discover` sends a DISCOVER with a new transaction id, an OFFER is
answered with a REQUEST, and an ACK installs what the last OFFER left in
the interface. Nothing is checked on the way: `dhcp_ack` looks neither at
the transaction id nor at what came before, and takes no address from the
ACK.

A run also keeps a record of the transaction id of the last DISCOVER and
of the address of the last OFFER after it.
-/

namespace Csos

open Lib

/-! ## `dhcp_discover` -/

abbrev dhcpHtype : Nat := 43

abbrev dhcpHlen : Nat := 44

abbrev dhcpHops : Nat := 45

abbrev dhcpXid : Nat := 46

abbrev dhcpSecs : Nat := 50

abbrev dhcpFlags : Nat := 52

abbrev dhcpCiaddr : Nat := 54

abbrev dhcpChaddr : Nat := 70

abbrev dhcpMagic : Nat := 278

/-- The fields of the message up to its options. The four addresses lie
side by side, and so do `chaddr`, `sname` and `file`. -/
def dhcpDiscoverFields (netif : Netif) (random : Nat) (p : Bytes) : Bytes :=
  let p := ((p.store8 dhcpOp 1).store8 dhcpHtype 1).store8 dhcpHlen 6
  let p := p.store8 dhcpHops 0
  let p := p.store32 dhcpXid (htonl random)
  let p := p.store16 dhcpSecs (htons 1)
  let p := p.store16 dhcpFlags 0
  let p := p.fill dhcpCiaddr 0 16
  let p := p.fill dhcpChaddr 0 16
  let p := setAddr p dhcpChaddr netif.mac
  let p := p.fill (dhcpChaddr + 16) 0 (64 + 128)
  (((p.store8 dhcpMagic 0x63).store8 (dhcpMagic + 1) 0x82).store8 (dhcpMagic + 2) 0x53).store8
    (dhcpMagic + 3) 0x63

def dhcpDiscoverOptions (p : Bytes) : Bytes :=
  let p := p.store8 dhcpOptions 53
  let p := (p.store8 (dhcpOptions + 1) 1).store8 (dhcpOptions + 2) 1
  let p := (p.store8 (dhcpOptions + 3) 55).store8 (dhcpOptions + 4) 5
  let p := dhcpParamRequestList p (dhcpOptions + 5)
  p.store8 (dhcpOptions + 10) 255

/-- The message, with the random number for `xid`. -/
def dhcpDiscoverMessage (netif : Netif) (random : Nat) (p : Bytes) : Bytes :=
  dhcpDiscoverOptions (dhcpDiscoverFields netif random p)

/-- `dhcp_discover`, with the random numbers for `xid` and for
`ipv4_build`. The buffer is a new one. -/
def NetIn.dhcpDiscover (env : NetEnv) (s : NetIn) (netif : Nat) (buff : Frame) : Option NetIn := do
  let payload := dhcpDiscoverMessage (s.netifs netif) (env.xrandom 0) buff.payload
  let dstMac ← s.kernelSetmac env netif broadcastIp
  let buff ← udpBuild (s.netifs netif) { buff with payload } dstMac (env.xrandom 1) broadcastIp
    dhcpClientPort dhcpServerPort none (240 + 11)
  return (s.netifOutput buff).1

/-! ## Runs -/

/-- What a packet is to the client: an OFFER, an ACK, or nothing. -/
def dhcpKind (p : Bytes) : Option DhcpType :=
  if isDhcp p ∧ p dhcpOp = 2 then (dhcpMessage p optionFuel dhcpOptions).join else none

/-- What can happen to the client of an interface. -/
inductive DhcpEvent where
  | discover (env : NetEnv) (buff : Frame)
  | packet (env : NetEnv) (buff : Frame)

/-- The state, the field `xid` of the last DISCOVER, and the field
`yiaddr` of the last OFFER after it, which was answered with a REQUEST. -/
structure DhcpRun where
  net : NetIn
  xid : Option Nat
  offer : Option IpAddr

namespace DhcpRun

/-- The record after a packet. -/
def offerAfter (r : DhcpRun) (p : Bytes) : Option IpAddr :=
  match dhcpKind p with
  | some .offer => some (ipAt p dhcpYiaddr)
  | _ => r.offer

def step (netif : Nat) (r : DhcpRun) : DhcpEvent → Option DhcpRun
  | .discover env buff => do
      let net ← r.net.dhcpDiscover env netif buff
      let message := dhcpDiscoverMessage (r.net.netifs netif) (env.xrandom 0) buff.payload
      return { net, xid := some (message.load32 dhcpXid), offer := none }
  | .packet env buff => do
      let net ← r.net.udpInput env netif buff
      return { r with net, offer := r.offerAfter buff.payload }

def status (netif : Nat) (r : DhcpRun) : NetifStatus := (r.net.netifs netif).status

/-- The step is an ACK, of the transaction of the last DISCOVER, after an
OFFER that was answered, and its address is installed. -/
def Granted (netif : Nat) (r r' : DhcpRun) (e : DhcpEvent) : Prop :=
  ∃ env buff, e = .packet env buff
    ∧ (match dhcpKind buff.payload with | some .ack => True | _ => False)
    ∧ r.offer.isSome ∧ r.xid = some (buff.payload.load32 dhcpXid)
    ∧ (r'.net.netifs netif).ipv4 = ipAt buff.payload dhcpYiaddr

/-- The status becomes `NETIF_STATUS_ACK` in no other way. -/
def Safe (netif : Nat) (r : DhcpRun) (e : DhcpEvent) : Prop :=
  ∀ r', r.step netif e = some r' → r.status netif ≠ .ack → r'.status netif = .ack →
    Granted netif r r' e

/-- An ACK that finds the client without an address has the transaction
id of the last DISCOVER and the address of the last OFFER after it. -/
def Honest (netif : Nat) (r : DhcpRun) : DhcpEvent → Prop
  | .discover _ _ => True
  | .packet _ buff =>
      match dhcpKind buff.payload with
      | some .ack => r.status netif ≠ .ack →
          r.xid = some (buff.payload.load32 dhcpXid)
            ∧ r.offer = some (ipAt buff.payload dhcpYiaddr)
      | _ => True

/-! ## What a packet does -/

section Packet

variable {env : NetEnv} {s s' : NetIn} {netif : Nat} {buff : Frame}

theorem setNetif_self {n : Netif} : (s.setNetif netif n).netifs netif = n :=
  Function.update_self ..

theorem dhcpDiscover_netifs (h : s.dhcpDiscover env netif buff = some s') :
    s'.netifs = s.netifs := by
  rw [NetIn.dhcpDiscover] at h
  obtain ⟨dstMac, -, h⟩ := Option.bind_eq_some_iff.mp h
  obtain ⟨f, -, h⟩ := Option.bind_eq_some_iff.mp h
  obtain rfl := Option.some.inj h
  exact netifOutput_netifs

theorem dhcpOfferLoop_keeps {p : Bytes} {n a : Nat} {netif netif' : Netif}
    (h : dhcpOfferLoop p n a netif = some netif') : netif'.dhcpIpv4 = netif.dhcpIpv4 := by
  induction n generalizing a netif with
  | zero => cases h
  | succ n ih =>
      rw [dhcpOfferLoop] at h
      split at h
      · obtain rfl := Option.some.inj h
        rfl
      · refine (ih h).trans ?_
        split
        · rfl
        · split <;> rfl

/-- An OFFER leaves its address in the interface. -/
theorem dhcpOffer_spec {p : Bytes} {n n' : Netif} (h : dhcpOffer n p = some n') :
    n'.dhcpIpv4 = ipAt p dhcpYiaddr ∧ n'.status = .requested := by
  obtain ⟨n₁, hloop, h⟩ := Option.bind_eq_some_iff.mp h
  obtain rfl := Option.some.inj h
  exact ⟨dhcpOfferLoop_keeps hloop, rfl⟩

theorem udpInput_other (h : dhcpKind buff.payload = none)
    (hrun : s.udpInput env netif buff = some s') : s'.netifs = s.netifs := by
  rw [NetIn.udpInput] at hrun
  by_cases hd : isDhcp buff.payload
  · rw [if_pos hd, NetIn.dhcpInput] at hrun
    by_cases hop : buff.payload dhcpOp = 2
    · rw [if_pos hop] at hrun
      rw [dhcpKind, if_pos ⟨hd, hop⟩] at h
      obtain ⟨kind, hkind, hrun⟩ := Option.bind_eq_some_iff.mp hrun
      rw [hkind, Option.join_some] at h
      subst h
      obtain rfl := Option.some.inj hrun
      rfl
    · rw [if_neg hop] at hrun
      obtain rfl := Option.some.inj hrun
      rfl
  · rw [if_neg hd] at hrun
    obtain rfl := Option.some.inj hrun
    rfl

theorem dhcpKind_some {p : Bytes} {kind : DhcpType} (h : dhcpKind p = some kind) :
    isDhcp p ∧ p dhcpOp = 2 ∧ dhcpMessage p optionFuel dhcpOptions = some (some kind) := by
  rw [dhcpKind] at h
  split at h
  case isTrue hd => exact ⟨hd.1, hd.2, Option.join_eq_some_iff.mp h⟩
  case isFalse => cases h

theorem udpInput_ack (h : dhcpKind buff.payload = some .ack) :
    s.udpInput env netif buff = some (s.setNetif netif (dhcpAck (s.netifs netif))) := by
  obtain ⟨hd, hop, hmessage⟩ := dhcpKind_some h
  rw [NetIn.udpInput, if_pos hd, NetIn.dhcpInput, if_pos hop, hmessage]
  rfl

theorem udpInput_offer (h : dhcpKind buff.payload = some .offer)
    (hrun : s.udpInput env netif buff = some s') :
    (s'.netifs netif).dhcpIpv4 = ipAt buff.payload dhcpYiaddr
      ∧ (s'.netifs netif).status = .requested := by
  obtain ⟨hd, hop, hmessage⟩ := dhcpKind_some h
  rw [NetIn.udpInput, if_pos hd, NetIn.dhcpInput, if_pos hop, hmessage] at hrun
  rw [Option.bind_eq_bind, Option.bind_some] at hrun
  obtain ⟨n, hn, hrun⟩ := Option.bind_eq_some_iff.mp hrun
  rw [NetIn.dhcpRequest] at hrun
  obtain ⟨dstMac, -, hrun⟩ := Option.bind_eq_some_iff.mp hrun
  obtain ⟨f, -, hrun⟩ := Option.bind_eq_some_iff.mp hrun
  obtain rfl := Option.some.inj hrun
  rw [output_netifs, setNetif_self]
  exact dhcpOffer_spec hn

end Packet

/-! ## All runs -/

variable {netif : Nat} {r r' : DhcpRun} {e : DhcpEvent}

/-- The record is what the interface has. -/
def Recorded (netif : Nat) (r : DhcpRun) : Prop :=
  ∀ ip, r.offer = some ip → (r.net.netifs netif).dhcpIpv4 = ip

theorem Recorded.step (h : r.Recorded netif) (hstep : r.step netif e = some r') :
    r'.Recorded netif := by
  cases e with
  | discover env buff =>
      obtain ⟨net, -, heq⟩ := Option.bind_eq_some_iff.mp hstep
      obtain rfl := Option.some.inj heq
      exact nofun
  | packet env buff =>
      obtain ⟨net, hnet, heq⟩ := Option.bind_eq_some_iff.mp hstep
      obtain rfl := Option.some.inj heq
      intro ip hip
      simp only [offerAfter] at hip
      cases hkind : dhcpKind buff.payload with
      | none =>
          rw [hkind] at hip
          show (net.netifs netif).dhcpIpv4 = ip
          rw [udpInput_other hkind hnet]
          exact h ip hip
      | some kind =>
          rw [hkind] at hip
          cases kind with
          | offer =>
              obtain rfl := Option.some.inj hip
              exact (udpInput_offer hkind hnet).1
          | ack =>
              obtain rfl := Option.some.inj ((udpInput_ack hkind).symm.trans hnet)
              show ((r.net.setNetif netif (dhcpAck (r.net.netifs netif))).netifs netif).dhcpIpv4
                = ip
              rw [setNetif_self]
              exact h ip hip

/-- Only an ACK changes the status to `NETIF_STATUS_ACK`. -/
theorem status_packet {env : NetEnv} {buff : Frame}
    (hstep : r.step netif (.packet env buff) = some r')
    (hold : r.status netif ≠ .ack) (hnew : r'.status netif = .ack) :
    dhcpKind buff.payload = some .ack := by
  obtain ⟨net, hnet, heq⟩ := Option.bind_eq_some_iff.mp hstep
  obtain rfl := Option.some.inj heq
  change (net.netifs netif).status = .ack at hnew
  cases hkind : dhcpKind buff.payload with
  | none =>
      rw [udpInput_other hkind hnet] at hnew
      exact absurd hnew hold
  | some kind =>
      cases kind with
      | offer => cases (udpInput_offer hkind hnet).2.symm.trans hnew
      | ack => rfl

theorem safe_iff_honest (h : r.Recorded netif) : r.Safe netif e ↔ r.Honest netif e := by
  cases e with
  | discover env buff =>
      refine ⟨fun _ => trivial, fun _ r' hstep hold hnew => ?_⟩
      obtain ⟨net, hnet, heq⟩ := Option.bind_eq_some_iff.mp hstep
      obtain rfl := Option.some.inj heq
      change (net.netifs netif).status = .ack at hnew
      rw [dhcpDiscover_netifs hnet] at hnew
      exact absurd hnew hold
  | packet env buff =>
      constructor
      · intro hsafe
        rw [Honest]
        cases hkind : dhcpKind buff.payload with
        | none => trivial
        | some kind =>
            cases kind with
            | offer => trivial
            | ack =>
                intro hold
                have hstep : r.step netif (.packet env buff)
                    = some { r with
                      net := r.net.setNetif netif (dhcpAck (r.net.netifs netif)) } := by
                  simp only [step, udpInput_ack hkind, offerAfter, hkind]
                  rfl
                obtain ⟨env', buff', heq, -, hoffer, hxid, hip⟩ := hsafe _ hstep hold (by
                  rw [status, setNetif_self]
                  rfl)
                cases heq
                obtain ⟨ip, hoffer⟩ := Option.isSome_iff_exists.mp hoffer
                rw [setNetif_self] at hip
                refine ⟨hxid, hoffer.trans (congrArg some ?_)⟩
                exact (h ip hoffer).symm.trans hip
      · intro hhonest r' hstep hold hnew
        have hkind := status_packet hstep hold hnew
        simp only [Honest, hkind] at hhonest
        obtain ⟨hxid, hoffer⟩ := hhonest hold
        obtain ⟨net, hnet, heq⟩ := Option.bind_eq_some_iff.mp hstep
        obtain rfl := Option.some.inj heq
        obtain rfl := Option.some.inj ((udpInput_ack hkind).symm.trans hnet)
        refine ⟨env, buff, rfl, by rw [hkind]; trivial, by rw [hoffer]; rfl, hxid, ?_⟩
        rw [setNetif_self]
        exact h _ hoffer

/-- From power-on, every change of the status to `NETIF_STATUS_ACK` along
a run is as it should be exactly when every ACK that makes one is. -/
theorem dhcp_safety (netif : Nat) (net : NetIn) (events : List DhcpEvent) :
    Always (step netif) (Safe netif) ⟨net, none, none⟩ events
      ↔ Always (step netif) (Honest netif) ⟨net, none, none⟩ events :=
  always_congr_of_invariant (I := Recorded netif) (fun _ _ _ h _ _ hstep => h.step hstep)
    (fun _ _ h _ => safe_iff_honest h) nofun
    (always_of_forall (P := fun _ _ => True) fun _ _ => trivial)

/-- An ACK of a stranger, as the first packet. -/
def strayAck : Frame where
  length := 300
  payload := fun b =>
    if b = 35 then 67 else if b = 37 then 68 else if b = 42 then 2
    else if b = 58 then 10 else if b = 61 then 9
    else if b = 282 then 53 else if b = 283 then 1 else if b = 284 then 5
    else if b = 285 then 255 else 0

/-- A card without an address. -/
def downNet : NetIn := aloneNet.setNetif 0 { testNetif with status := .down }

/-- The client takes it. -/
theorem dhcp_safety_fails :
    ¬ ∀ (netif : Nat) (net : NetIn) (events : List DhcpEvent),
      Always (step netif) (Safe netif) ⟨net, none, none⟩ events := by
  intro hall
  have hsafe := (hall 0 downNet [.packet silentEnv strayAck]).1
  have hstatus : (step 0 ⟨downNet, none, none⟩ (.packet silentEnv strayAck)).map (status 0)
      = some .ack := by decide +kernel
  obtain ⟨r', hstep, hnew⟩ := Option.map_eq_some_iff.mp hstatus
  obtain ⟨env, buff, heq, -, hoffer, -⟩ := hsafe r' hstep (by decide) hnew
  cases hoffer

end DhcpRun

end Csos
