import Csos.DhcpRequest

/-!
# What a reply says (`dhcp_input`, `dhcp_offer` and `dhcp_ack`)

A reply whose options are the encoding of a list is acted on as the list
says: by the first option that is the message type of an offer or of an
acknowledgement, and for an offer with the last router and the last mask. The
data of an option never passes for an option.
-/

namespace Csos

open Lib Lib.Tlv Lib.Bytes

/-! ## The list -/

/-- An option that a server may send. -/
structure IsOption (o : Tlv) : Prop where
  atEnd : o.code.toNat ≠ dhcpOptionEnd
  length : o.data.length < 256
  type : o.code.toNat = dhcpOptionMessageType → 1 ≤ o.data.length
  address : o.code.toNat = dhcpOptionRouter ∨ o.code.toNat = dhcpOptionSubnetMask →
    4 ≤ o.data.length

instance (o : Tlv) : Decidable (IsOption o) :=
  decidable_of_iff (_ ∧ _ ∧ _ ∧ _) ⟨fun ⟨h₁, h₂, h₃, h₄⟩ => ⟨h₁, h₂, h₃, h₄⟩,
    fun ⟨h₁, h₂, h₃, h₄⟩ => ⟨h₁, h₂, h₃, h₄⟩⟩

/-- What an option asks for, if it is a message type. -/
def messageOf (o : Tlv) : Option DhcpType :=
  if o.code.toNat ≠ dhcpOptionMessageType then none
  else if o.data.head? = some 2 then some .offer
  else if o.data.head? = some 5 then some .ack
  else none

def firstMessage (os : List Tlv) : Option DhcpType := os.findSome? messageOf

/-- The first four bytes. -/
def addressOf (o : Tlv) : IpAddr := fun i => o.data.getD i 0

/-- The address in the last option with this code. -/
def lastAddress (code : Nat) (os : List Tlv) : Option IpAddr :=
  ((os.filter fun o => o.code.toNat = code).getLast?).map addressOf

/-- The interface with the routers and masks of a list. -/
def addressed (netif : Netif) (os : List Tlv) : Netif :=
  { netif with
    dhcpGw := (lastAddress dhcpOptionRouter os).getD netif.dhcpGw
    dhcpMask := (lastAddress dhcpOptionSubnetMask os).getD netif.dhcpMask }

/-- And after the offer of `ip`. -/
def offered (netif : Netif) (ip : IpAddr) (os : List Tlv) : Netif :=
  { addressed netif os with dhcpIpv4 := ip, status := .requested }

variable {env : NetEnv} {s : NetIn} {netif : Netif} {buff : Frame} {p : Bytes} {a i n : Nat}
  {o : Tlv} {os : List Tlv}

theorem lastAddress_cons {code : Nat} : lastAddress code (o :: os)
    = (lastAddress code os).orElse fun _ =>
        if o.code.toNat = code then some (addressOf o) else none := by
  rw [lastAddress, List.filter_cons]
  by_cases h : o.code.toNat = code
  · rw [if_pos (decide_eq_true h), if_pos h, List.getLast?_cons, lastAddress]
    cases (os.filter fun o => o.code.toNat = code).getLast? <;> rfl
  · rw [if_neg (by simpa using h), if_neg h, ← lastAddress]
    cases lastAddress code os <;> rfl

/-! ## The scans of a list -/

theorem isMessage_encoded (ho : IsOption o) (hcode : p a = o.code) (hdata : Lies p (a + 2) o.data)
    {t : BitVec 8} :
    IsMessage p a t ↔ o.code.toNat = dhcpOptionMessageType ∧ o.data.head? = some t := by
  rw [IsMessage, hcode]
  refine and_congr_right fun htype => ?_
  have hlength := ho.type htype
  obtain ⟨c, l, hl⟩ := List.exists_cons_of_length_pos hlength
  rw [hl, lies_cons] at hdata
  rw [hdata.1, hl, List.head?_cons, Option.some.injEq]

theorem messageOf_encoded (ho : IsOption o) (hcode : p a = o.code)
    (hdata : Lies p (a + 2) o.data) :
    messageOf o = if IsMessage p a 2 then some .offer
      else if IsMessage p a 5 then some .ack else none := by
  have hmessage := fun t => @isMessage_encoded p a o ho hcode hdata t
  rw [messageOf]
  by_cases htype : o.code.toNat = dhcpOptionMessageType
  · rw [if_neg (not_not.mpr htype)]
    simp only [hmessage, htype, true_and]
  · rw [if_pos htype, if_neg fun h => htype ((hmessage 2).mp h).1,
      if_neg fun h => htype ((hmessage 5).mp h).1]

theorem dhcpMessage_encoded (hos : ∀ o ∈ os, IsOption o) (hlies : Lies p a (encodeAll os))
    (hend : IsEnd p (a + (encodeAll os).length)) (hn : os.length < n) :
    dhcpMessage p n a = some (firstMessage os) := by
  induction os generalizing a n with
  | nil =>
      obtain ⟨n, rfl⟩ : ∃ m, n = m + 1 := ⟨n - 1, (Nat.sub_add_cancel hn).symm⟩
      have hend : IsEnd p a := hend
      rw [dhcpMessage_stop (Or.inl hend), messageAt, if_pos hend]
      rfl
  | cons o os ih =>
      obtain ⟨n, rfl⟩ : ∃ m, n = m + 1 :=
        ⟨n - 1, (Nat.sub_add_cancel (Nat.zero_lt_of_lt hn)).symm⟩
      have ho := hos o List.mem_cons_self
      obtain ⟨⟨hcode, -, hdata⟩, -⟩ := (lies_encodeAll_cons ho.length).mp hlies
      obtain ⟨hnext, hrest, hmove⟩ := nextTlv_encoded ho.length hlies
      have hgo : ¬ IsEnd p a := by
        rw [IsEnd, hcode]
        exact ho.atEnd
      have hof := messageOf_encoded ho hcode hdata
      rw [firstMessage, List.findSome?_cons, hof, ← firstMessage]
      by_cases hoffer : IsMessage p a 2
      · rw [dhcpMessage_stop (Or.inr (Or.inl hoffer)), messageAt, if_neg hgo, if_pos hoffer,
          if_pos hoffer]
      by_cases hack : IsMessage p a 5
      · rw [dhcpMessage_stop (Or.inr (Or.inr hack)), messageAt, if_neg hgo, if_neg hoffer,
          if_neg hoffer, if_pos hack]
      · rw [dhcpMessage_next (not_or.mpr ⟨hgo, not_or.mpr ⟨hoffer, hack⟩⟩), hnext, if_neg hoffer,
          if_neg hack]
        rw [hmove] at hend
        exact ih (fun o' ho' => hos o' (List.mem_cons_of_mem o ho')) hrest hend
          (Nat.lt_of_succ_lt_succ hn)

theorem ipAt_encoded (hdata : Lies p (a + 2) o.data) (hlength : 4 ≤ o.data.length) :
    ipAt p (a + 2) = addressOf o :=
  funext fun i => hdata i (Nat.lt_of_lt_of_le i.isLt hlength)

/-- What a round of the loop of `dhcp_offer` does to the interface. -/
theorem addressed_cons : addressed netif (o :: os) = addressed
    (if o.code.toNat = dhcpOptionRouter then { netif with dhcpGw := addressOf o }
      else if o.code.toNat = dhcpOptionSubnetMask then { netif with dhcpMask := addressOf o }
      else netif) os := by
  simp only [addressed, lastAddress_cons]
  by_cases hrouter : o.code.toNat = dhcpOptionRouter
  · have hmask : o.code.toNat ≠ dhcpOptionSubnetMask := by
      rw [hrouter]
      decide
    simp only [if_pos hrouter, if_neg hmask]
    cases lastAddress dhcpOptionRouter os <;> cases lastAddress dhcpOptionSubnetMask os <;> rfl
  · by_cases hmask : o.code.toNat = dhcpOptionSubnetMask
    · simp only [if_neg hrouter, if_pos hmask]
      cases lastAddress dhcpOptionRouter os <;> cases lastAddress dhcpOptionSubnetMask os <;> rfl
    · simp only [if_neg hrouter, if_neg hmask]
      cases lastAddress dhcpOptionRouter os <;> cases lastAddress dhcpOptionSubnetMask os <;> rfl

theorem dhcpOfferLoop_encoded (hos : ∀ o ∈ os, IsOption o) (hlies : Lies p a (encodeAll os))
    (hend : IsEnd p (a + (encodeAll os).length)) (hn : os.length < n) :
    dhcpOfferLoop p n a netif = some (addressed netif os) := by
  induction os generalizing a n netif with
  | nil =>
      obtain ⟨n, rfl⟩ : ∃ m, n = m + 1 := ⟨n - 1, (Nat.sub_add_cancel hn).symm⟩
      exact if_pos hend
  | cons o os ih =>
      obtain ⟨n, rfl⟩ : ∃ m, n = m + 1 :=
        ⟨n - 1, (Nat.sub_add_cancel (Nat.zero_lt_of_lt hn)).symm⟩
      have ho := hos o List.mem_cons_self
      obtain ⟨⟨hcode, -, hdata⟩, -⟩ := (lies_encodeAll_cons ho.length).mp hlies
      obtain ⟨hnext, hrest, hmove⟩ := nextTlv_encoded ho.length hlies
      rw [hmove] at hend
      rw [nextTlv] at hnext
      rw [dhcpOfferLoop, hcode, if_neg ho.atEnd, hnext, addressed_cons]
      have haddress : ∀ {c}, o.code.toNat = c → c = dhcpOptionRouter ∨ c = dhcpOptionSubnetMask →
          ipAt p (a + 2) = addressOf o :=
        fun h hc => ipAt_encoded hdata (ho.address (h ▸ hc))
      refine (ih (fun o' ho' => hos o' (List.mem_cons_of_mem o ho')) hrest hend
        (Nat.lt_of_succ_lt_succ hn)).trans (congrArg some (congrArg (addressed · os) ?_))
      split_ifs with hrouter hmask
      · rw [haddress hrouter (Or.inl rfl)]
      · rw [haddress hmask (Or.inr rfl)]
      · rfl

/-! ## The reply -/

/-- A reply whose options are a list and END. The last of them lies in the
32-bit address space. -/
structure DhcpReply (p : Bytes) (os : List Tlv) : Prop where
  op : p dhcpOp = 2
  options : ∀ o ∈ os, IsOption o
  lies : Lies p dhcpOptions (encodeAll os ++ [255])
  room : dhcpOptions + (encodeAll os).length < 0x100000000

theorem length_le_encodeAll : os.length ≤ (encodeAll os).length := by
  induction os with
  | nil => exact Nat.le_refl 0
  | cons o os ih =>
      rw [length_encodeAll_cons, List.length_cons]
      omega

namespace DhcpReply

theorem fuel (h : DhcpReply p os) : os.length < optionFuel :=
  Nat.lt_of_le_of_lt (Nat.le_trans length_le_encodeAll (Nat.le_add_left _ _)) h.room

theorem isEnd (h : DhcpReply p os) : IsEnd p (dhcpOptions + (encodeAll os).length) := by
  rw [IsEnd, (lies_cons.mp (lies_append.mp h.lies).2).1]
  rfl

theorem message (h : DhcpReply p os) :
    dhcpMessage p optionFuel dhcpOptions = some (firstMessage os) :=
  dhcpMessage_encoded h.options (lies_append.mp h.lies).1 h.isEnd h.fuel

theorem offer (h : DhcpReply p os) :
    dhcpOffer netif p = some (offered netif (ipAt p dhcpYiaddr) os) := by
  rw [dhcpOffer, dhcpOfferLoop_encoded h.options (lies_append.mp h.lies).1 h.isEnd h.fuel]
  rfl

end DhcpReply

/-- A reply is acted on as its list of options says. -/
theorem dhcpInput_decodes (env : NetEnv) (s : NetIn) (i : Nat) (buff : Frame) (os : List Tlv)
    (h : DhcpReply buff.payload os) :
    (firstMessage os = none → s.dhcpInput env i buff = some s)
      ∧ (firstMessage os = some .ack →
        s.dhcpInput env i buff = some (s.setNetif i (dhcpAck (s.netifs i))))
      ∧ (firstMessage os = some .offer → ∃ s', s.dhcpInput env i buff = some s'
        ∧ (s.setNetif i (offered (s.netifs i) (ipAt buff.payload dhcpYiaddr) os)).dhcpRequest env i
          buff = some s'
        ∧ s'.netifs = Function.update s.netifs i
          (offered (s.netifs i) (ipAt buff.payload dhcpYiaddr) os)) := by
  have hmessage := h.message
  refine ⟨fun hnone => ?_, fun hack => ?_, fun hoffer => ?_⟩
  · rw [NetIn.dhcpInput, if_pos h.op, hmessage, hnone]
    rfl
  · rw [NetIn.dhcpInput, if_pos h.op, hmessage, hack]
    rfl
  · rw [hoffer] at hmessage
    rw [dhcpInput_offer h.op hmessage h.offer, dhcpRequest_eq]
    obtain ⟨f, hf, -⟩ := @requestFrame_spec env
      (s.setNetif i (offered (s.netifs i) (ipAt buff.payload dhcpYiaddr) os)) i buff
    rw [hf]
    exact ⟨_, rfl, rfl, output_netifs⟩

/-- A mask between two routers, whose first bytes are the code of a message
type and the one of END. -/
def twoRouters : List Tlv :=
  [⟨53, [2]⟩, ⟨3, [53, 1, 5, 1]⟩, ⟨1, [255, 255, 0, 0]⟩, ⟨3, [255, 0, 0, 2]⟩]

theorem dhcpInput_decodes_two :
    ∃ s', aloneNet.dhcpInput silentEnv 0 (offerOf (encodeAll twoRouters ++ [255])) = some s'
      ∧ (aloneNet.setNetif 0 (offered testNetif (ipAt (offerOf (encodeAll twoRouters
          ++ [255])).payload dhcpYiaddr) twoRouters)).dhcpRequest silentEnv 0
          (offerOf (encodeAll twoRouters ++ [255])) = some s'
      ∧ s'.netifs = Function.update aloneNet.netifs 0 (offered testNetif (ipAt (offerOf
          (encodeAll twoRouters ++ [255])).payload dhcpYiaddr) twoRouters) :=
  (dhcpInput_decodes silentEnv aloneNet 0 (offerOf (encodeAll twoRouters ++ [255])) twoRouters
    ⟨rfl, by decide, by decide, by decide⟩).2.2 rfl

end Csos
