import Csos.Lib.Tlv
import Csos.NetChecksum
import Csos.NetInput

/-!
# The options of a DHCP message (`dhcp_input` and `dhcp_offer`)

Both loops take the byte behind the code of an option for its length,
whatever the code is, and stop at END; neither looks at the length of the
buffer. So the scan stays within the buffer exactly when its bytes are a
list of options with an end, in which padding comes in pairs: two zeros are
an option without data.
-/

namespace Csos

open Lib Lib.Tlv Lib.Bytes

variable {netif : Netif} {p p' : Bytes} {a b n len : Nat} {os : List Tlv} {o : Tlv}

/-! ## The scans -/

/-- The option at `a` is a message type, and its value is `t`. -/
def IsMessage (p : Bytes) (a : Nat) (t : BitVec 8) : Prop :=
  (p a).toNat = dhcpOptionMessageType ∧ p (a + 2) = t

instance (a : Nat) (t : BitVec 8) : Decidable (IsMessage p a t) :=
  inferInstanceAs (Decidable (_ ∧ _))

/-- The options end at `a`. The loop of `dhcp_offer` stops only there. -/
def IsEnd (p : Bytes) (a : Nat) : Prop := (p a).toNat = dhcpOptionEnd

instance (a : Nat) : Decidable (IsEnd p a) := inferInstanceAs (Decidable (_ = _))

/-- Where the loop of `dhcp_input` stops. -/
def MessageStop (p : Bytes) (a : Nat) : Prop := IsEnd p a ∨ IsMessage p a 2 ∨ IsMessage p a 5

instance (a : Nat) : Decidable (MessageStop p a) := inferInstanceAs (Decidable (_ ∨ _))

/-- The bytes that a round of the loop of `dhcp_input` reads. -/
def messageReads (p : Bytes) (a : Nat) : List Nat :=
  if IsEnd p a then [a]
  else if IsMessage p a 2 ∨ IsMessage p a 5 then [a, a + 2]
  else if (p a).toNat = dhcpOptionMessageType then [a, a + 2, a + 1]
  else [a, a + 1]

/-- The bytes that a round of the loop of `dhcp_offer` reads. -/
def offerReads (p : Bytes) (a : Nat) : List Nat :=
  if IsEnd p a then [a]
  else if (p a).toNat = dhcpOptionRouter ∨ (p a).toNat = dhcpOptionSubnetMask then
    [a, a + 1, a + 2, a + 3, a + 4, a + 5]
  else [a, a + 1]

/-- What the loop of `dhcp_input` has found where it stops. -/
def messageAt (p : Bytes) (a : Nat) : Option DhcpType :=
  if IsEnd p a then none
  else if IsMessage p a 2 then some .offer
  else some .ack

theorem dhcpMessage_stop (h : MessageStop p a) :
    dhcpMessage p (n + 1) a = some (messageAt p a) := by
  change (if IsEnd p a then some none else if IsMessage p a 2 then _ else
    if IsMessage p a 5 then _ else _) = _
  rw [messageAt]
  by_cases hend : IsEnd p a
  · rw [if_pos hend, if_pos hend]
  rw [if_neg hend, if_neg hend]
  by_cases hoffer : IsMessage p a 2
  · rw [if_pos hoffer, if_pos hoffer]
  · rw [if_neg hoffer, if_neg hoffer, if_pos ((h.resolve_left hend).resolve_left hoffer)]

theorem dhcpMessage_next (h : ¬ MessageStop p a) :
    dhcpMessage p (n + 1) a = dhcpMessage p n (p.nextTlv a) := by
  obtain ⟨hend, hmessage⟩ := not_or.mp h
  obtain ⟨hoffer, hack⟩ := not_or.mp hmessage
  exact (if_neg hend).trans ((if_neg hoffer).trans (if_neg hack))

theorem dhcpMessage_of_visits (h : Visits (MessageStop p) p a b) (hstop : MessageStop p b) :
    ∃ n, dhcpMessage p n a = some (messageAt p b) := by
  induction h with
  | here a => exact ⟨1, dhcpMessage_stop hstop⟩
  | next hgo _ ih =>
      obtain ⟨n, hn⟩ := ih hstop
      exact ⟨n + 1, (dhcpMessage_next hgo).trans hn⟩

theorem visits_of_dhcpMessage {r : Option DhcpType} (h : dhcpMessage p n a = some r) :
    ∃ b, Visits (MessageStop p) p a b ∧ MessageStop p b ∧ messageAt p b = r := by
  induction n generalizing a with
  | zero => cases h
  | succ n ih =>
      by_cases hstop : MessageStop p a
      · rw [dhcpMessage_stop hstop] at h
        exact ⟨a, .here a, hstop, Option.some.inj h⟩
      · rw [dhcpMessage_next hstop] at h
        obtain ⟨b, hb, hfound⟩ := ih h
        exact ⟨b, .next hstop hb, hfound⟩

theorem dhcpOfferLoop_of_visits (h : Visits (IsEnd p) p a b) (hstop : IsEnd p b)
    (netif : Netif) : ∃ n netif', dhcpOfferLoop p n a netif = some netif' := by
  induction h generalizing netif with
  | here a => exact ⟨1, netif, if_pos hstop⟩
  | next hgo _ ih =>
      obtain ⟨n, netif', hn⟩ := ih hstop _
      exact ⟨n + 1, netif', (if_neg hgo).trans hn⟩

theorem visits_of_dhcpOfferLoop {netif netif' : Netif}
    (h : dhcpOfferLoop p n a netif = some netif') :
    ∃ b, Visits (IsEnd p) p a b ∧ IsEnd p b := by
  induction n generalizing a netif with
  | zero => cases h
  | succ n ih =>
      by_cases hstop : IsEnd p a
      · exact ⟨a, .here a, hstop⟩
      · obtain ⟨b, hb, hend⟩ := ih ((if_neg hstop).symm.trans h)
        exact ⟨b, .next hstop hb, hend⟩

/-! ### What they read -/

theorem head_mem_messageReads : a ∈ messageReads p a := by
  unfold messageReads
  split_ifs <;> exact List.mem_cons_self

theorem type_mem_messageReads (h : (p a).toNat = dhcpOptionMessageType) :
    a + 2 ∈ messageReads p a := by
  have hend : ¬ IsEnd p a := by
    rw [IsEnd, h]
    decide
  rw [messageReads, if_neg hend]
  split_ifs <;> simp

theorem length_mem_messageReads (h : ¬ MessageStop p a) : a + 1 ∈ messageReads p a := by
  obtain ⟨hend, hmessage⟩ := not_or.mp h
  rw [messageReads, if_neg hend, if_neg hmessage]
  split_ifs <;> simp

theorem isMessage_congr {t : BitVec 8} (h : ∀ x ∈ messageReads p a, p' x = p x) :
    IsMessage p' a t ↔ IsMessage p a t := by
  rw [IsMessage, IsMessage, h a head_mem_messageReads]
  exact and_congr_right fun htype => by rw [h _ (type_mem_messageReads htype)]

theorem isEnd_congr (h : p' a = p a) : IsEnd p' a ↔ IsEnd p a := by
  rw [IsEnd, IsEnd, h]

/-- The message scan depends on the bytes that it reads, and on no others. -/
theorem dhcpMessage_congr
    (h : ∀ b, Visits (MessageStop p) p a b → ∀ x ∈ messageReads p b, p' x = p x) :
    dhcpMessage p' n a = dhcpMessage p n a := by
  induction n generalizing a with
  | zero => rfl
  | succ n ih =>
      have hread := h a (.here a)
      have hend : IsEnd p' a ↔ IsEnd p a := isEnd_congr (hread a head_mem_messageReads)
      have hmessage : ∀ {t}, IsMessage p' a t ↔ IsMessage p a t := isMessage_congr hread
      have hstops : MessageStop p' a ↔ MessageStop p a := or_congr hend (or_congr hmessage hmessage)
      by_cases hstop : MessageStop p a
      · rw [dhcpMessage_stop hstop, dhcpMessage_stop (hstops.mpr hstop)]
        simp only [messageAt, hend, hmessage]
      · have hnext : p'.nextTlv a = p.nextTlv a := by
          rw [nextTlv, nextTlv, hread _ (length_mem_messageReads hstop)]
        rw [dhcpMessage_next hstop, dhcpMessage_next (mt hstops.mp hstop), hnext]
        exact ih fun b hb => h b (.next hstop hb)

theorem head_mem_offerReads : a ∈ offerReads p a := by
  unfold offerReads
  split_ifs <;> exact List.mem_cons_self

theorem length_mem_offerReads (h : ¬ IsEnd p a) : a + 1 ∈ offerReads p a := by
  rw [offerReads, if_neg h]
  split_ifs <;> simp

theorem address_mem_offerReads
    (h : (p a).toNat = dhcpOptionRouter ∨ (p a).toNat = dhcpOptionSubnetMask) (i : Fin 4) :
    a + 2 + i ∈ offerReads p a := by
  have hend : ¬ IsEnd p a := by
    rw [IsEnd]
    rcases h with h | h <;> rw [h] <;> decide
  rw [offerReads, if_neg hend, if_pos h]
  have := i.isLt
  simp only [List.mem_cons]
  omega

/-- So does the scan of an offer. -/
theorem dhcpOfferLoop_congr
    (h : ∀ b, Visits (IsEnd p) p a b → ∀ x ∈ offerReads p b, p' x = p x) :
    dhcpOfferLoop p' n a netif = dhcpOfferLoop p n a netif := by
  induction n generalizing a netif with
  | zero => rfl
  | succ n ih =>
      have hread := h a (.here a)
      have hcode := hread a head_mem_offerReads
      by_cases hstop : IsEnd p a
      · exact (if_pos ((isEnd_congr hcode).mpr hstop)).trans (if_pos hstop).symm
      · have haddress : (p a).toNat = dhcpOptionRouter ∨ (p a).toNat = dhcpOptionSubnetMask →
            ipAt p' (a + 2) = ipAt p (a + 2) :=
          fun hcode => funext fun i => hread _ (address_mem_offerReads hcode i)
        have hnext : ∀ netif, dhcpOfferLoop p' n (a + (p (a + 1)).toNat + 2) netif
            = dhcpOfferLoop p n (a + (p (a + 1)).toNat + 2) netif :=
          fun _ => ih fun b hb => h b (.next hstop hb)
        simp only [dhcpOfferLoop, hcode, hread _ (length_mem_offerReads hstop), hnext]
        refine if_congr Iff.rfl rfl (congrArg _ ?_)
        split_ifs with hrouter hmask
        · rw [haddress (Or.inl hrouter)]
        · rw [haddress (Or.inr hmask)]
        · rfl

/-! ## Confinement -/

/-- A scan of the options reads only the `len` bytes of the buffer, and skips
padding. -/
structure Scanned (stop : Nat → Prop) (reads : Nat → List Nat) (p : Bytes) (len : Nat) : Prop where
  inside : ∀ b, Visits stop p dhcpOptions b → ∀ x ∈ reads b, x < len
  pads : SkipsPads stop p dhcpOptions

/-- What `dhcp_input` scans of a message of `len` bytes at an interface. -/
structure DhcpConfined (netif : Netif) (p : Bytes) (len : Nat) : Prop where
  ends : ∃ n r, dhcpMessage p n dhcpOptions = some r
  message : Scanned (MessageStop p) (messageReads p) p len
  offerEnds : (∃ n, dhcpMessage p n dhcpOptions = some (some .offer)) →
    ∃ n netif', dhcpOfferLoop p n dhcpOptions netif = some netif'
  offer : (∃ n, dhcpMessage p n dhcpOptions = some (some .offer)) →
    Scanned (IsEnd p) (offerReads p) p len

/-- What lies behind the buffer does not matter for a confined scan. -/
theorem DhcpConfined.message_congr (h : DhcpConfined netif p len) (hsame : ∀ x < len, p' x = p x) :
    dhcpMessage p' n dhcpOptions = dhcpMessage p n dhcpOptions :=
  dhcpMessage_congr fun b hb x hx => hsame x (h.message.inside b hb x hx)

theorem DhcpConfined.offer_congr (h : DhcpConfined netif p len) (hsame : ∀ x < len, p' x = p x)
    (hoffer : ∃ n, dhcpMessage p n dhcpOptions = some (some .offer)) (netif' : Netif) :
    dhcpOfferLoop p' n dhcpOptions netif' = dhcpOfferLoop p n dhcpOptions netif' :=
  dhcpOfferLoop_congr fun b hb x hx => hsame x ((h.offer hoffer).inside b hb x hx)

/-- A list of options in which the code 0 has no data. -/
def PaddedInPairs (os : List Tlv) : Prop :=
  ∀ o ∈ os, o.code.toNat ≠ dhcpOptionEnd ∧ o.data.length < 256 ∧ (o.code = 0 → o.data = [])

/-- Where a list ends that begins with the options. -/
def optionsEnd (os : List Tlv) : Nat := dhcpOptions + (encodeAll os).length

/-- An acknowledgement is behind the list, and no offer in it. -/
structure EndsWithAck (p : Bytes) (len : Nat) (os : List Tlv) : Prop where
  ack : IsMessage p (optionsEnd os) 5
  inside : optionsEnd os + 2 < len
  noOffer : ∀ a ∈ starts dhcpOptions os, ¬ IsMessage p a 2

/-- END is behind the list; and if there is an offer in it, the address of each
router and each mask lies within the message. -/
structure EndsWithEnd (p : Bytes) (len : Nat) (os : List Tlv) : Prop where
  atEnd : IsEnd p (optionsEnd os)
  inside : optionsEnd os < len
  addresses : (∃ a ∈ starts dhcpOptions os, IsMessage p a 2) → ∀ a ∈ starts dhcpOptions os,
    (p a).toNat = dhcpOptionRouter ∨ (p a).toNat = dhcpOptionSubnetMask → a + 5 < len

/-- The bytes from the options on are a list of options with padding in pairs,
and behind it is an acknowledgement or END. -/
def DhcpReadable (p : Bytes) (len : Nat) : Prop :=
  ∃ os, PaddedInPairs os ∧ Lies p dhcpOptions (encodeAll os)
    ∧ (EndsWithAck p len os ∨ EndsWithEnd p len os)

variable {stop : Nat → Prop} {reads : Nat → List Nat}

/-- The options that a scan passes. -/
theorem paddedInPairs_of_visits (hv : Visits stop p a b) (hpads : SkipsPads stop p a)
    (hends : ∀ b, IsEnd p b → stop b) :
    ∃ os, PaddedInPairs os ∧ Lies p a (encodeAll os) ∧ b = a + (encodeAll os).length
      ∧ ∀ c ∈ starts a os, Visits stop p a c ∧ ¬ stop c := by
  obtain ⟨os, hlen, hlies, hb, hstarts⟩ := hv.encoded
  refine ⟨os, fun o ho => ?_, hlies, hb, hstarts⟩
  obtain ⟨c, hc, hcode, hlength⟩ := exists_start_of_mem hlen hlies ho
  obtain ⟨hvisits, hgo⟩ := hstarts c hc
  rw [← hcode]
  refine ⟨fun hend => hgo (hends c hend), hlen o ho, fun hzero => ?_⟩
  rw [hpads.pair hvisits hzero] at hlength
  exact List.length_eq_zero_iff.mp hlength.symm

/-- A scan that stops at the end of a list of options, where padding comes in
pairs. -/
theorem scanned_of_encoded (hpairs : PaddedInPairs os) (hlies : Lies p dhcpOptions (encodeAll os))
    (hzero : ∀ b, p b = 0 → ¬ stop b) (hstop : stop (optionsEnd os))
    (hstarts : ∀ b ∈ starts dhcpOptions os, b + 2 ≤ optionsEnd os → ∀ x ∈ reads b, x < len)
    (hend : ∀ x ∈ reads (optionsEnd os), x < len) :
    Scanned stop reads p len := by
  have hlen : ∀ o ∈ os, o.data.length < 256 := fun o ho => (hpairs o ho).2.1
  constructor
  · intro b hb
    rcases visits_encoded hlen hlies hstop hb with hb | rfl
    · obtain ⟨o, -, -, -, -, hle⟩ := exists_of_mem_starts hlen hlies hb
      exact hstarts b hb (by rw [optionsEnd]; omega)
    · exact hend
  · refine skipsPads_of_pairs hzero fun b hb hpad => ?_
    rcases visits_encoded hlen hlies hstop hb with hb | rfl
    · obtain ⟨o, ho, hcode, hlength, -⟩ := exists_of_mem_starts hlen hlies hb
      rw [(hpairs o ho).2.2 (hcode.symm.trans hpad)] at hlength
      exact BitVec.eq_of_toNat_eq hlength
    · exact absurd hstop (hzero _ hpad)

theorem not_messageStop_of_zero (h : p a = 0) : ¬ MessageStop p a := by
  simp [MessageStop, IsEnd, IsMessage, h]

theorem not_isEnd_of_zero (h : p a = 0) : ¬ IsEnd p a := by
  simp [IsEnd, h]

theorem le_of_mem_messageReads {x : Nat} (h : x ∈ messageReads p a) : x ≤ a + 2 := by
  unfold messageReads at h
  split_ifs at h <;> simp at h <;> omega

theorem isMessage_two_of_messageAt (h : messageAt p b = some .offer) :
    IsMessage p b 2 := by
  unfold messageAt at h
  split_ifs at h with hend hoffer
  · exact hoffer
  · cases h

/-- Where the message scan finds an offer. -/
theorem exists_offer (h : dhcpMessage p n a = some (some .offer)) :
    ∃ b, Visits (MessageStop p) p a b ∧ IsMessage p b 2 := by
  obtain ⟨b, hb, -, hfound⟩ := visits_of_dhcpMessage h
  exact ⟨b, hb, isMessage_two_of_messageAt hfound⟩

theorem not_isEnd_of_isMessage {t : BitVec 8} (h : IsMessage p a t) : ¬ IsEnd p a := by
  rw [IsEnd, h.1]
  decide

theorem DhcpConfined.readable (h : DhcpConfined netif p len) : DhcpReadable p len := by
  obtain ⟨n, r, hn⟩ := h.ends
  obtain ⟨b, hb, hstop, hfound⟩ := visits_of_dhcpMessage hn
  obtain ⟨os, hpairs, hlies, rfl, hstarts⟩ :=
    paddedInPairs_of_visits hb h.message.pads fun _ => Or.inl
  have hinside := h.message.inside _ hb
  have hnone : ∀ a ∈ starts dhcpOptions os, ¬ IsMessage p a 2 :=
    fun a ha hoffer => (hstarts a ha).2 (Or.inr (Or.inl hoffer))
  rcases hstop with hend | hoffer | hack
  · refine ⟨os, hpairs, hlies, Or.inr ⟨hend, hinside _ ?_, ?_⟩⟩
    · rw [messageReads, if_pos hend]
      exact List.mem_singleton_self _
    · rintro ⟨a, ha, hoffer⟩
      exact absurd hoffer (hnone a ha)
  · -- the second scan goes on behind the offer, to END
    rw [messageAt, if_neg (not_isEnd_of_isMessage hoffer), if_pos hoffer] at hfound
    have hoffers : ∃ n, dhcpMessage p n dhcpOptions = some (some .offer) := ⟨n, hfound ▸ hn⟩
    obtain ⟨n', netif', hloop⟩ := h.offerEnds hoffers
    obtain ⟨e, he, hend⟩ := visits_of_dhcpOfferLoop hloop
    have hscan := h.offer hoffers
    obtain ⟨os', hpairs', hlies', rfl, hstarts'⟩ :=
      paddedInPairs_of_visits he hscan.pads fun _ => id
    refine ⟨os', hpairs', hlies', Or.inr ⟨hend, hscan.inside _ he _ ?_, fun _ a ha hrouter => ?_⟩⟩
    · rw [offerReads, if_pos hend]
      exact List.mem_singleton_self _
    · obtain ⟨hv, hgo⟩ := hstarts' a ha
      refine hscan.inside a hv _ ?_
      rw [offerReads, if_neg hgo, if_pos hrouter]
      simp
  · refine ⟨os, hpairs, hlies, Or.inl ⟨hack, hinside _ ?_, hnone⟩⟩
    rw [messageReads, if_neg (not_isEnd_of_isMessage hack), if_pos (Or.inr hack)]
    exact List.mem_cons_of_mem _ (List.mem_singleton_self _)

/-- The message scan ends in such a list. -/
theorem PaddedInPairs.dhcpMessage (hpairs : PaddedInPairs os)
    (hlies : Lies p dhcpOptions (encodeAll os)) (hstop : MessageStop p (optionsEnd os)) :
    ∃ n r, Csos.dhcpMessage p n dhcpOptions = some r := by
  obtain ⟨b, hb, hsb⟩ := exists_stop_of_encoded (fun o ho => (hpairs o ho).2.1) hlies hstop
  obtain ⟨n, hn⟩ := dhcpMessage_of_visits hb hsb
  exact ⟨n, _, hn⟩

/-- And an offer that it finds is an option of the list or the end. -/
theorem PaddedInPairs.offer (hpairs : PaddedInPairs os)
    (hlies : Lies p dhcpOptions (encodeAll os)) (hstop : MessageStop p (optionsEnd os))
    (hn : ∃ n, Csos.dhcpMessage p n dhcpOptions = some (some .offer)) :
    (∃ a ∈ starts dhcpOptions os, IsMessage p a 2) ∨ IsMessage p (optionsEnd os) 2 := by
  obtain ⟨n, hn⟩ := hn
  obtain ⟨b, hb, hoffer⟩ := exists_offer hn
  rcases visits_encoded (fun o ho => (hpairs o ho).2.1) hlies hstop hb with hb | rfl
  · exact Or.inl ⟨b, hb, hoffer⟩
  · exact Or.inr hoffer

theorem EndsWithAck.confined (h : EndsWithAck p len os) (hpairs : PaddedInPairs os)
    (hlies : Lies p dhcpOptions (encodeAll os)) : DhcpConfined netif p len := by
  have hstop : MessageStop p (optionsEnd os) := Or.inr (Or.inr h.ack)
  have hin := h.inside
  have hno : ¬ ∃ n, dhcpMessage p n dhcpOptions = some (some .offer) := by
    intro hn
    rcases hpairs.offer hlies hstop hn with ⟨a, ha, hoffer⟩ | hoffer
    · exact h.noOffer a ha hoffer
    · exact absurd (hoffer.2.symm.trans h.ack.2) (by decide)
  refine ⟨hpairs.dhcpMessage hlies hstop, ?_, fun hn => absurd hn hno, fun hn => absurd hn hno⟩
  refine scanned_of_encoded hpairs hlies (fun _ => not_messageStop_of_zero) hstop ?_ ?_
  · intro b _ hb x hx
    have := le_of_mem_messageReads hx
    omega
  · intro x hx
    have := le_of_mem_messageReads hx
    omega

theorem EndsWithEnd.confined (h : EndsWithEnd p len os) (hpairs : PaddedInPairs os)
    (hlies : Lies p dhcpOptions (encodeAll os)) : DhcpConfined netif p len := by
  have hstop : MessageStop p (optionsEnd os) := Or.inl h.atEnd
  have hin := h.inside
  refine ⟨hpairs.dhcpMessage hlies hstop, ?_, fun _ => ?_, fun hn => ?_⟩
  · refine scanned_of_encoded hpairs hlies (fun _ => not_messageStop_of_zero) hstop ?_ ?_
    · intro b _ hb x hx
      have := le_of_mem_messageReads hx
      omega
    · intro x hx
      rw [messageReads, if_pos h.atEnd, List.mem_singleton] at hx
      omega
  · obtain ⟨b, hb, hsb⟩ := exists_stop_of_encoded (fun o ho => (hpairs o ho).2.1) hlies h.atEnd
    exact dhcpOfferLoop_of_visits hb hsb netif
  · have hoffer : ∃ a ∈ starts dhcpOptions os, IsMessage p a 2 :=
      (hpairs.offer hlies hstop hn).resolve_right fun hat => not_isEnd_of_isMessage hat h.atEnd
    refine scanned_of_encoded hpairs hlies (fun _ => not_isEnd_of_zero) h.atEnd ?_ ?_
    · intro b hb hle x hx
      unfold offerReads at hx
      split_ifs at hx with hcode hrouter
      · rw [List.mem_singleton] at hx
        omega
      · have hbound := h.addresses hoffer b hb hrouter
        simp at hx
        omega
      · simp at hx
        omega
    · intro x hx
      rw [offerReads, if_pos h.atEnd, List.mem_singleton] at hx
      omega

/-- The scans of a reply stay within it, and skip padding, if and only if its
options are readable. -/
theorem dhcpConfined_iff (netif : Netif) (buff : Frame) :
    (buff.payload dhcpOp = 2 → DhcpConfined netif buff.payload buff.length)
      ↔ buff.payload dhcpOp ≠ 2 ∨ DhcpReadable buff.payload buff.length := by
  constructor
  · intro h
    by_cases hop : buff.payload dhcpOp = 2
    · exact Or.inr (h hop).readable
    · exact Or.inl hop
  · rintro (hop | ⟨os, hpairs, hlies, hack | hend⟩) hreply
    · exact absurd hreply hop
    · exact hack.confined hpairs hlies
    · exact hend.confined hpairs hlies

/-- An offer with one byte of padding before the message type. -/
def paddedOffer : Frame where
  length := 590
  payload := fun b =>
    if b = 42 then 2 else if b = 283 then 53 else if b = 284 then 1 else if b = 285 then 2
    else if b = 286 then 255 else 0

/-- The padding takes the message type for its length. -/
theorem dhcpConfined_fails :
    ¬ ∀ (netif : Netif) (buff : Frame),
      buff.payload dhcpOp = 2 → DhcpConfined netif buff.payload buff.length := by
  intro h
  have hpads := (h testNetif paddedOffer rfl).message.pads
  exact absurd (hpads.pair (.here dhcpOptions) rfl) (by decide)

end Csos
