import Csos.NetChecksum

/-!
# The checksum 0 (`calc_udp_checksum` and `calc_tcp_checksum`)

A checksum of 0 on the wire means that there is none, so both functions put
0xFFFF for it, which is the same number in one's complement. But they ask
whether the complement of the sum in 32 bits is 0, which it never is, and cut
it down to 16 bits only then. So 0 is returned whenever the words add up to a
multiple of 0xFFFF. The counter of the loop over a UDP segment has 16 bits and
does not get past 65535 bytes.
-/

namespace Csos

open Lib Lib.Bytes

/-- A call of one of the functions, with the places of the IPv4 header and the
segment. The data of a TCP segment lies behind `hdr` bytes of header. -/
inductive ChecksumCall where
  | udp (ip seg dlen : Nat)
  | tcp (ip seg hdr dlen : Nat)

namespace ChecksumCall

def ip : ChecksumCall → Nat
  | .udp ip .. | .tcp ip .. => ip

def seg : ChecksumCall → Nat
  | .udp _ seg _ | .tcp _ seg .. => seg

def proto : ChecksumCall → Nat
  | .udp .. => ipTypeUdp
  | .tcp .. => ipTypeTcp

/-- The length of the segment. -/
def len : ChecksumCall → Nat
  | .udp _ _ dlen => 8 + dlen
  | .tcp _ _ hdr dlen => hdr + dlen

/-- Half the offset of the field `checksum`. -/
def fieldWord : ChecksumCall → Nat
  | .udp .. => 3
  | .tcp .. => 8

def field (c : ChecksumCall) : Nat := c.seg + 2 * c.fieldWord

def run (p : Bytes) : ChecksumCall → Option (Bytes × Nat)
  | .udp ip seg dlen => calcUdpChecksum p ip seg dlen
  | .tcp ip seg hdr dlen => calcTcpChecksum p ip seg (seg + hdr) dlen

/-- The segment lies behind the IPv4 header, and its length is one that goes
into the field for it. -/
def Fits (p : Bytes) : ChecksumCall → Prop
  | .udp ip seg dlen => ip + 20 ≤ seg ∧ 8 + dlen < 0x10000
  | .tcp ip seg hdr dlen => ip + 20 ≤ seg ∧ 20 ≤ hdr ∧ 2 ∣ hdr
      ∧ p.beWord (ip + 2) = ipv4HeaderLen p ip + (hdr + dlen)

/-- The loop over a UDP segment comes to its end. -/
def Ends : ChecksumCall → Prop
  | .udp _ _ dlen => 8 + dlen ≠ 0xFFFF
  | .tcp .. => True

/-- The words that the checksum covers. -/
def words (p : Bytes) (c : ChecksumCall) : List Nat :=
  pseudoHeader p c.ip c.proto c.len ++ p.beWords c.seg c.len

/-- These words, with 0 for the checksum. -/
def cleared (p : Bytes) (c : ChecksumCall) : List Nat := c.words (p.store16 c.field 0)

/-- The checksum that belongs there: the complement of the sum, and 0xFFFF for
0. -/
def wire (p : Bytes) (c : ChecksumCall) : Nat :=
  if onesSum (c.cleared p) = 0xFFFF then 0xFFFF else 0xFFFF - onesSum (c.cleared p)

/-- The call returns this checksum, which is not 0, and with it everything
adds up to 0xFFFF. -/
def Good (p : Bytes) (c : ChecksumCall) : Prop :=
  ∃ q v, c.run p = some (q, v) ∧ v = htons (c.wire p) ∧ v ≠ 0
    ∧ onesSum (c.words (q.store16 c.field v)) = 0xFFFF

variable {p q : Bytes} {c : ChecksumCall}

theorem Fits.ip_le (h : c.Fits p) : c.ip + 20 ≤ c.seg := by
  cases c with
  | udp ip seg dlen => exact h.1
  | tcp ip seg hdr dlen => exact h.1

theorem Fits.len_lt (h : c.Fits p) : c.len < 0x10000 := by
  cases c with
  | udp ip seg dlen => exact h.2
  | tcp ip seg hdr dlen =>
      have htotal := h.2.2.2
      have hlt := p.beWord_lt (ip + 2)
      show hdr + dlen < 0x10000
      omega

theorem Fits.field_le (h : c.Fits p) : 2 * c.fieldWord + 2 ≤ c.len := by
  cases c with
  | udp ip seg dlen =>
      show 8 ≤ 8 + dlen
      omega
  | tcp ip seg hdr dlen =>
      have hhdr := h.2.1
      show 18 ≤ hdr + dlen
      omega

theorem proto_bounds : 0 < c.proto ∧ c.proto < 0x10000 := by
  cases c with
  | udp => exact (by decide : 0 < ipTypeUdp ∧ ipTypeUdp < 0x10000)
  | tcp => exact (by decide : 0 < ipTypeTcp ∧ ipTypeTcp < 0x10000)

/-- The pseudo header lies before the segment. -/
theorem pseudoHeader_congr (hsame : ∀ b < c.ip + 20, q b = p b) :
    pseudoHeader q c.ip c.proto c.len = pseudoHeader p c.ip c.proto c.len := by
  have hword : ∀ a, a + 1 < c.ip + 20 → q.beWord a = p.beWord a := fun a ha =>
    beWord_congr (hsame _ (by omega)) (hsame _ ha)
  rw [pseudoHeader, pseudoHeader, hword _ (by omega), hword _ (by omega), hword _ (by omega),
    hword _ (by omega)]

theorem pseudoHeader_store16 (h : c.Fits p) {v : Nat} :
    pseudoHeader (q.store16 c.field v) c.ip c.proto c.len = pseudoHeader q c.ip c.proto c.len := by
  have hip := h.ip_le
  refine pseudoHeader_congr fun b hb => store16_outside (Or.inl ?_)
  rw [field]
  omega

theorem words_lt (h : c.Fits p) : ∀ w ∈ c.words q, w < 0x10000 := by
  intro w hw
  rcases List.mem_append.mp hw with hw | hw
  · exact pseudoHeader_lt proto_bounds.2 h.len_lt w hw
  · exact beWords_lt w hw

/-- The words never are all zero. -/
theorem words_sum_pos : 0 < (c.words p).sum := by
  have hproto := (@proto_bounds c).1
  simp only [words, pseudoHeader, List.sum_append, List.sum_cons]
  omega

/-- What the call returns. -/
theorem run_eq (h : c.Fits p) (hends : c.Ends) :
    c.run p = some (p.store16 c.field 0, htons (0xFFFF - onesSum (c.cleared p))) := by
  have hsum : (c.cleared p).sum = (pseudoHeader p c.ip c.proto c.len).sum
      + ((p.store16 c.field 0).beWords c.seg c.len).sum := by
    rw [cleared, words, pseudoHeader_store16 h, List.sum_append]
  have hfolds := folds_onesSum (words_lt (q := p.store16 c.field 0) h)
  rw [← cleared, hsum] at hfolds
  cases c with
  | udp ip seg dlen =>
      have hlen : 8 + dlen ≠ 0xFFFF := hends
      have hlt := h.2
      obtain ⟨r, heq, hr⟩ := @calcUdpChecksum_eq p ip seg dlen (by omega)
      rw [run, heq, hr.unique hfolds]
      rfl
  | tcp ip seg hdr dlen =>
      obtain ⟨-, hhdr, ⟨k, rfl⟩, htotal⟩ := h
      obtain ⟨r, heq, hr⟩ := @calcTcpChecksum_eq p ip seg k dlen (by omega) htotal
      rw [run, heq, hr.unique hfolds]
      rfl

/-- The counter of the loop is even and has 16 bits. -/
theorem checksumLoop_none {start n i sum : Nat} (heven : 2 ∣ i) (hi : i < 0x10000) :
    checksumLoop 0x10000 p start 0xFFFF n i sum = none := by
  induction n generalizing i sum with
  | zero => rfl
  | succ n ih =>
      rw [checksumLoop, if_pos (show i < 0xFFFF by omega)]
      exact ih (by omega) (Nat.mod_lt _ (by decide))

theorem Fits.run_none (h : c.Fits p) (hends : ¬ c.Ends) : c.run p = none := by
  cases c with
  | udp ip seg dlen =>
      have hlen : 8 + dlen = 0xFFFF := not_not.mp hends
      have hu16 : u16 (8 + dlen) = 0xFFFF := by rw [hlen]; rfl
      rw [run, calcUdpChecksum, hu16, checksumLoop_none (by decide) (by decide)]
      rfl
  | tcp ip seg hdr dlen => exact absurd trivial hends

/-- In the cleared field the complement of the sum makes it 0xFFFF. -/
theorem Fits.onesSum_inserted (h : c.Fits p) :
    onesSum (c.words ((p.store16 c.field 0).store16 c.field
      (htons (0xFFFF - onesSum (c.cleared p))))) = 0xFFFF := by
  have hfolds := folds_onesSum (words_lt (q := p.store16 c.field 0) h)
  rw [← cleared] at hfolds
  nth_rewrite 1 [cleared, words] at hfolds
  rw [List.sum_append] at hfolds
  rw [words, pseudoHeader_store16 h]
  exact onesSum_write (pseudoHeader_lt proto_bounds.2 h.len_lt) h.field_le beWord_store16_zero
    hfolds fun _ _ _ => rfl

theorem htons_ne_zero {v : Nat} (h : 0 < v) (h' : v < 0x10000) : htons v ≠ 0 := by
  rw [htons_eq]
  omega

/-- The checksum of a segment is right and not 0 if and only if the loop ends
and the words do not add up to a multiple of 0xFFFF. -/
theorem checksum_good_iff (p : Bytes) (c : ChecksumCall) (h : c.Fits p) :
    c.Good p ↔ c.Ends ∧ ¬ 0xFFFF ∣ (c.cleared p).sum := by
  have hfolds := folds_onesSum (words_lt (q := p.store16 c.field 0) h)
  rw [← cleared] at hfolds
  have hlt := hfolds.lt
  have hfull := hfolds.eq_ffff_iff words_sum_pos
  by_cases hends : c.Ends
  · rw [and_iff_right hends]
    constructor
    · rintro ⟨q, v, hrun, -, hne, -⟩ hdvd
      obtain ⟨-, rfl⟩ := Prod.mk.inj (Option.some.inj ((run_eq h hends).symm.trans hrun))
      rw [hfull.mpr hdvd] at hne
      exact hne rfl
    · intro hdvd
      have hne : onesSum (c.cleared p) ≠ 0xFFFF := mt hfull.mp hdvd
      refine ⟨_, _, run_eq h hends, ?_, htons_ne_zero (by omega) (by omega), h.onesSum_inserted⟩
      rw [wire, if_neg hne]
  · refine iff_of_false ?_ fun hc => hends hc.1
    rintro ⟨q, v, hrun, -⟩
    rw [h.run_none hends] at hrun
    cases hrun

/-- A UDP segment without data, from a port with this high and low byte. -/
def emptyUdp (high low : BitVec 8) : Bytes := fun b =>
  if b = 34 then high else if b = 35 then low else 0

theorem checksum_good_dhcp :
    (udp 14 34 0).Good (emptyUdp 0 68)
      ↔ (udp 14 34 0).Ends ∧ ¬ 0xFFFF ∣ ((udp 14 34 0).cleared (emptyUdp 0 68)).sum :=
  checksum_good_iff (emptyUdp 0 68) (udp 14 34 0) ⟨by decide, by decide⟩

/-- From the port 65510 the words add up to 0xFFFF. -/
theorem checksum_good_fails : ¬ ∀ (p : Bytes) (c : ChecksumCall), c.Fits p → c.Good p := by
  intro hall
  obtain ⟨q, v, hrun, -, hne, -⟩ := hall (emptyUdp 0xFF 0xE6) (udp 14 34 0) ⟨by decide, by decide⟩
  have hzero : ((udp 14 34 0).run (emptyUdp 0xFF 0xE6)).map Prod.snd = some 0 := by decide +kernel
  rw [hrun] at hzero
  exact hne (Option.some.inj hzero)

end ChecksumCall

end Csos
