import Csos.Lib.OnesComplement
import Csos.NetBuild

/-!
# Every built packet verifies

A receiver adds up the words of the IPv4 header, and the words of the
segment together with the pseudo header; both sums are 0xFFFF for a
packet that came through unchanged (`Accepted`).

Each checksum function adds the same words in 32 bits and folds the
carries at the end, which gives the one's complement sum
(`foldChecksum_folds`). What it returns is stored with its bytes swapped,
that is big-endian (`beWord_store16_htons`), over a word that was zero.
-/

namespace Csos

open Lib

/-! ## Byte order -/

theorem shiftLeft_or {x y : Nat} (hy : y < 0x100) : (x <<< 8) ||| y = 0x100 * x + y := by
  rw [← Nat.shiftLeft_add_eq_or_of_lt (i := 8) hy, Nat.shiftLeft_eq]
  omega

theorem htons_eq (v : Nat) : htons v = v / 0x100 % 0x100 + v % 0x100 * 0x100 := by
  have hhigh : (v &&& 0xFF00) >>> 8 = v / 0x100 % 0x100 := by
    rw [Nat.shiftRight_and_distrib, Nat.shiftRight_eq_div_pow]
    exact Nat.and_two_pow_sub_one_eq_mod _ 8
  have hlow : v &&& 0xFF = v % 0x100 := Nat.and_two_pow_sub_one_eq_mod v 8
  rw [htons, hhigh, hlow, Nat.or_comm, shiftLeft_or (Nat.mod_lt _ (by decide))]
  omega

theorem ntohs_eq (v : Nat) : ntohs v = v / 0x100 % 0x100 + v % 0x100 * 0x100 := htons_eq v

section Words

variable {p p' : Bytes} {a v : Nat}

/-- A field that holds `htons(v)` is `v` on the wire. -/
theorem beWord_store16_htons (hv : v < 0x10000) : (p.store16 a (htons v)).beWord a = v := by
  have h₀ : p.store16 a (htons v) a = BitVec.ofNat 8 (htons v) := if_pos rfl
  have h₁ : p.store16 a (htons v) (a + 1) = BitVec.ofNat 8 (htons v / 0x100) := by
    simp [Bytes.store16]
  have hhigh : v / 0x100 < 0x100 := by omega
  have hlow : v % 0x100 < 0x100 := Nat.mod_lt _ (by decide)
  have hmod : htons v % 0x100 = v / 0x100 := by
    rw [htons_eq, Nat.add_mul_mod_self_right, Nat.mod_mod, Nat.mod_eq_of_lt hhigh]
  have hdiv : htons v / 0x100 = v % 0x100 := by
    rw [htons_eq, Nat.add_mul_div_right _ _ (by decide), Nat.mod_eq_of_lt hhigh,
      Nat.div_eq_of_lt hhigh, Nat.zero_add]
  rw [Bytes.beWord, h₀, h₁, BitVec.toNat_ofNat, BitVec.toNat_ofNat, hdiv]
  show 0x100 * (htons v % 0x100) + v % 0x100 % 0x100 = v
  rw [hmod, Nat.mod_eq_of_lt hlow, Nat.div_add_mod]

theorem beWord_store16_zero : (p.store16 a 0).beWord a = 0 := by
  simp [Bytes.beWord, Bytes.store16]

theorem ntohs_load16 : ntohs (p.load16 a) = p.beWord a := by
  have h₀ := (p a).isLt
  have h₁ := (p (a + 1)).isLt
  rw [ntohs_eq, Bytes.load16, Bytes.beWord]
  omega

theorem addrWord_eq : addrWord p a = p.beWord a := shiftLeft_or (p (a + 1)).isLt

/-! ## The checksum functions -/

theorem foldChecksum_folds {c : Nat} (hc : c < 0x100000000) : Folds c (foldChecksum c) := by
  induction c using Nat.strong_induction_on with
  | h c ih =>
      rw [foldChecksum, shiftRight_16, and_0xFFFF]
      by_cases h0 : c / 0x10000 = 0
      · rw [if_neg (not_not.mpr h0)]
        exact folds_self (by omega)
      · have hround : u32 (c % 0x10000 + c / 0x10000) = c % 0x10000 + c / 0x10000 :=
          Nat.mod_eq_of_lt (by omega)
        rw [if_pos h0, hround]
        exact (ih _ (by omega) (by omega)).of_round

theorem foldChecksum_eq {ws : List Nat} (hws : ∀ w ∈ ws, w < 0x10000)
    (hsum : ws.sum < 0x100000000) : foldChecksum ws.sum = onesSum ws :=
  (foldChecksum_folds hsum).unique (folds_onesSum hws)

/-- The word that one round of the loop adds. -/
theorem sum_beWords_round {start length i : Nat} (hi : i < length) :
    (p.beWords (start + i) (length - i)).sum
      = (if i + 1 < length then ((p (start + i)).toNat <<< 8) ||| (p (start + i + 1)).toNat
          else (p (start + i)).toNat <<< 8)
        + (p.beWords (start + (i + 2)) (length - (i + 2))).sum := by
  by_cases htwo : i + 1 < length
  · obtain ⟨m, hm⟩ : ∃ m, length - i = m + 2 := ⟨length - i - 2, by omega⟩
    have hm' : length - (i + 2) = m := by omega
    rw [if_pos htwo, hm, hm', Bytes.beWords, List.sum_cons, Bytes.beWord,
      shiftLeft_or (p (start + i + 1)).isLt, Nat.add_assoc start i 2]
  · have hone : length - i = 1 := by omega
    have hnone : length - (i + 2) = 0 := by omega
    rw [if_neg htwo, hone, hnone, Bytes.beWords, Bytes.beWords, List.sum_singleton, List.sum_nil,
      Nat.shiftLeft_eq]
    omega

/-- The loop adds the words that are left, as long as its counter does
not wrap. -/
theorem checksumLoop_eq {wrap start length : Nat} (hwrap : length + 2 ≤ wrap) {n i c : Nat}
    (hn : length + 2 ≤ 2 * n + i) (hi : i ≤ length + 1)
    (hc : c + (p.beWords (start + i) (length - i)).sum < 0x100000000) :
    checksumLoop wrap p start length n i c
      = some (c + (p.beWords (start + i) (length - i)).sum) := by
  induction n generalizing i c with
  | zero => omega
  | succ n ih =>
      rw [checksumLoop]
      by_cases hlt : i < length
      · rw [sum_beWords_round hlt] at hc ⊢
        rw [if_pos hlt]
        dsimp only
        generalize (if i + 1 < length then
            ((p (start + i)).toNat <<< 8) ||| (p (start + i + 1)).toNat
          else (p (start + i)).toNat <<< 8) = word at hc ⊢
        have hi2 : (i + 2) % wrap = i + 2 := Nat.mod_eq_of_lt (by omega)
        have hword : u32 (c + word) = c + word := Nat.mod_eq_of_lt (by omega)
        rw [hi2, hword, ih (by omega) (by omega) (by omega), Nat.add_assoc]
      · have h0 : length - i = 0 := by omega
        rw [if_neg hlt, h0, Bytes.beWords, List.sum_nil, Nat.add_zero]

/-- The whole loop. -/
theorem checksumLoop_start {wrap start length c : Nat} (hwrap : length + 2 ≤ wrap)
    (hc : c + (p.beWords start length).sum < 0x100000000) :
    checksumLoop wrap p start length (length + 1) 0 c = some (c + (p.beWords start length).sum) :=
  checksumLoop_eq (i := 0) hwrap (by omega) (by omega) hc

/-- What is stored for a sum that folds to `r`. -/
theorem u16_not32 {r : Nat} (hr : r < 0x10000) : u16 (not32 r) = 0xFFFF - r := by
  rw [u16, not32]
  omega

/-- The value 0xFFFF is never put for 0: `~checksum` has 32 bits. -/
theorem endChecksum_eq {r : Nat} (hr : r < 0x10000) : endChecksum r = htons (0xFFFF - r) := by
  have hne : not32 r ≠ 0 := by
    rw [not32]
    omega
  rw [endChecksum, if_pos hne, u16_not32 hr]

theorem calcChecksum_eq {data length : Nat} (hlen : length < 0x10000) :
    calcChecksum p data length = some (htons (0xFFFF - onesSum (p.beWords data length))) := by
  have hle := @Bytes.sum_beWords_le p data length
  have hsum : (p.beWords data length).sum < 0x100000000 := by omega
  have hlt := (folds_onesSum (p.beWords_lt (a := data) (n := length))).lt
  rw [calcChecksum, checksumLoop_start (by omega) (by rwa [Nat.zero_add]), Nat.zero_add]
  show some (htons (u16 (not32 (foldChecksum (p.beWords data length).sum)))) = _
  rw [foldChecksum_eq Bytes.beWords_lt hsum, u16_not32 hlt]

/-- The words of the pseudo header, for the IPv4 header at `ip`. -/
def pseudoHeader (p : Bytes) (ip proto length : Nat) : List Nat :=
  [p.beWord (ip + 12), p.beWord (ip + 14), p.beWord (ip + 16), p.beWord (ip + 18), proto, length]

theorem pseudoHeader_lt {ip proto length : Nat} (hproto : proto < 0x10000)
    (hlen : length < 0x10000) : ∀ w ∈ pseudoHeader p ip proto length, w < 0x10000 := by
  simp only [pseudoHeader, List.forall_mem_cons]
  exact ⟨p.beWord_lt _, p.beWord_lt _, p.beWord_lt _, p.beWord_lt _, hproto, hlen, nofun⟩

theorem pseudoHeader_sum_le {ip proto length : Nat} (hproto : proto < 0x10000)
    (hlen : length < 0x10000) : (pseudoHeader p ip proto length).sum ≤ 6 * 0x10000 := by
  have h₁ := p.beWord_lt (ip + 12)
  have h₂ := p.beWord_lt (ip + 14)
  have h₃ := p.beWord_lt (ip + 16)
  have h₄ := p.beWord_lt (ip + 18)
  simp only [pseudoHeader, List.sum_cons, List.sum_nil]
  omega

theorem pseudoChecksum_eq {ip proto length : Nat} (hproto : proto < 0x10000)
    (hlen : length < 0x10000) :
    pseudoChecksum p ip proto length = (pseudoHeader p ip proto length).sum := by
  have h₁ := p.beWord_lt (ip + 12)
  have h₂ := p.beWord_lt (ip + 14)
  have h₃ := p.beWord_lt (ip + 16)
  have h₄ := p.beWord_lt (ip + 18)
  simp only [pseudoChecksum, pseudoHeader, addrWord_eq, u32, List.sum_cons, List.sum_nil]
  omega

/-- Over a word that was zero goes the complement of what everything
folds to. -/
theorem onesSum_write {ws : List Nat} {start n k r : Nat} (hws : ∀ w ∈ ws, w < 0x10000)
    (hk : 2 * k + 2 ≤ n) (hzero : p.beWord (start + 2 * k) = 0)
    (hr : Folds (ws.sum + (p.beWords start n).sum) r)
    (hsame : ∀ b, start ≤ b → b < start + n →
      p' b = p.store16 (start + 2 * k) (htons (0xFFFF - r)) b) :
    onesSum (ws ++ p'.beWords start n) = 0xFFFF := by
  have hwords : p'.beWords start n
      = (p.store16 (start + 2 * k) (htons (0xFFFF - r))).beWords start n :=
    Bytes.beWords_congr hsame
  have hsum := @Bytes.sum_beWords_write p (p.store16 (start + 2 * k) (htons (0xFFFF - r))) start n k
    hk (fun b _ _ hne hne' => Bytes.store16_outside (by omega)) hzero
  have hlt := hr.lt
  rw [beWord_store16_htons (by omega)] at hsum
  refine onesSum_complement (fun w hw => ?_) hr ?_
  · rcases List.mem_append.mp hw with hw | hw
    · exact hws w hw
    · exact Bytes.beWords_lt w hw
  · rw [hwords, List.sum_append, hsum, Nat.add_assoc]

theorem calcUdpChecksum_eq {ip udp dlen : Nat} (hlen : 8 + dlen + 2 ≤ 0x10000) :
    ∃ r, calcUdpChecksum p ip udp dlen = some (p.store16 (udp + 6) 0, htons (0xFFFF - r))
      ∧ Folds ((pseudoHeader p ip ipTypeUdp (8 + dlen)).sum
          + ((p.store16 (udp + 6) 0).beWords udp (8 + dlen)).sum) r := by
  have hlt : 8 + dlen < 0x10000 := by omega
  have hu16 : u16 (8 + dlen) = 8 + dlen := Nat.mod_eq_of_lt hlt
  have hps := @pseudoHeader_sum_le p ip ipTypeUdp (8 + dlen) (by decide) hlt
  have hpseudo := @pseudoChecksum_eq p ip ipTypeUdp (8 + dlen) (by decide) hlt
  rw [calcUdpChecksum, hu16, hpseudo]
  generalize (pseudoHeader p ip ipTypeUdp (8 + dlen)).sum = c at *
  generalize p.store16 (udp + 6) 0 = q
  have hle := @Bytes.sum_beWords_le q udp (8 + dlen)
  have hloop : checksumLoop 0x10000 q udp (8 + dlen) (8 + dlen + 1) 0 c
      = some (c + (q.beWords udp (8 + dlen)).sum) := checksumLoop_start (by omega) (by omega)
  have hfold := foldChecksum_folds (c := c + (q.beWords udp (8 + dlen)).sum) (by omega)
  refine ⟨_, ?_, hfold⟩
  simp only [hloop, Option.bind_eq_bind, Option.bind_some, Option.pure_def,
    endChecksum_eq hfold.lt]

/-- The header of `2 * k` bytes and the data are summed by two loops. -/
theorem calcTcpChecksum_eq {ip tcp k dlen : Nat} (hk : 0 < k)
    (htotal : p.beWord (ip + 2) = ipv4HeaderLen p ip + (2 * k + dlen)) :
    ∃ r, calcTcpChecksum p ip tcp (tcp + 2 * k) dlen
        = some (p.store16 (tcp + 16) 0, htons (0xFFFF - r))
      ∧ Folds ((pseudoHeader p ip ipTypeTcp (2 * k + dlen)).sum
          + ((p.store16 (tcp + 16) 0).beWords tcp (2 * k + dlen)).sum) r := by
  have hlt : 2 * k + dlen < 0x10000 := by
    have := p.beWord_lt (ip + 2)
    omega
  have hhdr : u16 (ntohs (p.load16 (ip + 2)) + 0x20000 - ipv4HeaderLen p ip - dlen) = 2 * k := by
    rw [ntohs_load16, htotal, u16]
    omega
  have hu16 : u16 (2 * k + dlen) = 2 * k + dlen := Nat.mod_eq_of_lt hlt
  have hps := @pseudoHeader_sum_le p ip ipTypeTcp (2 * k + dlen) (by decide) hlt
  have hpseudo := @pseudoChecksum_eq p ip ipTypeTcp (2 * k + dlen) (by decide) hlt
  rw [calcTcpChecksum, hhdr, hu16, hpseudo]
  generalize (pseudoHeader p ip ipTypeTcp (2 * k + dlen)).sum = c at *
  generalize p.store16 (tcp + 16) 0 = q
  have hsplit : (q.beWords tcp (2 * k + dlen)).sum
      = (q.beWords tcp (2 * k)).sum + (q.beWords (tcp + 2 * k) dlen).sum := by
    rw [← List.sum_append, ← Bytes.beWords_add]
  rw [hsplit, ← Nat.add_assoc]
  have hle := @Bytes.sum_beWords_le q tcp (2 * k)
  have hle' := @Bytes.sum_beWords_le q (tcp + 2 * k) dlen
  have hloop : checksumLoop 0x10000 q tcp (2 * k) (2 * k + 1) 0 c
      = some (c + (q.beWords tcp (2 * k)).sum) := checksumLoop_start (by omega) (by omega)
  have hloop' : checksumLoop 0x10000 q (tcp + 2 * k) dlen (dlen + 1) 0
      (c + (q.beWords tcp (2 * k)).sum)
      = some (c + (q.beWords tcp (2 * k)).sum + (q.beWords (tcp + 2 * k) dlen).sum) :=
    checksumLoop_start (by omega) (by omega)
  have hfold := foldChecksum_folds
    (c := c + (q.beWords tcp (2 * k)).sum + (q.beWords (tcp + 2 * k) dlen).sum) (by omega)
  refine ⟨_, ?_, hfold⟩
  simp only [hloop, hloop', Option.bind_eq_bind, Option.bind_some, Option.pure_def,
    endChecksum_eq hfold.lt]

end Words

/-! ## The receiver -/

/-- The words that a segment's checksum covers besides the segment. -/
def coveredWords (p : Bytes) (tp len : Nat) : List Nat :=
  if tp = ipTypeIcmp then [] else pseudoHeader p ipv4Base tp len

/-- The frame carries an IPv4 packet with `len` bytes of protocol `tp`
behind its header, and both checksums are right. The length of a UDP
segment is also in its header. -/
structure Accepted (p : Bytes) (tp len : Nat) : Prop where
  type : p.beWord ethType = ethTypeIPv4
  proto : (p ipv4Proto).toNat = tp
  total : p.beWord ipv4TotalLen = ipv4HeaderLen p ipv4Base + len
  header : onesSum (p.beWords ipv4Base (ipv4HeaderLen p ipv4Base)) = 0xFFFF
  segment : onesSum (coveredWords p tp len
    ++ p.beWords (ipv4Base + ipv4HeaderLen p ipv4Base) len) = 0xFFFF
  udp : tp = ipTypeUdp → p.beWord (ipv4Base + ipv4HeaderLen p ipv4Base + 4) = len

/-! ## The headers -/

/-- The headers are filled in, but for the checksums. -/
structure Ready (p : Bytes) (tp len : Nat) : Prop where
  type : p.beWord ethType = ethTypeIPv4
  ihl : p ipv4Ihl = 0x45
  proto : (p ipv4Proto).toNat = tp
  total : p.beWord ipv4TotalLen = 20 + len
  zero : p.beWord ipv4Checksum = 0

variable {p p' : Bytes} {tp len dlen : Nat}

theorem Ready.headerLen (h : Ready p tp len) : ipv4HeaderLen p ipv4Base = 20 := by
  rw [ipv4HeaderLen, h.ihl]
  rfl

/-- Nothing but the two headers matters. -/
theorem Ready.congr (h : Ready p tp len) (hsame : ∀ b, 12 ≤ b → b < 34 → p' b = p b) :
    Ready p' tp len := by
  constructor
  case type => rw [Bytes.beWord_congr (hsame _ (by decide) (by decide))
    (hsame _ (by decide) (by decide)), h.type]
  case ihl => rw [hsame _ (by decide) (by decide), h.ihl]
  case proto => rw [hsame _ (by decide) (by decide), h.proto]
  case total => rw [Bytes.beWord_congr (hsame _ (by decide) (by decide))
    (hsame _ (by decide) (by decide)), h.total]
  case zero => rw [Bytes.beWord_congr (hsame _ (by decide) (by decide))
    (hsame _ (by decide) (by decide)), h.zero]

/-- Once the header checksum is there, only the segment is left. -/
theorem Ready.accepted (h : Ready p tp len)
    (hsame : ∀ b, 12 ≤ b → b < 34 →
      p' b = p.store16 ipv4Checksum (htons (0xFFFF - onesSum (p.beWords ipv4Base 20))) b)
    (hseg : onesSum (coveredWords p' tp len ++ p'.beWords 34 len) = 0xFFFF)
    (hudp : tp = ipTypeUdp → p'.beWord 38 = len) : Accepted p' tp len := by
  have hout : ∀ b, 12 ≤ b → b < 34 → b < 24 ∨ 26 ≤ b → p' b = p b := fun b hb hb' hne =>
    (hsame b hb hb').trans (Bytes.store16_outside (by omega))
  have hihl : ipv4HeaderLen p' ipv4Base = 20 := by
    rw [ipv4HeaderLen, hout _ (by decide) (by decide) (by decide), h.ihl]
    rfl
  have hword : ∀ a, 12 ≤ a → a < 23 → p'.beWord a = p.beWord a := fun a ha ha' =>
    Bytes.beWord_congr (hout _ ha (by omega) (by omega)) (hout _ (by omega) (by omega) (by omega))
  constructor
  case type => rw [hword _ (by decide) (by decide), h.type]
  case proto => rw [hout _ (by decide) (by decide) (by decide), h.proto]
  case total => rw [hword _ (by decide) (by decide), h.total, hihl]
  case header =>
    have hfold : Folds (([] : List Nat).sum + (p.beWords ipv4Base 20).sum)
        (onesSum (p.beWords ipv4Base 20)) := by
      rw [List.sum_nil, Nat.zero_add]
      exact folds_onesSum Bytes.beWords_lt
    have hbase : ipv4Base = 14 := rfl
    rw [hihl]
    show onesSum ([] ++ p'.beWords ipv4Base 20) = 0xFFFF
    exact onesSum_write (k := 5) (fun w hw => nomatch hw) (by decide) h.zero hfold
      fun b hb hb' => hsame b (by omega) (by omega)
  case segment =>
    rw [hihl]
    exact hseg
  case udp =>
    rw [hihl]
    exact hudp

/-! ## `netif_set_checksum` -/

variable {buff : Frame}

/-- The header checksum, in a buffer whose headers are filled in. -/
def withHeaderSum (p : Bytes) : Bytes :=
  p.store16 ipv4Checksum (htons (0xFFFF - onesSum (p.beWords ipv4Base 20)))

theorem withHeaderSum_outside {b : Nat} (h : b < 24 ∨ 26 ≤ b) : withHeaderSum p b = p b :=
  Bytes.store16_outside h

theorem isIcmpEcho_congr {a : Nat} (h₀ : p' a = p a) (h₁ : p' (a + 1) = p (a + 1)) :
    isIcmpEcho p' a = isIcmpEcho p a := by
  rw [isIcmpEcho, h₀, h₁, isIcmpEcho]

theorem calcUdpChecksum_fst {q : Bytes} {ip udp checksum : Nat}
    (h : calcUdpChecksum p ip udp dlen = some (q, checksum)) : q = p.store16 (udp + 6) 0 := by
  rw [calcUdpChecksum] at h
  obtain ⟨c, -, h⟩ := Option.bind_eq_some_iff.mp h
  obtain ⟨rfl, -⟩ := Prod.mk.inj (Option.some.inj h)
  rfl

theorem calcTcpChecksum_fst {q : Bytes} {ip tcp payload checksum : Nat}
    (h : calcTcpChecksum p ip tcp payload dlen = some (q, checksum)) :
    q = p.store16 (tcp + 16) 0 := by
  rw [calcTcpChecksum] at h
  obtain ⟨c, -, h⟩ := Option.bind_eq_some_iff.mp h
  obtain ⟨c', -, h⟩ := Option.bind_eq_some_iff.mp h
  obtain ⟨rfl, -⟩ := Prod.mk.inj (Option.some.inj h)
  rfl

/-- The offset of `checksum` in the header of a protocol. -/
def checksumOffset (tp : Nat) : Nat :=
  if tp = ipTypeIcmp then 2 else if tp = ipTypeUdp then 6 else 16

/-- Nothing changes but the two checksums. -/
theorem netifSetChecksum_frame {f : Frame} {length : Nat}
    (h : netifSetChecksum ⟨length, p⟩ dlen = some f) :
    f.length = length ∧ ∀ b, b < 24 ∨ 26 ≤ b →
      b < ipv4Base + ipv4HeaderLen p ipv4Base + checksumOffset (p ipv4Proto).toNat
        ∨ ipv4Base + ipv4HeaderLen p ipv4Base + checksumOffset (p ipv4Proto).toNat + 2 ≤ b →
      f.payload b = p b := by
  rw [netifSetChecksum] at h
  split at h
  case isFalse =>
    obtain rfl := Option.some.inj h
    exact ⟨rfl, fun _ _ _ => rfl⟩
  obtain ⟨checksum, -, h⟩ := Option.bind_eq_some_iff.mp h
  dsimp only at h
  have hsum : ∀ b, b < 24 ∨ 26 ≤ b → p.store16 ipv4Checksum checksum b = p b :=
    fun b hb => Bytes.store16_outside hb
  rw [Bytes.store16_outside (by decide)] at h
  rw [checksumOffset]
  by_cases hicmp : (p ipv4Proto).toNat = ipTypeIcmp
  · rw [if_pos hicmp] at h ⊢
    split at h
    · obtain ⟨checksum', -, h⟩ := Option.bind_eq_some_iff.mp h
      obtain rfl := Option.some.inj h
      exact ⟨rfl, fun b hb hb' => (Bytes.store16_outside hb').trans (hsum b hb)⟩
    · obtain rfl := Option.some.inj h
      exact ⟨rfl, fun b hb _ => hsum b hb⟩
  rw [if_neg hicmp] at h ⊢
  by_cases hudp : (p ipv4Proto).toNat = ipTypeUdp
  · rw [if_pos hudp] at h ⊢
    obtain ⟨⟨r, c⟩, hcalc, h⟩ := Option.bind_eq_some_iff.mp h
    obtain rfl := calcUdpChecksum_fst hcalc
    obtain rfl := Option.some.inj h
    exact ⟨rfl, fun b hb hb' => (Bytes.store16_outside hb').trans
      ((Bytes.store16_outside hb').trans (hsum b hb))⟩
  rw [if_neg hudp] at h ⊢
  split at h
  · obtain ⟨⟨r, c⟩, hcalc, h⟩ := Option.bind_eq_some_iff.mp h
    obtain rfl := calcTcpChecksum_fst hcalc
    obtain rfl := Option.some.inj h
    exact ⟨rfl, fun b hb hb' => (Bytes.store16_outside hb').trans
      ((Bytes.store16_outside hb').trans (hsum b hb))⟩
  · obtain rfl := Option.some.inj h
    exact ⟨rfl, fun b hb _ => hsum b hb⟩

/-- With the header checksum in place, the protocol decides. -/
theorem netifSetChecksum_ready {length : Nat} (h : Ready p tp len) :
    netifSetChecksum ⟨length, p⟩ dlen = (do
      let q := withHeaderSum p
      if tp = ipTypeIcmp then
        if isIcmpEcho q 34 then
          let checksum ← calcChecksum q 34 (8 + dlen)
          return ⟨length, q.store16 36 checksum⟩
        else return ⟨length, q⟩
      else if tp = ipTypeUdp then
        let (q, checksum) ← calcUdpChecksum q ipv4Base 34 dlen
        return ⟨length, q.store16 40 checksum⟩
      else if tp = ipTypeTcp then
        let (q, checksum) ← calcTcpChecksum q ipv4Base 34 54 dlen
        return ⟨length, q.store16 50 checksum⟩
      else return ⟨length, q⟩) := by
  have hproto : (withHeaderSum p ipv4Proto).toNat = tp := by
    rw [withHeaderSum_outside (by decide), h.proto]
  have hck : calcChecksum p ipv4Base 20 = some (htons (0xFFFF - onesSum (p.beWords ipv4Base 20))) :=
    calcChecksum_eq (by decide)
  rw [withHeaderSum] at hproto
  simp only [netifSetChecksum, ntohs_load16, h.type, if_true, h.headerLen, hck,
    Option.bind_eq_bind, Option.bind_some, hproto]
  rfl

/-- An echo request or reply. -/
theorem netifSetChecksum_icmp {length : Nat} (h : Ready p ipTypeIcmp (8 + dlen))
    (hlen : dlen ≤ 2048) (hecho : isIcmpEcho p 34) (hzero : p.beWord icmpChecksum = 0) :
    ∃ f, netifSetChecksum ⟨length, p⟩ dlen = some f ∧ Accepted f.payload ipTypeIcmp (8 + dlen) := by
  have hlt : 8 + dlen < 0x10000 := by omega
  have hecho' : isIcmpEcho (withHeaderSum p) 34 = true := by
    rw [isIcmpEcho_congr (withHeaderSum_outside (by decide)) (withHeaderSum_outside (by decide)),
      hecho]
  have hzero' : (withHeaderSum p).beWord (34 + 2 * 1) = 0 := by
    rw [Bytes.beWord_congr (withHeaderSum_outside (by decide)) (withHeaderSum_outside (by decide)),
      hzero]
  have hfold : Folds (([] : List Nat).sum + ((withHeaderSum p).beWords 34 (8 + dlen)).sum)
      (onesSum ((withHeaderSum p).beWords 34 (8 + dlen))) := by
    rw [List.sum_nil, Nat.zero_add]
    exact folds_onesSum Bytes.beWords_lt
  rw [netifSetChecksum_ready h]
  simp only [if_true, hecho', calcChecksum_eq hlt, Option.bind_eq_bind, Option.bind_some]
  refine ⟨_, rfl, h.accepted (fun b _ hb' => Bytes.store16_outside (by omega)) ?_ nofun⟩
  exact onesSum_write (fun w hw => nomatch hw) (by omega) hzero' hfold fun b _ _ => rfl

/-- The segment of UDP or TCP, whose checksum function clears the field at
`34 + 2 * k` first. -/
theorem Ready.accepted_segment (h : Ready p tp len) (htp : tp ≠ ipTypeIcmp) (htp' : tp < 0x10000)
    (hlen : len < 0x10000) {k r : Nat} (hk : 2 * k + 2 ≤ len)
    (hfold : Folds ((pseudoHeader (withHeaderSum p) ipv4Base tp len).sum
      + (((withHeaderSum p).store16 (34 + 2 * k) 0).beWords 34 len).sum) r)
    (hudp : tp = ipTypeUdp → 3 ≤ k ∧ p.beWord 38 = len) :
    Accepted (((withHeaderSum p).store16 (34 + 2 * k) 0).store16 (34 + 2 * k)
      (htons (0xFFFF - r))) tp len := by
  have hout : ∀ b, b < 34 + 2 * k → ((withHeaderSum p).store16 (34 + 2 * k) 0).store16 (34 + 2 * k)
      (htons (0xFFFF - r)) b = withHeaderSum p b := fun b hb => by
    rw [Bytes.store16_outside (by omega), Bytes.store16_outside (by omega)]
  have hword : ∀ a, a + 1 < 34 + 2 * k → (((withHeaderSum p).store16 (34 + 2 * k) 0).store16
      (34 + 2 * k) (htons (0xFFFF - r))).beWord a = (withHeaderSum p).beWord a := fun a ha =>
    Bytes.beWord_congr (hout _ (by omega)) (hout _ (by omega))
  refine h.accepted (fun b _ hb' => hout b (by omega)) ?_ fun hu => ?_
  · have hbase : ipv4Base = 14 := rfl
    have hcovered : coveredWords (((withHeaderSum p).store16 (34 + 2 * k) 0).store16 (34 + 2 * k)
        (htons (0xFFFF - r))) tp len = pseudoHeader (withHeaderSum p) ipv4Base tp len := by
      rw [coveredWords, if_neg htp, pseudoHeader, pseudoHeader, hword _ (by omega),
        hword _ (by omega), hword _ (by omega), hword _ (by omega)]
    rw [hcovered]
    exact onesSum_write (pseudoHeader_lt htp' hlen) hk beWord_store16_zero hfold fun b _ _ => rfl
  · obtain ⟨hk3, hlength⟩ := hudp hu
    rw [hword _ (by omega), Bytes.beWord_congr (withHeaderSum_outside (by decide))
      (withHeaderSum_outside (by decide)), hlength]

theorem netifSetChecksum_udp {length : Nat} (h : Ready p ipTypeUdp (8 + dlen))
    (hlen : dlen ≤ 2048) (hlength : p.beWord udpLength = 8 + dlen) :
    ∃ f, netifSetChecksum ⟨length, p⟩ dlen = some f ∧ Accepted f.payload ipTypeUdp (8 + dlen) := by
  obtain ⟨r, heq, hfold⟩ := @calcUdpChecksum_eq (withHeaderSum p) ipv4Base 34 dlen (by omega)
  rw [netifSetChecksum_ready h]
  refine ⟨⟨length, ((withHeaderSum p).store16 (34 + 2 * 3) 0).store16 (34 + 2 * 3)
    (htons (0xFFFF - r))⟩, ?_, ?_⟩
  · simp only [heq, Option.bind_eq_bind, Option.bind_some]
    rfl
  · exact h.accepted_segment (by decide) (by decide) (by omega) (by omega) hfold
      fun _ => ⟨Nat.le_refl _, hlength⟩

theorem netifSetChecksum_tcp {length : Nat} (h : Ready p ipTypeTcp (20 + dlen))
    (hlen : dlen ≤ 2048) :
    ∃ f, netifSetChecksum ⟨length, p⟩ dlen = some f ∧ Accepted f.payload ipTypeTcp (20 + dlen) := by
  have htotal : (withHeaderSum p).beWord (ipv4Base + 2)
      = ipv4HeaderLen (withHeaderSum p) ipv4Base + (20 + dlen) := by
    rw [ipv4HeaderLen, withHeaderSum_outside (by decide), ← ipv4HeaderLen, h.headerLen,
      Bytes.beWord_congr (withHeaderSum_outside (by decide)) (withHeaderSum_outside (by decide))]
    exact h.total
  obtain ⟨r, heq, hfold⟩ := @calcTcpChecksum_eq (withHeaderSum p) ipv4Base 34 10 dlen (by decide)
    htotal
  rw [netifSetChecksum_ready h]
  refine ⟨⟨length, ((withHeaderSum p).store16 (34 + 2 * 8) 0).store16 (34 + 2 * 8)
    (htons (0xFFFF - r))⟩, ?_, ?_⟩
  · simp only [heq, Option.bind_eq_bind, Option.bind_some]
    rfl
  · exact h.accepted_segment (by decide) (by decide) (by omega) (by omega) hfold nofun

/-! ## The builders -/

theorem beWord_setAddr {a b n : Nat} {addr : Fin n → BitVec 8} (h : b + 2 ≤ a ∨ a + n ≤ b) :
    (setAddr p a addr).beWord b = p.beWord b :=
  Bytes.beWord_congr (setAddr_outside (by omega)) (setAddr_outside (by omega))

section Fields

variable {netif : Netif} {dstMac : MacAddr} {random total : Nat} {dstIp : IpAddr}

theorem ethHeader_outside {type b : Nat} (h : 14 ≤ b) : ethHeader netif p dstMac type b = p b := by
  simp (disch := omega) only [ethHeader, ethType, ethDst, ethSrc, setAddr_outside,
    Bytes.store16_outside]

theorem ipv4Header_outside {b : Nat} (h : 34 ≤ b) :
    ipv4Header netif p random dstIp tp total b = p b := by
  simp (disch := omega) only [ipv4Header, ipv4Ihl, ipv4TotalLen, ipv4Tos, ipv4Flags, ipv4Id,
    ipv4Ttl, ipv4Proto, ipv4Checksum, ipv4SrcIp, ipv4DstIp, setAddr_outside,
    Bytes.store16_outside, Bytes.store8_of_ne]

/-- The fields of `ipv4_build` that the checksums depend on. -/
theorem ipv4Header_fields (htp : tp < 0x100) (htotal : total < 0x10000) :
    ipv4Header netif p random dstIp tp total 14 = 0x45
    ∧ (ipv4Header netif p random dstIp tp total 23).toNat = tp
    ∧ (ipv4Header netif p random dstIp tp total).beWord 16 = total
    ∧ (ipv4Header netif p random dstIp tp total).beWord 24 = 0 := by
  simp (disch := decide) only [ipv4Header, ipv4Ihl, ipv4TotalLen, ipv4Tos, ipv4Flags, ipv4Id,
    ipv4Ttl, ipv4Proto, ipv4Checksum, ipv4SrcIp, ipv4DstIp, setAddr_outside, beWord_setAddr,
    Bytes.store16_outside, Bytes.store8_of_ne, Bytes.store8_self, Bytes.beWord_store8,
    Bytes.beWord_store16, beWord_store16_htons htotal, beWord_store16_zero]
  refine ⟨?_, Nat.mod_eq_of_lt htp, trivial, trivial⟩
  generalize p 14 = x
  revert x
  decide

/-- The two headers, without the checksum. -/
theorem headers_ready (htp : tp < 0x100) (htotal : total < 0x10000) (hlen : total = 20 + len) :
    Ready (ethHeader netif (ipv4Header netif p random dstIp tp total) dstMac ethTypeIPv4)
      tp len := by
  obtain ⟨hihl, hproto, hword, hzero⟩ :=
    @ipv4Header_fields p tp netif random total dstIp htp htotal
  have hout := fun b => @ethHeader_outside (ipv4Header netif p random dstIp tp total) netif dstMac
    ethTypeIPv4 b
  constructor
  case type =>
    rw [ethHeader, Bytes.beWord_congr (setAddr_outside (by decide)) (setAddr_outside (by decide)),
      Bytes.beWord_congr (setAddr_outside (by decide)) (setAddr_outside (by decide))]
    exact beWord_store16_htons (by decide)
  case ihl => rw [hout _ (by decide), hihl]
  case proto => rw [hout _ (by decide), hproto]
  case total => rw [Bytes.beWord_congr (hout _ (by decide)) (hout _ (by decide)), hword, hlen]
  case zero => rw [Bytes.beWord_congr (hout _ (by decide)) (hout _ (by decide)), hzero]

theorem memcpyInto_outside {data : Option Bytes} {a b size : Nat} (h : b < a) :
    memcpyInto p a data size b = p b := by
  cases data with
  | none => rfl
  | some data => exact Bytes.copy_outside (Or.inl h)

/-- The payload goes behind the headers of every protocol. -/
theorem netifSetPayload_ready {length : Nat} (h : Ready p tp len) (data : Option Bytes) :
    ∃ q, netifSetPayload ⟨length, p⟩ data dlen = ⟨u16 (length + dlen), q⟩
      ∧ ∀ b < 42, q b = p b := by
  refine ⟨_, rfl, fun b hb => ?_⟩
  simp only [ntohs_load16, h.type, if_true, h.headerLen, h.proto]
  split
  · split
    · exact memcpyInto_outside hb
    · rfl
  · split
    · exact memcpyInto_outside hb
    · split
      · exact memcpyInto_outside (show b < 54 by omega)
      · rfl

/-- The total length of a packet that is not too long. UDP and ICMP have a
header of 8 bytes. -/
theorem ipv4BuildLen_short (htp : tp = ipTypeUdp ∨ tp = ipTypeIcmp)
    (hlen : 20 + (8 + dlen) < 0x10000) : ipv4BuildLen tp dlen 0 = 20 + (8 + dlen) := by
  have hu16 : u16 (20 + 8 + dlen) = 20 + (8 + dlen) := by
    rw [u16]
    omega
  rcases htp with rfl | rfl
  · exact hu16
  · exact hu16

/-- What `ipv4_build` and `eth_build` do before the checksums. -/
theorem ipv4Build_ready (buff : Frame) (data : Option Bytes) (htp : tp < 0x100)
    (hlt : 20 + len < 0x10000) (htotal : ipv4BuildLen tp dlen 0 = 20 + len) :
    ∃ length q, ipv4Build netif buff dstMac random dstIp tp data dlen 0
        = netifSetChecksum ⟨length, q⟩ dlen
      ∧ Ready q tp len ∧ ∀ b, 34 ≤ b → b < 42 → q b = buff.payload b := by
  have hready := @headers_ready buff.payload tp len netif dstMac random (20 + len) dstIp htp hlt rfl
  obtain ⟨q, heq, hq⟩ :=
    @netifSetPayload_ready _ tp len dlen (u16 (u16 (buff.length + 20) + 14)) hready data
  refine ⟨u16 (u16 (u16 (buff.length + 20) + 14) + dlen), q, ?_,
    hready.congr fun b _ hb => hq b (by omega), fun b hb hb' => ?_⟩
  · rw [ipv4Build, htotal, ethBuild]
    dsimp only
    rw [heq]
  · rw [hq b hb', ethHeader_outside (by omega), ipv4Header_outside hb]

end Fields

/-! ## The law -/

/-- The bytes of a descriptor buffer behind the fields of `desc_buff_t`. -/
abbrev descBuffRoom : Nat := 2048 - 14

/-- One call of a builder. -/
inductive Build where
  | tcpBuild (socket : Socket) (data : Option Bytes) (dlen : Nat)
  | tcpSyn (socket : Socket) (ports : Nat → Port) (pid sock seq : Nat) (dstIp : IpAddr)
  | udpBuild (dstIp : IpAddr) (srcPort dstPort : Nat) (data : Option Bytes) (dlen : Nat)
  | icmpBuild (type code : BitVec 8) (seq : Nat) (dstIp : IpAddr) (data : Option Bytes)
      (dlen : Nat)

/-- The frame that the call passes to `netif_output`. -/
def Build.frame (netif : Netif) (buff : Frame) (dstMac : MacAddr) (random : Nat) :
    Build → Option Frame
  | .tcpBuild socket data dlen => Csos.tcpBuild netif socket buff dstMac random data dlen
  | .tcpSyn socket ports pid sock seq dstIp =>
      (Csos.tcpSyn netif socket ports pid sock buff dstMac seq random dstIp).map Prod.fst
  | .udpBuild dstIp srcPort dstPort data dlen =>
      Csos.udpBuild netif buff dstMac random dstIp srcPort dstPort data dlen
  | .icmpBuild type code seq dstIp data dlen =>
      Csos.icmpBuild netif buff dstMac seq random type code dstIp data dlen

def Build.proto : Build → Nat
  | .tcpBuild .. | .tcpSyn .. => ipTypeTcp
  | .udpBuild .. => ipTypeUdp
  | .icmpBuild .. => ipTypeIcmp

/-- The length of the segment: its header and the payload. -/
def Build.segmentLen : Build → Nat
  | .tcpBuild _ _ dlen => 20 + dlen
  | .tcpSyn .. => 20
  | .udpBuild _ _ _ _ dlen => 8 + dlen
  | .icmpBuild _ _ _ _ data dlen =>
      8 + if data.isNone ∧ dlen = 0 then echoPayload.length else dlen

/-- The packet fits in the descriptor buffer, and an ICMP packet is an
echo request or reply. -/
def Build.Fits (b : Build) : Prop :=
  14 + 20 + b.segmentLen ≤ descBuffRoom
    ∧ match b with
      | .icmpBuild type code _ _ _ _ => (type = 0 ∨ type = 8) ∧ code = 0
      | _ => True

section Law

variable {netif : Netif} {dstMac : MacAddr} {random : Nat} {dstIp : IpAddr}

theorem ipv4Build_tcp (buff : Frame) (data : Option Bytes) (hlen : dlen ≤ 2048) :
    ∃ f, ipv4Build netif buff dstMac random dstIp ipTypeTcp data dlen 0 = some f
      ∧ Accepted f.payload ipTypeTcp (20 + dlen) := by
  have htotal : ipv4BuildLen ipTypeTcp dlen 0 = 20 + (20 + dlen) := by
    have hu16 : u16 (20 + 20 + dlen + 0) = 20 + (20 + dlen) := by
      rw [u16]
      omega
    exact hu16
  obtain ⟨length, q, heq, hready, -⟩ :=
    @ipv4Build_ready ipTypeTcp (20 + dlen) dlen netif dstMac random dstIp buff data (by decide)
      (by omega) htotal
  rw [heq]
  exact netifSetChecksum_tcp hready hlen

theorem ipv4Build_udp (buff : Frame) (data : Option Bytes) (hlen : dlen ≤ 2048)
    (hlength : buff.payload.beWord udpLength = 8 + dlen) :
    ∃ f, ipv4Build netif buff dstMac random dstIp ipTypeUdp data dlen 0 = some f
      ∧ Accepted f.payload ipTypeUdp (8 + dlen) := by
  have htotal : ipv4BuildLen ipTypeUdp dlen 0 = 20 + (8 + dlen) :=
    ipv4BuildLen_short (Or.inl rfl) (by omega)
  obtain ⟨length, q, heq, hready, hsame⟩ :=
    @ipv4Build_ready ipTypeUdp (8 + dlen) dlen netif dstMac random dstIp buff data (by decide)
      (by omega) htotal
  have hq : q.beWord udpLength = 8 + dlen := by
    rw [Bytes.beWord_congr (hsame _ (by decide) (by decide)) (hsame _ (by decide) (by decide)),
      hlength]
  rw [heq]
  exact netifSetChecksum_udp hready hlen hq

theorem ipv4Build_icmp (buff : Frame) (data : Option Bytes) (hlen : dlen ≤ 2048)
    (hecho : isIcmpEcho buff.payload 34) (hzero : buff.payload.beWord icmpChecksum = 0) :
    ∃ f, ipv4Build netif buff dstMac random dstIp ipTypeIcmp data dlen 0 = some f
      ∧ Accepted f.payload ipTypeIcmp (8 + dlen) := by
  have htotal : ipv4BuildLen ipTypeIcmp dlen 0 = 20 + (8 + dlen) :=
    ipv4BuildLen_short (Or.inr rfl) (by omega)
  obtain ⟨length, q, heq, hready, hsame⟩ :=
    @ipv4Build_ready ipTypeIcmp (8 + dlen) dlen netif dstMac random dstIp buff data (by decide)
      (by omega) htotal
  have hq : isIcmpEcho q 34 = true := by
    rw [isIcmpEcho_congr (hsame _ (by decide) (by decide)) (hsame _ (by decide) (by decide)), hecho]
  have hq' : q.beWord icmpChecksum = 0 := by
    rw [Bytes.beWord_congr (hsame _ (by decide) (by decide)) (hsame _ (by decide) (by decide)),
      hzero]
  rw [heq]
  exact netifSetChecksum_icmp hready hlen hq hq'

theorem icmpHeader_echo {type : BitVec 8} {seq : Nat} {buff : Frame} (h : type = 0 ∨ type = 8) :
    isIcmpEcho (icmpHeader type 0 seq buff).payload 34
      ∧ (icmpHeader type 0 seq buff).payload.beWord icmpChecksum = 0 := by
  have htype : (icmpHeader type 0 seq buff).payload 34 = type := by
    simp (disch := decide) only [icmpHeader, icmpType, icmpCode, icmpChecksum, icmpId, icmpSeq,
      Bytes.store16_outside, Bytes.store8_of_ne, Bytes.store8_self]
  have hcode : (icmpHeader type 0 seq buff).payload (34 + 1) = 0 := by
    simp (disch := decide) only [icmpHeader, icmpType, icmpCode, icmpChecksum, icmpId, icmpSeq,
      Bytes.store16_outside, Bytes.store8_self]
  refine ⟨?_, ?_⟩
  · rw [isIcmpEcho, htype, hcode]
    simpa using h
  · simp (disch := decide) only [icmpHeader, icmpType, icmpCode, icmpChecksum, icmpId, icmpSeq,
      Bytes.beWord_store16, beWord_store16_zero]

/-- Every packet that a builder passes on is accepted: both checksums are
right, over exactly the bytes that the length fields announce. -/
theorem built_packets_verify (netif : Netif) (buff : Frame) (dstMac : MacAddr) (random : Nat)
    (b : Build) (h : b.Fits) :
    ∃ f, b.frame netif buff dstMac random = some f ∧ Accepted f.payload b.proto b.segmentLen := by
  obtain ⟨hroom, hkind⟩ := h
  cases b with
  | tcpBuild socket data dlen =>
      have hlen : dlen ≤ 2048 := by
        have hseg : 14 + 20 + (20 + dlen) ≤ 2034 := hroom
        omega
      exact ipv4Build_tcp _ data hlen
  | tcpSyn socket ports pid sock seq dstIp =>
      obtain ⟨f, heq, hf⟩ := @ipv4Build_tcp 0 netif dstMac random dstIp
        (tcpSynHeader socket (allocRandomPort ports pid sock .tcp).2 seq buff) none (by decide)
      refine ⟨f, ?_, hf⟩
      simp only [Build.frame, tcpSyn, heq, Option.bind_eq_bind, Option.bind_some, Option.pure_def,
        Option.map_some]
  | udpBuild dstIp srcPort dstPort data dlen =>
      have hlen : 8 + dlen ≤ 2000 := by
        have hseg : 14 + 20 + (8 + dlen) ≤ 2034 := hroom
        omega
      refine ipv4Build_udp _ data (by omega) ?_
      have hu16 : u16 (8 + dlen) = 8 + dlen := Nat.mod_eq_of_lt (by omega)
      have hlt : 8 + dlen < 0x10000 := by omega
      rw [hu16]
      simp (disch := decide) only [udpLength, udpChecksum, Bytes.beWord_store16]
      exact beWord_store16_htons hlt
  | icmpBuild type code seq dstIp data dlen =>
      obtain ⟨htype, rfl⟩ := hkind
      obtain ⟨hecho, hzero⟩ := @icmpHeader_echo type seq buff htype
      by_cases hnone : data.isNone ∧ dlen = 0
      · obtain ⟨f, heq, hf⟩ := @ipv4Build_icmp echoPayload.length netif dstMac random dstIp
          (icmpHeader type 0 seq buff) (some echoBytes) (by decide) hecho hzero
        refine ⟨f, ?_, ?_⟩
        · rw [Build.frame, icmpBuild, if_pos hnone, heq]
        · rw [Build.segmentLen, if_pos hnone]
          exact hf
      · have hlen : dlen ≤ 2048 := by
          have hseg : 14 + 20 + (8 + if data.isNone ∧ dlen = 0 then echoPayload.length else dlen)
              ≤ 2034 := hroom
          rw [if_neg hnone] at hseg
          omega
        obtain ⟨f, heq, hf⟩ := @ipv4Build_icmp dlen netif dstMac random dstIp
          (icmpHeader type 0 seq buff) data hlen hecho hzero
        refine ⟨f, ?_, ?_⟩
        · rw [Build.frame, icmpBuild, if_neg hnone, heq]
        · rw [Build.segmentLen, if_neg hnone]
          exact hf

end Law

/-- An interface with some addresses. -/
def testNetif : Netif where
  mac := fun _ => 0x52
  ipv4 := fun _ => 10
  mask := fun _ => 0xFF
  gw := fun _ => 1
  dhcpIpv4 := fun _ => 0
  dhcpMask := fun _ => 0
  dhcpGw := fun _ => 0
  status := .ack

/-- A UDP datagram with an odd number of bytes. -/
theorem built_packets_verify_odd :
    ∃ f, (Build.udpBuild (fun _ => 0xFF) 68 67 (some fun b => BitVec.ofNat 8 b) 5).frame
        testNetif { length := 0, payload := fun _ => 0xAA }
        (fun _ => 0xFF) 12345 = some f
      ∧ Accepted f.payload ipTypeUdp 13 :=
  built_packets_verify _ _ _ _ (.udpBuild (fun _ => 0xFF) 68 67 (some fun b => BitVec.ofNat 8 b) 5)
    ⟨by decide, trivial⟩

end Csos
