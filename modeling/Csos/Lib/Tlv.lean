import Mathlib.Data.List.GetD
import Csos.Lib.Bytes

/-!
# Lists of options in memory

An option is a code, the length of its data, and the data. A scan starts at
the code of an option and takes the length byte to come to the next one,
until it stops. Where the memory holds the encoding of a list, the scan comes
to the options of the list and to the end of it (`visits_encoded`), and to
nothing else.
-/

namespace Csos

namespace Lib

/-- An option. -/
structure Tlv where
  code : BitVec 8
  data : List (BitVec 8)
deriving DecidableEq

namespace Tlv

def encode (o : Tlv) : List (BitVec 8) := o.code :: BitVec.ofNat 8 o.data.length :: o.data

def encodeAll (os : List Tlv) : List (BitVec 8) := os.flatMap encode

theorem length_encodeAll_cons (o : Tlv) (os : List Tlv) :
    (encodeAll (o :: os)).length = 2 + o.data.length + (encodeAll os).length := by
  simp only [encodeAll, encode, List.flatMap_cons, List.length_append, List.length_cons]
  omega

/-- Where the options of a list begin, if the first begins at `a`. -/
def starts : Nat → List Tlv → List Nat
  | _, [] => []
  | a, o :: os => a :: starts (a + 2 + o.data.length) os

end Tlv

open Tlv

namespace Bytes

variable {m m' : Bytes} {a b : Nat} {l l' : List (BitVec 8)} {o : Tlv} {os : List Tlv}

/-- The bytes from `a` on are those of `l`. -/
def Lies (m : Bytes) (a : Nat) (l : List (BitVec 8)) : Prop :=
  ∀ i < l.length, m (a + i) = l.getD i 0

instance : Decidable (Lies m a l) := inferInstanceAs (Decidable (∀ i < l.length, _))

theorem lies_nil : Lies m a [] := nofun

theorem lies_cons {c : BitVec 8} : Lies m a (c :: l) ↔ m a = c ∧ Lies m (a + 1) l := by
  have hmove : ∀ i, a + 1 + i = a + (i + 1) := by omega
  constructor
  · refine fun h => ⟨h 0 (Nat.zero_lt_succ _), fun i hi => ?_⟩
    rw [hmove, h (i + 1) (Nat.succ_lt_succ hi), List.getD_cons_succ]
  · rintro ⟨hc, hl⟩ i hi
    cases i with
    | zero => exact hc
    | succ i => rw [← hmove, hl i (Nat.lt_of_succ_lt_succ hi), List.getD_cons_succ]

theorem lies_append : Lies m a (l ++ l') ↔ Lies m a l ∧ Lies m (a + l.length) l' := by
  induction l generalizing a with
  | nil => exact (and_iff_right lies_nil).symm
  | cons c l ih =>
      have hmove : a + 1 + l.length = a + (c :: l).length := by
        rw [List.length_cons]
        omega
      rw [List.cons_append, lies_cons, ih, lies_cons, and_assoc, hmove]

theorem Lies.congr (h : Lies m a l) (hm : ∀ b, a ≤ b → b < a + l.length → m' b = m b) :
    Lies m' a l := fun i hi => (hm _ (Nat.le_add_right a i) (by omega)).trans (h i hi)

theorem lies_encodeAll_cons (hlen : o.data.length < 256) :
    Lies m a (encodeAll (o :: os)) ↔ (m a = o.code ∧ (m (a + 1)).toNat = o.data.length
      ∧ Lies m (a + 2) o.data) ∧ Lies m (a + 2 + o.data.length) (encodeAll os) := by
  have hlength : m (a + 1) = BitVec.ofNat 8 o.data.length
      ↔ (m (a + 1)).toNat = o.data.length := by
    rw [← BitVec.toNat_inj, BitVec.toNat_ofNat, Nat.mod_eq_of_lt hlen]
  have hmove : a + (o.encode).length = a + 2 + o.data.length := by
    simp only [encode, List.length_cons]
    omega
  rw [encodeAll, List.flatMap_cons, lies_append, hmove]
  refine and_congr_left fun _ => ?_
  rw [encode, lies_cons, lies_cons, hlength]

/-- The option behind the one at `a`. -/
def nextTlv (m : Bytes) (a : Nat) : Nat := a + (m (a + 1)).toNat + 2

theorem lt_nextTlv : a < m.nextTlv a := by
  rw [nextTlv]
  omega

/-- A scan from `a` comes to `b`. -/
inductive Visits (stop : Nat → Prop) (m : Bytes) : Nat → Nat → Prop
  | here (a : Nat) : Visits stop m a a
  | next {a b : Nat} (hgo : ¬ stop a) (h : Visits stop m (m.nextTlv a) b) : Visits stop m a b

variable {stop : Nat → Prop}

theorem Visits.le (h : Visits stop m a b) : a ≤ b := by
  induction h with
  | here => exact Nat.le_refl _
  | next _ _ ih => exact Nat.le_trans (Nat.le_of_lt lt_nextTlv) ih

theorem Visits.step (h : Visits stop m a b) (hgo : ¬ stop b) : Visits stop m a (m.nextTlv b) := by
  induction h with
  | here b => exact .next hgo (.here _)
  | next hgo' _ ih => exact .next hgo' (ih hgo)

/-- A scan passes over the bytes between two options. -/
theorem Visits.not_between {c : Nat} (h : Visits stop m a b) (hc : Visits stop m a c)
    (hbc : b < c) : m.nextTlv b ≤ c := by
  induction h with
  | here b =>
      cases hc with
      | here => exact absurd hbc (Nat.lt_irrefl _)
      | next _ hc => exact hc.le
  | next _ h ih =>
      cases hc with
      | here =>
          have hlt := Nat.lt_of_le_of_lt h.le hbc
          exact absurd lt_nextTlv (Nat.not_lt.mpr (Nat.le_of_lt hlt))
      | next _ hc => exact ih hc hbc

/-! ## Scans of encoded lists -/

theorem nextTlv_encoded (hlen : o.data.length < 256) (h : Lies m a (encodeAll (o :: os))) :
    m.nextTlv a = a + 2 + o.data.length ∧ Lies m (a + 2 + o.data.length) (encodeAll os)
      ∧ a + (encodeAll (o :: os)).length = a + 2 + o.data.length + (encodeAll os).length := by
  obtain ⟨⟨-, hlength, -⟩, hrest⟩ := (lies_encodeAll_cons hlen).mp h
  have hall := length_encodeAll_cons o os
  refine ⟨?_, hrest, by omega⟩
  rw [nextTlv, hlength]
  omega

/-- In an encoded list, a scan comes to nothing but the options and the end. -/
theorem visits_encoded (hlen : ∀ o ∈ os, o.data.length < 256) (h : Lies m a (encodeAll os))
    (hstop : stop (a + (encodeAll os).length)) (hv : Visits stop m a b) :
    b ∈ starts a os ∨ b = a + (encodeAll os).length := by
  induction os generalizing a with
  | nil =>
      cases hv with
      | here => exact Or.inr rfl
      | next hgo _ => exact absurd hstop hgo
  | cons o os ih =>
      obtain ⟨hnext, hrest, hend⟩ := nextTlv_encoded (hlen o List.mem_cons_self) h
      cases hv with
      | here => exact Or.inl List.mem_cons_self
      | next _ hv =>
          rw [hnext] at hv
          rw [hend] at hstop ⊢
          have hb := ih (fun o' ho' => hlen o' (List.mem_cons_of_mem o ho')) hrest hstop hv
          exact hb.imp_left (List.mem_cons_of_mem a)

/-- And it stops, at the end if not before. -/
theorem exists_stop_of_encoded (hlen : ∀ o ∈ os, o.data.length < 256)
    (h : Lies m a (encodeAll os)) (hstop : stop (a + (encodeAll os).length)) :
    ∃ b, Visits stop m a b ∧ stop b := by
  induction os generalizing a with
  | nil => exact ⟨a, .here a, hstop⟩
  | cons o os ih =>
      by_cases ha : stop a
      · exact ⟨a, .here a, ha⟩
      obtain ⟨hnext, hrest, hend⟩ := nextTlv_encoded (hlen o List.mem_cons_self) h
      rw [hend] at hstop
      obtain ⟨b, hb, hsb⟩ := ih (fun o' ho' => hlen o' (List.mem_cons_of_mem o ho')) hrest hstop
      exact ⟨b, .next ha (hnext ▸ hb), hsb⟩

/-- What begins at a place where an option begins. -/
theorem exists_of_mem_starts (hlen : ∀ o ∈ os, o.data.length < 256) (h : Lies m a (encodeAll os))
    (hb : b ∈ starts a os) : ∃ o ∈ os, m b = o.code ∧ (m (b + 1)).toNat = o.data.length
      ∧ Lies m (b + 2) o.data ∧ b + 2 + o.data.length ≤ a + (encodeAll os).length := by
  induction os generalizing a with
  | nil => exact absurd hb List.not_mem_nil
  | cons o os ih =>
      obtain ⟨⟨hcode, hlength, hdata⟩, hrest⟩ :=
        (lies_encodeAll_cons (hlen o List.mem_cons_self)).mp h
      have hall := length_encodeAll_cons o os
      rcases List.mem_cons.mp hb with rfl | hb
      · exact ⟨o, List.mem_cons_self, hcode, hlength, hdata, by omega⟩
      · obtain ⟨o', ho', hcode', hlength', hdata', hle⟩ :=
          ih (fun o' ho' => hlen o' (List.mem_cons_of_mem o ho')) hrest hb
        exact ⟨o', List.mem_cons_of_mem o ho', hcode', hlength', hdata', by omega⟩

theorem exists_start_of_mem (hlen : ∀ o ∈ os, o.data.length < 256) (h : Lies m a (encodeAll os))
    (ho : o ∈ os) : ∃ b ∈ starts a os, m b = o.code ∧ (m (b + 1)).toNat = o.data.length := by
  induction os generalizing a with
  | nil => exact absurd ho List.not_mem_nil
  | cons o₀ os ih =>
      obtain ⟨⟨hcode, hlength, -⟩, hrest⟩ := (lies_encodeAll_cons (hlen o₀ List.mem_cons_self)).mp h
      rcases List.mem_cons.mp ho with rfl | ho
      · exact ⟨a, List.mem_cons_self, hcode, hlength⟩
      · obtain ⟨b, hb, hoption⟩ :=
          ih (fun o' ho' => hlen o' (List.mem_cons_of_mem o₀ ho')) hrest ho
        exact ⟨b, List.mem_cons_of_mem a hb, hoption⟩

/-- Whatever a scan passes is the encoding of a list. -/
theorem Visits.encoded (h : Visits stop m a b) : ∃ os : List Tlv,
    (∀ o ∈ os, o.data.length < 256) ∧ Lies m a (encodeAll os) ∧ b = a + (encodeAll os).length
      ∧ ∀ c ∈ starts a os, Visits stop m a c ∧ ¬ stop c := by
  induction h with
  | here a => exact ⟨[], nofun, lies_nil, rfl, nofun⟩
  | @next a b hgo _ ih =>
      obtain ⟨os, hlen, hlies, hb, hstarts⟩ := ih
      have hlt := (m (a + 1)).isLt
      let o : Tlv := ⟨m a, (List.range (m (a + 1)).toNat).map fun i => m (a + 2 + i)⟩
      have hlength : o.data.length = (m (a + 1)).toNat := by simp [o]
      have hdata : Lies m (a + 2) o.data := by
        intro i hi
        rw [List.getD_eq_getElem _ _ hi]
        simp [o]
      have hnext : m.nextTlv a = a + 2 + o.data.length := by
        rw [nextTlv, hlength]
        omega
      rw [hnext] at hlies hb hstarts
      have hall := length_encodeAll_cons o os
      refine ⟨o :: os, ?_, ?_, by omega, ?_⟩
      · rintro o' (_ | ⟨_, ho'⟩)
        · omega
        · exact hlen o' ho'
      · exact (lies_encodeAll_cons (by omega)).mpr ⟨⟨rfl, hlength.symm, hdata⟩, hlies⟩
      · rintro c (_ | ⟨_, hc⟩)
        · exact ⟨.here a, hgo⟩
        · obtain ⟨hv, hs⟩ := hstarts c hc
          exact ⟨.next hgo (hnext ▸ hv), hs⟩

/-! ## Padding -/

/-- From a padding byte, which has the code 0 and no length, the scan comes to
the first byte that is not 0. -/
def SkipsPads (stop : Nat → Prop) (m : Bytes) (a : Nat) : Prop :=
  ∀ b, Visits stop m a b → ∀ k, (∀ j ≤ k, m (b + j) = 0) → m (b + k + 1) ≠ 0 →
    Visits stop m a (b + k + 1)

/-- That is so when the zeros come in pairs. -/
theorem skipsPads_of_pairs (hgo : ∀ b, m b = 0 → ¬ stop b)
    (hpairs : ∀ b, Visits stop m a b → m b = 0 → m (b + 1) = 0) : SkipsPads stop m a := by
  intro b hb k
  induction k using Nat.strong_induction_on generalizing b with
  | h k ih =>
      intro hzeros hne
      have hzero := hzeros 0 (Nat.zero_le k)
      have hsecond := hpairs b hb hzero
      have hnext : m.nextTlv b = b + 2 := by
        rw [nextTlv, hsecond]
        rfl
      have hstep := hb.step (hgo b hzero)
      rw [hnext] at hstep
      match k, ih, hzeros, hne with
      | 0, _, _, hne => exact absurd hsecond hne
      | 1, _, _, _ => exact hstep
      | k + 2, ih, hzeros, hne =>
          have hmove : ∀ j, b + 2 + j = b + (j + 2) := by omega
          have hfound := ih k (by omega) (b + 2) hstep
            (fun j hj => by
              rw [hmove]
              exact hzeros (j + 2) (by omega))
            (by rwa [hmove])
          rwa [hmove] at hfound

theorem SkipsPads.pair (h : SkipsPads stop m a) (hb : Visits stop m a b) (hzero : m b = 0) :
    m (b + 1) = 0 := by
  refine Decidable.byContradiction fun hne => ?_
  have hsingle := h b hb 0 (fun j hj => by rwa [Nat.le_zero.mp hj]) hne
  have hpast := hb.not_between hsingle (Nat.lt_succ_self b)
  rw [nextTlv] at hpast
  omega

end Bytes

end Lib

end Csos
