import Csos.Lib.Run
import Csos.NetInput

/-!
# The ARP map (`kernel32/netx/arp_map.c`)

The map is 512 bytes: 51 items of an IP and a MAC address, and the number
of items behind them. An item is put by MAC address and found by IP
address. `NetInput.lean` takes the map for the sequence of its items;
`ArpMap.items` is this sequence, and the functions here refine those
there.

A full map is given back unchanged, even if it has an item with the MAC
address. The map is also written to a sector of the disk, whenever
`flush_arp_map` finds it dirty.
-/

namespace Csos

open Lib

/-! ## The data -/

/-- The item `i` of `arp_map_data_t`. -/
abbrev arpItem (i : Nat) : Nat := 10 * i

abbrev arpItemMac (i : Nat) : Nat := 10 * i + 4

/-- The field `idx` of `arp_map_data_t`. -/
abbrev arpMapIdx : Nat := 510

/-- `sizeof(arp_map_data_t)`. -/
abbrev arpMapSize : Nat := 512

/-- `arp_map_t`, and what the disk holds at `ARP_MAP_SECTOR`. -/
structure ArpMap where
  data : Bytes
  dirty : Bool
  disk : Bytes

namespace ArpMap

def idx (m : ArpMap) : Nat := m.data.load16 arpMapIdx

def item (m : ArpMap) (i : Nat) : IpAddr × MacAddr :=
  (ipAt m.data (arpItem i), macAt m.data (arpItemMac i))

/-- The loop of `find_mac`, from the item `i` on. -/
def findMacLoop (m : ArpMap) (ip : IpAddr) : Nat → Nat → Option MacAddr
  | 0, _ => none
  | n + 1, i =>
      if (m.item i).1 = ip then some (m.item i).2
      else findMacLoop m ip n (i + 1)

/-- `find_mac`: the address that it leaves in `mac`, and FALSE is `none`. -/
def findMac (m : ArpMap) (ip : IpAddr) : Option MacAddr := m.findMacLoop ip m.idx 0

def clearArpMap (m : ArpMap) : ArpMap :=
  { m with data := m.data.fill 0 0 arpMapSize, dirty := true }

/-- The loop of `put_arp_map`: the item with this MAC address. -/
def itemWithMac (m : ArpMap) (mac : MacAddr) : Nat → Nat → Option Nat
  | 0, _ => none
  | n + 1, i => if (m.item i).2 = mac then some i else itemWithMac m mac n (i + 1)

def putArpMap (m : ArpMap) (ip : IpAddr) (mac : MacAddr) : ArpMap :=
  if m.idx ≥ arpMapNr then m
  else
    match m.itemWithMac mac m.idx 0 with
    | some i => { m with data := setAddr m.data (arpItem i) ip }
    | none =>
        let data := setAddr m.data (arpItem m.idx) ip
        let data := setAddr data (arpItemMac m.idx) mac
        { m with data := data.store16 arpMapIdx (m.idx + 1), dirty := true }

def flushArpMap (m : ArpMap) : ArpMap :=
  if m.dirty then
    { m with disk := m.disk.copy 0 m.data arpMapSize, dirty := false }
  else m

/-- `arp_map_init`, with the sector as the disk has it. -/
def arpMapInit (m : ArpMap) : ArpMap :=
  { m with dirty := false, data := m.data.copy 0 m.disk arpMapSize }

/-! ## The sequence of the items -/

/-- The items in use. -/
def items (m : ArpMap) : List (IpAddr × MacAddr) := (List.range m.idx).map m.item

section Items

variable {m : ArpMap} {ip : IpAddr} {mac : MacAddr}

@[simp] theorem items_length : m.items.length = m.idx := by
  rw [items, List.length_map, List.length_range]

theorem findMacLoop_eq (n i : Nat) :
    m.findMacLoop ip n i = Csos.findMac ((List.range' i n).map m.item) ip := by
  induction n generalizing i with
  | zero => rfl
  | succ n ih =>
      rw [findMacLoop, List.range'_succ, List.map_cons, Csos.findMac, List.find?_cons]
      by_cases h : (m.item i).1 = ip
      · simp only [h, if_true, decide_true, Option.map_some]
      · simp only [h, if_false, decide_false, ih, Csos.findMac]

theorem findMac_items : m.findMac ip = Csos.findMac m.items ip := by
  rw [findMac, findMacLoop_eq, items, List.range_eq_range']

theorem itemWithMac_eq_some {n i j : Nat} (h : m.itemWithMac mac n i = some j) :
    i ≤ j ∧ j < i + n ∧ (m.item j).2 = mac ∧ ∀ k, i ≤ k → k < j → (m.item k).2 ≠ mac := by
  induction n generalizing i with
  | zero => cases h
  | succ n ih =>
      rw [itemWithMac] at h
      by_cases hi : (m.item i).2 = mac
      · rw [if_pos hi] at h
        obtain rfl := Option.some.inj h
        exact ⟨Nat.le_refl i, by omega, hi, fun k hk hlt => absurd hlt (Nat.not_lt.mpr hk)⟩
      · rw [if_neg hi] at h
        obtain ⟨hle, hlt, hj, hfirst⟩ := ih h
        refine ⟨by omega, by omega, hj, fun k hk hkj => ?_⟩
        rcases Nat.eq_or_lt_of_le hk with rfl | hk
        · exact hi
        · exact hfirst k hk hkj

/-- An address is put into the item `j`. -/
theorem item_setIp {j k : Nat} :
    ArpMap.item { m with data := setAddr m.data (arpItem j) ip } k
      = if k = j then (ip, (m.item j).2) else m.item k := by
  by_cases hk : k = j
  · subst hk
    rw [if_pos rfl, item, ipAt_setAddr]
    refine Prod.ext rfl (funext fun b => ?_)
    exact setAddr_outside (Or.inr (by simp only [arpItem, arpItemMac]; omega))
  · rw [if_neg hk]
    refine Prod.ext (funext fun b => ?_) (funext fun b => ?_)
    · exact setAddr_outside (by simp only [arpItem]; omega)
    · exact setAddr_outside (by simp only [arpItem, arpItemMac]; omega)

theorem idx_setIp {j : Nat} (hj : j < arpMapNr) :
    ArpMap.idx { m with data := setAddr m.data (arpItem j) ip } = m.idx := by
  have hlt : j < 51 := hj
  have hout : ∀ b, 510 ≤ b → setAddr m.data (arpItem j) ip b = m.data b := fun b hb =>
    setAddr_outside (by simp only [arpItem]; omega)
  show Bytes.load16 (setAddr m.data (arpItem j) ip) arpMapIdx = _
  rw [idx, Bytes.load16, Bytes.load16, hout _ (by decide), hout _ (by decide)]

/-- What `put_arp_map` writes when it adds an item. -/
theorem item_added (hidx : m.idx < arpMapNr) {k : Nat} (hk : k ≤ m.idx) {v : Nat} {dirty : Bool} :
    ArpMap.item { m with
      data := (setAddr (setAddr m.data (arpItem m.idx) ip) (arpItemMac m.idx) mac).store16
        arpMapIdx v
      dirty } k = if k = m.idx then (ip, mac) else m.item k := by
  have hlt : m.idx < 51 := hidx
  by_cases heq : k = m.idx
  · subst heq
    rw [if_pos rfl]
    refine Prod.ext (funext fun b => ?_) (funext fun b => ?_)
    · refine (Bytes.store16_outside (by simp only [arpItem, arpMapIdx]; omega)).trans ?_
      rw [setAddr_outside (by simp only [arpItem, arpItemMac]; omega), setAddr_inside]
    · refine (Bytes.store16_outside (by simp only [arpItemMac, arpMapIdx]; omega)).trans ?_
      rw [setAddr_inside]
  · rw [if_neg heq]
    refine Prod.ext (funext fun b => ?_) (funext fun b => ?_)
    · refine (Bytes.store16_outside (by simp only [arpItem, arpMapIdx]; omega)).trans ?_
      rw [setAddr_outside (by simp only [arpItem, arpItemMac]; omega),
        setAddr_outside (by simp only [arpItem]; omega)]
      rfl
    · refine (Bytes.store16_outside (by simp only [arpItemMac, arpMapIdx]; omega)).trans ?_
      rw [setAddr_outside (by simp only [arpItemMac]; omega),
        setAddr_outside (by simp only [arpItem, arpItemMac]; omega)]
      rfl

theorem idx_added {p : Bytes} (hidx : m.idx < arpMapNr) {dirty : Bool} :
    ArpMap.idx { m with data := p.store16 arpMapIdx (m.idx + 1), dirty } = m.idx + 1 := by
  have hlt : m.idx < 51 := hidx
  exact Bytes.load16_store16_self (by omega)

theorem clearArpMap_items : m.clearArpMap.items = [] := by
  have hzero : ∀ b < arpMapSize, m.clearArpMap.data b = 0 := fun b hb =>
    if_pos ⟨Nat.zero_le b, by omega⟩
  have hidx : m.clearArpMap.idx = 0 := by
    rw [idx, Bytes.load16, hzero _ (by decide), hzero _ (by decide)]
    rfl
  rw [items, hidx]
  rfl

/-- The list-level loop, over a stretch of the items. -/
theorem putArpMapLoop_range' (n i : Nat) :
    putArpMapLoop ip mac ((List.range' i n).map m.item)
      = (m.itemWithMac mac n i).map fun j => (List.range' i n).map
          (ArpMap.item { m with data := setAddr m.data (arpItem j) ip }) := by
  induction n generalizing i with
  | zero => rfl
  | succ n ih =>
      rw [List.range'_succ, List.map_cons, putArpMapLoop, itemWithMac]
      by_cases h : (m.item i).2 = mac
      · rw [if_pos h, if_pos h, Option.map_some, List.map_cons, item_setIp, if_pos rfl, h]
        refine congrArg some (congrArg _ (List.map_congr_left fun k hk => ?_))
        have hlt := (List.mem_range'_1.mp hk).1
        rw [item_setIp, if_neg (by omega)]
      · rw [if_neg h, if_neg h, ih, Option.map_map]
        refine Option.map_congr fun j hj => ?_
        obtain ⟨hle, -⟩ := itemWithMac_eq_some hj
        rw [Function.comp_apply, List.map_cons, item_setIp, if_neg (by omega)]

theorem putArpMap_items : (m.putArpMap ip mac).items = Csos.putArpMap m.items ip mac := by
  rw [putArpMap, Csos.putArpMap, items_length]
  by_cases hfull : m.idx ≥ arpMapNr
  · rw [if_pos hfull, if_pos hfull]
  rw [if_neg hfull, if_neg hfull]
  have hidx : m.idx < arpMapNr := Nat.not_le.mp hfull
  have hloop : putArpMapLoop ip mac m.items
      = (m.itemWithMac mac m.idx 0).map fun j => (List.range m.idx).map
          (ArpMap.item { m with data := setAddr m.data (arpItem j) ip }) := by
    rw [items, List.range_eq_range']
    exact putArpMapLoop_range' m.idx 0
  rw [hloop]
  cases hfind : m.itemWithMac mac m.idx 0 with
  | some j =>
      obtain ⟨-, hj, -⟩ := itemWithMac_eq_some hfind
      rw [Option.map_some, Option.getD_some]
      show ArpMap.items { m with data := setAddr m.data (arpItem j) ip } = _
      rw [items, idx_setIp (by omega)]
  | none =>
      rw [Option.map_none, Option.getD_none]
      refine (congrArg (fun n => (List.range n).map _) (idx_added hidx)).trans ?_
      rw [List.range_succ, List.map_append, List.map_singleton,
        item_added hidx (Nat.le_refl _), if_pos rfl, items]
      refine congrArg (· ++ _) (List.map_congr_left fun k hk => ?_)
      have hk' := List.mem_range.mp hk
      rw [item_added hidx (Nat.le_of_lt hk'), if_neg (Nat.ne_of_lt hk')]

end Items

/-! ## Write-back -/

/-- The calls that change the map or write it to the disk. -/
inductive Call where
  | put (ip : IpAddr) (mac : MacAddr)
  | clear
  | flush

def step (m : ArpMap) : Call → ArpMap
  | .put ip mac => m.putArpMap ip mac
  | .clear => m.clearArpMap
  | .flush => m.flushArpMap

/-- A map that is not dirty is on the disk. -/
def Coherent (m : ArpMap) : Prop :=
  m.dirty = false → ∀ b < arpMapSize, m.disk b = m.data b

/-- The call does not change an item of a map that is clean. -/
def Noted (m : ArpMap) : Call → Prop
  | .put ip mac => m.dirty = true ∨ arpMapNr ≤ m.idx
      ∨ ∀ i, m.itemWithMac mac m.idx 0 = some i → (m.item i).1 = ip
  | _ => True

section WriteBack

variable {m : ArpMap} {ip : IpAddr} {mac : MacAddr}

theorem arpMapInit_coherent : m.arpMapInit.Coherent := by
  intro _ b hb
  show m.disk b = m.data.copy 0 m.disk arpMapSize b
  rw [Bytes.copy, if_pos ⟨Nat.zero_le b, by omega⟩]
  rfl

theorem flushArpMap_coherent (h : m.Coherent) : m.flushArpMap.Coherent := by
  rw [flushArpMap]
  split
  · intro _ b hb
    show m.disk.copy 0 m.data arpMapSize b = m.data b
    rw [Bytes.copy, if_pos ⟨Nat.zero_le b, by omega⟩]
    rfl
  · exact h

/-- Writing what is there changes nothing. -/
theorem setAddr_ipAt {p : Bytes} {a : Nat} : setAddr p a (ipAt p a) = p := by
  funext b
  by_cases h : a ≤ b ∧ b < a + 4
  · obtain ⟨i, rfl⟩ : ∃ i : Fin 4, b = a + i := ⟨⟨b - a, by omega⟩, by simp only; omega⟩
    exact setAddr_inside i
  · exact setAddr_outside (by omega)

theorem Coherent.put (h : m.Coherent) (hn : m.Noted (.put ip mac)) :
    (m.putArpMap ip mac).Coherent := by
  rw [putArpMap]
  by_cases hfull : m.idx ≥ arpMapNr
  · rw [if_pos hfull]
    exact h
  rw [if_neg hfull]
  cases hfind : m.itemWithMac mac m.idx 0 with
  | none => exact nofun
  | some i =>
      rcases hn with hdirty | hfull' | hsame
      · exact fun hclean => nomatch hdirty.symm.trans hclean
      · exact absurd hfull' hfull
      · have hdata : setAddr m.data (arpItem i) ip = m.data := by
          rw [← hsame i hfind]
          exact setAddr_ipAt
        intro hclean b hb
        show m.disk b = setAddr m.data (arpItem i) ip b
        rw [hdata]
        exact h hclean b hb

/-- A clean map whose item changes is no longer what the disk has. -/
theorem Coherent.put_breaks (h : m.Coherent) (hn : ¬ m.Noted (.put ip mac)) :
    ¬ (m.putArpMap ip mac).Coherent := by
  simp only [Noted, not_or, not_forall, Bool.not_eq_true] at hn
  obtain ⟨hclean, hfull, i, hfind, hip⟩ := hn
  obtain ⟨-, hi, -⟩ := itemWithMac_eq_some hfind
  obtain ⟨b, hb⟩ := Function.ne_iff.mp hip
  rw [putArpMap, if_neg hfull]
  simp only [hfind]
  intro hafter
  have hlt : arpItem i + b < arpMapSize := by
    have h51 : m.idx < 51 := Nat.not_le.mp hfull
    simp only [arpItem, arpMapSize]
    omega
  have hnew : m.disk (arpItem i + b) = setAddr m.data (arpItem i) ip (arpItem i + b) :=
    hafter hclean _ hlt
  rw [setAddr_inside] at hnew
  exact hb ((h hclean _ hlt).symm.trans hnew)

/-- From `arp_map_init` on, a clean map is on the disk all along exactly
when no call changes an item of a clean map. -/
theorem arpMap_writeBack (m : ArpMap) (calls : List Call) :
    Throughout (fun m c => some (step m c)) Coherent m.arpMapInit calls
      ↔ Always (fun m c => some (step m c)) Noted m.arpMapInit calls := by
  have hB : Always (fun m c => some (step m c)) (fun _ _ => True) m.arpMapInit calls :=
    always_of_forall fun _ _ => trivial
  refine throughout_iff_always (fun _ h => h) ?_ ?_ arpMapInit_coherent hB
  · intro m c m' h _ hn heq
    obtain rfl := Option.some.inj heq
    cases c with
    | put ip mac => exact h.put hn
    | clear => exact nofun
    | flush => exact flushArpMap_coherent h
  · intro m c h _ hn
    cases c with
    | put ip mac => exact ⟨_, rfl, h.put_breaks hn⟩
    | clear => exact absurd trivial hn
    | flush => exact absurd trivial hn

/-- A host moves, and the map is flushed. -/
theorem arpMap_writeBack_fails :
    ¬ ∀ (m : ArpMap) (calls : List Call),
      Throughout (fun m c => some (step m c)) Coherent m.arpMapInit calls := by
  intro hall
  let blank : ArpMap := { data := fun _ => 0, dirty := false, disk := fun _ => 0 }
  let calls : List Call :=
    [.put (fun _ => 1) (fun _ => 2), .flush, .put (fun _ => 3) (fun _ => 2), .flush]
  have hdisk := hall blank calls calls _ List.prefix_rfl rfl (by decide) 0 (by decide)
  exact absurd hdisk (by decide)

end WriteBack

end ArpMap

end Csos
