import Csos.ArpMap
import Mathlib.Data.List.TakeWhile

/-!
# What the ARP map answers

The current address of a MAC address is the IP address of the last call
of `put_arp_map` for it. `find_mac` should answer with the MAC address
that was put last, among those whose current address is asked for. It
takes the first item with the address instead, and a full map takes no
moves, so this depends on the order in which the items were added.
-/

namespace Csos

open Lib

namespace ArpMap

/-! ## The law -/

/-- The calls since the last `clear_arp_map`, the newest in front. -/
abbrev Puts := List (IpAddr × MacAddr)

/-- The current address of `mac`. -/
def currentIp (puts : Puts) (mac : MacAddr) : Option IpAddr :=
  (puts.find? fun e => e.2 = mac).map Prod.fst

/-- The MAC address put last, among those whose current address is `ip`. -/
def lastMac (puts : Puts) (ip : IpAddr) : Option MacAddr :=
  (puts.find? fun e => currentIp puts e.2 = some ip).map Prod.snd

/-- The map, and the calls that made it. -/
structure Record where
  map : ArpMap
  puts : Puts

inductive TableCall where
  | put (ip : IpAddr) (mac : MacAddr)
  | clear

def Record.step (r : Record) : TableCall → Record
  | .put ip mac => ⟨r.map.putArpMap ip mac, (ip, mac) :: r.puts⟩
  | .clear => ⟨r.map.clearArpMap, []⟩

/-- What `find_mac` answers, how many items there are, and that no MAC
address has two. -/
structure Record.TableLaw (r : Record) : Prop where
  answers : ∀ ip, r.map.findMac ip = lastMac r.puts ip
  bounded : r.map.idx ≤ arpMapNr
  distinct : (r.map.items.map Prod.snd).Nodup

/-- A full map already has the item, and no item in front of the one with
this MAC address (no item at all, if there is none) has this IP address. -/
def Foremost (items : List (IpAddr × MacAddr)) (ip : IpAddr) (mac : MacAddr) : Prop :=
  (arpMapNr ≤ items.length → (ip, mac) ∈ items)
    ∧ ∀ e ∈ items.takeWhile fun e => e.2 ≠ mac, e.1 ≠ ip

def Record.Orderly (r : Record) : TableCall → Prop
  | .put ip mac => Foremost r.map.items ip mac
  | .clear => True

/-! ## The sequence -/

section Sequence

variable {items : List (IpAddr × MacAddr)} {puts : Puts} {ip : IpAddr} {mac : MacAddr}

/-- How many other calls came after the last one for `mac`. -/
def recency (puts : Puts) (mac : MacAddr) : Nat := puts.findIdx fun e => e.2 = mac

/-- The items hold the current addresses, and of two with one address the
first was put last. -/
structure Ordered (items : List (IpAddr × MacAddr)) (puts : Puts) : Prop where
  bounded : items.length ≤ arpMapNr
  distinct : (items.map Prod.snd).Nodup
  current : ∀ ip mac, (ip, mac) ∈ items ↔ currentIp puts mac = some ip
  order : items.Pairwise fun e e' => e.1 = e'.1 → recency puts e.2 < recency puts e'.2

theorem currentIp_cons (mac' : MacAddr) :
    currentIp ((ip, mac) :: puts) mac' = if mac = mac' then some ip else currentIp puts mac' := by
  rw [currentIp, List.find?_cons]
  by_cases h : mac = mac'
  · simp [h]
  · simp [h, currentIp]

theorem recency_cons (mac' : MacAddr) :
    recency ((ip, mac) :: puts) mac' = if mac = mac' then 0 else recency puts mac' + 1 := by
  rw [recency, List.findIdx_cons]
  by_cases h : mac = mac'
  · simp [h]
  · simp [h, recency]

/-- Where the last call for `mac` is. -/
theorem recency_spec {i : Nat} (hi : i < puts.length) (hmac : puts[i].2 = mac) :
    recency puts mac ≤ i
      ∧ ∃ h : recency puts mac < puts.length, puts[recency puts mac].2 = mac := by
  have hle : recency puts mac ≤ i := by
    refine Nat.not_lt.mp fun hlt => ?_
    exact absurd (decide_eq_true hmac) (by simpa using List.not_of_lt_findIdx hlt)
  refine ⟨hle, Nat.lt_of_le_of_lt hle hi, ?_⟩
  have hfound := List.findIdx_getElem (w := Nat.lt_of_le_of_lt hle hi)
    (p := fun e => decide (e.2 = mac))
  exact of_decide_eq_true hfound

/-- An item is the one that the last call for its address left. -/
theorem Ordered.mem_puts (h : Ordered items puts) (hmem : (ip, mac) ∈ items) :
    ∃ e ∈ puts, e.2 = mac := by
  obtain ⟨e, he, -⟩ := Option.map_eq_some_iff.mp ((h.current ip mac).mp hmem)
  exact ⟨e, List.mem_of_find?_eq_some he, by simpa using List.find?_some he⟩

/-- The first item with an address is the one that was put last. -/
theorem Ordered.answers (h : Ordered items puts) (ip : IpAddr) :
    Csos.findMac items ip = lastMac puts ip := by
  rw [Csos.findMac, lastMac]
  cases hfirst : items.find? fun e => e.1 = ip with
  | none =>
      cases hlast : puts.find? fun e => currentIp puts e.2 = some ip with
      | none => rfl
      | some g =>
          have hmem := (h.current ip g.2).mpr (by simpa using List.find?_some hlast)
          exact absurd (decide_eq_true rfl) (List.find?_eq_none.mp hfirst _ hmem)
  | some e =>
      obtain ⟨he, as, bs, hitems, has⟩ := List.find?_eq_some_iff_append.mp hfirst
      have hip : e.1 = ip := of_decide_eq_true he
      have hmem : (ip, e.2) ∈ items := by
        rw [hitems, ← hip]
        exact List.mem_append_right _ (List.mem_cons_self ..)
      have hcurrent := (h.current ip e.2).mp hmem
      cases hlast : puts.find? fun e => currentIp puts e.2 = some ip with
      | none =>
          obtain ⟨f, hf, hmac⟩ := h.mem_puts hmem
          exact absurd (decide_eq_true (hmac ▸ hcurrent)) (List.find?_eq_none.mp hlast f hf)
      | some g =>
          obtain ⟨hg, cs, ds, hputs, hcs⟩ := List.find?_eq_some_iff_append.mp hlast
          refine congrArg some (not_not.mp fun hne => ?_)
          -- g comes no later than the last call for e, and e has the smaller recency
          have hother : (ip, g.2) ∈ items := (h.current ip g.2).mpr (of_decide_eq_true hg)
          have hlt : recency puts e.2 < recency puts g.2 := by
            rw [hitems, List.mem_append, List.mem_cons] at hother
            have horder := h.order
            rw [hitems, List.pairwise_append, List.pairwise_cons] at horder
            rcases hother with hin | heq | hin
            · exact absurd (has _ hin) (by simp)
            · exact absurd (congrArg Prod.snd heq).symm hne
            · exact horder.2.1.1 (ip, g.2) hin hip
          have hgi : cs.length < puts.length := by
            rw [hputs, List.length_append, List.length_cons]
            omega
          have hg' : puts[cs.length].2 = g.2 := by
            rw [List.getElem_of_eq hputs hgi]
            simp
          obtain ⟨f, hf, hmac⟩ := h.mem_puts hmem
          obtain ⟨i, hi, rfl⟩ := List.getElem_of_mem hf
          obtain ⟨-, hr, hrmac⟩ := recency_spec hi hmac
          have hle := (recency_spec hgi hg').1
          have hcslt : recency puts e.2 < cs.length := by omega
          have hin : puts[recency puts e.2] ∈ cs := by
            rw [List.getElem_of_eq hputs hr, List.getElem_append_left hcslt]
            exact List.getElem_mem _
          have hnot := hcs _ hin
          rw [hrmac] at hnot
          simp [hcurrent] at hnot

/-! ## One call -/

/-- What lies in front of the item for `mac` stays in front. -/
theorem putArpMap_front :
    ∃ rest, Csos.putArpMap items ip mac = items.takeWhile (fun e => e.2 ≠ mac) ++ rest := by
  have hloop : ∀ items', putArpMapLoop ip mac items = some items' →
      ∃ rest, items' = items.takeWhile (fun e => e.2 ≠ mac) ++ rest := by
    induction items with
    | nil => exact nofun
    | cons e items ih =>
        intro items' h
        rw [putArpMapLoop] at h
        by_cases he : e.2 = mac
        · exact ⟨items', by simp [he]⟩
        · rw [if_neg he] at h
          obtain ⟨items'', hrest, rfl⟩ := Option.map_eq_some_iff.mp h
          obtain ⟨rest, rfl⟩ := ih items'' hrest
          exact ⟨rest, by simp [he]⟩
  have hitems : ∃ rest, items = items.takeWhile (fun e => e.2 ≠ mac) ++ rest :=
    ⟨_, List.takeWhile_append_dropWhile.symm⟩
  rw [Csos.putArpMap]
  split
  · exact hitems
  · cases hput : putArpMapLoop ip mac items with
    | some items' => exact hloop items' hput
    | none =>
        obtain ⟨rest, hrest⟩ := hitems
        refine ⟨rest ++ [(ip, mac)], ?_⟩
        rw [Option.getD_none, ← List.append_assoc, ← hrest]

/-- The item for `mac` with a new address. -/
def moved (ip : IpAddr) (mac : MacAddr) (e : IpAddr × MacAddr) : IpAddr × MacAddr :=
  if e.2 = mac then (ip, mac) else e

@[simp] theorem moved_mac (e : IpAddr × MacAddr) : (moved ip mac e).2 = e.2 := by
  rw [moved]
  split
  case isTrue h => exact h.symm
  case isFalse => rfl

theorem putArpMapLoop_none (h : ∀ e ∈ items, e.2 ≠ mac) : putArpMapLoop ip mac items = none := by
  induction items with
  | nil => rfl
  | cons e items ih =>
      rw [putArpMapLoop, if_neg (h e (List.mem_cons_self ..)),
        ih fun e he => h e (List.mem_cons_of_mem _ he)]
      rfl

theorem putArpMapLoop_some (hd : (items.map Prod.snd).Nodup) (hmem : mac ∈ items.map Prod.snd) :
    putArpMapLoop ip mac items = some (items.map (moved ip mac)) := by
  induction items with
  | nil => cases hmem
  | cons e items ih =>
      obtain ⟨hnew, hd⟩ := List.nodup_cons.mp hd
      rw [putArpMapLoop, List.map_cons, moved]
      by_cases he : e.2 = mac
      · rw [if_pos he, if_pos he]
        have hsame : items.map (moved ip mac) = items := by
          refine (List.map_congr_left fun f hf => ?_).trans (List.map_id _)
          have hne : f.2 ≠ mac := fun hf' =>
            hnew (List.mem_map.mpr ⟨f, hf, hf'.trans he.symm⟩)
          rw [moved, if_neg hne]
          rfl
        rw [hsame]
      · rw [if_neg he, if_neg he, ih hd ((List.mem_cons.mp hmem).resolve_left (Ne.symm he))]
        rfl

/-- An orderly call moves the item for `mac`, or adds it at the end. -/
theorem putArpMap_cases (hd : (items.map Prod.snd).Nodup) (hf : Foremost items ip mac) :
    (mac ∈ items.map Prod.snd ∧ Csos.putArpMap items ip mac = items.map (moved ip mac))
      ∨ (mac ∉ items.map Prod.snd ∧ items.length < arpMapNr
        ∧ Csos.putArpMap items ip mac = items ++ [(ip, mac)]) := by
  rw [Csos.putArpMap]
  by_cases hmem : mac ∈ items.map Prod.snd
  · refine Or.inl ⟨hmem, ?_⟩
    by_cases hfull : arpMapNr ≤ items.length
    · rw [if_pos hfull]
      have hin := hf.1 hfull
      refine ((List.map_congr_left fun e he => ?_).trans (List.map_id _)).symm
      by_cases hmac : e.2 = mac
      · have heq : e = (ip, mac) := List.inj_on_of_nodup_map hd he hin hmac
        rw [moved, if_pos hmac, heq]
        rfl
      · rw [moved, if_neg hmac]
        rfl
    · rw [if_neg hfull, putArpMapLoop_some hd hmem, Option.getD_some]
  · have hroom : items.length < arpMapNr := Nat.not_le.mp fun hfull =>
      hmem (List.mem_map.mpr ⟨_, hf.1 hfull, rfl⟩)
    have hnone : ∀ e ∈ items, e.2 ≠ mac := fun e he hmac =>
      hmem (List.mem_map.mpr ⟨e, he, hmac⟩)
    refine Or.inr ⟨hmem, hroom, ?_⟩
    rw [if_neg (Nat.not_le.mpr hroom), putArpMapLoop_none hnone, Option.getD_none]

/-- With one item for each MAC address, the ones in front are those that
come before the item for `mac`. -/
theorem pairwise_of_front {Q : IpAddr × MacAddr → Prop} (hd : (items.map Prod.snd).Nodup)
    (hfront : ∀ e ∈ items.takeWhile fun e => e.2 ≠ mac, Q e) :
    items.Pairwise fun e e' => e'.2 = mac → Q e := by
  induction items with
  | nil => exact .nil
  | cons e items ih =>
      obtain ⟨hnew, hd⟩ := List.nodup_cons.mp hd
      by_cases he : e.2 = mac
      · have hne : ∀ f ∈ items, f.2 ≠ mac := fun f hf hf' =>
          hnew (List.mem_map.mpr ⟨f, hf, hf'.trans he.symm⟩)
        refine List.pairwise_cons.mpr ⟨fun f hf hf' => absurd hf' (hne f hf), ?_⟩
        exact List.pairwise_of_forall_mem_list fun _ _ f hf hf' => absurd hf' (hne f hf)
      · simp only [List.takeWhile_cons, ne_eq, he, not_false_eq_true, decide_true, if_true,
          List.forall_mem_cons] at hfront
        exact List.pairwise_cons.mpr ⟨fun _ _ _ => hfront.1, ih hd hfront.2⟩

theorem Ordered.nil : Ordered [] [] :=
  ⟨Nat.zero_le _, List.nodup_nil, fun _ _ => ⟨nofun, nofun⟩, .nil⟩

/-- The order, when an item moves. -/
theorem Ordered.order_moved (h : Ordered items puts) (hf : Foremost items ip mac) :
    (items.map (moved ip mac)).Pairwise fun e e' => e.1 = e'.1 →
      recency ((ip, mac) :: puts) e.2 < recency ((ip, mac) :: puts) e'.2 := by
  have hd : items.Pairwise fun e e' => e.2 ≠ e'.2 := List.pairwise_map.mp h.distinct
  have hfront := pairwise_of_front h.distinct hf.2
  refine List.pairwise_map.mpr (((hd.and hfront).and h.order).imp ?_)
  rintro e e' ⟨⟨hne, hfirst⟩, horder⟩ hip
  rw [moved_mac, moved_mac, recency_cons, recency_cons]
  by_cases he : mac = e.2
  · rw [if_pos he, if_neg fun he' => hne (he.symm.trans he')]
    exact Nat.succ_pos _
  · rw [if_neg he]
    rw [moved, if_neg (Ne.symm he)] at hip
    by_cases he' : mac = e'.2
    · rw [moved, if_pos he'.symm] at hip
      exact absurd hip (hfirst he'.symm)
    · rw [moved, if_neg (Ne.symm he')] at hip
      rw [if_neg he']
      exact Nat.succ_lt_succ (horder hip)

/-- The order, when an item is added. -/
theorem Ordered.order_added (h : Ordered items puts) (hf : Foremost items ip mac)
    (hnew : mac ∉ items.map Prod.snd) :
    (items ++ [(ip, mac)]).Pairwise fun e e' => e.1 = e'.1 →
      recency ((ip, mac) :: puts) e.2 < recency ((ip, mac) :: puts) e'.2 := by
  have hne : ∀ e ∈ items, e.2 ≠ mac := fun e he hmac => hnew (List.mem_map.mpr ⟨e, he, hmac⟩)
  have hall : (items.takeWhile fun e => e.2 ≠ mac) = items :=
    List.takeWhile_eq_self_iff.mpr fun e he => decide_eq_true (hne e he)
  refine List.pairwise_append.mpr ⟨?_, List.pairwise_singleton _ _, fun e he e' he' hip => ?_⟩
  · refine h.order.imp_of_mem fun {e e'} he he' horder hip => ?_
    rw [recency_cons, recency_cons, if_neg (Ne.symm (hne e he)), if_neg (Ne.symm (hne e' he'))]
    exact Nat.succ_lt_succ (horder hip)
  · obtain rfl := List.mem_singleton.mp he'
    exact absurd hip (hf.2 e (by rwa [hall]))

/-- An orderly call keeps the order. -/
theorem Ordered.put (h : Ordered items puts) (hf : Foremost items ip mac) :
    Ordered (Csos.putArpMap items ip mac) ((ip, mac) :: puts) := by
  rcases putArpMap_cases h.distinct hf with ⟨hmem, heq⟩ | ⟨hnew, hroom, heq⟩
  · rw [heq]
    refine ⟨?_, ?_, fun ip' mac' => ?_, h.order_moved hf⟩
    · rw [List.length_map]
      exact h.bounded
    · have hmacs : (items.map (moved ip mac)).map Prod.snd = items.map Prod.snd := by
        rw [List.map_map]
        exact List.map_congr_left fun e _ => moved_mac e
      rw [hmacs]
      exact h.distinct
    · rw [currentIp_cons, List.mem_map]
      by_cases hmac : mac = mac'
      · subst hmac
        rw [if_pos rfl, Option.some.injEq]
        constructor
        · rintro ⟨e, -, he⟩
          have hmac' : e.2 = mac := (moved_mac e).symm.trans (congrArg Prod.snd he)
          rw [moved, if_pos hmac'] at he
          exact congrArg Prod.fst he
        · rintro rfl
          obtain ⟨e, he, hmac'⟩ := List.mem_map.mp hmem
          exact ⟨e, he, if_pos hmac'⟩
      · rw [if_neg hmac, ← h.current]
        constructor
        · rintro ⟨e, hin, he⟩
          have hmac' : e.2 = mac' := (moved_mac e).symm.trans (congrArg Prod.snd he)
          rw [moved, if_neg fun hm => hmac (hm.symm.trans hmac')] at he
          exact he ▸ hin
        · exact fun hin => ⟨_, hin, if_neg (Ne.symm hmac)⟩
  · rw [heq]
    refine ⟨?_, ?_, fun ip' mac' => ?_, h.order_added hf hnew⟩
    · rw [List.length_append, List.length_singleton]
      exact hroom
    · rw [List.map_append, List.map_singleton]
      refine List.nodup_append.mpr ⟨h.distinct, List.nodup_singleton _, fun a ha b hb hab => ?_⟩
      rw [hab, List.mem_singleton.mp hb] at ha
      exact hnew ha
    · rw [currentIp_cons, List.mem_append, List.mem_singleton, Prod.mk.injEq]
      by_cases hmac : mac = mac'
      · subst hmac
        rw [if_pos rfl, Option.some.injEq]
        refine ⟨fun hin => ?_, fun hip => Or.inr ⟨hip.symm, rfl⟩⟩
        exact ((hin.resolve_left fun hin => hnew (List.mem_map.mpr ⟨_, hin, rfl⟩)).1).symm
      · rw [if_neg hmac, ← h.current]
        exact ⟨fun hin => hin.resolve_right fun hm => hmac hm.2.symm, Or.inl⟩

/-- Any other call leaves a wrong answer. -/
theorem Ordered.put_breaks (hf : ¬ Foremost items ip mac) :
    Csos.findMac (Csos.putArpMap items ip mac) ip ≠ lastMac ((ip, mac) :: puts) ip := by
  have hlast : lastMac ((ip, mac) :: puts) ip = some mac := by
    have hcurrent : currentIp ((ip, mac) :: puts) mac = some ip := by
      rw [currentIp_cons, if_pos rfl]
    rw [lastMac, List.find?_cons]
    simp only [hcurrent, decide_true, Option.map_some]
  rw [hlast]
  intro hfind
  obtain ⟨e, he, rfl⟩ := Option.map_eq_some_iff.mp hfind
  have hip : e.1 = ip := by simpa using List.find?_some he
  rw [Foremost, not_and_or] at hf
  rcases hf with hfull | hfront
  · obtain ⟨hfull, hnot⟩ := Classical.not_imp.mp hfull
    rw [Csos.putArpMap, if_pos hfull] at he
    exact hnot (hip ▸ List.mem_of_find?_eq_some he)
  · simp only [not_forall, not_not] at hfront
    obtain ⟨f, hf, hfip⟩ := hfront
    obtain ⟨rest, hput⟩ := @putArpMap_front items ip e.2
    rw [hput, List.find?_append] at he
    cases hfirst : (items.takeWhile fun f => f.2 ≠ e.2).find? fun f => f.1 = ip with
    | none => exact absurd (decide_eq_true hfip) (List.find?_eq_none.mp hfirst f hf)
    | some g =>
        rw [hfirst, Option.some_or] at he
        obtain rfl := Option.some.inj he
        have hne := List.mem_takeWhile_imp (List.mem_of_find?_eq_some hfirst)
        simp at hne

end Sequence

/-! ## All runs -/

theorem Record.Ordered.tableLaw {r : Record} (h : Ordered r.map.items r.puts) : r.TableLaw := by
  refine ⟨fun ip => ?_, ?_, h.distinct⟩
  · rw [findMac_items]
    exact h.answers ip
  · rw [← items_length]
    exact h.bounded

/-- From a cleared map on, `find_mac` answers as it should all along
exactly when every call of `put_arp_map` is orderly. -/
theorem arpTable_law (m : ArpMap) (calls : List TableCall) :
    Throughout (fun r c => some (Record.step r c)) Record.TableLaw ⟨m.clearArpMap, []⟩ calls
      ↔ Always (fun r c => some (Record.step r c)) Record.Orderly ⟨m.clearArpMap, []⟩ calls := by
  have hB :
      Always (fun r c => some (Record.step r c)) (fun _ _ => True) ⟨m.clearArpMap, []⟩ calls :=
    always_of_forall fun _ _ => trivial
  let I : Record → Prop := fun r => Ordered r.map.items r.puts
  have hempty : ∀ m : ArpMap, Ordered m.clearArpMap.items [] := fun m => by
    rw [clearArpMap_items]
    exact .nil
  refine throughout_iff_always (I := I) (fun _ => Record.Ordered.tableLaw) ?_ ?_ (hempty m) hB
  · intro r c r' h _ hf heq
    obtain rfl := Option.some.inj heq
    cases c with
    | put ip mac =>
        show Ordered (r.map.putArpMap ip mac).items _
        rw [putArpMap_items]
        exact Ordered.put h hf
    | clear => exact hempty r.map
  · intro r c h _ hf
    cases c with
    | put ip mac =>
        refine ⟨_, rfl, fun hlaw => ?_⟩
        have hfind := hlaw.answers ip
        rw [findMac_items] at hfind
        change Csos.findMac (r.map.putArpMap ip mac).items ip = _ at hfind
        rw [putArpMap_items] at hfind
        exact Ordered.put_breaks hf hfind
    | clear => exact absurd trivial hf

/-- Two MAC addresses have one current address. -/
theorem arpTable_law_fails :
    ¬ ∀ (m : ArpMap) (calls : List TableCall), calls.length ≤ arpMapNr →
      Throughout (fun r c => some (Record.step r c)) Record.TableLaw ⟨m.clearArpMap, []⟩
        calls := by
  intro hall
  let blank : ArpMap := { data := fun _ => 0, dirty := false, disk := fun _ => 0 }
  let calls : List TableCall := [.put (fun _ => 1) (fun _ => 2), .put (fun _ => 1) (fun _ => 3)]
  have hlaw := hall blank calls (by decide) calls _ List.prefix_rfl rfl
  exact absurd (hlaw.answers fun _ => 1) (by decide +kernel)

end ArpMap

end Csos
