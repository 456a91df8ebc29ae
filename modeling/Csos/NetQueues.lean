import Csos.DescBuff
import Csos.Packet

/-!
# The queues of the network (`kernel32/netx.c`, `lib/buff.c`)

Every interface has a list of received buffers, a list of buffers to
send and a list of sent buffers that wait for their answer. All of them,
and `buff_list`, link a buffer by its one list node.

`NetLaw` asks for what the lists are for. It survives as long as a
buffer is put on the lists of an interface only when it is the only one
in the system (`NetRun.Fits`): with a second buffer, writing the node
for one list cuts another one. The semaphores that wake the two threads
are not part of the state.
-/

namespace Csos

open Lib

/-! ## The data -/

/-- The buffers and the interfaces. -/
structure NetState where
  buffs : DescBuffs
  netifs : Nat → Netif
  netifCount : Nat

/-! ## The functions -/

def NetState.findNetif (s : NetState) (mac : MacAddr) : Option Nat :=
  Csos.findNetif s.netifs s.netifCount mac

/-- Link the buffer at the end of a list. -/
def linkDescBuff (s : NetState) (list : BuffList) (buff : BuffPtr) : Option NetState := do
  let heap ← listInsertBack s.buffs.heap list buff
  return { s with buffs := { s.buffs with heap } }

/-- `free_desc_buff`, in the state of the network. -/
def NetState.freeDescBuff (s : NetState) (buff : BuffPtr) : Option NetState := do
  let buffs ← Csos.freeDescBuff s.buffs buff
  return { s with buffs }

def netifInput (s : NetState) (buff : BuffPtr) : Option NetState :=
  match s.findNetif (macAt (s.buffs.payload buff) ethDst) with
  | some netif => linkDescBuff s (.rxList netif) buff
  | none => s.freeDescBuff buff

def netifOutput (s : NetState) (buff : BuffPtr) : Option NetState :=
  match s.findNetif (macAt (s.buffs.payload buff) ethSrc) with
  | some netif => do
      let s ← linkDescBuff s (.txList netif) buff
      linkDescBuff s (.waitList netif) buff
  | none => s.freeDescBuff buff

/-- More steps than there are nodes: a walk that is still on its way after
so many goes in a circle. -/
def walkFuel : Nat := 0x100000000

/-- The `while (pnode)` loop of `reply_desc_buff`: the first node from
`pnode` on whose buffer `answers`. -/
def replyWalk (answers : BuffPtr → Bool) (h : Heap BuffList BuffPtr) :
    Nat → Option BuffPtr → Option (Option BuffPtr)
  | _, none => some none
  | 0, some _ => none
  | n + 1, some pnode =>
      if answers pnode then some (some pnode) else replyWalk answers h n (h.next pnode)

/-- A condition on two frames, of the buffers that they lie in. -/
def replies (answers : Bytes → Bytes → Bool) (s : DescBuffs) (rxbuff txbuff : BuffPtr) : Bool :=
  answers (s.payload rxbuff) (s.payload txbuff)

/-- `reply_arp_desc_buff` and `reply_icmp_desc_buff`, and the buffer that
was taken off the wait list. -/
def replyWith (answers : BuffPtr → Bool) (s : NetState) (netif : Nat) (rxbuff : BuffPtr) :
    Option (NetState × Option BuffPtr) := do
  let first ← listGetFirst s.buffs.heap (.waitList netif)
  match ← replyWalk answers s.buffs.heap walkFuel first with
  | none => return (s, none)
  | some pnode =>
      let refp := Function.update s.buffs.refp pnode (some rxbuff)
      let (heap, _) ← listRemove s.buffs.heap (.waitList netif) pnode
      return ({ s with buffs := { s.buffs with heap, refp } }, some pnode)

def replyDescBuff (s : NetState) (netif : Nat) (buff : BuffPtr) :
    DescBuffType → Option (NetState × Option BuffPtr)
  | .arp => replyWith (replies arpReplies s.buffs buff) s netif buff
  | .icmp => replyWith (replies icmpReplies s.buffs buff) s netif buff
  | _ => do
      let s ← s.freeDescBuff buff
      return (s, none)

/-- One round of `netin_thread` or `netout_thread` for one interface. -/
def dequeueDescBuff (s : NetState) (list : BuffList) : Option (NetState × Option BuffPtr) := do
  if ← listIsEmpty s.buffs.heap list then
    return (s, none)
  else
    let (heap, first) ← listRemoveFront s.buffs.heap list
    return ({ s with buffs := { s.buffs with heap } }, first)

/-- What the drivers, the protocols and the two threads may do next.
`write` is what happens to a frame in between. -/
inductive NetCall where
  | alloc
  | free (buff : BuffPtr)
  | write (buff : BuffPtr) (payload : Bytes)
  | input (buff : BuffPtr)
  | output (buff : BuffPtr)
  | reply (netif : Nat) (buff : BuffPtr) (type : DescBuffType)
  | netin (netif : Nat)
  | netout (netif : Nat)

/-- The network, and for each interface the buffers that `netif_output`
has put on its wait list and that have not been taken off since. No
function reads `waiting`. -/
structure NetRun where
  net : NetState
  waiting : Nat → List BuffPtr

def NetRun.step (r : NetRun) : NetCall → Option NetRun
  | .alloc => do
      let (buffs, _) ← allocDescBuff r.net.buffs
      return { r with net := { r.net with buffs } }
  | .free buff => do
      let net ← r.net.freeDescBuff buff
      return { r with net }
  | .write buff p =>
      let payload := Function.update r.net.buffs.payload buff p
      some { r with net := { r.net with buffs := { r.net.buffs with payload } } }
  | .input buff => do
      let net ← netifInput r.net buff
      return { r with net }
  | .output buff => do
      let net ← netifOutput r.net buff
      match r.net.findNetif (macAt (r.net.buffs.payload buff) ethSrc) with
      | none => return { r with net }
      | some i => return ⟨net, Function.update r.waiting i (r.waiting i ++ [buff])⟩
  | .reply i buff type => do
      let (net, pnode) ← replyDescBuff r.net i buff type
      return ⟨net, Function.update r.waiting i ((r.waiting i).filter fun b => some b ≠ pnode)⟩
  | .netin i => do
      let (net, _) ← dequeueDescBuff r.net (.rxList i)
      return { r with net }
  | .netout i => do
      let (net, _) ← dequeueDescBuff r.net (.txList i)
      return { r with net }

/-! ## What a list holds -/

section Contents

variable {L N : Type} {h h' : Heap L N} {l l' : L} {ns ns' : List N} {n : N}

/-- The first `n` nodes that a walk along `next` meets. -/
def walkNext (next : N → Option N) : Nat → Option N → List N
  | _, none => []
  | 0, some _ => []
  | n + 1, some p => p :: walkNext next n (next p)

/-- The nodes of the list at `l`, in order. -/
def Heap.contents (h : Heap L N) (l : L) : List N := walkNext h.next (h.size l).toNat (h.head l)

theorem walkNext_path {next : N → Option N} {p : Option N} (hp : Path next p ns) :
    walkNext next ns.length p = ns := by
  induction ns generalizing p with
  | nil =>
      obtain rfl := hp
      rfl
  | cons n ns ih =>
      obtain ⟨rfl, hn⟩ := hp
      rw [List.length_cons, walkNext, ih hn]

theorem Heap.Rep.contents_eq (hr : h.Rep l ns) : h.contents l = ns := by
  rw [Heap.contents, hr.size, walkNext_path hr.forward]

/-- A list of one node, in terms of its five words. -/
theorem Heap.rep_singleton : h.Rep l [n] ↔ h.head l = some n ∧ h.tail l = some n
    ∧ h.pre n = none ∧ h.next n = none ∧ (h.size l).toNat = 1 := by
  rw [Heap.rep_iff_dseg, dseg_singleton]
  simp [and_assoc]

variable [DecidableEq L] [DecidableEq N]

/-- Removing the only node clears its links. -/
theorem Heap.listRemove_links (hr : h.Rep l [n]) (heq : listRemove h l n = some (h', n)) :
    h'.pre n = none ∧ h'.next n = none := by
  obtain ⟨hh, ht, hp, hn, -⟩ := Heap.rep_singleton.mp hr
  simp [listRemove, hh, ht, hp, hn] at heq
  subst heq
  simp

theorem Heap.listRemoveFront_links {m : Option N} (hr : h.Rep l [n])
    (heq : listRemoveFront h l = some (h', m)) : h'.pre n = none ∧ h'.next n = none := by
  obtain ⟨hh, -, -, hn, hs⟩ := Heap.rep_singleton.mp hr
  have h0 : h.size l ≠ 0 := fun h0 => by simp [h0] at hs
  simp [listRemoveFront, listIsEmpty, hh, hn, h0] at heq
  obtain ⟨rfl, -⟩ := heq
  simp

omit [DecidableEq L] [DecidableEq N] in
/-- A write to nodes `ms` and to the list at `l` keeps the list at `l'`,
if the lists share no node, or one whose links are NULL afterwards. -/
theorem Heap.Rep.frame_or {ms : List N} (hr : h.Rep l' ns') (hf : Heap.Frame h h' l ms)
    (hl : l' ≠ l)
    (hns : (∀ m ∈ ns', m ∉ ms) ∨ ∃ n, ns' = [n] ∧ h'.pre n = none ∧ h'.next n = none) :
    h'.Rep l' ns' := by
  rcases hns with hdisj | ⟨n, rfl, hp, hn⟩
  · exact hr.frame hf hl hdisj
  · obtain ⟨hh, ht, -, -, hs⟩ := Heap.rep_singleton.mp hr
    rw [← hf.head l' hl] at hh
    rw [← hf.tail l' hl] at ht
    rw [← hf.size l' hl] at hs
    exact Heap.rep_singleton.mpr ⟨hh, ht, hp, hn, hs⟩

end Contents

/-! ## The law -/

/-- The lists are well formed, and what was put on a wait list is
there. -/
structure NetLaw (r : NetRun) : Prop where
  lists : ∀ l, ∃ ns, r.net.buffs.heap.Rep l ns
  waiting : ∀ i, ∀ b ∈ r.waiting i, b ∈ r.net.buffs.heap.contents (.waitList i)

/-- The buffers of a list. -/
def NetRun.list (r : NetRun) (l : BuffList) : List BuffPtr := r.net.buffs.heap.contents l

/-- The buffer is live, and `free_desc_buff` may give its page back. -/
def NetRun.MayFree (r : NetRun) (b : BuffPtr) : Prop :=
  b ∈ r.list .buffList ∧ ((r.list .buffList).length % 2 = 1 → b.page < vmShellBase)

/-- The buffer may be put on the lists of the interface with this address,
or freed if there is none. -/
def NetRun.MayLink (r : NetRun) (b : BuffPtr) (mac : MacAddr) (lists : Nat → List BuffList) : Prop :=
  match r.net.findNetif mac with
  | some i => r.list .buffList = [b] ∧ ∀ l ∈ lists i, r.list l = []
  | none => r.MayFree b

/-- A call that keeps the lists well formed.

`alloc_desc_buff` must find a place that no live buffer has, and unless
it is the first buffer, no list of an interface may hold a buffer that
`buff_list` then links. A buffer is put on lists of an interface only
when it is the only live buffer and these lists are empty. -/
def NetRun.Fits (r : NetRun) : NetCall → Prop
  | .alloc => ∃ buf ∉ r.list .buffList,
      (nextDescBuff r.net.buffs).map Prod.snd = some buf.addr
      ∧ (r.list .buffList ≠ [] →
          ∀ l ≠ .buffList, ∀ c ∈ r.list l, c ∉ r.list .buffList ∧ c ≠ buf)
  | .free b => r.MayFree b
  | .write _ _ => True
  | .input b => r.MayLink b (macAt (r.net.buffs.payload b) ethDst) fun i => [.rxList i]
  | .output b =>
      r.MayLink b (macAt (r.net.buffs.payload b) ethSrc) fun i => [.txList i, .waitList i]
  | .reply _ b type => type ≠ .arp → type ≠ .icmp → r.MayFree b
  | .netin _ => True
  | .netout _ => True

/-- The contents of the lists in a run that fits: a list of an interface
has at most one buffer, and if `buff_list` has that buffer too, it has
no other one. -/
structure ListsInv (h : Heap BuffList BuffPtr) (lists : BuffList → List BuffPtr) : Prop where
  rep : ∀ l, h.Rep l (lists l)
  alone : ∀ l ≠ .buffList, lists l = []
    ∨ ∃ b, lists l = [b] ∧ (b ∈ lists .buffList → lists .buffList = [b])

structure NetInv (r : NetRun) (lists : BuffList → List BuffPtr) : Prop extends
    ListsInv r.net.buffs.heap lists where
  waiting : ∀ i, ∀ b ∈ r.waiting i, b ∈ lists (.waitList i)

variable {r r' : NetRun} {h h' : Heap BuffList BuffPtr} {lists : BuffList → List BuffPtr}
  {l l' : BuffList} {b : BuffPtr} {ns ms : List BuffPtr}

theorem NetInv.list_eq (hi : NetInv r lists) (l : BuffList) : r.list l = lists l :=
  (hi.rep l).contents_eq

theorem NetInv.law (hi : NetInv r lists) : NetLaw r :=
  ⟨fun l => ⟨_, hi.rep l⟩, fun i b hb => by
    rw [(hi.rep _).contents_eq]
    exact hi.waiting i b hb⟩

/-! ## One list changes -/

/-- What an interface holds is in another list not at all, or alone. -/
theorem ListsInv.apart (hi : ListsInv h lists) (hl : l ≠ .buffList) (hb : b ∈ lists l)
    (l' : BuffList) : b ∉ lists l' ∨ lists l' = [b] := by
  obtain h0 | ⟨c, hc, hall⟩ := hi.alone l hl
  · rw [h0] at hb
    cases hb
  · obtain rfl : b = c := by simpa [hc] using hb
    by_cases hbuff : l' = .buffList
    · rw [hbuff]
      exact (em (b ∈ lists .buffList)).symm.imp_right hall
    · obtain h0 | ⟨d, hd, -⟩ := hi.alone l' hbuff
      · exact Or.inl (by simp [h0])
      · by_cases hbd : b = d
        · exact Or.inr (by rw [hd, hbd])
        · exact Or.inl (by simpa [hd] using hbd)

/-- The list at `l` and the nodes `ms` were written. -/
theorem ListsInv.rep_update (hi : ListsInv h lists) (hr : h'.Rep l ns)
    (hf : Heap.Frame h h' l ms)
    (hother : ∀ l' ≠ l, (∀ m ∈ lists l', m ∉ ms)
      ∨ ∃ n, lists l' = [n] ∧ h'.pre n = none ∧ h'.next n = none) (l' : BuffList) :
    h'.Rep l' (Function.update lists l ns l') := by
  by_cases hl : l' = l
  · rw [hl, Function.update_self]
    exact hr
  · rw [Function.update_of_ne hl]
    exact (hi.rep l').frame_or hf hl (hother l' hl)

/-- The only live buffer is put on an empty list. -/
theorem ListsInv.insert (hi : ListsInv h lists) (hl : l ≠ .buffList)
    (hbuff : lists .buffList = [b]) (h0 : lists l = []) :
    ∃ h', listInsertBack h l b = some h' ∧ ListsInv h' (Function.update lists l [b]) := by
  obtain ⟨h', heq, hr, hf⟩ := Heap.listInsertBack_spec (h0 ▸ hi.rep l) List.not_mem_nil
  obtain ⟨-, -, hp, hn, -⟩ := Heap.rep_singleton.mp hr
  have hself : Function.update lists l [b] .buffList = [b] := by
    rw [Function.update_of_ne hl.symm, hbuff]
  refine ⟨h', heq, hi.rep_update hr hf fun l' _ => ?_, fun l' hl' => ?_⟩
  · by_cases hmem : b ∈ lists l'
    · have hone : b ∉ lists l' ∨ lists l' = [b] := by
        by_cases hl' : l' = .buffList
        · exact Or.inr (hl' ▸ hbuff)
        · obtain hz | ⟨c, hc, -⟩ := hi.alone l' hl'
          · exact Or.inl (by simp [hz])
          · rw [hc, List.mem_singleton] at hmem
            exact Or.inr (by rw [hc, hmem])
      exact Or.inr ⟨b, hone.resolve_left (not_not.mpr hmem), hp, hn⟩
    · refine Or.inl fun m hm hmb => hmem ?_
      rwa [List.mem_singleton.mp hmb] at hm
  · by_cases heq : l' = l
    · rw [heq, Function.update_self]
      exact Or.inr ⟨b, rfl, fun _ => hself⟩
    · rw [Function.update_of_ne heq, Function.update_of_ne hl.symm]
      exact hi.alone l' hl'

/-- A list of an interface is emptied. -/
theorem ListsInv.empty (hi : ListsInv h lists) (hl : l ≠ .buffList) (hb : lists l = [b])
    (hr : h'.Rep l []) (hf : Heap.Frame h h' l [b]) (hlinks : h'.pre b = none ∧ h'.next b = none) :
    ListsInv h' (Function.update lists l []) := by
  have hmem : b ∈ lists l := by rw [hb]; exact List.mem_singleton_self b
  refine ⟨hi.rep_update hr hf fun l' _ => ?_, fun l' hl' => ?_⟩
  · refine (hi.apart hl hmem l').imp (fun hno m hm hmb => hno ?_) fun hone => ⟨b, hone, hlinks⟩
    rwa [List.mem_singleton.mp hmb] at hm
  · rw [Function.update_of_ne hl.symm]
    by_cases heq : l' = l
    · rw [heq, Function.update_self]
      exact Or.inl rfl
    · rw [Function.update_of_ne heq]
      exact hi.alone l' hl'

theorem ListsInv.remove (hi : ListsInv h lists) (hl : l ≠ .buffList) (hb : lists l = [b]) :
    ∃ h', listRemove h l b = some (h', b) ∧ ListsInv h' (Function.update lists l []) := by
  have hrep : h.Rep l ([] ++ b :: []) := hb ▸ hi.rep l
  obtain ⟨h', heq, hr, hf⟩ := Heap.listRemove_spec hrep
  exact ⟨h', heq, hi.empty hl hb hr hf (Heap.listRemove_links hrep heq)⟩

theorem ListsInv.removeFront (hi : ListsInv h lists) (hl : l ≠ .buffList) (hb : lists l = [b]) :
    ∃ h', listRemoveFront h l = some (h', some b)
      ∧ ListsInv h' (Function.update lists l []) := by
  have hrep : h.Rep l [b] := hb ▸ hi.rep l
  obtain ⟨h', heq, hr, hf⟩ := Heap.listRemoveFront_spec hrep
  exact ⟨h', heq, hi.empty hl hb hr hf (Heap.listRemoveFront_links hrep heq)⟩

/-- A live buffer is taken off `buff_list`. -/
theorem ListsInv.free {as bs : List BuffPtr} (hi : ListsInv h lists)
    (hb : lists .buffList = as ++ b :: bs) (hr : h'.Rep .buffList (as ++ bs))
    (hf : Heap.Frame h h' .buffList (as ++ b :: bs))
    (heq : listRemove h .buffList b = some (h', b)) :
    ListsInv h' (Function.update lists .buffList (as ++ bs)) := by
  have honly : ∀ c, lists .buffList = [c] → c = b ∧ as = [] ∧ bs = [] := by
    intro c hc
    rw [hb] at hc
    cases as with
    | nil => simpa [eq_comm] using hc
    | cons a as => simp at hc
  refine ⟨hi.rep_update hr hf fun l' hl' => ?_, fun l' hl' => ?_⟩
  · obtain h0 | ⟨c, hc, hall⟩ := hi.alone l' hl'
    · exact Or.inl (by simp [h0])
    · rw [← hb]
      by_cases hmem : c ∈ lists .buffList
      · obtain ⟨rfl, -, -⟩ := honly c (hall hmem)
        exact Or.inr ⟨c, hc, Heap.listRemove_links (hall hmem ▸ hi.rep .buffList) heq⟩
      · exact Or.inl (by simpa [hc] using hmem)
  · rw [Function.update_of_ne hl', Function.update_self]
    refine (hi.alone l' hl').imp_right fun ⟨c, hc, hall⟩ => ⟨c, hc, fun hmem => ?_⟩
    have hin : c ∈ lists .buffList := by
      rw [hb]
      rcases List.mem_append.mp hmem with hm | hm
      · exact List.mem_append_left _ hm
      · exact List.mem_append_right _ (List.mem_cons_of_mem _ hm)
    obtain ⟨-, rfl, rfl⟩ := honly c (hall hin)
    cases hmem

/-- A new buffer is put on `buff_list`. -/
theorem ListsInv.alloc (hi : ListsInv h lists) (hb : b ∉ lists .buffList)
    (hother : lists .buffList ≠ [] →
      ∀ l ≠ .buffList, ∀ c ∈ lists l, c ∉ lists .buffList ∧ c ≠ b) :
    ∃ h₁ h₂, listNodeInit h b = some h₁ ∧ listInsertBack h₁ .buffList b = some h₂
      ∧ ListsInv h₂ (Function.update lists .buffList (lists .buffList ++ [b])) := by
  obtain ⟨h₁, e₁, hp₁, hn₁, hkeep⟩ := Heap.listNodeInit_spec h b
  have hi₁ : ListsInv h₁ lists := by
    refine ⟨fun l => ?_, hi.alone⟩
    by_cases hmem : b ∈ lists l
    · have hl : l ≠ .buffList := fun hl => hb (hl ▸ hmem)
      have hone := ((hi.apart hl hmem l).resolve_left (not_not.mpr hmem))
      obtain ⟨hh, ht, -, -, hs⟩ := Heap.rep_singleton.mp (hone ▸ hi.rep l)
      obtain rfl := Option.some.inj e₁
      exact hone ▸ Heap.rep_singleton.mpr ⟨hh, ht, hp₁, hn₁, hs⟩
    · exact hkeep l _ (hi.rep l) hmem
  obtain ⟨h₂, e₂, hr, hf⟩ := Heap.listInsertBack_spec (hi₁.rep .buffList) hb
  refine ⟨h₁, h₂, e₁, e₂, hi₁.rep_update hr hf fun l' hl' => ?_, fun l' hl' => ?_⟩
  · by_cases h0 : lists .buffList = []
    · rw [h0, List.nil_append] at hr ⊢
      obtain ⟨-, -, hp, hn, -⟩ := Heap.rep_singleton.mp hr
      by_cases hmem : b ∈ lists l'
      · exact Or.inr ⟨b, (hi.apart hl' hmem l').resolve_left (not_not.mpr hmem), hp, hn⟩
      · refine Or.inl fun m hm hmb => hmem ?_
        rwa [List.mem_singleton.mp hmb] at hm
    · refine Or.inl fun m hm hmem => ?_
      obtain ⟨hno, hne⟩ := hother h0 l' hl' m hm
      rcases List.mem_append.mp hmem with hmem | hmem
      · exact hno hmem
      · exact hne (List.mem_singleton.mp hmem)
  · rw [Function.update_of_ne hl', Function.update_self]
    refine (hi.alone l' hl').imp_right fun ⟨c, hc, hall⟩ => ⟨c, hc, fun hmem => ?_⟩
    have hcl : c ∈ lists l' := by rw [hc]; exact List.mem_singleton_self c
    by_cases h0 : lists .buffList = []
    · rw [h0] at hmem ⊢
      rw [List.mem_singleton.mp hmem]
      rfl
    · obtain ⟨hno, hne⟩ := hother h0 l' hl' c hcl
      rcases List.mem_append.mp hmem with hmem | hmem
      · exact absurd hmem hno
      · exact absurd (List.mem_singleton.mp hmem) hne

/-! ## One call -/

theorem NetInv.freeDescBuff (hi : NetInv r lists) (hf : r.MayFree b) :
    ∃ net lists', r.net.freeDescBuff b = some net ∧ NetInv { r with net } lists' := by
  rw [NetRun.MayFree, hi.list_eq] at hf
  obtain ⟨hb, hmap⟩ := hf
  obtain ⟨as, bs, hlist⟩ := List.append_of_mem hb
  have hrep : r.net.buffs.heap.Rep .buffList (as ++ b :: bs) := hlist ▸ hi.rep .buffList
  have hmap' : (as ++ bs).length % 2 = 0 → b.page < vmShellBase := fun heven => hmap (by
    rw [hlist]
    simp only [List.length_append, List.length_cons] at heven ⊢
    omega)
  obtain ⟨heap, heq, hr, hframe, hremove⟩ := freeDescBuff_spec hrep hmap'
  refine ⟨_, _, by rw [NetState.freeDescBuff, heq]; rfl, hi.free hlist hr hframe hremove,
    fun i c hc => ?_⟩
  have hne : BuffList.waitList i ≠ .buffList := nofun
  rw [Function.update_of_ne hne]
  exact hi.waiting i c hc

theorem NetInv.linkDescBuff (hi : NetInv r lists) (hl : l ≠ .buffList)
    (hbuff : lists .buffList = [b]) (h0 : lists l = []) :
    ∃ net, Csos.linkDescBuff r.net l b = some net
      ∧ NetInv { r with net } (Function.update lists l [b]) := by
  obtain ⟨h', heq, hi'⟩ := hi.insert hl hbuff h0
  refine ⟨_, by rw [Csos.linkDescBuff, heq]; rfl, hi', fun i c hc => ?_⟩
  by_cases hw : .waitList i = l
  · have hmem := hi.waiting i c hc
    rw [hw, h0] at hmem
    cases hmem
  · rw [Function.update_of_ne hw]
    exact hi.waiting i c hc

theorem NetInv.dequeueDescBuff (hi : NetInv r lists) (hl : l ≠ .buffList)
    (hw : ∀ i, l ≠ .waitList i) :
    ∃ net buff lists', Csos.dequeueDescBuff r.net l = some (net, buff)
      ∧ NetInv { r with net } lists' := by
  have hempty := Heap.listIsEmpty_eq (hi.rep l)
  obtain h0 | ⟨b, hb, -⟩ := hi.alone l hl
  · rw [h0] at hempty
    exact ⟨r.net, none, lists, by simp [Csos.dequeueDescBuff, hempty], hi⟩
  · rw [hb] at hempty
    obtain ⟨h', heq, hi'⟩ := hi.removeFront hl hb
    refine ⟨_, some b, _, by simp [Csos.dequeueDescBuff, hempty, heq]; rfl, hi', fun i c hc => ?_⟩
    rw [Function.update_of_ne (hw i).symm]
    exact hi.waiting i c hc

/-- The walk over a wait list of at most one buffer. -/
theorem replyWalk_short {answers : BuffPtr → Bool} {first : Option BuffPtr}
    (hn : ∀ p, first = some p → h.next p = none) :
    replyWalk answers h walkFuel first = some (first.filter fun p => answers p) := by
  cases first with
  | none => rfl
  | some p =>
      have hfuel : walkFuel = 0xFFFFFFFF + 1 := rfl
      rw [hfuel, replyWalk, hn p rfl]
      by_cases ha : answers p = true <;> simp [ha, Option.filter, replyWalk]

theorem NetInv.replyWith (hi : NetInv r lists) (answers : BuffPtr → Bool) (i : Nat)
    (b : BuffPtr) :
    ∃ net pnode lists', Csos.replyWith answers r.net i b = some (net, pnode)
      ∧ NetInv ⟨net, Function.update r.waiting i ((r.waiting i).filter fun c => some c ≠ pnode)⟩
          lists' := by
  have hhead := (hi.rep (.waitList i)).head_eq
  have hne : BuffList.waitList i ≠ .buffList := nofun
  have hwait : ∀ (pnode : Option BuffPtr) j, ∀ d ∈ Function.update r.waiting i
      ((r.waiting i).filter fun c => some c ≠ pnode) j,
      d ∈ lists (.waitList j) ∧ (j = i → some d ≠ pnode) := by
    intro pnode j d hd
    by_cases hj : j = i
    · subst hj
      rw [Function.update_self] at hd
      obtain ⟨hd, hdne⟩ := List.mem_filter.mp hd
      exact ⟨hi.waiting j d hd, fun _ => of_decide_eq_true hdne⟩
    · rw [Function.update_of_ne hj] at hd
      exact ⟨hi.waiting j d hd, fun h => absurd h hj⟩
  obtain h0 | ⟨c, hc, -⟩ := hi.alone (.waitList i) hne
  · rw [h0] at hhead
    refine ⟨r.net, none, lists, ?_, hi.toListsInv, fun j d hd => (hwait none j d hd).1⟩
    simp [Csos.replyWith, listGetFirst, hhead, replyWalk]
  · rw [hc] at hhead
    obtain ⟨-, -, -, hnext, -⟩ := Heap.rep_singleton.mp (hc ▸ hi.rep (.waitList i))
    have hwalk := @replyWalk_short r.net.buffs.heap answers (some c) fun p hp => by
      rw [← Option.some.inj hp]
      exact hnext
    by_cases ha : answers c = true
    · obtain ⟨h', heq, hi'⟩ := hi.remove hne hc
      simp only [Option.filter, ha, if_true] at hwalk
      refine ⟨_, some c, _, by simp [Csos.replyWith, listGetFirst, hhead, hwalk, heq]; rfl, hi',
        fun j d hd => ?_⟩
      obtain ⟨hmem, hdc⟩ := hwait _ j d hd
      by_cases hj : j = i
      · subst hj
        rw [hc, List.mem_singleton] at hmem
        exact absurd (congrArg some hmem) (hdc rfl)
      · have hjne : BuffList.waitList j ≠ .waitList i := fun h => hj (BuffList.waitList.inj h)
        rw [Function.update_of_ne hjne]
        exact hmem
    · simp only [Option.filter, ha] at hwalk
      refine ⟨r.net, none, lists, ?_, hi.toListsInv, fun j d hd => (hwait none j d hd).1⟩
      simp [Csos.replyWith, listGetFirst, hhead, hwalk]

/-- `netif_output` links the buffer twice, on empty lists. -/
theorem NetInv.output {b : BuffPtr} (hi : NetInv r lists) (hf : r.Fits (.output b)) :
    ∃ r', r.step (.output b) = some r' ∧ ∃ lists', NetInv r' lists' := by
  rw [NetRun.Fits, NetRun.MayLink] at hf
  rw [NetRun.step, netifOutput]
  cases hm : r.net.findNetif (macAt (r.net.buffs.payload b) ethSrc) with
  | none =>
      rw [hm] at hf
      obtain ⟨net, lists', heq, hi'⟩ := hi.freeDescBuff hf
      exact ⟨_, by simp only [heq]; rfl, lists', hi'⟩
  | some i =>
      simp only [hm, hi.list_eq] at hf
      obtain ⟨hbuff, hempty⟩ := hf
      have htx := hempty (.txList i) (by simp)
      have hwait := hempty (.waitList i) (by simp)
      obtain ⟨net₁, e₁, hi₁⟩ := hi.linkDescBuff (l := .txList i) (by nofun) hbuff htx
      have hlist : ∀ l, l ≠ .txList i →
          Function.update lists (.txList i) [b] l = lists l :=
        fun l hl => Function.update_of_ne hl _ _
      obtain ⟨net₂, e₂, hi₂⟩ := hi₁.linkDescBuff (l := .waitList i) nofun
        ((hlist _ (by nofun)).trans hbuff) ((hlist _ (by nofun)).trans hwait)
      refine ⟨⟨net₂, Function.update r.waiting i (r.waiting i ++ [b])⟩,
        by simp only [e₁, e₂, Option.bind_eq_bind, Option.bind_some, Option.pure_def], _,
        hi₂.toListsInv, fun j c hc => ?_⟩
      by_cases hj : j = i
      · subst hj
        simp only [Function.update_self, List.mem_append] at hc ⊢
        rcases hc with hc | hc
        · have hmem := hi.waiting j c hc
          rw [hwait] at hmem
          cases hmem
        · exact hc
      · simp only [Function.update_of_ne hj] at hc
        exact hi₂.waiting j c hc

theorem NetInv.reply {i : Nat} {b : BuffPtr} {type : DescBuffType} (hi : NetInv r lists)
    (hf : r.Fits (.reply i b type)) :
    ∃ r', r.step (.reply i b type) = some r' ∧ ∃ lists', NetInv r' lists' := by
  cases type with
  | arp =>
      obtain ⟨net, pnode, lists', heq, hi'⟩ :=
        hi.replyWith (replies arpReplies r.net.buffs b) i b
      exact ⟨_, by simp only [NetRun.step, replyDescBuff, heq]; rfl, lists', hi'⟩
  | icmp =>
      obtain ⟨net, pnode, lists', heq, hi'⟩ :=
        hi.replyWith (replies icmpReplies r.net.buffs b) i b
      exact ⟨_, by simp only [NetRun.step, replyDescBuff, heq]; rfl, lists', hi'⟩
  | _ =>
      obtain ⟨net, lists', heq, hi'⟩ := hi.freeDescBuff (hf nofun nofun)
      refine ⟨_, by simp [NetRun.step, replyDescBuff, heq], lists', hi'.toListsInv,
        fun j c hc => hi'.waiting j c ?_⟩
      by_cases hj : j = i
      · subst hj
        simpa using hc
      · simpa [Function.update_of_ne hj] using hc

/-- A call that fits comes back, and keeps the lists well formed. -/
theorem NetInv.step {c : NetCall} (hi : NetInv r lists) (hf : r.Fits c) :
    ∃ r', r.step c = some r' ∧ ∃ lists', NetInv r' lists' := by
  have hne : ∀ i, BuffList.waitList i ≠ .buffList := by simp
  cases c with
  | alloc =>
      obtain ⟨buf, hnew, hnext, hother⟩ := hf
      rw [hi.list_eq] at hnew hother
      simp only [hi.list_eq] at hother
      obtain ⟨⟨s', a⟩, hs, ha⟩ := Option.map_eq_some_iff.mp hnext
      obtain rfl : a = buf.addr := ha
      obtain ⟨h₁, h₂, e₁, e₂, hi'⟩ := hi.alloc hnew hother
      rw [← nextDescBuff_heap hs] at e₁
      refine ⟨_, by simp [NetRun.step, allocDescBuff, hs, e₁, e₂]; rfl, _, hi', fun i c hc => ?_⟩
      rw [Function.update_of_ne (hne i)]
      exact hi.waiting i c hc
  | free b =>
      obtain ⟨net, lists', heq, hi'⟩ := hi.freeDescBuff hf
      exact ⟨_, by rw [NetRun.step, heq]; rfl, lists', hi'⟩
  | write b p => exact ⟨_, rfl, lists, hi.toListsInv, hi.waiting⟩
  | input b =>
      rw [NetRun.Fits, NetRun.MayLink] at hf
      rw [NetRun.step, netifInput]
      cases hm : r.net.findNetif (macAt (r.net.buffs.payload b) ethDst) with
      | none =>
          rw [hm] at hf
          obtain ⟨net, lists', heq, hi'⟩ := hi.freeDescBuff hf
          exact ⟨_, by simp only [heq]; rfl, lists', hi'⟩
      | some i =>
          simp only [hm, hi.list_eq] at hf
          obtain ⟨net, heq, hi'⟩ := hi.linkDescBuff (l := .rxList i) (by simp) hf.1
            (hf.2 _ (by simp))
          exact ⟨_, by simp only [heq]; rfl, _, hi'⟩
  | output b => exact hi.output hf
  | reply i b type => exact hi.reply hf
  | netin i =>
      obtain ⟨net, buff, lists', heq, hi'⟩ := hi.dequeueDescBuff (l := .rxList i) (by simp) (by simp)
      exact ⟨_, by simp only [NetRun.step, heq]; rfl, lists', hi'⟩
  | netout i =>
      obtain ⟨net, buff, lists', heq, hi'⟩ := hi.dequeueDescBuff (l := .txList i) (by simp) (by simp)
      exact ⟨_, by simp only [NetRun.step, heq]; rfl, lists', hi'⟩

/-! ## Every sequence of calls -/

/-- The queues of the interfaces after `netif_create`: all lists but
`buff_list` are empty. -/
def NetState.Created (s : NetState) : Prop := ∀ l ≠ .buffList, s.buffs.heap.Rep l []

theorem descBuffInit_netInv {s : NetState} (hs : s.Created) :
    ∃ buffs, descBuffInit s.buffs = some buffs
      ∧ NetInv ⟨{ s with buffs }, fun _ => []⟩ fun _ => [] := by
  obtain ⟨heap, heq, hheld, hf⟩ := Heap.listInit_spec s.buffs.heap .buffList
  refine ⟨_, by rw [descBuffInit, heq]; rfl, ⟨fun l => ?_, fun _ _ => Or.inl rfl⟩,
    fun i b hb => hb⟩
  by_cases hl : l = .buffList
  · rw [hl]
    exact hheld
  · exact (hs l hl).frame hf hl fun _ _ => List.not_mem_nil

/-- Every sequence of fitting calls comes back, with well-formed lists on
which every waiting buffer is still reachable. -/
theorem netQueues_law {s : NetState} {buffs : DescBuffs} {cs : List NetCall} (hs : s.Created)
    (hinit : descBuffInit s.buffs = some buffs)
    (hfits : Always NetRun.step NetRun.Fits ⟨{ s with buffs }, fun _ => []⟩ cs) :
    ∃ r, run NetRun.step ⟨{ s with buffs }, fun _ => []⟩ cs = some r ∧ NetLaw r := by
  obtain ⟨buffs', heq, hinv⟩ := descBuffInit_netInv hs
  obtain rfl := Option.some.inj (heq.symm.trans hinit)
  obtain ⟨r, hrun, lists, hr⟩ :=
    run_total_of_always (I := fun r => ∃ lists, NetInv r lists)
      (fun _ _ ⟨_, hi⟩ hf => hi.step hf) ⟨_, hinv⟩ hfits
  exact ⟨r, hrun, hr.law⟩

/-! ## Two runs -/

/-- One loopback interface and one card, and no buffer yet. -/
def idleNet : NetState where
  buffs := noBuffs
  netifs := fun i =>
    { mac := fun _ => BitVec.ofNat 8 i
      ipv4 := fun _ => 0
      mask := fun _ => 0
      gw := fun _ => 0
      dhcpIpv4 := fun _ => 0
      dhcpMask := fun _ => 0
      dhcpGw := fun _ => 0
      status := .down }
  netifCount := 2

theorem idleNet_created : idleNet.Created := fun _ _ => ⟨rfl, rfl, rfl, List.nodup_nil⟩

def idleRun : NetRun :=
  ⟨{ idleNet with buffs := (descBuffInit idleNet.buffs).get (by decide) }, fun _ => []⟩

instance (r : NetRun) (b : BuffPtr) : Decidable (r.MayFree b) :=
  inferInstanceAs (Decidable (_ ∧ (_ → _)))

instance (r : NetRun) (b : BuffPtr) (mac : MacAddr) (lists : Nat → List BuffList) :
    Decidable (r.MayLink b mac lists) := by
  unfold NetRun.MayLink
  split <;> infer_instance

instance (r : NetRun) (b : BuffPtr) : Decidable (r.Fits (.free b)) :=
  inferInstanceAs (Decidable (r.MayFree b))

instance (r : NetRun) (b : BuffPtr) : Decidable (r.Fits (.input b)) :=
  inferInstanceAs (Decidable (r.MayLink ..))

instance (r : NetRun) (b : BuffPtr) : Decidable (r.Fits (.output b)) :=
  inferInstanceAs (Decidable (r.MayLink ..))

/-- A frame that goes from the loopback interface to itself is sent, taken
off for sending, received, and answers itself. -/
theorem netQueues_law_one :
    ∃ r, run NetRun.step idleRun [.alloc, .output firstBuff, .netout 0, .input firstBuff,
        .netin 0, .reply 0 firstBuff .arp, .free firstBuff] = some r ∧ NetLaw r := by
  have hfits : Always NetRun.step NetRun.Fits idleRun [.alloc, .output firstBuff, .netout 0,
      .input firstBuff, .netin 0, .reply 0 firstBuff .arp, .free firstBuff] :=
    always_cons_get ⟨firstBuff, by decide, by decide, fun h => absurd rfl h⟩ (by decide +kernel) <|
    always_cons_get (by decide +kernel) (by decide +kernel) <|
    always_cons_get trivial (by decide +kernel) <|
    always_cons_get (by decide +kernel) (by decide +kernel) <|
    always_cons_get trivial (by decide +kernel) <|
    always_cons_get (fun h => absurd rfl h) (by decide +kernel) <|
    always_cons_get (by decide +kernel) (by decide +kernel) trivial
  exact netQueues_law (s := idleNet) idleNet_created (Option.some_get _).symm hfits

/-- Two buffers are live, and the first one is received. -/
def cutRun : NetRun :=
  (run NetRun.step idleRun [.alloc, .alloc, .input firstBuff]).get (by decide +kernel)

/-- Then `buff_list` counts two nodes and reaches one. -/
theorem netQueues_law_fails : ¬ ∀ (s : NetState) (buffs : DescBuffs) (cs : List NetCall),
    s.Created → descBuffInit s.buffs = some buffs →
    ∀ r, run NetRun.step ⟨{ s with buffs }, fun _ => []⟩ cs = some r → NetLaw r := by
  intro hall
  have hlaw := hall idleNet _ [.alloc, .alloc, .input firstBuff] idleNet_created
    (Option.some_get _).symm cutRun (Option.some_get _).symm
  obtain ⟨ns, hr⟩ := hlaw.lists .buffList
  have hlen : (cutRun.list .buffList).length = 1 := by decide +kernel
  have hsize : (cutRun.net.buffs.heap.size .buffList).toNat = 2 := by decide +kernel
  rw [NetRun.list, hr.contents_eq, ← hr.size, hsize] at hlen
  exact absurd hlen (by decide)

end Csos
