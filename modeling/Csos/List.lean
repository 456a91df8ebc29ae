import Mathlib.Data.Fintype.Card
import Mathlib.Data.List.Nodup
import Csos.Lib.DSeg

/-!
# The intrusive doubly linked list (`lib/list.c`)

`list.c` is used over two memories: the kernel's own structures, where
every access goes through, and the heap of a user task, where a block
header sits at a virtual address that may not be mapped. The functions
are therefore written once, over the accessors of `ListMem`; an access
that faults, and a NULL pointer that is dereferenced, have no result.

`Heap` is the kernel's memory: nodes and lists at distinct addresses.
`Heap.Rep h l ns` says that the list at `l` is well formed and holds
the nodes `ns`; each operation has one lemma that says what it does to
`ns`, with a frame (`Heap.Frame`) for everything that it leaves alone.
-/

namespace Csos

open Lib

/-! ## The functions of `list.c` -/

/-- The fields of `list_node_t` and `list_t` that `list.c` reads and
writes, in a memory `M` with node addresses `N` and list addresses `L`.
NULL is `none`. -/
class ListMem (M : Type) (L N : outParam Type) where
  pre : M → N → Option (Option N)
  next : M → N → Option (Option N)
  head : M → L → Option (Option N)
  tail : M → L → Option (Option N)
  size : M → L → Option UInt32
  setPre : M → N → Option N → Option M
  setNext : M → N → Option N → Option M
  setHead : M → L → Option N → Option M
  setTail : M → L → Option N → Option M
  setSize : M → L → UInt32 → Option M

section Functions

open ListMem

variable {M L N : Type} [ListMem M L N]

def listInit (m : M) (list : L) : Option M := do
  let m ← setTail m list none
  let m ← setHead m list none
  setSize m list 0

def listNodeInit (m : M) (node : N) : Option M := do
  let m ← setNext m node none
  setPre m node none

def listIsEmpty (m : M) (list : L) : Option Bool := do
  return (← size m list) == 0

/-- `type = 0` inserts `nnode` after `onode`, `type = 1` before it. -/
def listInsertNode (m : M) (list : Option L) (nnode onode : Option N)
    (type : Int) : Option M :=
  match list, nnode, onode with
  | some list, some nnode, some onode =>
      if type = 0 then do
        let m ← match ← next m onode with
          | none => setTail m list (some nnode)
          | some tmp => setPre m tmp (some nnode)
        let tmp ← next m onode
        let m ← setNext m onode (some nnode)
        let m ← setNext m nnode tmp
        let m ← setPre m nnode (some onode)
        setSize m list ((← size m list) + 1)
      else if type = 1 then do
        let m ← match ← pre m onode with
          | none => setHead m list (some nnode)
          | some tmp => setNext m tmp (some nnode)
        let tmp ← pre m onode
        let m ← setPre m onode (some nnode)
        let m ← setPre m nnode tmp
        let m ← setNext m nnode (some onode)
        setSize m list ((← size m list) + 1)
      else some m
  | _, _, _ => some m

def listInsertFront (m : M) (list : L) (node : N) : Option M := do
  let m ← setNext m node (← head m list)
  let m ← setPre m node none
  let m ← if ← listIsEmpty m list then do
      let m ← setHead m list (some node)
      setTail m list (some node)
    else do
      let first ← ← head m list
      let m ← setPre m first (some node)
      setHead m list (some node)
  setSize m list ((← size m list) + 1)

def listInsertBack (m : M) (list : L) (node : N) : Option M := do
  let m ← setPre m node (← tail m list)
  let m ← setNext m node none
  let m ← if ← listIsEmpty m list then do
      let m ← setTail m list (some node)
      setHead m list (some node)
    else do
      let last ← ← tail m list
      let m ← setNext m last (some node)
      setTail m list (some node)
  setSize m list ((← size m list) + 1)

def listRemove [DecidableEq N] (m : M) (list : L) (node : N) : Option (M × N) := do
  let m ← if (← head m list) = some node then
      setHead m list (← next m node) else some m
  let m ← if (← tail m list) = some node then
      setTail m list (← pre m node) else some m
  let m ← match ← pre m node with
    | some p => do setNext m p (← next m node)
    | none => some m
  let m ← match ← next m node with
    | some n => do setPre m n (← pre m node)
    | none => some m
  let m ← setNext m node none
  let m ← setPre m node none
  let m ← setSize m list ((← size m list) - 1)
  return (m, node)

def listRemoveFront (m : M) (list : L) : Option (M × Option N) := do
  if ← listIsEmpty m list then
    return (m, none)
  let node ← ← head m list
  let m ← setHead m list (← next m node)
  let m ← match ← head m list with
    | none => setTail m list none
    | some _ => do
        let second ← ← next m node
        setPre m second none
  let m ← setNext m node none
  let m ← setPre m node none
  let m ← setSize m list ((← size m list) - 1)
  return (m, some node)

def listGetFirst (m : M) (list : L) : Option (Option N) := head m list

def listGetLast (m : M) (list : L) : Option (Option N) := tail m list

def listGetPre (m : M) (node : N) : Option (Option N) := pre m node

def listGetNext (m : M) (node : N) : Option (Option N) := next m node

end Functions

/-! ## The kernel's memory -/

/-- A type of non-NULL 32-bit addresses of `list_node_t` objects:
different nodes are at different addresses. -/
class HasAddr (N : Type) where
  addr : N → UInt32
  addr_injective : Function.Injective addr
  addr_ne_zero : ∀ n, addr n ≠ 0

/-- A list never has so many nodes that its 32-bit `size` wraps. -/
theorem HasAddr.length_lt {N : Type} [HasAddr N] {ns : List N}
    (h : ns.Nodup) : ns.length < 2 ^ 32 := by
  have hmap : (ns.map HasAddr.addr).Nodup := h.map HasAddr.addr_injective
  have hnd : ((0 :: ns.map HasAddr.addr).map UInt32.toFin).Nodup := by
    refine List.Nodup.map (fun a b hab => UInt32.toFin_inj.mp hab) ?_
    rw [List.nodup_cons]
    refine ⟨fun hmem => ?_, hmap⟩
    obtain ⟨n, -, hn⟩ := List.mem_map.mp hmem
    exact HasAddr.addr_ne_zero n hn
  have hle := hnd.length_le_card
  rw [Fintype.card_fin] at hle
  simp only [List.length_map, List.length_cons] at hle
  exact hle

/-- The list nodes and list heads of the kernel, one function a field. -/
structure Heap (L N : Type) where
  pre : N → Option N
  next : N → Option N
  head : L → Option N
  tail : L → Option N
  size : L → UInt32

namespace Heap

variable {L N : Type} {h h' : Heap L N} {l l' : L} {ns ns' : List N} {n : N}

/-! ## Well-formed lists -/

/-- The list at `l` is well formed and its nodes are `ns`: following
`next` from `head` and `pre` from `tail` visits the same nodes in
opposite order, both walks end in NULL, and `size` counts them. -/
structure Rep (h : Heap L N) (l : L) (ns : List N) : Prop where
  forward : Path h.next (h.head l) ns
  backward : Path h.pre (h.tail l) ns.reverse
  size : (h.size l).toNat = ns.length
  nodup : ns.Nodup

/-- `Rep` in terms of one doubly linked segment, the form in which the
operations are verified. -/
theorem rep_iff_dseg :
    h.Rep l ns ↔ h.head l = ns.head? ∧ h.tail l = ns.getLast?
      ∧ DSeg h.pre h.next none ns none
      ∧ (h.size l).toNat = ns.length ∧ ns.Nodup := by
  constructor
  · rintro ⟨hf, hb, hs, hd⟩
    obtain ⟨hh, ht, hseg⟩ := dseg_iff_paths.mpr ⟨hf, hb⟩
    exact ⟨hh, ht, hseg, hs, hd⟩
  · rintro ⟨hh, ht, hseg, hs, hd⟩
    obtain ⟨hf, hb⟩ := dseg_iff_paths.mp ⟨hh, ht, hseg⟩
    exact ⟨hf, hb, hs, hd⟩

theorem Rep.size_eq_zero (hr : h.Rep l ns) : h.size l = 0 ↔ ns = [] := by
  rw [← List.length_eq_zero_iff, ← hr.size]
  exact ⟨fun h0 => by rw [h0]; rfl, fun h0 => UInt32.toNat_inj.mp h0⟩

theorem Rep.head_eq (hr : h.Rep l ns) : h.head l = ns.head? := (rep_iff_dseg.mp hr).1

theorem Rep.tail_eq (hr : h.Rep l ns) : h.tail l = ns.getLast? := (rep_iff_dseg.mp hr).2.1

/-- The node in front of a member. -/
theorem Rep.pre_eq {as bs : List N} (hr : h.Rep l (as ++ n :: bs)) : h.pre n = as.getLast? := by
  simpa using (dseg_iff_forall.mp (rep_iff_dseg.mp hr).2.2.1 as n bs rfl).1

/-- The node behind a member. -/
theorem Rep.next_eq {as bs : List N} (hr : h.Rep l (as ++ n :: bs)) : h.next n = bs.head? :=
  hr.forward.split

/-- A well-formed list holds one sequence only. -/
theorem Rep.unique (hr : h.Rep l ns) (hr' : h.Rep l ns') : ns = ns' :=
  hr.forward.unique hr'.forward

/-! ## Frames -/

/-- `h'` differs from `h` only in the list at `l` and in the nodes `ns`. -/
structure Frame (h h' : Heap L N) (l : L) (ns : List N) : Prop where
  head : ∀ l' ≠ l, h'.head l' = h.head l'
  tail : ∀ l' ≠ l, h'.tail l' = h.tail l'
  size : ∀ l' ≠ l, h'.size l' = h.size l'
  pre : ∀ n ∉ ns, h'.pre n = h.pre n
  next : ∀ n ∉ ns, h'.next n = h.next n

theorem Frame.refl (h : Heap L N) (l : L) (ns : List N) : Frame h h l ns :=
  ⟨fun _ _ => rfl, fun _ _ => rfl, fun _ _ => rfl, fun _ _ => rfl, fun _ _ => rfl⟩

/-- A list whose words are the same is still there. -/
theorem Rep.congr (hr : h.Rep l ns) (hhead : h'.head l = h.head l) (htail : h'.tail l = h.tail l)
    (hsize : h'.size l = h.size l) (hpre : ∀ n ∈ ns, h'.pre n = h.pre n)
    (hnext : ∀ n ∈ ns, h'.next n = h.next n) : h'.Rep l ns := by
  rw [rep_iff_dseg] at hr ⊢
  obtain ⟨hh, ht, hseg, hs, hd⟩ := hr
  exact ⟨hhead.trans hh, htail.trans ht, hseg.congr hpre hnext, by rw [hsize, hs], hd⟩

/-- A list that shares neither its head nor a node with what was
changed is still there. -/
theorem Rep.frame (hr : h.Rep l' ns') (hf : Frame h h' l ns)
    (hl : l' ≠ l) (hdisj : ∀ m ∈ ns', m ∉ ns) : h'.Rep l' ns' :=
  hr.congr (hf.head l' hl) (hf.tail l' hl) (hf.size l' hl) (fun m hm => hf.pre m (hdisj m hm))
    fun m hm => hf.next m (hdisj m hm)

/-! ## The kernel's memory as an instance -/

variable [DecidableEq L] [DecidableEq N]

instance : ListMem (Heap L N) L N where
  pre h n := some (h.pre n)
  next h n := some (h.next n)
  head h l := some (h.head l)
  tail h l := some (h.tail l)
  size h l := some (h.size l)
  setPre h n v := some { h with pre := Function.update h.pre n v }
  setNext h n v := some { h with next := Function.update h.next n v }
  setHead h l v := some { h with head := Function.update h.head l v }
  setTail h l v := some { h with tail := Function.update h.tail l v }
  setSize h l v := some { h with size := Function.update h.size l v }

@[simp] theorem mem_pre (h : Heap L N) (n : N) : ListMem.pre h n = some (h.pre n) := rfl

@[simp] theorem mem_next (h : Heap L N) (n : N) : ListMem.next h n = some (h.next n) := rfl

@[simp] theorem mem_head (h : Heap L N) (l : L) : ListMem.head h l = some (h.head l) := rfl

@[simp] theorem mem_tail (h : Heap L N) (l : L) : ListMem.tail h l = some (h.tail l) := rfl

@[simp] theorem mem_size (h : Heap L N) (l : L) : ListMem.size h l = some (h.size l) := rfl

@[simp] theorem mem_setPre (h : Heap L N) (n : N) (v : Option N) :
    ListMem.setPre h n v = some { h with pre := Function.update h.pre n v } := rfl

@[simp] theorem mem_setNext (h : Heap L N) (n : N) (v : Option N) :
    ListMem.setNext h n v = some { h with next := Function.update h.next n v } := rfl

@[simp] theorem mem_setHead (h : Heap L N) (l : L) (v : Option N) :
    ListMem.setHead h l v = some { h with head := Function.update h.head l v } := rfl

@[simp] theorem mem_setTail (h : Heap L N) (l : L) (v : Option N) :
    ListMem.setTail h l v = some { h with tail := Function.update h.tail l v } := rfl

@[simp] theorem mem_setSize (h : Heap L N) (l : L) (v : UInt32) :
    ListMem.setSize h l v = some { h with size := Function.update h.size l v } := rfl

/-! ## One lemma for each operation -/

theorem listInit_spec (h : Heap L N) (l : L) :
    ∃ h', listInit h l = some h' ∧ h'.Rep l [] ∧ Frame h h' l [] := by
  refine ⟨_, rfl, ?_, ?_⟩
  · rw [rep_iff_dseg]
    simp
  · constructor <;> intros <;> simp_all

theorem listNodeInit_spec (h : Heap L N) (n : N) :
    ∃ h', listNodeInit h n = some h' ∧ h'.pre n = none ∧ h'.next n = none
      ∧ ∀ l ns, h.Rep l ns → n ∉ ns → h'.Rep l ns := by
  refine ⟨_, rfl, ?_, ?_, fun l ns hr hn => ?_⟩
  · exact Function.update_self ..
  · exact Function.update_self ..
  · refine hr.congr rfl rfl rfl (fun m hm => ?_) fun m hm => ?_
    · exact Function.update_of_ne (ne_of_mem_of_not_mem hm hn) ..
    · exact Function.update_of_ne (ne_of_mem_of_not_mem hm hn) ..

theorem listIsEmpty_eq (hr : h.Rep l ns) : listIsEmpty h l = some ns.isEmpty := by
  have h0 := hr.size_eq_zero
  cases ns <;> simp_all [listIsEmpty]

section Sizes

variable [HasAddr N]

omit [DecidableEq N] in
/-- One more node never wraps the 32-bit counter. -/
theorem size_succ {s : UInt32} (hs : s.toNat = ns.length) (hd : ns'.Nodup)
    (hl : ns'.length = ns.length + 1) : (s + 1).toNat = ns'.length := by
  have := HasAddr.length_lt hd
  rw [UInt32.toNat_add, hs, hl]
  simp
  omega

theorem listInsertFront_spec (hr : h.Rep l ns) (hn : n ∉ ns) :
    ∃ h', listInsertFront h l n = some h' ∧ h'.Rep l (n :: ns)
      ∧ Frame h h' l (n :: ns) := by
  have hd : (n :: ns).Nodup := List.nodup_cons.mpr ⟨hn, hr.nodup⟩
  have h0 := hr.size_eq_zero
  have hs' : (h.size l + 1).toNat = (n :: ns).length := size_succ hr.size hd rfl
  obtain ⟨hh, ht, hseg, -, -⟩ := rep_iff_dseg.mp hr
  cases ns with
  | nil =>
      refine ⟨_, by simp [listInsertFront, listIsEmpty, h0]; rfl, ?_, ?_⟩
      · rw [rep_iff_dseg]
        simpa [hh] using hs'
      · constructor <;> intros <;> simp_all
  | cons m ns =>
      have hm : m ∉ ns := (List.nodup_cons.mp hr.nodup).1
      refine ⟨_, by simp [listInsertFront, listIsEmpty, h0, hh]; rfl, ?_, ?_⟩
      · rw [rep_iff_dseg]
        refine ⟨by simp, by simpa using ht, ?_, by simpa using hs', hd⟩
        have hnm : n ≠ m := fun he => hn (by simp [he])
        refine ⟨by simp [hnm], by simp, ?_⟩
        exact ((hseg.update_pre_of_notMem hn).update_next_of_notMem hn).update_pre_head hm
      · constructor <;> intros <;> simp_all

theorem listInsertBack_spec (hr : h.Rep l ns) (hn : n ∉ ns) :
    ∃ h', listInsertBack h l n = some h' ∧ h'.Rep l (ns ++ [n])
      ∧ Frame h h' l (ns ++ [n]) := by
  have hd : (ns ++ [n]).Nodup := by
    rw [List.nodup_append]
    simpa [hr.nodup] using fun m hm => ne_of_mem_of_not_mem hm hn
  have h0 := hr.size_eq_zero
  have hs' : (h.size l + 1).toNat = (ns ++ [n]).length := size_succ hr.size hd (by simp)
  obtain ⟨hh, ht, hseg, -, -⟩ := rep_iff_dseg.mp hr
  rcases ns.eq_nil_or_concat with rfl | ⟨ms, m, rfl⟩
  · refine ⟨_, by simp [listInsertBack, listIsEmpty, h0]; rfl, ?_, ?_⟩
    · rw [rep_iff_dseg]
      simpa [ht] using hs'
    · constructor <;> intros <;> simp_all
  · simp only [List.concat_eq_append] at *
    have hm : m ∉ ms := fun hm => by
      have := hr.nodup
      simp only [List.nodup_append] at this
      exact this.2.2 m hm m (by simp) rfl
    refine ⟨_, by simp [listInsertBack, listIsEmpty, h0, ht]; rfl, ?_, ?_⟩
    · rw [rep_iff_dseg]
      refine ⟨by simpa using hh, by simp, ?_, by simpa using hs', hd⟩
      have hnm : n ≠ m := fun he => hn (by simp [he])
      rw [dseg_append, dseg_singleton]
      refine ⟨?_, by simp, by simp [hnm]⟩
      exact ((hseg.update_pre_of_notMem hn).update_next_of_notMem hn).update_next_last hm
    · constructor <;> intros <;> simp_all

theorem listInsertNode_after_spec {o : N} {as bs : List N}
    (hr : h.Rep l (as ++ o :: bs)) (hn : n ∉ as ++ o :: bs) :
    ∃ h', listInsertNode h (some l) (some n) (some o) 0 = some h'
      ∧ h'.Rep l (as ++ o :: n :: bs) ∧ Frame h h' l (as ++ o :: n :: bs) := by
  have hd : (as ++ o :: n :: bs).Nodup := by
    have hmid := @List.nodup_middle _ n (as ++ [o]) bs
    simp only [List.append_assoc, List.singleton_append] at hmid
    exact hmid.mpr (List.nodup_cons.mpr ⟨hn, hr.nodup⟩)
  have hs' : (h.size l + 1).toNat = (as ++ o :: n :: bs).length :=
    size_succ hr.size hd (by simp; omega)
  obtain ⟨hnA, hno, hnB⟩ : n ∉ as ∧ n ≠ o ∧ n ∉ bs := by simpa using hn
  obtain ⟨hoA, hoB⟩ : o ∉ as ∧ o ∉ bs := by
    simpa using (List.nodup_cons.mp (List.nodup_middle.mp hr.nodup)).1
  obtain ⟨hh, ht, hseg, -, -⟩ := rep_iff_dseg.mp hr
  have hnext := hr.next_eq
  rw [dseg_append, dseg_cons] at hseg
  obtain ⟨hsegA, hpo, -, hsegB⟩ := hseg
  cases bs with
  | nil =>
      refine ⟨_, by simp [listInsertNode, hnext]; rfl, ?_, ?_⟩
      · rw [rep_iff_dseg, dseg_append, dseg_cons, dseg_cons]
        refine ⟨by simpa using hh, by simp, ⟨?_, ?_⟩, by simpa using hs', hd⟩
        · exact ((hsegA.update_next_of_notMem hoA).update_next_of_notMem hnA)
            |>.update_pre_of_notMem hnA
        · simp [hno.symm, hpo]
      · constructor <;> intros <;> simp_all
  | cons b bs =>
      have hbB : b ∉ bs := by grind
      obtain ⟨hbA, hbo⟩ : b ∉ as ∧ b ≠ o := by grind
      refine ⟨_, by simp [listInsertNode, hnext]; rfl, ?_, ?_⟩
      · rw [rep_iff_dseg, dseg_append, dseg_cons, dseg_cons]
        refine ⟨by simpa using hh, by simpa using ht, ⟨?_, ?_, ?_, ?_, ?_, ?_⟩,
          by simpa using hs', hd⟩
        · exact ((hsegA.update_next_of_notMem hoA).update_next_of_notMem hnA)
            |>.update_pre_of_notMem hbA |>.update_pre_of_notMem hnA
        · simp [hno.symm, hbo.symm, hpo]
        · simp [hno.symm]
        · simp
        · simp
        · exact ((hsegB.update_pre_head hbB).update_next_of_notMem hoB)
            |>.update_next_of_notMem hnB |>.update_pre_of_notMem hnB
      · constructor <;> intros <;> simp_all

theorem listInsertNode_before_spec {o : N} {as bs : List N}
    (hr : h.Rep l (as ++ o :: bs)) (hn : n ∉ as ++ o :: bs) :
    ∃ h', listInsertNode h (some l) (some n) (some o) 1 = some h'
      ∧ h'.Rep l (as ++ n :: o :: bs) ∧ Frame h h' l (as ++ n :: o :: bs) := by
  have hd : (as ++ n :: o :: bs).Nodup :=
    List.nodup_middle.mpr (List.nodup_cons.mpr ⟨hn, hr.nodup⟩)
  have hs' : (h.size l + 1).toNat = (as ++ n :: o :: bs).length :=
    size_succ hr.size hd (by simp; omega)
  obtain ⟨hnA, hno, hnB⟩ : n ∉ as ∧ n ≠ o ∧ n ∉ bs := by simpa using hn
  obtain ⟨hoA, hoB⟩ : o ∉ as ∧ o ∉ bs := by
    simpa using (List.nodup_cons.mp (List.nodup_middle.mp hr.nodup)).1
  obtain ⟨hh, ht, hseg, -, -⟩ := rep_iff_dseg.mp hr
  have hpre := hr.pre_eq
  rw [dseg_append, dseg_cons] at hseg
  obtain ⟨hsegA, -, hno', hsegB⟩ := hseg
  rcases as.eq_nil_or_concat with rfl | ⟨as, a, rfl⟩
  · refine ⟨_, by simp [listInsertNode, hpre]; rfl, ?_, ?_⟩
    · rw [rep_iff_dseg, List.nil_append, dseg_cons, dseg_cons]
      refine ⟨by simp, by simpa using ht, ⟨?_, ?_, ?_, ?_, ?_⟩, by simpa using hs', hd⟩
      · simp
      · simp
      · simp [hno.symm]
      · simp [hno.symm, hno']
      · exact ((hsegB.update_pre_of_notMem hoB).update_pre_of_notMem hnB)
          |>.update_next_of_notMem hnB
    · constructor <;> intros <;> simp_all
  · simp only [List.concat_eq_append, List.append_assoc, List.singleton_append] at *
    have haA : a ∉ as := by grind
    obtain ⟨hao, haB⟩ : a ≠ o ∧ a ∉ bs := by grind
    refine ⟨_, by simp [listInsertNode, hpre]; rfl, ?_, ?_⟩
    · rw [rep_iff_dseg]
      refine ⟨by simpa using hh, by simpa using ht, ?_, by simpa using hs', hd⟩
      have hsplit : as ++ a :: n :: o :: bs = (as ++ [a]) ++ n :: o :: bs := by simp
      rw [hsplit, dseg_append, dseg_cons, dseg_cons]
      refine ⟨?_, ?_, ?_, ?_, ?_, ?_⟩
      · exact ((hsegA.update_next_last haA).update_pre_of_notMem (by simp [hoA]))
          |>.update_pre_of_notMem hnA |>.update_next_of_notMem hnA
      · simp
      · simp
      · simp [hno.symm]
      · simp [hno.symm, hao.symm, hno']
      · exact ((hsegB.update_pre_of_notMem hoB).update_pre_of_notMem hnB)
          |>.update_next_of_notMem haB |>.update_next_of_notMem hnB
    · constructor <;> intros <;> simp_all

end Sizes

omit [DecidableEq L] [DecidableEq N] in
theorem size_pred {s : UInt32} (hs : s.toNat = ns.length)
    (hl : ns.length = ns'.length + 1) : (s - 1).toNat = ns'.length := by
  have h1 : (1 : UInt32) ≤ s := by
    rw [UInt32.le_iff_toNat_le, hs, hl]
    exact Nat.le_add_left ..
  rw [UInt32.toNat_sub_of_le _ _ h1, hs, hl]
  rfl

theorem listRemove_spec {as bs : List N} (hr : h.Rep l (as ++ n :: bs)) :
    ∃ h', listRemove h l n = some (h', n) ∧ h'.Rep l (as ++ bs)
      ∧ Frame h h' l (as ++ n :: bs) := by
  obtain ⟨hnd, hd⟩ := List.nodup_cons.mp (List.nodup_middle.mp hr.nodup)
  have hs' : (h.size l - 1).toNat = (as ++ bs).length :=
    size_pred hr.size (by simp; omega)
  obtain ⟨hnA, hnB⟩ : n ∉ as ∧ n ∉ bs := by simpa using hnd
  obtain ⟨hh, ht, hseg, -, -⟩ := rep_iff_dseg.mp hr
  have hpn := dseg_iff_forall.mp hseg as n bs rfl
  rw [dseg_append, dseg_cons] at hseg
  obtain ⟨hsegA, -, -, hsegB⟩ := hseg
  rcases as.eq_nil_or_concat with rfl | ⟨as, a, rfl⟩
  · cases bs with
    | nil =>
        refine ⟨_, by simp [listRemove, hh, ht, hpn]; rfl, ?_, ?_⟩
        · rw [rep_iff_dseg]
          simpa using hs'
        · constructor <;> intros <;> simp_all
    | cons b bs =>
        obtain ⟨hnb, hnB'⟩ : n ≠ b ∧ n ∉ bs := by simpa using hnB
        have hbB : b ∉ bs := (List.nodup_cons.mp hd).1
        have hlast : (b :: bs).getLast? ≠ some n := fun e => hnB (List.mem_of_getLast? e)
        refine ⟨_, by simp [listRemove, hh, ht, hpn, hlast]; rfl, ?_, ?_⟩
        · rw [rep_iff_dseg]
          refine ⟨by simp, by simpa using ht, ?_, by simpa using hs', hd⟩
          exact (hsegB.update_pre_head hbB).update_pre_of_notMem hnB
            |>.update_next_of_notMem hnB
        · constructor <;> intros <;> simp_all
  · simp only [List.concat_eq_append, List.append_assoc, List.singleton_append] at *
    have hna : n ≠ a := fun e => hnA (by simp [e])
    have haA : a ∉ as := by grind
    have hfirst : as.head?.getD a ≠ n := by
      rintro rfl
      cases as <;> simp at hnA
    cases bs with
    | nil =>
        refine ⟨_, by simp [listRemove, hh, ht, hpn, hfirst, hna]; rfl, ?_, ?_⟩
        · rw [rep_iff_dseg]
          refine ⟨by simpa using hh, by simp, ?_, by simpa using hs', hd⟩
          simpa using ((hsegA.update_next_last haA).update_next_of_notMem hnA)
            |>.update_pre_of_notMem hnA
        · constructor <;> intros <;> simp_all
    | cons b bs =>
        have hlast : (b :: bs).getLast? ≠ some n := fun e => hnB (List.mem_of_getLast? e)
        have hnb : n ≠ b := fun e => hnB (by simp [e])
        have hbA : b ∉ as ++ [a] := by grind
        have hbB : b ∉ bs := by grind
        have haB : a ∉ b :: bs := by grind
        refine ⟨_, by simp [listRemove, hh, ht, hpn, hfirst, hna, hlast]; rfl, ?_, ?_⟩
        · rw [rep_iff_dseg]
          refine ⟨by simpa using hh, by simpa using ht, ?_, by simpa using hs', hd⟩
          rw [List.append_cons, dseg_append]
          refine ⟨?_, ?_⟩
          · exact ((hsegA.update_next_last haA).update_next_of_notMem hnA)
              |>.update_pre_of_notMem hbA |>.update_pre_of_notMem hnA
          · simpa using ((hsegB.update_pre_head hbB).update_pre_of_notMem hnB)
              |>.update_next_of_notMem haB |>.update_next_of_notMem hnB
        · constructor <;> intros <;> simp_all

/-- On the empty list nothing happens and NULL comes back; otherwise the
first node is unlinked and returned. -/
theorem listRemoveFront_spec (hr : h.Rep l ns) :
    ∃ h', listRemoveFront h l = some (h', ns.head?) ∧ h'.Rep l ns.tail
      ∧ Frame h h' l ns := by
  have h0 := hr.size_eq_zero
  obtain ⟨hh, ht, hseg, -, hd⟩ := rep_iff_dseg.mp hr
  cases ns with
  | nil =>
      refine ⟨h, by simp [listRemoveFront, listIsEmpty, h0], hr, Frame.refl ..⟩
  | cons n bs =>
      obtain ⟨hnB, hdB⟩ := List.nodup_cons.mp hd
      have hs' : (h.size l - 1).toNat = bs.length := size_pred hr.size rfl
      obtain ⟨-, hnext, hsegB⟩ := hseg
      cases bs with
      | nil =>
          refine ⟨_, by simp [listRemoveFront, listIsEmpty, h0, hh, hnext]; rfl, ?_, ?_⟩
          · rw [rep_iff_dseg]
            simpa using hs'
          · constructor <;> intros <;> simp_all
      | cons b bs =>
          have hbB : b ∉ bs := (List.nodup_cons.mp hdB).1
          refine ⟨_, by simp [listRemoveFront, listIsEmpty, h0, hh, hnext]; rfl, ?_, ?_⟩
          · rw [rep_iff_dseg]
            refine ⟨by simp, by simpa using ht, ?_, by simpa using hs', hdB⟩
            exact (hsegB.update_pre_head hbB).update_pre_of_notMem hnB
              |>.update_next_of_notMem hnB
          · constructor <;> intros <;> simp_all

end Heap

end Csos
