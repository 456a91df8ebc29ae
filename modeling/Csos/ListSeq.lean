import Csos.Lib.Run
import Csos.List

/-!
# The list refines a mathematical sequence

`Seqs` is what a heap of lists is for: a family of finite sequences,
one for each list that has been initialised. `ListOp.apply` is the
effect of each call on it, in terms of cons, append, insertion next to
a member, erasure and tail; `ListOp.Valid` is what the callers promise
(an inserted node is in no list, the node to remove or to insert next
to is a member).

`Heap.Holds h σ` connects the two levels: every list of `σ` is well
formed in `h` and holds its sequence, and no node is in two lists.
`ListOp.exec_spec` is the simulation of one call, `listOps_refine` the
one of any sequence of calls.
-/

namespace Csos

open Lib

variable {L N : Type} [DecidableEq L] [DecidableEq N]

/-! ## Sequences -/

/-- The sequences of the initialised lists. -/
abbrev Seqs (L N : Type) := L → Option (List N)

/-- `n` right behind `o`. -/
def insertAfter (o n : N) : List N → List N
  | [] => []
  | m :: ms => if m = o then m :: n :: ms else m :: insertAfter o n ms

/-- `n` right in front of `o`. -/
def insertBefore (o n : N) : List N → List N
  | [] => []
  | m :: ms => if m = o then n :: m :: ms else m :: insertBefore o n ms

theorem insertAfter_split {o n : N} {as bs : List N} (ho : o ∉ as) :
    insertAfter o n (as ++ o :: bs) = as ++ o :: n :: bs := by
  induction as with
  | nil => simp [insertAfter]
  | cons a as ih =>
      obtain ⟨hne, ho'⟩ : o ≠ a ∧ o ∉ as := by simpa using ho
      simp [insertAfter, Ne.symm hne, ih ho']

theorem insertBefore_split {o n : N} {as bs : List N} (ho : o ∉ as) :
    insertBefore o n (as ++ o :: bs) = as ++ n :: o :: bs := by
  induction as with
  | nil => simp [insertBefore]
  | cons a as ih =>
      obtain ⟨hne, ho'⟩ : o ≠ a ∧ o ∉ as := by simpa using ho
      simp [insertBefore, Ne.symm hne, ih ho']

/-- `n` is in no list. -/
def Seqs.Free (σ : Seqs L N) (n : N) : Prop := ∀ l ns, σ l = some ns → n ∉ ns

/-! ## Calls -/

/-- A call of one of the functions of `list.c` that change a list. -/
inductive ListOp (L N : Type) where
  | init (list : L)
  | insertFront (list : L) (node : N)
  | insertBack (list : L) (node : N)
  | insertNode (list : L) (nnode onode : N) (type : Int)
  | remove (list : L) (node : N)
  | removeFront (list : L)

namespace ListOp

/-- The list that a call works on. -/
def list : ListOp L N → L
  | init l | insertFront l _ | insertBack l _ | insertNode l _ _ _ | remove l _
  | removeFront l => l

/-- The call itself, with the pointer it returns (NULL for a `void` function). -/
def exec (h : Heap L N) : ListOp L N → Option (Heap L N × Option N)
  | init l => (listInit h l).map (·, none)
  | insertFront l n => (listInsertFront h l n).map (·, none)
  | insertBack l n => (listInsertBack h l n).map (·, none)
  | insertNode l n o type => (listInsertNode h (some l) (some n) (some o) type).map (·, none)
  | remove l n => (listRemove h l n).map fun r => (r.1, some r.2)
  | removeFront l => listRemoveFront h l

/-- What the callers promise. -/
def Valid (σ : Seqs L N) : ListOp L N → Prop
  | init _ => True
  | insertFront l n | insertBack l n => (∃ ns, σ l = some ns) ∧ σ.Free n
  | insertNode l n o type =>
      (∃ ns, σ l = some ns ∧ o ∈ ns) ∧ σ.Free n ∧ (type = 0 ∨ type = 1)
  | remove l n => ∃ ns, σ l = some ns ∧ n ∈ ns
  | removeFront l => ∃ ns, σ l = some ns

/-- The new sequence of the list, and the pointer that comes back. -/
def effect (ns : List N) : ListOp L N → List N × Option N
  | init _ => ([], none)
  | insertFront _ n => (n :: ns, none)
  | insertBack _ n => (ns ++ [n], none)
  | insertNode _ n o type =>
      (if type = 0 then insertAfter o n ns else insertBefore o n ns, none)
  | remove _ n => (ns.erase n, some n)
  | removeFront _ => (ns.tail, ns.head?)

/-- The effect of a call on the family of sequences. -/
def apply (σ : Seqs L N) (op : ListOp L N) : Seqs L N × Option N :=
  (Function.update σ op.list (some (effect ((σ op.list).getD []) op).1),
    (effect ((σ op.list).getD []) op).2)

end ListOp

/-! ## The two levels -/

/-- Every list of `σ` is well formed in `h` and holds its sequence; no
node is in two lists. -/
structure Heap.Holds (h : Heap L N) (σ : Seqs L N) : Prop where
  rep : ∀ l ns, σ l = some ns → h.Rep l ns
  disjoint : ∀ l l' ns ns', l ≠ l' → σ l = some ns → σ l' = some ns' →
    ∀ n ∈ ns, n ∉ ns'

omit [DecidableEq N] in
/-- A call that touches one list, and besides its nodes only free ones,
keeps all the others. -/
theorem Heap.Holds.update {h h' : Heap L N} {σ : Seqs L N} {l : L} {ns' touched : List N}
    (hh : h.Holds σ) (hrep : h'.Rep l ns') (hframe : Heap.Frame h h' l touched)
    (hsub : ∀ n ∈ ns', n ∈ touched)
    (htouched : ∀ n ∈ touched, (∃ ns, σ l = some ns ∧ n ∈ ns) ∨ σ.Free n) :
    h'.Holds (Function.update σ l (some ns')) := by
  -- what was touched lies in no other list
  have hother : ∀ l₁ ns₁, l₁ ≠ l → σ l₁ = some ns₁ → ∀ n ∈ ns₁, n ∉ touched := by
    intro l₁ ns₁ hl h₁ n hn ht
    rcases htouched n ht with ⟨ns, hσ, hmem⟩ | hfree
    · exact hh.disjoint l l₁ ns ns₁ hl.symm hσ h₁ n hmem hn
    · exact hfree l₁ ns₁ h₁ hn
  constructor
  · intro l₁ ns₁ h₁
    by_cases hl : l₁ = l
    · subst hl
      rw [Function.update_self] at h₁
      obtain rfl := Option.some.inj h₁
      exact hrep
    · rw [Function.update_of_ne hl] at h₁
      exact (hh.rep l₁ ns₁ h₁).frame hframe hl (hother l₁ ns₁ hl h₁)
  · intro l₁ l₂ ns₁ ns₂ hne h₁ h₂ n hn₁ hn₂
    by_cases hl₁ : l₁ = l
    · subst hl₁
      rw [Function.update_self] at h₁
      rw [Function.update_of_ne hne.symm] at h₂
      obtain rfl := Option.some.inj h₁
      exact hother l₂ ns₂ hne.symm h₂ n hn₂ (hsub n hn₁)
    · rw [Function.update_of_ne hl₁] at h₁
      by_cases hl₂ : l₂ = l
      · subst hl₂
        rw [Function.update_self] at h₂
        obtain rfl := Option.some.inj h₂
        exact hother l₁ ns₁ hl₁ h₁ n hn₁ (hsub n hn₂)
      · rw [Function.update_of_ne hl₂] at h₂
        exact hh.disjoint l₁ l₂ ns₁ ns₂ hne h₁ h₂ n hn₁ hn₂

omit [DecidableEq L] [DecidableEq N] in
/-- The list at `l`, with the nodes `ns`, is the same in both heaps. -/
structure Heap.Agrees (h h' : Heap L N) (l : L) (ns : List N) : Prop where
  head : h'.head l = h.head l
  tail : h'.tail l = h.tail l
  size : h'.size l = h.size l
  pre : ∀ n ∈ ns, h'.pre n = h.pre n
  next : ∀ n ∈ ns, h'.next n = h.next n

omit [DecidableEq L] [DecidableEq N] in
theorem Heap.Agrees.refl (h : Heap L N) (l : L) (ns : List N) : h.Agrees h l ns :=
  ⟨rfl, rfl, rfl, fun _ _ => rfl, fun _ _ => rfl⟩

omit [DecidableEq L] [DecidableEq N] in
theorem Heap.Agrees.trans {h h' h'' : Heap L N} {l : L} {ns : List N}
    (h₁ : h.Agrees h' l ns) (h₂ : h'.Agrees h'' l ns) : h.Agrees h'' l ns :=
  ⟨h₂.head.trans h₁.head, h₂.tail.trans h₁.tail, h₂.size.trans h₁.size,
    fun n hn => (h₂.pre n hn).trans (h₁.pre n hn),
    fun n hn => (h₂.next n hn).trans (h₁.next n hn)⟩

variable [HasAddr N]

/-- One call, on the list it is made for: the new sequence, and a frame
that covers only nodes of this list and the node that is inserted. -/
theorem ListOp.exec_rep {h : Heap L N} {σ : Seqs L N} {op : ListOp L N}
    (hh : h.Holds σ) (hv : op.Valid σ) :
    ∃ h' touched, op.exec h = some (h', (op.apply σ).2)
      ∧ h'.Rep op.list (effect ((σ op.list).getD []) op).1
      ∧ Heap.Frame h h' op.list touched
      ∧ (∀ n ∈ (effect ((σ op.list).getD []) op).1, n ∈ touched)
      ∧ ∀ n ∈ touched, (∃ ns, σ op.list = some ns ∧ n ∈ ns) ∨ σ.Free n := by
  cases op with
  | init l =>
      obtain ⟨h', he, hr, hf⟩ := Heap.listInit_spec h l
      exact ⟨h', [], by simp [exec, he, apply, effect], hr, hf, by simp [effect], by simp⟩
  | insertFront l n =>
      obtain ⟨⟨ns, hσ⟩, hfree⟩ := hv
      obtain ⟨h', he, hr, hf⟩ := Heap.listInsertFront_spec (hh.rep l ns hσ) (hfree l ns hσ)
      refine ⟨h', n :: ns, by simp [exec, he, apply, effect], ?_, hf, ?_, ?_⟩
      · simpa [ListOp.list, effect, hσ] using hr
      · simp [ListOp.list, effect, hσ]
      · simpa [ListOp.list, hσ, hfree] using fun m hm => Or.inl hm
  | insertBack l n =>
      obtain ⟨⟨ns, hσ⟩, hfree⟩ := hv
      obtain ⟨h', he, hr, hf⟩ := Heap.listInsertBack_spec (hh.rep l ns hσ) (hfree l ns hσ)
      refine ⟨h', ns ++ [n], by simp [exec, he, apply, effect], ?_, hf, ?_, ?_⟩
      · simpa [ListOp.list, effect, hσ] using hr
      · simp [ListOp.list, effect, hσ]
      · intro m hm
        rcases List.mem_append.mp hm with hm | hm
        · exact Or.inl ⟨ns, hσ, hm⟩
        · obtain rfl := List.mem_singleton.mp hm
          exact Or.inr hfree
  | insertNode l n o type =>
      obtain ⟨⟨ns, hσ, ho⟩, hfree, htype⟩ := hv
      obtain ⟨as, bs, rfl, hoA⟩ := List.eq_append_cons_of_mem ho
      have hn := hfree l _ hσ
      -- both insertions touch the nodes of the list and the new one
      have htouched : ∀ m ∈ n :: (as ++ o :: bs),
          (∃ ns, σ l = some ns ∧ m ∈ ns) ∨ σ.Free m := by
        intro m hm
        rcases List.mem_cons.mp hm with rfl | hm
        · exact Or.inr hfree
        · exact Or.inl ⟨_, hσ, hm⟩
      rcases htype with rfl | rfl
      · obtain ⟨h', he, hr, hf⟩ := Heap.listInsertNode_after_spec (hh.rep l _ hσ) hn
        refine ⟨h', as ++ o :: n :: bs, by simp [exec, he, apply, effect], ?_, hf, ?_, ?_⟩
        · simpa [ListOp.list, effect, hσ, insertAfter_split hoA] using hr
        · simp [ListOp.list, effect, hσ, insertAfter_split hoA]
        · exact fun m hm => htouched m (by simp at hm ⊢; tauto)
      · obtain ⟨h', he, hr, hf⟩ := Heap.listInsertNode_before_spec (hh.rep l _ hσ) hn
        refine ⟨h', as ++ n :: o :: bs, by simp [exec, he, apply, effect], ?_, hf, ?_, ?_⟩
        · simpa [ListOp.list, effect, hσ, insertBefore_split hoA] using hr
        · simp [ListOp.list, effect, hσ, insertBefore_split hoA]
        · exact fun m hm => htouched m (by simp at hm ⊢; tauto)
  | remove l n =>
      obtain ⟨ns, hσ, hn⟩ := hv
      obtain ⟨as, bs, rfl, hnA⟩ := List.eq_append_cons_of_mem hn
      obtain ⟨h', he, hr, hf⟩ := Heap.listRemove_spec (hh.rep l _ hσ)
      have herase : (as ++ n :: bs).erase n = as ++ bs := by
        rw [List.erase_append_right _ hnA, List.erase_cons_head]
      refine ⟨h', as ++ n :: bs, by simp [exec, he, apply, effect], ?_, hf, ?_, ?_⟩
      · simpa [ListOp.list, effect, hσ, herase] using hr
      · intro m hm
        simp only [ListOp.list, effect, hσ, Option.getD_some] at hm
        exact List.mem_of_mem_erase hm
      · exact fun m hm => Or.inl ⟨_, hσ, hm⟩
  | removeFront l =>
      obtain ⟨ns, hσ⟩ := hv
      obtain ⟨h', he, hr, hf⟩ := Heap.listRemoveFront_spec (hh.rep l _ hσ)
      refine ⟨h', ns, by simp [exec, he, apply, effect, ListOp.list, hσ], ?_, hf, ?_, ?_⟩
      · simpa [ListOp.list, effect, hσ] using hr
      · intro m hm
        simp only [ListOp.list, effect, hσ, Option.getD_some] at hm
        exact List.mem_of_mem_tail hm
      · exact fun m hm => Or.inl ⟨_, hσ, hm⟩

/-- The simulation of one call, together with the frame for every list
that the call is not made for. -/
theorem ListOp.exec_spec {h : Heap L N} {σ : Seqs L N} {op : ListOp L N}
    (hh : h.Holds σ) (hv : op.Valid σ) :
    ∃ h', op.exec h = some (h', (op.apply σ).2) ∧ h'.Holds (op.apply σ).1
      ∧ ∀ l ns, l ≠ op.list → σ l = some ns → h.Agrees h' l ns := by
  obtain ⟨h', touched, he, hr, hf, hsub, htouched⟩ := ListOp.exec_rep hh hv
  refine ⟨h', he, hh.update hr hf hsub htouched, fun l ns hl hσ => ?_⟩
  have hout : ∀ n ∈ ns, n ∉ touched := by
    intro n hn ht
    rcases htouched n ht with ⟨ms, hms, hmem⟩ | hfree
    · exact hh.disjoint l op.list ns ms hl hσ hms n hn hmem
    · exact hfree l ns hσ hn
  exact ⟨hf.head l hl, hf.tail l hl, hf.size l hl, fun n hn => hf.pre n (hout n hn),
    fun n hn => hf.next n (hout n hn)⟩

/-! ## Sequences of calls -/

/-- The list refines a sequence, over any number of calls and any number
of lists in one heap: the pointers that come back are those of the
specification, every list ends well formed with the sequence that the
specification gives it, and a list that no call is made for is, field
by field, what it was. -/
theorem listOps_refine {h : Heap L N} {σ : Seqs L N} {ops : List (ListOp L N)}
    (hh : h.Holds σ) (hv : Admitted (fun σ op => ListOp.Valid σ op) ListOp.apply σ ops) :
    ∃ h', Lib.exec (fun h op => ListOp.exec h op) h ops
        = some (h', (specRun ListOp.apply σ ops).2)
      ∧ h'.Holds (specRun ListOp.apply σ ops).1
      ∧ ∀ l ns, (∀ op ∈ ops, op.list ≠ l) → σ l = some ns →
          (specRun ListOp.apply σ ops).1 l = some ns ∧ h.Agrees h' l ns := by
  -- besides `Holds`, the relation remembers the lists that no call is made for
  let Idle : L → Prop := fun l => ∀ op ∈ ops, op.list ≠ l
  have hidle : ∀ op ∈ ops, ∀ l, Idle l → l ≠ op.list := fun op hop l hl => (hl op hop).symm
  have hv' := hv.and_of_forall hidle
  have hstep : ∀ (h₁ : Heap L N) (σ₁ : Seqs L N) (op : ListOp L N),
      (h₁.Holds σ₁ ∧ ∀ l ns, Idle l → σ l = some ns → σ₁ l = some ns ∧ h.Agrees h₁ l ns) →
      (op.Valid σ₁ ∧ ∀ l, Idle l → l ≠ op.list) →
      ∃ h₂, op.exec h₁ = some (h₂, (op.apply σ₁).2) ∧ h₂.Holds (op.apply σ₁).1
        ∧ ∀ l ns, Idle l → σ l = some ns →
          (op.apply σ₁).1 l = some ns ∧ h.Agrees h₂ l ns := by
    rintro h₁ σ₁ op ⟨hh₁, hsame⟩ ⟨hvalid, hidle⟩
    obtain ⟨h₂, he, hh₂, hag⟩ := ListOp.exec_spec hh₁ hvalid
    refine ⟨h₂, he, hh₂, fun l ns hl hσ => ?_⟩
    obtain ⟨hσ₁, hag₁⟩ := hsame l ns hl hσ
    refine ⟨?_, hag₁.trans (hag l ns (hidle l hl) hσ₁)⟩
    exact (Function.update_of_ne (hidle l hl) ..).trans hσ₁
  exact exec_refines hstep ⟨hh, fun l ns _ hσ => ⟨hσ, Heap.Agrees.refl h l ns⟩⟩ hv'

/-- Every non-NULL 32-bit address is the address of a node. -/
instance : HasAddr { a : UInt32 // a ≠ 0 } where
  addr a := a.1
  addr_injective := Subtype.val_injective
  addr_ne_zero a := a.2

/-- Two lists in one heap: the first one is filled from both ends and in
the middle, loses a member and its first node; the second is idle. -/
theorem listOps_refine_two_lists :
    let a : { a : UInt32 // a ≠ 0 } := ⟨0x1000, by decide⟩
    let b : { a : UInt32 // a ≠ 0 } := ⟨0x1008, by decide⟩
    let c : { a : UInt32 // a ≠ 0 } := ⟨0x1010, by decide⟩
    let d : { a : UInt32 // a ≠ 0 } := ⟨0x1018, by decide⟩
    let h : Heap Bool { a : UInt32 // a ≠ 0 } :=
      ⟨fun _ => none, fun _ => none, fun _ => none, fun _ => none, fun _ => 0⟩
    let ops : List (ListOp Bool { a : UInt32 // a ≠ 0 }) :=
      [.insertFront true a, .insertBack true b, .insertNode true c a 0,
        .insertNode true d a 1, .remove true c, .removeFront true]
    ∃ h', Lib.exec (fun h op => ListOp.exec h op) h ops
        = some (h', [none, none, none, none, some c, some d])
      ∧ h'.Rep true [a, b] ∧ h'.Rep false [] := by
  intro a b c d h ops
  have hh : h.Holds fun _ => some [] := by
    constructor
    · rintro l ns ⟨⟩
      exact ⟨rfl, rfl, rfl, List.nodup_nil⟩
    · rintro l l' ns ns' - ⟨⟩
      simp
  have hv : Admitted (fun σ op => ListOp.Valid σ op) ListOp.apply (fun _ => some []) ops := by
    simp [ops, a, b, c, d, Admitted, ListOp.Valid, ListOp.apply, ListOp.effect, ListOp.list,
      Seqs.Free, insertAfter, insertBefore, Function.update_apply]
  obtain ⟨h', he, hh', -⟩ := listOps_refine hh hv
  refine ⟨h', he, hh'.rep true _ ?_, hh'.rep false _ ?_⟩
  · rfl
  · rfl

end Csos
