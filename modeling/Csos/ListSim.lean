import Csos.List

/-!
# `list.c` over two memories

The functions of `list.c` are generic in the memory that they work on,
so a relation that the accessors of two memories respect is respected
by the functions. This carries the lemmas about the kernel's `Heap`
over to a list in another memory. `VN` are the nodes that may be
linked; `VG` are those of them whose links may be followed, because
they lead to such nodes again.
-/

namespace Csos

open Lib ListMem

/-- The accessors of two memories respect `R`, for the list `l`. -/
structure ListMem.Sim {M₁ M₂ L N : Type} [ListMem M₁ L N] [ListMem M₂ L N] (R : M₁ → M₂ → Prop)
    (l : L) (VN VG : N → Prop) : Prop where
  pre : ∀ {a b n x}, R a b → VG n → pre a n = some x →
    pre b n = some x ∧ ∀ k, x = some k → VN k
  next : ∀ {a b n x}, R a b → VG n → next a n = some x →
    next b n = some x ∧ ∀ k, x = some k → VN k
  head : ∀ {a b x}, R a b → head a l = some x → head b l = some x ∧ ∀ k, x = some k → VN k
  tail : ∀ {a b x}, R a b → tail a l = some x → tail b l = some x ∧ ∀ k, x = some k → VN k
  size : ∀ {a b s}, R a b → size a l = some s → size b l = some s
  setPre : ∀ {a b a' n x}, R a b → VN n → (∀ k, x = some k → VN k) → setPre a n x = some a' →
    ∃ b', setPre b n x = some b' ∧ R a' b'
  setNext : ∀ {a b a' n x}, R a b → VN n → (∀ k, x = some k → VN k) → setNext a n x = some a' →
    ∃ b', setNext b n x = some b' ∧ R a' b'
  setHead : ∀ {a b a' x}, R a b → (∀ k, x = some k → VN k) → setHead a l x = some a' →
    ∃ b', setHead b l x = some b' ∧ R a' b'
  setTail : ∀ {a b a' x}, R a b → (∀ k, x = some k → VN k) → setTail a l x = some a' →
    ∃ b', setTail b l x = some b' ∧ R a' b'
  setSize : ∀ {a b a' s}, R a b → setSize a l s = some a' →
    ∃ b', setSize b l s = some b' ∧ R a' b'

/-! ## `list_remove`, step by step -/

section Steps

variable {M L N : Type} [ListMem M L N] [DecidableEq N]

/-- The head moves on if it is the node that goes. -/
def removeHead (m : M) (l : L) (n : N) : Option M :=
  (head m l).bind fun h => if h = some n then (next m n).bind fun x => setHead m l x else some m

def removeTail (m : M) (l : L) (n : N) : Option M :=
  (tail m l).bind fun t => if t = some n then (pre m n).bind fun x => setTail m l x else some m

def removePre (m : M) (n : N) : Option M :=
  (pre m n).bind fun x => match x with
    | some p => (next m n).bind fun y => setNext m p y
    | none => some m

def removeNext (m : M) (n : N) : Option M :=
  (next m n).bind fun x => match x with
    | some p => (pre m n).bind fun y => setPre m p y
    | none => some m

theorem ite_bind {A B : Type} {c : Prop} [Decidable c] (x y : Option A) (f : A → Option B) :
    (if c then x else y).bind f = if c then x.bind f else y.bind f := by
  split <;> rfl

theorem listRemove_eq (m : M) (l : L) (n : N) : listRemove m l n
    = (removeHead m l n).bind fun m => (removeTail m l n).bind fun m => (removePre m n).bind fun m =>
      (removeNext m n).bind fun m => (setNext m n none).bind fun m => (setPre m n none).bind fun m =>
      (size m l).bind fun s => (setSize m l (s - 1)).bind fun m => some (m, n) := by
  have hmatch : ∀ {A B : Type} (x : Option N) (f : N → Option A) (y : Option A) (k : A → Option B),
      (match x with | some p => f p | none => y).bind k
        = match x with | some p => (f p).bind k | none => y.bind k := by
    intro A B x f y k
    cases x <;> rfl
  simp only [listRemove, removeHead, removeTail, removePre, removeNext, ite_bind, hmatch,
    Option.bind_assoc, Option.bind_some, Option.bind_eq_bind, Option.pure_def] <;> rfl

end Steps

/-! ## Simulation -/

namespace ListMem.Sim

variable {M₁ M₂ L N : Type} [ListMem M₁ L N] [ListMem M₂ L N] {R : M₁ → M₂ → Prop} {l : L}
  {VN VG : N → Prop} {a a' : M₁} {b : M₂} {n : N}

theorem null_link : ∀ k, (none : Option N) = some k → VN k := fun _ hk => nomatch hk

theorem listInit (S : Sim R l VN VG) (hR : R a b) (h : listInit a l = some a') :
    ∃ b', Csos.listInit b l = some b' ∧ R a' b' := by
  simp only [Csos.listInit, Option.bind_eq_bind, Option.bind_eq_some_iff] at h
  obtain ⟨a₁, h₁, a₂, h₂, h₃⟩ := h
  obtain ⟨b₁, e₁, hR₁⟩ := S.setTail hR null_link h₁
  obtain ⟨b₂, e₂, hR₂⟩ := S.setHead hR₁ null_link h₂
  obtain ⟨b₃, e₃, hR₃⟩ := S.setSize hR₂ h₃
  exact ⟨b₃, by simp [Csos.listInit, e₁, e₂, e₃], hR₃⟩

theorem listIsEmpty (S : Sim R l VN VG) (hR : R a b) {e : Bool}
    (h : listIsEmpty a l = some e) : Csos.listIsEmpty b l = some e := by
  simp only [Csos.listIsEmpty, Option.bind_eq_bind, Option.bind_eq_some_iff] at h ⊢
  obtain ⟨s, hs, he⟩ := h
  exact ⟨s, S.size hR hs, he⟩

theorem listInsertBack (S : Sim R l VN VG) (hR : R a b) (hn : VN n)
    (h : listInsertBack a l n = some a') :
    ∃ b', Csos.listInsertBack b l n = some b' ∧ R a' b' := by
  simp only [Csos.listInsertBack, Option.bind_eq_bind, Option.bind_eq_some_iff] at h
  obtain ⟨t, ht, a₁, h₁, a₂, h₂, e, he, h₃⟩ := h
  have hself : ∀ k, some n = some k → VN k := fun k hk => Option.some.inj hk ▸ hn
  obtain ⟨et, ht'⟩ := S.tail hR ht
  obtain ⟨b₁, e₁, hR₁⟩ := S.setPre hR hn ht' h₁
  obtain ⟨b₂, e₂, hR₂⟩ := S.setNext hR₁ hn null_link h₂
  have ee := S.listIsEmpty hR₂ he
  by_cases htrue : e = true
  · rw [if_pos htrue] at h₃
    simp only [Option.bind_eq_some_iff] at h₃
    obtain ⟨a₅, h₅, a₆, h₆, s, hs, h₄⟩ := h₃
    obtain ⟨b₅, e₅, hR₅⟩ := S.setTail hR₂ hself h₅
    obtain ⟨b₆, e₆, hR₆⟩ := S.setHead hR₅ hself h₆
    have es := S.size hR₆ hs
    obtain ⟨b₄, e₄, hR₄⟩ := S.setSize hR₆ h₄
    exact ⟨b₄, by simp [Csos.listInsertBack, et, e₁, e₂, ee, htrue, e₅, e₆, es, e₄], hR₄⟩
  · rw [if_neg htrue] at h₃
    simp only [Option.bind_eq_some_iff] at h₃
    obtain ⟨o, ho, last, rfl, a₅, h₅, a₆, h₆, s, hs, h₄⟩ := h₃
    obtain ⟨eo, hlast⟩ := S.tail hR₂ ho
    obtain ⟨b₅, e₅, hR₅⟩ := S.setNext hR₂ (hlast last rfl) hself h₅
    obtain ⟨b₆, e₆, hR₆⟩ := S.setTail hR₅ hself h₆
    have es := S.size hR₆ hs
    obtain ⟨b₄, e₄, hR₄⟩ := S.setSize hR₆ h₄
    exact ⟨b₄, by simp [Csos.listInsertBack, et, e₁, e₂, ee, htrue, eo, e₅, e₆, es, e₄], hR₄⟩

section Remove

variable [DecidableEq N] (S : Sim R l VN VN) (hR : R a b) (hn : VN n)
include S hR hn

theorem removeHead (h : removeHead a l n = some a') :
    ∃ b', Csos.removeHead b l n = some b' ∧ R a' b' := by
  obtain ⟨x, hx, h⟩ := Option.bind_eq_some_iff.mp h
  obtain ⟨ex, -⟩ := S.head hR hx
  rw [Csos.removeHead, ex, Option.bind_some]
  split at h
  case isTrue heq =>
    obtain ⟨y, hy, h⟩ := Option.bind_eq_some_iff.mp h
    obtain ⟨ey, hy'⟩ := S.next hR hn hy
    rw [if_pos heq, ey, Option.bind_some]
    exact S.setHead hR hy' h
  case isFalse hne =>
    obtain rfl := Option.some.inj h
    exact ⟨b, if_neg hne, hR⟩

theorem removeTail (h : removeTail a l n = some a') :
    ∃ b', Csos.removeTail b l n = some b' ∧ R a' b' := by
  obtain ⟨x, hx, h⟩ := Option.bind_eq_some_iff.mp h
  obtain ⟨ex, -⟩ := S.tail hR hx
  rw [Csos.removeTail, ex, Option.bind_some]
  split at h
  case isTrue heq =>
    obtain ⟨y, hy, h⟩ := Option.bind_eq_some_iff.mp h
    obtain ⟨ey, hy'⟩ := S.pre hR hn hy
    rw [if_pos heq, ey, Option.bind_some]
    exact S.setTail hR hy' h
  case isFalse hne =>
    obtain rfl := Option.some.inj h
    exact ⟨b, if_neg hne, hR⟩

omit [DecidableEq N] in
theorem removePre (h : removePre a n = some a') :
    ∃ b', Csos.removePre b n = some b' ∧ R a' b' := by
  obtain ⟨x, hx, h⟩ := Option.bind_eq_some_iff.mp h
  obtain ⟨ex, hx'⟩ := S.pre hR hn hx
  rw [Csos.removePre, ex, Option.bind_some]
  cases x with
  | none =>
      obtain rfl := Option.some.inj h
      exact ⟨b, rfl, hR⟩
  | some p =>
      obtain ⟨y, hy, h⟩ := Option.bind_eq_some_iff.mp h
      obtain ⟨ey, hy'⟩ := S.next hR hn hy
      dsimp only
      rw [ey, Option.bind_some]
      exact S.setNext hR (hx' p rfl) hy' h

omit [DecidableEq N] in
theorem removeNext (h : removeNext a n = some a') :
    ∃ b', Csos.removeNext b n = some b' ∧ R a' b' := by
  obtain ⟨x, hx, h⟩ := Option.bind_eq_some_iff.mp h
  obtain ⟨ex, hx'⟩ := S.next hR hn hx
  rw [Csos.removeNext, ex, Option.bind_some]
  cases x with
  | none =>
      obtain rfl := Option.some.inj h
      exact ⟨b, rfl, hR⟩
  | some p =>
      obtain ⟨y, hy, h⟩ := Option.bind_eq_some_iff.mp h
      obtain ⟨ey, hy'⟩ := S.pre hR hn hy
      dsimp only
      rw [ey, Option.bind_some]
      exact S.setPre hR (hx' p rfl) hy' h

/-- All links are followed, so those of every node must be good. -/
theorem listRemove {k : N} (h : listRemove a l n = some (a', k)) :
    ∃ b', Csos.listRemove b l n = some (b', k) ∧ R a' b' := by
  simp only [listRemove_eq, Option.bind_eq_some_iff] at h
  obtain ⟨a₁, h₁, a₂, h₂, a₃, h₃, a₄, h₄, a₅, h₅, a₆, h₆, s, hs, a₇, h₇, hret⟩ := h
  obtain ⟨rfl, rfl⟩ := Prod.mk.inj (Option.some.inj hret)
  obtain ⟨b₁, e₁, hR₁⟩ := S.removeHead hR hn h₁
  obtain ⟨b₂, e₂, hR₂⟩ := S.removeTail hR₁ hn h₂
  obtain ⟨b₃, e₃, hR₃⟩ := S.removePre hR₂ hn h₃
  obtain ⟨b₄, e₄, hR₄⟩ := S.removeNext hR₃ hn h₄
  obtain ⟨b₅, e₅, hR₅⟩ := S.setNext hR₄ hn null_link h₅
  obtain ⟨b₆, e₆, hR₆⟩ := S.setPre hR₅ hn null_link h₆
  have es := S.size hR₆ hs
  obtain ⟨b₇, e₇, hR₇⟩ := S.setSize hR₆ h₇
  refine ⟨b₇, ?_, hR₇⟩
  simp only [listRemove_eq, e₁, e₂, e₃, e₄, e₅, e₆, es, e₇, Option.bind_some]

end Remove

end ListMem.Sim

end Csos
