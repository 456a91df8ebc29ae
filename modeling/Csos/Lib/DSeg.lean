import Mathlib.Algebra.Ring.Nat
import Mathlib.Data.List.Basic
import Mathlib.Logic.Function.Basic

/-!
# Doubly linked segments

A doubly linked structure is two partial successor functions, `pre` and
`next`, on a type of nodes. `DSeg pre next b ns a` says that the nodes
`ns` hang together in this order, that the first one points back to `b`
and that the last one points on to `a`. `Path f p ns` is the one-way
walk: following `f` from `p` meets exactly `ns` and then the end.

`dseg_iff_paths` relates the two: a closed segment is a walk along
`next` together with a walk along `pre` that meets the same nodes in
the opposite order. The remaining lemmas say how a segment splits
(`dseg_append`), what it does not depend on (`DSeg.congr`), and what
re-pointing one of its two ends does (`DSeg.update_pre_head`,
`DSeg.update_next_last`).
-/

namespace Csos

namespace Lib

variable {N : Type} {pre next pre' next' : N → Option N}

/-! ## Walks and segments -/

/-- Following `f` from `p` meets exactly the nodes `ns`, in this order,
and then stops. -/
def Path (f : N → Option N) : Option N → List N → Prop
  | p, [] => p = none
  | p, n :: ns => p = some n ∧ Path f (f n) ns

/-- The nodes `ns` form a doubly linked segment between `b` and `a`. -/
def DSeg (pre next : N → Option N) : Option N → List N → Option N → Prop
  | _, [], _ => True
  | b, n :: ns, a =>
      pre n = b ∧ next n = ns.head?.or a ∧ DSeg pre next (some n) ns a

@[simp] theorem dseg_nil {b a : Option N} : DSeg pre next b [] a := trivial

@[simp] theorem dseg_singleton {b a : Option N} {n : N} :
    DSeg pre next b [n] a ↔ pre n = b ∧ next n = a := by
  simp [DSeg]

theorem dseg_cons {b a : Option N} {n : N} {ns : List N} :
    DSeg pre next b (n :: ns) a ↔
      pre n = b ∧ next n = ns.head?.or a ∧ DSeg pre next (some n) ns a :=
  Iff.rfl

/-- A segment splits at any point; each half names the other's end. -/
theorem dseg_append {b a : Option N} {as bs : List N} :
    DSeg pre next b (as ++ bs) a ↔
      DSeg pre next b as (bs.head?.or a)
        ∧ DSeg pre next (as.getLast?.or b) bs a := by
  induction as generalizing b with
  | nil => simp
  | cons n as ih =>
      rw [List.cons_append, dseg_cons, dseg_cons, ih, List.head?_append,
        Option.or_assoc, List.getLast?_cons]
      cases as.getLast? <;> simp [and_assoc]

/-- Only the nodes of a segment matter to it. -/
theorem DSeg.congr {b a : Option N} {ns : List N}
    (h : DSeg pre next b ns a)
    (hpre : ∀ n ∈ ns, pre' n = pre n) (hnext : ∀ n ∈ ns, next' n = next n) :
    DSeg pre' next' b ns a := by
  induction ns generalizing b with
  | nil => trivial
  | cons n ns ih =>
      obtain ⟨hp, hn, hrest⟩ := h
      refine ⟨(hpre n (by simp)).trans hp, (hnext n (by simp)).trans hn, ?_⟩
      exact ih hrest (fun m hm => hpre m (List.mem_cons_of_mem _ hm))
        (fun m hm => hnext m (List.mem_cons_of_mem _ hm))

/-! ## Segments by their splits -/

/-- The pointwise reading of a segment: every node points at its two
neighbours. -/
theorem dseg_iff_forall {b a : Option N} {ns : List N} :
    DSeg pre next b ns a ↔
      ∀ as n bs, ns = as ++ n :: bs →
        pre n = as.getLast?.or b ∧ next n = bs.head?.or a := by
  constructor
  · rintro h as n bs rfl
    rw [dseg_append, dseg_cons] at h
    exact ⟨h.2.1, h.2.2.1⟩
  · intro h
    induction ns generalizing b with
    | nil => trivial
    | cons n ns ih =>
        obtain ⟨hp, hn⟩ := h [] n ns rfl
        refine ⟨by simpa using hp, hn, ih fun as m bs hm => ?_⟩
        obtain ⟨hp', hn'⟩ := h (n :: as) m bs (by rw [hm]; rfl)
        refine ⟨?_, hn'⟩
        rw [List.getLast?_cons] at hp'
        cases hl : as.getLast? <;> simpa [hl] using hp'

/-- The links of a closed segment do not leave it. -/
theorem DSeg.closed {ns : List N} {n k : N} (h : DSeg pre next none ns none) (hn : n ∈ ns) :
    (pre n = some k → k ∈ ns) ∧ (next n = some k → k ∈ ns) := by
  obtain ⟨as, bs, rfl⟩ := List.append_of_mem hn
  obtain ⟨hp, hx⟩ := dseg_iff_forall.mp h as n bs rfl
  rw [Option.or_none] at hp hx
  refine ⟨fun hk => List.mem_append_left _ (List.mem_of_getLast? (hp.symm.trans hk)), fun hk => ?_⟩
  exact List.mem_append_right _ (List.mem_cons_of_mem _ (List.mem_of_head? (hx.symm.trans hk)))

theorem Path.split {f : N → Option N} {p : Option N} {as bs : List N} {n : N}
    (h : Path f p (as ++ n :: bs)) : f n = bs.head? := by
  induction as generalizing p with
  | nil =>
      cases bs with
      | nil => exact h.2
      | cons m bs => exact h.2.1
  | cons m as ih => exact ih h.2

theorem Path.head {f : N → Option N} {p : Option N} {ns : List N}
    (h : Path f p ns) : p = ns.head? := by
  cases ns with
  | nil => exact h
  | cons n ns => exact h.1

/-- A walk from a given start meets one sequence of nodes only. -/
theorem Path.unique {f : N → Option N} {p : Option N} {ns ms : List N}
    (h : Path f p ns) (h' : Path f p ms) : ns = ms := by
  induction ns generalizing p ms with
  | nil =>
      obtain rfl := h
      cases ms with
      | nil => rfl
      | cons m ms => exact absurd h'.1 (by simp)
  | cons n ns ih =>
      obtain ⟨rfl, hn⟩ := h
      cases ms with
      | nil => exact absurd h' (by simp [Path])
      | cons m ms =>
          obtain ⟨hm, hms⟩ := h'
          obtain rfl := Option.some.inj hm
          rw [ih hn hms]

theorem path_of_next {f : N → Option N} {ns : List N}
    (h : ∀ as n bs, ns = as ++ n :: bs → f n = bs.head?) :
    Path f ns.head? ns := by
  induction ns with
  | nil => rfl
  | cons n ns ih =>
      refine ⟨rfl, ?_⟩
      rw [h [] n ns rfl]
      exact ih fun as m bs hm => h (n :: as) m bs (by rw [hm]; rfl)

/-- What is left of a walk is a walk. -/
theorem Path.suffix {f : N → Option N} {p : Option N} {as bs : List N} (h : Path f p (as ++ bs)) :
    Path f bs.head? bs := by
  refine path_of_next fun as' n bs' hbs => ?_
  have hsplit : Path f p ((as ++ as') ++ n :: bs') := by
    rw [List.append_assoc, ← hbs]
    exact h
  exact hsplit.split

/-- The first nodes of a walk, `k` at most. -/
def nodesFrom (f : N → Option N) : Nat → Option N → List N
  | 0, _ => []
  | _ + 1, none => []
  | k + 1, some n => n :: nodesFrom f k (f n)

theorem Path.nodesFrom_eq {f : N → Option N} {p : Option N} {ns : List N} {k : Nat}
    (h : Path f p ns) (hk : ns.length ≤ k) : nodesFrom f k p = ns := by
  induction ns generalizing p k with
  | nil =>
      obtain rfl := h
      cases k <;> rfl
  | cons n ns ih =>
      obtain ⟨rfl, hns⟩ := h
      obtain ⟨k, rfl⟩ := Nat.exists_eq_succ_of_ne_zero (Nat.ne_of_gt (Nat.zero_lt_of_lt hk))
      rw [nodesFrom, ih hns (Nat.le_of_succ_le_succ hk)]

/-- A closed segment is a walk along `next` and a walk along `pre` that
meets the same nodes in the opposite order. -/
theorem dseg_iff_paths {p q : Option N} {ns : List N} :
    (p = ns.head? ∧ q = ns.getLast? ∧ DSeg pre next none ns none) ↔
      Path next p ns ∧ Path pre q ns.reverse := by
  constructor
  · rintro ⟨rfl, rfl, h⟩
    rw [dseg_iff_forall] at h
    refine ⟨path_of_next fun as n bs hs => by simpa using (h as n bs hs).2, ?_⟩
    rw [← List.head?_reverse]
    refine path_of_next fun as n bs hs => ?_
    have hs' : ns = bs.reverse ++ n :: as.reverse := by
      rw [← List.reverse_reverse ns, hs]; simp
    simpa [List.getLast?_reverse] using (h _ n _ hs').1
  · rintro ⟨hn, hp⟩
    refine ⟨hn.head, by rw [hp.head, List.head?_reverse], ?_⟩
    rw [dseg_iff_forall]
    rintro as n bs rfl
    refine ⟨?_, by simpa using hn.split⟩
    rw [List.reverse_append, List.reverse_cons, List.append_assoc] at hp
    have := hp.split
    simpa [List.head?_reverse] using this

/-! ## Re-pointing an end -/

variable [DecidableEq N]

/-- Writing the `pre` field of the first node re-anchors the segment. -/
theorem DSeg.update_pre_head {b b' a : Option N} {n : N} {ns : List N}
    (h : DSeg pre next b (n :: ns) a) (hn : n ∉ ns) :
    DSeg (Function.update pre n b') next b' (n :: ns) a := by
  obtain ⟨-, hnext, hrest⟩ := h
  refine ⟨Function.update_self .., hnext, hrest.congr (fun m hm => ?_) fun _ _ => rfl⟩
  exact Function.update_of_ne (ne_of_mem_of_not_mem hm hn) ..

/-- Writing the `next` field of the last node re-anchors the segment. -/
theorem DSeg.update_next_last {b a a' : Option N} {n : N} {ns : List N}
    (h : DSeg pre next b (ns ++ [n]) a) (hn : n ∉ ns) :
    DSeg pre (Function.update next n a') b (ns ++ [n]) a' := by
  rw [dseg_append, dseg_singleton] at h ⊢
  refine ⟨h.1.congr (fun _ _ => rfl) fun m hm => ?_, h.2.1, Function.update_self ..⟩
  exact Function.update_of_ne (ne_of_mem_of_not_mem hm hn) ..

/-- A write to a node outside the segment does not concern it. -/
theorem DSeg.update_pre_of_notMem {b a v : Option N} {n : N} {ns : List N}
    (h : DSeg pre next b ns a) (hn : n ∉ ns) :
    DSeg (Function.update pre n v) next b ns a :=
  h.congr (fun _ hm => Function.update_of_ne (ne_of_mem_of_not_mem hm hn) ..) fun _ _ => rfl

theorem DSeg.update_next_of_notMem {b a v : Option N} {n : N} {ns : List N}
    (h : DSeg pre next b ns a) (hn : n ∉ ns) :
    DSeg pre (Function.update next n v) b ns a :=
  h.congr (fun _ _ => rfl) fun _ hm => Function.update_of_ne (ne_of_mem_of_not_mem hm hn) ..

end Lib

end Csos
