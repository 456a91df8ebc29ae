import Csos.UserHeap

/-!
# Writes of a task that may fault

`Wrote P` says that a call has written nothing but what user addresses
in `P` hold. A write to a user address does so when it comes back at
all: it faults where no page is mapped, and no user page lies over a
table. The functions of `list.c` and the header writes follow, for a
heap about which nothing is known but where its links lead.
-/

namespace Csos

open Lib ListMem

/-- The machines differ at most in what the addresses in `P` hold. -/
structure Wrote (m m' : Machine) (d : Nat) (P : Nat → Prop) : Prop where
  same : SameSpace m m' d
  read8 : ∀ b, UserAddr b → ¬ P b → m'.read8 b = m.read8 b

/-- The `len` bytes from `a` on are user memory. -/
def UserRange (a len : Nat) : Prop := 0x40000000 ≤ a ∧ a + len ≤ 0x100000000

instance (a len : Nat) : Decidable (UserRange a len) := inferInstanceAs (Decidable (_ ∧ _))

variable {m m' m'' : Machine} {d a b len v l : Nat} {P Q : Nat → Prop} {n : Ptr}

theorem UserRange.addr (h : UserRange a len) (hb : a ≤ b) (hb' : b < a + len) : UserAddr b := by
  obtain ⟨hlo, hhi⟩ := h
  constructor <;> omega

theorem UserRange.sub {a' len' : Nat} (h : UserRange a len) (ha : a ≤ a')
    (hl : a' + len' ≤ a + len) : UserRange a' len' := by
  obtain ⟨hlo, hhi⟩ := h
  constructor <;> omega

theorem Wrote.refl (m : Machine) (d : Nat) (P : Nat → Prop) : Wrote m m d P :=
  ⟨.refl m d, fun _ _ _ => rfl⟩

theorem Wrote.trans (h : Wrote m m' d P) (h' : Wrote m' m'' d P) : Wrote m m'' d P :=
  ⟨h.same.trans h'.same, fun b hb hP => (h'.read8 b hb hP).trans (h.read8 b hb hP)⟩

theorem Wrote.mono (h : Wrote m m' d P) (hPQ : ∀ b, P b → Q b) : Wrote m m' d Q :=
  ⟨h.same, fun b hb hQ => h.read8 b hb fun hP => hQ (hPQ b hP)⟩

/-- A write that may be left out. -/
theorem Wrote.ite {c : Prop} [Decidable c] {x : Option Machine}
    (hx : x = some m' → Wrote m m' d P) (h : (if c then x else some m) = some m') :
    Wrote m m' d P := by
  split at h
  case isTrue => exact hx h
  case isFalse =>
    obtain rfl := Option.some.inj h
    exact .refl m d P

/-- Words that were not written read as before. -/
theorem Wrote.read32 (h : Wrote m m' d P) (ha : UserRange a 4)
    (hP : ∀ b, a ≤ b → b < a + 4 → ¬ P b) : m'.read32 a = m.read32 a := by
  obtain ⟨hlo, hhi⟩ := ha
  have hword : ∀ i < 4, u32 (a + i) = a + i := fun i hi => u32_of_lt (by omega)
  have hread : ∀ i < 4, m'.read8 (a + i) = m.read8 (a + i) := fun i hi =>
    h.read8 (a + i) ⟨by omega, by omega⟩ (hP _ (by omega) (by omega))
  rw [Machine.read32, Machine.read32, hword 1 (by decide), hword 2 (by decide),
    hword 3 (by decide), hread 1 (by decide), hread 2 (by decide), hread 3 (by decide)]
  rw [show m'.read8 a = m.read8 a from hread 0 (by decide)]

/-! ## Bytes and words -/

theorem translate_unmapped (hr : Running m d) (ha : UserAddr a)
    (hv : pteAt m.mem d (a / 0x1000) = none) : m.translate a = none := by
  have hge : ¬ a < 0x2000000 := by
    have := ha.1
    omega
  rw [Machine.translate, if_neg hge, walk_eq, hr.active, hv]
  rfl

theorem read8_eq_none (hr : Running m d) (ha : UserAddr a)
    (hv : pteAt m.mem d (a / 0x1000) = none) : m.read8 a = none := by
  rw [Machine.read8, translate_unmapped hr ha hv]
  rfl

theorem write8_wrote (hr : Running m d) (ha : UserAddr a) {c : BitVec 8}
    (h : m.write8 a c = some m') : Wrote m m' d (· = a) := by
  by_cases hp : pteAt m.mem d (a / 0x1000) = none
  · rw [Machine.write8, translate_unmapped hr ha hp] at h
    cases h
  · obtain ⟨m₁, hw, hsame, hflat⟩ := write8_flat hr ha hp c
    obtain rfl := Option.some.inj (hw.symm.trans h)
    refine ⟨hsame, fun b hb hne => ?_⟩
    by_cases hq : pteAt m.mem d (b / 0x1000) = none
    · rw [read8_eq_none hr hb hq,
        read8_eq_none (hr.same hsame) hb ((hsame.pte _ hb.page).trans hq)]
    · rw [read8_flat hr hb hq, read8_flat (hr.same hsame) hb (by rwa [hsame.pte _ hb.page]),
        hflat b hb, Bytes.store8_of_ne hne]

theorem write32_wrote (hr : Running m d) (ha : UserRange a 4) (h : m.write32 a v = some m') :
    Wrote m m' d fun b => a ≤ b ∧ b < a + 4 := by
  have hu := fun i (hi : i < 4) => ha.addr (Nat.le_add_right a i) (by omega)
  have hword : ∀ i < 4, u32 (a + i) = a + i := fun i hi => u32_of_lt (hu i hi).2
  simp only [Machine.write32, hword 1 (by decide), hword 2 (by decide), hword 3 (by decide),
    Option.bind_eq_bind, Option.bind_eq_some_iff] at h
  obtain ⟨m₀, h₀, m₁, h₁, m₂, h₂, h₃⟩ := h
  have w₀ := write8_wrote hr (hu 0 (by decide)) h₀
  have hr₀ := hr.same w₀.same
  have w₁ := write8_wrote hr₀ (hu 1 (by decide)) h₁
  have hr₁ := hr₀.same w₁.same
  have w₂ := write8_wrote hr₁ (hu 2 (by decide)) h₂
  have w₃ := write8_wrote (hr₁.same w₂.same) (hu 3 (by decide)) h₃
  refine ((w₀.mono fun b hb => ?_).trans (w₁.mono fun b hb => ?_)).trans
    ((w₂.mono fun b hb => ?_).trans (w₃.mono fun b hb => ?_)) <;> subst hb <;> omega

/-! ## Headers -/

theorem setP_wrote (hr : Running m d) (ha : UserRange a blockSize) {p : Bool}
    (h : setP m a p = some m') : Wrote m m' d (· = a + 4) := by
  have hu : UserAddr (a + 4) := ha.addr (by omega) (by simp only [blockSize]; omega)
  rw [setP, u32_of_lt hu.2] at h
  obtain ⟨c, -, h⟩ := Option.bind_eq_some_iff.mp h
  exact write8_wrote hr hu h

theorem setMagic_wrote (hr : Running m d) (ha : UserRange a blockSize) {magic : BitVec 4}
    (h : setMagic m a magic = some m') : Wrote m m' d (· = a + 4) := by
  have hu : UserAddr (a + 4) := ha.addr (by omega) (by simp only [blockSize]; omega)
  rw [setMagic, u32_of_lt hu.2] at h
  obtain ⟨c, -, h⟩ := Option.bind_eq_some_iff.mp h
  exact write8_wrote hr hu h

/-! ## Lists -/

/-- The byte belongs to the node. -/
def InNode (n : Ptr) (b : Nat) : Prop := n.1 ≤ b ∧ b < n.1 + 8

/-- The byte belongs to the `list_t` at `l`. -/
def InList (l b : Nat) : Prop := l ≤ b ∧ b < l + 12

section Words

variable (hr : Running m d)
include hr

theorem setPre_wrote (hn : UserRange n.1 8) {x : Option Ptr} (h : setPre m n x = some m') :
    Wrote m m' d (InNode n) :=
  (write32_wrote hr (hn.sub (Nat.le_refl _) (by omega)) h).mono fun b hb => by
    simp only [InNode]
    omega

theorem setNext_wrote (hn : UserRange n.1 8) {x : Option Ptr} (h : setNext m n x = some m') :
    Wrote m m' d fun b => n.1 + 4 ≤ b ∧ b < n.1 + 8 := by
  have hword : u32 (n.1 + 4) = n.1 + 4 :=
    u32_of_lt (hn.addr (Nat.le_add_right _ 4) (by omega)).2
  have h' : m.write32 (u32 (n.1 + 4)) (ofPtr x) = some m' := h
  rw [hword] at h'
  exact write32_wrote hr (hn.sub (Nat.le_add_right _ 4) (by omega)) h'

theorem writeList_wrote (hl : UserRange l 12) {k : Nat} (hk : k ≤ 8)
    (h : m.write32 (u32 (l + k)) v = some m') : Wrote m m' d (InList l) := by
  rw [u32_of_lt (hl.addr (Nat.le_add_right _ k) (by omega)).2] at h
  refine (write32_wrote hr (hl.sub (Nat.le_add_right _ k) (by omega)) h).mono fun b hb => ?_
  simp only [InList]
  omega

theorem setHead_wrote (hl : UserRange l 12) {x : Option Ptr} (h : setHead m l x = some m') :
    Wrote m m' d (InList l) := by
  have hword : u32 (l + 0) = l := u32_of_lt (hl.addr (Nat.le_refl l) (by omega)).2
  exact writeList_wrote hr hl (Nat.zero_le 8) (by rw [hword]; exact h)

theorem setTail_wrote (hl : UserRange l 12) {x : Option Ptr} (h : setTail m l x = some m') :
    Wrote m m' d (InList l) := writeList_wrote hr hl (by decide : 4 ≤ 8) h

theorem setSize_wrote (hl : UserRange l 12) {x : UInt32} (h : setSize m l x = some m') :
    Wrote m m' d (InList l) := writeList_wrote hr hl (Nat.le_refl 8) h

end Words

/-- The links of a node that was not written read as before. -/
theorem Wrote.pre (h : Wrote m m' d P) (hn : UserRange n.1 8)
    (hP : ∀ b, n.1 ≤ b → b < n.1 + 4 → ¬ P b) : pre m' n = pre m n :=
  congrArg (Option.map toPtr) (h.read32 (hn.sub (Nat.le_refl _) (by omega)) hP)

theorem Wrote.next (h : Wrote m m' d P) (hn : UserRange n.1 8)
    (hP : ∀ b, n.1 + 4 ≤ b → b < n.1 + 8 → ¬ P b) : next m' n = next m n := by
  have hword : u32 (n.1 + 4) = n.1 + 4 :=
    u32_of_lt (hn.addr (Nat.le_add_right _ 4) (by omega)).2
  show (m'.read32 (u32 (n.1 + 4))).map toPtr = (m.read32 (u32 (n.1 + 4))).map toPtr
  rw [hword, h.read32 (hn.sub (Nat.le_add_right _ 4) (by omega)) hP]

theorem Wrote.tail (h : Wrote m m' d P) (hl : UserRange l 12)
    (hP : ∀ b, InList l b → ¬ P b) : tail m' l = tail m l := by
  have hword : u32 (l + 4) = l + 4 := u32_of_lt (hl.addr (Nat.le_add_right _ 4) (by omega)).2
  show (m'.read32 (u32 (l + 4))).map toPtr = (m.read32 (u32 (l + 4))).map toPtr
  rw [hword, h.read32 (hl.sub (Nat.le_add_right _ 4) (by omega)) fun b hb hb' =>
    hP b ⟨by omega, by omega⟩]

/-! ## `list.c` -/

section Lists

variable (hr : Running m d) (hl : UserRange l 12) (hn : UserRange n.1 8)
  (hap : n.1 + 8 ≤ l ∨ l + 12 ≤ n.1)
include hr hl hn hap

/-- The old tail is the only node that is written besides the new one. -/
theorem listInsertBack_same (htail : ∀ k, tail m l = some (some k) → UserRange k.1 8)
    (h : listInsertBack m l n = some m') : SameSpace m m' d := by
  simp only [listInsertBack, Option.bind_eq_bind, Option.bind_eq_some_iff] at h
  obtain ⟨t, ht, m₁, h₁, m₂, h₂, e, -, h₃⟩ := h
  have w₁ := setPre_wrote hr hn h₁
  have hr₁ := hr.same w₁.same
  have w₂ := (setNext_wrote hr₁ hn h₂).mono fun b (hb : n.1 + 4 ≤ b ∧ b < n.1 + 8) =>
    (⟨by omega, hb.2⟩ : InNode n b)
  have w := w₁.trans w₂
  have hr₂ := hr.same w.same
  by_cases htrue : e = true
  · rw [if_pos htrue] at h₃
    simp only [Option.bind_eq_some_iff] at h₃
    obtain ⟨m₃, h₃, m₄, h₄, s, -, h₅⟩ := h₃
    have w₃ := setTail_wrote hr₂ hl h₃
    have hr₃ := hr₂.same w₃.same
    have w₄ := setHead_wrote hr₃ hl h₄
    have w₅ := setSize_wrote (hr₃.same w₄.same) hl h₅
    exact (w.same.trans w₃.same).trans (w₄.same.trans w₅.same)
  · rw [if_neg htrue] at h₃
    simp only [Option.bind_eq_some_iff] at h₃
    obtain ⟨o, ho, last, rfl, m₃, h₃, m₄, h₄, s, -, h₅⟩ := h₃
    -- the new node lies apart, so the tail is read again as it was
    have ht₂ : tail m₂ l = tail m l := w.tail hl fun b hb hb' => by
      simp only [InList, InNode] at hb hb'
      omega
    have w₃ := setNext_wrote hr₂ (htail last (ht₂.symm.trans ho)) h₃
    have hr₃ := hr₂.same w₃.same
    have w₄ := setTail_wrote hr₃ hl h₄
    have w₅ := setSize_wrote (hr₃.same w₄.same) hl h₅
    exact (w.same.trans w₃.same).trans (w₄.same.trans w₅.same)

omit hn hap in
theorem removeHead_wrote (h : removeHead m l n = some m') : Wrote m m' d (InList l) := by
  obtain ⟨x, -, h⟩ := Option.bind_eq_some_iff.mp h
  refine .ite (fun h => ?_) h
  obtain ⟨y, -, h⟩ := Option.bind_eq_some_iff.mp h
  exact setHead_wrote hr hl h

omit hn hap in
theorem removeTail_wrote (h : removeTail m l n = some m') : Wrote m m' d (InList l) := by
  obtain ⟨x, -, h⟩ := Option.bind_eq_some_iff.mp h
  refine .ite (fun h => ?_) h
  obtain ⟨y, -, h⟩ := Option.bind_eq_some_iff.mp h
  exact setTail_wrote hr hl h

/-- The neighbours of the node are written, so its links must lead into
user memory; and it must not lie under the link of its predecessor. -/
theorem listRemove_same {k : Ptr}
    (hpre : ∀ p, pre m n = some (some p) → UserRange p.1 8 ∧ (p.1 + 4 ≤ n.1 ∨ n.1 + 4 ≤ p.1))
    (hnext : ∀ q, next m n = some (some q) → UserRange q.1 8)
    (h : listRemove m l n = some (m', k)) : SameSpace m m' d := by
  simp only [listRemove_eq, Option.bind_eq_some_iff] at h
  obtain ⟨m₁, h₁, m₂, h₂, m₃, h₃, m₄, h₄, m₅, h₅, m₆, h₆, s, -, m₇, h₇, hret⟩ := h
  obtain ⟨rfl, -⟩ := Prod.mk.inj (Option.some.inj hret)
  have w₁ := removeHead_wrote hr hl h₁
  have hr₁ := hr.same w₁.same
  have w := w₁.trans (removeTail_wrote hr₁ hl h₂)
  have hr₂ := hr.same w.same
  have hlinks : ∀ b, InNode n b → ¬ InList l b := fun b hb hb' => by
    simp only [InNode, InList] at hb hb'
    omega
  have epre := w.pre hn fun b hb hb' => hlinks b ⟨hb, by omega⟩
  have enext := w.next hn fun b hb hb' => hlinks b ⟨by omega, hb'⟩
  obtain ⟨hsame, enext₃⟩ : SameSpace m₂ m₃ d ∧ next m₃ n = next m₂ n := by
    obtain ⟨x, hx, h₃⟩ := Option.bind_eq_some_iff.mp h₃
    cases x with
    | none =>
        obtain rfl := Option.some.inj h₃
        exact ⟨.refl m₂ d, rfl⟩
    | some p =>
        obtain ⟨y, -, h₃⟩ := Option.bind_eq_some_iff.mp h₃
        obtain ⟨hp, hpn⟩ := hpre p (epre.symm.trans hx)
        have w₃ := setNext_wrote hr₂ hp h₃
        exact ⟨w₃.same, w₃.next hn fun b _ _ _ => by omega⟩
  have hr₃ := hr₂.same hsame
  have hsame' : SameSpace m₃ m₄ d := by
    obtain ⟨x, hx, h₄⟩ := Option.bind_eq_some_iff.mp h₄
    cases x with
    | none =>
        obtain rfl := Option.some.inj h₄
        exact .refl m₃ d
    | some q =>
        obtain ⟨y, -, h₄⟩ := Option.bind_eq_some_iff.mp h₄
        exact (setPre_wrote hr₃ (hnext q ((enext₃.trans enext).symm.trans hx)) h₄).same
  have hr₄ := hr₃.same hsame'
  have w₅ := setNext_wrote hr₄ hn h₅
  have hr₅ := hr₄.same w₅.same
  have w₆ := setPre_wrote hr₅ hn h₆
  have w₇ := setSize_wrote (hr₅.same w₆.same) hl h₇
  exact (((w.same.trans hsame).trans hsame').trans w₅.same).trans (w₆.same.trans w₇.same)

end Lists

/-! ## Blocks -/

theorem toPtr_eq_some (h : toPtr v = some n) : n.1 = v := by
  rw [toPtr] at h
  split at h
  case isTrue => exact congrArg Subtype.val (Option.some.inj h).symm
  case isFalse => cases h

section Blocks

variable {m₁ m₂ m₃ m₄ : Machine} {size pb : Nat}

/-- `tss_task_sbrk` writes and links a header that lies behind the list. -/
theorem insertBlock_same (hr : Running m d) (hl : UserRange l 12) (hb : UserRange pb blockSize)
    (hlow : l + 12 ≤ pb) (htail : ∀ k, tail m l = some (some k) → UserRange k.1 8)
    (h₁ : setP m pb true = some m₁) (h₂ : setMagic m₁ pb 0xE = some m₂)
    (h₃ : m₂.write32 pb size = some m₃) (hn : n.1 = pb + 5)
    (h₄ : listInsertBack m₃ l n = some m₄) : SameSpace m m₄ d := by
  have hB : blockSize = 13 := rfl
  have w₁ := setP_wrote hr hb h₁
  have hr₁ := hr.same w₁.same
  have w₂ := setMagic_wrote hr₁ hb h₂
  have hr₂ := hr₁.same w₂.same
  have w₃ := write32_wrote hr₂ (hb.sub (Nat.le_refl _) (by omega)) h₃
  have hr₃ := hr₂.same w₃.same
  have etail : tail m₃ l = tail m l := by
    rw [w₃.tail hl fun b hb hb' => by simp only [InList] at hb; omega,
      w₂.tail hl fun b hb hb' => by simp only [InList] at hb; omega,
      w₁.tail hl fun b hb hb' => by simp only [InList] at hb; omega]
  have hnode : UserRange n.1 8 := by
    rw [hn]
    exact hb.sub (Nat.le_add_right _ 5) (by omega)
  exact ((w₁.same.trans w₂.same).trans w₃.same).trans
    (listInsertBack_same hr₃ hl hnode (Or.inr (by omega)) (fun k hk => htail k (etail ▸ hk)) h₄)

/-- `tss_task_free` clears `p` and takes the block out of the list. -/
theorem removeBlock_same {k : Ptr} (hr : Running m d) (hl : UserRange l 12)
    (hb : UserRange pb blockSize) (hlow : l + 12 ≤ pb) (w₁ : Wrote m m₁ d (· = pb + 4))
    (hn : n.1 = pb + 5)
    (hpre : ∀ p, pre m n = some (some p) → UserRange p.1 8 ∧ (p.1 + 4 ≤ n.1 ∨ n.1 + 4 ≤ p.1))
    (hnext : ∀ q, next m n = some (some q) → UserRange q.1 8)
    (h₂ : listRemove m₁ l n = some (m₂, k)) : SameSpace m m₂ d := by
  have hB : blockSize = 13 := rfl
  have hnode : UserRange n.1 8 := by
    rw [hn]
    exact hb.sub (Nat.le_add_right _ 5) (by omega)
  have epre := w₁.pre hnode fun b hb hb' => by omega
  have enext := w₁.next hnode fun b hb hb' => by omega
  exact w₁.same.trans (listRemove_same (hr.same w₁.same) hl hnode (Or.inr (by omega))
    (fun p hp => hpre p (epre ▸ hp)) (fun q hq => hnext q (enext ▸ hq)) h₂)

end Blocks

end Csos
