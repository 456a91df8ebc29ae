import Csos.AddressSpace

/-!
# The memory of a running task

A task that runs in a well-formed space sees a flat memory: `flat` is
what it finds behind each address. Reads and writes of its mapped
addresses are loads and stores there (`read32_flat`, `write32_flat`),
because different user pages have different frames and no frame is one
of the tables. New pages leave what the old ones hold alone.
-/

namespace Csos

open Lib

/-- The space `d` is well formed and active. -/
structure Running (m : Machine) (d : Nat) : Prop where
  space : SpaceOk m d
  active : m.cr3 = d

def UserAddr (a : Nat) : Prop := 0x40000000 ≤ a ∧ a < 0x100000000

/-- All of the `len` addresses from `a` on are mapped user addresses. -/
def RangeMapped (mem : Bytes) (d a len : Nat) : Prop :=
  ∀ b, a ≤ b → b < a + len → UserAddr b ∧ pteAt mem d (b / 0x1000) ≠ none

/-- What the running task finds at an address. -/
def Machine.flat (m : Machine) : Bytes := fun a => (m.read8 a).getD 0

/-- The machines differ at most in what frames of the space `d` hold. -/
structure SameSpace (m m' : Machine) (d : Nat) : Prop where
  eq : m' = { m with mem := m'.mem }
  pde : ∀ i < 1024, pdeAt m'.mem d i = pdeAt m.mem d i
  pte : ∀ n, UserPage n → pteAt m'.mem d n = pteAt m.mem d n

variable {m m' m'' : Machine} {d a b len v : Nat}

theorem UserAddr.page (ha : UserAddr a) : UserPage (a / 0x1000) := by
  obtain ⟨hlo, hhi⟩ := ha
  constructor <;> omega

theorem SameSpace.refl (m : Machine) (d : Nat) : SameSpace m m d :=
  ⟨rfl, fun _ _ => rfl, fun _ _ => rfl⟩

theorem SameSpace.trans (h : SameSpace m m' d) (h' : SameSpace m' m'' d) : SameSpace m m'' d :=
  ⟨by rw [h'.eq, h.eq], fun i hi => (h'.pde i hi).trans (h.pde i hi),
    fun n hn => (h'.pte n hn).trans (h.pte n hn)⟩

theorem Running.same (hr : Running m d) (h : SameSpace m m' d) : Running m' d :=
  ⟨hr.space.congr (by rw [h.eq]) h.pde fun n _ hn hv => (h.pte n hn).symm.trans hv,
    by rw [h.eq]; exact hr.active⟩

theorem RangeMapped.same (hm : RangeMapped m.mem d a len) (h : SameSpace m m' d) :
    RangeMapped m'.mem d a len := by
  intro b hb hb'
  obtain ⟨hu, hp⟩ := hm b hb hb'
  exact ⟨hu, by rwa [h.pte _ hu.page]⟩

theorem RangeMapped.sub {a' len' : Nat} (hm : RangeMapped m.mem d a len) (ha : a ≤ a')
    (hl : a' + len' ≤ a + len) : RangeMapped m.mem d a' len' :=
  fun b hb hb' => hm b (by omega) (by omega)

/-! ## Bytes -/

section Bytes

variable (hr : Running m d)
include hr

theorem translate_mapped (ha : UserAddr a) (hv : pteAt m.mem d (a / 0x1000) = some v) :
    m.translate a = some (pteAddress v + a % 0x1000) := by
  have hge : ¬ a < 0x2000000 := by
    have := ha.1
    omega
  rw [Machine.translate, if_neg hge, walk_eq, hr.active, hv]
  rfl

theorem flat_mapped (ha : UserAddr a) (hv : pteAt m.mem d (a / 0x1000) = some v) :
    m.flat a = m.mem (pteAddress v + a % 0x1000) := by
  rw [Machine.flat, Machine.read8, translate_mapped hr ha hv]
  rfl

theorem flat_unmapped (ha : UserAddr a) (hv : pteAt m.mem d (a / 0x1000) = none) :
    m.flat a = 0 := by
  have hge : ¬ a < 0x2000000 := by
    have := ha.1
    omega
  rw [Machine.flat, Machine.read8, Machine.translate, if_neg hge, walk_eq, hr.active, hv]
  rfl

/-- An address reads as before when its page is as before. -/
theorem flat_congr (hr' : Running m' d) (ha : UserAddr a)
    (hpte : pteAt m'.mem d (a / 0x1000) = pteAt m.mem d (a / 0x1000))
    (hframe : ∀ u, pteAt m.mem d (a / 0x1000) = some u →
      m'.mem (pteAddress u + a % 0x1000) = m.mem (pteAddress u + a % 0x1000)) :
    m'.flat a = m.flat a := by
  cases hu : pteAt m.mem d (a / 0x1000) with
  | none => rw [flat_unmapped hr ha hu, flat_unmapped hr' ha (hpte.trans hu)]
  | some u => rw [flat_mapped hr ha hu, flat_mapped hr' ha (hpte.trans hu), hframe u hu]

theorem read8_flat (ha : UserAddr a) (hp : pteAt m.mem d (a / 0x1000) ≠ none) :
    m.read8 a = some (m.flat a) := by
  obtain ⟨v, hv⟩ := Option.ne_none_iff_exists'.mp hp
  rw [flat_mapped hr ha hv, Machine.read8, translate_mapped hr ha hv]
  rfl

/-- A write goes to the frame of its page, which is no table and the
frame of no other page. -/
theorem write8_flat (ha : UserAddr a) (hp : pteAt m.mem d (a / 0x1000) ≠ none) (c : BitVec 8) :
    ∃ m', m.write8 a c = some m' ∧ SameSpace m m' d
      ∧ ∀ b, UserAddr b → m'.flat b = m.flat.store8 a c b := by
  obtain ⟨v, hv⟩ := Option.ne_none_iff_exists'.mp hp
  have hs := hr.space
  have hn := ha.page
  have hal := pteAddress_eq v
  have hdir : ∀ b, b / 0x1000 * 0x1000 = d →
      m.mem.store8 (pteAddress v + a % 0x1000) c b = m.mem b := by
    intro b hb
    have := hs.frame_ne_dir _ v hn hv
    exact Bytes.store8_of_ne (by omega)
  have htab : ∀ i < 1024, present (pdeAt m.mem d i) → ∀ b, b / 0x1000 * 0x1000 = tableAt m.mem d i →
      m.mem.store8 (pteAddress v + a % 0x1000) c b = m.mem b := by
    intro i hi hpres b hb
    have := hs.frame_ne_table _ v i hn hv hi hpres
    exact Bytes.store8_of_ne (by omega)
  have hsame : SameSpace m { m with mem := m.mem.store8 (pteAddress v + a % 0x1000) c } d :=
    ⟨rfl, fun i hi => pdeAt_congr hs.dir.aligned hi hdir, fun n hn' =>
      pteAt_congr hs.dir.aligned hn'.2 hdir (htab _ (by have := hn'.2; omega))⟩
  refine ⟨_, by rw [Machine.write8, translate_mapped hr ha hv]; rfl, hsame, fun b hb => ?_⟩
  cases hu : pteAt m.mem d (b / 0x1000) with
  | none =>
      have hne : b ≠ a := by
        rintro rfl
        exact hp hu
      rw [flat_unmapped (hr.same hsame) hb ((hsame.pte _ hb.page).trans hu),
        Bytes.store8_of_ne hne, flat_unmapped hr hb hu]
  | some u =>
      rw [flat_mapped (hr.same hsame) hb ((hsame.pte _ hb.page).trans hu)]
      simp only [Bytes.store8]
      by_cases hba : b = a
      · subst hba
        obtain rfl := Option.some.inj (hu.symm.trans hv)
        rw [if_pos rfl, if_pos rfl]
      · have hne : pteAddress u + b % 0x1000 ≠ pteAddress v + a % 0x1000 := by
          intro he
          have halu := pteAddress_eq u
          have hframe : pteAddress u = pteAddress v := by omega
          have := hs.frame_inj _ _ u v hb.page hn hu hv hframe
          omega
        rw [if_neg hne, if_neg hba, flat_mapped hr hb hu]

end Bytes

/-! ## Words -/

theorem store32_eq_store8 (mem : Bytes) (a v b : Nat) :
    mem.store32 a v b = (((mem.store8 a (BitVec.ofNat 8 v)).store8 (a + 1)
      (BitVec.ofNat 8 (v / 0x100))).store8 (a + 2) (BitVec.ofNat 8 (v / 0x10000))).store8 (a + 3)
        (BitVec.ofNat 8 (v / 0x1000000)) b := by
  simp only [Bytes.store32, Bytes.store8]
  split <;> split <;> (try split) <;> (try split) <;> (try rfl) <;> omega

theorem RangeMapped.word (hm : RangeMapped m.mem d a 4) :
    (UserAddr a ∧ UserAddr (a + 1) ∧ UserAddr (a + 2) ∧ UserAddr (a + 3))
      ∧ u32 (a + 1) = a + 1 ∧ u32 (a + 2) = a + 2 ∧ u32 (a + 3) = a + 3 := by
  obtain ⟨h₀, -⟩ := hm a (by omega) (by omega)
  obtain ⟨h₁, -⟩ := hm (a + 1) (by omega) (by omega)
  obtain ⟨h₂, -⟩ := hm (a + 2) (by omega) (by omega)
  obtain ⟨h₃, -⟩ := hm (a + 3) (by omega) (by omega)
  exact ⟨⟨h₀, h₁, h₂, h₃⟩, u32_of_lt h₁.2, u32_of_lt h₂.2, u32_of_lt h₃.2⟩

theorem read32_flat (hr : Running m d) (hm : RangeMapped m.mem d a 4) :
    m.read32 a = some (m.flat.load32 a) := by
  obtain ⟨⟨h₀, h₁, h₂, h₃⟩, e₁, e₂, e₃⟩ := hm.word
  rw [Machine.read32, e₁, e₂, e₃, read8_flat hr h₀ (hm a (by omega) (by omega)).2,
    read8_flat hr h₁ (hm (a + 1) (by omega) (by omega)).2,
    read8_flat hr h₂ (hm (a + 2) (by omega) (by omega)).2,
    read8_flat hr h₃ (hm (a + 3) (by omega) (by omega)).2]
  rfl

theorem write32_flat (hr : Running m d) (hm : RangeMapped m.mem d a 4) (v : Nat) :
    ∃ m', m.write32 a v = some m' ∧ SameSpace m m' d
      ∧ ∀ b, UserAddr b → m'.flat b = m.flat.store32 a v b := by
  obtain ⟨⟨h₀, h₁, h₂, h₃⟩, e₁, e₂, e₃⟩ := hm.word
  obtain ⟨m₀, w₀, s₀, f₀⟩ := write8_flat hr h₀ (hm a (by omega) (by omega)).2 (BitVec.ofNat 8 v)
  have hm₀ := hm.same s₀
  obtain ⟨m₁, w₁, s₁, f₁⟩ := write8_flat (hr.same s₀) h₁ (hm₀ (a + 1) (by omega) (by omega)).2
    (BitVec.ofNat 8 (v / 0x100))
  have hm₁ := hm₀.same s₁
  have hr₁ := (hr.same s₀).same s₁
  obtain ⟨m₂, w₂, s₂, f₂⟩ := write8_flat hr₁ h₂ (hm₁ (a + 2) (by omega) (by omega)).2
    (BitVec.ofNat 8 (v / 0x10000))
  have hm₂ := hm₁.same s₂
  obtain ⟨m₃, w₃, s₃, f₃⟩ := write8_flat (hr₁.same s₂) h₃ (hm₂ (a + 3) (by omega) (by omega)).2
    (BitVec.ofNat 8 (v / 0x1000000))
  refine ⟨m₃, ?_, ((s₀.trans s₁).trans s₂).trans s₃, fun b hb => ?_⟩
  · simp only [Machine.write32, e₁, e₂, e₃, w₀, w₁, w₂, w₃, Option.bind_eq_bind, Option.bind_some]
  · rw [store32_eq_store8, f₃ b hb]
    simp only [Bytes.store8]
    rw [f₂ b hb]
    simp only [Bytes.store8]
    rw [f₁ b hb]
    simp only [Bytes.store8]
    rw [f₀ b hb]
    rfl

/-! ## Pages that come and go -/

/-- How many page tables are missing for the pages from `n` on. -/
def tablesMissing (mem : Bytes) (d n count : Nat) : Nat :=
  ((Finset.range 1024).filter fun i =>
    ¬ present (pdeAt mem d i) ∧ n / 1024 ≤ i ∧ 1024 * i < n + count).card

/-- The pages from `n` on have got new frames; the rest is as it was. -/
structure Remapped (m m' : Machine) (d n count : Nat) : Prop where
  space : SpaceOk m' d
  cr3 : m'.cr3 = m.cr3
  start : m'.info.start = m.info.start
  bitSize : m'.info.bitmap.bitSize = m.info.bitmap.bitSize
  inside : ∀ k, n ≤ k → k < n + count → pteAt m'.mem d k ≠ none
  outside : ∀ k < 0x100000, k < n ∨ n + count ≤ k → pteAt m'.mem d k = pteAt m.mem d k
  frame : ∀ k u x, UserPage k → (k < n ∨ n + count ≤ k) → pteAt m.mem d k = some u → x < 0x1000 →
    m'.mem (pteAddress u + x) = m.mem (pteAddress u + x)

section Remap

variable {m₁ : Machine} {n j perm count index : Nat}

/-- A page that is mapped brings its table with it. -/
theorem tablesMissing_eq (hg : Grown m m₁ d n j perm) : tablesMissing m.mem d n (count + 1)
    = tablesMissing m₁.mem d (n + 1) count
      + if present (pdeAt m.mem d (n / 1024)) then 0 else 1 := by
  have hi : n / 1024 < 1024 := by
    have := hg.user.2
    omega
  -- the other tables that are missing stay missing
  have hmem : ∀ i, i ∈ ((Finset.range 1024).filter fun i => ¬ present (pdeAt m₁.mem d i)
        ∧ (n + 1) / 1024 ≤ i ∧ 1024 * i < n + 1 + count)
      ↔ i ≠ n / 1024 ∧ i ∈ ((Finset.range 1024).filter fun i => ¬ present (pdeAt m.mem d i)
        ∧ n / 1024 ≤ i ∧ 1024 * i < n + (count + 1)) := by
    intro i
    rcases eq_or_ne i (n / 1024) with rfl | hne
    · simp [hg.mapped.pde_present]
    · rw [Finset.mem_filter, Finset.mem_filter, Finset.mem_range, and_iff_right hne]
      refine and_congr_right fun hlt => ?_
      rw [hg.mapped.pde i hlt hne]
      exact and_congr_right fun _ => by omega
  have herase : ((Finset.range 1024).filter fun i => ¬ present (pdeAt m₁.mem d i)
        ∧ (n + 1) / 1024 ≤ i ∧ 1024 * i < n + 1 + count)
      = ((Finset.range 1024).filter fun i => ¬ present (pdeAt m.mem d i)
        ∧ n / 1024 ≤ i ∧ 1024 * i < n + (count + 1)).erase (n / 1024) :=
    Finset.ext fun i => (hmem i).trans Finset.mem_erase.symm
  rw [tablesMissing, tablesMissing, herase]
  by_cases hp : present (pdeAt m.mem d (n / 1024))
  · rw [if_pos hp, Finset.erase_eq_of_notMem (by simp [hp])]
    exact (Nat.add_zero _).symm
  · rw [if_neg hp, Finset.card_erase_add_one]
    exact Finset.mem_filter.mpr ⟨Finset.mem_range.mpr hi, hp, Nat.le_refl _, by omega⟩

/-- The loop of `alloc_task_pages` succeeds when there are enough pages
for the frames and for the tables that are missing. -/
theorem allocTaskPagesLoop_enough (hs : SpaceOk m d) (hbase : vmTaskBase ≤ index)
    (hlim : index + count * 0x1000 ≤ 2 ^ 32) (hperm : perm < 0x1000)
    (hneed : count + tablesMissing m.mem d (index / 0x1000) count ≤ m.info.freePages) :
    ∃ m', allocTaskPagesLoop m d index perm count = (m', 0)
      ∧ Remapped m m' d (index / 0x1000) count := by
  induction count generalizing m index with
  | zero =>
      exact ⟨m, rfl, hs, rfl, rfl, rfl, fun k _ _ => by omega, fun _ _ _ => rfl,
        fun _ _ _ _ _ _ _ => rfl⟩
  | succ count ih =>
      have hbase' : 0x40000000 ≤ index := hbase
      have hn : UserPage (index / 0x1000) := by
        constructor <;> omega
      rcases memory32AllocPage_one hs.info with ⟨-, hall⟩ | ⟨j, hj, hfree, heq⟩
      · have := Memory32Info.freePages_eq_zero hall
        omega
      have hne : m.info.page j ≠ 0 := by
        have := hfree.pos hs.info
        omega
      rcases hs.mapPage hj hfree hn hperm rfl with ⟨m₁, hmap, hg⟩ | ⟨-, habs, hfew⟩
      case inr =>
        have hmem : index / 0x1000 / 1024 ∈ (Finset.range 1024).filter fun i =>
            ¬ present (pdeAt m.mem d i) ∧ index / 0x1000 / 1024 ≤ i
              ∧ 1024 * i < index / 0x1000 + (count + 1) :=
          Finset.mem_filter.mpr ⟨Finset.mem_range.mpr (by omega), habs, Nat.le_refl _, by omega⟩
        have hpos : 0 < tablesMissing m.mem d (index / 0x1000) (count + 1) :=
          Finset.card_pos.mpr ⟨_, hmem⟩
        omega
      have hstep := @tablesMissing_eq m d m₁ _ j perm count hg
      have hs₁ := hs.map hg
      have hnext : count = 0 ∨ u32 (index + 0x1000) = index + 0x1000 := by
        rw [u32]
        omega
      have hpage : (index + 0x1000) / 0x1000 = index / 0x1000 + 1 := by omega
      have hleft : count + tablesMissing m₁.mem d (index / 0x1000 + 1) count
          ≤ m₁.info.freePages := by
        have hpages := hg.freePages_eq hs
        omega
      obtain ⟨m', hrun, hrest⟩ := @ih m₁ (index + 0x1000) hs₁ (Nat.le_add_right_of_le hbase)
        (by omega) (by rw [hpage]; exact hleft)
      have hloop : allocTaskPagesLoop m d index perm (count + 1) = (m', 0) := by
        rw [allocTaskPagesLoop]
        simp only [heq, if_neg hne, hmap, Int.lt_irrefl, if_false]
        rcases hnext with rfl | hnext
        · rw [allocTaskPagesLoop] at hrun ⊢
          exact hrun
        · rw [hnext]
          exact hrun
      rw [hpage] at hrest
      refine ⟨m', hloop, hrest.space, hrest.cr3.trans hg.mapped.cr3,
        hrest.start.trans hg.mapped.start, ?_, fun k hk hk' => ?_, fun k hk hout => ?_,
        fun k u x hk hout hu hx => ?_⟩
      · rw [hrest.bitSize, hg.mapped.bitSize, Memory32Info.setPage_bitSize]
      · by_cases hk₁ : k = index / 0x1000
        · rw [hrest.outside k (by omega) (by omega), hg.mapped.pte k (by omega), if_pos hk₁]
          exact Option.some_ne_none _
        · exact hrest.inside k (by omega) (by omega)
      · rw [hrest.outside k hk (by omega), hg.mapped.pte k hk, if_neg (by omega)]
      · have hu₁ : pteAt m₁.mem d k = some u := by
          rw [hg.mapped.pte k hk.2, if_neg (by omega), hu]
        rw [hrest.frame k u x hk (by omega) hu₁ hx, hg.frame hs hk hu hx]

/-- Addresses outside the new pages read as before. -/
theorem Remapped.flat (hr : Running m d) (h : Remapped m m' d n count) (hb : UserAddr b)
    (hout : b / 0x1000 < n ∨ n + count ≤ b / 0x1000) : m'.flat b = m.flat b := by
  have hr' : Running m' d := ⟨h.space, h.cr3.trans hr.active⟩
  refine flat_congr hr hr' hb (h.outside _ hb.page.2 hout) fun u hu => ?_
  exact h.frame _ u _ hb.page hout hu (Nat.mod_lt _ (by decide))

end Remap

/-- The page `n` is not mapped any more; the rest is as it was. -/
structure Unmapped (m m' : Machine) (d n : Nat) : Prop where
  space : SpaceOk m' d
  info : m'.info = m.info
  cr3 : m'.cr3 = m.cr3
  outside : ∀ k, UserPage k → k ≠ n → pteAt m'.mem d k = pteAt m.mem d k
  frame : ∀ k u x, UserPage k → pteAt m.mem d k = some u → x < 0x1000 →
    m'.mem (pteAddress u + x) = m.mem (pteAddress u + x)

section Unmap

variable {n : Nat}

theorem Unmapped.flat (hr : Running m d) (h : Unmapped m m' d n) (hb : UserAddr b)
    (hout : b / 0x1000 ≠ n) : m'.flat b = m.flat b := by
  have hr' : Running m' d := ⟨h.space, h.cr3.trans hr.active⟩
  refine flat_congr hr hr' hb (h.outside _ hb.page hout) fun u hu => ?_
  exact h.frame _ u _ hb.page hu (Nat.mod_lt _ (by decide))

/-- `memory32_free_page` does nothing for an address that is not one of
the allocator's pages. -/
theorem memory32FreePage_outside {info : Memory32Info} (hi : info.Ok) {addr : Nat}
    (haddr : addr < 0x100000000)
    (hout : addr < info.start ∨ info.page info.bitmap.bitSize ≤ addr) :
    memory32FreePage info addr 1 = info := by
  have hlim := hi.limit
  have hidx : info.bitmap.bitSize ≤ u32 (addr + 0x100000000 - info.start) / info.pageSize := by
    rw [hi.pageSize, u32]
    simp only [Memory32Info.page] at hlim hout
    omega
  rw [memory32FreePage, bitmapSetBits_one_of_le hidx]

/-- `free_page` from `VM_SHELL_BASE` on hands the allocator the index of
the entry, which is the address of no page, and clears the entry. -/
theorem freePage_high (hs : SpaceOk m d) (hn : UserPage n) (hhigh : vmShellBase ≤ n * 0x1000)
    (hrun : freePage m d (n * 0x1000) = some m') :
    present (pdeAt m.mem d (n / 1024)) ∧ m' = { m with
      mem := m.mem.store32 (tableAt m.mem d (n / 1024) + 4 * (n % 1024)) 0 } := by
  obtain ⟨hlo, hhi⟩ := id hn
  have hpage : n * 0x1000 / 0x1000 = n := by omega
  have hstart := hs.info.start_pos
  have haligned := hs.info.aligned
  have hsmall : ∀ p, pteIndex p < m.info.start := by
    intro p
    rw [pteIndex_eq]
    omega
  rw [freePage] at hrun
  simp only [if_neg (Nat.not_lt.mpr hhigh)] at hrun
  rw [memory32FreePage_outside hs.info ((hsmall _).trans_le (by
    have := hs.info.limit
    simp only [Memory32Info.page] at this
    omega)) (Or.inl (hsmall _))] at hrun
  simp only [findPte_false, hpage] at hrun
  by_cases hp : present (pdeAt m.mem d (n / 1024))
  case neg =>
    rw [if_neg hp] at hrun
    cases hrun
  case pos =>
    rw [if_pos hp] at hrun
    split at hrun
    case isTrue => cases hrun
    case isFalse => exact ⟨hp, (Option.some.inj hrun).symm⟩

theorem pteAt_clear {k : Nat} (hs : SpaceOk m d) (hn : UserPage n)
    (hp : present (pdeAt m.mem d (n / 1024))) (hk : k < 0x100000) :
    pteAt (m.mem.store32 (tableAt m.mem d (n / 1024) + 4 * (n % 1024)) 0) d k
      = if k = n then none else pteAt m.mem d k := by
  obtain ⟨hlo, hhi⟩ := hn
  have hsplit : 1024 * (n / 1024) + n % 1024 = n := by omega
  rw [pteAt_writePte hs.dir (by omega) hp (Nat.mod_lt _ (by decide)) (by decide) hk, hsplit]
  rfl

theorem SpaceOk.clear (hs : SpaceOk m d) (hn : UserPage n)
    (hp : present (pdeAt m.mem d (n / 1024))) : SpaceOk { m with
      mem := m.mem.store32 (tableAt m.mem d (n / 1024) + 4 * (n % 1024)) 0 } d := by
  have hi : n / 1024 < 1024 := by
    have := hn.2
    omega
  refine hs.congr rfl (fun i hi' => pdeAt_writePte hs.dir hi hp (Nat.mod_lt _ (by decide)) hi')
    fun k v hk hv => ?_
  rw [pteAt_clear hs hn hp hk.2] at hv
  split at hv
  case isTrue => cases hv
  case isFalse => exact hv

/-- `free_page` with a user address only unmaps: below `VM_SHELL_BASE` it
takes the address for a physical one, and above it hands the allocator
the index of the entry. -/
theorem freePage_user (hr : Running m d) (hlimit : m.info.page m.info.bitmap.bitSize ≤ pmExtLimit)
    (hn : UserPage n) (hrun : freePage m d (n * 0x1000) = some m') : Unmapped m m' d n := by
  have hs := hr.space
  obtain ⟨hlo, hhi⟩ := id hn
  have hlimit' : m.info.page m.info.bitmap.bitSize ≤ 0x2000000 := hlimit
  by_cases hlow : n * 0x1000 < vmShellBase
  case pos =>
    rw [freePage, if_pos hlow, memory32FreePage_outside hs.info (by omega) (Or.inr (by omega))]
      at hrun
    obtain rfl : m = m' := Option.some.inj hrun
    exact ⟨hs, rfl, rfl, fun _ _ _ => rfl, fun _ _ _ _ _ _ => rfl⟩
  case neg =>
    obtain ⟨hp, rfl⟩ := freePage_high hs hn (Nat.le_of_not_lt hlow) hrun
    refine ⟨hs.clear hn hp, rfl, rfl, fun k hk hne => ?_, fun k u x hk hu hx => ?_⟩
    · dsimp only
      rw [pteAt_clear hs hn hp hk.2, if_neg hne]
    · have hal := tableAt_aligned m.mem d (n / 1024)
      have halu := pteAddress_eq u
      have hne := hs.frame_ne_table k u (n / 1024) hk hu (by omega) hp
      exact Bytes.store32_outside (by omega)

end Unmap

end Csos
