import Csos.AddressSpace

/-!
# Pages for a task (`memory32_alloc_task_pages`)

The loop takes a page for the frame, and one more when there is no table
for it yet. `PagesMapped` says what has become of a directory when the
pages of a set have been mapped. It holds of one page (`PagesMapped.page`)
and composes (`PagesMapped.trans`), so it holds of every run of the loop,
also of one that ends early or goes around (`allocTaskPagesLoop_run`).

A directory is well formed here, and none of its tables lies at address
0: `find_pte` returns the address of an entry, and this one would be NULL.
-/

namespace Csos

open Lib

/-- The virtual pages that the bytes from `a` up to `b` lie in. -/
def InPages (a b n : Nat) : Prop := a / 0x1000 ≤ n ∧ n * 0x1000 < b

/-- No table lies at address 0. -/
def TablesNeZero (mem : Bytes) (d : Nat) : Prop :=
  ∀ i < 1024, present (pdeAt mem d i) → tableAt mem d i ≠ 0

/-- The pages `R` were mapped in `d`, to frames and with tables that were free. -/
structure PagesMapped (m m' : Machine) (d : Nat) (R : Nat → Prop) (perm : Nat) : Prop where
  info : m'.info.Ok
  start : m'.info.start = m.info.start
  bitSize : m'.info.bitmap.bitSize = m.info.bitmap.bitSize
  cr3 : m'.cr3 = m.cr3
  kernelPde : m'.kernelPde = m.kernelPde
  dir : DirOk m'.mem m'.info d
  tables : TablesNeZero m'.mem d
  /-- A page of `R` is present, with a frame that was free. -/
  inside : ∀ n < 0x100000, R n → ∃ v, pteAt m'.mem d n = some v ∧ v % 0x1000 = perm ||| 1
    ∧ m.info.Free (pteAddress v) ∧ ¬ m'.info.Free (pteAddress v)
  outside : ∀ n < 0x100000, ¬ R n → pteAt m'.mem d n = pteAt m.mem d n
  table_old : ∀ i < 1024, present (pdeAt m.mem d i) → pdeAt m'.mem d i = pdeAt m.mem d i
  table_new : ∀ i < 1024, ¬ present (pdeAt m.mem d i) → present (pdeAt m'.mem d i) →
    m.info.Free (tableAt m'.mem d i) ∧ ∃ n < 0x100000, R n ∧ n / 1024 = i
  frame_inj : ∀ n < 0x100000, ∀ n' < 0x100000, ∀ v v', R n → R n' → pteAt m'.mem d n = some v →
    pteAt m'.mem d n' = some v' → pteAddress v = pteAddress v' → n = n'
  frame_ne_table : ∀ n < 0x100000, ∀ v, R n → pteAt m'.mem d n = some v → ∀ i < 1024,
    present (pdeAt m'.mem d i) → pteAddress v ≠ tableAt m'.mem d i
  free : ∀ q, m'.info.Free q → m.info.Free q
  /-- Only the directory and its tables are written. -/
  mem : ∀ b, b / 0x1000 * 0x1000 ≠ d →
    (∀ i < 1024, present (pdeAt m'.mem d i) → b / 0x1000 * 0x1000 ≠ tableAt m'.mem d i) →
    m'.mem b = m.mem b

namespace PagesMapped

variable {m m₁ m' : Machine} {d n j perm : Nat} {R R₁ R₂ : Nat → Prop}

theorem refl (hinfo : m.info.Ok) (hd : DirOk m.mem m.info d) (hz : TablesNeZero m.mem d) :
    PagesMapped m m d (fun _ => False) perm := by
  constructor
  case info => exact hinfo
  case start => rfl
  case bitSize => rfl
  case cr3 => rfl
  case kernelPde => rfl
  case dir => exact hd
  case tables => exact hz
  case inside => exact fun _ _ h => h.elim
  case outside => exact fun _ _ _ => rfl
  case table_old => exact fun _ _ _ => rfl
  case table_new => exact fun _ _ h h' => absurd h' h
  case frame_inj => exact fun _ _ _ _ _ _ h => h.elim
  case frame_ne_table => exact fun _ _ _ h => h.elim
  case free => exact fun _ h => h
  case mem => exact fun _ _ _ => rfl

theorem congr (h : PagesMapped m m' d R perm) (hR : ∀ n, R₁ n ↔ R n) :
    PagesMapped m m' d R₁ perm := by
  obtain rfl : R₁ = R := funext fun n => propext (hR n)
  exact h

/-- The table of a page that is present then. -/
theorem table_eq (h : PagesMapped m m' d R perm) {i : Nat} (hi : i < 1024)
    (hp : present (pdeAt m.mem d i)) :
    present (pdeAt m'.mem d i) ∧ tableAt m'.mem d i = tableAt m.mem d i := by
  have := h.table_old i hi hp
  exact ⟨by rwa [this], by rw [tableAt, this, ← tableAt]⟩

/-- A page that was free and has not been mapped may get lost. -/
theorem leak (h : PagesMapped m m' d R perm) {info' : Memory32Info} (hinfo : info'.Ok)
    (hs : info'.start = m'.info.start) (hb : info'.bitmap.bitSize = m'.info.bitmap.bitSize)
    (hf : ∀ q, info'.Free q → m'.info.Free q) :
    PagesMapped m { m' with info := info' } d R perm := by
  constructor
  case info => exact hinfo
  case start => exact hs.trans h.start
  case bitSize => exact hb.trans h.bitSize
  case cr3 => exact h.cr3
  case kernelPde => exact h.kernelPde
  case dir => exact h.dir.congr (fun _ _ => rfl) hf
  case tables => exact h.tables
  case inside =>
    intro n hn hR
    obtain ⟨v, hv, hperm, hfree, hused⟩ := h.inside n hn hR
    exact ⟨v, hv, hperm, hfree, fun hq => hused (hf _ hq)⟩
  case outside => exact h.outside
  case table_old => exact h.table_old
  case table_new => exact h.table_new
  case frame_inj => exact h.frame_inj
  case frame_ne_table => exact h.frame_ne_table
  case free => exact fun q hq => h.free q (hf q hq)
  case mem => exact h.mem

/-- One set of pages after the other. A page of both has the second frame. -/
theorem trans (h₁ : PagesMapped m m₁ d R₁ perm) (h₂ : PagesMapped m₁ m' d R₂ perm) :
    PagesMapped m m' d (fun n => R₁ n ∨ R₂ n) perm := by
  -- what a page of `R₁` or `R₂` is after the second step
  have hpage : ∀ n < 0x100000, ∀ v, R₁ n ∨ R₂ n → pteAt m'.mem d n = some v →
      (R₂ n ∧ m₁.info.Free (pteAddress v))
      ∨ (R₁ n ∧ pteAt m₁.mem d n = some v ∧ ¬ m₁.info.Free (pteAddress v)) := by
    intro n hn v hR hv
    by_cases hR₂ : R₂ n
    · obtain ⟨v', hv', -, hfree, -⟩ := h₂.inside n hn hR₂
      obtain rfl := Option.some.inj (hv.symm.trans hv')
      exact Or.inl ⟨hR₂, hfree⟩
    · have hR₁ := hR.resolve_right hR₂
      rw [h₂.outside n hn hR₂] at hv
      obtain ⟨v', hv', -, -, hused⟩ := h₁.inside n hn hR₁
      obtain rfl := Option.some.inj (hv.symm.trans hv')
      exact Or.inr ⟨hR₁, hv, hused⟩
  constructor
  case info => exact h₂.info
  case start => exact h₂.start.trans h₁.start
  case bitSize => exact h₂.bitSize.trans h₁.bitSize
  case cr3 => exact h₂.cr3.trans h₁.cr3
  case kernelPde => exact h₂.kernelPde.trans h₁.kernelPde
  case dir => exact h₂.dir
  case tables => exact h₂.tables
  case inside =>
    intro n hn hR
    by_cases hR₂ : R₂ n
    · obtain ⟨v, hv, hperm, hfree, hused⟩ := h₂.inside n hn hR₂
      exact ⟨v, hv, hperm, h₁.free _ hfree, hused⟩
    · obtain ⟨v, hv, hperm, hfree, hused⟩ := h₁.inside n hn (hR.resolve_right hR₂)
      exact ⟨v, by rw [h₂.outside n hn hR₂, hv], hperm, hfree, fun hq => hused (h₂.free _ hq)⟩
  case outside =>
    intro n hn hR
    rw [not_or] at hR
    rw [h₂.outside n hn hR.2, h₁.outside n hn hR.1]
  case table_old =>
    intro i hi hp
    rw [h₂.table_old i hi (h₁.table_eq hi hp).1, h₁.table_old i hi hp]
  case table_new =>
    intro i hi hp hp'
    by_cases hmid : present (pdeAt m₁.mem d i)
    · obtain ⟨hfree, n, hn, hR, hin⟩ := h₁.table_new i hi hp hmid
      rw [(h₂.table_eq hi hmid).2]
      exact ⟨hfree, n, hn, Or.inl hR, hin⟩
    · obtain ⟨hfree, n, hn, hR, hin⟩ := h₂.table_new i hi hmid hp'
      exact ⟨h₁.free _ hfree, n, hn, Or.inr hR, hin⟩
  case frame_inj =>
    intro n hn n' hn' v v' hR hR' hv hv' he
    rcases hpage n hn v hR hv with ⟨hR₂, hfree⟩ | ⟨hR₁, hold, hused⟩ <;>
      rcases hpage n' hn' v' hR' hv' with ⟨hR₂', hfree'⟩ | ⟨hR₁', hold', hused'⟩
    · exact h₂.frame_inj n hn n' hn' v v' hR₂ hR₂' hv hv' he
    · exact absurd (he ▸ hfree) hused'
    · exact absurd (he ▸ hfree') hused
    · exact h₁.frame_inj n hn n' hn' v v' hR₁ hR₁' hold hold' he
  case frame_ne_table =>
    intro n hn v hR hv i hi hp
    rcases hpage n hn v hR hv with ⟨hR₂, -⟩ | ⟨hR₁, hold, hused⟩
    · exact h₂.frame_ne_table n hn v hR₂ hv i hi hp
    · by_cases hmid : present (pdeAt m₁.mem d i)
      · rw [(h₂.table_eq hi hmid).2]
        exact h₁.frame_ne_table n hn v hR₁ hold i hi hmid
      · exact fun he => hused (he ▸ (h₂.table_new i hi hmid hp).1)
  case free => exact fun q hq => h₁.free q (h₂.free q hq)
  case mem =>
    intro b hb htable
    rw [h₂.mem b hb htable]
    refine h₁.mem b hb fun i hi hp => ?_
    obtain ⟨hp', he⟩ := h₂.table_eq hi hp
    rw [← he]
    exact htable i hi hp'

/-- One page. -/
theorem page (hinfo : m.info.Ok) (hd : DirOk m.mem m.info d) (hz : TablesNeZero m.mem d)
    (hn : n < 0x100000) (hperm : perm < 0x1000) (hj : j < m.info.bitmap.bitSize)
    (hfree : m.info.Free (m.info.page j))
    (hm : Mapped { m with info := m.info.setPage j true } m' d n (m.info.page j ||| perm ||| 1)) :
    PagesMapped m m' d (fun n' => n' = n) perm := by
  have hal := hfree.aligned hinfo
  have haddr : pteAddress (m.info.page j ||| perm ||| 1) = m.info.page j :=
    pteAddress_entry hal hperm
  have hself : pteAt m'.mem d n = some (m.info.page j ||| perm ||| 1) := by
    rw [hm.pte n hn, if_pos rfl]
  have hi : n / 1024 < 1024 := by omega
  have hset := fun q => @Memory32Info.free_setPage m.info q j hj
  -- the tables are old, or the one for `n`
  have htable : ∀ i < 1024, present (pdeAt m'.mem d i) →
      (present (pdeAt m.mem d i) ∧ tableAt m'.mem d i = tableAt m.mem d i)
        ∨ (i = n / 1024 ∧ m.info.Free (tableAt m'.mem d i)
          ∧ tableAt m'.mem d i ≠ m.info.page j) := by
    intro i hi hp
    by_cases hin : i = n / 1024
    · subst hin
      by_cases hold : present (pdeAt m.mem d (n / 1024))
      · exact Or.inl ⟨hold, by rw [tableAt, hm.pde_old hold, ← tableAt]⟩
      · have hfresh := (hset _).mp (hm.table_fresh hold)
        exact Or.inr ⟨rfl, hfresh.1, hfresh.2⟩
    · have hpde := hm.pde i hi hin
      rw [hpde] at hp
      exact Or.inl ⟨hp, by rw [tableAt, hpde, ← tableAt]⟩
  constructor
  case info => exact hm.info
  case start => exact hm.start
  case bitSize => exact hm.bitSize.trans (Memory32Info.setPage_bitSize true)
  case cr3 => exact hm.cr3
  case kernelPde => exact hm.kernelPde
  case dir => exact hm.dir
  case tables =>
    intro i hi hp
    rcases htable i hi hp with ⟨hold, he⟩ | ⟨-, hfresh, -⟩
    · rw [he]
      exact hz i hi hold
    · exact (hfresh.pos hinfo).ne'
  case inside =>
    rintro n' hn' rfl
    refine ⟨_, hself, entry_mod hal hperm, by rwa [haddr], ?_⟩
    rw [haddr, hm.free, hset]
    exact fun h => h.1.2 rfl
  case outside =>
    intro n' hn' hne
    rw [hm.pte n' hn', if_neg hne]
  case table_old =>
    intro i hi hp
    by_cases hin : i = n / 1024
    · subst hin
      exact hm.pde_old hp
    · exact hm.pde i hi hin
  case table_new =>
    intro i hi hp hp'
    rcases htable i hi hp' with ⟨hold, -⟩ | ⟨rfl, hfresh, -⟩
    · exact absurd hold hp
    · exact ⟨hfresh, n, hn, rfl, rfl⟩
  case frame_inj =>
    rintro n₁ - n₂ - - - rfl rfl - - -
    rfl
  case frame_ne_table =>
    rintro n' hn' v rfl hv i hi hp
    obtain rfl := Option.some.inj (hv.symm.trans hself)
    rw [haddr]
    rcases htable i hi hp with ⟨hold, he⟩ | ⟨-, -, hne⟩
    · rw [he]
      exact fun hq => hd.table_used i hi hold (hq ▸ hfree)
    · exact hne.symm
  case free => exact fun q hq => ((hset q).mp ((hm.free q).mp hq).1).1
  case mem => exact fun b hb ht => hm.mem b hb (ht _ hi hm.pde_present)

end PagesMapped

/-! ## The loop -/

section Loop

variable {m : Machine} {d index perm n count : Nat}

/-- A round: the page is mapped, or there are no pages left. A page costs one for its frame and one
for a table that is missing. -/
theorem allocTaskPagesLoop_round (hinfo : m.info.Ok) (hd : DirOk m.mem m.info d)
    (hz : TablesNeZero m.mem d) (hidx : index < 2 ^ 32) (hperm : perm < 0x1000) :
    (∃ m₁, allocTaskPagesLoop m d index perm (count + 1)
        = allocTaskPagesLoop m₁ d (u32 (index + 0x1000)) perm count
      ∧ PagesMapped m m₁ d (fun n => n = index / 0x1000) perm
      ∧ m.info.freePages = m₁.info.freePages + 1
        + if present (pdeAt m.mem d (index / 0x400000)) then 0 else 1)
    ∨ ∃ m₁, allocTaskPagesLoop m d index perm (count + 1) = (m₁, -1)
      ∧ PagesMapped m m₁ d (fun _ => False) perm ∧ (∀ p, ¬ m₁.info.Free p)
      ∧ m.info.freePages ≤ if present (pdeAt m.mem d (index / 0x400000)) then 0 else 1 := by
  have hrefl := @PagesMapped.refl m d perm hinfo hd hz
  rw [allocTaskPagesLoop]
  rcases memory32AllocPage_one hinfo with ⟨heq, hall⟩ | ⟨j, hj, hfree, heq⟩
  · simp only [heq, if_true]
    exact Or.inr ⟨m, rfl, hrefl, hall, by
      rw [Memory32Info.freePages_eq_zero hall]
      exact Nat.zero_le _⟩
  have hpos := hfree.pos hinfo
  have hset := fun q => @Memory32Info.free_setPage m.info q j hj
  let m₀ : Machine := { m with info := m.info.setPage j true }
  have hleak : PagesMapped m m₀ d (fun _ => False) perm :=
    hrefl.leak (hinfo.setPage j true) rfl (Memory32Info.setPage_bitSize true)
      fun q hq => ((hset q).mp hq).1
  have hframe : m.info.freePages = m₀.info.freePages + 1 :=
    Memory32Info.freePages_take rfl hfree hset
  simp only [heq, if_neg hpos.ne']
  have hal := hfree.aligned hinfo
  have hfits := hfree.fits hinfo
  have hdiv : index / 0x1000 / 1024 = index / 0x400000 := by omega
  rcases @createMap_one m₀ d index (m.info.page j) perm (hinfo.setPage j true) hleak.dir hidx hal
      (by omega) hperm with ⟨hpte, hmap⟩ | ⟨m₁, hmap, hm⟩
  · rw [hmap]
    simp only [show (-1 : Int) < 0 by decide, if_true]
    rcases @findPte_cases m₀ d index hleak.info with ⟨hp, hfind⟩ | ⟨habs, hall, hfind⟩ |
      ⟨-, k, hk, hkfree, hfind⟩
    · rw [hfind] at hpte
      have := hleak.tables _ (by omega) hp
      dsimp only at hpte
      omega
    · rw [hfind]
      refine Or.inr ⟨m₀, rfl, hleak, hall, ?_⟩
      rw [hframe, Memory32Info.freePages_eq_zero hall, if_neg habs]
    · rw [hfind] at hpte
      have := hkfree.pos hleak.info
      dsimp only at hpte
      omega
  · rw [hmap]
    simp only [Int.lt_irrefl, if_false]
    have htable : m₀.info.freePages = m₁.info.freePages
        + if present (pdeAt m.mem d (index / 0x400000)) then 0 else 1 := by
      rw [← hdiv]
      split
      case isTrue hp =>
        have hold : tableAt m₁.mem d (index / 0x1000 / 1024)
            = tableAt m₀.mem d (index / 0x1000 / 1024) := by
          rw [tableAt, hm.pde_old hp, ← tableAt]
        refine (Memory32Info.freePages_congr hm.start fun q => ?_).symm
        rw [hm.free, hold]
        exact and_iff_left_of_imp fun hq he =>
          hleak.dir.table_used _ (by omega) hp (he ▸ hq)
      case isFalse hp => exact Memory32Info.freePages_take hm.start (hm.table_fresh hp) hm.free
    exact Or.inl ⟨m₁, rfl, .page hinfo hd hz (by omega) hperm hj hfree hm, by omega⟩

/-- The pages of `count` rounds from `index` on. They go around the end of the addresses. -/
def PageRun (index count n : Nat) : Prop := ∃ k < count, n = u32 (index + 0x1000 * k) / 0x1000

/-- The tables that are missing for them. -/
def tablesFor (mem : Bytes) (d index count : Nat) : Finset Nat :=
  (Finset.range 1024).filter fun i =>
    ¬ present (pdeAt mem d i) ∧ ∃ k < count, i = u32 (index + 0x1000 * k) / 0x400000

theorem u32_round (k : Nat) :
    u32 (u32 (index + 0x1000) + 0x1000 * k) = u32 (index + 0x1000 * (k + 1)) := by
  simp only [u32]
  omega

theorem pageRun_succ (hidx : index < 2 ^ 32) {n' : Nat} : PageRun index (count + 1) n'
    ↔ n' = index / 0x1000 ∨ PageRun (u32 (index + 0x1000)) count n' := by
  constructor
  · rintro ⟨k, hk, rfl⟩
    cases k with
    | zero =>
        left
        rw [Nat.mul_zero, Nat.add_zero, u32_of_lt hidx]
    | succ k => exact Or.inr ⟨k, by omega, by rw [u32_round]⟩
  · rintro (rfl | ⟨k, hk, rfl⟩)
    · exact ⟨0, by omega, by rw [Nat.mul_zero, Nat.add_zero, u32_of_lt hidx]⟩
    · exact ⟨k + 1, by omega, by rw [u32_round]⟩

theorem tablesFor_succ {m₁ : Machine} (hidx : index < 2 ^ 32)
    (h : PagesMapped m m₁ d (fun n => n = index / 0x1000) perm) :
    (tablesFor m.mem d index (count + 1)).card
      = (tablesFor m₁.mem d (u32 (index + 0x1000)) count).card
        + if present (pdeAt m.mem d (index / 0x400000)) then 0 else 1 := by
  have hlt : index / 0x400000 < 1024 := by omega
  have hdiv : index / 0x1000 / 1024 = index / 0x400000 := by omega
  have hfirst : u32 (index + 0x1000 * 0) / 0x400000 = index / 0x400000 := by
    rw [Nat.mul_zero, Nat.add_zero, u32_of_lt hidx]
  obtain ⟨v, hv, -⟩ := h.inside (index / 0x1000) (by omega) rfl
  have hself := (pteAt_eq_some hv).1
  rw [hdiv] at hself
  -- the other tables that are missing stay missing
  have hother : ∀ i < 1024, i ≠ index / 0x400000 →
      (present (pdeAt m₁.mem d i) ↔ present (pdeAt m.mem d i)) := by
    intro i hi hne
    refine ⟨fun hp => ?_, fun hp => (h.table_eq hi hp).1⟩
    by_contra habs
    obtain ⟨-, n, -, rfl, hn⟩ := h.table_new i hi habs hp
    exact hne (hn.symm.trans hdiv)
  have herase : tablesFor m₁.mem d (u32 (index + 0x1000)) count
      = (tablesFor m.mem d index (count + 1)).erase (index / 0x400000) := by
    refine Finset.ext fun i => ?_
    rw [Finset.mem_erase, tablesFor, tablesFor, Finset.mem_filter, Finset.mem_filter,
      Finset.mem_range]
    constructor
    · rintro ⟨hi, habs, k, hk, he⟩
      have hne : i ≠ index / 0x400000 := by
        rintro rfl
        exact habs hself
      exact ⟨hne, hi, mt (hother i hi hne).mpr habs, k + 1, by omega, by rw [he, u32_round]⟩
    · rintro ⟨hne, hi, habs, k, hk, he⟩
      refine ⟨hi, mt (hother i hi hne).mp habs, ?_⟩
      cases k with
      | zero => exact absurd (he.trans hfirst) hne
      | succ k => exact ⟨k, by omega, by rw [he, u32_round]⟩
  rw [herase]
  split
  case isTrue hp =>
    rw [Finset.erase_eq_of_notMem fun hmem => (Finset.mem_filter.mp hmem).2.1 hp]
    exact (Nat.add_zero _).symm
  case isFalse hp =>
    refine (Finset.card_erase_add_one (Finset.mem_filter.mpr
      ⟨Finset.mem_range.mpr hlt, hp, 0, by omega, hfirst.symm⟩)).symm

/-- What the loop has done when it ends: the first `k` pages are mapped, all of them or all that
there was room for, and it is known beforehand which. -/
theorem allocTaskPagesLoop_run (hinfo : m.info.Ok) (hd : DirOk m.mem m.info d)
    (hz : TablesNeZero m.mem d) (hperm : perm < 0x1000) (hidx : index < 2 ^ 32) :
    ∃ k ≤ count, PagesMapped m (allocTaskPagesLoop m d index perm count).1 d
        (PageRun index k) perm
      ∧ ((allocTaskPagesLoop m d index perm count).2 = 0 ∧ k = count
          ∧ m.info.freePages = (allocTaskPagesLoop m d index perm count).1.info.freePages
            + (count + (tablesFor m.mem d index count).card)
        ∨ (allocTaskPagesLoop m d index perm count).2 = -1
          ∧ (∀ p, ¬ (allocTaskPagesLoop m d index perm count).1.info.Free p)
          ∧ m.info.freePages < count + (tablesFor m.mem d index count).card) := by
  induction count generalizing m index with
  | zero =>
      have hnone : ∀ n', PageRun index 0 n' ↔ False :=
        fun n' => iff_false_intro fun ⟨k, hk, _⟩ => Nat.not_lt_zero k hk
      refine ⟨0, Nat.le_refl 0, (PagesMapped.refl hinfo hd hz).congr hnone,
        Or.inl ⟨rfl, rfl, ?_⟩⟩
      have hzero : tablesFor m.mem d index 0 = ∅ :=
        Finset.filter_eq_empty_iff.mpr fun i _ h => Nat.not_lt_zero _ h.2.choose_spec.1
      rw [hzero]
      rfl
  | succ count ih =>
      rcases @allocTaskPagesLoop_round m d index perm count hinfo hd hz hidx hperm with
        ⟨m₁, heq, hmap, hcost⟩ | ⟨m₁, heq, hmap, hall, hcost⟩
      · have htables := @tablesFor_succ m d index perm count m₁ hidx hmap
        obtain ⟨k, hk, hrest, hend⟩ := @ih m₁ (u32 (index + 0x1000)) hmap.info hmap.dir
          hmap.tables (by rw [u32]; omega)
        rw [heq]
        refine ⟨k + 1, by omega, (hmap.trans hrest).congr fun n' => pageRun_succ hidx, ?_⟩
        rcases hend with ⟨hret, rfl, hleft⟩ | ⟨hret, hnone, hfew⟩
        · exact Or.inl ⟨hret, rfl, by omega⟩
        · exact Or.inr ⟨hret, hnone, by omega⟩
      · rw [heq]
        refine ⟨0, Nat.zero_le _, hmap.congr fun n' => ?_, Or.inr ⟨rfl, hall, ?_⟩⟩
        · exact iff_false_intro fun ⟨k, hk, _⟩ => Nat.not_lt_zero k hk
        · by_cases hp : present (pdeAt m.mem d (index / 0x400000))
          · rw [if_pos hp] at hcost
            omega
          · rw [if_neg hp] at hcost
            have hmem : index / 0x400000 ∈ tablesFor m.mem d index (count + 1) :=
              Finset.mem_filter.mpr ⟨Finset.mem_range.mpr (by omega), hp, 0, by omega, by
                rw [Nat.mul_zero, Nat.add_zero, u32_of_lt hidx]⟩
            have := Finset.card_pos.mpr ⟨_, hmem⟩
            omega

/-- The same for pages that do not go around. -/
theorem allocTaskPagesLoop_mapped (hinfo : m.info.Ok) (hd : DirOk m.mem m.info d)
    (hz : TablesNeZero m.mem d) (hperm : perm < 0x1000) (hidx : count ≠ 0 → index / 0x1000 = n)
    (hlim : n + count ≤ 0x100000) :
    ∃ k ≤ count, PagesMapped m (allocTaskPagesLoop m d index perm count).1 d
        (fun n' => n ≤ n' ∧ n' < n + k) perm
      ∧ ((allocTaskPagesLoop m d index perm count).2 = 0 ∧ k = count
        ∨ (allocTaskPagesLoop m d index perm count).2 = -1
          ∧ ∀ p, ¬ (allocTaskPagesLoop m d index perm count).1.info.Free p) := by
  rcases Nat.eq_zero_or_pos count with rfl | hpos
  · refine ⟨0, Nat.le_refl 0, (PagesMapped.refl hinfo hd hz).congr fun n' => ?_,
      Or.inl ⟨rfl, rfl⟩⟩
    rw [iff_false]
    omega
  have hpage := hidx hpos.ne'
  obtain ⟨k, hk, hmap, hend⟩ := @allocTaskPagesLoop_run m d index perm count hinfo hd hz hperm
    (by omega)
  have hrun : ∀ n', n ≤ n' ∧ n' < n + k ↔ PageRun index k n' := by
    intro n'
    constructor
    · exact fun h => ⟨n' - n, by omega, by rw [u32]; omega⟩
    · rintro ⟨i, hi, rfl⟩
      rw [u32]
      omega
  refine ⟨k, hk, hmap.congr hrun, ?_⟩
  rcases hend with ⟨hret, hall, -⟩ | ⟨hret, hnone, -⟩
  · exact Or.inl ⟨hret, hall⟩
  · exact Or.inr ⟨hret, hnone⟩

end Loop

/-! ## The call -/

variable {m : Machine} {d index size perm : Nat}

theorem ceilPage_pages (h : size ≤ 0xFFFFF000) :
    ceilPage size / 0x1000 = (size + 0xFFF) / 0x1000 := by
  rw [ceilPage, u32_of_lt (by omega)]
  omega

/-- The call, from a page on. -/
theorem allocTaskPages_mapped (hinfo : m.info.Ok) (hd : DirOk m.mem m.info d)
    (hz : TablesNeZero m.mem d) (hperm : perm < 0x1000)
    (hlim : index / 0x1000 + (size + 0xFFF) / 0x1000 ≤ 0x100000) (hsize : size ≤ 0xFFFFF000) :
    ∃ k ≤ (size + 0xFFF) / 0x1000, PagesMapped m (allocTaskPages m d index size perm).1 d
        (fun n => index / 0x1000 ≤ n ∧ n < index / 0x1000 + k) perm
      ∧ ((allocTaskPages m d index size perm).2 = 0 ∧ k = (size + 0xFFF) / 0x1000
        ∨ (allocTaskPages m d index size perm).2 = -1
          ∧ ∀ p, ¬ (allocTaskPages m d index size perm).1.info.Free p) := by
  rw [allocTaskPages, ceilPage_pages hsize]
  exact allocTaskPagesLoop_mapped hinfo hd hz hperm (fun _ => rfl) hlim

/-- The pages that a call has taken: the frames of `R`, and the tables that were not there. -/
inductive Taken (m m' : Machine) (d : Nat) (R : Nat → Prop) : Nat ⊕ Nat → Nat → Prop where
  | frame (n v : Nat) (hn : n < 0x100000) (hR : R n) (hv : pteAt m'.mem d n = some v) :
      Taken m m' d R (.inl n) (pteAddress v)
  | table (i : Nat) (hi : i < 1024) (hp : ¬ present (pdeAt m.mem d i))
      (hp' : present (pdeAt m'.mem d i)) : Taken m m' d R (.inr i) (tableAt m'.mem d i)

theorem PagesMapped.taken_fresh {m' : Machine} {R : Nat → Prop} {x : Nat ⊕ Nat} {p : Nat}
    (h : PagesMapped m m' d R perm) (ht : Taken m m' d R x p) :
    m.info.Free p ∧ ¬ m'.info.Free p := by
  cases ht with
  | frame n v hn hR hv =>
      obtain ⟨v', hv', -, hfree, hused⟩ := h.inside n hn hR
      obtain rfl := Option.some.inj (hv.symm.trans hv')
      exact ⟨hfree, hused⟩
  | table i hi hp hp' => exact ⟨(h.table_new i hi hp hp').1, h.dir.table_used i hi hp'⟩

theorem PagesMapped.taken_inj {m' : Machine} {R : Nat → Prop} {x y : Nat ⊕ Nat} {p : Nat}
    (h : PagesMapped m m' d R perm) (hx : Taken m m' d R x p) (hy : Taken m m' d R y p) :
    x = y := by
  generalize hq : p = q at hy
  cases hx with
  | frame n v hn hR hv =>
      cases hy with
      | frame n' v' hn' hR' hv' =>
          rw [h.frame_inj n hn n' hn' v v' hR hR' hv hv' hq]
      | table i hi hp hp' => exact absurd hq (h.frame_ne_table n hn v hR hv i hi hp')
  | table i hi hp hp' =>
      cases hy with
      | frame n v hn hR hv => exact absurd hq.symm (h.frame_ne_table n hn v hR hv i hi hp')
      | table i' hi' hp₁ hp₁' => rw [h.dir.table_inj i hi i' hi' hp' hp₁' hq]

/-- The bytes from `index` up to `index + size` were mapped to fresh memory. -/
structure RangeFresh (m m' : Machine) (d index size perm : Nat) : Prop where
  /-- Every address is present, with the permissions that were asked for. -/
  present : ∀ va, index ≤ va → va < index + size → ∃ p,
    walk m'.mem d va = some (p + va % 0x1000, perm ||| 1)
      ∧ Taken m m' d (InPages index (index + size)) (.inl (va / 0x1000)) p
  /-- Frames and new tables were free, and are not any more. -/
  fresh : ∀ x p, Taken m m' d (InPages index (index + size)) x p →
    m.info.Free p ∧ ¬ m'.info.Free p
  distinct : ∀ x y p, Taken m m' d (InPages index (index + size)) x p →
    Taken m m' d (InPages index (index + size)) y p → x = y
  /-- Every other address keeps its translation. -/
  kept : ∀ va < 2 ^ 32, ¬ InPages index (index + size) (va / 0x1000) →
    walk m'.mem d va = walk m.mem d va

/-- `alloc_task_pages` maps fresh memory, whether the range is mapped already or not, and fails
only when no page is left. -/
theorem allocTaskPages_law (hinfo : m.info.Ok) (hd : DirOk m.mem m.info d)
    (hz : TablesNeZero m.mem d) (hbase : vmTaskBase ≤ index) (hal : index % 0x1000 = 0)
    (hlim : index + size ≤ 2 ^ 32) (hperm : perm < 0x1000) :
    ((allocTaskPages m d index size perm).2 = 0 →
      RangeFresh m (allocTaskPages m d index size perm).1 d index size perm)
    ∧ ((allocTaskPages m d index size perm).2 = 0
      ∨ (allocTaskPages m d index size perm).2 = -1
        ∧ ∀ p, ¬ (allocTaskPages m d index size perm).1.info.Free p) := by
  have hbase' : 0x40000000 ≤ index := hbase
  obtain ⟨k, -, hmap, hend⟩ := @allocTaskPages_mapped m d index size perm hinfo hd hz hperm
    (by omega) (by omega)
  generalize allocTaskPages m d index size perm = r at *
  constructor
  case right =>
    rcases hend with ⟨hret, -⟩ | hfail
    · exact Or.inl hret
    · exact Or.inr hfail
  case left =>
    intro hret
    obtain rfl : k = (size + 0xFFF) / 0x1000 := by
      rcases hend with ⟨-, hk⟩ | ⟨hfail, -⟩
      · exact hk
      · rw [hret] at hfail
        cases hfail
    replace hmap : PagesMapped m r.1 d (InPages index (index + size)) perm :=
      hmap.congr fun n => by
        rw [InPages]
        omega
    refine ⟨fun va hva hva' => ?_, fun x p => hmap.taken_fresh, fun x y p => hmap.taken_inj,
      fun va hva hout => ?_⟩
    · have hn : va / 0x1000 < 0x100000 := by omega
      have hR : InPages index (index + size) (va / 0x1000) := by
        constructor <;> omega
      obtain ⟨v, hv, hp, -, -⟩ := hmap.inside _ hn hR
      refine ⟨pteAddress v, ?_, .frame _ v hn hR hv⟩
      rw [walk_eq, hv, Option.map_some, hp]
    · rw [walk_eq, walk_eq, hmap.outside _ (by omega) hout]

theorem smallMachine_tables (d : Nat) : TablesNeZero smallMachine.mem d := by
  intro i _ hp
  rw [smallMachine_pdeAt] at hp
  cases hp

/-- Two pages are mapped, and a table is taken for them. -/
theorem allocTaskPages_law_small : ∃ p, smallMachine.info.Free p
    ∧ walk (allocTaskPages smallMachine 0x100000 0x40000000 0x2000 6).1.mem 0x100000 0x40001234
      = some (p + 0x234, 7) := by
  have hlaw := @allocTaskPages_law smallMachine 0x100000 0x40000000 0x2000 6 smallMachine_infoOk
    (smallMachine_dirOk (by decide) (by decide) (by decide)) (smallMachine_tables _) (by decide)
    (by decide) (by decide) (by decide)
  have hfresh := hlaw.1 (by decide)
  obtain ⟨p, hwalk, htaken⟩ := hfresh.present 0x40001234 (by decide) (by decide)
  exact ⟨p, (hfresh.fresh _ p htaken).1, hwalk⟩

end Csos
