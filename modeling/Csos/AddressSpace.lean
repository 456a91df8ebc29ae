import Csos.PageDir

/-!
# Address spaces

A user address space is a directory with the pages that were allocated
for it: its user page tables and its user frames. `SpaceOk` says that
these are different pages, all in use, which is what every space that
`memory32_create_pde` starts and `alloc_task_pages` extends satisfies
(`createPde_space`, `SpaceOk.map`).
-/

namespace Csos

open Lib

/-- A virtual page from `VM_TASK_BASE` on. -/
def UserPage (n : Nat) : Prop := 0x40000 ≤ n ∧ n < 0x100000

/-- A page of memory that the allocator manages. -/
def Memory32Info.InRange (info : Memory32Info) (p : Nat) : Prop :=
  ∃ i < info.bitmap.bitSize, p = info.page i

theorem Memory32Info.Free.inRange {info : Memory32Info} {p : Nat} (h : info.Free p) :
    info.InRange p := by
  obtain ⟨i, hi, -, rfl⟩ := h
  exact ⟨i, hi, rfl⟩

theorem Memory32Info.InRange.congr {info info' : Memory32Info} {p : Nat} (h : info.InRange p)
    (hs : info'.start = info.start) (hb : info'.bitmap.bitSize = info.bitmap.bitSize) :
    info'.InRange p := by
  obtain ⟨i, hi, rfl⟩ := h
  exact ⟨i, by rwa [hb], by rw [page, page, hs]⟩

/-- The pages that were allocated for the space. -/
inductive Owned (mem : Bytes) (d : Nat) : Nat → Prop where
  | dir : Owned mem d d
  | table (i : Nat) (hi : 256 ≤ i) (hi' : i < 1024) (hp : present (pdeAt mem d i)) :
      Owned mem d (tableAt mem d i)
  | frame (n v : Nat) (hn : UserPage n) (hv : pteAt mem d n = some v) :
      Owned mem d (pteAddress v)

/-- A well-formed address space. -/
structure SpaceOk (m : Machine) (d : Nat) : Prop where
  info : m.info.Ok
  dir : DirOk m.mem m.info d
  owned : ∀ p, Owned m.mem d p → m.info.InRange p ∧ ¬ m.info.Free p
  frame_ne_dir : ∀ n v, UserPage n → pteAt m.mem d n = some v → pteAddress v ≠ d
  frame_ne_table : ∀ n v i, UserPage n → pteAt m.mem d n = some v → i < 1024 →
    present (pdeAt m.mem d i) → pteAddress v ≠ tableAt m.mem d i
  frame_inj : ∀ n n' v v', UserPage n → UserPage n' → pteAt m.mem d n = some v →
    pteAt m.mem d n' = some v' → pteAddress v = pteAddress v' → n = n'

section Congr

variable {m m' : Machine} {mem mem' : Bytes} {d : Nat}

theorem Owned.congr {p : Nat} (h : Owned mem' d p)
    (hpde : ∀ i < 1024, pdeAt mem' d i = pdeAt mem d i)
    (hpte : ∀ n v, UserPage n → pteAt mem' d n = some v → pteAt mem d n = some v) :
    Owned mem d p := by
  cases h with
  | dir => exact .dir
  | table i hi hi' hp =>
      rw [hpde i hi'] at hp
      rw [tableAt, hpde i hi', ← tableAt]
      exact .table i hi hi' hp
  | frame n v hn hv => exact .frame n v hn (hpte n v hn hv)

/-- A space stays well formed when what its frames hold is changed, and
when pages are unmapped. -/
theorem SpaceOk.congr (hs : SpaceOk m d) (hinfo : m'.info = m.info)
    (hpde : ∀ i < 1024, pdeAt m'.mem d i = pdeAt m.mem d i)
    (hpte : ∀ n v, UserPage n → pteAt m'.mem d n = some v → pteAt m.mem d n = some v) :
    SpaceOk m' d := by
  constructor
  case info => rw [hinfo]; exact hs.info
  case dir => rw [hinfo]; exact hs.dir.congr hpde fun _ h => h
  case owned =>
    rw [hinfo]
    exact fun p ho => hs.owned p (ho.congr hpde hpte)
  case frame_ne_dir =>
    exact fun n v hn hv => hs.frame_ne_dir n v hn (hpte n v hn hv)
  case frame_ne_table =>
    intro n v i hn hv hi hp
    rw [hpde i hi] at hp
    rw [tableAt, hpde i hi, ← tableAt]
    exact hs.frame_ne_table n v i hn (hpte n v hn hv) hi hp
  case frame_inj =>
    exact fun n n' v v' hn hn' hv hv' =>
      hs.frame_inj n n' v v' hn hn' (hpte n v hn hv) (hpte n' v' hn' hv')

end Congr

/-! ## One more page -/

section Map

variable {m m' : Machine} {d n j perm : Nat}

/-- A free page is taken and mapped as the page `n`. -/
structure Grown (m m' : Machine) (d n j perm : Nat) : Prop where
  page_lt : j < m.info.bitmap.bitSize
  page_free : m.info.Free (m.info.page j)
  user : UserPage n
  perm_lt : perm < 0x1000
  mapped : Mapped { m with info := m.info.setPage j true } m' d n (m.info.page j ||| perm ||| 1)

variable (hs : SpaceOk m d) (hg : Grown m m' d n j perm)
include hs hg

theorem Grown.address : pteAddress (m.info.page j ||| perm ||| 1) = m.info.page j :=
  pteAddress_entry (hg.page_free.aligned hs.info) hg.perm_lt

omit hs in
/-- The tables of the larger space are old, or the one for `n`. -/
theorem Grown.table {i : Nat} (hi : i < 1024) (hp : present (pdeAt m'.mem d i)) :
    (present (pdeAt m.mem d i) ∧ tableAt m'.mem d i = tableAt m.mem d i)
      ∨ (i = n / 1024 ∧ m.info.Free (tableAt m'.mem d i)
        ∧ tableAt m'.mem d i ≠ m.info.page j) := by
  by_cases hin : i = n / 1024
  · subst hin
    by_cases hold : present (pdeAt m.mem d (n / 1024))
    · exact Or.inl ⟨hold, by rw [tableAt, hg.mapped.pde_old hold, ← tableAt]⟩
    · have hfresh := hg.mapped.table_fresh hold
      rw [Memory32Info.free_setPage hg.page_lt] at hfresh
      exact Or.inr ⟨rfl, hfresh.1, hfresh.2⟩
  · have hpde := hg.mapped.pde i hi hin
    rw [hpde] at hp
    exact Or.inl ⟨hp, by rw [tableAt, hpde, ← tableAt]⟩

omit hs in
theorem Grown.free {q : Nat} (h : m'.info.Free q) :
    m.info.Free q ∧ q ≠ m.info.page j ∧ q ≠ tableAt m'.mem d (n / 1024) := by
  obtain ⟨h, hne⟩ := (hg.mapped.free q).mp h
  obtain ⟨h, hne'⟩ := (Memory32Info.free_setPage hg.page_lt).mp h
  exact ⟨h, hne', hne⟩

omit hs in
theorem Grown.inRange {p : Nat} (h : m.info.InRange p) : m'.info.InRange p :=
  h.congr hg.mapped.start (by rw [hg.mapped.bitSize, Memory32Info.setPage_bitSize])

/-- What the larger space owns. -/
theorem Grown.owned {p : Nat} (h : Owned m'.mem d p) :
    Owned m.mem d p ∨ p = m.info.page j
      ∨ (m.info.Free p ∧ p = tableAt m'.mem d (n / 1024)) := by
  cases h with
  | dir => exact Or.inl .dir
  | table i hi hi' hp =>
      rcases hg.table hi' hp with ⟨hold, heq⟩ | ⟨rfl, hfree, -⟩
      · rw [heq]
        exact Or.inl (.table i hi hi' hold)
      · exact Or.inr (Or.inr ⟨hfree, rfl⟩)
  | frame n' v hn' hv =>
      rw [hg.mapped.pte n' hn'.2] at hv
      split at hv
      · obtain rfl := Option.some.inj hv
        exact Or.inr (Or.inl (hg.address hs))
      · exact Or.inl (.frame n' v hn' hv)

/-- The larger space is well formed. -/
theorem SpaceOk.map : SpaceOk m' d := by
  have haddr := hg.address hs
  have hused : ∀ p, Owned m.mem d p → p ≠ m.info.page j :=
    fun p ho he => (hs.owned p ho).2 (he ▸ hg.page_free)
  have hptes : ∀ n' v, UserPage n' → pteAt m'.mem d n' = some v →
      (n' = n ∧ pteAddress v = m.info.page j) ∨ (n' ≠ n ∧ pteAt m.mem d n' = some v) := by
    intro n' v hn' hv
    rw [hg.mapped.pte n' hn'.2] at hv
    split at hv
    case isTrue heq =>
      obtain rfl := Option.some.inj hv
      exact Or.inl ⟨heq, haddr⟩
    case isFalse hne => exact Or.inr ⟨hne, hv⟩
  constructor
  case info => exact hg.mapped.info
  case dir => exact hg.mapped.dir
  case owned =>
    intro p ho
    rcases hg.owned hs ho with ho | rfl | ⟨hfree, rfl⟩
    · obtain ⟨hr, hnf⟩ := hs.owned p ho
      exact ⟨hg.inRange hr, fun h => hnf (hg.free h).1⟩
    · exact ⟨hg.inRange hg.page_free.inRange, fun h => (hg.free h).2.1 rfl⟩
    · exact ⟨hg.inRange hfree.inRange, fun h => (hg.free h).2.2 rfl⟩
  case frame_ne_dir =>
    intro n' v hn' hv
    rcases hptes n' v hn' hv with ⟨-, heq⟩ | ⟨-, hv⟩
    · rw [heq]
      exact (hused d .dir).symm
    · exact hs.frame_ne_dir n' v hn' hv
  case frame_ne_table =>
    intro n' v i hn' hv hi hp
    rcases hptes n' v hn' hv with ⟨-, heq⟩ | ⟨-, hv⟩ <;>
      rcases hg.table hi hp with ⟨hold, htab⟩ | ⟨-, hfree, hne⟩
    · rw [heq, htab]
      exact fun he => hs.dir.table_used i hi hold (he ▸ hg.page_free)
    · rw [heq]
      exact hne.symm
    · rw [htab]
      exact hs.frame_ne_table n' v i hn' hv hi hold
    · exact fun he => (hs.owned _ (.frame n' v hn' hv)).2 (he ▸ hfree)
  case frame_inj =>
    intro n₁ n₂ v₁ v₂ hn₁ hn₂ hv₁ hv₂ he
    rcases hptes n₁ v₁ hn₁ hv₁ with ⟨h₁, ha₁⟩ | ⟨-, hv₁⟩ <;>
      rcases hptes n₂ v₂ hn₂ hv₂ with ⟨h₂, ha₂⟩ | ⟨-, hv₂⟩
    · rw [h₁, h₂]
    · exact absurd (he.symm.trans ha₁) (hused _ (.frame n₂ v₂ hn₂ hv₂))
    · exact absurd (he.trans ha₂) (hused _ (.frame n₁ v₁ hn₁ hv₁))
    · exact hs.frame_inj n₁ n₂ v₁ v₂ hn₁ hn₂ hv₁ hv₂ he

/-- What the other frames hold stays. -/
theorem Grown.frame {n' u x : Nat} (hn' : UserPage n')
    (hu : pteAt m.mem d n' = some u) (hx : x < 0x1000) :
    m'.mem (pteAddress u + x) = m.mem (pteAddress u + x) := by
  have howned := hs.owned _ (.frame n' u hn' hu)
  have hpage : (pteAddress u + x) / 0x1000 * 0x1000 = pteAddress u := by
    have := pteAddress_eq u
    omega
  have htable : pteAddress u ≠ tableAt m'.mem d (n / 1024) := by
    have hi : n / 1024 < 1024 := by
      have := hg.user.2
      omega
    rcases hg.table hi hg.mapped.pde_present with ⟨hold, he⟩ | ⟨-, hfree, -⟩
    · rw [he]
      exact hs.frame_ne_table n' u _ hn' hu hi hold
    · exact fun he => howned.2 (he ▸ hfree)
  exact hg.mapped.mem _ (by rw [hpage]; exact hs.frame_ne_dir n' u hn' hu)
    (by rw [hpage]; exact htable)

/-- A new page costs the allocator one page, and one more for a new table. -/
theorem Grown.freePages_eq : m.info.freePages
    = m'.info.freePages + 1 + if present (pdeAt m.mem d (n / 1024)) then 0 else 1 := by
  have hi : n / 1024 < 1024 := by
    have := hg.user.2
    omega
  have htake := @Memory32Info.freePages_take m.info (m.info.page j) (m.info.setPage j true) rfl
    hg.page_free fun q => Memory32Info.free_setPage hg.page_lt
  rw [htake]
  split
  case isTrue hp =>
    -- the table is in use already, so nothing else is taken
    have htable : tableAt m'.mem d (n / 1024) = tableAt m.mem d (n / 1024) := by
      rw [tableAt, hg.mapped.pde_old hp, ← tableAt]
    have hsame : ∀ q, m'.info.Free q ↔ (m.info.setPage j true).Free q := by
      refine fun q => (hg.mapped.free q).trans (and_iff_left_of_imp fun hq he => ?_)
      have hq' := ((Memory32Info.free_setPage hg.page_lt).mp hq).1
      exact hs.dir.table_used _ hi hp (htable ▸ he ▸ hq')
    rw [Memory32Info.freePages_congr hg.mapped.start hsame]
  case isFalse hp =>
    rw [Memory32Info.freePages_take hg.mapped.start (hg.mapped.table_fresh hp) hg.mapped.free]

omit hg in
/-- A free page can be mapped, unless there is none left for the table. -/
theorem SpaceOk.mapPage (hj : j < m.info.bitmap.bitSize) (hfree : m.info.Free (m.info.page j))
    (hn : UserPage n) (hperm : perm < 0x1000) {vaddr : Nat}
    (hva : vaddr / 0x1000 = n) :
    (∃ m₁, memory32CreateMap { m with info := m.info.setPage j true } d vaddr (m.info.page j) 1 perm
        = (m₁, 0) ∧ Grown m m₁ d n j perm)
    ∨ (memory32CreateMap { m with info := m.info.setPage j true } d vaddr (m.info.page j) 1 perm
        = ({ m with info := m.info.setPage j true }, -1)
      ∧ ¬ present (pdeAt m.mem d (n / 1024)) ∧ m.info.freePages ≤ 1) := by
  obtain ⟨hlo, hhi⟩ := id hn
  have hfits := hfree.fits hs.info
  have hdir : DirOk m.mem (m.info.setPage j true) d :=
    hs.dir.congr (fun _ _ => rfl) fun p hp => ((Memory32Info.free_setPage hj).mp hp).1
  rcases @createMap_one { m with info := m.info.setPage j true } d vaddr (m.info.page j) perm
    (hs.info.setPage j true) hdir (by omega) (hfree.aligned hs.info) (by omega) hperm with
    ⟨hpte, herr⟩ | ⟨m₁, hmap, hm⟩
  · have hidx : vaddr / 0x400000 = n / 1024 := by omega
    rcases @findPte_cases { m with info := m.info.setPage j true } d vaddr
      (hs.info.setPage j true) with ⟨hp, heq⟩ | ⟨hp, hall, heq⟩ | ⟨-, j', -, hfree', heq⟩
    · rw [hidx] at hp heq
      rw [heq] at hpte
      obtain ⟨⟨k, -, hk⟩, -⟩ := hs.owned _ (.table (n / 1024) (by omega) (by omega) hp)
      have hstart := hs.info.start_pos
      simp only [Memory32Info.page] at hk
      dsimp only at hpte
      omega
    · have htake := @Memory32Info.freePages_le m.info (m.info.page j) (m.info.setPage j true) rfl
        fun q hq hne => (Memory32Info.free_setPage hj).mpr ⟨hq, hne⟩
      rw [hidx] at hp
      rw [Memory32Info.freePages_eq_zero hall] at htake
      rw [heq] at herr
      exact Or.inr ⟨herr, hp, htake⟩
    · rw [heq] at hpte
      have hpos := hfree'.pos (hs.info.setPage j true)
      omega
  · rw [hva] at hm
    exact Or.inl ⟨m₁, hmap, hj, hfree, hn, hperm, hm⟩

end Map

/-! ## A new space -/

section Create

variable {m m' : Machine} {d : Nat}

/-- The loop that copies the kernel's half into the directory `dst`. -/
theorem copyKernelPdes_spec {mem : Bytes} {src dst n : Nat} (hsrc : src % 0x1000 = 0)
    (hdst : dst % 0x1000 = 0) (hne : src ≠ dst) (hn : n ≤ 1024) :
    (∀ i < 1024, (copyKernelPdes src dst n mem).load32 (dst + 4 * i)
        = if i < n then mem.load32 (src + 4 * i) else mem.load32 (dst + 4 * i))
    ∧ ∀ b, b / 0x1000 * 0x1000 ≠ dst → copyKernelPdes src dst n mem b = mem b := by
  induction n with
  | zero => exact ⟨fun i _ => (if_neg (by omega)).symm, fun _ _ => rfl⟩
  | succ n ih =>
      obtain ⟨hload, hout⟩ := ih (by omega)
      have hval : (copyKernelPdes src dst n mem).load32 (src + 4 * n) = mem.load32 (src + 4 * n) :=
        Bytes.load32_congr fun b _ _ => hout b (by omega)
      refine ⟨fun i hi => ?_, fun b hb => ?_⟩
      · rw [copyKernelPdes, hval]
        by_cases hin : i = n
        · rw [hin, Bytes.load32_store32_self (Bytes.load32_lt ..), if_pos (by omega)]
        · rw [Bytes.load32_store32_of_disjoint (by omega), hload i hi]
          simp only [show i < n + 1 ↔ i < n by omega]
      · rw [copyKernelPdes, Bytes.store32_outside (by omega), hout b hb]

/-- What `memory32_create_pde` does when there is a page for the
directory. -/
structure Created (m m' : Machine) (d : Nat) : Prop where
  free : m.info.Free d
  info : ∃ j < m.info.bitmap.bitSize, d = m.info.page j ∧ m'.info = m.info.setPage j true
  kernelHalf : ∀ i < 256, pdeAt m'.mem d i = pdeAt m.mem m.kernelPde i
  userHalf : ∀ i, 256 ≤ i → i < 1024 → pdeAt m'.mem d i = 0
  mem : ∀ b, b / 0x1000 * 0x1000 ≠ d → m'.mem b = m.mem b
  cr3 : m'.cr3 = m.cr3
  kernelPde : m'.kernelPde = m.kernelPde

theorem createPde_created (hinfo : m.info.Ok) (hk : DirOk m.mem m.info m.kernelPde) :
    (memory32CreatePde m = (m, 0) ∧ ∀ p, ¬ m.info.Free p)
    ∨ ∃ m' d, memory32CreatePde m = (m', d) ∧ d ≠ 0 ∧ Created m m' d := by
  rcases memory32AllocPage_one hinfo with ⟨heq, hall⟩ | ⟨j, hj, hfree, heq⟩
  · left
    exact ⟨by simp only [memory32CreatePde, heq, if_true], hall⟩
  · right
    have hpos := hfree.pos hinfo
    have hne : m.kernelPde ≠ m.info.page j := fun h => hk.used (h ▸ hfree)
    have hd := hfree.aligned hinfo
    have hstart : pdeIndex vmTaskBase = 256 := by decide
    obtain ⟨hload, hout⟩ := @copyKernelPdes_spec (m.mem.fill (m.info.page j) 0 0x1000)
      m.kernelPde (m.info.page j) 256 hk.aligned hd hne (by decide)
    have hne0 : m.info.page j ≠ 0 := by omega
    refine ⟨_, m.info.page j, by simp only [memory32CreatePde, heq, if_neg hne0, hstart]; rfl,
      hne0, ?_⟩
    constructor
    case free => exact hfree
    case info => exact ⟨j, hj, rfl, rfl⟩
    case kernelHalf =>
      intro i hi
      have hkal := hk.aligned
      rw [pdeAt, hload i (by omega), if_pos hi, pdeAt, Bytes.load32_fill_outside (by omega)]
    case userHalf =>
      intro i hi hi'
      rw [pdeAt, hload i hi', if_neg (by omega), Bytes.load32_fill_zero (by omega) (by omega)]
    case mem =>
      intro b hb
      dsimp only
      rw [hout b hb, Bytes.fill_outside (by omega)]
    case cr3 => rfl
    case kernelPde => rfl

variable (hinfo : m.info.Ok) (hk : DirOk m.mem m.info m.kernelPde) (hc : Created m m' d)
include hc

/-- Nothing is mapped in the user half of a new directory. -/
theorem Created.pteAt {n : Nat} (hn : UserPage n) : pteAt m'.mem d n = none := by
  obtain ⟨h, h'⟩ := hn
  rw [Csos.pteAt, hc.userHalf (n / 1024) (by omega) (by omega)]
  exact if_neg (by decide)

theorem Created.free_iff (q : Nat) : m'.info.Free q ↔ m.info.Free q ∧ q ≠ d := by
  obtain ⟨j, hj, rfl, hinfo'⟩ := hc.info
  rw [hinfo', Memory32Info.free_setPage hj]

/-- All that a new space owns is its directory. -/
theorem Created.owned {p : Nat} (h : Owned m'.mem d p) : p = d := by
  cases h with
  | dir => rfl
  | table i hi hi' hp =>
      rw [hc.userHalf i hi hi'] at hp
      exact absurd hp (by decide)
  | frame n v hn hv =>
      rw [hc.pteAt hn] at hv
      cases hv

include hinfo hk

theorem Created.dirOk : DirOk m'.mem m'.info d := by
  have hlow : ∀ i < 1024, present (pdeAt m'.mem d i) → i < 256 := by
    intro i hi hp
    by_contra hge
    rw [hc.userHalf i (by omega) hi] at hp
    exact absurd hp (by decide)
  have hold : ∀ i < 1024, present (pdeAt m'.mem d i) →
      present (pdeAt m.mem m.kernelPde i) ∧ tableAt m'.mem d i = tableAt m.mem m.kernelPde i := by
    intro i hi hp
    have hpde := hc.kernelHalf i (hlow i hi hp)
    rw [hpde] at hp
    exact ⟨hp, by rw [tableAt, hpde, ← tableAt]⟩
  constructor
  case ne_zero =>
    have := hc.free.pos hinfo
    omega
  case aligned => exact hc.free.aligned hinfo
  case used => exact fun h => ((hc.free_iff d).mp h).2 rfl
  case table_used =>
    intro i hi hp hf
    obtain ⟨hp', heq⟩ := hold i hi hp
    rw [heq] at hf
    exact hk.table_used i hi hp' ((hc.free_iff _).mp hf).1
  case table_ne =>
    intro i hi hp he
    obtain ⟨hp', heq⟩ := hold i hi hp
    refine hk.table_used i hi hp' ?_
    rw [← heq, he]
    exact hc.free
  case table_inj =>
    intro i hi j hj hp hp' he
    obtain ⟨hpi, hei⟩ := hold i hi hp
    obtain ⟨hpj, hej⟩ := hold j hj hp'
    exact hk.table_inj i hi j hj hpi hpj (by rw [← hei, ← hej, he])

/-- A new address space is well formed. -/
theorem createPde_space : SpaceOk m' d := by
  obtain ⟨j, hj, hd, hinfo'⟩ := hc.info
  constructor
  case info =>
    rw [hinfo']
    exact hinfo.setPage j true
  case dir => exact hc.dirOk hinfo hk
  case owned =>
    intro p ho
    obtain rfl := hc.owned ho
    refine ⟨?_, (hc.dirOk hinfo hk).used⟩
    rw [hinfo']
    exact hc.free.inRange.congr rfl (Memory32Info.setPage_bitSize true)
  case frame_ne_dir =>
    intro n v hn hv
    rw [hc.pteAt hn] at hv
    cases hv
  case frame_ne_table =>
    intro n v i hn hv
    rw [hc.pteAt hn] at hv
    cases hv
  case frame_inj =>
    intro n n' v v' hn _ hv
    rw [hc.pteAt hn] at hv
    cases hv

end Create

/-! ## `alloc_task_pages` -/

/-- Pages are taken and mapped one after another, each where nothing was
mapped before. -/
inductive Grows (d : Nat) : Machine → Machine → Prop where
  | refl (m : Machine) : Grows d m m
  | step {m m₁ m' : Machine} {n j perm : Nat} (hg : Grown m m₁ d n j perm)
      (hnone : pteAt m.mem d n = none) (hrest : Grows d m₁ m') : Grows d m m'

section Alloc

variable {m m' : Machine} {d index perm count : Nat}

theorem Grows.trans {m₁ : Machine} (h : Grows d m m₁) (h' : Grows d m₁ m') : Grows d m m' := by
  induction h with
  | refl => exact h'
  | step hg hnone _ ih => exact .step hg hnone (ih h')

theorem Grows.space (h : Grows d m m') (hs : SpaceOk m d) : SpaceOk m' d := by
  induction h with
  | refl => exact hs
  | step hg _ _ ih => exact ih (hs.map hg)

/-- What is mapped stays mapped. -/
theorem Grows.pteAt (h : Grows d m m') {n v : Nat} (hn : n < 0x100000)
    (hv : pteAt m.mem d n = some v) : pteAt m'.mem d n = some v := by
  induction h with
  | refl => exact hv
  | step hg hnone _ ih =>
      refine ih ?_
      rw [hg.mapped.pte n hn, if_neg, hv]
      rintro rfl
      rw [hnone] at hv
      cases hv

/-- One round of the loop of `memory32_alloc_task_pages`. -/
theorem allocPage_grown (hs : SpaceOk m d) (hn : UserPage (index / 0x1000))
    (hperm : perm < 0x1000)
    (hrun : allocTaskPagesLoop m d index perm (count + 1) = (m', 0)) :
    ∃ m₁ j, Grown m m₁ d (index / 0x1000) j perm
      ∧ allocTaskPagesLoop m₁ d (u32 (index + 0x1000)) perm count = (m', 0) := by
  rw [allocTaskPagesLoop] at hrun
  rcases memory32AllocPage_one hs.info with ⟨heq, -⟩ | ⟨j, hj, hfree, heq⟩
  · rw [heq] at hrun
    cases congrArg Prod.snd hrun
  have hne : m.info.page j ≠ 0 := by
    have := hfree.pos hs.info
    omega
  simp only [heq, if_neg hne] at hrun
  rcases hs.mapPage hj hfree hn hperm rfl with ⟨m₁, hmap, hg⟩ | ⟨herr, -⟩
  · simp only [hmap, Int.lt_irrefl, if_false] at hrun
    exact ⟨m₁, j, hg, hrun⟩
  · rw [herr] at hrun
    cases congrArg Prod.snd hrun

/-- A call of `alloc_task_pages` that succeeds, on a range where nothing
is mapped. -/
theorem allocTaskPagesLoop_grows (hs : SpaceOk m d) (hbase : vmTaskBase ≤ index)
    (hlim : index + count * 0x1000 ≤ 2 ^ 32) (hperm : perm < 0x1000)
    (hnone : ∀ n, index / 0x1000 ≤ n → n < index / 0x1000 + count → Csos.pteAt m.mem d n = none)
    (hrun : allocTaskPagesLoop m d index perm count = (m', 0)) :
    Grows d m m'
      ∧ (∀ n, index / 0x1000 ≤ n → n < index / 0x1000 + count → Csos.pteAt m'.mem d n ≠ none)
      ∧ ∀ n < 0x100000, (n < index / 0x1000 ∨ index / 0x1000 + count ≤ n) →
        Csos.pteAt m'.mem d n = Csos.pteAt m.mem d n := by
  induction count generalizing m index with
  | zero =>
      obtain rfl : m = m' := congrArg Prod.fst hrun
      exact ⟨.refl m, fun n _ _ => by omega, fun _ _ _ => rfl⟩
  | succ count ih =>
      have hbase' : 0x40000000 ≤ index := hbase
      have hn : UserPage (index / 0x1000) := by
        constructor <;> omega
      obtain ⟨m₁, j, hg, hrest⟩ := allocPage_grown hs hn hperm hrun
      by_cases hz : count = 0
      · subst hz
        obtain rfl : m₁ = m' := congrArg Prod.fst hrest
        refine ⟨.step hg (hnone _ (by omega) (by omega)) (.refl m₁), fun n h h' => ?_,
          fun n hn h => ?_⟩
        · rw [hg.mapped.pte n (by omega), if_pos (by omega)]
          exact nofun
        · rw [hg.mapped.pte n hn, if_neg (by omega)]
      have hnext : u32 (index + 0x1000) = index + 0x1000 := by
        rw [u32]
        omega
      rw [hnext] at hrest
      have hnone₁ : ∀ n, (index + 0x1000) / 0x1000 ≤ n → n < (index + 0x1000) / 0x1000 + count →
          Csos.pteAt m₁.mem d n = none := by
        intro n h h'
        rw [hg.mapped.pte n (by omega), if_neg (by omega)]
        exact hnone n (by omega) (by omega)
      obtain ⟨hgrows, hin, hout⟩ := ih (hs.map hg) (Nat.le_add_right_of_le hbase) (by omega)
        hnone₁ hrest
      refine ⟨.step hg (hnone _ (by omega) (by omega)) hgrows, fun n h h' => ?_,
        fun n hn h => ?_⟩
      · by_cases heq : n = index / 0x1000
        · have hv := hg.mapped.pte n (by omega)
          rw [if_pos heq] at hv
          rw [hgrows.pteAt (by omega) hv]
          exact nofun
        · exact hin n (by omega) (by omega)
      · rw [hout n hn (by omega), hg.mapped.pte n hn, if_neg (by omega)]

end Alloc

end Csos
