import Csos.AddressSpace

/-!
# Fork (`copy_page`)

`copy_page` walks the tables of the active address space while it takes
frames and tables for the copy from the same allocator, and copies each
page through the MMU. Whatever it writes lies in a page that was free
before the call, so what it reads never changes under it: `Forking`
states this for a call that is under way.
-/

namespace Csos

open Lib

/-- An address space that can be copied: the active one, with none of its
pages free. -/
structure Forkable (m : Machine) (index : Nat) : Prop where
  info : m.info.Ok
  limit : m.info.page m.info.bitmap.bitSize ≤ pmExtLimit
  kernel : DirOk m.mem m.info m.kernelPde
  active : m.cr3 = index
  aligned : index % 0x1000 = 0
  used : ∀ p, Owned m.mem index p → ¬ m.info.Free p

/-! ## `kernel_memcpy` -/

section Memcpy

variable {m : Machine} {index n v page off size : Nat}

/-- The active directory maps the page `n` by `v`, and `page` is identity
mapped and none of the pages that reading `n` depends on. -/
structure CopySource (m : Machine) (index n v page : Nat) : Prop where
  active : m.cr3 = index
  aligned : index % 0x1000 = 0
  user : UserPage n
  entry : pteAt m.mem index n = some v
  page_aligned : page % 0x1000 = 0
  page_limit : page + 0x1000 ≤ pmExtLimit
  ne_dir : page ≠ index
  ne_table : page ≠ tableAt m.mem index (n / 1024)
  ne_frame : page ≠ pteAddress v

variable (hc : CopySource m index n v page)
include hc

theorem CopySource.read8 (hoff : off < 0x1000) :
    m.read8 (n * 0x1000 + off) = some (m.mem (pteAddress v + off)) := by
  have hn := hc.user.1
  have hge : ¬ n * 0x1000 + off < 0x2000000 := by omega
  have hpage : (n * 0x1000 + off) / 0x1000 = n := by omega
  have hlow : (n * 0x1000 + off) % 0x1000 = off := by omega
  rw [Machine.read8, Machine.translate, if_neg hge, walk_eq, hc.active, hpage, hc.entry, hlow]
  rfl

theorem CopySource.write8 (hoff : off < 0x1000) (c : BitVec 8) :
    m.write8 (page + off) c = some { m with mem := m.mem.store8 (page + off) c } := by
  have hlim := hc.page_limit
  have hlt : page + off < pmExtLimit := by omega
  rw [Machine.write8, Machine.translate, if_pos hlt]
  rfl

theorem CopySource.store8 (hoff : off < 0x1000) (c : BitVec 8) :
    CopySource { m with mem := m.mem.store8 (page + off) c } index n v page := by
  have hal := hc.page_aligned
  have hdir : ∀ b, b / 0x1000 * 0x1000 = index →
      m.mem.store8 (page + off) c b = m.mem b := by
    intro b hb
    have := hc.ne_dir
    exact Bytes.store8_of_ne (by omega)
  have htab : ∀ b, b / 0x1000 * 0x1000 = tableAt m.mem index (n / 1024) →
      m.mem.store8 (page + off) c b = m.mem b := by
    intro b hb
    have := hc.ne_table
    exact Bytes.store8_of_ne (by omega)
  have hn := hc.user.2
  have hpde := pdeAt_congr hc.aligned (by omega : n / 1024 < 1024) hdir
  constructor
  case active => exact hc.active
  case aligned => exact hc.aligned
  case user => exact hc.user
  case entry => exact (pteAt_congr hc.aligned hn hdir fun _ => htab).trans hc.entry
  case page_aligned => exact hal
  case page_limit => exact hc.page_limit
  case ne_dir => exact hc.ne_dir
  case ne_table =>
    dsimp only
    rw [tableAt, hpde, ← tableAt]
    exact hc.ne_table
  case ne_frame => exact hc.ne_frame

/-- The loop of `kernel_memcpy` from the byte `off` of the page on. -/
theorem kernelMemcpyLoop_spec (hsize : off + size = 0x1000) :
    ∃ m', kernelMemcpyLoop size m (page + off) (n * 0x1000 + off) = some m'
      ∧ m' = { m with mem := m'.mem }
      ∧ (∀ b, b < page + off ∨ page + 0x1000 ≤ b → m'.mem b = m.mem b)
      ∧ ∀ x, off ≤ x → x < 0x1000 → m'.mem (page + x) = m.mem (pteAddress v + x) := by
  induction size generalizing m off with
  | zero => exact ⟨m, rfl, rfl, fun _ _ => rfl, fun x hx hx' => by omega⟩
  | succ size ih =>
      have hn := hc.user.2
      have hlim : page + 0x1000 ≤ 0x2000000 := hc.page_limit
      have hoff : off < 0x1000 := by omega
      have hdst : u32 (page + off + 1) = page + (off + 1) := by
        rw [u32]
        omega
      have hstep : kernelMemcpyLoop (size + 1) m (page + off) (n * 0x1000 + off)
          = kernelMemcpyLoop size
            { m with mem := m.mem.store8 (page + off) (m.mem (pteAddress v + off)) }
            (page + (off + 1)) (n * 0x1000 + (off + 1)) := by
        simp only [kernelMemcpyLoop, hc.read8 hoff, hc.write8 hoff, hdst, Option.bind_eq_bind,
          Option.bind_some]
        by_cases hz : size = 0
        · rw [hz]
          rfl
        · have hsrc : u32 (n * 0x1000 + off + 1) = n * 0x1000 + (off + 1) := by
            rw [u32]
            omega
          rw [hsrc]
      obtain ⟨m', hrun, heq, hout, hin⟩ := @ih _ (off + 1) (hc.store8 hoff _) (by omega)
      rw [hstep]
      refine ⟨m', hrun, heq, fun b hb => ?_, fun x hx hx' => ?_⟩
      · rw [hout b (by omega)]
        exact Bytes.store8_of_ne (by omega)
      · have hframe : pteAddress v + x ≠ page + off := by
          have hne := hc.ne_frame
          have hal := hc.page_aligned
          have hv := pteAddress_eq v
          omega
        rcases Nat.lt_or_eq_of_le hx with hlt | rfl
        · rw [hin x hlt hx']
          exact Bytes.store8_of_ne hframe
        · rw [hout (page + off) (by omega)]
          exact if_pos rfl

/-- A whole page is copied. -/
theorem kernelMemcpy_page (hpos : page ≠ 0) :
    ∃ m', kernelMemcpy m page (n * 0x1000) 0x1000 = some m'
      ∧ m' = { m with mem := m'.mem }
      ∧ (∀ b, b / 0x1000 * 0x1000 ≠ page → m'.mem b = m.mem b)
      ∧ ∀ x < 0x1000, m'.mem (page + x) = m.mem (pteAddress v + x) := by
  have hn := hc.user.1
  have hal := hc.page_aligned
  obtain ⟨m', hrun, heq, hout, hin⟩ := @kernelMemcpyLoop_spec m index n v page 0 0x1000 hc rfl
  rw [Nat.add_zero, Nat.add_zero] at hrun
  refine ⟨m', ?_, heq, fun b hb => hout b (by omega), fun x hx => hin x (by omega) hx⟩
  rw [kernelMemcpy, if_neg (by omega)]
  exact hrun

end Memcpy

/-! ## The copy so far -/

/-- The space `d` is well formed and lies in pages that were free in the
machine `m₀`, and only such pages have been written. -/
structure Apart (m₀ m : Machine) (d : Nat) : Prop where
  space : SpaceOk m d
  fresh : ∀ p, Owned m.mem d p → m₀.info.Free p
  free : ∀ q, m.info.Free q → m₀.info.Free q
  mem : ∀ b, ¬ m₀.info.Free (b / 0x1000 * 0x1000) → m.mem b = m₀.mem b
  start : m.info.start = m₀.info.start
  bitSize : m.info.bitmap.bitSize = m₀.info.bitmap.bitSize
  cr3 : m.cr3 = m₀.cr3
  kernelPde : m.kernelPde = m₀.kernelPde
  kernelHalf : ∀ i < 256, pdeAt m.mem d i = pdeAt m₀.mem m₀.kernelPde i

section Apart

variable {m₀ m m₁ m₂ : Machine} {index d n j v perm : Nat}

theorem Created.apart (hinfo₀ : m₀.info.Ok) (hk : DirOk m₀.mem m₀.info m₀.kernelPde)
    (hc : Created m₀ m d) : Apart m₀ m d := by
  obtain ⟨j, hj, hd, hinfo⟩ := hc.info
  constructor
  case space => exact createPde_space hinfo₀ hk hc
  case fresh => exact fun p ho => hc.owned ho ▸ hc.free
  case free => exact fun q hq => ((hc.free_iff q).mp hq).1
  case mem => exact fun b hb => hc.mem b fun he => hb (he ▸ hc.free)
  case start => rw [hinfo, Memory32Info.setPage_start]
  case bitSize => rw [hinfo, Memory32Info.setPage_bitSize]
  case cr3 => exact hc.cr3
  case kernelPde => exact hc.kernelPde
  case kernelHalf => exact hc.kernelHalf

/-- The directory of the parent reads as it did. -/
theorem Apart.pdeAt_parent (ha : Apart m₀ m d) (hp : Forkable m₀ index) {i : Nat} (hi : i < 1024) :
    pdeAt m.mem index i = pdeAt m₀.mem index i :=
  pdeAt_congr hp.aligned hi fun b hb => ha.mem b (hb ▸ hp.used index .dir)

/-- The user tables of the parent read as they did. -/
theorem Apart.load32_parent (ha : Apart m₀ m d) (hp : Forkable m₀ index) {i k : Nat}
    (hi : 256 ≤ i) (hi' : i < 1024) (hpres : present (pdeAt m₀.mem index i)) (hk : k < 1024) :
    m.mem.load32 (tableAt m₀.mem index i + 4 * k)
      = m₀.mem.load32 (tableAt m₀.mem index i + 4 * k) := by
  have hal := tableAt_aligned m₀.mem index i
  have hused := hp.used _ (.table i hi hi' hpres)
  refine Bytes.load32_congr fun b _ _ => ha.mem b ?_
  have hb : b / 0x1000 * 0x1000 = tableAt m₀.mem index i := by omega
  rwa [hb]

theorem Apart.pteAt_parent (ha : Apart m₀ m d) (hp : Forkable m₀ index) (hn : UserPage n) :
    pteAt m.mem index n = pteAt m₀.mem index n := by
  obtain ⟨hlo, hhi⟩ := hn
  refine pteAt_congr hp.aligned hhi (fun b hb => ha.mem b (hb ▸ hp.used index .dir)) ?_
  intro hpres b hb
  exact ha.mem b (hb ▸ hp.used _ (.table (n / 1024) (by omega) (by omega) hpres))

theorem Apart.map (ha : Apart m₀ m d) (hg : Grown m m₁ d n j perm) : Apart m₀ m₁ d := by
  have hn := hg.user
  have hfresh : ∀ p, Owned m₁.mem d p → m₀.info.Free p := by
    intro p ho
    rcases hg.owned ha.space ho with ho | rfl | ⟨hfree, -⟩
    · exact ha.fresh p ho
    · exact ha.free _ hg.page_free
    · exact ha.free p hfree
  have htable : Owned m₁.mem d (tableAt m₁.mem d (n / 1024)) := by
    obtain ⟨hlo, hhi⟩ := hn
    exact .table (n / 1024) (by omega) (by omega) hg.mapped.pde_present
  constructor
  case space => exact ha.space.map hg
  case fresh => exact hfresh
  case free => exact fun q hq => ha.free q (hg.free hq).1
  case mem =>
    intro b hb
    rw [hg.mapped.mem b (fun he => hb (he ▸ hfresh d .dir)) fun he => hb (he ▸ hfresh _ htable)]
    exact ha.mem b hb
  case start => exact hg.mapped.start.trans ha.start
  case bitSize =>
    rw [hg.mapped.bitSize, Memory32Info.setPage_bitSize]
    exact ha.bitSize
  case cr3 => exact hg.mapped.cr3.trans ha.cr3
  case kernelPde => exact hg.mapped.kernelPde.trans ha.kernelPde
  case kernelHalf =>
    intro i hi
    obtain ⟨hlo, -⟩ := hn
    rw [hg.mapped.pde i (by omega) (by omega)]
    exact ha.kernelHalf i hi

section Fill

variable (ha : Apart m₀ m₁ d) (hn : UserPage n) (hv : pteAt m₁.mem d n = some v)
  (hm : m₂ = { m₁ with mem := m₂.mem })
  (hmem : ∀ b, b / 0x1000 * 0x1000 ≠ pteAddress v → m₂.mem b = m₁.mem b)
include ha hn hv hmem

/-- What a frame holds is not what the directory says. -/
theorem Apart.pdeAt_fill {i : Nat} (hi : i < 1024) : pdeAt m₂.mem d i = pdeAt m₁.mem d i :=
  pdeAt_congr ha.space.dir.aligned hi fun b hb =>
    hmem b fun he => ha.space.frame_ne_dir n v hn hv (he.symm.trans hb)

theorem Apart.pteAt_fill {n' : Nat} (hn' : n' < 0x100000) :
    pteAt m₂.mem d n' = pteAt m₁.mem d n' := by
  refine pteAt_congr ha.space.dir.aligned hn'
    (fun b hb => hmem b fun he => ha.space.frame_ne_dir n v hn hv (he.symm.trans hb)) ?_
  intro hp b hb
  exact hmem b fun he =>
    ha.space.frame_ne_table n v (n' / 1024) hn hv (by omega) hp (he.symm.trans hb)

include hm

theorem Apart.fill : Apart m₀ m₂ d := by
  have hinfo : m₂.info = m₁.info := by rw [hm]
  have hpde := fun i hi => ha.pdeAt_fill hn hv hmem (i := i) hi
  have hpte : ∀ n' v', UserPage n' → pteAt m₂.mem d n' = some v' → pteAt m₁.mem d n' = some v' :=
    fun n' v' hn' hv' => (ha.pteAt_fill hn hv hmem hn'.2).symm.trans hv'
  constructor
  case space => exact ha.space.congr hinfo hpde hpte
  case fresh => exact fun p ho => ha.fresh p (ho.congr hpde hpte)
  case free => rw [hinfo]; exact ha.free
  case mem =>
    intro b hb
    rw [hmem b fun he => hb (he ▸ ha.fresh _ (.frame n v hn hv))]
    exact ha.mem b hb
  case start => rw [hinfo]; exact ha.start
  case bitSize => rw [hinfo]; exact ha.bitSize
  case cr3 => rw [hm]; exact ha.cr3
  case kernelPde => rw [hm]; exact ha.kernelPde
  case kernelHalf =>
    intro i hi
    rw [hpde i (by omega)]
    exact ha.kernelHalf i hi

end Fill

end Apart

/-- The page `n` of the copy is as the page `n` of the parent was. -/
structure Copied (m₀ m : Machine) (index d n : Nat) : Prop where
  unmapped : pteAt m₀.mem index n = none → pteAt m.mem d n = none
  mapped : ∀ v, pteAt m₀.mem index n = some v → ∃ v', pteAt m.mem d n = some v'
    ∧ ptePerm v' = ptePerm v
    ∧ ∀ x < 0x1000, m.mem (pteAddress v' + x) = m₀.mem (pteAddress v + x)

/-- The pages below `bound` have been copied. -/
structure Forking (m₀ m : Machine) (index d bound : Nat) : Prop where
  apart : Apart m₀ m d
  done : ∀ n, UserPage n → n < bound → Copied m₀ m index d n
  todo : ∀ n, UserPage n → bound ≤ n → pteAt m.mem d n = none

section Forking

variable {m₀ m m₁ : Machine} {index d n j v : Nat}

/-- Pages that the parent does not map are passed over. -/
theorem Forking.skip {bound bound' : Nat} (hf : Forking m₀ m index d bound) (hle : bound ≤ bound')
    (hnone : ∀ n, UserPage n → bound ≤ n → n < bound' → pteAt m₀.mem index n = none) :
    Forking m₀ m index d bound' := by
  refine ⟨hf.apart, fun n hn hlt => ?_, fun n hn hge => hf.todo n hn (by omega)⟩
  by_cases hold : n < bound
  · exact hf.done n hn hold
  · refine ⟨fun _ => hf.todo n hn (by omega), fun v hv => ?_⟩
    rw [hnone n hn (by omega) hlt] at hv
    cases hv

theorem ptePerm_eq (v : Nat) : ptePerm v = v % 1024 := Nat.and_two_pow_sub_one_eq_mod v 10

/-- `memory32_create_map` adds the flag `PTE_P`, which a present entry has. -/
theorem ptePerm_entry {page : Nat} (hpage : page % 0x1000 = 0) (hv : present v) :
    ptePerm (page ||| ptePerm v ||| 1) = ptePerm v := by
  rw [present_eq, decide_eq_true_iff] at hv
  have hlt : ptePerm v < 0x1000 := by
    rw [ptePerm_eq]
    omega
  have hodd : ptePerm v ||| 1 = ptePerm v := by
    have hsplit : ptePerm v = 2 * (v % 1024 / 2) ||| 1 := by
      rw [ptePerm_eq, ← Nat.two_pow_add_eq_or_of_lt (i := 1) (by decide)]
      omega
    rw [hsplit, Nat.or_assoc, Nat.or_self]
  have hmod := entry_mod hpage hlt
  rw [hodd] at hmod
  have hv10 := ptePerm_eq v
  rw [ptePerm_eq (page ||| ptePerm v ||| 1)]
  omega

/-- One page of the parent is mapped and copied. -/
theorem Forking.copy (hp : Forkable m₀ index) (hf : Forking m₀ m index d n) (hn : UserPage n)
    (hv : pteAt m₀.mem index n = some v) (hg : Grown m m₁ d n j (ptePerm v)) :
    ∃ m', kernelMemcpy m₁ (m.info.page j) (n * 0x1000) 0x1000 = some m'
      ∧ Forking m₀ m' index d (n + 1) ∧ m'.info = m₁.info := by
  have hs := hf.apart.space
  have ha₁ := hf.apart.map hg
  have haddr := hg.address hs
  have hnew : pteAt m₁.mem d n = some (m.info.page j ||| ptePerm v ||| 1) := by
    rw [hg.mapped.pte n hn.2, if_pos rfl]
  have hpage₀ := hf.apart.free _ hg.page_free
  have hvfree : ¬ m₀.info.Free (pteAddress v) := hp.used _ (.frame n v hn hv)
  have hsrc : CopySource m₁ index n v (m.info.page j) := by
    have htab : tableAt m₁.mem index (n / 1024) = tableAt m₀.mem index (n / 1024) := by
      rw [tableAt, ha₁.pdeAt_parent hp (by have := hn.2; omega), ← tableAt]
    obtain ⟨hlo, hhi⟩ := id hn
    constructor
    case active => exact ha₁.cr3.trans hp.active
    case aligned => exact hp.aligned
    case user => exact hn
    case entry => exact (ha₁.pteAt_parent hp hn).trans hv
    case page_aligned => exact hg.page_free.aligned hs.info
    case page_limit =>
      have hlim := hp.limit
      have hlt := hg.page_lt
      rw [hf.apart.bitSize] at hlt
      simp only [Memory32Info.page, hf.apart.start] at hlim ⊢
      omega
    case ne_dir => exact fun he => hp.used index .dir (he ▸ hpage₀)
    case ne_table =>
      rw [htab]
      exact fun he => hp.used _ (.table (n / 1024) (by omega) (by omega) (pteAt_eq_some hv).1)
        (he ▸ hpage₀)
    case ne_frame => exact fun he => hvfree (he ▸ hpage₀)
  have hpos := hg.page_free.pos hs.info
  obtain ⟨m', hcopy, heq, hout, hin⟩ := kernelMemcpy_page hsrc (by omega)
  rw [← haddr] at hout
  have hpte := fun n' (hn' : n' < 0x100000) => ha₁.pteAt_fill hn hnew hout hn'
  have hother : ∀ n', UserPage n' → n' ≠ n → pteAt m'.mem d n' = pteAt m.mem d n' := by
    intro n' hn' hne
    rw [hpte n' hn'.2, hg.mapped.pte n' hn'.2, if_neg hne]
  refine ⟨m', hcopy, ⟨ha₁.fill hn hnew heq hout, fun n' hn' hlt => ?_, fun n' hn' hge => ?_⟩,
    by rw [heq]⟩
  · by_cases hnn : n' = n
    · subst hnn
      refine ⟨fun hnone => absurd (hv.symm.trans hnone) (Option.some_ne_none v), fun u hu => ?_⟩
      obtain rfl := Option.some.inj (hv.symm.trans hu)
      refine ⟨_, (hpte n' hn.2).trans hnew, ?_, fun x hx => ?_⟩
      · exact ptePerm_entry (hg.page_free.aligned hs.info) (pteAt_eq_some hv).2.2
      · have hxpage : (pteAddress v + x) / 0x1000 * 0x1000 = pteAddress v := by
          have := pteAddress_eq v
          omega
        rw [haddr, hin x hx]
        exact ha₁.mem _ (hxpage.symm ▸ hvfree)
    · obtain ⟨hunmapped, hmapped⟩ := hf.done n' hn' (by omega)
      refine ⟨fun hnone => (hother n' hn' hnn).trans (hunmapped hnone), fun u hu => ?_⟩
      obtain ⟨u', hu', hperm, hbytes⟩ := hmapped u hu
      refine ⟨u', (hother n' hn' hnn).trans hu', hperm, fun x hx => ?_⟩
      have howned := hs.owned _ (.frame n' u' hn' hu')
      have hxpage : (pteAddress u' + x) / 0x1000 * 0x1000 = pteAddress u' := by
        have := pteAddress_eq u'
        omega
      rw [hout _ (by rw [hxpage, haddr]; exact fun he => howned.2 (he ▸ hg.page_free)),
        hg.frame hs hn' hu' hx]
      exact hbytes x hx
  · rw [hother n' hn' (by omega)]
    exact hf.todo n' hn' (by omega)

/-- The address that `copy_page` puts together for the page. -/
theorem vaddr_eq {i k : Nat} (hk : k < 1024) :
    (i <<< 22) ||| (k <<< 12) = (1024 * i + k) * 0x1000 := by
  have hlt : k <<< 12 < 2 ^ 22 := by
    rw [Nat.shiftLeft_eq]
    omega
  rw [← Nat.shiftLeft_add_eq_or_of_lt hlt, Nat.shiftLeft_eq, Nat.shiftLeft_eq]
  omega

/-- How many user pages from `bound` on the parent maps. -/
def mappedFrom (m₀ : Machine) (index bound : Nat) : Nat :=
  ((Finset.range 0x100000).filter fun n =>
    0x40000 ≤ n ∧ bound ≤ n ∧ (pteAt m₀.mem index n).isSome).card

theorem mappedFrom_anti {bound bound' : Nat} (h : bound ≤ bound') :
    mappedFrom m₀ index bound' ≤ mappedFrom m₀ index bound := by
  refine Finset.card_le_card fun n hn => ?_
  rw [Finset.mem_filter] at hn ⊢
  exact ⟨hn.1, hn.2.1, h.trans hn.2.2.1, hn.2.2.2⟩

theorem mappedFrom_succ (hn : UserPage n) (hv : pteAt m₀.mem index n = some v) :
    mappedFrom m₀ index (n + 1) + 1 ≤ mappedFrom m₀ index n := by
  refine Finset.card_lt_card (Finset.ssubset_iff.mpr ⟨n, fun hmem => ?_, fun k hk => ?_⟩)
  · have := (Finset.mem_filter.mp hmem).2.2.1
    omega
  · rcases Finset.mem_insert.mp hk with rfl | hk
    · exact Finset.mem_filter.mpr
        ⟨Finset.mem_range.mpr hn.2, hn.1, Nat.le_refl _, by rw [hv]; rfl⟩
    · rw [Finset.mem_filter] at hk ⊢
      exact ⟨hk.1, hk.2.1, (Nat.le_succ n).trans hk.2.2.1, hk.2.2.2⟩

/-- What the loops of `copy_page` come back with: they have copied the
pages from `bound` to `bound'`, or there were too few free pages and the
result is negative. Each page takes a frame and perhaps a table. -/
def CopyResult (m₀ m : Machine) (index d bound bound' : Nat)
    (result : Option (Machine × Int)) : Prop :=
  (∃ m', result = some (m', 0) ∧ Forking m₀ m' index d bound'
    ∧ m.info.freePages + 2 * mappedFrom m₀ index bound'
      ≤ m'.info.freePages + 2 * mappedFrom m₀ index bound)
  ∨ (m.info.freePages < 2 * mappedFrom m₀ index bound
    ∧ ∀ m' ret, result = some (m', ret) → ret = -1)

theorem CopyResult.trans {bound₀ bound bound' : Nat} {result : Option (Machine × Int)}
    (h : CopyResult m₀ m₁ index d bound bound' result)
    (hcost : m.info.freePages + 2 * mappedFrom m₀ index bound
      ≤ m₁.info.freePages + 2 * mappedFrom m₀ index bound₀) :
    CopyResult m₀ m index d bound₀ bound' result := by
  rcases h with ⟨m', heq, hf, hle⟩ | ⟨hlt, herr⟩
  · exact Or.inl ⟨m', heq, hf, by omega⟩
  · exact Or.inr ⟨by omega, herr⟩

/-- One entry of a table that is present. -/
theorem copyPtes_present (hp : Forkable m₀ index) {i k count pte : Nat} (hi : 256 ≤ i)
    (hi' : i < 1024) (hk : k < 1024) (hf : Forking m₀ m index d (1024 * i + k))
    (hv : pteAt m₀.mem index (1024 * i + k) = some v) (hload : m.mem.load32 pte = v) :
    (∃ m₁, copyPtes d i (count + 1) m k pte = copyPtes d i count m₁ (k + 1) (pte + 4)
      ∧ Forking m₀ m₁ index d (1024 * i + k + 1)
      ∧ m.info.freePages ≤ m₁.info.freePages + 2)
    ∨ (m.info.freePages ≤ 1
      ∧ ∀ m' ret, copyPtes d i (count + 1) m k pte = some (m', ret) → ret = -1) := by
  have hs := hf.apart.space
  have hn : UserPage (1024 * i + k) := by constructor <;> omega
  have hpres := (pteAt_eq_some hv).2.2
  have hperm : ptePerm v < 0x1000 := by
    rw [ptePerm_eq]
    omega
  have hret : ∀ {o : Option Machine} {m' : Machine} {ret : Int},
      (o.bind fun m₁ => some (m₁, (-1 : Int))) = some (m', ret) → ret = -1 := by
    intro o m' ret h
    obtain ⟨m₁, -, hout⟩ := Option.bind_eq_some_iff.mp h
    exact (congrArg Prod.snd (Option.some.inj hout)).symm
  rw [copyPtes, hload]
  simp only [hpres, Bool.not_true, Bool.false_eq_true, if_false, vaddr_eq hk]
  rcases memory32AllocPage_one hs.info with ⟨heq, hall⟩ | ⟨j, hj, hfree, heq⟩
  · right
    simp only [heq, if_true]
    exact ⟨by rw [Memory32Info.freePages_eq_zero hall]; exact Nat.zero_le 1, fun m' ret => hret⟩
  have hpos := hfree.pos hs.info
  have hne : m.info.page j ≠ 0 := by omega
  have hva : (1024 * i + k) * 0x1000 / 0x1000 = 1024 * i + k := by omega
  simp only [heq, if_neg hne]
  rcases hs.mapPage hj hfree hn hperm hva with
    ⟨m₁, hmap, hg⟩ | ⟨herr, -, hfew⟩
  · left
    obtain ⟨m₂, hcopy, hf₂, hinfo⟩ := hf.copy hp hn hv hg
    refine ⟨m₂, ?_, hf₂, ?_⟩
    · simp only [hmap, Int.lt_irrefl, if_false, hcopy, Option.bind_eq_bind, Option.bind_some]
    · have hcost := hg.freePages_eq hs
      rw [hinfo]
      split at hcost <;> omega
  · right
    refine ⟨hfew, ?_⟩
    simp only [herr, show (-1 : Int) < 0 by decide, if_true]
    exact fun m' ret => hret

/-- The loop over one table of the parent. -/
theorem copyPtes_result (hp : Forkable m₀ index) {i k count : Nat} (hi : 256 ≤ i)
    (hi' : i < 1024) (hpres : present (pdeAt m₀.mem index i)) (hcount : k + count = 1024)
    (hf : Forking m₀ m index d (1024 * i + k)) :
    CopyResult m₀ m index d (1024 * i + k) (1024 * (i + 1))
      (copyPtes d i count m k (tableAt m₀.mem index i + 4 * k)) := by
  induction count generalizing m k with
  | zero =>
      rw [show 1024 * (i + 1) = 1024 * i + k by omega]
      exact Or.inl ⟨m, rfl, hf, Nat.le_refl _⟩
  | succ count ih =>
      have hk : k < 1024 := by omega
      have hload := hf.apart.load32_parent hp hi hi' hpres hk
      have hnext : tableAt m₀.mem index i + 4 * k + 4 = tableAt m₀.mem index i + 4 * (k + 1) := by
        omega
      have hpte : pteAt m₀.mem index (1024 * i + k)
          = if present (m₀.mem.load32 (tableAt m₀.mem index i + 4 * k)) then
              some (m₀.mem.load32 (tableAt m₀.mem index i + 4 * k)) else none := by
        have hdiv : (1024 * i + k) / 1024 = i := by omega
        have hmod : (1024 * i + k) % 1024 = k := by omega
        rw [pteAt, hdiv, hmod, if_pos hpres]
      by_cases hv : present (m₀.mem.load32 (tableAt m₀.mem index i + 4 * k))
      case neg =>
        rw [if_neg hv] at hpte
        have hskip : Forking m₀ m index d (1024 * i + (k + 1)) := by
          refine hf.skip (by omega) fun n _ _ _ => ?_
          rwa [show n = 1024 * i + k by omega]
        have hanti := @mappedFrom_anti m₀ index (1024 * i + k) (1024 * i + (k + 1)) (by omega)
        rw [copyPtes, hload]
        simp only [hv, Bool.not_false, if_true, hnext]
        exact (ih (by omega) hskip).trans (by omega)
      case pos =>
        rw [if_pos hv] at hpte
        have hn : UserPage (1024 * i + k) := by constructor <;> omega
        have hsucc := mappedFrom_succ hn hpte
        rcases copyPtes_present hp hi hi' hk hf hpte hload with ⟨m₁, heq, hf₁, hle⟩ | ⟨hfew, herr⟩
        · rw [heq, hnext]
          have hrest := @ih m₁ (k + 1) (by omega) hf₁
          exact hrest.trans (by rw [← Nat.add_assoc]; omega)
        · exact Or.inr ⟨by omega, herr⟩

/-- The loop over the directory of the parent. -/
theorem copyPdes_result (hp : Forkable m₀ index) {i count : Nat} (hi : 256 ≤ i)
    (hcount : i + count = 1024) (hf : Forking m₀ m index d (1024 * i)) :
    CopyResult m₀ m index d (1024 * i) 0x100000 (copyPdes d count m i (index + 4 * i)) := by
  induction count generalizing m i with
  | zero =>
      rw [show 0x100000 = 1024 * i by omega]
      exact Or.inl ⟨m, rfl, hf, Nat.le_refl _⟩
  | succ count ih =>
      have hi' : i < 1024 := by omega
      have hanti := @mappedFrom_anti m₀ index (1024 * i) (1024 * (i + 1)) (by omega)
      rw [copyPdes, ← pdeAt, hf.apart.pdeAt_parent hp hi', ← tableAt]
      by_cases hpres : present (pdeAt m₀.mem index i)
      case neg =>
        have hskip : Forking m₀ m index d (1024 * (i + 1)) := by
          refine hf.skip (by omega) fun n _ _ _ => ?_
          rw [pteAt, show n / 1024 = i by omega, if_neg hpres]
        simp only [hpres, Bool.not_false, if_true]
        exact (ih (by omega) (by omega) hskip).trans (by omega)
      case pos =>
        simp only [hpres, Bool.not_true, Bool.false_eq_true, if_false, Option.bind_eq_bind]
        rcases copyPtes_result hp hi hi' hpres (Nat.zero_add 1024) hf with
          ⟨m₁, heq, hf₁, hle⟩ | ⟨hfew, herr⟩
        · simp only [Nat.mul_zero, Nat.add_zero] at heq hle
          simp only [heq, Option.bind_some, Int.lt_irrefl, if_false]
          exact (ih (by omega) (by omega) hf₁).trans hle
        · refine Or.inr ⟨hfew, fun m' ret hrun => ?_⟩
          obtain ⟨⟨m₁, ret₁⟩, hptes, hrest⟩ := Option.bind_eq_some_iff.mp hrun
          obtain rfl := herr m₁ ret₁ hptes
          exact (congrArg Prod.snd (Option.some.inj hrest)).symm

end Forking

/-! ## The law of `copy_page` -/

/-- What the call leaves behind: a copy of the user half, next to the
kernel's half, in pages of its own. -/
structure Forked (m m' : Machine) (index d : Nat) : Prop where
  mapped_iff : ∀ va, vmTaskBase ≤ va → va < 2 ^ 32 →
    ((walk m'.mem d va).isSome ↔ (walk m.mem index va).isSome)
  same : ∀ va a f a' f', vmTaskBase ≤ va → va < 2 ^ 32 → walk m.mem index va = some (a, f) →
    walk m'.mem d va = some (a', f') → ptePerm f' = ptePerm f ∧ m'.mem a' = m.mem a
  space : SpaceOk m' d
  fresh : ∀ p, Owned m'.mem d p → m.info.Free p
  kernelHalf : ∀ i < 256, pdeAt m'.mem d i = pdeAt m'.mem m.kernelPde i
  unchanged : ∀ b, ¬ m.info.Free (b / 0x1000 * 0x1000) → m'.mem b = m.mem b

theorem Forking.forked {m m' : Machine} {index d : Nat} (hp : Forkable m index)
    (hf : Forking m m' index d 0x100000) : Forked m m' index d := by
  have hcopied : ∀ va, vmTaskBase ≤ va → va < 2 ^ 32 → Copied m m' index d (va / 0x1000) := by
    intro va hva hlt
    have hva' : 0x40000000 ≤ va := hva
    exact hf.done _ (by constructor <;> omega) (by omega)
  constructor
  case mapped_iff =>
    intro va hva hlt
    obtain ⟨hunmapped, hmapped⟩ := hcopied va hva hlt
    rw [walk_eq, walk_eq, Option.isSome_map, Option.isSome_map]
    cases hv : pteAt m.mem index (va / 0x1000) with
    | none => rw [hunmapped hv]
    | some v =>
        obtain ⟨v', hv', -⟩ := hmapped v hv
        rw [hv']
        rfl
  case same =>
    intro va a f a' f' hva hlt hw hw'
    rw [walk_eq, Option.map_eq_some_iff] at hw hw'
    obtain ⟨v, hv, hvaf⟩ := hw
    obtain ⟨u, hu, huaf⟩ := hw'
    obtain ⟨v', hv', hperm, hbytes⟩ := (hcopied va hva hlt).mapped v hv
    obtain rfl := Option.some.inj (hu.symm.trans hv')
    obtain ⟨rfl, rfl⟩ := Prod.mk.inj hvaf
    obtain ⟨rfl, rfl⟩ := Prod.mk.inj huaf
    refine ⟨?_, hbytes _ (Nat.mod_lt _ (by decide))⟩
    simp only [ptePerm_eq] at hperm ⊢
    omega
  case space => exact hf.apart.space
  case fresh => exact hf.apart.fresh
  case kernelHalf =>
    intro i hi
    rw [hf.apart.kernelHalf i hi]
    refine (pdeAt_congr hp.kernel.aligned (by omega) fun b hb => ?_).symm
    exact hf.apart.mem b (hb ▸ hp.kernel.used)
  case unchanged => exact hf.apart.mem

/-- `copy_page` comes to its end, or there were too few free pages and what
it returns, if it returns, is -1. -/
theorem copyPage_forking {m : Machine} {index : Nat} (hp : Forkable m index) :
    (∃ (m' : Machine) (d : Nat), copyPage m index = some (m', (d : Int))
      ∧ Forking m m' index d 0x100000)
    ∨ (m.info.freePages < 1 + 2 * mappedFrom m index 0x40000
      ∧ ∀ m' r, copyPage m index = some (m', r) → r = -1) := by
  rw [copyPage]
  rcases createPde_created hp.info hp.kernel with ⟨hzero, hall⟩ | ⟨m₁, d, heq, hd, hc⟩
  · right
    simp only [hzero, if_true]
    refine ⟨by rw [Memory32Info.freePages_eq_zero hall]; omega, fun m' r hrun => ?_⟩
    exact (congrArg Prod.snd (Option.some.inj hrun)).symm
  have hstart : pdeIndex vmTaskBase = 256 := by decide
  have hinit : Forking m m₁ index d (1024 * 256) :=
    ⟨hc.apart hp.info hp.kernel, fun n hn hlt => absurd hn.1 (by omega), fun n hn _ => hc.pteAt hn⟩
  have hcost : m.info.freePages ≤ m₁.info.freePages + 1 := by
    refine @Memory32Info.freePages_le m.info d m₁.info ?_ fun q hq hne =>
      (hc.free_iff q).mpr ⟨hq, hne⟩
    exact (hc.apart hp.info hp.kernel).start
  simp only [heq, if_neg hd, hstart, Option.bind_eq_bind]
  rcases copyPdes_result hp (Nat.le_refl 256) (by decide : 256 + 768 = 1024) hinit with
    ⟨m₂, hpdes, hf, -⟩ | ⟨hfew, herr⟩
  · left
    simp only [hpdes, Option.bind_some, Int.lt_irrefl, if_false]
    exact ⟨m₂, d, rfl, hf⟩
  · right
    have hfew' : m₁.info.freePages < 2 * mappedFrom m index 0x40000 := hfew
    refine ⟨by omega, fun m' r hrun => ?_⟩
    obtain ⟨⟨m₂, ret⟩, hpdes, hrest⟩ := Option.bind_eq_some_iff.mp hrun
    obtain rfl := herr m₂ ret hpdes
    exact (congrArg Prod.snd (Option.some.inj hrest)).symm

/-- `copy_page` makes a copy, or there were too few free pages and what
it returns, if it returns, is -1. -/
theorem copyPage_result {m : Machine} {index : Nat} (hp : Forkable m index) :
    (∃ (m' : Machine) (d : Nat), copyPage m index = some (m', (d : Int)) ∧ Forked m m' index d)
    ∨ (m.info.freePages < 1 + 2 * mappedFrom m index 0x40000
      ∧ ∀ m' r, copyPage m index = some (m', r) → r = -1) :=
  (copyPage_forking hp).imp_left fun ⟨m', d, heq, hf⟩ => ⟨m', d, heq, hf.forked hp⟩

/-- With a page for the directory, and two for each page to copy, the
call succeeds. -/
theorem copyPage_succeeds {m : Machine} {index : Nat} (hp : Forkable m index)
    (hfree : 1 + 2 * mappedFrom m index 0x40000 ≤ m.info.freePages) :
    ∃ (m' : Machine) (d : Nat), copyPage m index = some (m', (d : Int)) ∧ Forked m m' index d := by
  rcases copyPage_result hp with hdone | ⟨hfew, -⟩
  · exact hdone
  · omega

/-- One user page, in the frame 0x102000 behind the table 0x101000. Its
first byte is 42. -/
def forkMachine : Machine where
  mem := fun a =>
    if a = 0x100400 then 0x07 else if a = 0x100401 then 0x10 else if a = 0x100402 then 0x10
    else if a = 0x101000 then 0x07 else if a = 0x101001 then 0x20 else if a = 0x101002 then 0x10
    else if a = 0x102000 then 42 else 0
  cr3 := 0x100000
  kernelPde := 0x8000
  info :=
    { start := 0x100000
      pageSize := 0x1000
      bitmap := { bitSize := 16, bits := fun i => if i = 0 then 7 else 0 } }

theorem forkMachine_free {p : Nat} (h : forkMachine.info.Free p) : 0x103000 ≤ p := by
  obtain ⟨i, -, hbit, rfl⟩ := h
  have h₀ : i ≠ 0 := by
    rintro rfl
    exact absurd hbit (by decide)
  have h₁ : i ≠ 1 := by
    rintro rfl
    exact absurd hbit (by decide)
  have h₂ : i ≠ 2 := by
    rintro rfl
    exact absurd hbit (by decide)
  simp only [Memory32Info.page, forkMachine]
  omega

/-- Apart from its three words, the memory is empty. -/
theorem forkMachine_word {a : Nat} (h : a + 4 ≤ 0x102000)
    (h₁ : a + 4 ≤ 0x100400 ∨ 0x100404 ≤ a) (h₂ : a + 4 ≤ 0x101000 ∨ 0x101004 ≤ a) :
    forkMachine.mem.load32 a = 0 := by
  have hz : ∀ b, a ≤ b → b < a + 4 → forkMachine.mem b = 0 := by
    intro b hb hb'
    simp only [forkMachine]
    iterate 7 rw [if_neg (by omega)]
  simp only [Bytes.load32]
  rw [hz a (by omega) (by omega), hz (a + 1) (by omega) (by omega),
    hz (a + 2) (by omega) (by omega), hz (a + 3) (by omega) (by omega)]
  rfl

theorem forkMachine_pde {i : Nat} (hi : i < 1024)
    (hp : present (pdeAt forkMachine.mem 0x100000 i)) :
    i = 256 := by
  by_contra hne
  rw [pdeAt, forkMachine_word (by omega) (by omega) (by omega)] at hp
  exact absurd hp (by decide)

theorem forkMachine_pte {n v : Nat} (hn : n < 0x100000)
    (hv : pteAt forkMachine.mem 0x100000 n = some v) : n = 0x40000 ∧ v = 0x102007 := by
  obtain ⟨hp, hload, hpv⟩ := pteAt_eq_some hv
  have hi := forkMachine_pde (by omega) hp
  have htable : tableAt forkMachine.mem 0x100000 256 = 0x101000 := by decide
  rw [hi, htable] at hload
  have hk : n % 1024 = 0 := by
    by_contra hne
    rw [forkMachine_word (by omega) (by omega) (by omega)] at hload
    rw [← hload] at hpv
    exact absurd hpv (by decide)
  rw [hk] at hload
  exact ⟨by omega, hload.symm.trans (by decide)⟩

theorem forkMachine_forkable : Forkable forkMachine 0x100000 := by
  constructor
  case info => exact ⟨rfl, by decide, by decide, by decide⟩
  case limit => decide
  case kernel =>
    refine .of_absent (by decide) (by decide) (fun h => ?_) fun i hi => ?_
    · have hge : 0x103000 ≤ 0x8000 := forkMachine_free h
      omega
    · have hz : pdeAt forkMachine.mem 0x8000 i = 0 :=
        forkMachine_word (by omega) (by omega) (by omega)
      exact fun hp => absurd (hz ▸ hp) (by decide)
  case active => rfl
  case aligned => decide
  case used =>
    intro p ho hf
    have hge := forkMachine_free hf
    cases ho with
    | dir => omega
    | table i _ hi hp =>
        rw [forkMachine_pde hi hp, show tableAt forkMachine.mem 0x100000 256 = 0x101000 by decide]
          at hge
        omega
    | frame n v hn hv =>
        rw [(forkMachine_pte hn.2 hv).2, show pteAddress 0x102007 = 0x102000 by decide] at hge
        omega

theorem forkMachine_mapped : mappedFrom forkMachine 0x100000 0x40000 ≤ 1 := by
  refine (Finset.card_le_card (t := {0x40000}) fun n hn => ?_).trans_eq (Finset.card_singleton _)
  obtain ⟨hlt, -, -, hv⟩ := Finset.mem_filter.mp hn
  obtain ⟨v, hv⟩ := Option.isSome_iff_exists.mp hv
  exact Finset.mem_singleton.mpr (forkMachine_pte (Finset.mem_range.mp hlt) hv).1

/-- Fork isolation. A call of `copy_page` that returns a directory has
copied every user page, in pages that were free, and has changed no page
that was not. -/
theorem copyPage_isolated {m m' : Machine} {index : Nat} {r : Int} (hp : Forkable m index)
    (hrun : copyPage m index = some (m', r)) (hr : r ≠ -1) :
    ∃ d : Nat, r = d ∧ Forked m m' index d := by
  rcases copyPage_result hp with ⟨m₁, d, heq, hf⟩ | ⟨-, herr⟩
  · obtain ⟨rfl, rfl⟩ := Prod.mk.inj (Option.some.inj (heq.symm.trans hrun))
    exact ⟨d, rfl, hf⟩
  · exact absurd (herr m' r hrun) hr

/-- The page and its contents are found again in the copy. -/
theorem copyPage_isolated_one :
    ∃ (m' : Machine) (d a f : Nat), copyPage forkMachine 0x100000 = some (m', (d : Int))
      ∧ walk m'.mem d 0x40000000 = some (a, f) ∧ ptePerm f = 7 ∧ m'.mem a = 42
      ∧ m'.mem 0x102000 = 42 := by
  have hfree : 1 + 2 * mappedFrom forkMachine 0x100000 0x40000 ≤ forkMachine.info.freePages := by
    have hmapped := forkMachine_mapped
    have hpages : forkMachine.info.freePages = 13 := by decide
    omega
  obtain ⟨m', d, hrun, -⟩ := copyPage_succeeds forkMachine_forkable hfree
  obtain ⟨d', heq, hf⟩ := copyPage_isolated forkMachine_forkable hrun (by omega)
  obtain rfl : d = d' := by exact_mod_cast heq
  have hw : walk forkMachine.mem 0x100000 0x40000000 = some (0x102000, 7) := by decide
  obtain ⟨⟨a, f⟩, haf⟩ := Option.isSome_iff_exists.mp
    ((hf.mapped_iff 0x40000000 (by decide) (by decide)).mpr (by rw [hw]; rfl))
  obtain ⟨hperm, hbyte⟩ := hf.same _ _ _ _ _ (by decide) (by decide) hw haf
  refine ⟨m', d, a, f, hrun, haf, hperm, hbyte, ?_⟩
  refine hf.unchanged 0x102000 fun hfree => ?_
  have hge : 0x103000 ≤ 0x102000 / 0x1000 * 0x1000 := forkMachine_free hfree
  omega

end Csos
