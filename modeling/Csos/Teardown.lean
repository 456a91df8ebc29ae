import Csos.AddressSpace
import Csos.Lib.Run

/-!
# Tearing an address space down

`destroy_pde` should give back what was allocated for a space: its
directory, its user tables and its user frames. It gives back the
frames; the tables it forgets, and where it should free the directory
it frees the page that the word behind the directory names, because
its pointer has moved one past the end by then. `destroyPde_exact_iff`
says when that comes to the same.
-/

namespace Csos

open Lib

/-! ## Freed pages -/

/-- The bits of the pages in `P` are cleared, and no others change. -/
structure Freed (info info' : Memory32Info) (P : Nat → Prop) : Prop where
  ok : info'.Ok
  start : info'.start = info.start
  bitSize : info'.bitmap.bitSize = info.bitmap.bitSize
  cleared : ∀ i < info.bitmap.bitSize, P (info.page i) → bitmapGetBit info'.bitmap i = false
  kept : ∀ i, ¬ (i < info.bitmap.bitSize ∧ P (info.page i)) →
    bitmapGetBit info'.bitmap i = bitmapGetBit info.bitmap i

namespace Freed

variable {info info₁ info' : Memory32Info} {P Q : Nat → Prop} {a : Nat}

theorem refl (hi : info.Ok) (hP : ∀ p, ¬ P p) : Freed info info P :=
  ⟨hi, rfl, rfl, fun _ _ h => absurd h (hP _), fun _ _ => rfl⟩

theorem trans (h : Freed info info₁ P) (h' : Freed info₁ info' Q) :
    Freed info info' fun p => P p ∨ Q p := by
  have hpage : ∀ i, info₁.page i = info.page i := by
    intro i
    rw [Memory32Info.page, Memory32Info.page, h.start]
  constructor
  case ok => exact h'.ok
  case start => exact h'.start.trans h.start
  case bitSize => exact h'.bitSize.trans h.bitSize
  case cleared =>
    intro i hi hPQ
    by_cases hQ : Q (info.page i)
    · exact h'.cleared i (by rwa [h.bitSize]) (by rwa [hpage])
    · have hP := hPQ.resolve_right hQ
      rw [h'.kept i (fun hn => hQ (hpage i ▸ hn.2))]
      exact h.cleared i hi hP
  case kept =>
    intro i hn
    rw [h'.kept i, h.kept i]
    · exact fun hP => hn ⟨hP.1, Or.inl hP.2⟩
    · rw [h.bitSize, hpage]
      exact fun hQ => hn ⟨hQ.1, Or.inr hQ.2⟩

theorem congr (h : Freed info info' P) (hPQ : ∀ p, P p ↔ Q p) : Freed info info' Q := by
  obtain rfl : P = Q := funext fun p => propext (hPQ p)
  exact h

end Freed

/-- `memory32_free_page` clears the bit of its page, if it has one. -/
theorem freePage_freed {info : Memory32Info} {a : Nat} (hi : info.Ok) (ha : a % 0x1000 = 0)
    (hlt : a < 2 ^ 32) : Freed info (memory32FreePage info a 1) (· = a) := by
  have hal := hi.aligned
  have hlim := hi.limit
  simp only [Memory32Info.page] at hlim
  obtain ⟨j, hj⟩ : ∃ j, j = u32 (a + 0x100000000 - info.start) / info.pageSize := ⟨_, rfl⟩
  have hset : memory32FreePage info a 1 = info.setPage j false := by
    rw [memory32FreePage, ← hj]
    rfl
  have hidx : ∀ i < info.bitmap.bitSize, i = j ↔ info.page i = a := by
    intro i hib
    rw [hj, hi.pageSize, u32, Memory32Info.page]
    omega
  rw [hset]
  constructor
  case ok => exact hi.setPage j false
  case start => rfl
  case bitSize => exact Memory32Info.setPage_bitSize false
  case cleared =>
    intro i hib hia
    have hij : i = j := (hidx i hib).mpr hia
    rw [Memory32Info.setPage, bitmapGetBit_setBits_one (hij ▸ hib), if_pos hij]
  case kept =>
    intro i hn
    by_cases hlt : j < info.bitmap.bitSize
    · have hij : i ≠ j := fun hij => hn ⟨hij ▸ hlt, (hidx i (hij ▸ hlt)).mp hij⟩
      rw [Memory32Info.setPage, bitmapGetBit_setBits_one hlt, if_neg hij]
    · rw [Memory32Info.setPage, bitmapSetBits_one_of_le (by omega)]

/-! ## The loops of `destroy_pde` -/

theorem pteAddress_aligned (v : Nat) : pteAddress v % 0x1000 = 0 := by
  rw [pteAddress_eq]
  omega

theorem pteAddress_lt {v : Nat} (hv : v < 2 ^ 32) : pteAddress v < 2 ^ 32 := by
  rw [pteAddress_eq]
  omega

/-- The first of a row of words, and the others. -/
theorem exists_word_succ {P : Nat → Prop} {a n : Nat} :
    (∃ k < n + 1, P (a + 4 * k)) ↔ P a ∨ ∃ k < n, P (a + 4 + 4 * k) := by
  constructor
  · rintro ⟨k, hk, hp⟩
    cases k with
    | zero => exact Or.inl hp
    | succ k => exact Or.inr ⟨k, by omega, by rwa [show a + 4 + 4 * k = a + 4 * (k + 1) by omega]⟩
  · rintro (hp | ⟨k, hk, hp⟩)
    · exact ⟨0, by omega, hp⟩
    · exact ⟨k + 1, by omega, by rwa [show a + 4 * (k + 1) = a + 4 + 4 * k by omega]⟩

/-- The entry at `a` is present and names the page `p`. -/
def Names (mem : Bytes) (a p : Nat) : Prop :=
  present (mem.load32 a) ∧ pteAddress (mem.load32 a) = p

/-- The inner loop frees the pages of a table. -/
theorem destroyPtes_freed {m : Machine} (hi : m.info.Ok) (pte n : Nat) :
    ∃ info, destroyPtes m pte n = { m with info }
      ∧ Freed m.info info fun p => ∃ k < n, Names m.mem (pte + 4 * k) p := by
  induction n generalizing m pte with
  | zero => exact ⟨m.info, rfl, .refl hi fun p ⟨k, hk, _⟩ => by omega⟩
  | succ n ih =>
      have hsplit := fun p => @exists_word_succ (fun a => Names m.mem a p) pte n
      rw [destroyPtes]
      by_cases hp : present (m.mem.load32 pte)
      · have hfree := freePage_freed hi (pteAddress_aligned (m.mem.load32 pte))
          (pteAddress_lt (Bytes.load32_lt ..))
        simp only [if_pos hp]
        obtain ⟨info, heq, hf⟩ := @ih { m with
          info := memory32FreePage m.info (pteAddress (m.mem.load32 pte)) 1 } hfree.ok (pte + 4)
        refine ⟨info, heq, (hfree.trans hf).congr fun p => ?_⟩
        rw [hsplit p]
        exact or_congr_left ⟨fun h => ⟨hp, h.symm⟩, fun h => h.2.symm⟩
      · simp only [if_neg hp]
        obtain ⟨info, heq, hf⟩ := ih hi (pte + 4)
        refine ⟨info, heq, hf.congr fun p => ?_⟩
        rw [hsplit p]
        exact ⟨Or.inr, fun h => h.resolve_left fun hn => hp hn.1⟩

/-- The outer loop frees the pages of all tables from `pde` on. -/
theorem destroyPdes_freed {m : Machine} (hi : m.info.Ok) (pde n : Nat) :
    ∃ info, destroyPdes m pde n = { m with info }
      ∧ Freed m.info info fun p => ∃ i < n, present (m.mem.load32 (pde + 4 * i))
        ∧ ∃ k < 1024, Names m.mem (pteAddress (m.mem.load32 (pde + 4 * i)) + 4 * k) p := by
  induction n generalizing m pde with
  | zero => exact ⟨m.info, rfl, .refl hi fun p ⟨k, hk, _⟩ => by omega⟩
  | succ n ih =>
      have hsplit := fun p => @exists_word_succ (fun a => present (m.mem.load32 a)
        ∧ ∃ k < 1024, Names m.mem (pteAddress (m.mem.load32 a) + 4 * k) p) pde n
      rw [destroyPdes]
      by_cases hp : present (m.mem.load32 pde)
      · obtain ⟨info₁, heq₁, hf₁⟩ := destroyPtes_freed hi (pteAddress (m.mem.load32 pde)) 1024
        simp only [if_pos hp, heq₁]
        obtain ⟨info, heq, hf⟩ := @ih { m with info := info₁ } hf₁.ok (pde + 4)
        refine ⟨info, heq, (hf₁.trans hf).congr fun p => ?_⟩
        rw [hsplit p]
        simp only [hp, true_and]
      · simp only [if_neg hp]
        obtain ⟨info, heq, hf⟩ := ih hi (pde + 4)
        refine ⟨info, heq, hf.congr fun p => ?_⟩
        rw [hsplit p]
        exact ⟨Or.inr, fun h => h.resolve_left fun hn => hp hn.1⟩

/-- `d` maps the page `p` at some user address. -/
def UserFrame (mem : Bytes) (d p : Nat) : Prop :=
  ∃ n v, UserPage n ∧ pteAt mem d n = some v ∧ pteAddress v = p

/-- The entries that the loops visit are those of the user pages. -/
theorem userFrame_iff {mem : Bytes} {d p : Nat} :
    (∃ i < 768, present (mem.load32 (d + 4 * 256 + 4 * i))
      ∧ ∃ k < 1024, Names mem (pteAddress (mem.load32 (d + 4 * 256 + 4 * i)) + 4 * k) p)
    ↔ UserFrame mem d p := by
  have hword : ∀ i, d + 4 * 256 + 4 * i = d + 4 * (256 + i) := by omega
  constructor
  · rintro ⟨i, hi, hp, k, hk, hpk, rfl⟩
    rw [hword] at hp hpk ⊢
    have hdiv : (1024 * (256 + i) + k) / 1024 = 256 + i := by omega
    have hmod : (1024 * (256 + i) + k) % 1024 = k := by omega
    refine ⟨1024 * (256 + i) + k, _, ⟨by omega, by omega⟩, ?_, rfl⟩
    rw [pteAt, hdiv, hmod, pdeAt, if_pos hp]
    exact if_pos hpk
  · rintro ⟨n, v, ⟨hn, hn'⟩, hv, rfl⟩
    obtain ⟨hp, hload, hpv⟩ := pteAt_eq_some hv
    have hidx : d + 4 * 256 + 4 * (n / 1024 - 256) = d + 4 * (n / 1024) := by omega
    refine ⟨n / 1024 - 256, by omega, ?_⟩
    rw [hidx]
    refine ⟨hp, n % 1024, by omega, ?_, ?_⟩
    · exact hload ▸ hpv
    · exact congrArg pteAddress hload

theorem read32_lt {m : Machine} {a w : Nat} (h : m.read32 a = some w) : w < 2 ^ 32 := by
  simp only [Machine.read32, Option.bind_eq_bind, Option.bind_eq_some_iff] at h
  obtain ⟨b₀, -, b₁, -, b₂, -, b₃, -, h⟩ := h
  obtain rfl := Option.some.inj h
  have h₀ := b₀.isLt
  have h₁ := b₁.isLt
  have h₂ := b₂.isLt
  have h₃ := b₃.isLt
  omega

/-- What `destroy_pde` clears: the user frames, and the page that the
word behind the directory names. -/
theorem destroyPde_freed {m : Machine} {d : Nat} (hi : m.info.Ok) :
    destroyPde m d = none ∧ m.read32 (d + 0x1000) = none
    ∨ ∃ w info, m.read32 (d + 0x1000) = some w ∧ destroyPde m d = some { m with info }
      ∧ Freed m.info info fun p => UserFrame m.mem d p ∨ p = pdeAddress w := by
  have hstart : pdeIndex vmTaskBase = 256 := by decide
  obtain ⟨info, heq, hf⟩ := destroyPdes_freed hi (d + 4 * 256) 768
  have hread : ∀ info, Machine.read32 { m with info } = m.read32 := fun _ => rfl
  simp only [destroyPde, hstart, Nat.reduceSub, Nat.reduceMul, heq, hread]
  cases hw : m.read32 (d + 4096) with
  | none => exact Or.inl ⟨rfl, rfl⟩
  | some w =>
      have hlt := read32_lt hw
      have hfree := freePage_freed hf.ok (pteAddress_aligned w) (pteAddress_lt hlt)
      exact Or.inr ⟨w, _, rfl, rfl, (hf.trans hfree).congr fun p => or_congr_left userFrame_iff⟩

/-! ## When the teardown is exact -/

/-- The bits of the pages of the space are cleared, and no others change. -/
structure ExactTeardown (m m' : Machine) (d : Nat) : Prop where
  cleared : ∀ i < m.info.bitmap.bitSize, Owned m.mem d (m.info.page i) →
    bitmapGetBit m'.info.bitmap i = false
  kept : ∀ i, ¬ (i < m.info.bitmap.bitSize ∧ Owned m.mem d (m.info.page i)) →
    bitmapGetBit m'.info.bitmap i = bitmapGetBit m.info.bitmap i

section Exact

variable {m m' : Machine} {d : Nat}

/-- The word behind the directory names the directory. -/
def WordNamesDir (m : Machine) (d : Nat) : Prop :=
  ∃ w, m.read32 (d + 0x1000) = some w ∧ pdeAddress w = d

/-- A page of the space that is no user frame is only cleared when the
word behind the directory names it. -/
theorem named_of_exact (hs : SpaceOk m d) {w : Nat} {info : Memory32Info} {p : Nat}
    (hf : Freed m.info info fun p => UserFrame m.mem d p ∨ p = pdeAddress w)
    (hex : ExactTeardown m { m with info } d) (ho : Owned m.mem d p)
    (hp : ¬ UserFrame m.mem d p) : p = pdeAddress w := by
  obtain ⟨⟨i, hi, rfl⟩, hused⟩ := hs.owned p ho
  have hclear := hex.cleared i hi ho
  by_contra hne
  rw [hf.kept i (fun h => h.2.elim hp hne)] at hclear
  exact hused ⟨i, hi, hclear, rfl⟩

theorem exact_iff_no_table (hs : SpaceOk m d) :
    (∃ m', destroyPde m d = some m' ∧ ExactTeardown m m' d)
      ↔ (∀ i, 256 ≤ i → i < 1024 → ¬ present (pdeAt m.mem d i)) ∧ WordNamesDir m d := by
  have hdir : ¬ UserFrame m.mem d d := fun ⟨n, v, hn, hv, he⟩ => hs.frame_ne_dir n v hn hv he
  constructor
  · rintro ⟨m', hrun, hex⟩
    rcases @destroyPde_freed m d hs.info with ⟨hnone, -⟩ | ⟨w, info, hw, hsome, hf⟩
    · rw [hnone] at hrun
      cases hrun
    obtain rfl := Option.some.inj (hsome.symm.trans hrun)
    have hname := named_of_exact hs hf hex .dir hdir
    refine ⟨fun i hi hi' hp => ?_, w, hw, hname.symm⟩
    -- a table would have to be named by the same word
    have htab : ¬ UserFrame m.mem d (tableAt m.mem d i) :=
      fun ⟨n, v, hn, hv, he⟩ => hs.frame_ne_table n v i hn hv hi' hp he
    have := named_of_exact hs hf hex (.table i hi hi' hp) htab
    exact hs.dir.table_ne i hi' hp (this.trans hname.symm)
  · rintro ⟨hno, w, hw, hname⟩
    rcases @destroyPde_freed m d hs.info with ⟨-, hnone⟩ | ⟨w', info, hw', hsome, hf⟩
    · rw [hw] at hnone
      cases hnone
    obtain rfl := Option.some.inj (hw.symm.trans hw')
    have hframe : ∀ p, ¬ UserFrame m.mem d p := by
      rintro p ⟨n, v, ⟨hn, hn'⟩, hv, -⟩
      exact hno (n / 1024) (by omega) (by omega) (pteAt_eq_some hv).1
    have howned : ∀ p, Owned m.mem d p ↔ (UserFrame m.mem d p ∨ p = pdeAddress w) := by
      intro p
      rw [hname]
      constructor
      · intro ho
        cases ho with
        | dir => exact Or.inr rfl
        | table i hi hi' hp => exact absurd hp (hno i hi hi')
        | frame n v hn hv => exact Or.inl ⟨n, v, hn, hv, rfl⟩
      · rintro (hp | rfl)
        · exact absurd hp (hframe p)
        · exact .dir
    refine ⟨_, hsome, fun i hi ho => hf.cleared i hi ((howned _).mp ho), fun i hn => ?_⟩
    exact hf.kept i fun h => hn ⟨h.1, (howned _).mpr h.2⟩

end Exact

/-! ## Spaces as they are built -/

/-- A call of `alloc_task_pages`. -/
structure PageCall where
  index : Nat
  size : Nat
  perm : Nat

namespace PageCall

/-- The call is for user addresses at which nothing is mapped yet. -/
def Ok (d : Nat) (m : Machine) (c : PageCall) : Prop :=
  c.perm < 0x1000 ∧ vmTaskBase ≤ c.index ∧ c.index + ceilPage c.size ≤ 2 ^ 32
    ∧ ∀ n, c.index / 0x1000 ≤ n → n < c.index / 0x1000 + ceilPage c.size / 0x1000 →
      pteAt m.mem d n = none

/-- The call, when it succeeds. -/
def step (d : Nat) (m : Machine) (c : PageCall) : Option Machine :=
  let r := allocTaskPages m d c.index c.size c.perm
  if r.2 = 0 then some r.1 else none

variable {m m' : Machine} {d : Nat} {c : PageCall}

theorem ceilPage_mod (size : Nat) : ceilPage size / 0x1000 * 0x1000 = ceilPage size := by
  rw [ceilPage]
  omega

/-- What one call does to the space. -/
theorem step_grows (hs : SpaceOk m d) (hc : c.Ok d m) (hstep : c.step d m = some m') :
    Grows d m m' ∧ (ceilPage c.size = 0 → m' = m)
      ∧ (ceilPage c.size ≠ 0 → ∃ n, UserPage n ∧ pteAt m'.mem d n ≠ none) := by
  obtain ⟨hperm, hbase, hlim, hnone⟩ := hc
  have hbase' : 0x40000000 ≤ c.index := hbase
  have hmod := ceilPage_mod c.size
  have hret : (allocTaskPages m d c.index c.size c.perm).2 = 0 := by
    by_contra hne
    simp only [step, if_neg hne] at hstep
    cases hstep
  have hm' : (allocTaskPages m d c.index c.size c.perm).1 = m' := by
    simp only [step, if_pos hret] at hstep
    exact Option.some.inj hstep
  have hrun : allocTaskPagesLoop m d c.index c.perm (ceilPage c.size / 0x1000) = (m', 0) :=
    Prod.ext hm' hret
  obtain ⟨hgrows, hin, -⟩ := allocTaskPagesLoop_grows hs hbase (by omega) hperm hnone hrun
  refine ⟨hgrows, fun hz => ?_, fun hne => ⟨c.index / 0x1000, ?_, hin _ (Nat.le_refl _) (by omega)⟩⟩
  · rw [hz] at hrun
    exact (congrArg Prod.fst hrun).symm
  · constructor <;> omega

end PageCall

/-- A run of calls: the space stays well formed, and some page is mapped
in the end exactly when some call asked for one. -/
theorem pageCalls_space {m m' : Machine} {d : Nat} {calls : List PageCall} (hs : SpaceOk m d)
    (hok : Always (fun m c => PageCall.step d m c) (fun m c => PageCall.Ok d m c) m calls)
    (hrun : run (fun m c => PageCall.step d m c) m calls = some m') :
    SpaceOk m' d ∧ Grows d m m' ∧ ((∀ c ∈ calls, ceilPage c.size = 0) → m' = m)
      ∧ ((∃ c ∈ calls, ceilPage c.size ≠ 0) → ∃ n, UserPage n ∧ pteAt m'.mem d n ≠ none) := by
  induction calls generalizing m with
  | nil =>
      obtain rfl := Option.some.inj hrun
      exact ⟨hs, .refl m, fun _ => rfl, fun ⟨c, hc, _⟩ => absurd hc List.not_mem_nil⟩
  | cons c calls ih =>
      rw [run_cons, Option.bind_eq_some_iff] at hrun
      obtain ⟨m₁, h₁, hrest⟩ := hrun
      obtain ⟨hg, hzero, hsome⟩ := PageCall.step_grows hs hok.1 h₁
      obtain ⟨hs', hgrows, hz, hmap⟩ := ih (hg.space hs) (hok.2 m₁ h₁) hrest
      refine ⟨hs', hg.trans hgrows, fun hall => ?_, ?_⟩
      · rw [hz fun c' hc' => hall c' (List.mem_cons_of_mem _ hc'), hzero (hall c (by simp))]
      · rintro ⟨c', hc', hne⟩
        rcases List.mem_cons.mp hc' with rfl | hc'
        · obtain ⟨n, hn, hv⟩ := hsome hne
          obtain ⟨v, hv⟩ := Option.ne_none_iff_exists'.mp hv
          exact ⟨n, hn, by rw [hgrows.pteAt hn.2 hv]; exact nofun⟩
        · exact hmap ⟨c', hc', hne⟩

/-- When `destroy_pde` gives back exactly the pages of the space: no page
was ever allocated for it, and the word behind the directory happens to
name the directory. -/
theorem destroyPde_exact_iff {m₀ m₁ m₂ : Machine} {d : Nat} {calls : List PageCall}
    (hinfo : m₀.info.Ok) (hk : DirOk m₀.mem m₀.info m₀.kernelPde)
    (hcreate : memory32CreatePde m₀ = (m₁, d)) (hd : d ≠ 0)
    (hok : Always (fun m c => PageCall.step d m c) (fun m c => PageCall.Ok d m c) m₁ calls)
    (hrun : run (fun m c => PageCall.step d m c) m₁ calls = some m₂) :
    (∃ m₃, destroyPde m₂ d = some m₃ ∧ ExactTeardown m₂ m₃ d)
      ↔ (∀ c ∈ calls, ceilPage c.size = 0) ∧ WordNamesDir m₂ d := by
  rcases createPde_created hinfo hk with ⟨hzero, -⟩ | ⟨m, d', heq, -, hc⟩
  · exact absurd (congrArg Prod.snd (hcreate.symm.trans hzero)) hd
  obtain ⟨rfl, rfl⟩ : m₁ = m ∧ d = d' := Prod.mk.inj (hcreate.symm.trans heq)
  have hs := createPde_space hinfo hk hc
  obtain ⟨hs₂, -, hz, hmap⟩ := pageCalls_space hs hok hrun
  rw [exact_iff_no_table hs₂]
  refine and_congr_left fun _ => ⟨fun hno => ?_, fun hall i hi hi' hp => ?_⟩
  · by_contra hex
    simp only [not_forall] at hex
    obtain ⟨c, hc, hne⟩ := hex
    obtain ⟨n, ⟨hn, hn'⟩, hv⟩ := hmap ⟨c, hc, hne⟩
    obtain ⟨v, hv⟩ := Option.ne_none_iff_exists'.mp hv
    exact hno (n / 1024) (by omega) (by omega) (pteAt_eq_some hv).1
  · rw [hz hall, hc.userHalf i hi hi'] at hp
    exact absurd hp (by decide)

/-- The small machine, with a word in memory that names page 0x101000. -/
def wordMachine : Machine :=
  { smallMachine with
    mem := fun a => if a = 0x102001 then 0x10 else if a = 0x102002 then 0x10 else 0 }

theorem wordMachine_dirOk : DirOk wordMachine.mem wordMachine.info wordMachine.kernelPde := by
  refine (smallMachine_dirOk (by decide) (by decide) (by decide)).congr (fun j hj => ?_)
    fun p hp => hp
  refine Bytes.load32_congr fun b _ hb => ?_
  have hb' : b < 0x8000 + 4 * j + 4 := hb
  simp only [wordMachine]
  rw [if_neg (by omega), if_neg (by omega)]
  rfl

/-- The one layout that hides the defect: nothing mapped, and the word
behind the directory names it. -/
theorem destroyPde_exact_word :
    ∃ m₃, destroyPde (memory32CreatePde wordMachine).1 0x101000 = some m₃
      ∧ ExactTeardown (memory32CreatePde wordMachine).1 m₃ 0x101000 := by
  have hcreate : memory32CreatePde wordMachine = ((memory32CreatePde wordMachine).1, 0x101000) :=
    Prod.ext rfl (by decide)
  have hword : WordNamesDir (memory32CreatePde wordMachine).1 0x101000 :=
    ⟨0x101000, by decide +kernel, by decide⟩
  have hinfo : wordMachine.info.Ok := smallMachine_infoOk
  exact (@destroyPde_exact_iff wordMachine _ _ _ [] hinfo wordMachine_dirOk hcreate
    (by decide) trivial rfl).mpr ⟨by simp, hword⟩

/-- With one page mapped the directory and its table are lost. -/
theorem destroyPde_leaks :
    ∃ m₁ m₂, memory32CreatePde smallMachine = (m₁, 0x101000)
      ∧ Always (fun m c => PageCall.step 0x101000 m c) (fun m c => PageCall.Ok 0x101000 m c) m₁
          [⟨0x40000000, 0x1000, 7⟩]
      ∧ run (fun m c => PageCall.step 0x101000 m c) m₁ [⟨0x40000000, 0x1000, 7⟩] = some m₂
      ∧ ¬ ∃ m₃, destroyPde m₂ 0x101000 = some m₃ ∧ ExactTeardown m₂ m₃ 0x101000 := by
  have hk := smallMachine_dirOk (d := 0x8000) (by decide) (by decide) (by decide)
  rcases createPde_created smallMachine_infoOk hk with ⟨hzero, -⟩ | ⟨m₁, d, heq, -, hc⟩
  · exact absurd (congrArg Prod.snd hzero) (by decide)
  obtain rfl : d = 0x101000 := (congrArg Prod.snd heq).symm.trans (by decide)
  have hs := createPde_space smallMachine_infoOk hk hc
  have hok : Always (fun m c => PageCall.step 0x101000 m c)
      (fun m c => PageCall.Ok 0x101000 m c) m₁ [⟨0x40000000, 0x1000, 7⟩] := by
    refine ⟨⟨by decide, by decide, by decide, fun n hn hn' => hc.pteAt ⟨?_, ?_⟩⟩,
      fun _ _ => trivial⟩
    · exact hn
    · have : n < 0x40000 + 1 := hn'
      omega
  have hret : (allocTaskPages (memory32CreatePde smallMachine).1 0x101000 0x40000000 0x1000 7).2
      = 0 := by decide +kernel
  rw [heq] at hret
  have hrun : run (fun m c => PageCall.step 0x101000 m c) m₁ [⟨0x40000000, 0x1000, 7⟩]
      = some (allocTaskPages m₁ 0x101000 0x40000000 0x1000 7).1 := by
    simp only [run, PageCall.step, hret, if_true, Option.bind_some]
  refine ⟨m₁, _, heq, hok, hrun, fun hex => ?_⟩
  obtain ⟨hs₂, -, -, hmap⟩ := pageCalls_space hs hok hrun
  obtain ⟨n, ⟨hn, hn'⟩, hv⟩ := hmap ⟨_, List.mem_singleton.mpr rfl, by decide⟩
  obtain ⟨v, hv⟩ := Option.ne_none_iff_exists'.mp hv
  exact ((exact_iff_no_table hs₂).mp hex).1 (n / 1024) (by omega) (by omega) (pteAt_eq_some hv).1

end Csos
