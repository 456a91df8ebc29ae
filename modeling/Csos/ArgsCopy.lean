import Csos.Lib.CString
import Csos.ProgramLoad

/-!
# The arguments of a program (`copy_args`)

The block of arguments begins with `task_args_t` and the table of pointers,
and behind them stand the strings. The strings are copied page by page. The
table is written through the address that `get_paddr` gives for its first
byte, as if the frames of the block were one behind the other.

`copyArgs_law` says when the new program finds its arguments.
-/

namespace Csos

open Lib

/-- A call of `copy_args`: the directory, the block, the caller's vector, and the frames of the two
pages of the block. -/
structure ArgsCall where
  d : Nat
  dst : Nat
  argv : Nat
  ptr : Nat → Nat
  args : List (List (BitVec 8))
  p₁ : Nat
  p₂ : Nat

namespace ArgsCall

variable (c : ArgsCall)

def argc : Nat := c.args.length

def arg (i : Nat) : List (BitVec 8) := c.args.getD i []

/-- Where the `i`-th string begins in the block. -/
def off (i : Nat) : Nat :=
  taskArgsSize + 4 * c.argc + ((c.args.take i).map fun s => s.length + 1).sum

/-- Where the byte of the block is. -/
def phys (o : Nat) : Nat := if o < 0x1000 then c.p₁ + o else c.p₂ + (o - 0x1000)

/-- An address of the caller that the call reads. -/
def Reads (va : Nat) : Prop :=
  c.argv ≤ va ∧ va < c.argv + 4 * c.argc
    ∨ ∃ i < c.argc, c.ptr i ≤ va ∧ va ≤ c.ptr i + (c.arg i).length

/-- The page is memory, no table, and nothing that the call reads. -/
structure Clear (m : Machine) (p : Nat) : Prop where
  ne_zero : p ≠ 0
  memory : p < pmExtLimit
  tables : ¬ TablePage m.mem c.d p ∧ ¬ TablePage m.mem m.cr3 p
  source : ∀ va, c.Reads va → ∀ s, m.translate va = some s → s / 0x1000 * 0x1000 ≠ p

/-- The caller's string at `a`. -/
structure CallerString (m : Machine) (a : Nat) (s : List (BitVec 8)) : Prop where
  ne_null : a ≠ 0
  fits : a + s.length < 2 ^ 32
  no_nul : 0 ∉ s
  bytes : ∀ k ≤ s.length, m.read8 (a + k) = some (s.getD k 0)

/-- The caller has a vector whose block has room, and the block has two pages. -/
structure Ready (m : Machine) : Prop where
  ne_zero : c.d ≠ 0
  aligned : c.d % 0x1000 = 0
  cr3_aligned : m.cr3 % 0x1000 = 0
  dst_aligned : c.dst % 0x1000 = 0
  dst_fits : c.dst + vmShellArgsSize ≤ 2 ^ 32
  argv_fits : c.argv + 4 * c.argc ≤ 2 ^ 32
  fits : c.off c.argc ≤ vmShellArgsSize
  ptr : ∀ i < c.argc, m.read32 (c.argv + 4 * i) = some (c.ptr i)
  string : ∀ i < c.argc, CallerString m (c.ptr i) (c.arg i)
  first : ∃ v, pteAt m.mem c.d (c.dst / 0x1000) = some v ∧ pteAddress v = c.p₁
  second : ∃ v, pteAt m.mem c.d (c.dst / 0x1000 + 1) = some v ∧ pteAddress v = c.p₂
  entry : HasEntry m.mem c.d (c.dst / 0x1000) ∧ HasEntry m.mem c.d (c.dst / 0x1000 + 1)
  frame_ne : c.p₁ ≠ c.p₂
  clear₁ : c.Clear m c.p₁
  clear₂ : c.Clear m c.p₂

/-- The table stays in its page, or what is behind the frame may be written. -/
def Room (m : Machine) : Prop :=
  taskArgsSize + 4 * c.argc ≤ 0x1000 ∨ c.Clear m (c.p₁ + 0x1000)

/-- Only clear pages have been written. -/
def Kept (m : Machine) (mem : Bytes) : Prop :=
  ∀ b, ¬ c.Clear m (b / 0x1000 * 0x1000) → mem b = m.mem b

/-! ## The block so far -/

/-- The first `i` arguments are passed, and nothing else is written. -/
structure Passed (m : Machine) (mem : Bytes) (i : Nat) : Prop where
  words : ∀ j < i, mem.load32 (c.p₁ + taskArgsSize + 4 * j) = c.dst + c.off j
  strings : ∀ j < i, ∀ k ≤ (c.arg j).length, mem (c.phys (c.off j + k)) = (c.arg j).getD k 0
  outside : ∀ b, (∀ o, c.off 0 ≤ o → o < c.off i → b ≠ c.phys o) →
    (b < c.p₁ + taskArgsSize ∨ c.p₁ + taskArgsSize + 4 * i ≤ b) → mem b = m.mem b

section Block

variable {c} {m : Machine} {mem : Bytes} {i o o' b va : Nat}

theorem off_zero : c.off 0 = taskArgsSize + 4 * c.argc := rfl

theorem off_succ (hi : i < c.argc) : c.off (i + 1) = c.off i + ((c.arg i).length + 1) := by
  have hget : c.args[i]? = some (c.arg i) := by
    rw [arg, List.getD_eq_getElem?_getD, List.getElem?_eq_getElem hi, Option.getD_some]
  rw [off, off, List.take_add_one, hget, List.map_append, List.sum_append]
  exact (Nat.add_assoc ..).symm

theorem off_le {j : Nat} (hij : i ≤ j) (hj : j ≤ c.argc) : c.off i ≤ c.off j := by
  induction j with
  | zero =>
      obtain rfl := Nat.le_zero.mp hij
      exact Nat.le_refl _
  | succ j ih =>
      rcases Nat.eq_or_lt_of_le hij with rfl | hlt
      · exact Nat.le_refl _
      · have := ih (by omega) (by omega)
        rw [off_succ (by omega)]
        omega

namespace Ready

variable (hr : c.Ready m)
include hr

theorem frames_aligned : c.p₁ % 0x1000 = 0 ∧ c.p₂ % 0x1000 = 0 := by
  obtain ⟨v, -, h⟩ := hr.first
  obtain ⟨v', -, h'⟩ := hr.second
  rw [← h, ← h', pteAddress_eq, pteAddress_eq]
  omega

theorem off_fits (hi : i ≤ c.argc) : c.off i ≤ 0x2000 :=
  (off_le hi (Nat.le_refl _)).trans hr.fits

theorem off_lt (hi : i < c.argc) : c.off i + (c.arg i).length + 1 ≤ 0x2000 := by
  have hfits := hr.off_fits (Nat.succ_le_of_lt hi)
  rw [Nat.succ_eq_add_one, off_succ hi] at hfits
  omega

theorem phys_page (ho : o < 0x2000) :
    c.phys o / 0x1000 * 0x1000 = (if o < 0x1000 then c.p₁ else c.p₂)
      ∧ c.phys o % 0x1000 = o % 0x1000 := by
  obtain ⟨h₁, h₂⟩ := hr.frames_aligned
  rw [phys]
  split <;> omega

theorem phys_inj (ho : o < 0x2000) (ho' : o' < 0x2000) (h : c.phys o = c.phys o') : o = o' := by
  obtain ⟨h₁, h₂⟩ := hr.frames_aligned
  have hne := hr.frame_ne
  rw [phys, phys] at h
  split at h <;> split at h <;> omega

/-- The strings lie behind the table, wherever its end is. -/
theorem table_ne_phys (ho : c.off 0 ≤ o) (ho' : o < 0x2000) (hb : b < c.p₁ + c.off 0)
    (hb' : c.p₁ ≤ b) : b ≠ c.phys o := by
  obtain ⟨h₁, h₂⟩ := hr.frames_aligned
  have hne := hr.frame_ne
  have hfits := hr.off_fits (Nat.zero_le c.argc)
  rw [phys]
  split <;> omega

theorem table_clear (hroom : c.Room m) (hb : b < c.p₁ + c.off 0) (hb' : c.p₁ ≤ b) :
    c.Clear m (b / 0x1000 * 0x1000) := by
  obtain ⟨h₁, -⟩ := hr.frames_aligned
  have hfits := hr.off_fits (Nat.zero_le c.argc)
  rw [Room, ← off_zero] at hroom
  rcases Nat.lt_or_ge b (c.p₁ + 0x1000) with hlt | hge
  · rw [show b / 0x1000 * 0x1000 = c.p₁ by omega]
    exact hr.clear₁
  · rw [show b / 0x1000 * 0x1000 = c.p₁ + 0x1000 by omega]
    exact hroom.resolve_left (by omega)

/-- A page that is not clear is not written. -/
theorem kept (hroom : c.Room m) (hp : c.Passed m mem i) (hi : i ≤ c.argc) : c.Kept m mem := by
  intro b hb
  have hfits := hr.off_fits hi
  refine hp.outside b (fun o ho ho' he => hb ?_) ?_
  · rw [he, (hr.phys_page (by omega)).1]
    split
    · exact hr.clear₁
    · exact hr.clear₂
  · by_contra hin
    refine hb (hr.table_clear hroom ?_ (by omega))
    rw [off_zero]
    omega

end Ready

namespace Kept

variable (hk : c.Kept m mem)
include hk

theorem tables : TablesKept m.mem mem c.d ∧ TablesKept m.mem mem m.cr3 :=
  ⟨fun _ hb => hk _ fun h => h.tables.1 hb, fun _ hb => hk _ fun h => h.tables.2 hb⟩

theorem translate_eq (hr : c.Ready m) (hva : va < 2 ^ 32) :
    ({ m with mem } : Machine).translate va = m.translate va :=
  @translate_kept m { m with mem } va rfl hr.cr3_aligned hk.tables.2 hva

/-- The caller's vector reads as before. -/
theorem read8_eq (hr : c.Ready m) (hva : va < 2 ^ 32) (hreads : c.Reads va) :
    ({ m with mem } : Machine).read8 va = m.read8 va := by
  rw [Machine.read8, Machine.read8, hk.translate_eq hr hva]
  cases hs : m.translate va with
  | none => rfl
  | some s =>
      have hbyte : mem s = m.mem s := hk s fun h => h.source va hreads s hs rfl
      exact congrArg some hbyte

theorem read32_eq (hr : c.Ready m) (hi : i < c.argc) :
    ({ m with mem } : Machine).read32 (c.argv + 4 * i) = some (c.ptr i) := by
  have hfits := hr.argv_fits
  have hread := fun k (hlt : k < 4) =>
    @read8_eq c m mem (c.argv + 4 * i + k) hk hr (by omega) (Or.inl (by omega))
  have hfirst := hread 0 (by omega)
  rw [Nat.add_zero] at hfirst
  rw [← hr.ptr i hi]
  simp only [Machine.read32]
  rw [u32_of_lt (by omega), u32_of_lt (by omega), u32_of_lt (by omega), hfirst,
    hread 1 (by omega), hread 2 (by omega), hread 3 (by omega)]

/-- The caller's string, and what is clear, are as before. -/
theorem string (hr : c.Ready m) (hi : i < c.argc) :
    CallerString { m with mem } (c.ptr i) (c.arg i) := by
  obtain ⟨hne, hfits, hno, hbytes⟩ := hr.string i hi
  refine ⟨hne, hfits, hno, fun k hlt => ?_⟩
  rw [hk.read8_eq hr (by omega) (Or.inr ⟨i, hi, by omega, by omega⟩)]
  exact hbytes k hlt

theorem clear (hr : c.Ready m) {p : Nat} (hargs : ∀ va, c.Reads va → va < 2 ^ 32)
    (h : c.Clear m p) : c.Clear { m with mem } p := by
  refine ⟨h.ne_zero, h.memory, ?_, fun va hreads s hs => ?_⟩
  · exact ⟨mt (hk.tables.1.tablePage_iff hr.aligned).mp h.tables.1,
      mt (hk.tables.2.tablePage_iff hr.cr3_aligned).mp h.tables.2⟩
  · rw [hk.translate_eq hr (hargs va hreads)] at hs
    exact h.source va hreads s hs

end Kept

/-- What the call reads are addresses. -/
theorem Ready.reads_lt (hr : c.Ready m) (hreads : c.Reads va) : va < 2 ^ 32 := by
  rcases hreads with ⟨-, hlt⟩ | ⟨i, hi, -, hle⟩
  · have := hr.argv_fits
    omega
  · have := (hr.string i hi).fits
    omega

end Block

/-! ## One string -/

theorem stringEnd_eq {m : Machine} {a fuel k : Nat} {s : List (BitVec 8)} (hno : 0 ∉ s)
    (hfits : a + s.length < 2 ^ 32)
    (hbytes : ∀ k ≤ s.length, m.read8 (a + k) = some (s.getD k 0)) (hk : k ≤ s.length)
    (hfuel : s.length < k + fuel) : stringEnd m fuel (a + k) = some (a + s.length) := by
  induction fuel generalizing k with
  | zero => omega
  | succ fuel ih =>
      rw [stringEnd, hbytes k hk, Option.bind_eq_bind, Option.bind_some]
      rcases Nat.eq_or_lt_of_le hk with rfl | hlt
      · rw [if_pos (List.getD_eq_default _ _ (Nat.le_refl _))]
        rfl
      · rw [if_neg (Bytes.getD_ne_zero hno hlt), Nat.add_assoc, u32_of_lt (by omega)]
        exact ih (by omega) (by omega)

section Copy

variable {c : ArgsCall} {m : Machine} {mem : Bytes} {i o k b : Nat}

namespace Ready

variable (hr : c.Ready m) (hk : c.Kept m mem)
include hr

theorem directory_eq : directory ({ m with mem } : Machine) c.d = c.d := if_neg hr.ne_zero

theorem strlen_eq (hk : c.Kept m mem) (hi : i < c.argc) :
    kernelStrlen { m with mem } (c.ptr i) = some (c.arg i).length := by
  obtain ⟨hne, hfits, hno, hbytes⟩ := hk.string hr hi
  have hlen := hr.off_lt hi
  have hend := @stringEnd_eq { m with mem } (c.ptr i) stringFuel 0 (c.arg i) hno hfits hbytes
    (Nat.zero_le _) (by rw [stringFuel]; omega)
  rw [Nat.add_zero] at hend
  rw [kernelStrlen, if_neg hne, hend]
  refine congrArg some ?_
  rw [u32]
  omega

include hk

/-- Where the bytes of the block go. -/
theorem target (hlt : o + k < 0x2000) :
    ∃ v, targetAt { m with mem } c.d (c.dst + o) k = some v
      ∧ pteAddress v = (if o + k < 0x1000 then c.p₁ else c.p₂)
      ∧ HasEntry mem c.d (pageOf (c.dst + o) k)
      ∧ pageOf (c.dst + o) k = c.dst / 0x1000 + if o + k < 0x1000 then 0 else 1 := by
  have hfits : c.dst + 0x2000 ≤ 2 ^ 32 := hr.dst_fits
  have hal := hr.dst_aligned
  have hkept := hk.tables.1
  have hpage : pageOf (c.dst + o) k = c.dst / 0x1000 + if o + k < 0x1000 then 0 else 1 := by
    rw [pageOf, u32_of_lt (by omega)]
    split <;> omega
  have hlt := pageOf_lt (c.dst + o) k
  rw [targetAt, hr.directory_eq]
  dsimp only
  rw [hkept.pteAt_eq hr.aligned hlt, hkept.hasEntry_iff hr.aligned hlt, hpage]
  split
  case isTrue =>
    obtain ⟨v, hv, hframe⟩ := hr.first
    exact ⟨v, hv, hframe, hr.entry.1, rfl⟩
  case isFalse =>
    obtain ⟨v, hv, hframe⟩ := hr.second
    exact ⟨v, hv, hframe, hr.entry.2, rfl⟩

theorem targetByte_iff (hlt : o + k < 0x2000) :
    TargetByte { m with mem } c.d (c.dst + o) k b ↔ b = c.phys (o + k) := by
  obtain ⟨v, hv, hframe, -, -⟩ := hr.target hk hlt
  have hal := hr.dst_aligned
  have hplace : c.phys (o + k) = pteAddress v + (c.dst + o + k) % 0x1000 := by
    rw [hframe, phys]
    split <;> omega
  rw [hplace]
  constructor
  · rintro ⟨v', hv', rfl⟩
    obtain rfl := Option.some.inj (hv.symm.trans hv')
    rfl
  · exact fun he => ⟨v, hv, he⟩

/-- The frame that a byte goes to is clear. -/
theorem target_clear (hlt : o + k < 0x2000) {v : Nat}
    (hv : targetAt { m with mem } c.d (c.dst + o) k = some v) : c.Clear m (pteAddress v) := by
  obtain ⟨v', hv', hframe, -, -⟩ := hr.target hk hlt
  obtain rfl := Option.some.inj (hv.symm.trans hv')
  rw [hframe]
  split
  · exact hr.clear₁
  · exact hr.clear₂

theorem copyRange (hi : i < c.argc) : CopyRange { m with mem } c.d (c.dst + c.off i) (c.ptr i)
    ((c.arg i).length + 1) := by
  have hlen := hr.off_lt hi
  obtain ⟨-, hfits, -, hbytes⟩ := hr.string i hi
  obtain ⟨hkept, hactive⟩ := hk.tables
  constructor
  case dir_aligned =>
    rw [hr.directory_eq]
    exact hr.aligned
  case cr3_aligned => exact hr.cr3_aligned
  case memory =>
    exact fun k hlt v hv => (hr.target_clear hk (by omega) hv).memory
  case tables =>
    intro k hlt v hv
    have hclear := hr.target_clear hk (by omega) hv
    rw [hr.directory_eq]
    exact ⟨mt (hkept.tablePage_iff hr.aligned).mp hclear.tables.1,
      mt (hactive.tablePage_iff hr.cr3_aligned).mp hclear.tables.2⟩
  case source =>
    intro k hlt
    have hread := hbytes k (by omega)
    rw [u32_of_lt (by omega), hk.translate_eq hr (by omega)]
    obtain ⟨s, hs, -⟩ := Option.map_eq_some_iff.mp hread
    exact ⟨s, hs⟩

theorem copyExact (hi : i < c.argc) : CopyExact { m with mem } c.d (c.dst + c.off i) (c.ptr i)
    ((c.arg i).length + 1) := by
  have hlen := hr.off_lt hi
  have hdst : c.dst + 0x2000 ≤ 2 ^ 32 := hr.dst_fits
  obtain ⟨hne, hfits, -, -⟩ := hr.string i hi
  have htarget := fun k (hlt : k < (c.arg i).length + 1) =>
    @target c m mem (c.off i) k hr hk (by omega)
  constructor
  case dst_fits => omega
  case src_fits => omega
  case src_pos => exact Nat.pos_of_ne_zero hne
  case mapped =>
    intro k hlt
    obtain ⟨v, hv, -⟩ := htarget k hlt
    exact ⟨v, hv⟩
  case entry =>
    intro k hlt
    obtain ⟨v, -, -, he, -⟩ := htarget k hlt
    rw [hr.directory_eq]
    exact he
  case frame_ne_zero =>
    exact fun k hlt v hv => (hr.target_clear hk (by omega) hv).ne_zero
  case frame_inj =>
    intro k hlt k' hlt' v v' hv hv' he
    obtain ⟨u, hu, hframe, -, hpage⟩ := htarget k hlt
    obtain ⟨u', hu', hframe', -, hpage'⟩ := htarget k' hlt'
    obtain rfl := Option.some.inj (hv.symm.trans hu)
    obtain rfl := Option.some.inj (hv'.symm.trans hu')
    have hframes := hr.frame_ne
    rw [hframe, hframe'] at he
    rw [hpage, hpage']
    by_cases hlow : c.off i + k < 0x1000 <;> by_cases hlow' : c.off i + k' < 0x1000
    · rw [if_pos hlow, if_pos hlow']
    · rw [if_pos hlow, if_neg hlow'] at he
      exact absurd he hframes
    · rw [if_neg hlow, if_pos hlow'] at he
      exact absurd he.symm hframes
    · rw [if_neg hlow, if_neg hlow']
  case source_apart =>
    intro k hlt k' hk' v s hv hs
    have hclear := hr.target_clear hk (by omega) hv
    rw [u32_of_lt (by omega), hk.translate_eq hr (by omega)] at hs
    exact hclear.source _ (Or.inr ⟨i, hi, by omega, by omega⟩) s hs

end Ready

theorem write32_low {a v : Nat} (h : a + 4 ≤ pmExtLimit) :
    m.write32 a v = some { m with mem := m.mem.store32 a v } := by
  have hlim : a + 4 ≤ 0x02000000 := h
  have htr : ∀ mem' : Bytes, ∀ k < 4,
      ({ m with mem := mem' } : Machine).translate (a + k) = some (a + k) :=
    fun mem' k hk => if_pos (by rw [pmExtLimit]; omega)
  have hfirst : m.translate a = some a := htr m.mem 0 (by omega)
  rw [Machine.write32, u32_of_lt (by omega), u32_of_lt (by omega), u32_of_lt (by omega)]
  simp only [Machine.write8, hfirst, htr _ 1 (by omega), htr _ 2 (by omega), htr _ 3 (by omega),
    Option.map_some, Option.bind_eq_bind, Option.bind_some]
  refine congrArg some (congrArg (fun mem => ({ m with mem } : Machine)) (funext fun b => ?_))
  exact (store32_eq_store8 ..).symm

namespace Ready

/-- Where the table is written there is memory. -/
theorem table_low (hr : c.Ready m) (hroom : c.Room m) (hi : i < c.argc) :
    c.p₁ + taskArgsSize + 4 * i + 4 ≤ pmExtLimit := by
  obtain ⟨h₁, -⟩ := hr.frames_aligned
  have hclear := (@table_clear c m (c.p₁ + taskArgsSize + 4 * i + 3) hr hroom
    (by rw [off_zero]; omega) (by omega)).memory
  rw [pmExtLimit] at hclear ⊢
  rw [taskArgsSize] at *
  omega

/-- A round passes an argument. -/
theorem passed_succ (hr : c.Ready m) (hroom : c.Room m) (hp : c.Passed m mem i) (hi : i < c.argc) :
    ∃ mem', memory32CopyPageData { m with mem } (c.dst + c.off i) c.d (c.ptr i)
        ((c.arg i).length + 1) = some ({ m with mem := mem' }, 0)
      ∧ c.Passed m (mem'.store32 (c.p₁ + taskArgsSize + 4 * i) (c.dst + c.off i)) (i + 1) := by
  have hlen := hr.off_lt hi
  have hdst : c.dst + 0x2000 ≤ 2 ^ 32 := hr.dst_fits
  have hsucc := off_succ hi
  have hstart : c.off 0 ≤ c.off i := off_le (Nat.zero_le _) (Nat.le_of_lt hi)
  have hk := hr.kept hroom hp (Nat.le_of_lt hi)
  obtain ⟨-, hfits, -, hbytes⟩ := hk.string hr hi
  obtain ⟨mem', hrun, hcopied⟩ := copyPageData_exact (hr.copyRange hk hi) (hr.copyExact hk hi)
  have hbyte : ∀ k < (c.arg i).length + 1, ∀ b,
      TargetByte { m with mem } c.d (c.dst + c.off i) k b ↔ b = c.phys (c.off i + k) :=
    fun k hlt b => hr.targetByte_iff hk (by omega)
  -- what is not of this string is as it was
  have hother : ∀ b, (∀ o, c.off i ≤ o → o < c.off (i + 1) → b ≠ c.phys o) → mem' b = mem b := by
    intro b hb
    refine hcopied.outside b fun k hlt ht => ?_
    exact hb (c.off i + k) (by omega) (by omega) ((hbyte k hlt b).mp ht)
  have htable : ∀ b, c.p₁ ≤ b → b < c.p₁ + c.off 0 → mem' b = mem b :=
    fun b hb hb' => hother b fun o ho ho' => hr.table_ne_phys (by omega) (by omega) hb' hb
  have hword : ∀ o, c.off 0 ≤ o → o < 0x2000 → ∀ a,
      mem'.store32 (c.p₁ + taskArgsSize + 4 * i) a (c.phys o) = mem' (c.phys o) := by
    intro o ho ho' a
    refine Bytes.store32_outside ?_
    by_contra hin
    exact hr.table_ne_phys (b := c.phys o) ho ho' (by rw [off_zero]; omega) (by omega) rfl
  refine ⟨mem', hrun, fun j hj => ?_, fun j hj k hle => ?_, fun b hb hb' => ?_⟩
  · rcases Nat.lt_succ_iff_lt_or_eq.mp hj with hlt | rfl
    · rw [Bytes.load32_store32_of_disjoint (by omega), ← hp.words j hlt]
      refine Bytes.load32_congr fun b hb hb' => htable b (by omega) ?_
      rw [off_zero]
      omega
    · exact Bytes.load32_store32_self (by omega)
  · rcases Nat.lt_succ_iff_lt_or_eq.mp hj with hlt | rfl
    · have hlt' : c.off j + ((c.arg j).length + 1) ≤ c.off i := by
        rw [← off_succ (by omega)]
        exact off_le hlt (Nat.le_of_lt hi)
      have hzero : c.off 0 ≤ c.off j := off_le (Nat.zero_le _) (by omega)
      rw [hword _ (by omega) (by omega), hother _ fun o ho ho' he => ?_]
      · exact hp.strings j hlt k hle
      · have := hr.phys_inj (by omega) (by omega) he
        omega
    · rw [hword _ (by omega) (by omega)]
      obtain ⟨s, hs, hval⟩ := Option.map_eq_some_iff.mp (hbytes k hle)
      exact (hcopied.inside k (by omega) _ s ((hbyte k (by omega) _).mpr rfl)
        (by rw [u32_of_lt (by omega)]; exact hs)).trans hval
  · rw [Bytes.store32_outside (by omega), hother b fun o ho ho' => hb o (by omega) ho']
    exact hp.outside b (fun o ho ho' => hb o ho (by omega)) (by omega)

end Ready

end Copy

/-! ## The call -/

/-- `task_args`, in its three words. -/
def header (mem : Bytes) (p retAddr argc table : Nat) : Bytes :=
  ((mem.store32 p retAddr).store32 (p + 4) argc).store32 (p + 8) table

/-- What the call has done. -/
structure Done (m : Machine) (mem : Bytes) : Prop where
  argc : mem.load32 (c.p₁ + 4) = c.argc
  table : mem.load32 (c.p₁ + 8) = c.dst + taskArgsSize
  words : ∀ j < c.argc, mem.load32 (c.p₁ + taskArgsSize + 4 * j) = c.dst + c.off j
  strings : ∀ j < c.argc, ∀ k ≤ (c.arg j).length, mem (c.phys (c.off j + k)) = (c.arg j).getD k 0
  outside : ∀ b, (∀ o, c.off 0 ≤ o → o < c.off c.argc → b ≠ c.phys o) →
    (b < c.p₁ ∨ c.p₁ + c.off 0 ≤ b) → mem b = m.mem b

section Call

variable {c : ArgsCall} {m : Machine} {mem : Bytes} {i retAddr : Nat}

theorem header_outside {p argc table b : Nat} (h : b < p ∨ p + taskArgsSize ≤ b) :
    header mem p retAddr argc table b = mem b := by
  have h' : b < p ∨ p + 12 ≤ b := h
  rw [header, Bytes.store32_outside (by omega), Bytes.store32_outside (by omega),
    Bytes.store32_outside (by omega)]

theorem passed_zero : c.Passed m m.mem 0 :=
  ⟨fun _ hj => absurd hj (Nat.not_lt_zero _), fun _ hj => absurd hj (Nat.not_lt_zero _),
    fun _ _ _ => rfl⟩

theorem Ready.copyArgsLoop_passed (hr : c.Ready m) (hroom : c.Room m) {n : Nat}
    (hp : c.Passed m mem i) (hn : i + n = c.argc) :
    ∃ mem', copyArgsLoop c.d (c.p₁ + taskArgsSize) c.argv n { m with mem } i
        (u32 (c.dst + c.off i)) = some ({ m with mem := mem' }, 0)
      ∧ c.Passed m mem' c.argc := by
  induction n generalizing mem i with
  | zero =>
      obtain rfl : i = c.argc := by omega
      exact ⟨mem, rfl, hp⟩
  | succ n ih =>
      have hi : i < c.argc := by omega
      have hlen := hr.off_lt hi
      have hdst : c.dst + 0x2000 ≤ 2 ^ 32 := hr.dst_fits
      have hargv := hr.argv_fits
      have hk := hr.kept hroom hp (Nat.le_of_lt hi)
      have hlow := hr.table_low hroom hi
      have hlim : c.p₁ + taskArgsSize + 4 * i < 2 ^ 32 := by
        rw [pmExtLimit] at hlow
        omega
      obtain ⟨mem', hcopy, hp'⟩ := hr.passed_succ hroom hp hi
      obtain ⟨mem'', hrest, hdone⟩ := ih hp' (by omega)
      refine ⟨mem'', ?_, hdone⟩
      have hnext : u32 (c.dst + c.off i + ((c.arg i).length + 1))
          = u32 (c.dst + c.off (i + 1)) := by
        rw [off_succ hi, Nat.add_assoc]
      rw [copyArgsLoop, u32_of_lt (by omega : c.argv + 4 * i < 2 ^ 32), hk.read32_eq hr hi]
      simp only [Option.bind_eq_bind, Option.bind_some, hr.strlen_eq hk hi,
        u32_of_lt (by omega : (c.arg i).length + 1 < 2 ^ 32),
        u32_of_lt (by omega : c.dst + c.off i < 2 ^ 32), hcopy, Int.lt_irrefl, if_false,
        u32_of_lt hlim, write32_low hlow, hnext]
      exact hrest

theorem Ready.getPaddr_first (hr : c.Ready m) (hk : c.Kept m mem) {o : Nat} (ho : o < 0x1000) :
    getPaddr { m with mem } c.d (c.dst + o) = c.p₁ + o := by
  have hdst : c.dst + 0x2000 ≤ 2 ^ 32 := hr.dst_fits
  have hal := hr.dst_aligned
  have hdir : directory m c.d = c.d := if_neg hr.ne_zero
  obtain ⟨v, hv, hframe⟩ := hr.first
  have hpage : (c.dst + o) / 0x1000 = c.dst / 0x1000 := by omega
  rw [@getPaddr_kept m { m with mem } c.d _ rfl (by rw [hdir]; exact hr.aligned)
      (by rw [hdir]; exact hk.tables.1) (by omega),
    @getPaddr_present m c.d v _ (by rw [hdir, hpage]; exact hv)
      (by rw [hdir, hpage]; exact hr.entry.1), hframe]
  omega

/-- The header goes in front of the table. -/
theorem Ready.header_done (hr : c.Ready m) (hp : c.Passed m mem c.argc) :
    c.Done m (header mem c.p₁ retAddr c.argc (c.dst + taskArgsSize)) := by
  have hdst : c.dst + 0x2000 ≤ 2 ^ 32 := hr.dst_fits
  have hfits := hr.off_fits (Nat.zero_le c.argc)
  have hzero := @off_zero c
  have hsize : taskArgsSize = 12 := rfl
  have hargc : c.argc < 2 ^ 32 := by omega
  constructor
  case argc =>
    rw [header, Bytes.load32_store32_of_disjoint (by omega), Bytes.load32_store32_self hargc]
  case table => rw [header, Bytes.load32_store32_self (by omega)]
  case words =>
    intro j hj
    rw [← hp.words j hj]
    exact Bytes.load32_congr fun b hb _ => header_outside (by omega)
  case strings =>
    intro j hj k hle
    have hlen := hr.off_lt hj
    have hoff : c.off 0 ≤ c.off j := off_le (Nat.zero_le _) (Nat.le_of_lt hj)
    rw [header_outside, hp.strings j hj k hle]
    by_contra hin
    exact hr.table_ne_phys (b := c.phys (c.off j + k)) (by omega) (by omega) (by omega)
      (by omega) rfl
  case outside =>
    intro b hb hb'
    rw [header_outside (by omega)]
    exact hp.outside b hb (by omega)

theorem Ready.header_kept (hr : c.Ready m) (hk : c.Kept m mem) {argc table : Nat} :
    c.Kept m (header mem c.p₁ retAddr argc table) := by
  obtain ⟨h₁, -⟩ := hr.frames_aligned
  intro b hb
  rw [header_outside, hk b hb]
  by_contra hin
  refine hb ?_
  rw [show b / 0x1000 * 0x1000 = c.p₁ by rw [taskArgsSize] at hin; omega]
  exact hr.clear₁

theorem Ready.copyArgs_done (hr : c.Ready m) (hroom : c.Room m) :
    ∃ mem, copyArgs m c.d c.dst c.argv c.argc retAddr = some ({ m with mem }, 0)
      ∧ c.Done m mem ∧ c.Kept m mem := by
  obtain ⟨h₁, -⟩ := hr.frames_aligned
  have hlow : c.p₁ < 0x02000000 := hr.clear₁.memory
  have hne := hr.clear₁.ne_zero
  obtain ⟨mem, hloop, hp⟩ := hr.copyArgsLoop_passed hroom passed_zero (Nat.zero_add c.argc)
  have hk := hr.kept hroom hp (Nat.le_refl _)
  have hk₀ : c.Kept m m.mem := fun _ _ => rfl
  have hstart : u32 (c.dst + taskArgsSize + 4 * c.argc) = u32 (c.dst + c.off 0) := by
    rw [off_zero, Nat.add_assoc]
  have hhead := hr.getPaddr_first hk (by decide : 0 < 0x1000)
  rw [Nat.add_zero, Nat.add_zero] at hhead
  refine ⟨header mem c.p₁ retAddr c.argc (c.dst + taskArgsSize), ?_, hr.header_done hp,
    hr.header_kept hk⟩
  rw [copyArgs, hr.getPaddr_first hk₀ (by decide : taskArgsSize < 0x1000), hstart]
  simp only [hloop, Option.bind_eq_bind, Option.bind_some, Int.lt_irrefl, if_false, hhead,
    if_neg hne, u32_of_lt (by omega : c.p₁ + 4 < 2 ^ 32),
    u32_of_lt (by omega : c.p₁ + 8 < 2 ^ 32)]
  rw [write32_low (by rw [pmExtLimit]; omega), Option.bind_some,
    write32_low (by rw [pmExtLimit]; omega), Option.bind_some,
    write32_low (by rw [pmExtLimit]; omega), Option.bind_some]
  rfl

/-! ## What the program finds -/

/-- The word at `va` of the address space of `d`. -/
def viewWord (mem : Bytes) (d va : Nat) : Option Nat := do
  let b₀ ← viewAt mem d va
  let b₁ ← viewAt mem d (va + 1)
  let b₂ ← viewAt mem d (va + 2)
  let b₃ ← viewAt mem d (va + 3)
  return b₀.toNat + 0x100 * b₁.toNat + 0x10000 * b₂.toNat + 0x1000000 * b₃.toNat

/-- The new address space holds `task_args`, and its pointers lead to the strings. -/
def Found (c : ArgsCall) (mem : Bytes) : Prop :=
  viewWord mem c.d (c.dst + 4) = some c.argc
    ∧ ∃ table, viewWord mem c.d (c.dst + 8) = some table
      ∧ ∀ i < c.argc, ∃ p, viewWord mem c.d (table + 4 * i) = some p
        ∧ ∀ k ≤ (c.arg i).length, viewAt mem c.d (p + k) = some ((c.arg i).getD k 0)

/-- Whatever the two frames hold, the call returns 0 and the program finds its arguments. -/
def CopiesRight (c : ArgsCall) (m : Machine) (retAddr : Nat) : Prop :=
  ∀ mem, (∀ b, b / 0x1000 * 0x1000 ≠ c.p₁ → b / 0x1000 * 0x1000 ≠ c.p₂ → mem b = m.mem b) →
    ∃ m', copyArgs { m with mem } c.d c.dst c.argv c.argc retAddr = some (m', 0) ∧ c.Found m'.mem

/-- `task_args` and its table lie in one page, or the second frame is behind the first one. -/
def TableTogether (c : ArgsCall) : Prop :=
  taskArgsSize + 4 * c.argc ≤ 0x1000 ∨ c.p₂ = c.p₁ + 0x1000

theorem Ready.view_phys (hr : c.Ready m) (hk : c.Kept m mem) {o : Nat} (ho : o < 0x2000) :
    viewAt mem c.d (c.dst + o) = some (mem (c.phys o)) := by
  have hfits : c.dst + 0x2000 ≤ 2 ^ 32 := hr.dst_fits
  have hal := hr.dst_aligned
  obtain ⟨v, hv, hframe, -, hpage⟩ := @Ready.target c m mem 0 o hr hk (by omega)
  rw [targetAt, hr.directory_eq, Nat.add_zero, pageOf, u32_of_lt (by omega)] at hv
  rw [@viewAt_of_pteAt { m with mem } c.d (c.dst + o) v hv, hframe, Nat.zero_add, phys]
  refine congrArg (fun a => some (mem a)) ?_
  split <;> omega

/-- A word whose bytes stand together. -/
theorem Ready.viewWord_eq (hr : c.Ready m) (hk : c.Kept m mem) {o a : Nat} (ho : o + 3 < 0x2000)
    (ha : ∀ k < 4, c.phys (o + k) = a + k) :
    viewWord mem c.d (c.dst + o) = some (mem.load32 a) := by
  have hview := fun k (hlt : k < 4) => @Ready.view_phys c m mem hr hk (o + k) (by omega)
  have hfirst := hview 0 (by omega)
  rw [ha 0 (by omega), Nat.add_zero, Nat.add_zero] at hfirst
  rw [viewWord, hfirst, Nat.add_assoc, hview 1 (by omega), ha 1 (by omega), Nat.add_assoc,
    hview 2 (by omega), ha 2 (by omega), Nat.add_assoc, hview 3 (by omega), ha 3 (by omega)]
  rfl

/-- The table lies together as soon as its words do. -/
theorem Ready.found (hr : c.Ready m) (hk : c.Kept m mem) (hd : c.Done m mem)
    (htogether : c.TableTogether) : c.Found mem := by
  have hsize : taskArgsSize = 12 := rfl
  have hfits := hr.off_fits (Nat.zero_le c.argc)
  have hzero := @off_zero c
  have hlow : ∀ o < 0x1000, c.phys o = c.p₁ + o := fun o ho => if_pos ho
  refine ⟨?_, c.dst + taskArgsSize, ?_, fun i hi => ⟨c.dst + c.off i, ?_, fun k hle => ?_⟩⟩
  · rw [@viewWord_eq c m mem hr hk 4 (c.p₁ + 4) (by omega) fun k hlt => by
      rw [hlow _ (by omega)]; omega, hd.argc]
  · rw [@viewWord_eq c m mem hr hk 8 (c.p₁ + 8) (by omega) fun k hlt => by
      rw [hlow _ (by omega)]; omega, hd.table]
  · have hplace : ∀ k < 4, c.phys (taskArgsSize + 4 * i + k)
        = c.p₁ + taskArgsSize + 4 * i + k := by
      intro k hlt
      rcases htogether with hone | hnext
      · rw [hlow _ (by omega)]
        omega
      · rw [phys, hnext]
        split <;> omega
    rw [Nat.add_assoc, viewWord_eq hr hk (by omega) hplace, hd.words i hi]
  · have hlen := hr.off_lt hi
    rw [Nat.add_assoc, hr.view_phys hk (by omega), hd.strings i hi k hle]

/-- The machine with other bytes in the two frames. -/
theorem Ready.refill (hr : c.Ready m) (hk : c.Kept m mem) : c.Ready { m with mem } := by
  have hreads := fun va => @Ready.reads_lt c m va hr
  have hlt : c.dst / 0x1000 + 1 < 0x100000 := by
    have hfits : c.dst + 0x2000 ≤ 2 ^ 32 := hr.dst_fits
    omega
  have hkept := hk.tables.1
  constructor
  case ne_zero => exact hr.ne_zero
  case aligned => exact hr.aligned
  case cr3_aligned => exact hr.cr3_aligned
  case dst_aligned => exact hr.dst_aligned
  case dst_fits => exact hr.dst_fits
  case argv_fits => exact hr.argv_fits
  case fits => exact hr.fits
  case ptr => exact fun i hi => hk.read32_eq hr hi
  case string => exact fun i hi => hk.string hr hi
  case first =>
    dsimp only
    rw [hkept.pteAt_eq hr.aligned (by omega)]
    exact hr.first
  case second =>
    dsimp only
    rw [hkept.pteAt_eq hr.aligned hlt]
    exact hr.second
  case entry =>
    dsimp only
    rw [hkept.hasEntry_iff hr.aligned (by omega), hkept.hasEntry_iff hr.aligned hlt]
    exact hr.entry
  case frame_ne => exact hr.frame_ne
  case clear₁ => exact hk.clear hr hreads hr.clear₁
  case clear₂ => exact hk.clear hr hreads hr.clear₂

theorem Ready.kept_of_refill (hr : c.Ready m)
    (h : ∀ b, b / 0x1000 * 0x1000 ≠ c.p₁ → b / 0x1000 * 0x1000 ≠ c.p₂ → mem b = m.mem b) :
    c.Kept m mem := by
  intro b hb
  exact h b (fun he => hb (he ▸ hr.clear₁)) fun he => hb (he ▸ hr.clear₂)

/-- A word that stands at `x` itself, or a few bytes before the byte that it points to, and there
is another byte than `e`. -/
theorem exists_pointer {x p : Nat} (hal : x % 0x1000 = 0) (hpos : 0 < x) (hlt : x + 4 < 2 ^ 32)
    (mem : Bytes) (e : BitVec 8) :
    ∃ j < 4, mem.store32 p (x + j) (p + j) ≠ e := by
  have hbyte : ∀ w k, k < 4 → mem.store32 p w (p + k) = BitVec.ofNat 8 (w / 0x100 ^ k) := by
    intro w k hk
    rw [Bytes.store32]
    obtain rfl | rfl | rfl | rfl : k = 0 ∨ k = 1 ∨ k = 2 ∨ k = 3 := by omega
    all_goals simp
  have hne : ∀ n : Nat, n % 0x100 ≠ 0 → BitVec.ofNat 8 n ≠ 0 := by
    intro n hn he
    have := congrArg BitVec.toNat he
    rw [BitVec.toNat_ofNat] at this
    exact hn this
  by_cases he : e = 0
  · -- one of the upper bytes of the address is not zero
    subst he
    by_cases h₁ : x / 0x100 % 0x100 = 0
    · by_cases h₂ : x / 0x10000 % 0x100 = 0
      · exact ⟨3, by omega, by rw [hbyte _ 3 (by omega)]; exact hne _ (by omega)⟩
      · exact ⟨2, by omega, by rw [hbyte _ 2 (by omega)]; exact hne _ (by omega)⟩
    · exact ⟨1, by omega, by rw [hbyte _ 1 (by omega)]; exact hne _ (by omega)⟩
  · refine ⟨0, by omega, ?_⟩
    rw [hbyte _ 0 (by omega)]
    have hzero : BitVec.ofNat 8 ((x + 0) / 0x100 ^ 0) = 0 := by
      apply BitVec.eq_of_toNat_eq
      rw [BitVec.toNat_ofNat]
      change (x + 0) / 0x100 ^ 0 % 2 ^ 8 = 0
      omega
    rw [hzero]
    exact fun h => he h.symm

/-- What the program takes for its 1021st pointer is in a frame that was not written there. -/
theorem Ready.found_apart (hr : c.Ready m) (hk : c.Kept m mem) (hd : c.Done m mem)
    (hnot : ¬ c.TableTogether) (hfound : c.Found mem) :
    (∀ k < 4, mem (c.phys (0x1000 + k)) = m.mem (c.p₂ + k))
      ∧ viewAt mem c.d (m.mem.load32 c.p₂) = some ((c.arg 1021).getD 0 0) := by
  rw [TableTogether, not_or] at hnot
  obtain ⟨hlong, happart⟩ := hnot
  have hsize : taskArgsSize = 12 := rfl
  obtain ⟨h₁, h₂⟩ := hr.frames_aligned
  have hne := hr.frame_ne
  have hzero := @off_zero c
  have hfits : c.off c.argc ≤ 0x2000 := hr.fits
  have hstart := @off_le c 0 c.argc (Nat.zero_le _) (Nat.le_refl _)
  have hhigh : ∀ k < 4, c.phys (0x1000 + k) = c.p₂ + k := by
    intro k _
    rw [phys, if_neg (by omega)]
    omega
  have hsame : ∀ k < 4, mem (c.p₂ + k) = m.mem (c.p₂ + k) := by
    intro k hlt
    refine hd.outside _ (fun o ho ho' he => ?_) (by omega)
    rw [← hhigh k hlt] at he
    have := hr.phys_inj (by omega) (by omega) he
    omega
  have hword : mem.load32 c.p₂ = m.mem.load32 c.p₂ := by
    refine Bytes.load32_congr fun b hb hb' => ?_
    have := hsame (b - c.p₂) (by omega)
    rwa [Nat.add_sub_cancel' hb] at this
  obtain ⟨-, table, htable, hptrs⟩ := hfound
  rw [@Ready.viewWord_eq c m mem hr hk 8 (c.p₁ + 8) (by omega) fun k hlt => by
    rw [phys, if_pos (by omega)]; omega, hd.table] at htable
  obtain rfl := Option.some.inj htable
  obtain ⟨p, hp, hstring⟩ := hptrs 1021 (by omega)
  rw [show c.dst + taskArgsSize + 4 * 1021 = c.dst + 0x1000 by omega,
    hr.viewWord_eq hk (by omega) hhigh, hword] at hp
  obtain rfl := Option.some.inj hp
  exact ⟨fun k hlt => by rw [hhigh k hlt, hsame k hlt], hstring 0 (Nat.zero_le _)⟩

/-- A table that goes on in another frame is missing there. -/
theorem CopiesRight.together (hr : c.Ready m) (hbehind : c.Clear m (c.p₁ + 0x1000))
    (hright : c.CopiesRight m retAddr) : c.TableTogether := by
  by_contra hnot
  have hdst : c.dst + 0x2000 ≤ 2 ^ 32 := hr.dst_fits
  have hal := hr.dst_aligned
  have h₂ := hr.frames_aligned.2
  -- the word that will be taken for the pointer, which does not point to the string
  obtain ⟨j, hj, hbyte⟩ := @exists_pointer (c.dst + 0x1000) c.p₂ (by omega) (by omega) (by omega)
    m.mem ((c.arg 1021).getD 0 0)
  have hload := @Bytes.load32_store32_self m.mem c.p₂ (c.dst + 0x1000 + j) (by omega)
  have hfill : ∀ b, b / 0x1000 * 0x1000 ≠ c.p₁ → b / 0x1000 * 0x1000 ≠ c.p₂ →
      m.mem.store32 c.p₂ (c.dst + 0x1000 + j) b = m.mem b :=
    fun b _ hb => Bytes.store32_outside (by omega)
  have hk := hr.kept_of_refill hfill
  have hclear := hk.clear hr (fun va => hr.reads_lt) hbehind
  obtain ⟨m', hrun, hfound⟩ := hright _ hfill
  generalize m.mem.store32 c.p₂ (c.dst + 0x1000 + j) = mem at *
  have hr' := hr.refill hk
  obtain ⟨mem', hrun', hdone, hk'⟩ := @Ready.copyArgs_done c _ retAddr hr' (Or.inr hclear)
  obtain ⟨rfl, -⟩ := Prod.mk.inj (Option.some.inj (hrun.symm.trans hrun'))
  obtain ⟨hsame, hview⟩ := hr'.found_apart hk' hdone hnot hfound
  dsimp only at hsame hview
  rw [hload, Nat.add_assoc, hr'.view_phys hk' (by omega), hsame j hj] at hview
  exact hbyte (Option.some.inj hview)

/-- When the new program finds its arguments, whatever the frames held. The condition is enough; and
where what is behind the first frame may be written, it is needed. -/
theorem copyArgs_law (hr : c.Ready m) :
    (c.TableTogether → c.CopiesRight m retAddr)
    ∧ (c.Clear m (c.p₁ + 0x1000) → c.CopiesRight m retAddr → c.TableTogether) := by
  refine ⟨fun htogether mem hfill => ?_, fun hbehind hright => hright.together hr hbehind⟩
  have hk := hr.kept_of_refill hfill
  have hr' := hr.refill hk
  have hroom : c.Room { m with mem } := by
    rcases htogether with hone | hnext
    · exact Or.inl hone
    · right
      rw [← hnext]
      exact hr'.clear₂
  obtain ⟨mem', hrun, hdone, hk'⟩ := @Ready.copyArgs_done c _ retAddr hr' hroom
  exact ⟨_, hrun, hr'.found hk' hdone htogether⟩

end Call

/-! ## The same string over and over -/

/-- `copyMachine` with the string "hi" at 0x9100, and a page at 0x20000 whose words all point
to it. -/
def argsMachine : Machine :=
  { copyMachine with
    mem := fun b =>
      if b / 0x1000 = 0x20 then if b % 4 = 1 then 0x91 else 0
      else copyMachine.mem.store32 0x9100 0x6968 b }

/-- `n` times the string, for two pages at 0x40000000. -/
def hiCall (n : Nat) : ArgsCall where
  d := 0x100000
  dst := 0x40000000
  argv := 0x20000
  ptr := fun _ => 0x9100
  args := List.replicate n [0x68, 0x69]
  p₁ := 0x103000
  p₂ := 0x102000

section Hi

variable {n i : Nat}

theorem hiCall_argc : (hiCall n).argc = n := List.length_replicate

theorem hiCall_arg (hi : i < n) : (hiCall n).arg i = [0x68, 0x69] := by
  rw [arg, hiCall, List.getD_replicate _ hi]

theorem hiCall_off : (hiCall n).off (hiCall n).argc = 12 + 7 * n := by
  rw [off, hiCall_argc]
  change 12 + 4 * n + (((List.replicate n ([0x68, 0x69] : List (BitVec 8))).take n).map
    fun s => s.length + 1).sum = _
  rw [List.take_replicate, Nat.min_self, List.map_replicate, List.sum_replicate_nat]
  change 12 + 4 * n + n * 3 = _
  omega

theorem argsMachine_outside {b : Nat} (h₁ : b / 0x1000 ≠ 0x20) (h₂ : b / 0x1000 ≠ 9) :
    argsMachine.mem b = copyMachine.mem b :=
  (if_neg h₁).trans (Bytes.store32_outside (by omega))

theorem argsMachine_tables : TablesKept copyMachine.mem argsMachine.mem 0x100000
    ∧ TablesKept copyMachine.mem argsMachine.mem 0x8000 := by
  constructor
  · intro b hb
    have := copyMachine_tablePage.1 hb
    exact argsMachine_outside (by omega) (by omega)
  · intro b hb
    have := copyMachine_tablePage.2 hb
    exact argsMachine_outside (by omega) (by omega)

theorem argsMachine_read8 {va : Nat} (hva : va < pmExtLimit) :
    argsMachine.read8 va = some (argsMachine.mem va) := by
  rw [Machine.read8, Machine.translate, if_pos hva]
  rfl

/-- The words of the page at 0x20000. -/
theorem argsMachine_ptr (hi : i < 1024) :
    argsMachine.read32 (0x20000 + 4 * i) = some 0x9100 := by
  have hbyte : ∀ k < 4, argsMachine.read8 (0x20000 + 4 * i + k)
      = some (if k = 1 then 0x91 else 0) := by
    intro k hk
    rw [argsMachine_read8 (by rw [pmExtLimit]; omega)]
    have hpage : (0x20000 + 4 * i + k) / 0x1000 = 0x20 := by omega
    have hword : (0x20000 + 4 * i + k) % 4 = k := by omega
    refine congrArg some ((if_pos hpage).trans ?_)
    rw [hword]
  have hfirst := hbyte 0 (by omega)
  rw [Nat.add_zero] at hfirst
  rw [Machine.read32, u32_of_lt (by omega), u32_of_lt (by omega), u32_of_lt (by omega), hfirst,
    hbyte 1 (by omega), hbyte 2 (by omega), hbyte 3 (by omega)]
  rfl

theorem hiCall_clear (hn : n ≤ 1024) {p : Nat} (hlow : 0x102000 ≤ p) (hmem : p < pmExtLimit) :
    (hiCall n).Clear argsMachine p := by
  refine ⟨by omega, hmem, ⟨fun htable => ?_, fun htable => ?_⟩, fun va hreads s hs => ?_⟩
  · have := copyMachine_tablePage.1 ((argsMachine_tables.1.tablePage_iff rfl).mp htable)
    omega
  · have := copyMachine_tablePage.2 ((argsMachine_tables.2.tablePage_iff rfl).mp htable)
    omega
  · have hva : va < 0x21000 := by
      rcases hreads with ⟨-, hlt⟩ | ⟨i, hi, -, hle⟩
      · rw [hiCall_argc] at hlt
        change va < 0x20000 + 4 * n at hlt
        omega
      · rw [hiCall_argc] at hi
        rw [hiCall_arg hi] at hle
        change va ≤ 0x9100 + 2 at hle
        omega
    rw [Machine.translate, if_pos (by rw [pmExtLimit]; omega)] at hs
    obtain rfl := Option.some.inj hs
    omega

theorem hiCall_ready (hn : n ≤ 1022) : (hiCall n).Ready argsMachine := by
  have hstring : CallerString argsMachine 0x9100 [0x68, 0x69] := by
    refine ⟨by decide, by decide, by decide, fun k hk => ?_⟩
    obtain rfl | rfl | rfl : k = 0 ∨ k = 1 ∨ k = 2 := by
      change k ≤ 2 at hk
      omega
    all_goals decide
  have hfirst : pteAt argsMachine.mem 0x100000 (0x40000000 / 0x1000) = some 0x103007 := by decide
  have hsecond : pteAt argsMachine.mem 0x100000 (0x40000000 / 0x1000 + 1) = some 0x102007 := by
    decide
  have hentry : HasEntry argsMachine.mem 0x100000 (0x40000000 / 0x1000)
      ∧ HasEntry argsMachine.mem 0x100000 (0x40000000 / 0x1000 + 1) := by
    decide
  constructor
  case ne_zero => exact (by decide : (0x100000 : Nat) ≠ 0)
  case aligned => exact (by decide : 0x100000 % 0x1000 = 0)
  case cr3_aligned => exact (by decide : 0x8000 % 0x1000 = 0)
  case dst_aligned => exact (by decide : 0x40000000 % 0x1000 = 0)
  case dst_fits => exact (by decide : 0x40000000 + vmShellArgsSize ≤ 2 ^ 32)
  case argv_fits =>
    rw [hiCall_argc]
    change 0x20000 + 4 * n ≤ _
    omega
  case fits =>
    rw [hiCall_off, vmShellArgsSize]
    omega
  case ptr =>
    intro i hi
    rw [hiCall_argc] at hi
    exact argsMachine_ptr (by omega)
  case string =>
    intro i hi
    rw [hiCall_argc] at hi
    rw [hiCall_arg hi]
    exact hstring
  case first => exact ⟨0x103007, hfirst, (by decide : pteAddress 0x103007 = 0x103000)⟩
  case second => exact ⟨0x102007, hsecond, (by decide : pteAddress 0x102007 = 0x102000)⟩
  case entry => exact hentry
  case frame_ne => exact (by decide : (0x103000 : Nat) ≠ 0x102000)
  case clear₁ =>
    exact hiCall_clear (by omega) (by decide : 0x102000 ≤ 0x103000)
      (by decide : 0x103000 < pmExtLimit)
  case clear₂ =>
    exact hiCall_clear (by omega) (Nat.le_refl 0x102000)
      (by decide : 0x102000 < pmExtLimit)

end Hi

/-- One string arrives. -/
theorem copyArgs_law_one : (hiCall 1).CopiesRight argsMachine 0 :=
  (copyArgs_law (hiCall_ready (by decide))).1 (Or.inl (by decide))

/-- 1022 strings have room, but the table goes on in a frame that is not the next one. -/
theorem copyArgs_law_full :
    ¬ ∀ c : ArgsCall, ∀ m retAddr, c.Ready m → c.CopiesRight m retAddr := by
  intro h
  have hr := hiCall_ready (Nat.le_refl 1022)
  have hclear := @hiCall_clear 1022 (by decide) (0x103000 + 0x1000) (by decide) (by decide)
  rcases (h _ _ 0 hr).together hr hclear with hone | hnext
  · rw [hiCall_argc] at hone
    exact absurd hone (by decide)
  · exact absurd hnext (by decide)

end ArgsCall

end Csos
