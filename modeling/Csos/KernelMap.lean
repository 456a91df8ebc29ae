import Csos.TaskPages
import Csos.PageAlloc

/-!
# The kernel's map (`memory_init`, `kernel_pagging`, `map_area`)

`memory_init` gives the memory behind the first megabyte to the allocator,
and `kernel_pagging` maps the kernel, the video memory and the first 32 MiB
at their own addresses, with tables that it takes from the allocator. Every
run of the loop of `memory32_create_map` is an `AreaMapped`
(`createMap_run`), and the map of the kernel is five of them one after the
other (`memoryInit_area`).
-/

namespace Csos

open Lib

/-! ## The code -/

/-- `PM_EXT_START`. -/
abbrev pmExtStart : Nat := 0x100000

/-- `memory32_map_t`. -/
structure Memory32Map where
  vstart : Nat
  vlimit : Nat
  pstart : Nat
  perm : Nat

/-- What the linker script and the linker decide: where the code ends and
the data begins, and where `kernel_pde` is. -/
structure KernelImage where
  eText : Nat
  kernelPde : Nat
  eText_aligned : eText % 0x1000 = 0
  bText_le : 0x10000 ≤ eText
  kernelPde_aligned : kernelPde % 0x1000 = 0
  bData_le : eText ≤ kernelPde
  kernelPde_lt : kernelPde < 0x80000

/-- `kernel_map`. -/
def kernelMap (image : KernelImage) : List Memory32Map :=
  [⟨0, 0x10000, 0, 2⟩,
   ⟨0x10000, image.eText, 0x10000, 0⟩,
   ⟨image.eText, 0x80000, image.eText, 2⟩,
   ⟨0xA0000, 0xC0000, 0xA0000, 2⟩,
   ⟨pmExtStart, pmExtLimit, pmExtStart, 2⟩]

def floorPage (value : Nat) : Nat := value / 0x1000 * 0x1000

/-- What an iteration of `kernel_pagging` calls. -/
def Memory32Map.create (m : Machine) (map : Memory32Map) : Machine × Int :=
  let vstart := floorPage map.vstart
  let vlimit := ceilPage map.vlimit
  let paddr := floorPage map.pstart
  let pageCount := u32 (vlimit + 0x100000000 - vstart) / 0x1000
  memory32CreateMap m m.kernelPde vstart paddr pageCount map.perm

/-- `kernel_pagging`, which does not look at what `memory32_create_map`
returns. -/
def kernelPagging (image : KernelImage) (m : Machine) : Machine :=
  (kernelMap image).foldl (fun m map => (map.create m).1) m

/-- `memory_raw_t`, without the upper halves. -/
structure MemoryRaw where
  baseL : Nat
  lengthL : Nat
  type : Nat

/-- The first loop of `memory_init`. -/
def totalSize (raws : List MemoryRaw) : Nat :=
  raws.foldl (fun total raw => if raw.type = 1 then u32 (total + raw.lengthL) else total) 0

/-- `memory_init`; `bits` is what the bitmap holds before. -/
def memoryInit (image : KernelImage) (bits : Nat → BitVec 8) (m : Machine)
    (raws : List MemoryRaw) : Machine :=
  let size := floorPage (u32 (totalSize raws + 0x100000000 - pmExtStart))
  let m := { m with info := initMemory32Info bits pmExtStart size 0x1000 }
  let m := kernelPagging image m
  { m with cr3 := m.kernelPde }

/-- `round_up_page`. -/
def roundUpPage (num size : Nat) : Nat := u32 (num + size - 1) / size

def mapArea (m : Machine) (paddr size : Nat) : Machine × Int :=
  memory32CreateMap m m.kernelPde paddr paddr (roundUpPage size 0x1000) 3

/-! ## The loop of `memory32_create_map` -/

/-- How many tables a directory has. -/
def tableCount (mem : Bytes) (d : Nat) : Nat :=
  ((Finset.range 1024).filter fun i => present (pdeAt mem d i)).card

/-- The pages `R` were mapped in `d`, the page `n` by `entry n`, with tables
that were free. -/
structure AreaMapped (m m' : Machine) (d : Nat) (R : Nat → Prop) (entry : Nat → Nat) : Prop where
  info : m'.info.Ok
  start : m'.info.start = m.info.start
  bitSize : m'.info.bitmap.bitSize = m.info.bitmap.bitSize
  cr3 : m'.cr3 = m.cr3
  kernelPde : m'.kernelPde = m.kernelPde
  dir : DirOk m'.mem m'.info d
  tables : TablesNeZero m'.mem d
  inside : ∀ n < 0x100000, R n → pteAt m'.mem d n = some (entry n)
  outside : ∀ n < 0x100000, ¬ R n → pteAt m'.mem d n = pteAt m.mem d n
  table_old : ∀ i < 1024, present (pdeAt m.mem d i) → pdeAt m'.mem d i = pdeAt m.mem d i
  table_other : ∀ i < 1024, (∀ n, R n → n / 1024 ≠ i) → pdeAt m'.mem d i = pdeAt m.mem d i
  table_new : ∀ i < 1024, present (pdeAt m'.mem d i) →
    present (pdeAt m.mem d i) ∨ m.info.Free (tableAt m'.mem d i) ∧ ∃ n, R n ∧ n / 1024 = i
  /-- What was taken are the tables. -/
  free : ∀ q, m'.info.Free q
    ↔ m.info.Free q ∧ ∀ i < 1024, present (pdeAt m'.mem d i) → tableAt m'.mem d i ≠ q
  pages : m.info.freePages + tableCount m.mem d = m'.info.freePages + tableCount m'.mem d
  /-- Only the directory and its tables are written. -/
  mem : ∀ b, b / 0x1000 * 0x1000 ≠ d →
    (∀ i < 1024, present (pdeAt m'.mem d i) → b / 0x1000 * 0x1000 ≠ tableAt m'.mem d i) →
    m'.mem b = m.mem b

namespace AreaMapped

variable {m m₁ m' : Machine} {d n v : Nat} {R R₁ R₂ : Nat → Prop} {entry : Nat → Nat}

theorem refl (hinfo : m.info.Ok) (hd : DirOk m.mem m.info d) (hz : TablesNeZero m.mem d)
    (hR : ∀ n, ¬ R n) : AreaMapped m m d R entry := by
  constructor
  case info => exact hinfo
  case start => rfl
  case bitSize => rfl
  case cr3 => rfl
  case kernelPde => rfl
  case dir => exact hd
  case tables => exact hz
  case inside => exact fun n _ h => absurd h (hR n)
  case outside => exact fun _ _ _ => rfl
  case table_old => exact fun _ _ _ => rfl
  case table_other => exact fun _ _ _ => rfl
  case table_new => exact fun _ _ hp => Or.inl hp
  case free =>
    exact fun q => ⟨fun hq => ⟨hq, fun i hi hp he => hd.table_used i hi hp (he ▸ hq)⟩, And.left⟩
  case pages => rfl
  case mem => exact fun _ _ _ => rfl

theorem congr {entry' : Nat → Nat} (h : AreaMapped m m' d R entry) (hR : ∀ n, R₁ n ↔ R n)
    (he : ∀ n < 0x100000, R n → entry n = entry' n) : AreaMapped m m' d R₁ entry' := by
  obtain rfl : R₁ = R := funext fun n => propext (hR n)
  exact { h with inside := fun n hn hin => (h.inside n hn hin).trans (congrArg some (he n hn hin)) }

/-- A table that was there stays. -/
theorem table_eq (h : AreaMapped m m' d R entry) {i : Nat} (hi : i < 1024)
    (hp : present (pdeAt m.mem d i)) :
    present (pdeAt m'.mem d i) ∧ tableAt m'.mem d i = tableAt m.mem d i := by
  have hold := h.table_old i hi hp
  exact ⟨by rwa [hold], by rw [tableAt, hold, ← tableAt]⟩

/-- One area after the other. -/
theorem trans (h₁ : AreaMapped m m₁ d R₁ entry) (h₂ : AreaMapped m₁ m' d R₂ entry) :
    AreaMapped m m' d (fun n => R₁ n ∨ R₂ n) entry := by
  constructor
  case info => exact h₂.info
  case start => exact h₂.start.trans h₁.start
  case bitSize => exact h₂.bitSize.trans h₁.bitSize
  case cr3 => exact h₂.cr3.trans h₁.cr3
  case kernelPde => exact h₂.kernelPde.trans h₁.kernelPde
  case dir => exact h₂.dir
  case tables => exact h₂.tables
  case inside =>
    intro n hn hR
    by_cases hR₂ : R₂ n
    · exact h₂.inside n hn hR₂
    · rw [h₂.outside n hn hR₂]
      exact h₁.inside n hn (hR.resolve_right hR₂)
  case outside =>
    intro n hn hR
    rw [not_or] at hR
    rw [h₂.outside n hn hR.2, h₁.outside n hn hR.1]
  case table_old =>
    intro i hi hp
    rw [h₂.table_old i hi (h₁.table_eq hi hp).1, h₁.table_old i hi hp]
  case table_other =>
    intro i hi hother
    rw [h₂.table_other i hi fun n hn => hother n (Or.inr hn),
      h₁.table_other i hi fun n hn => hother n (Or.inl hn)]
  case table_new =>
    intro i hi hp
    rcases h₂.table_new i hi hp with hmid | ⟨hfree, n, hn, hin⟩
    · rcases h₁.table_new i hi hmid with hold | ⟨hfree, n, hn, hin⟩
      · exact Or.inl hold
      · rw [(h₂.table_eq hi hmid).2]
        exact Or.inr ⟨hfree, n, Or.inl hn, hin⟩
    · exact Or.inr ⟨((h₁.free _).mp hfree).1, n, Or.inr hn, hin⟩
  case free =>
    intro q
    rw [h₂.free, h₁.free]
    refine ⟨fun h => ⟨h.1.1, h.2⟩, fun h => ⟨⟨h.1, fun i hi hp => ?_⟩, h.2⟩⟩
    obtain ⟨hp', he⟩ := h₂.table_eq hi hp
    rw [← he]
    exact h.2 i hi hp'
  case pages => exact h₁.pages.trans h₂.pages
  case mem =>
    intro b hb htable
    rw [h₂.mem b hb htable]
    refine h₁.mem b hb fun i hi hp => ?_
    obtain ⟨hp', he⟩ := h₂.table_eq hi hp
    rw [← he]
    exact htable i hi hp'

/-- One page. -/
theorem page (hinfo : m.info.Ok) (hd : DirOk m.mem m.info d) (hz : TablesNeZero m.mem d)
    (hn : n < 0x100000) (hm : Mapped m m' d n (entry n)) :
    AreaMapped m m' d (fun n' => n' = n) entry := by
  have hi : n / 1024 < 1024 := by omega
  have htable : ∀ i < 1024, present (pdeAt m'.mem d i) →
      (present (pdeAt m.mem d i) ∧ tableAt m'.mem d i = tableAt m.mem d i)
        ∨ (i = n / 1024 ∧ ¬ present (pdeAt m.mem d i) ∧ m.info.Free (tableAt m'.mem d i)) := by
    intro i hi hp
    by_cases hin : i = n / 1024
    · subst hin
      by_cases hold : present (pdeAt m.mem d (n / 1024))
      · exact Or.inl ⟨hold, by rw [tableAt, hm.pde_old hold, ← tableAt]⟩
      · exact Or.inr ⟨rfl, hold, hm.table_fresh hold⟩
    · have hpde := hm.pde i hi hin
      rw [hpde] at hp
      exact Or.inl ⟨hp, by rw [tableAt, hpde, ← tableAt]⟩
  have hpresent : ∀ i < 1024, (present (pdeAt m'.mem d i) ↔
      i = n / 1024 ∨ present (pdeAt m.mem d i)) := by
    intro i hi
    constructor
    · intro hp
      rcases htable i hi hp with ⟨hold, -⟩ | ⟨rfl, -⟩
      · exact Or.inr hold
      · exact Or.inl rfl
    · rintro (rfl | hold)
      · exact hm.pde_present
      · by_cases hin : i = n / 1024
        · exact hin ▸ hm.pde_present
        · rwa [hm.pde i hi hin]
  constructor
  case info => exact hm.info
  case start => exact hm.start
  case bitSize => exact hm.bitSize
  case cr3 => exact hm.cr3
  case kernelPde => exact hm.kernelPde
  case dir => exact hm.dir
  case tables =>
    intro i hi hp
    rcases htable i hi hp with ⟨hold, he⟩ | ⟨-, -, hfresh⟩
    · rw [he]
      exact hz i hi hold
    · exact (hfresh.pos hinfo).ne'
  case inside =>
    rintro n' hn' rfl
    rw [hm.pte n' hn', if_pos rfl]
  case outside =>
    intro n' hn' hne
    rw [hm.pte n' hn', if_neg hne]
  case table_old =>
    intro i hi hp
    by_cases hin : i = n / 1024
    · subst hin
      exact hm.pde_old hp
    · exact hm.pde i hi hin
  case table_other => exact fun i hi hother => hm.pde i hi fun he => hother n rfl he.symm
  case table_new =>
    intro i hi hp
    rcases htable i hi hp with ⟨hold, -⟩ | ⟨hin, -, hfree⟩
    · exact Or.inl hold
    · exact Or.inr ⟨hfree, n, rfl, hin.symm⟩
  case free =>
    intro q
    rw [hm.free]
    refine ⟨fun h => ⟨h.1, fun i hi hp => ?_⟩,
      fun h => ⟨h.1, (h.2 _ hi hm.pde_present).symm⟩⟩
    rcases htable i hi hp with ⟨hold, he⟩ | ⟨rfl, -⟩
    · rw [he]
      rintro rfl
      exact hd.table_used i hi hold h.1
    · exact h.2.symm
  case pages =>
    by_cases hp : present (pdeAt m.mem d (n / 1024))
    · have hold : tableAt m'.mem d (n / 1024) = tableAt m.mem d (n / 1024) := by
        rw [tableAt, hm.pde_old hp, ← tableAt]
      have hcount : tableCount m'.mem d = tableCount m.mem d := by
        refine congrArg Finset.card (Finset.filter_congr fun i hmem => ?_)
        rw [hpresent i (Finset.mem_range.mp hmem)]
        exact or_iff_right_of_imp fun he => he ▸ hp
      have hsame : m'.info.freePages = m.info.freePages := by
        refine Memory32Info.freePages_congr hm.start fun q => ?_
        rw [hm.free, hold]
        exact and_iff_left_of_imp fun hq he => hd.table_used _ hi hp (he ▸ hq)
      rw [hcount, hsame]
    · have hcount : tableCount m'.mem d = tableCount m.mem d + 1 := by
        have hnot : n / 1024 ∉ (Finset.range 1024).filter fun i => present (pdeAt m.mem d i) :=
          fun hmem => hp (Finset.mem_filter.mp hmem).2
        rw [tableCount, tableCount, ← Finset.card_insert_of_notMem hnot]
        refine congrArg Finset.card (Finset.ext fun i => ?_)
        rw [Finset.mem_insert, Finset.mem_filter, Finset.mem_filter, Finset.mem_range]
        refine ⟨fun h => ?_, fun h => ?_⟩
        · exact ((hpresent i h.1).mp h.2).imp id fun hold => ⟨h.1, hold⟩
        · have hlt : i < 1024 := h.elim (fun he => he ▸ hi) And.left
          exact ⟨hlt, (hpresent i hlt).mpr (h.imp id And.right)⟩
      rw [hcount, Memory32Info.freePages_take hm.start (hm.table_fresh hp) hm.free]
      omega
  case mem => exact fun b hb ht => hm.mem b hb (ht _ hi hm.pde_present)

end AreaMapped

section Loop

variable {m : Machine} {d vaddr paddr perm count : Nat}

/-- The pages of `count` rounds from `vaddr` on. -/
def AreaPages (vaddr count n : Nat) : Prop := vaddr / 0x1000 ≤ n ∧ n < vaddr / 0x1000 + count

/-- What the loop writes for the page `n`. -/
def areaEntry (vaddr paddr perm n : Nat) : Nat :=
  u32 (paddr + (n - vaddr / 0x1000) * 0x1000) ||| perm ||| 1

/-- What the loop has done when it ends: the first `k` pages are mapped, all of them, or all
until a table is missing and there is no page for it. -/
theorem createMap_run (hinfo : m.info.Ok) (hd : DirOk m.mem m.info d)
    (hz : TablesNeZero m.mem d) (hva : vaddr + count * 0x1000 ≤ 2 ^ 32)
    (hpa : paddr % 0x1000 = 0) (hpa' : paddr < 2 ^ 32) (hperm : perm < 0x1000) :
    ∃ k ≤ count, AreaMapped m (memory32CreateMap m d vaddr paddr count perm).1 d
        (AreaPages vaddr k) (areaEntry vaddr paddr perm)
      ∧ ((memory32CreateMap m d vaddr paddr count perm).2 = 0 ∧ k = count
        ∨ (memory32CreateMap m d vaddr paddr count perm).2 = -1 ∧ k < count
          ∧ (∀ p, ¬ (memory32CreateMap m d vaddr paddr count perm).1.info.Free p)
          ∧ ¬ present (pdeAt (memory32CreateMap m d vaddr paddr count perm).1.mem d
            ((vaddr / 0x1000 + k) / 1024))) := by
  have hempty : ∀ vaddr n, ¬ AreaPages vaddr 0 n := fun vaddr n h =>
    absurd h.2 (Nat.not_lt.mpr h.1)
  induction count generalizing m vaddr paddr with
  | zero =>
      exact ⟨0, Nat.le_refl 0, .refl hinfo hd hz (hempty vaddr), Or.inl ⟨rfl, rfl⟩⟩
  | succ count ih =>
      rw [memory32CreateMap]
      by_cases hpte : (findPte m d vaddr true).2 = 0
      case pos =>
        simp only [if_pos hpte]
        have hlt : vaddr < 2 ^ 32 := by omega
        have hdiv : vaddr / 0x1000 / 1024 = vaddr / 0x400000 := by omega
        rcases @findPte_cases m d vaddr hinfo with ⟨hp, heq⟩ | ⟨habs, hall, heq⟩ |
          ⟨-, j, -, hfree, heq⟩
        · rw [heq] at hpte
          have hne := hz _ (by omega) hp
          dsimp only at hpte
          omega
        · rw [heq]
          refine ⟨0, Nat.zero_le _, .refl hinfo hd hz (hempty vaddr),
            Or.inr ⟨trivial, Nat.succ_pos _, hall, ?_⟩⟩
          rw [Nat.add_zero, hdiv]
          exact habs
        · rw [heq] at hpte
          have hpos := hfree.pos hinfo
          dsimp only at hpte
          omega
      case neg =>
        simp only [if_neg hpte]
        have hlt : vaddr < 2 ^ 32 := by omega
        have hn : vaddr / 0x1000 < 0x100000 := by omega
        have hfirst : areaEntry vaddr paddr perm (vaddr / 0x1000) = paddr ||| perm ||| 1 := by
          rw [areaEntry, Nat.sub_self, Nat.zero_mul, Nat.add_zero, u32_of_lt hpa']
        have hm := findPte_mapped hinfo hd hlt (entry_lt hpa hperm hpa')
          (@present_entry paddr perm) hpte
        rw [← hfirst] at hm
        have hpage := AreaMapped.page hinfo hd hz hn hm
        rw [hfirst] at hpage
        generalize { (findPte m d vaddr true).1 with
          mem := (findPte m d vaddr true).1.mem.store32 (findPte m d vaddr true).2
            (paddr ||| perm ||| 1) } = m₁ at hpage ⊢
        -- after the last round the next address may be 2^32, that is 0
        have hnext : count = 0 ∨ u32 (vaddr + 0x1000) = vaddr + 0x1000 := by
          rw [u32]
          omega
        have hva' : u32 (vaddr + 0x1000) + count * 0x1000 ≤ 2 ^ 32 := by
          rw [u32]
          omega
        have hpa₁ : u32 (paddr + 0x1000) % 0x1000 = 0 := by
          rw [u32]
          omega
        have hpa₁' : u32 (paddr + 0x1000) < 2 ^ 32 := by
          rw [u32]
          omega
        obtain ⟨k, hk, harea, hend⟩ := ih hpage.info hpage.dir hpage.tables hva' hpa₁ hpa₁'
        have hrange : ∀ n, AreaPages vaddr (k + 1) n
            ↔ n = vaddr / 0x1000 ∨ AreaPages (u32 (vaddr + 0x1000)) k n := by
          intro n
          simp only [AreaPages]
          omega
        have hentry : ∀ n < 0x100000, AreaPages (u32 (vaddr + 0x1000)) k n →
            areaEntry (u32 (vaddr + 0x1000)) (u32 (paddr + 0x1000)) perm n
              = areaEntry vaddr paddr perm n := by
          intro n _ hin
          obtain ⟨hle, hlt'⟩ := hin
          have hframe : u32 (u32 (paddr + 0x1000) + (n - u32 (vaddr + 0x1000) / 0x1000) * 0x1000)
              = u32 (paddr + (n - vaddr / 0x1000) * 0x1000) := by
            have hu : u32 (vaddr + 0x1000) = vaddr + 0x1000 := by omega
            rw [hu] at hle ⊢
            simp only [u32]
            omega
          rw [areaEntry, areaEntry, hframe]
        refine ⟨k + 1, Nat.succ_le_succ hk,
          (hpage.trans (harea.congr (fun _ => Iff.rfl) hentry)).congr hrange fun _ _ _ => rfl, ?_⟩
        rcases hend with ⟨hret, rfl⟩ | ⟨hret, hlt', hall, habs⟩
        · exact Or.inl ⟨hret, rfl⟩
        · refine Or.inr ⟨hret, Nat.succ_lt_succ hlt', hall, ?_⟩
          have hidx : u32 (vaddr + 0x1000) / 0x1000 + k = vaddr / 0x1000 + (k + 1) := by omega
          rwa [hidx] at habs

end Loop

/-! ## The map -/

/-- The flags of the page `n`: the code cannot be written. -/
def kernelPerm (image : KernelImage) (n : Nat) : Nat :=
  if 0x10 ≤ n ∧ n < image.eText / 0x1000 then 0 else 2

def kernelEntry (image : KernelImage) (n : Nat) : Nat := n * 0x1000 ||| kernelPerm image n ||| 1

theorem kernelPerm_lt {image : KernelImage} {n : Nat} : kernelPerm image n < 0x1000 := by
  unfold kernelPerm
  split <;> decide

/-- What an access of the kernel comes to. -/
def kernelWalk (image : KernelImage) (va : Nat) : Option (Nat × Nat) :=
  if va < 0x80000 ∨ 0xA0000 ≤ va ∧ va < 0xC0000 ∨ pmExtStart ≤ va ∧ va < pmExtLimit then
    some (va, if 0x10000 ≤ va ∧ va < image.eText then 1 else 3)
  else none

namespace Memory32Map

def Pages (map : Memory32Map) (n : Nat) : Prop :=
  map.vstart / 0x1000 ≤ n ∧ n < map.vlimit / 0x1000

/-- A row that maps pages at their own addresses, with the flags they have. -/
structure IsIdentity (image : KernelImage) (map : Memory32Map) : Prop where
  same : map.pstart = map.vstart
  start_aligned : map.vstart % 0x1000 = 0
  limit_aligned : map.vlimit % 0x1000 = 0
  le : map.vstart ≤ map.vlimit
  limit_le : map.vlimit ≤ 0x2000000
  perm_lt : map.perm < 0x1000
  perm : ∀ n, map.Pages n → map.perm = kernelPerm image n

end Memory32Map

theorem Memory32Map.IsIdentity.row {image : KernelImage} {a b perm : Nat} (ha : a % 0x1000 = 0)
    (hb : b % 0x1000 = 0) (hle : a ≤ b) (hlim : b ≤ 0x2000000) (hlt : perm < 0x1000)
    (hperm : ∀ n, a / 0x1000 ≤ n → n < b / 0x1000 → kernelPerm image n = perm) :
    IsIdentity image ⟨a, b, a, perm⟩ :=
  ⟨rfl, ha, hb, hle, hlim, hlt, fun n hn => (hperm n hn.1 hn.2).symm⟩

theorem kernelMap_identity {image : KernelImage} {map : Memory32Map} (h : map ∈ kernelMap image) :
    map.IsIdentity image := by
  have haligned := image.eText_aligned
  have hle := image.bText_le
  have hdata := image.bData_le
  have hlt := image.kernelPde_lt
  have hcode : ∀ n, 0x10 ≤ n → n < image.eText / 0x1000 → kernelPerm image n = 0 :=
    fun n hn hn' => if_pos ⟨hn, hn'⟩
  have hother : ∀ n, n < 0x10 ∨ image.eText / 0x1000 ≤ n → kernelPerm image n = 2 :=
    fun n hn => if_neg (by omega)
  simp only [kernelMap, List.mem_cons, List.not_mem_nil, or_false] at h
  rcases h with rfl | rfl | rfl | rfl | rfl
  · exact .row rfl rfl (by decide) (by decide) (by decide) fun n _ hn => hother n (by omega)
  · exact .row rfl haligned hle (by omega) (by decide) hcode
  · exact .row haligned rfl (by omega) (by decide) (by decide) fun n hn _ =>
      hother n (by omega)
  · exact .row rfl rfl (by decide) (by decide) (by decide) fun n hn _ => hother n (by omega)
  · refine .row rfl rfl (by decide) (by decide) (by decide) fun n hn _ => hother n ?_
    rw [pmExtStart] at hn
    omega

/-- The pages of the rows. -/
theorem kernelMap_pages {image : KernelImage} {n : Nat} :
    (∃ map ∈ kernelMap image, map.Pages n)
      ↔ n < 0x80 ∨ 0xA0 ≤ n ∧ n < 0xC0 ∨ 0x100 ≤ n ∧ n < 0x2000 := by
  have haligned := image.eText_aligned
  have hle := image.bText_le
  have hdata := image.bData_le
  have hlt := image.kernelPde_lt
  simp only [kernelMap, List.mem_cons, List.not_mem_nil, or_false, exists_eq_or_imp,
    exists_eq_left, Memory32Map.Pages, pmExtStart, pmExtLimit]
  omega

/-! ## `kernel_pagging` -/

/-- A directory with room for the tables of the first 32 MiB, and no others. -/
structure KernelReady (m : Machine) (d : Nat) : Prop where
  info : m.info.Ok
  dir : DirOk m.mem m.info d
  tables : TablesNeZero m.mem d
  low : ∀ i < 1024, present (pdeAt m.mem d i) → i < 8
  room : 8 ≤ m.info.freePages + tableCount m.mem d

section Kernel

variable {image : KernelImage} {m m' : Machine} {d : Nat} {R : Nat → Prop} {entry : Nat → Nat}
  {map : Memory32Map}

theorem KernelReady.area (h : KernelReady m d) (ha : AreaMapped m m' d R entry)
    (hR : ∀ n, R n → n < 0x2000) : KernelReady m' d where
  info := ha.info
  dir := ha.dir
  tables := ha.tables
  low := fun i hi hp => by
    rcases ha.table_new i hi hp with hold | ⟨-, n, hn, rfl⟩
    · exact h.low i hi hold
    · have := hR n hn
      omega
  room := ha.pages ▸ h.room

/-- Without one of its tables, the directory leaves a page free. -/
theorem KernelReady.not_full (h : KernelReady m d) {i : Nat} (hi : i < 8)
    (habs : ¬ present (pdeAt m.mem d i)) : ∃ p, m.info.Free p := by
  by_contra hnone
  have hcount : tableCount m.mem d < 8 := by
    have hsub : ((Finset.range 1024).filter fun i => present (pdeAt m.mem d i))
        ⊆ (Finset.range 8).erase i := by
      intro j hj
      obtain ⟨hlt, hp⟩ := Finset.mem_filter.mp hj
      refine Finset.mem_erase.mpr ⟨?_, Finset.mem_range.mpr (h.low j (Finset.mem_range.mp hlt) hp)⟩
      rintro rfl
      exact habs hp
    have hcard := Finset.card_le_card hsub
    rw [Finset.card_erase_of_mem (Finset.mem_range.mpr hi), Finset.card_range] at hcard
    exact Nat.lt_succ_of_le hcard
  have hroom := h.room
  rw [Memory32Info.freePages_eq_zero fun p hp => hnone ⟨p, hp⟩] at hroom
  omega

/-- One row. -/
theorem KernelReady.create (h : KernelReady m m.kernelPde) (hid : map.IsIdentity image) :
    AreaMapped m (map.create m).1 m.kernelPde map.Pages (kernelEntry image) := by
  obtain ⟨hsame, hstart, hlimit, hle, hlim, hlt, hperm⟩ := hid
  have hfloor : floorPage map.vstart = map.vstart := by
    rw [floorPage]
    omega
  have hceil : ceilPage map.vlimit = map.vlimit := by
    rw [ceilPage, u32]
    omega
  have hcount : u32 (map.vlimit + 0x100000000 - map.vstart) / 0x1000
      = map.vlimit / 0x1000 - map.vstart / 0x1000 := by
    rw [u32]
    omega
  obtain ⟨count, hc⟩ : ∃ count, count = map.vlimit / 0x1000 - map.vstart / 0x1000 := ⟨_, rfl⟩
  have hcreate : map.create m = memory32CreateMap m m.kernelPde map.vstart map.vstart count
      map.perm := by
    rw [Memory32Map.create, hsame, hfloor, hceil, hcount, ← hc]
  rw [hcreate]
  obtain ⟨k, hk, ha, hend⟩ := @createMap_run m m.kernelPde map.vstart map.vstart map.perm count
    h.info h.dir h.tables (by omega) hstart (by omega) hlt
  have hready := h.area ha fun n hn => by
    obtain ⟨-, hn⟩ := hn
    omega
  have hk' : k = count := by
    rcases hend with ⟨-, hk'⟩ | ⟨-, hlt', hall, habs⟩
    · exact hk'
    · obtain ⟨p, hp⟩ := hready.not_full (by omega) habs
      exact absurd hp (hall p)
  refine ha.congr (fun n => ?_) fun n _ hn => ?_
  · simp only [Memory32Map.Pages, AreaPages]
    omega
  · obtain ⟨hn, hn'⟩ := hn
    have hframe : u32 (map.vstart + (n - map.vstart / 0x1000) * 0x1000) = n * 0x1000 := by
      rw [u32]
      omega
    rw [areaEntry, kernelEntry, hframe, hperm n ⟨hn, by omega⟩]

/-- All rows of a list. -/
theorem KernelReady.rows {maps : List Memory32Map} (h : KernelReady m m.kernelPde)
    (hid : ∀ map ∈ maps, map.IsIdentity image) :
    AreaMapped m (maps.foldl (fun m map => (map.create m).1) m) m.kernelPde
      (fun n => ∃ map ∈ maps, map.Pages n) (kernelEntry image) := by
  induction maps generalizing m with
  | nil => exact .refl h.info h.dir h.tables fun n ⟨map, hmem, _⟩ => List.not_mem_nil hmem
  | cons map maps ih =>
      have hrow := hid map List.mem_cons_self
      have ha := h.create hrow
      have hready := h.area ha fun n hn => by
        have hlim := hrow.limit_le
        obtain ⟨-, hn⟩ := hn
        omega
      rw [← ha.kernelPde] at hready
      have hrest := ih hready fun map' hmem => hid map' (List.mem_cons_of_mem map hmem)
      rw [ha.kernelPde] at hrest
      refine (ha.trans hrest).congr (fun n => ?_) fun _ _ _ => rfl
      simp only [List.mem_cons, exists_eq_or_imp]

theorem kernelPagging_area (h : KernelReady m m.kernelPde) :
    AreaMapped m (kernelPagging image m) m.kernelPde
      (fun n => n < 0x80 ∨ 0xA0 ≤ n ∧ n < 0xC0 ∨ 0x100 ≤ n ∧ n < 0x2000) (kernelEntry image) :=
  (h.rows fun _ hmem => kernelMap_identity hmem).congr (fun _ => kernelMap_pages.symm)
    fun _ _ _ => rfl

end Kernel

/-! ## `memory_init` -/

/-- What `memory_init` makes of the machine `m`. -/
structure KernelLaw (image : KernelImage) (raws : List MemoryRaw) (m m' : Machine) : Prop where
  active : m'.cr3 = image.kernelPde
  /-- The kernel is found at its own addresses, and nothing else. -/
  walk : ∀ va < 2 ^ 32, Csos.walk m'.mem m'.cr3 va = kernelWalk image va
  /-- The tables take eight pages. -/
  pages : m'.info.freePages + 8 = (floorPage (totalSize raws) - pmExtStart) / 0x1000
  free : ∀ p, m'.info.Free p → PageIn pmExtStart (floorPage (totalSize raws) - pmExtStart) p
  /-- Besides them, only `kernel_pde` is written. -/
  mem : ∀ b, b / 0x1000 * 0x1000 ≠ image.kernelPde →
    (PageIn pmExtStart (floorPage (totalSize raws) - pmExtStart) (b / 0x1000 * 0x1000) →
      m'.info.Free (b / 0x1000 * 0x1000)) → m'.mem b = m.mem b
  /-- The kernel reaches each page of the allocator if there are no more than 32 MiB. -/
  reaches : (∀ p, PageIn pmExtStart (floorPage (totalSize raws) - pmExtStart) p →
      ∀ off < 0x1000, Csos.walk m'.mem m'.cr3 (p + off) = some (p + off, 3))
    ↔ floorPage (totalSize raws) ≤ pmExtLimit

theorem totalSize_lt (raws : List MemoryRaw) : totalSize raws < 2 ^ 32 := by
  have hfold : ∀ total < 2 ^ 32, raws.foldl (fun total raw =>
      if raw.type = 1 then u32 (total + raw.lengthL) else total) total < 2 ^ 32 := by
    induction raws with
    | nil => exact fun _ h => h
    | cons raw raws ih =>
        refine fun total h => ih _ ?_
        dsimp only
        split
        · exact Nat.mod_lt _ (by decide)
        · exact h
  exact hfold 0 (by decide)

section Init

variable {image : KernelImage} {m : Machine} {raws : List MemoryRaw} (bits : Nat → BitVec 8)

/-- The allocator of `memory_init`. -/
def bootInfo (bits : Nat → BitVec 8) (raws : List MemoryRaw) : Memory32Info :=
  initMemory32Info bits pmExtStart (floorPage (totalSize raws) - pmExtStart) 0x1000

theorem memoryInit_eq (hsize : pmExtStart ≤ totalSize raws) : memoryInit image bits m raws
    = { kernelPagging image { m with info := bootInfo bits raws } with
        cr3 := (kernelPagging image { m with info := bootInfo bits raws }).kernelPde } := by
  have hlt := totalSize_lt raws
  have hfloor : floorPage (u32 (totalSize raws + 0x100000000 - pmExtStart))
      = floorPage (totalSize raws) - pmExtStart := by
    rw [pmExtStart] at hsize ⊢
    simp only [floorPage, u32]
    omega
  rw [memoryInit, hfloor]
  rfl

theorem bootInfo_free {p : Nat} : (bootInfo bits raws).Free p
    ↔ PageIn pmExtStart (floorPage (totalSize raws) - pmExtStart) p := by
  rw [PageUse.pageIn_iff rfl]
  constructor
  · rintro ⟨i, hi, -, rfl⟩
    exact ⟨i, hi, rfl⟩
  · rintro ⟨i, hi, rfl⟩
    exact ⟨i, hi, PageUse.bitmapGetBit_init hi, rfl⟩

theorem bootInfo_freePages : (bootInfo bits raws).freePages
    = (floorPage (totalSize raws) - pmExtStart) / 0x1000 := by
  have hall : ∀ i ∈ Finset.range (bootInfo bits raws).bitmap.bitSize,
      bitmapGetBit (bootInfo bits raws).bitmap i = false :=
    fun i hi => PageUse.bitmapGetBit_init (Finset.mem_range.mp hi)
  rw [Memory32Info.freePages, Finset.filter_true_of_mem hall, Finset.card_range]
  rfl

/-- Before the first row, the directory is empty. -/
theorem bootInfo_ready (hpde : m.kernelPde = image.kernelPde)
    (hbss : ∀ i < 1024, pdeAt m.mem image.kernelPde i = 0) (hsize : 0x108000 ≤ totalSize raws) :
    KernelReady { m with info := bootInfo bits raws } m.kernelPde := by
  have hdata := image.bData_le
  have htext := image.bText_le
  have hpdeLt := image.kernelPde_lt
  have hlt := totalSize_lt raws
  have habs : ∀ i < 1024, ¬ present (pdeAt m.mem m.kernelPde i) := by
    intro i hi
    rw [hpde, hbss i hi]
    decide
  constructor
  case info =>
    have hstart : pmExtStart % 0x1000 = 0 := rfl
    refine ⟨rfl, Nat.succ_pos _, hstart, ?_⟩
    have hlimit : (bootInfo bits raws).page (bootInfo bits raws).bitmap.bitSize
        = pmExtStart + (floorPage (totalSize raws) - pmExtStart) / 0x1000 * 0x1000 := rfl
    rw [hlimit, pmExtStart, floorPage]
    omega
  case dir =>
    refine .of_absent (by omega) (hpde ▸ image.kernelPde_aligned) (fun hfree => ?_) habs
    have hle := ((bootInfo_free bits).mp hfree).start_le
    rw [pmExtStart] at hle
    omega
  case tables => exact fun i hi hp => absurd hp (habs i hi)
  case low => exact fun i hi hp => absurd hp (habs i hi)
  case room =>
    refine Nat.le_trans ?_ (Nat.le_add_right _ _)
    rw [bootInfo_freePages]
    simp only [pmExtStart, floorPage]
    omega

theorem kernelWalk_eq {va : Nat} : kernelWalk image va
    = if va / 0x1000 < 0x80 ∨ 0xA0 ≤ va / 0x1000 ∧ va / 0x1000 < 0xC0
        ∨ 0x100 ≤ va / 0x1000 ∧ va / 0x1000 < 0x2000 then
        some (va, kernelPerm image (va / 0x1000) ||| 1)
      else none := by
  have haligned := image.eText_aligned
  have hpages : (va < 0x80000 ∨ 0xA0000 ≤ va ∧ va < 0xC0000 ∨ pmExtStart ≤ va ∧ va < pmExtLimit)
      ↔ (va / 0x1000 < 0x80 ∨ 0xA0 ≤ va / 0x1000 ∧ va / 0x1000 < 0xC0
        ∨ 0x100 ≤ va / 0x1000 ∧ va / 0x1000 < 0x2000) := by
    rw [pmExtStart, pmExtLimit]
    omega
  have hflags : (if 0x10000 ≤ va ∧ va < image.eText then 1 else 3)
      = kernelPerm image (va / 0x1000) ||| 1 := by
    unfold kernelPerm
    split
    case isTrue h => rw [if_pos (by omega)]; rfl
    case isFalse h => rw [if_neg (by omega)]; rfl
  rw [kernelWalk, hflags]
  exact if_congr hpages rfl rfl

/-- The kernel reaches the pages up to `e` at their own addresses if they end
with the map. -/
theorem kernelWalk_reaches {e : Nat} (haligned : e % 0x1000 = 0) :
    (∀ p, PageIn pmExtStart (e - pmExtStart) p → ∀ off < 0x1000,
      kernelWalk image (p + off) = some (p + off, 3)) ↔ e ≤ pmExtLimit := by
  constructor
  · intro h
    by_contra hmore
    have hpage : PageIn pmExtStart (e - pmExtStart) pmExtLimit := by
      rw [pmExtLimit] at hmore
      refine ⟨rfl, by decide, ?_⟩
      rw [pmExtStart, pmExtLimit]
      omega
    have hw := h pmExtLimit hpage 0 (by decide)
    rw [Nat.add_zero, kernelWalk, if_neg (by decide)] at hw
    cases hw
  · rintro hle p ⟨-, hstart, hend⟩ off hoff
    have htext := image.bData_le
    have hpdeLt := image.kernelPde_lt
    rw [pmExtStart] at hstart hend
    rw [pmExtLimit] at hle
    rw [kernelWalk, if_pos (by rw [pmExtStart, pmExtLimit]; omega), if_neg (by omega)]

variable (hpde : m.kernelPde = image.kernelPde)
  (hbss : ∀ i < 1024, pdeAt m.mem image.kernelPde i = 0) (hsize : 0x108000 ≤ totalSize raws)
include hpde hbss hsize

/-- The five rows one after the other, on a directory that is empty before. -/
theorem memoryInit_area : ∃ m₁, memoryInit image bits m raws = { m₁ with cr3 := m₁.kernelPde }
    ∧ AreaMapped { m with info := bootInfo bits raws } m₁ m.kernelPde
      (fun n => n < 0x80 ∨ 0xA0 ≤ n ∧ n < 0xC0 ∨ 0x100 ≤ n ∧ n < 0x2000) (kernelEntry image)
    ∧ KernelReady m₁ m.kernelPde
    ∧ ∀ va < 2 ^ 32, walk m₁.mem m.kernelPde va = kernelWalk image va := by
  have hready := bootInfo_ready bits hpde hbss hsize
  have ha := @kernelPagging_area image _ hready
  refine ⟨_, memoryInit_eq bits (Nat.le_trans (by decide) hsize), ha,
    hready.area ha fun n hn => by omega, fun va hva => ?_⟩
  generalize kernelPagging image { m with info := bootInfo bits raws } = m₁ at ha ⊢
  rw [walk_eq, kernelWalk_eq]
  split
  case isTrue hin =>
    have hal : va / 0x1000 * 0x1000 % 0x1000 = 0 := Nat.mul_mod_left _ _
    have hsplit : va / 0x1000 * 0x1000 + va % 0x1000 = va := Nat.div_add_mod' va 0x1000
    rw [ha.inside _ (by omega) hin, Option.map_some, kernelEntry,
      pteAddress_entry hal kernelPerm_lt, entry_mod hal kernelPerm_lt, hsplit]
  case isFalse hout =>
    have habs : ¬ present (pdeAt m.mem m.kernelPde (va / 0x1000 / 1024)) := by
      rw [hpde, hbss _ (by omega)]
      decide
    rw [ha.outside _ (by omega) hout, pteAt, if_neg habs]
    rfl

/-- `memory_init` fills `kernel_pde` and gives the allocator its pages. What
comes of it is known for every memory that the firmware reports. -/
theorem memoryInit_law : KernelLaw image raws m (memoryInit image bits m raws) := by
  obtain ⟨m₁, heq, ha, hlow, hwalk⟩ := memoryInit_area bits hpde hbss hsize
  rw [heq]
  have hkernel : m₁.kernelPde = m.kernelPde := ha.kernelPde
  have hfree : ∀ p, m₁.info.Free p ↔
      PageIn pmExtStart (floorPage (totalSize raws) - pmExtStart) p
      ∧ ∀ i < 1024, present (pdeAt m₁.mem m.kernelPde i) → tableAt m₁.mem m.kernelPde i ≠ p :=
    fun p => (ha.free p).trans (and_congr_left' (bootInfo_free bits))
  rw [← hkernel] at hwalk
  have hcount : tableCount m₁.mem m.kernelPde = 8 := by
    have hset : ((Finset.range 1024).filter fun i => present (pdeAt m₁.mem m.kernelPde i))
        = Finset.range 8 := by
      refine Finset.ext fun i => ?_
      rw [Finset.mem_filter, Finset.mem_range, Finset.mem_range]
      refine ⟨fun h => hlow.low i h.1 h.2, fun h => ⟨by omega, ?_⟩⟩
      have hpte := ha.inside (1024 * i + 512) (by omega) (by omega)
      have hdiv : (1024 * i + 512) / 1024 = i := by omega
      exact hdiv ▸ (pteAt_eq_some hpte).1
    rw [tableCount, hset, Finset.card_range]
  constructor
  case active => exact hkernel.trans hpde
  case walk => exact hwalk
  case pages =>
    have hnone : tableCount m.mem m.kernelPde = 0 := by
      refine Finset.card_eq_zero.mpr (Finset.filter_eq_empty_iff.mpr fun i hi => ?_)
      rw [hpde, hbss i (Finset.mem_range.mp hi)]
      decide
    have hpages := ha.pages
    rw [hcount, hnone, bootInfo_freePages, Nat.add_zero] at hpages
    exact hpages.symm
  case free => exact fun p hp => ((hfree p).mp hp).1
  case mem =>
    intro b hb hin
    refine ha.mem b (hpde ▸ hb) fun i hi hp he => ?_
    rcases ha.table_new i hi hp with hold | ⟨hfresh, -⟩
    · rw [hpde, hbss i hi] at hold
      exact absurd hold (by decide)
    · have hfree' := hin (he ▸ (bootInfo_free bits).mp hfresh)
      exact ((hfree _).mp hfree').2 i hi hp he.symm
  case reaches =>
    have haligned : floorPage (totalSize raws) % 0x1000 = 0 := Nat.mul_mod_left _ _
    rw [← @kernelWalk_reaches image _ haligned]
    refine forall_congr' fun p => forall_congr' fun hp => forall_congr' fun off =>
      forall_congr' fun hoff => ?_
    have hlt := totalSize_lt raws
    have hend := hp.le_end
    have hfloor : floorPage (totalSize raws) ≤ totalSize raws := Nat.div_mul_le_self _ _
    rw [pmExtStart] at hend
    rw [← hwalk _ (by omega)]

end Init

/-- A kernel of 320 KiB. -/
def smallImage : KernelImage where
  eText := 0x30000
  kernelPde := 0x50000
  eText_aligned := rfl
  bText_le := by decide
  kernelPde_aligned := rfl
  bData_le := by decide
  kernelPde_lt := by decide

/-- What the firmware of a machine with 32 MiB reports. -/
def smallRaws : List MemoryRaw :=
  [⟨0, 0x9FC00, 1⟩, ⟨0x9FC00, 0x400, 2⟩, ⟨0xF0000, 0x10000, 2⟩, ⟨0x100000, 0x1EE0000, 1⟩,
   ⟨0x1FE0000, 0x20000, 2⟩]

def bareMachine : Machine := { smallMachine with kernelPde := 0x50000 }

theorem memoryInit_law_small : KernelLaw smallImage smallRaws bareMachine
    (memoryInit smallImage (fun _ => 0) bareMachine smallRaws) :=
  memoryInit_law (fun _ => 0) rfl (fun _ _ => rfl) (by decide)

end Csos
