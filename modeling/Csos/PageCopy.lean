import Csos.Execve
import Csos.PageDir

/-!
# Copies into another address space (`memory32_copy_page_data`)

Each round copies up to the end of a page of the destination, to where
`get_paddr` says that the page is. `memory32CopyPageData_law` says what the
copy does when all pages are there. `get_paddr` looks whether there is a
table, and not whether the entry in it is present; what follows for a page
that is not there is in `memory32CopyPageData_refuses`.

The addresses that a copy writes to are listed by `copyPageDataWrites`,
which goes through the same rounds.
-/

namespace Csos

open Lib

/-! ## Tables and what they map -/

/-- The directory that `get_paddr` looks into. -/
def directory (m : Machine) (pde : Nat) : Nat := if pde = 0 then m.kernelPde else pde

/-- The entry for the page `n`, present or not. -/
def entryAt (mem : Bytes) (d n : Nat) : Nat :=
  mem.load32 (tableAt mem d (n / 1024) + 4 * (n % 1024))

/-- There is an entry for the page `n`, and its address is not NULL. -/
def HasEntry (mem : Bytes) (d n : Nat) : Prop :=
  present (pdeAt mem d (n / 1024)) ∧ tableAt mem d (n / 1024) + 4 * (n % 1024) ≠ 0

instance (mem : Bytes) (d n : Nat) : Decidable (HasEntry mem d n) :=
  inferInstanceAs (Decidable (_ ∧ _))

/-- `p` is the page of the directory or of one of its tables. -/
def TablePage (mem : Bytes) (d p : Nat) : Prop :=
  p = d ∨ ∃ i < 1024, present (pdeAt mem d i) ∧ p = tableAt mem d i

section Tables

variable {m cur : Machine} {mem mem' : Bytes} {pde d n v va : Nat}

theorem getPaddr_entry : getPaddr m pde va
    = if HasEntry m.mem (directory m pde) (va / 0x1000) then
        pteAddress (entryAt m.mem (directory m pde) (va / 0x1000)) + va % 0x1000 else 0 := by
  have hand : va &&& 0xFFF = va % 0x1000 := Nat.and_two_pow_sub_one_eq_mod va 12
  have hcall : getPaddr m pde va = if (findPte m (directory m pde) va false).2 = 0 then 0
      else u32 (pteAddress (m.mem.load32 (findPte m (directory m pde) va false).2)
        + va % 0x1000) := by
    rw [← hand]
    rfl
  rw [hcall, findPte_false]
  generalize directory m pde = d
  dsimp only
  by_cases hp : present (pdeAt m.mem d (va / 0x1000 / 1024))
  · rw [if_pos hp]
    by_cases hne : tableAt m.mem d (va / 0x1000 / 1024) + 4 * (va / 0x1000 % 1024) = 0
    · rw [if_pos hne, if_neg fun he => he.2 hne]
    · have hlt := Bytes.load32_lt m.mem
        (tableAt m.mem d (va / 0x1000 / 1024) + 4 * (va / 0x1000 % 1024))
      have heq := pteAddress_eq (entryAt m.mem d (va / 0x1000))
      rw [entryAt] at heq
      rw [if_neg hne, if_pos ⟨hp, hne⟩, entryAt]
      exact u32_of_lt (by omega)
  · rw [if_neg hp, if_pos rfl, if_neg fun he => hp he.1]

theorem entryAt_of_pteAt (h : pteAt mem d n = some v) : entryAt mem d n = v :=
  (pteAt_eq_some h).2.1

theorem getPaddr_present (hv : pteAt m.mem (directory m pde) (va / 0x1000) = some v)
    (he : HasEntry m.mem (directory m pde) (va / 0x1000)) :
    getPaddr m pde va = pteAddress v + va % 0x1000 := by
  rw [getPaddr_entry, if_pos he, entryAt_of_pteAt hv]

/-- The tables of a directory are what they were. -/
def TablesKept (mem mem' : Bytes) (d : Nat) : Prop :=
  ∀ b, TablePage mem d (b / 0x1000 * 0x1000) → mem' b = mem b

namespace TablesKept

variable (h : TablesKept mem mem' d) (hal : d % 0x1000 = 0)
include h hal

theorem pdeAt_eq {i : Nat} (hi : i < 1024) : pdeAt mem' d i = pdeAt mem d i :=
  pdeAt_congr hal hi fun b hb => h b (Or.inl hb)

theorem tableAt_eq {i : Nat} (hi : i < 1024) : tableAt mem' d i = tableAt mem d i := by
  rw [tableAt, h.pdeAt_eq hal hi, ← tableAt]

theorem pteAt_eq (hn : n < 0x100000) : pteAt mem' d n = pteAt mem d n :=
  pteAt_congr hal hn (fun b hb => h b (Or.inl hb)) fun hp b hb =>
    h b (Or.inr ⟨_, by omega, hp, hb⟩)

theorem hasEntry_iff (hn : n < 0x100000) : HasEntry mem' d n ↔ HasEntry mem d n := by
  have hi : n / 1024 < 1024 := by omega
  rw [HasEntry, HasEntry, h.pdeAt_eq hal hi, h.tableAt_eq hal hi]

theorem entryAt_eq (hn : n < 0x100000) (he : HasEntry mem d n) :
    entryAt mem' d n = entryAt mem d n := by
  have hi : n / 1024 < 1024 := by omega
  have ht := tableAt_aligned mem d (n / 1024)
  rw [entryAt, h.tableAt_eq hal hi, entryAt]
  exact Bytes.load32_congr fun b _ _ => h b (Or.inr ⟨_, hi, he.1, by omega⟩)

/-- What the tables name is the same page as before. -/
theorem tablePage_iff {p : Nat} : TablePage mem' d p ↔ TablePage mem d p := by
  refine or_congr_right (exists_congr fun i => and_congr_right fun hi => ?_)
  rw [h.pdeAt_eq hal hi, h.tableAt_eq hal hi]

theorem trans {mem'' : Bytes} (h' : TablesKept mem' mem'' d) : TablesKept mem mem'' d :=
  fun b hb => (h' b ((h.tablePage_iff hal).mpr hb)).trans (h b hb)

end TablesKept

theorem TablesKept.refl : TablesKept mem mem d := fun _ _ => rfl

/-- What the kernel sees through tables that were not written. -/
theorem translate_kept (hcr3 : cur.cr3 = m.cr3) (hal : m.cr3 % 0x1000 = 0)
    (h : TablesKept m.mem cur.mem m.cr3) (hva : va < 2 ^ 32) :
    cur.translate va = m.translate va := by
  rw [Machine.translate, Machine.translate, hcr3, walk_eq, walk_eq, h.pteAt_eq hal (by omega)]

theorem getPaddr_kept (hk : cur.kernelPde = m.kernelPde) (hal : directory m pde % 0x1000 = 0)
    (h : TablesKept m.mem cur.mem (directory m pde)) (hva : va < 2 ^ 32) :
    getPaddr cur pde va = getPaddr m pde va := by
  have hdir : directory cur pde = directory m pde := by rw [directory, hk, ← directory]
  have hn : va / 0x1000 < 0x100000 := by omega
  rw [getPaddr_entry, getPaddr_entry, hdir]
  by_cases he : HasEntry m.mem (directory m pde) (va / 0x1000)
  · rw [if_pos ((h.hasEntry_iff hal hn).mpr he), if_pos he, h.entryAt_eq hal hn he]
  · rw [if_neg fun he' => he ((h.hasEntry_iff hal hn).mp he'), if_neg he]

end Tables

/-! ## Where a copy writes -/

/-- The bytes that `kernel_memcpy` writes, up to a fault. -/
def memcpyWrites : Nat → Machine → Nat → Nat → List Nat
  | 0, _, _, _ => []
  | size + 1, m, dst, src =>
      match m.read8 src, m.translate dst with
      | some v, some b =>
          b :: memcpyWrites size { m with mem := m.mem.store8 b v } (u32 (dst + 1)) (u32 (src + 1))
      | _, _ => []

def kernelMemcpyWrites (m : Machine) (dst src size : Nat) : List Nat :=
  if dst = 0 ∨ src = 0 ∨ size = 0 then [] else memcpyWrites size m dst src

/-- The bytes that `memory32_copy_page_data` writes. -/
def copyPageDataWrites (pde : Nat) : Nat → Machine → Nat → Nat → Nat → List Nat
  | 0, _, _, _, _ => []
  | n + 1, m, dst, src, size =>
      if size = 0 then []
      else
        let paddr := getPaddr m pde dst
        if paddr = 0 then []
        else
          let room := pageSize - paddr % pageSize
          let cs := if room > size then size else room
          kernelMemcpyWrites m paddr src cs
            ++ match kernelMemcpy m paddr src cs with
              | some m => copyPageDataWrites pde n m (u32 (dst + cs)) (u32 (src + cs)) (size - cs)
              | none => []

section Writes

variable {m m' : Machine} {pde dst src size b fuel : Nat} {ret : Int}

theorem memcpyWrites_outside (h : kernelMemcpyLoop size m dst src = some m')
    (hb : b ∉ memcpyWrites size m dst src) : m'.mem b = m.mem b := by
  induction size generalizing m dst src with
  | zero =>
      obtain rfl := Option.some.inj h
      rfl
  | succ size ih =>
      rw [kernelMemcpyLoop] at h
      rw [memcpyWrites] at hb
      cases hread : m.read8 src with
      | none =>
          rw [hread] at h
          cases h
      | some v =>
          cases htr : m.translate dst with
          | none =>
              simp [hread, Machine.write8, htr] at h
          | some a =>
              simp only [hread, Machine.write8, htr, Option.map_some, Option.bind_eq_bind,
                Option.bind_some] at h
              simp only [hread, htr, List.mem_cons, not_or] at hb
              rw [ih h hb.2]
              exact Bytes.store8_of_ne hb.1

theorem kernelMemcpyWrites_outside (h : kernelMemcpy m dst src size = some m')
    (hb : b ∉ kernelMemcpyWrites m dst src size) : m'.mem b = m.mem b := by
  rw [kernelMemcpy] at h
  rw [kernelMemcpyWrites] at hb
  split at h
  case isTrue =>
    obtain rfl := Option.some.inj h
    rfl
  case isFalse hgo =>
    rw [if_neg hgo] at hb
    exact memcpyWrites_outside h hb

/-- A byte that is not in the list stays as it is. -/
theorem copyPageDataWrites_outside
    (h : copyPageDataLoop pde fuel m dst src size = some (m', ret))
    (hb : b ∉ copyPageDataWrites pde fuel m dst src size) : m'.mem b = m.mem b := by
  induction fuel generalizing m dst src size with
  | zero => cases h
  | succ fuel ih =>
      rw [copyPageDataLoop] at h
      rw [copyPageDataWrites] at hb
      split at h
      case isTrue =>
        obtain ⟨rfl, -⟩ := Prod.mk.inj (Option.some.inj h)
        rfl
      case isFalse hsize =>
      rw [if_neg hsize] at hb
      dsimp only at h hb
      split at h
      case isTrue =>
        obtain ⟨rfl, -⟩ := Prod.mk.inj (Option.some.inj h)
        rfl
      case isFalse hpaddr =>
      rw [if_neg hpaddr] at hb
      obtain ⟨m₁, hcopy, hrest⟩ := Option.bind_eq_some_iff.mp h
      rw [hcopy, List.mem_append, not_or] at hb
      rw [ih hrest hb.2]
      exact kernelMemcpyWrites_outside hcopy hb.1

end Writes

/-! ## `kernel_memcpy` to a piece of memory -/

section Memcpy

variable {m : Machine} {dst src size : Nat}

/-- The destination is memory, no table of the running task is in it, and the source can be read. -/
structure Copyable (m : Machine) (dst src size : Nat) : Prop where
  memory : dst + size ≤ pmExtLimit
  aligned : m.cr3 % 0x1000 = 0
  tables : ∀ b, dst ≤ b → b < dst + size → ¬ TablePage m.mem m.cr3 (b / 0x1000 * 0x1000)
  source : ∀ i < size, ∃ s, m.translate (u32 (src + i)) = some s

/-- What a copy has done. -/
structure MemCopied (m : Machine) (mem' : Bytes) (dst src size : Nat) : Prop where
  outside : ∀ b, b < dst ∨ dst + size ≤ b → mem' b = m.mem b
  inside : (∀ i < size, ∀ s, m.translate (u32 (src + i)) = some s → s < dst ∨ dst + size ≤ s) →
    ∀ i < size, ∀ s, m.translate (u32 (src + i)) = some s → mem' (dst + i) = m.mem s

theorem Copyable.kept (h : Copyable m dst src size) {mem' : Bytes}
    (hout : ∀ b, b < dst ∨ dst + size ≤ b → mem' b = m.mem b) : TablesKept m.mem mem' m.cr3 := by
  intro b hb
  refine hout b ?_
  by_contra hin
  exact h.tables b (by omega) (by omega) hb

theorem memcpyLoop_copied (h : Copyable m dst src size) (hsrc : src < 2 ^ 32) :
    ∃ mem', kernelMemcpyLoop size m dst src = some { m with mem := mem' }
      ∧ MemCopied m mem' dst src size
      ∧ ∀ b ∈ memcpyWrites size m dst src, dst ≤ b ∧ b < dst + size := by
  induction size generalizing m dst src with
  | zero => exact ⟨m.mem, rfl, ⟨fun _ _ => rfl, fun _ i hi => absurd hi (by omega)⟩, nofun⟩
  | succ size ih =>
      have hmem : dst + (size + 1) ≤ 0x02000000 := h.memory
      obtain ⟨s, hs⟩ := h.source 0 (by omega)
      rw [Nat.add_zero, u32_of_lt hsrc] at hs
      have hread : m.read8 src = some (m.mem s) := by rw [Machine.read8, hs, Option.map_some]
      have hdst : m.translate dst = some dst := if_pos (by rw [pmExtLimit]; omega)
      let m₁ : Machine := { m with mem := m.mem.store8 dst (m.mem s) }
      have hkept : TablesKept m.mem m₁.mem m.cr3 :=
        h.kept fun b hb => Bytes.store8_of_ne (by omega)
      have hnext : u32 (dst + 1) = dst + 1 := u32_of_lt (by omega)
      have hsame : ∀ i, m₁.translate (u32 (u32 (src + 1) + i))
          = m.translate (u32 (src + (i + 1))) := by
        intro i
        rw [@translate_kept m m₁ _ rfl h.aligned hkept (by rw [u32]; omega)]
        congr 1
        simp only [u32]
        omega
      have h₁ : Copyable m₁ (dst + 1) (u32 (src + 1)) size := by
        refine ⟨by rw [pmExtLimit]; omega, h.aligned, fun b hb hb' htable => ?_, fun i hi => ?_⟩
        · exact h.tables b (by omega) (by omega) ((hkept.tablePage_iff h.aligned).mp htable)
        · rw [hsame]
          exact h.source (i + 1) (by omega)
      obtain ⟨mem', hrun, hcopied, hwrites⟩ := ih h₁ (by rw [u32]; omega)
      refine ⟨mem', ?_, ⟨fun b hb => ?_, fun hapart i hi s' hs' => ?_⟩, fun b hb => ?_⟩
      · simp only [kernelMemcpyLoop, hread, Machine.write8, hdst, Option.map_some,
          Option.bind_eq_bind, Option.bind_some, hnext]
        exact hrun
      · rw [hcopied.outside b (by omega)]
        exact Bytes.store8_of_ne (by omega)
      · cases i with
        | zero =>
            rw [Nat.add_zero, u32_of_lt hsrc, hs] at hs'
            obtain rfl := Option.some.inj hs'
            rw [Nat.add_zero, hcopied.outside dst (by omega)]
            exact Bytes.store8_self
        | succ i =>
            have hcopy := hcopied.inside (fun k hk s'' hs'' => ?_) i (by omega) s'
              (by rw [hsame]; exact hs')
            · rw [show dst + (i + 1) = dst + 1 + i by omega, hcopy]
              have := hapart (i + 1) hi s' hs'
              exact Bytes.store8_of_ne (by omega)
            · rw [hsame] at hs''
              have := hapart (k + 1) (by omega) s'' hs''
              omega
      · simp only [memcpyWrites, hread, hdst, hnext, List.mem_cons] at hb
        rcases hb with rfl | hb
        · omega
        · have := hwrites b hb
          omega

/-- The call; nothing is copied from NULL. -/
theorem kernelMemcpy_copied (h : Copyable m dst src size) (hsrc : src < 2 ^ 32) :
    ∃ mem', kernelMemcpy m dst src size = some { m with mem := mem' }
      ∧ (∀ b, b < dst ∨ dst + size ≤ b → mem' b = m.mem b)
      ∧ (dst ≠ 0 → src ≠ 0 → MemCopied m mem' dst src size)
      ∧ ∀ b ∈ kernelMemcpyWrites m dst src size, dst ≤ b ∧ b < dst + size := by
  rw [kernelMemcpy, kernelMemcpyWrites]
  split
  case isTrue hnull =>
    refine ⟨m.mem, rfl, fun _ _ => rfl, fun hd hs => ?_, nofun⟩
    obtain rfl : size = 0 := by omega
    exact ⟨fun _ _ => rfl, fun _ i hi => absurd hi (by omega)⟩
  case isFalse =>
    obtain ⟨mem', hrun, hcopied, hwrites⟩ := memcpyLoop_copied h hsrc
    exact ⟨mem', hrun, hcopied.outside, fun _ _ => hcopied, hwrites⟩

end Memcpy

/-! ## One round -/

/-- The page of the `i`-th byte from `a` on. -/
def pageOf (a i : Nat) : Nat := u32 (a + i) / 0x1000

theorem pageOf_lt (a i : Nat) : pageOf a i < 0x100000 := by
  rw [pageOf, u32]
  omega

/-- The entry that the directory of the copy has for its `i`-th byte. -/
def targetAt (m : Machine) (pde dst i : Nat) : Option Nat :=
  pteAt m.mem (directory m pde) (pageOf dst i)

/-- Where the `i`-th byte goes, through a present entry. -/
def TargetByte (m : Machine) (pde dst i b : Nat) : Prop :=
  ∃ v, targetAt m pde dst i = some v ∧ b = pteAddress v + (dst + i) % 0x1000

/-- The frames of the range are memory and no tables, and the source can be read. -/
structure CopyRange (m : Machine) (pde dst src size : Nat) : Prop where
  dir_aligned : directory m pde % 0x1000 = 0
  cr3_aligned : m.cr3 % 0x1000 = 0
  memory : ∀ i < size, ∀ v, targetAt m pde dst i = some v → pteAddress v < pmExtLimit
  tables : ∀ i < size, ∀ v, targetAt m pde dst i = some v →
    ¬ TablePage m.mem (directory m pde) (pteAddress v) ∧ ¬ TablePage m.mem m.cr3 (pteAddress v)
  source : ∀ i < size, ∃ s, m.translate (u32 (src + i)) = some s

/-- A machine in the middle of the copy. -/
structure CopyState (m cur : Machine) (pde : Nat) : Prop where
  cr3 : cur.cr3 = m.cr3
  kernelPde : cur.kernelPde = m.kernelPde
  info : cur.info = m.info
  tables : TablesKept m.mem cur.mem (directory m pde)
  active : TablesKept m.mem cur.mem m.cr3

/-- How much the round copies that begins with the `j`-th byte. -/
def chunk (dst size j : Nat) : Nat := min (size - j) (0x1000 - (dst + j) % 0x1000)

section Round

variable {m cur : Machine} {pde dst src size j v fuel i : Nat}

theorem chunk_pos (hj : j < size) : 0 < chunk dst size j := by
  rw [chunk]
  omega

theorem chunk_le (hj : j < size) : j + chunk dst size j ≤ size := by
  rw [chunk]
  omega

/-- A round stays inside one page. -/
theorem pageOf_chunk (hi : j ≤ i) (hi' : i < j + chunk dst size j) :
    pageOf dst i = pageOf dst j ∧ (dst + i) % 0x1000 = (dst + j) % 0x1000 + (i - j) := by
  rw [chunk] at hi'
  simp only [pageOf, u32]
  omega

/-- Behind a round that is not the last one a page begins. -/
theorem chunk_end (hj : j + chunk dst size j < size) :
    (dst + (j + chunk dst size j)) % 0x1000 = 0 := by
  rw [chunk] at hj ⊢
  omega

/-- The length that the code computes for the round. -/
theorem chunk_room {a : Nat} (ha : a % 0x1000 = 0) :
    (if pageSize - (a + (dst + j) % 0x1000) % pageSize > size - j then size - j
      else pageSize - (a + (dst + j) % 0x1000) % pageSize) = chunk dst size j := by
  have hmod : (a + (dst + j) % 0x1000) % 0x1000 = (dst + j) % 0x1000 := by omega
  rw [pageSize, hmod, chunk]
  split <;> omega

/-- What the round may write lies in the frame of its page, and is where its bytes go. -/
theorem targetByte_chunk {b : Nat} (hv : targetAt m pde dst j = some v)
    (hb : pteAddress v + (dst + j) % 0x1000 ≤ b)
    (hb' : b < pteAddress v + (dst + j) % 0x1000 + chunk dst size j) :
    b / 0x1000 * 0x1000 = pteAddress v
      ∧ ∃ i, j ≤ i ∧ i < j + chunk dst size j ∧ TargetByte m pde dst i b := by
  have hal := pteAddress_eq v
  have hle : (dst + j) % 0x1000 + chunk dst size j ≤ 0x1000 := by
    rw [chunk]
    omega
  have hi : j + (b - (pteAddress v + (dst + j) % 0x1000)) < j + chunk dst size j := by omega
  obtain ⟨hpage, hoff⟩ := @pageOf_chunk dst size j _ (Nat.le_add_right j _) hi
  refine ⟨by omega, _, Nat.le_add_right j _, hi, v, ?_, ?_⟩
  · rw [targetAt, hpage]
    exact hv
  · rw [hoff]
    omega

/-- The source of the round reads as it did at the start. -/
theorem CopyState.source_eq (h : CopyRange m pde dst src size) (hc : CopyState m cur pde) (k : Nat) :
    cur.translate (u32 (u32 (src + j) + k)) = m.translate (u32 (src + (j + k))) := by
  rw [translate_kept hc.cr3 h.cr3_aligned hc.active (by rw [u32]; omega)]
  congr 1
  simp only [u32]
  omega

theorem CopyState.copyable (h : CopyRange m pde dst src size) (hc : CopyState m cur pde)
    (hj : j < size) (hv : targetAt m pde dst j = some v) :
    Copyable cur (pteAddress v + (dst + j) % 0x1000) (u32 (src + j)) (chunk dst size j) := by
  have hchunk := @chunk_le dst size j hj
  have hmemory : pteAddress v < 0x02000000 := h.memory j hj v hv
  have hal := pteAddress_eq v
  refine ⟨?_, by rw [hc.cr3]; exact h.cr3_aligned, fun b hb hb' htab => ?_, fun k hk => ?_⟩
  · rw [pmExtLimit, chunk]
    omega
  · rw [(targetByte_chunk hv hb hb').1, hc.cr3] at htab
    exact (h.tables j hj v hv).2 ((hc.active.tablePage_iff h.cr3_aligned).mp htab)
  · rw [hc.source_eq h]
    exact h.source (j + k) (by omega)

/-- The tables are kept by what the round writes. -/
theorem CopyState.written (h : CopyRange m pde dst src size) (hc : CopyState m cur pde)
    (hj : j < size) (hv : targetAt m pde dst j = some v) {mem' : Bytes}
    (hout : ∀ b, b < pteAddress v + (dst + j) % 0x1000
      ∨ pteAddress v + (dst + j) % 0x1000 + chunk dst size j ≤ b → mem' b = cur.mem b) :
    CopyState m { cur with mem := mem' } pde := by
  have hkept : ∀ d', ¬ TablePage m.mem d' (pteAddress v) → TablesKept m.mem cur.mem d' →
      TablesKept m.mem mem' d' := by
    intro d' hd' hk b hb
    refine (hout b ?_).trans (hk b hb)
    by_contra hin
    rw [(@targetByte_chunk m pde dst size j v b hv (by omega) (by omega)).1] at hb
    exact hd' hb
  have htables := h.tables j hj v hv
  exact ⟨hc.cr3, hc.kernelPde, hc.info, hkept _ htables.1 hc.tables,
    hkept _ htables.2 hc.active⟩

theorem copyPageData_round (h : CopyRange m pde dst src size) (hc : CopyState m cur pde)
    (hj : j < size) (hv : targetAt m pde dst j = some v)
    (he : HasEntry m.mem (directory m pde) (pageOf dst j))
    (hne : pteAddress v + (dst + j) % 0x1000 ≠ 0) :
    ∃ mem', CopyState m { cur with mem := mem' } pde
      ∧ copyPageDataLoop pde (fuel + 1) cur (u32 (dst + j)) (u32 (src + j)) (size - j)
        = copyPageDataLoop pde fuel { cur with mem := mem' } (u32 (dst + (j + chunk dst size j)))
            (u32 (src + (j + chunk dst size j))) (size - (j + chunk dst size j))
      ∧ (∀ b, (∀ i, j ≤ i → i < j + chunk dst size j → ¬ TargetByte m pde dst i b) →
          mem' b = cur.mem b)
      ∧ (u32 (src + j) ≠ 0 →
        (∀ i i', j ≤ i → i < j + chunk dst size j → i' < size → ∀ s,
          m.translate (u32 (src + i')) = some s → ¬ TargetByte m pde dst i s) →
        ∀ i, j ≤ i → i < j + chunk dst size j → ∀ s, m.translate (u32 (src + i)) = some s →
          mem' (pteAddress v + (dst + i) % 0x1000) = cur.mem s)
      ∧ ∃ ws, copyPageDataWrites pde (fuel + 1) cur (u32 (dst + j)) (u32 (src + j)) (size - j)
          = ws ++ copyPageDataWrites pde fuel { cur with mem := mem' }
            (u32 (dst + (j + chunk dst size j))) (u32 (src + (j + chunk dst size j)))
            (size - (j + chunk dst size j))
        ∧ ∀ b ∈ ws, ∃ i, j ≤ i ∧ i < j + chunk dst size j ∧ TargetByte m pde dst i b := by
  have hpaddr : getPaddr cur pde (u32 (dst + j)) = pteAddress v + (dst + j) % 0x1000 := by
    rw [getPaddr_kept hc.kernelPde h.dir_aligned hc.tables (by rw [u32]; omega),
      getPaddr_present hv he]
    simp only [u32]
    omega
  have hroom := @chunk_room dst size j (pteAddress v) (by rw [pteAddress_eq]; omega)
  have htarget := fun b => @targetByte_chunk m pde dst size j v b hv
  obtain ⟨mem', hrun, hout, hcopied, hwrites⟩ :=
    kernelMemcpy_copied (hc.copyable h hj hv) (by rw [u32]; omega)
  have hnext : ∀ a, u32 (u32 (a + j) + chunk dst size j) = u32 (a + (j + chunk dst size j)) := by
    intro a
    simp only [u32]
    omega
  have hleft : size - j - chunk dst size j = size - (j + chunk dst size j) := Nat.sub_sub ..
  refine ⟨mem', hc.written h hj hv hout, ?_, fun b hb => ?_, fun hsrc hapart i hi hi' s hs => ?_,
    kernelMemcpyWrites cur (pteAddress v + (dst + j) % 0x1000) (u32 (src + j)) (chunk dst size j),
    ?_, fun b hb => ?_⟩
  · rw [copyPageDataLoop, if_neg (by omega)]
    simp only [hpaddr, if_neg hne, hroom, hrun, Option.bind_eq_bind, Option.bind_some, hnext, hleft]
  · refine hout b ?_
    by_contra hin
    obtain ⟨-, i, hi, hi', hb'⟩ := htarget b (by omega) (by omega)
    exact hb i hi hi' hb'
  · have hchunk := @chunk_le dst size j hj
    have hk : j + (i - j) = i := by omega
    rw [(pageOf_chunk hi hi').2, ← Nat.add_assoc]
    refine (hcopied hne hsrc).inside (fun k hk s' hs' => ?_) (i - j) (by omega) s
      (by rw [hc.source_eq h, hk]; exact hs)
    rw [hc.source_eq h] at hs'
    by_contra hin
    obtain ⟨-, i₁, hi₁, hi₁', hs₁⟩ := htarget s' (by omega) (by omega)
    exact hapart i₁ (j + k) hi₁ hi₁' (by omega) s' hs' hs₁
  · rw [copyPageDataWrites, if_neg (by omega)]
    simp only [hpaddr, if_neg hne, hroom, hrun, hnext, hleft]
  · obtain ⟨hb₁, hb₂⟩ := hwrites b hb
    obtain ⟨-, i, hi, hi', hb'⟩ := htarget b hb₁ hb₂
    exact ⟨i, hi, hi', hb'⟩

end Round

/-! ## A copy to pages that are there -/

/-- The pages of the range are present, their frames are different ones that are not at address
0, and the source lies outside of them. -/
structure CopyExact (m : Machine) (pde dst src size : Nat) : Prop where
  dst_fits : dst + size ≤ 2 ^ 32
  src_fits : src + size ≤ 2 ^ 32
  src_pos : 0 < src
  mapped : ∀ i < size, ∃ v, targetAt m pde dst i = some v
  entry : ∀ i < size, HasEntry m.mem (directory m pde) (pageOf dst i)
  frame_ne_zero : ∀ i < size, ∀ v, targetAt m pde dst i = some v → pteAddress v ≠ 0
  frame_inj : ∀ i < size, ∀ i' < size, ∀ v v', targetAt m pde dst i = some v →
    targetAt m pde dst i' = some v' → pteAddress v = pteAddress v' → pageOf dst i = pageOf dst i'
  source_apart : ∀ i < size, ∀ i' < size, ∀ v s, targetAt m pde dst i = some v →
    m.translate (u32 (src + i')) = some s → s / 0x1000 * 0x1000 ≠ pteAddress v

section Exact

variable {m cur : Machine} {pde dst src size j fuel i i' b s : Nat}

theorem TargetByte.unique {b' : Nat} (h : TargetByte m pde dst i b)
    (h' : TargetByte m pde dst i b') : b = b' := by
  obtain ⟨v, hv, rfl⟩ := h
  obtain ⟨v', hv', rfl⟩ := h'
  obtain rfl := Option.some.inj (hv.symm.trans hv')
  rfl

theorem TargetByte.frame {v : Nat} (h : TargetByte m pde dst i b)
    (hv : targetAt m pde dst i = some v) : b / 0x1000 * 0x1000 = pteAddress v := by
  obtain ⟨v', hv', rfl⟩ := h
  obtain rfl := Option.some.inj (hv.symm.trans hv')
  have := pteAddress_eq v
  omega

/-- Two bytes of the range go to the same place only when they are the same, if their pages have
different frames. -/
theorem TargetByte.index_eq (hi : dst + i < 2 ^ 32) (hi' : dst + i' < 2 ^ 32)
    (hinj : ∀ v v', targetAt m pde dst i = some v → targetAt m pde dst i' = some v' →
      pteAddress v = pteAddress v' → pageOf dst i = pageOf dst i')
    (h : TargetByte m pde dst i b) (h' : TargetByte m pde dst i' b) : i = i' := by
  obtain ⟨v, hv, he⟩ := id h
  obtain ⟨v', hv', he'⟩ := id h'
  have hpage := hinj v v' hv hv' ((h.frame hv).symm.trans (h'.frame hv'))
  rw [targetAt, hpage] at hv
  obtain rfl := Option.some.inj (hv.symm.trans hv')
  rw [pageOf, pageOf, u32_of_lt hi, u32_of_lt hi'] at hpage
  omega

namespace CopyExact

variable (hx : CopyExact m pde dst src size)
include hx

theorem target_inj (hi : i < size) (hi' : i' < size) (h : TargetByte m pde dst i b)
    (h' : TargetByte m pde dst i' b) : i = i' := by
  have hfits := hx.dst_fits
  exact h.index_eq (by omega) (by omega) (hx.frame_inj i hi i' hi') h'

theorem source_not_target (hi : i < size) (hi' : i' < size)
    (hs : m.translate (u32 (src + i')) = some s) : ¬ TargetByte m pde dst i s := by
  intro h
  obtain ⟨v, hv⟩ := hx.mapped i hi
  exact hx.source_apart i hi i' hi' v s hv hs (h.frame hv)

end CopyExact

/-- The first `j` bytes are copied, and nothing else is written. -/
structure CopiedTo (m cur : Machine) (pde dst src j : Nat) : Prop where
  state : CopyState m cur pde
  inside : ∀ i < j, ∀ b s, TargetByte m pde dst i b → m.translate (u32 (src + i)) = some s →
    cur.mem b = m.mem s
  outside : ∀ b, (∀ i < j, ¬ TargetByte m pde dst i b) → cur.mem b = m.mem b

theorem copyPageDataLoop_exact (h : CopyRange m pde dst src size)
    (hx : CopyExact m pde dst src size) (hc : CopiedTo m cur pde dst src j) (hj : j ≤ size)
    (hfuel : size < j + fuel) :
    ∃ mem', copyPageDataLoop pde fuel cur (u32 (dst + j)) (u32 (src + j)) (size - j)
        = some ({ cur with mem := mem' }, 0)
      ∧ CopiedTo m { cur with mem := mem' } pde dst src size := by
  induction fuel generalizing j cur with
  | zero => omega
  | succ fuel ih =>
      rcases Nat.eq_or_lt_of_le hj with rfl | hlt
      · refine ⟨cur.mem, ?_, hc⟩
        rw [copyPageDataLoop, if_pos (Nat.sub_self j)]
      obtain ⟨v, hv⟩ := hx.mapped j hlt
      have hne := hx.frame_ne_zero j hlt v hv
      have hpos := @chunk_pos dst size j hlt
      have hle := @chunk_le dst size j hlt
      have hfits := hx.src_fits
      have hsrc := hx.src_pos
      obtain ⟨mem', hstate, hrun, hout, hin, -⟩ := @copyPageData_round m cur pde dst src size j v
        fuel h hc.state hlt hv (hx.entry j hlt) (by omega)
      have hcopied : CopiedTo m { cur with mem := mem' } pde dst src (j + chunk dst size j) := by
        refine ⟨hstate, fun i hi b s hb hs => ?_, fun b hb => ?_⟩
        · rcases Nat.lt_or_ge i j with hij | hij
          · have hother : ∀ k, j ≤ k → k < j + chunk dst size j → ¬ TargetByte m pde dst k b :=
              fun k hk hk' hb' => by
                have := hx.target_inj (by omega) (by omega) hb hb'
                omega
            exact (hout b hother).trans (hc.inside i hij b s hb hs)
          · have hplace : TargetByte m pde dst i (pteAddress v + (dst + i) % 0x1000) :=
              ⟨v, by rw [targetAt, (pageOf_chunk hij hi).1]; exact hv, rfl⟩
            obtain rfl := hb.unique hplace
            refine (hin (by rw [u32_of_lt (by omega)]; omega) (fun k k' hk hk' hk'' s' hs' =>
              hx.source_not_target (by omega) hk'' hs') i hij hi s hs).trans ?_
            exact hc.outside s fun k hk => hx.source_not_target (by omega) (by omega) hs
        · exact (hout b fun i hi hi' => hb i hi').trans (hc.outside b fun i hi => hb i (by omega))
      obtain ⟨mem'', hrest, hdone⟩ := ih hcopied hle (by omega)
      exact ⟨mem'', hrun.trans hrest, hdone⟩

theorem walk_target (hdst : dst + size ≤ 2 ^ 32) (hi : i < size) :
    (walk m.mem (directory m pde) (dst + i)).map Prod.fst = some b ↔ TargetByte m pde dst i b := by
  rw [walk_eq, TargetByte, targetAt, pageOf, u32_of_lt (by omega)]
  cases pteAt m.mem (directory m pde) ((dst + i) / 0x1000) with
  | none => simp
  | some v => simp [eq_comm]

/-- The call, to pages that are there. -/
theorem copyPageData_exact (h : CopyRange m pde dst src size)
    (hx : CopyExact m pde dst src size) :
    ∃ mem', memory32CopyPageData m dst pde src size = some ({ m with mem := mem' }, 0)
      ∧ CopiedTo m { m with mem := mem' } pde dst src size := by
  have hdst := hx.dst_fits
  have hsrc := hx.src_fits
  have hstart : CopiedTo m m pde dst src 0 :=
    ⟨⟨rfl, rfl, rfl, .refl, .refl⟩, fun i hi => absurd hi (by omega), fun _ _ => rfl⟩
  rcases Nat.eq_zero_or_pos size with rfl | hpos
  · exact ⟨m.mem, rfl, hstart⟩
  obtain ⟨mem', hrun, hdone⟩ := @copyPageDataLoop_exact m m pde dst src size 0 (size + 1) h hx
    hstart (Nat.zero_le _) (by omega)
  rw [Nat.add_zero, Nat.add_zero, u32_of_lt (by omega), u32_of_lt (by omega)] at hrun
  exact ⟨mem', hrun, hdone⟩

/-- The copy law. Every byte of the source arrives behind its address in the other address space,
and nothing else is written. -/
theorem memory32CopyPageData_law (h : CopyRange m pde dst src size)
    (hx : CopyExact m pde dst src size) :
    ∃ mem', memory32CopyPageData m dst pde src size = some ({ m with mem := mem' }, 0)
      ∧ (∀ i < size, ∃ b c, (walk m.mem (directory m pde) (dst + i)).map Prod.fst = some b
        ∧ m.read8 (src + i) = some c ∧ mem' b = c)
      ∧ ∀ b, (∀ i < size, (walk m.mem (directory m pde) (dst + i)).map Prod.fst ≠ some b) →
        mem' b = m.mem b := by
  have hdst := hx.dst_fits
  have hsrc := hx.src_fits
  obtain ⟨mem', hrun, hdone⟩ := copyPageData_exact h hx
  refine ⟨mem', hrun, fun i hi => ?_, fun b hb => hdone.outside b fun i hi ht => ?_⟩
  · obtain ⟨v, hv⟩ := hx.mapped i hi
    obtain ⟨s, hs⟩ := h.source i hi
    have hs' := hs
    rw [u32_of_lt (by omega)] at hs'
    exact ⟨_, m.mem s, (walk_target hdst hi).mpr ⟨v, hv, rfl⟩,
      by rw [Machine.read8, hs', Option.map_some], hdone.inside i hi _ s ⟨v, hv, rfl⟩ hs⟩
  · exact hb i hi ((walk_target hdst hi).mpr ht)

end Exact

/-! ## Pages that are not there -/

/-- A round begins with the `j`-th byte, if the copy comes to it. -/
def Begins (dst j : Nat) : Prop := j = 0 ∨ (dst + j) % 0x1000 = 0

instance (dst j : Nat) : Decidable (Begins dst j) := inferInstanceAs (Decidable (_ ∨ _))

/-- `get_paddr` returns 0 for the `j`-th byte: there is no entry, or its frame is 0 and the byte is
the first one of its page. -/
def Refused (m : Machine) (pde dst j : Nat) : Prop :=
  HasEntry m.mem (directory m pde) (pageOf dst j) →
    pteAddress (entryAt m.mem (directory m pde) (pageOf dst j)) = 0 ∧ (dst + j) % 0x1000 = 0

instance (m : Machine) (pde dst j : Nat) : Decidable (Refused m pde dst j) :=
  inferInstanceAs (Decidable (_ → _))

/-- The rounds before the `j`-th byte find present pages and go on. -/
def ComesTo (m : Machine) (pde dst j : Nat) : Prop :=
  ∀ i < j, Begins dst i → targetAt m pde dst i ≠ none ∧ ¬ Refused m pde dst i

/-- The first page that is not present, if the copy comes to it, is refused by `get_paddr`. -/
def AbsentRefused (m : Machine) (pde dst size : Nat) : Prop :=
  ∀ j < size, Begins dst j → targetAt m pde dst j = none → ComesTo m pde dst j →
    Refused m pde dst j

/-- The copy is refused when a page is missing, and writes only through present entries. -/
def CopyRefuses (m : Machine) (pde dst src size : Nat) : Prop :=
  ∃ m' ret, memory32CopyPageData m dst pde src size = some (m', ret)
    ∧ ((∃ i < size, targetAt m pde dst i = none) → ret = -1)
    ∧ ∀ b ∈ copyPageDataWrites pde (size + 1) m dst src size,
        ∃ i < size, TargetByte m pde dst i b

/-- No byte of the source is at NULL, and the entries that are not present do not name a place
that present ones name. -/
structure AbsentElsewhere (m : Machine) (pde dst src size : Nat) : Prop where
  src_pos : 0 < src
  src_fits : src + size ≤ 2 ^ 32
  elsewhere : ∀ j < size, targetAt m pde dst j = none → ∀ b,
    m.translate (getPaddr m pde (u32 (dst + j))) = some b → ∀ i < size, ¬ TargetByte m pde dst i b

section Absent

variable {m cur : Machine} {pde dst src size j fuel i : Nat}

theorem getPaddr_eq_zero_iff : getPaddr m pde (u32 (dst + j)) = 0 ↔ Refused m pde dst j := by
  have hu : u32 (dst + j) % 0x1000 = (dst + j) % 0x1000 := by
    rw [u32]
    omega
  rw [getPaddr_entry, Refused, hu, ← pageOf]
  split
  case isTrue he =>
    rw [Nat.add_eq_zero_iff]
    exact ⟨fun h _ => h, fun h => h he⟩
  case isFalse he => exact ⟨fun _ h => absurd h he, fun _ => rfl⟩

/-- Between the beginnings of two rounds none begins. -/
theorem begins_chunk (hi : j < i) (hi' : i < j + chunk dst size j) : ¬ Begins dst i := by
  rw [chunk] at hi'
  rw [Begins]
  omega

/-- The next round. -/
theorem comesTo_chunk (hc : ComesTo m pde dst j) (hp : targetAt m pde dst j ≠ none)
    (hr : ¬ Refused m pde dst j) : ComesTo m pde dst (j + chunk dst size j) := by
  intro i hi hb
  rcases Nat.lt_trichotomy i j with hlt | rfl | hgt
  · exact hc i hlt hb
  · exact ⟨hp, hr⟩
  · exact absurd hb (begins_chunk hgt hi)

/-- A round that finds its page and is not refused. -/
theorem round_of_present (h : CopyRange m pde dst src size) (hc : CopyState m cur pde)
    (hj : j < size) (hp : targetAt m pde dst j ≠ none) (hr : ¬ Refused m pde dst j) :
    ∃ cur' ws, CopyState m cur' pde
      ∧ copyPageDataLoop pde (fuel + 1) cur (u32 (dst + j)) (u32 (src + j)) (size - j)
        = copyPageDataLoop pde fuel cur' (u32 (dst + (j + chunk dst size j)))
            (u32 (src + (j + chunk dst size j))) (size - (j + chunk dst size j))
      ∧ copyPageDataWrites pde (fuel + 1) cur (u32 (dst + j)) (u32 (src + j)) (size - j)
        = ws ++ copyPageDataWrites pde fuel cur' (u32 (dst + (j + chunk dst size j)))
            (u32 (src + (j + chunk dst size j))) (size - (j + chunk dst size j))
      ∧ ∀ b ∈ ws, ∃ i < size, TargetByte m pde dst i b := by
  obtain ⟨v, hv⟩ := Option.ne_none_iff_exists'.mp hp
  rw [Refused, Classical.not_imp, entryAt_of_pteAt hv] at hr
  obtain ⟨mem', hstate, hrun, -, -, ws, hws, hin⟩ := @copyPageData_round m cur pde dst src size j v
    fuel h hc hj hv hr.1 (by omega)
  have hle := @chunk_le dst size j hj
  refine ⟨_, ws, hstate, hrun, hws, fun b hb => ?_⟩
  obtain ⟨i, -, hi, ht⟩ := hin b hb
  exact ⟨i, by omega, ht⟩

theorem copyPageDataLoop_refuses (h : CopyRange m pde dst src size)
    (hsafe : AbsentRefused m pde dst size) (hc : CopyState m cur pde) (hj : j ≤ size)
    (hb : j < size → Begins dst j) (hcome : ComesTo m pde dst j)
    (hall : ∀ i < j, targetAt m pde dst i ≠ none) (hfuel : size < j + fuel) :
    ∃ m' ret, copyPageDataLoop pde fuel cur (u32 (dst + j)) (u32 (src + j)) (size - j)
        = some (m', ret)
      ∧ ((∃ i < size, targetAt m pde dst i = none) → ret = -1)
      ∧ ∀ b ∈ copyPageDataWrites pde fuel cur (u32 (dst + j)) (u32 (src + j)) (size - j),
          ∃ i < size, TargetByte m pde dst i b := by
  induction fuel generalizing j cur with
  | zero => omega
  | succ fuel ih =>
      rcases Nat.eq_or_lt_of_le hj with rfl | hlt
      · rw [copyPageDataLoop, copyPageDataWrites, Nat.sub_self, if_pos rfl, if_pos rfl]
        exact ⟨cur, 0, rfl, fun ⟨i, hi, hnone⟩ => absurd hnone (hall i hi), nofun⟩
      by_cases hr : Refused m pde dst j
      · have hzero : getPaddr cur pde (u32 (dst + j)) = 0 := by
          rw [getPaddr_kept hc.kernelPde h.dir_aligned hc.tables (by rw [u32]; omega)]
          exact getPaddr_eq_zero_iff.mpr hr
        have hleft : size - j ≠ 0 := by omega
        rw [copyPageDataLoop, copyPageDataWrites, if_neg hleft, if_neg hleft]
        simp only [hzero, if_true]
        exact ⟨cur, -1, rfl, fun _ => rfl, nofun⟩
      · have hp : targetAt m pde dst j ≠ none := fun hnone =>
          hr (hsafe j hlt (hb hlt) hnone hcome)
        obtain ⟨cur', ws, hstate, hrun, hws, hin⟩ := @round_of_present m cur pde dst src size j
          fuel h hc hlt hp hr
        have hpos := @chunk_pos dst size j hlt
        obtain ⟨m', ret, hrest, hret, hwrites⟩ := @ih cur' (j + chunk dst size j) hstate
          (chunk_le hlt) (fun hlt' => Or.inr (chunk_end hlt')) (comesTo_chunk hcome hp hr)
          (fun i hi => by
            rcases Nat.lt_or_ge i j with hij | hij
            · exact hall i hij
            · rwa [targetAt, (pageOf_chunk hij hi).1])
          (by omega)
        refine ⟨m', ret, hrun.trans hrest, hret, fun b hb => ?_⟩
        rw [hws, List.mem_append] at hb
        rcases hb with hb | hb
        · exact hin b hb
        · exact hwrites b hb

/-- A run that comes to the byte `k` writes what the rounds from there on write. -/
theorem copyPageDataLoop_comesTo {k : Nat} (h : CopyRange m pde dst src size)
    (hc : CopyState m cur pde) (hk : k < size) (hbk : Begins dst k) (hcome : ComesTo m pde dst k)
    (hjk : j ≤ k) (hb : Begins dst j) (hfuel : size < j + fuel) :
    ∃ cur' fuel' ws, CopyState m cur' pde
      ∧ copyPageDataLoop pde fuel cur (u32 (dst + j)) (u32 (src + j)) (size - j)
        = copyPageDataLoop pde (fuel' + 1) cur' (u32 (dst + k)) (u32 (src + k)) (size - k)
      ∧ copyPageDataWrites pde fuel cur (u32 (dst + j)) (u32 (src + j)) (size - j)
        = ws ++ copyPageDataWrites pde (fuel' + 1) cur' (u32 (dst + k)) (u32 (src + k))
            (size - k) := by
  induction fuel generalizing j cur with
  | zero => omega
  | succ fuel ih =>
      rcases Nat.eq_or_lt_of_le hjk with rfl | hlt
      · exact ⟨cur, fuel, [], hc, rfl, rfl⟩
      obtain ⟨hp, hr⟩ := hcome j hlt hb
      obtain ⟨cur₁, ws, hstate, hrun, hws, -⟩ :=
        @round_of_present m cur pde dst src size j fuel h hc (by omega : j < size) hp hr
      have hpos := @chunk_pos dst size j (by omega)
      have hle : j + chunk dst size j ≤ k := by
        by_contra hgt
        exact @begins_chunk dst size j k hlt (by omega) hbk
      obtain ⟨cur', fuel', ws', hstate', hrun', hws'⟩ := ih hstate hle
        (Or.inr (chunk_end (by omega))) (by omega)
      exact ⟨cur', fuel', ws ++ ws', hstate', hrun.trans hrun', by
        rw [hws, hws', List.append_assoc]⟩

/-- The first byte of a page that is not present and not refused is written. -/
theorem absent_written (h : CopyRange m pde dst src size) (hc : CopyState m cur pde)
    (hj : j < size) (hr : ¬ Refused m pde dst j) (hsrc : u32 (src + j) ≠ 0) :
    copyPageDataLoop pde (fuel + 1) cur (u32 (dst + j)) (u32 (src + j)) (size - j) = none
    ∨ ∃ b, m.translate (getPaddr m pde (u32 (dst + j))) = some b
      ∧ b ∈ copyPageDataWrites pde (fuel + 1) cur (u32 (dst + j)) (u32 (src + j)) (size - j) := by
  have hpaddr : getPaddr cur pde (u32 (dst + j)) = getPaddr m pde (u32 (dst + j)) :=
    getPaddr_kept hc.kernelPde h.dir_aligned hc.tables (by rw [u32]; omega)
  have hne := mt getPaddr_eq_zero_iff.mp hr
  have hlt : getPaddr m pde (u32 (dst + j)) < 2 ^ 32 := by
    rw [getPaddr_entry]
    split
    · have := pteAddress_eq (entryAt m.mem (directory m pde) (u32 (dst + j) / 0x1000))
      have := Bytes.load32_lt m.mem (tableAt m.mem (directory m pde)
        (u32 (dst + j) / 0x1000 / 1024) + 4 * (u32 (dst + j) / 0x1000 % 1024))
      rw [← entryAt] at this
      omega
    · decide
  generalize getPaddr m pde (u32 (dst + j)) = paddr at *
  obtain ⟨s, hs⟩ := h.source j hj
  have hread : cur.read8 (u32 (src + j)) = some (cur.mem s) := by
    rw [Machine.read8, translate_kept hc.cr3 h.cr3_aligned hc.active (by rw [u32]; omega), hs,
      Option.map_some]
  have htr : cur.translate paddr = m.translate paddr :=
    translate_kept hc.cr3 h.cr3_aligned hc.active hlt
  have hcs : ∃ n, (if pageSize - paddr % pageSize > size - j then size - j
      else pageSize - paddr % pageSize) = n + 1 := by
    refine ⟨_, (Nat.succ_pred_eq_of_pos ?_).symm⟩
    rw [pageSize]
    split <;> omega
  obtain ⟨n, hn⟩ := hcs
  have hleft : size - j ≠ 0 := by omega
  rw [copyPageDataLoop, copyPageDataWrites, if_neg hleft, if_neg hleft]
  simp only [hpaddr, if_neg hne, hn, kernelMemcpyWrites, memcpyWrites, kernelMemcpy,
    kernelMemcpyLoop, hread, Machine.write8, htr]
  rw [if_neg (by omega), if_neg (by omega)]
  cases m.translate paddr with
  | none => exact Or.inl rfl
  | some b =>
      exact Or.inr ⟨b, rfl, List.mem_append_left _ (List.mem_cons_self ..)⟩

/-- When a copy is refused that should be. The condition is enough; and where the entries that are
not present name other places than the present ones do, it is needed. -/
theorem memory32CopyPageData_refuses (h : CopyRange m pde dst src size) (hdst : dst < 2 ^ 32)
    (hsrc : src < 2 ^ 32) :
    (AbsentRefused m pde dst size → CopyRefuses m pde dst src size)
    ∧ (AbsentElsewhere m pde dst src size → CopyRefuses m pde dst src size →
      AbsentRefused m pde dst size) := by
  have hstate : CopyState m m pde := ⟨rfl, rfl, rfl, .refl, .refl⟩
  constructor
  · intro hsafe
    have hrun := @copyPageDataLoop_refuses m m pde dst src size 0 (size + 1) h hsafe hstate
      (Nat.zero_le _) (fun _ => Or.inl rfl) (fun i hi => absurd hi (by omega))
      (fun i hi => absurd hi (by omega)) (by omega)
    simp only [Nat.add_zero, Nat.sub_zero, u32_of_lt hdst, u32_of_lt hsrc] at hrun
    exact hrun
  · intro helse hright j hj hb hnone hcome
    by_contra hr
    obtain ⟨m', ret, hrun, -, hwrites⟩ := hright
    obtain ⟨cur, fuel, ws, hc, hrun', hws⟩ := @copyPageDataLoop_comesTo m m pde dst src size 0
      (size + 1) j h hstate hj hb hcome (Nat.zero_le _) (Or.inl rfl) (by omega)
    simp only [Nat.add_zero, Nat.sub_zero, u32_of_lt hdst, u32_of_lt hsrc] at hrun' hws
    have hfits := helse.src_fits
    have hpos := helse.src_pos
    rcases @absent_written m cur pde dst src size j fuel h hc hj hr
        (by rw [u32_of_lt (by omega)]; omega) with hfault | ⟨b, hb, hin⟩
    · rw [memory32CopyPageData, hrun', hfault] at hrun
      cases hrun
    · obtain ⟨i, hi, ht⟩ := hwrites b (by rw [hws]; exact List.mem_append_right _ hin)
      exact helse.elsewhere j hj hnone b hb i hi ht

end Absent

/-! ## Two pages -/

/-- `smallMachine` with two pages at 0x40000000, mapped to 0x103000 and 0x102000, and four bytes
of data at 0x9000. The running task has an empty directory. -/
def copyMachine : Machine :=
  let mem := smallMachine.mem.store32 0x100400 0x101007
  let mem := mem.store32 0x101000 0x103007
  let mem := mem.store32 0x101004 0x102007
  { smallMachine with mem := mem.store32 0x9000 0xEFBEADDE, cr3 := 0x8000 }

theorem copyMachine_pdeAt {d i : Nat} (hi : i < 1024)
    (hd : d = 0x100000 ∧ i ≠ 256 ∨ d = 0x8000) : pdeAt copyMachine.mem d i = 0 := by
  simp only [copyMachine, pdeAt]
  rw [Bytes.load32_store32_of_disjoint (by omega), Bytes.load32_store32_of_disjoint (by omega),
    Bytes.load32_store32_of_disjoint (by omega), Bytes.load32_store32_of_disjoint (by omega)]
  rfl

theorem copyMachine_tablePage {p : Nat} :
    (TablePage copyMachine.mem 0x100000 p → p = 0x100000 ∨ p = 0x101000)
      ∧ (TablePage copyMachine.mem 0x8000 p → p = 0x8000) := by
  have htable : tableAt copyMachine.mem 0x100000 256 = 0x101000 := by decide
  constructor
  · rintro (he | ⟨i, hi, hpres, he⟩)
    · exact Or.inl he
    · by_cases hentry : i = 256
      · rw [he, hentry]
        exact Or.inr htable
      · rw [copyMachine_pdeAt hi (Or.inl ⟨rfl, hentry⟩)] at hpres
        exact absurd hpres (by decide)
  · rintro (he | ⟨i, hi, hpres, -⟩)
    · exact he
    · rw [copyMachine_pdeAt hi (Or.inr rfl)] at hpres
      exact absurd hpres (by decide)

theorem copyMachine_range {dst size : Nat} (hsize : size ≤ 4)
    (hv : ∀ i < size, targetAt copyMachine 0x100000 dst i = some 0x102007
      ∨ targetAt copyMachine 0x100000 dst i = some 0x103007
      ∨ targetAt copyMachine 0x100000 dst i = none) :
    CopyRange copyMachine 0x100000 dst 0x9000 size := by
  have hframe : ∀ i < size, ∀ v, targetAt copyMachine 0x100000 dst i = some v →
      pteAddress v = 0x102000 ∨ pteAddress v = 0x103000 := by
    intro i hi v hv'
    rcases hv i hi with h | h | h <;> rw [h] at hv'
    · obtain rfl := Option.some.inj hv'
      exact Or.inl (by decide)
    · obtain rfl := Option.some.inj hv'
      exact Or.inr (by decide)
    · cases hv'
  refine ⟨by decide, by decide, fun i hi v hv' => ?_, fun i hi v hv' => ?_, fun i hi => ?_⟩
  · rw [pmExtLimit]
    have := hframe i hi v hv'
    omega
  · have hne := hframe i hi v hv'
    constructor
    · intro htable
      have := copyMachine_tablePage.1 htable
      omega
    · intro htable
      have := copyMachine_tablePage.2 htable
      omega
  · have hlow : u32 (0x9000 + i) < pmExtLimit := by
      rw [u32, pmExtLimit]
      omega
    exact ⟨_, if_pos hlow⟩

theorem copyMachine_target : ∀ i < 4, targetAt copyMachine 0x100000 0x40000FFE i
    = some (if i < 2 then 0x103007 else 0x102007) := by
  decide

theorem copyMachine_exact : CopyExact copyMachine 0x100000 0x40000FFE 0x9000 4 := by
  have hval : ∀ i < 4, ∀ v, targetAt copyMachine 0x100000 0x40000FFE i = some v →
      pteAddress v = if i < 2 then 0x103000 else 0x102000 := by
    intro i hi v hv
    rw [copyMachine_target i hi] at hv
    obtain rfl := Option.some.inj hv
    split <;> decide
  constructor
  case dst_fits => decide
  case src_fits => decide
  case src_pos => decide
  case mapped => exact fun i hi => ⟨_, copyMachine_target i hi⟩
  case entry => decide
  case frame_ne_zero =>
    intro i hi v hv
    rw [hval i hi v hv]
    split <;> decide
  case frame_inj =>
    intro i hi i' hi' v v' hv hv' he
    rw [hval i hi v hv, hval i' hi' v' hv'] at he
    rw [pageOf, pageOf, u32_of_lt (by omega), u32_of_lt (by omega)]
    split at he <;> split at he <;> omega
  case source_apart =>
    intro i hi i' hi' v s hv hs
    rw [hval i hi v hv]
    have hlow : u32 (0x9000 + i') < pmExtLimit := by
      rw [u32, pmExtLimit]
      omega
    rw [Machine.translate, if_pos hlow, u32_of_lt (by omega)] at hs
    obtain rfl := Option.some.inj hs
    split <;> omega

theorem memory32CopyPageData_law_two : ∃ mem', memory32CopyPageData copyMachine 0x40000FFE 0x100000
      0x9000 4 = some ({ copyMachine with mem := mem' }, 0)
    ∧ mem' 0x103FFF = 0xAD ∧ mem' 0x102000 = 0xBE := by
  have hrange : CopyRange copyMachine 0x100000 0x40000FFE 0x9000 4 :=
    copyMachine_range (by decide) fun i hi => by
      rw [copyMachine_target i hi]
      split <;> simp
  obtain ⟨mem', hrun, hin, -⟩ := memory32CopyPageData_law hrange copyMachine_exact
  refine ⟨mem', hrun, ?_, ?_⟩
  · obtain ⟨b, c, hb, hc, hbc⟩ := hin 1 (by decide)
    rw [show (walk copyMachine.mem (directory copyMachine 0x100000) (0x40000FFE + 1)).map Prod.fst
      = some 0x103FFF by decide] at hb
    rw [show copyMachine.read8 (0x9000 + 1) = some 0xAD by decide] at hc
    obtain rfl := Option.some.inj hb
    exact hbc.trans (Option.some.inj hc).symm
  · obtain ⟨b, c, hb, hc, hbc⟩ := hin 2 (by decide)
    rw [show (walk copyMachine.mem (directory copyMachine 0x100000) (0x40000FFE + 2)).map Prod.fst
      = some 0x102000 by decide] at hb
    rw [show copyMachine.read8 (0x9000 + 2) = some 0xBE by decide] at hc
    obtain rfl := Option.some.inj hb
    exact hbc.trans (Option.some.inj hc).symm

/-- The copy comes to a page that is not there at its first byte. -/
theorem memory32CopyPageData_refuses_two :
    CopyRefuses copyMachine 0x100000 0x40001FFE 0x9000 4 := by
  have htarget : ∀ i < 4, targetAt copyMachine 0x100000 0x40001FFE i
      = if i < 2 then some 0x102007 else none := by decide
  have hrange : CopyRange copyMachine 0x100000 0x40001FFE 0x9000 4 :=
    copyMachine_range (by decide) fun i hi => by
      rw [htarget i hi]
      split <;> simp
  refine (memory32CopyPageData_refuses hrange (by decide) (by decide)).1 fun j hj hb hnone _ => ?_
  have hall : ∀ j < 4, Begins 0x40001FFE j → targetAt copyMachine 0x100000 0x40001FFE j = none →
      Refused copyMachine 0x100000 0x40001FFE j := by decide
  exact hall j hj hb hnone

/-- The table is there and the page is not, and the copy begins behind the page's first byte. It
returns 0 and has written to physical page 0. -/
theorem memory32CopyPageData_absent :
    targetAt copyMachine 0x100000 0x40002010 0 = none
    ∧ (memory32CopyPageData copyMachine 0x40002010 0x100000 0x9000 4).map Prod.snd = some 0
    ∧ copyPageDataWrites 0x100000 5 copyMachine 0x40002010 0x9000 4 = [0x10, 0x11, 0x12, 0x13]
    ∧ ¬ CopyRefuses copyMachine 0x100000 0x40002010 0x9000 4 := by
  have hret : (memory32CopyPageData copyMachine 0x40002010 0x100000 0x9000 4).map Prod.snd
      = some 0 := by decide +kernel
  have hnone : targetAt copyMachine 0x100000 0x40002010 0 = none := by decide
  refine ⟨hnone, hret, by decide +kernel, ?_⟩
  rintro ⟨m', ret, hrun, hmiss, -⟩
  rw [hmiss ⟨0, by decide, hnone⟩] at hrun
  rw [hrun] at hret
  cases hret

end Csos
