import Csos.PageDir

/-!
# Runs of bits (`bitmap_alloc_bits` for more than one bit)

The scan of `bitmap_alloc_bits` begins with the bit that the outer loop has
tested already. Of a run of `size` bits it tests the first one twice and the
last one never, and when the bitmap ends inside the scan it leaves `ridx` as
it is. What the search finds is a run of `size - 1` clear bits
(`bitmapAllocBits_runs`).
-/

namespace Csos

/-- `n` clear bits from `r` on, all inside the bitmap. -/
structure ClearRun (bitmap : Bitmap) (r n : Nat) : Prop where
  inside : r + n ≤ bitmap.bitSize
  clear : ∀ j, r ≤ j → j < r + n → bitmapGetBit bitmap j = false

variable {bitmap : Bitmap} {r n m i j size sidx fuel : Nat} {value : Bool}

theorem ClearRun.shorter (h : ClearRun bitmap r n) (hle : m ≤ n) : ClearRun bitmap r m := by
  have := h.inside
  exact ⟨by omega, fun j hj hlt => h.clear j hj (by omega)⟩

theorem ClearRun.of_shorter (h : ClearRun bitmap r n) (hlt : r + n < bitmap.bitSize)
    (hbit : bitmapGetBit bitmap (r + n) = false) : ClearRun bitmap r (n + 1) := by
  refine ⟨hlt, fun j hj hjlt => ?_⟩
  rcases Nat.lt_succ_iff_lt_or_eq.mp hjlt with hj' | rfl
  · exact h.clear j hj hj'
  · exact hbit

theorem clearRun_zero (h : r ≤ bitmap.bitSize) : ClearRun bitmap r 0 :=
  ⟨h, fun j hj hlt => absurd hlt (by omega)⟩

theorem clearRun_cons (hbit : bitmapGetBit bitmap r = false)
    (h : ClearRun bitmap (r + 1) n) : ClearRun bitmap r (n + 1) := by
  have := h.inside
  refine ⟨by omega, fun j hj hjlt => ?_⟩
  rcases Nat.eq_or_lt_of_le hj with rfl | hj'
  · exact hbit
  · exact h.clear j hj' (by omega)

/-- A set bit ends every run that comes to it. -/
theorem not_clearRun (hbit : bitmapGetBit bitmap i = true) (hle : r ≤ i) (hlt : i < r + n) :
    ¬ ClearRun bitmap r n := fun h => by
  rw [h.clear i hle hlt] at hbit
  cases hbit

/-! ## Writing a run -/

theorem bitmapSetBits_succ : bitmapSetBits bitmap i (n + 1) value
    = if i < bitmap.bitSize then bitmapSetBits (bitmapSetBits bitmap i 1 value) (i + 1) n value
      else bitmap := by
  rw [bitmapSetBits, bitmapSetBits, bitmapSetBits]
  split <;> rfl

theorem bitmapSetBits_bitSize : (bitmapSetBits bitmap i n value).bitSize = bitmap.bitSize := by
  induction n generalizing bitmap i with
  | zero => rfl
  | succ n ih =>
      rw [bitmapSetBits_succ]
      split
      · rw [ih, bitmapSetBits_one_bitSize]
      · rfl

/-- The bits of the range are written as far as the bitmap goes, the others stay. -/
theorem bitmapGetBit_setBits : bitmapGetBit (bitmapSetBits bitmap i n value) j
    = if i ≤ j ∧ j < i + n ∧ j < bitmap.bitSize then value else bitmapGetBit bitmap j := by
  induction n generalizing bitmap i with
  | zero => exact (if_neg (by omega)).symm
  | succ n ih =>
      rw [bitmapSetBits_succ]
      by_cases hlt : i < bitmap.bitSize
      · rw [if_pos hlt, ih, bitmapSetBits_one_bitSize, bitmapGetBit_setBits_one hlt]
        rcases Nat.lt_trichotomy i j with hij | rfl | hij
        · simp only [if_neg (Nat.ne_of_gt hij)]
          congr 1
          exact propext (by omega)
        · rw [if_neg (by omega), if_pos rfl, if_pos (by omega)]
        · rw [if_neg (by omega), if_neg (by omega), if_neg (by omega)]
      · rw [if_neg hlt, if_neg (by omega)]

/-! ## The scan -/

/-- How the scan ends: behind `size - i` clear bits, at a set one, or at the end of the bitmap. -/
theorem bitmapAllocScan_cases (hfuel : size ≤ i + fuel) (hi : i ≤ size)
    (hs : sidx ≤ bitmap.bitSize) :
    (ClearRun bitmap sidx (size - i)
      ∧ bitmapAllocScan bitmap false size fuel i sidx = (size, sidx + (size - i), false))
    ∨ (∃ k < size - i, sidx + k < bitmap.bitSize ∧ bitmapGetBit bitmap (sidx + k) = true
      ∧ bitmapAllocScan bitmap false size fuel i sidx = (i + k, sidx + k + 1, true))
    ∨ (ClearRun bitmap sidx (bitmap.bitSize - sidx) ∧ bitmap.bitSize - sidx < size - i
      ∧ bitmapAllocScan bitmap false size fuel i sidx
        = (i + (bitmap.bitSize - sidx), bitmap.bitSize, false)) := by
  induction fuel generalizing i sidx with
  | zero =>
      obtain rfl : i = size := by omega
      rw [Nat.sub_self]
      exact Or.inl ⟨clearRun_zero hs, rfl⟩
  | succ fuel ih =>
      by_cases hin : i < size
      case neg =>
        obtain rfl : i = size := by omega
        rw [Nat.sub_self, bitmapAllocScan, if_neg (by omega)]
        exact Or.inl ⟨clearRun_zero hs, rfl⟩
      by_cases hlt : sidx < bitmap.bitSize
      case neg =>
        obtain rfl : sidx = bitmap.bitSize := by omega
        rw [bitmapAllocScan, if_neg (by omega), Nat.sub_self]
        exact Or.inr (Or.inr ⟨clearRun_zero hs, by omega, rfl⟩)
      rw [bitmapAllocScan, if_pos ⟨hin, hlt⟩]
      cases hbit : bitmapGetBit bitmap sidx with
      | true => exact Or.inr (Or.inl ⟨0, by omega, hlt, hbit, by simp⟩)
      | false =>
          rw [if_neg (by simp)]
          have hrest : size - i = size - (i + 1) + 1 := by omega
          have hend : bitmap.bitSize - sidx = bitmap.bitSize - (sidx + 1) + 1 := by omega
          rcases ih (by omega : size ≤ i + 1 + fuel) hin hlt with
            ⟨hrun, heq⟩ | ⟨k, hk, hklt, hset, heq⟩ | ⟨hrun, hshort, heq⟩
          · rw [heq, hrest]
            exact Or.inl ⟨clearRun_cons hbit hrun, by
              rw [Prod.mk.injEq, Prod.mk.injEq]
              exact ⟨rfl, by omega, rfl⟩⟩
          · rw [heq]
            refine Or.inr (Or.inl ⟨k + 1, by omega, by omega, ?_, ?_⟩)
            · rwa [← Nat.add_assoc, Nat.add_right_comm]
            · rw [Prod.mk.injEq, Prod.mk.injEq]
              exact ⟨by omega, by omega, rfl⟩
          · rw [heq, hend]
            exact Or.inr (Or.inr ⟨clearRun_cons hbit hrun, by omega, by
              rw [Prod.mk.injEq]
              exact ⟨by omega, rfl⟩⟩)

/-! ## The search -/

/-- How many bits the search tests of a run of `size`. -/
def testedBits (size : Nat) : Nat := max 1 (size - 1)

/-- The last bit of the bitmap is in use, or there is none. -/
def EndsSet (bitmap : Bitmap) : Prop :=
  bitmap.bitSize = 0 ∨ bitmapGetBit bitmap (bitmap.bitSize - 1) = true

/-- What the search comes to. -/
def SearchEnd (bitmap : Bitmap) (size : Nat) (result : Bitmap × Int) : Prop :=
  (∃ r, ClearRun bitmap r (testedBits size)
    ∧ (∀ r' < r, ¬ ClearRun bitmap r' (testedBits size))
    ∧ result = (bitmapSetBits bitmap r size true, (r : Int)))
  ∨ (∀ r, ¬ ClearRun bitmap r (testedBits size))
    ∧ (EndsSet bitmap ∧ result = (bitmap, -1)
      ∨ ¬ EndsSet bitmap ∧ ∃ r : Nat, result = (bitmap, (r : Int)))

/-- At the end of the bitmap, below which no run begins, and behind a set bit. -/
theorem searchEnd_none (hend : sidx = bitmap.bitSize)
    (hlast : sidx = 0 ∨ bitmapGetBit bitmap (sidx - 1) = true)
    (hbelow : ∀ r < sidx, ¬ ClearRun bitmap r (testedBits size)) :
    SearchEnd bitmap size (bitmap, -1) := by
  have hone : 1 ≤ testedBits size := Nat.le_max_left ..
  subst hend
  refine Or.inr ⟨fun r h => ?_, Or.inl ⟨hlast, rfl⟩⟩
  have := h.inside
  exact hbelow r (by omega) h

/-- From a position on, below which no run begins, and behind a set bit. -/
theorem bitmapAllocLoop_runs (hsize : 0 < size) (hfuel : bitmap.bitSize ≤ sidx + fuel)
    (hs : sidx ≤ bitmap.bitSize)
    (hlast : sidx = 0 ∨ bitmapGetBit bitmap (sidx - 1) = true)
    (hbelow : ∀ r < sidx, ¬ ClearRun bitmap r (testedBits size)) :
    SearchEnd bitmap size (bitmapAllocLoop bitmap false size fuel sidx (-1)) := by
  have htested : size - 1 ≤ testedBits size := Nat.le_max_right ..
  have hone : 1 ≤ testedBits size := Nat.le_max_left ..
  induction fuel generalizing sidx with
  | zero => exact searchEnd_none (by omega) hlast hbelow
  | succ fuel ih =>
      rw [bitmapAllocLoop]
      by_cases hlt : sidx < bitmap.bitSize
      case neg =>
        rw [if_neg hlt]
        exact searchEnd_none (by omega) hlast hbelow
      rw [if_pos hlt]
      -- a set bit below which, from `sidx` on, no run has room
      have hnext : ∀ k < testedBits size, sidx + k < bitmap.bitSize →
          bitmapGetBit bitmap (sidx + k) = true →
          SearchEnd bitmap size (bitmapAllocLoop bitmap false size fuel (sidx + k + 1) (-1)) := by
        intro k hk hklt hset
        refine ih (by omega) (by omega) (Or.inr hset) fun r hr => ?_
        rcases Nat.lt_or_ge r sidx with hr' | hr'
        · exact hbelow r hr'
        · exact not_clearRun hset (by omega) (by omega)
      cases hbit : bitmapGetBit bitmap sidx with
      | true =>
          rw [if_pos (by simp)]
          exact hnext 0 hone hlt hbit
      | false =>
          rw [if_neg (by simp)]
          rcases @bitmapAllocScan_cases bitmap 1 size sidx size (by omega) hsize hs with
            ⟨hrun, heq⟩ | ⟨k, hk, hklt, hset, heq⟩ | ⟨hrun, hshort, heq⟩
          · rw [heq]
            simp only [ge_iff_le, Nat.le_refl, if_true]
            refine Or.inl ⟨sidx, ?_, hbelow, rfl⟩
            rcases Nat.le_total 1 (size - 1) with h | h
            · rwa [testedBits, Nat.max_eq_right h]
            · rw [testedBits, Nat.max_eq_left h]
              exact (clearRun_zero hs).of_shorter hlt hbit
          · rw [heq]
            simp only [ge_iff_le, if_neg (by omega : ¬ size ≤ 1 + k), if_true]
            exact hnext k (by omega) hklt hset
          · rw [heq]
            simp only [ge_iff_le, if_neg (by omega : ¬ size ≤ 1 + (bitmap.bitSize - sidx)),
              Bool.false_eq_true, if_false]
            have hret : bitmapAllocLoop bitmap false size fuel bitmap.bitSize sidx
                = (bitmap, (sidx : Int)) := by
              cases fuel with
              | zero => rfl
              | succ fuel => rw [bitmapAllocLoop, if_neg (by omega)]
            rw [hret]
            refine Or.inr ⟨fun r h => ?_, Or.inr ⟨?_, sidx, rfl⟩⟩
            · have := h.inside
              exact hbelow r (by omega) h
            · rintro (he | hset)
              · omega
              · rw [hrun.clear _ (by omega) (by omega)] at hset
                cases hset

/-- The lowest run of `size - 1` clear bits is taken, with the bit behind it. Without one the
search ends with -1 or, when the last bit is clear, with an index that it has not taken. -/
theorem bitmapAllocBits_runs (hsize : 0 < size) :
    SearchEnd bitmap size (bitmapAllocBits bitmap false size) :=
  bitmapAllocLoop_runs hsize (by omega) (Nat.zero_le _) (Or.inl rfl) (by omega)

/-! ## Contiguous allocation -/

/-- `bitmap_alloc_bits` finds a run when there is one and takes that run, and `alloc_pages`
hands out free pages. -/
structure AllocRight (bitmap : Bitmap) (size : Nat) : Prop where
  found : 0 ≤ (bitmapAllocBits bitmap false size).2 ↔ ∃ r, ClearRun bitmap r size
  run : 0 ≤ (bitmapAllocBits bitmap false size).2 →
    ClearRun bitmap (bitmapAllocBits bitmap false size).2.toNat size
  bitSize : (bitmapAllocBits bitmap false size).1.bitSize = bitmap.bitSize
  taken : 0 ≤ (bitmapAllocBits bitmap false size).2 → ∀ j,
    bitmapGetBit (bitmapAllocBits bitmap false size).1 j
      = if (bitmapAllocBits bitmap false size).2.toNat ≤ j
          ∧ j < (bitmapAllocBits bitmap false size).2.toNat + size
        then true else bitmapGetBit bitmap j
  none : (bitmapAllocBits bitmap false size).2 < 0 →
    bitmapAllocBits bitmap false size = (bitmap, -1)
  pages : ∀ info : Memory32Info, info.Ok → info.bitmap = bitmap →
    (memory32AllocPage info size).2 ≠ 0 →
    ∀ k < size, info.Free ((memory32AllocPage info size).2 + k * 0x1000)

/-- One page is asked for; or the first `size - 1` clear bits in a row are followed by another
clear bit; or there are none, and the last bit is in use. -/
def RunsFit (bitmap : Bitmap) (size : Nat) : Prop :=
  size = 1
  ∨ (∃ r, ClearRun bitmap r size ∧ ∀ r' < r, ¬ ClearRun bitmap r' (size - 1))
  ∨ (∀ r, ¬ ClearRun bitmap r (size - 1)) ∧ EndsSet bitmap

theorem memory32AllocPage_eq (info : Memory32Info) (hr : bitmapAllocBits info.bitmap false size
      = (bitmapSetBits info.bitmap r size true, (r : Int))) :
    (memory32AllocPage info size).2 = u32 (info.start + r * info.pageSize) := by
  simp [memory32AllocPage, hr]

theorem allocRight_of_run (hrun : ClearRun bitmap r size) (hr : bitmapAllocBits bitmap false size
      = (bitmapSetBits bitmap r size true, (r : Int))) : AllocRight bitmap size := by
  constructor
  case found =>
    rw [hr]
    exact ⟨fun _ => ⟨r, hrun⟩, fun _ => Int.natCast_nonneg r⟩
  case run =>
    rw [hr]
    exact fun _ => hrun
  case bitSize =>
    rw [hr]
    exact bitmapSetBits_bitSize
  case taken =>
    rw [hr]
    intro _ j
    dsimp only
    rw [Int.toNat_natCast, bitmapGetBit_setBits]
    have := hrun.inside
    congr 1
    exact propext (by omega)
  case none =>
    rw [hr]
    exact fun h => absurd h (by dsimp only; omega)
  case pages =>
    rintro info hinfo rfl - k hk
    have hin := hrun.inside
    have hlim := hinfo.limit
    rw [Memory32Info.page] at hlim
    refine ⟨r + k, by omega, hrun.clear _ (by omega) (by omega), ?_⟩
    rw [memory32AllocPage_eq info hr, hinfo.pageSize, u32_of_lt (by omega), Memory32Info.page]
    omega

theorem allocRight_of_none (hno : ∀ r, ¬ ClearRun bitmap r size)
    (hr : bitmapAllocBits bitmap false size = (bitmap, -1)) : AllocRight bitmap size := by
  constructor
  case found =>
    rw [hr]
    exact ⟨fun h => absurd h (by simp), fun ⟨r, h⟩ => absurd h (hno r)⟩
  case run =>
    rw [hr]
    exact fun h => absurd h (by simp)
  case bitSize => rw [hr]
  case taken =>
    rw [hr]
    exact fun h => absurd h (by simp)
  case none => exact fun _ => hr
  case pages =>
    rintro info - rfl h
    exact absurd (by simp [memory32AllocPage, hr]) h

/-- The search is right when the run that it takes is one, and when it takes none and says so. -/
theorem bitmapAllocBits_law (hsize : 0 < size) : AllocRight bitmap size ↔ RunsFit bitmap size := by
  rcases Nat.lt_or_ge size 2 with hone | htwo
  · obtain rfl : size = 1 := by omega
    refine iff_of_true ?_ (Or.inl rfl)
    rcases @bitmapAllocBits_runs bitmap 1 hsize with ⟨r, hrun, -, hr⟩ | ⟨hno, ⟨-, hr⟩ | ⟨hend, -⟩⟩
    · exact allocRight_of_run hrun hr
    · exact allocRight_of_none hno hr
    · rw [EndsSet, not_or, Bool.not_eq_true] at hend
      refine absurd ?_ (hno (bitmap.bitSize - 1))
      exact (clearRun_zero (by omega)).of_shorter (by omega) hend.2
  have htested : testedBits size = size - 1 := Nat.max_eq_right (by omega)
  rcases @bitmapAllocBits_runs bitmap size hsize with
    ⟨r, hrun, hlow, hr⟩ | ⟨hno, ⟨hend, hr⟩ | ⟨hend, r, hr⟩⟩
  · rw [htested] at hrun hlow
    constructor
    · intro h
      refine Or.inr (Or.inl ⟨r, ?_, hlow⟩)
      have hrun' := h.run (by rw [hr]; exact Int.natCast_nonneg r)
      rwa [hr, Int.toNat_natCast] at hrun'
    · rintro (rfl | ⟨q, hq, hqlow⟩ | ⟨hno, -⟩)
      · omega
      · have hqr : ¬ q < r := fun h => hlow q h (hq.shorter (by omega))
        have hrq : ¬ r < q := fun h => hqlow r h hrun
        obtain rfl : q = r := by omega
        exact allocRight_of_run hq hr
      · exact absurd hrun (hno r)
  · rw [htested] at hno
    refine iff_of_true (allocRight_of_none (fun r h => hno r (h.shorter (by omega))) hr) ?_
    exact Or.inr (Or.inr ⟨hno, hend⟩)
  · rw [htested] at hno
    refine iff_of_false (fun h => ?_) ?_
    · obtain ⟨q, hq⟩ := h.found.mp (by rw [hr]; exact Int.natCast_nonneg r)
      exact hno q (hq.shorter (by omega))
    · rintro (rfl | ⟨q, hq, -⟩ | ⟨-, hset⟩)
      · omega
      · exact hno q (hq.shorter (by omega))
      · exact hend hset

/-- Eight pages of which only the first one is free. -/
def oneFree : Bitmap where
  bitSize := 8
  bits := fun _ => 0xFE

/-- Of the two pages that are asked for here the first one is free. -/
theorem bitmapAllocBits_law_three : AllocRight { oneFree with bits := fun _ => 0xF1 } 3 :=
  (bitmapAllocBits_law (by decide)).mpr
    (Or.inr (Or.inl ⟨1, ⟨by decide, by decide⟩, fun r hr h => by
      obtain rfl : r = 0 := by omega
      exact absurd (h.clear 0 (by decide) (by decide)) (by decide)⟩))

/-- Two pages are asked for; the call takes the one that is free and the next one, which is
in use. -/
theorem bitmapAllocBits_taken : (bitmapAllocBits oneFree false 2).2 = 0
    ∧ bitmapGetBit oneFree 1 = true ∧ ¬ AllocRight oneFree 2 := by
  refine ⟨by decide, by decide, fun h => ?_⟩
  have hrun := h.run (by decide)
  exact absurd (hrun.clear 1 (by decide) (by decide)) (by decide)

end Csos
