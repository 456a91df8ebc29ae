import Mathlib.Algebra.Ring.Nat
import Mathlib.Logic.Function.Basic

/-!
# The page bitmap (`lib/bitmap.c`)

One bit a page; a set bit is a page in use. `bitmapAllocBits_one` says
what the search for a single free bit does, which is all that the page
tables ask for.
-/

namespace Csos

/-- `bitmap_t`. -/
structure Bitmap where
  bitSize : Nat
  bits : Nat → BitVec 8

def bitmapGetBit (bitmap : Bitmap) (index : Nat) : Bool :=
  (bitmap.bits (index / 8) >>> (index % 8)) &&& 1 == 1

def bitmapSetBits (bitmap : Bitmap) (index : Nat) : Nat → Bool → Bitmap
  | 0, _ => bitmap
  | size + 1, value =>
      if index < bitmap.bitSize then
        let byte := bitmap.bits (index / 8)
        let mask := (1 : BitVec 8) <<< (index % 8)
        let byte := if value then byte ||| mask else byte &&& ~~~mask
        bitmapSetBits { bitmap with bits := Function.update bitmap.bits (index / 8) byte }
          (index + 1) size value
      else bitmap

/-- The inner loop of `bitmap_alloc_bits`: `i`, `sidx`, and whether it
left at the `break`. -/
def bitmapAllocScan (bitmap : Bitmap) (value : Bool) (size : Nat) :
    Nat → Nat → Nat → Nat × Nat × Bool
  | 0, i, sidx => (i, sidx, false)
  | fuel + 1, i, sidx =>
      if i < size ∧ sidx < bitmap.bitSize then
        if bitmapGetBit bitmap sidx ≠ value then (i, sidx + 1, true)
        else bitmapAllocScan bitmap value size fuel (i + 1) (sidx + 1)
      else (i, sidx, false)

/-- The outer loop. Every round moves `sidx`, so `bitSize` rounds are enough. -/
def bitmapAllocLoop (bitmap : Bitmap) (value : Bool) (size : Nat) :
    Nat → Nat → Int → Bitmap × Int
  | 0, _, ridx => (bitmap, ridx)
  | fuel + 1, sidx, ridx =>
      if sidx < bitmap.bitSize then
        if bitmapGetBit bitmap sidx ≠ value then
          bitmapAllocLoop bitmap value size fuel (sidx + 1) ridx
        else
          match bitmapAllocScan bitmap value size size 1 sidx with
          | (i, sidx', broken) =>
              if i ≥ size then (bitmapSetBits bitmap sidx size true, sidx)
              else bitmapAllocLoop bitmap value size fuel sidx' (if broken then -1 else sidx)
      else (bitmap, ridx)

def bitmapAllocBits (bitmap : Bitmap) (value : Bool) (size : Nat) : Bitmap × Int :=
  bitmapAllocLoop bitmap value size bitmap.bitSize 0 (-1)

/-! ## Single bits -/

variable {bitmap : Bitmap} {i j : Nat} {value : Bool}

theorem bitmapGetBit_eq : bitmapGetBit bitmap i = (bitmap.bits (i / 8)).getLsbD (i % 8) := by
  have hmask : ∀ x : BitVec 8, (x &&& 1 == 1) = x.getLsbD 0 := by decide
  rw [bitmapGetBit, hmask, BitVec.getLsbD_ushiftRight, Nat.add_zero]

@[simp] theorem bitmapSetBits_one_bitSize :
    (bitmapSetBits bitmap i 1 value).bitSize = bitmap.bitSize := by
  simp only [bitmapSetBits]
  split <;> rfl

theorem bitmapSetBits_one_of_le (h : bitmap.bitSize ≤ i) :
    bitmapSetBits bitmap i 1 value = bitmap := by
  simp only [bitmapSetBits]
  exact if_neg (by omega)

/-- Setting one bit changes that bit only. -/
theorem bitmapGetBit_setBits_one (h : i < bitmap.bitSize) :
    bitmapGetBit (bitmapSetBits bitmap i 1 value) j
      = if j = i then value else bitmapGetBit bitmap j := by
  simp only [bitmapSetBits, if_pos h, bitmapGetBit_eq]
  by_cases hbyte : j / 8 = i / 8
  · rw [hbyte, Function.update_self]
    have hj : j % 8 < 8 := Nat.mod_lt _ (by omega)
    by_cases hji : j = i
    · subst hji
      cases value <;> simp [hj]
    · have hne : j % 8 ≠ i % 8 := by omega
      cases value
      · simp only [hji, if_false, Bool.false_eq_true]
        simp [hj]
        omega
      · simp only [hji, if_false, if_true]
        simp [hj]
        omega
  · have hji : j ≠ i := fun he => hbyte (by rw [he])
    rw [Function.update_of_ne hbyte, if_neg hji]

/-! ## The search for one bit -/

theorem bitmapAllocScan_one (sidx : Nat) :
    bitmapAllocScan bitmap value 1 1 1 sidx = (1, sidx, false) := by
  simp [bitmapAllocScan]

/-- From a position on, below which no bit is free. -/
theorem bitmapAllocLoop_one {fuel sidx : Nat} (hfuel : bitmap.bitSize ≤ sidx + fuel)
    (hbelow : ∀ j < sidx, bitmapGetBit bitmap j = true) :
    (bitmapAllocLoop bitmap false 1 fuel sidx (-1) = (bitmap, -1)
      ∧ ∀ j < bitmap.bitSize, bitmapGetBit bitmap j = true)
    ∨ ∃ i < bitmap.bitSize, bitmapGetBit bitmap i = false
      ∧ (∀ j < i, bitmapGetBit bitmap j = true)
      ∧ bitmapAllocLoop bitmap false 1 fuel sidx (-1)
        = (bitmapSetBits bitmap i 1 true, (i : Int)) := by
  induction fuel generalizing sidx with
  | zero => exact Or.inl ⟨rfl, fun j hj => hbelow j (by omega)⟩
  | succ fuel ih =>
      simp only [bitmapAllocLoop]
      by_cases hlt : sidx < bitmap.bitSize
      · rw [if_pos hlt]
        cases hbit : bitmapGetBit bitmap sidx with
        | true =>
            rw [if_pos (by simp)]
            refine ih (by omega) fun j hj => ?_
            rcases Nat.lt_succ_iff_lt_or_eq.mp hj with hj | rfl
            · exact hbelow j hj
            · exact hbit
        | false =>
            rw [if_neg (by simp), bitmapAllocScan_one]
            exact Or.inr ⟨sidx, hlt, hbit, hbelow, by simp⟩
      · rw [if_neg hlt]
        exact Or.inl ⟨rfl, fun j hj => hbelow j (by omega)⟩

/-- The lowest free bit is taken; -1 comes back only when there is none. -/
theorem bitmapAllocBits_one (bitmap : Bitmap) :
    (bitmapAllocBits bitmap false 1 = (bitmap, -1)
      ∧ ∀ j < bitmap.bitSize, bitmapGetBit bitmap j = true)
    ∨ ∃ i < bitmap.bitSize, bitmapGetBit bitmap i = false
      ∧ (∀ j < i, bitmapGetBit bitmap j = true)
      ∧ bitmapAllocBits bitmap false 1 = (bitmapSetBits bitmap i 1 true, (i : Int)) :=
  bitmapAllocLoop_one (by omega) (by omega)

end Csos
