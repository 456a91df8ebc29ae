import Mathlib.Algebra.Ring.Nat

/-!
# Byte-addressed memory

A memory is a function from addresses to bytes. Words are little-endian
and 32 bits wide. Each operation comes with what a later load sees: the
new word where the store went, and the old word everywhere else.
-/

namespace Csos

namespace Lib

/-- A byte-addressed memory. -/
abbrev Bytes := Nat → BitVec 8

namespace Bytes

variable {m m' : Bytes} {a b n v : Nat}

/-- The 32-bit word at `a`. -/
def load32 (m : Bytes) (a : Nat) : Nat :=
  (m a).toNat + 0x100 * (m (a + 1)).toNat + 0x10000 * (m (a + 2)).toNat
    + 0x1000000 * (m (a + 3)).toNat

/-- The 16-bit word at `a`. -/
def load16 (m : Bytes) (a : Nat) : Nat := (m a).toNat + 0x100 * (m (a + 1)).toNat

/-- Write one byte. -/
def store8 (m : Bytes) (a : Nat) (v : BitVec 8) : Bytes :=
  fun b => if b = a then v else m b

/-- Write the 16-bit word at `a`. -/
def store16 (m : Bytes) (a v : Nat) : Bytes := fun b =>
  if b = a then BitVec.ofNat 8 v
  else if b = a + 1 then BitVec.ofNat 8 (v / 0x100)
  else m b

/-- Write the 32-bit word at `a`. -/
def store32 (m : Bytes) (a v : Nat) : Bytes := fun b =>
  if b = a then BitVec.ofNat 8 v
  else if b = a + 1 then BitVec.ofNat 8 (v / 0x100)
  else if b = a + 2 then BitVec.ofNat 8 (v / 0x10000)
  else if b = a + 3 then BitVec.ofNat 8 (v / 0x1000000)
  else m b

/-- Set the `n` bytes from `a` on to `v`. -/
def fill (m : Bytes) (a : Nat) (v : BitVec 8) (n : Nat) : Bytes :=
  fun b => if a ≤ b ∧ b < a + n then v else m b

/-- Write the `n` bytes from `a` on, from the start of `data`. -/
def copy (m : Bytes) (a : Nat) (data : Bytes) (n : Nat) : Bytes :=
  fun b => if a ≤ b ∧ b < a + n then data (b - a) else m b

/-! ## Loads -/

theorem load32_lt (m : Bytes) (a : Nat) : load32 m a < 2 ^ 32 := by
  have h₀ := (m a).isLt
  have h₁ := (m (a + 1)).isLt
  have h₂ := (m (a + 2)).isLt
  have h₃ := (m (a + 3)).isLt
  simp only [load32]
  omega

theorem load32_congr (h : ∀ b, a ≤ b → b < a + 4 → m' b = m b) :
    load32 m' a = load32 m a := by
  simp only [load32]
  rw [h a (by omega) (by omega), h (a + 1) (by omega) (by omega),
    h (a + 2) (by omega) (by omega), h (a + 3) (by omega) (by omega)]

theorem load16_congr (h₀ : m' a = m a) (h₁ : m' (a + 1) = m (a + 1)) :
    load16 m' a = load16 m a := by
  rw [load16, load16, h₀, h₁]

theorem load16_lt (m : Bytes) (a : Nat) : load16 m a < 2 ^ 16 := by
  have h₀ := (m a).isLt
  have h₁ := (m (a + 1)).isLt
  simp only [load16]
  omega

/-! ## Stores -/

theorem store8_of_ne {c : BitVec 8} (h : b ≠ a) : store8 m a c b = m b := if_neg h

theorem store8_self {c : BitVec 8} : store8 m a c a = c := if_pos rfl

theorem store16_outside (h : b < a ∨ a + 2 ≤ b) : store16 m a v b = m b := by
  simp only [store16]
  rw [if_neg (by omega), if_neg (by omega)]

theorem load16_store16_self (hv : v < 2 ^ 16) : load16 (store16 m a v) a = v := by
  have h₀ : store16 m a v a = BitVec.ofNat 8 v := if_pos rfl
  have h₁ : store16 m a v (a + 1) = BitVec.ofNat 8 (v / 0x100) := by simp [store16]
  simp only [load16, h₀, h₁, BitVec.toNat_ofNat]
  omega

theorem copy_inside {data : Bytes} (h : a ≤ b) (h' : b < a + n) : copy m a data n b = data (b - a) :=
  if_pos ⟨h, h'⟩

theorem copy_outside {data : Bytes} (h : b < a ∨ a + n ≤ b) : copy m a data n b = m b :=
  if_neg (by omega)

theorem store16_load16 (m data : Bytes) (a b : Nat) :
    store16 m a (load16 data b) = copy m a (fun i => data (b + i)) 2 := by
  funext c
  have hlow : BitVec.ofNat 8 (load16 data b) = data b := by
    apply BitVec.eq_of_toNat_eq
    have h := (data b).isLt
    rw [BitVec.toNat_ofNat, load16]
    omega
  have hhigh : BitVec.ofNat 8 (load16 data b / 0x100) = data (b + 1) := by
    apply BitVec.eq_of_toNat_eq
    have h := (data b).isLt
    have h' := (data (b + 1)).isLt
    rw [BitVec.toNat_ofNat, load16]
    omega
  by_cases h₀ : c = a
  · rw [store16, if_pos h₀, copy_inside (by omega) (by omega), hlow, h₀, Nat.sub_self,
      Nat.add_zero]
  · by_cases h₁ : c = a + 1
    · rw [store16, if_neg h₀, if_pos h₁, copy_inside (by omega) (by omega), hhigh, h₁,
        Nat.add_sub_cancel_left]
    · rw [store16_outside (by omega), copy_outside (by omega)]

/-- Two pieces that stand one behind the other. -/
theorem copy_append (m data : Bytes) (a b n k : Nat) :
    copy (copy m a (fun i => data (b + i)) n) (a + n) (fun i => data (b + n + i)) k
      = copy m a (fun i => data (b + i)) (n + k) := by
  funext c
  by_cases hpiece : a + n ≤ c ∧ c < a + n + k
  · rw [copy_inside hpiece.1 hpiece.2, copy_inside (by omega) (by omega)]
    exact congrArg data (by omega)
  · rw [copy_outside (by omega)]
    by_cases hin : a ≤ c ∧ c < a + n
    · rw [copy_inside hin.1 hin.2, copy_inside hin.1 (by omega)]
    · rw [copy_outside (by omega), copy_outside (by omega)]

/-- What has been copied is copied again. -/
theorem copy_copy (m m' data : Bytes) (a n : Nat) :
    copy m a (copy m' 0 data n) n = copy m a data n := by
  funext c
  by_cases hin : a ≤ c ∧ c < a + n
  · rw [copy_inside hin.1 hin.2, copy_inside hin.1 hin.2, copy_inside (by omega) (by omega),
      Nat.sub_zero]
  · rw [copy_outside (by omega), copy_outside (by omega)]

/-- Only the last copy stays. -/
theorem copy_over (m data data' : Bytes) (a n : Nat) :
    copy (copy m a data n) a data' n = copy m a data' n := by
  funext c
  by_cases hin : a ≤ c ∧ c < a + n
  · rw [copy_inside hin.1 hin.2, copy_inside hin.1 hin.2]
  · rw [copy_outside (by omega), copy_outside (by omega), copy_outside (by omega)]

theorem store32_outside (h : b < a ∨ a + 4 ≤ b) : store32 m a v b = m b := by
  simp only [store32]
  rw [if_neg (by omega), if_neg (by omega), if_neg (by omega), if_neg (by omega)]

theorem load32_store32_self (hv : v < 2 ^ 32) : load32 (store32 m a v) a = v := by
  have h₀ : store32 m a v a = BitVec.ofNat 8 v := if_pos rfl
  have h₁ : store32 m a v (a + 1) = BitVec.ofNat 8 (v / 0x100) := by simp [store32]
  have h₂ : store32 m a v (a + 2) = BitVec.ofNat 8 (v / 0x10000) := by simp [store32]
  have h₃ : store32 m a v (a + 3) = BitVec.ofNat 8 (v / 0x1000000) := by simp [store32]
  simp only [load32, h₀, h₁, h₂, h₃, BitVec.toNat_ofNat]
  omega

theorem load32_store32_of_disjoint (h : b + 4 ≤ a ∨ a + 4 ≤ b) :
    load32 (store32 m a v) b = load32 m b :=
  load32_congr fun _ _ _ => store32_outside (by omega)

/-! ## Fills -/

theorem fill_outside {c : BitVec 8} (h : b < a ∨ a + n ≤ b) : fill m a c n b = m b :=
  if_neg (by omega)

theorem load32_fill_zero (h : a ≤ b) (h' : b + 4 ≤ a + n) : load32 (fill m a 0 n) b = 0 := by
  have hz : ∀ c, b ≤ c → c < b + 4 → fill m a 0 n c = 0 := fun c _ _ => if_pos (by omega)
  simp only [load32]
  rw [hz b (by omega) (by omega), hz (b + 1) (by omega) (by omega),
    hz (b + 2) (by omega) (by omega), hz (b + 3) (by omega) (by omega)]
  rfl

theorem load32_fill_outside {c : BitVec 8} (h : b + 4 ≤ a ∨ a + n ≤ b) :
    load32 (fill m a c n) b = load32 m b :=
  load32_congr fun _ _ _ => fill_outside (by omega)

end Bytes

end Lib

end Csos
