import Mathlib.Data.List.Basic
import Csos.Lib.Bytes

/-!
# One's complement sums of 16-bit words

The checksum of the Internet protocols adds big-endian 16-bit words with
an end-around carry. `onesSum` is that sum, word by word, and `beWords`
cuts a range of memory into words, with a zero byte behind an odd one.

A sum of words and the same sum with its carries folded in agree modulo
0xFFFF, and one is zero when the other is (`Folds`); no two 16-bit
numbers fold the same sum (`Folds.unique`). So it does not matter when
the carries are added, and a packet in which one word is the complement
of the sum of the others adds up to 0xFFFF (`onesSum_complement`).
-/

namespace Csos

namespace Lib

/-! ## Sums -/

/-- Addition of 16-bit words, with the carry added at the low end. -/
def onesAdd (a b : Nat) : Nat := if a + b < 0x10000 then a + b else a + b - 0xFFFF

def onesSum (ws : List Nat) : Nat := ws.foldl onesAdd 0

/-- `r` is the sum `s` with its carries folded into 16 bits. -/
structure Folds (s r : Nat) : Prop where
  lt : r < 0x10000
  mod : r % 0xFFFF = s % 0xFFFF
  zero : r = 0 ↔ s = 0

variable {s r r' w : Nat} {ws : List Nat}

theorem Folds.unique (h : Folds s r) (h' : Folds s r') : r = r' := by
  obtain ⟨hlt, hmod, hz⟩ := h
  obtain ⟨hlt', hmod', hz'⟩ := h'
  omega

/-- Of the two zeros, a sum that is not 0 folds to 0xFFFF. -/
theorem Folds.eq_ffff_iff (h : Folds s r) (hs : 0 < s) : r = 0xFFFF ↔ 0xFFFF ∣ s := by
  obtain ⟨hlt, hmod, hz⟩ := h
  omega

theorem folds_self (h : s < 0x10000) : Folds s s := ⟨h, rfl, Iff.rfl⟩

/-- One round of folding does not change what the sum folds to. -/
theorem Folds.of_round (h : Folds (s % 0x10000 + s / 0x10000) r) : Folds s r := by
  obtain ⟨hlt, hmod, hz⟩ := h
  refine ⟨hlt, ?_, ?_⟩
  · omega
  · omega

theorem Folds.add (h : Folds s r) (hw : w < 0x10000) : Folds (s + w) (onesAdd r w) := by
  obtain ⟨hlt, hmod, hz⟩ := h
  have hcases : onesAdd r w = r + w ∧ r + w < 0x10000
      ∨ onesAdd r w = r + w - 0xFFFF ∧ 0x10000 ≤ r + w := by
    simp only [onesAdd]
    split <;> omega
  rcases hcases with ⟨heq, hle⟩ | ⟨heq, hle⟩
  · rw [heq]
    exact ⟨hle, by omega, by omega⟩
  · rw [heq]
    exact ⟨by omega, by omega, by omega⟩

theorem foldl_onesAdd (h : Folds s r) (hws : ∀ w ∈ ws, w < 0x10000) :
    Folds (s + ws.sum) (ws.foldl onesAdd r) := by
  induction ws generalizing s r with
  | nil => simpa using h
  | cons w ws ih =>
      have hw := h.add (hws w (by simp))
      have hrest := ih hw fun v hv => hws v (List.mem_cons_of_mem _ hv)
      rwa [List.sum_cons, ← Nat.add_assoc]

theorem folds_onesSum (hws : ∀ w ∈ ws, w < 0x10000) : Folds ws.sum (onesSum ws) := by
  have h := foldl_onesAdd (folds_self (s := 0) (by decide)) hws
  rwa [Nat.zero_add] at h

/-- Words that add up to another sum and the complement of what it folds
to sum to 0xFFFF. -/
theorem onesSum_complement (hws : ∀ w ∈ ws, w < 0x10000) (h : Folds s r)
    (hsum : ws.sum = s + (0xFFFF - r)) : onesSum ws = 0xFFFF := by
  obtain ⟨hlt, hmod, hz⟩ := h
  refine (folds_onesSum hws).unique ⟨by decide, ?_, ?_⟩
  · rw [hsum]
    omega
  · rw [hsum]
    omega

/-! ## Words in memory -/

namespace Bytes

variable {p p' : Bytes} {a n k : Nat}

/-- The big-endian 16-bit word at `a`. -/
def beWord (p : Bytes) (a : Nat) : Nat := 0x100 * (p a).toNat + (p (a + 1)).toNat

/-- The `n` bytes from `a` on as big-endian words, padded with a zero byte. -/
def beWords (p : Bytes) (a : Nat) : Nat → List Nat
  | 0 => []
  | 1 => [0x100 * (p a).toNat]
  | n + 2 => p.beWord a :: beWords p (a + 2) n

theorem beWord_lt (p : Bytes) (a : Nat) : p.beWord a < 0x10000 := by
  have h₀ := (p a).isLt
  have h₁ := (p (a + 1)).isLt
  simp only [beWord]
  omega

theorem beWord_congr (h₀ : p' a = p a) (h₁ : p' (a + 1) = p (a + 1)) :
    p'.beWord a = p.beWord a := by
  rw [beWord, h₀, h₁, beWord]

theorem beWord_store8 {b : Nat} {c : BitVec 8} (h : b ≠ a ∧ b + 1 ≠ a) :
    (p.store8 a c).beWord b = p.beWord b :=
  beWord_congr (store8_of_ne h.1) (store8_of_ne h.2)

theorem beWord_store16 {b v : Nat} (h : b + 2 ≤ a ∨ a + 2 ≤ b) :
    (p.store16 a v).beWord b = p.beWord b :=
  beWord_congr (store16_outside (by omega)) (store16_outside (by omega))

theorem beWords_lt : ∀ w ∈ p.beWords a n, w < 0x10000 := by
  induction n using Nat.twoStepInduction generalizing a with
  | zero => exact fun w hw => nomatch hw
  | one =>
      intro w hw
      have h := (p a).isLt
      rw [beWords, List.mem_singleton] at hw
      omega
  | more n ih _ =>
      intro w hw
      rcases List.mem_cons.mp hw with rfl | hw
      · exact p.beWord_lt a
      · exact ih w hw

theorem beWords_congr (h : ∀ b, a ≤ b → b < a + n → p' b = p b) :
    p'.beWords a n = p.beWords a n := by
  induction n using Nat.twoStepInduction generalizing a with
  | zero => rfl
  | one => rw [beWords, beWords, h a (Nat.le_refl _) (by omega)]
  | more n ih _ =>
      rw [beWords, beWords, ih fun b hb hb' => h b (by omega) (by omega),
        beWord_congr (h a (Nat.le_refl _) (by omega)) (h (a + 1) (by omega) (by omega))]

/-- Words do not straddle an even boundary. -/
theorem beWords_add : p.beWords a (2 * k + n) = p.beWords a (2 * k) ++ p.beWords (a + 2 * k) n := by
  induction k generalizing a with
  | zero => simp [beWords]
  | succ k ih =>
      have h : 2 * (k + 1) + n = 2 * k + n + 2 := by omega
      have h' : a + 2 + 2 * k = a + 2 * (k + 1) := by omega
      rw [h, beWords, ih, h', Nat.mul_succ, beWords, List.cons_append]

/-- Two bytes that were zero now hold the word `w`. -/
theorem sum_beWords_write (hk : 2 * k + 2 ≤ n)
    (hsame : ∀ b, a ≤ b → b < a + n → b ≠ a + 2 * k → b ≠ a + 2 * k + 1 → p' b = p b)
    (hzero : p.beWord (a + 2 * k) = 0) :
    (p'.beWords a n).sum = (p.beWords a n).sum + p'.beWord (a + 2 * k) := by
  obtain ⟨m, rfl⟩ : ∃ m, n = 2 * k + (m + 2) := ⟨n - (2 * k + 2), by omega⟩
  have hfront : p'.beWords a (2 * k) = p.beWords a (2 * k) :=
    beWords_congr fun b hb hb' => hsame b hb (by omega) (by omega) (by omega)
  have hback : p'.beWords (a + 2 * k + 2) m = p.beWords (a + 2 * k + 2) m :=
    beWords_congr fun b hb hb' => hsame b (by omega) (by omega) (by omega) (by omega)
  rw [beWords_add, beWords_add, beWords, beWords, hfront, hback, hzero]
  simp only [List.sum_append, List.sum_cons]
  omega

/-- A sum of words stays below a bound that its length gives. -/
theorem sum_beWords_le : (p.beWords a n).sum ≤ 0xFFFF * ((n + 1) / 2) := by
  induction n using Nat.twoStepInduction generalizing a with
  | zero => exact Nat.zero_le _
  | one =>
      have h := (p a).isLt
      simp only [beWords, List.sum_singleton]
      omega
  | more n ih _ =>
      have hw := p.beWord_lt a
      have hrest := @ih (a + 2)
      simp only [beWords, List.sum_cons]
      omega

end Bytes

end Lib

end Csos
