import Csos.FileTable

/-!
# Which file system opens a path (`fs_fopen`, `kernel_strncmp`)

`kernel_strncmp` tests `size` in its loop and never counts it down, and it
returns 0 whenever one of the strings ends. It compares two strings as
`strncmp` does only where `size` plays no part (`fopen_strncmp_law`); and a
path that ends inside `"/dev/"` goes to the devices.
-/

namespace Csos

/-! ## The code -/

/-- The loop of `kernel_strncmp`: where the two pointers stop. -/
def strncmpLoop (size : UInt32) : List UInt8 → List UInt8 → List UInt8 × List UInt8
  | a :: s, b :: t => if a = b ∧ size ≠ 0 then strncmpLoop size s t else (a :: s, b :: t)
  | s, t => (s, t)

/-- `kernel_strncmp` of two strings, with its `size`. -/
def kernelStrncmpSized (str1 str2 : List UInt8) (size : UInt32) : Int32 :=
  if size = 0 then -1
  else
    match strncmpLoop size str1 str2 with
    | (a :: _, b :: _) => if a = b then 0 else 1
    | _ => 0

/-- The call of `fopen` that `fs_fopen` makes. The path is `none` when the
pointer is behind the NUL of the path that was passed. -/
structure FopenCall where
  fs : MountedFs
  path : Option (List UInt8)
deriving DecidableEq

/-- `path + n`. -/
def pathFrom (path : List UInt8) (n : Nat) : Option (List UInt8) :=
  if n ≤ path.length then some (path.drop n) else none

/-- The choice of `fs_fopen`. -/
def fopenCall (filepath : List UInt8) : FopenCall :=
  if kernelStrncmpSized filepath devPrefix 5 = 0 then ⟨.devfs, pathFrom filepath 5⟩
  else ⟨.rootfs, some filepath⟩

/-- `fs_fopen`, with the `fopen` of the two file systems: whether it opens
the file. -/
def FdTable.fsFopenBy {F : Type} [DecidableEq F] (fopen : FopenCall → F → List UInt8 → Bool)
    (s : FdTable F) (file : F) (filepath mode : List UInt8) : FdTable F × Int :=
  s.fsFopen file filepath (fopen (fopenCall filepath) file mode)

/-! ## The comparison -/

/-- How far two strings agree. -/
def common : List UInt8 → List UInt8 → Nat
  | a :: s, b :: t => if a = b then common s t + 1 else 0
  | _, _ => 0

section Common

variable {a b : List UInt8} {size : UInt32} {n : Nat}

theorem common_le (a b : List UInt8) : common a b ≤ a.length ∧ common a b ≤ b.length := by
  fun_induction common a b with
  | case1 a s t ih => simpa using ih
  | case2 => simp
  | case3 => simp

theorem common_self (a : List UInt8) : common a a = a.length := by
  induction a with
  | nil => rfl
  | cons a s ih => rw [common, if_pos rfl, ih, List.length_cons]

/-- The strings agree on their first `n` characters, or up to a terminator
that both have there. -/
theorem take_eq_iff : a.take n = b.take n ↔ a = b ∨ n ≤ common a b := by
  induction n generalizing a b with
  | zero => simp
  | succ n ih =>
      cases a with
      | nil => cases b <;> simp [common]
      | cons c s =>
          cases b with
          | nil => simp [common]
          | cons d t =>
              rw [List.take_succ_cons, List.take_succ_cons, List.cons.injEq, List.cons.injEq, ih,
                common]
              by_cases hcd : c = d
              · simp [hcd]
              · simp [hcd]

/-- It is the comparison of the descriptors. -/
theorem kernelStrncmpSized_eq (hsize : size ≠ 0) :
    kernelStrncmpSized a b size = kernelStrncmp a b := by
  rw [kernelStrncmpSized, if_neg hsize]
  fun_induction strncmpLoop size a b with
  | case1 c s d t h ih => rw [ih, kernelStrncmp, if_pos h.1]
  | case2 c s d t h =>
      have hne : c ≠ d := fun hcd => h ⟨hcd, hsize⟩
      simp [kernelStrncmp, hne]
  | case3 s t hnil =>
      match s, t with
      | [], t => simp [kernelStrncmp]
      | c :: s, [] => simp [kernelStrncmp]
      | c :: s, d :: t => exact absurd rfl (hnil c s d t rfl)

theorem kernelStrncmp_eq_zero :
    kernelStrncmp a b = 0 ↔ common a b = a.length ∨ common a b = b.length := by
  induction a generalizing b with
  | nil => simp [kernelStrncmp, common]
  | cons c s ih =>
      cases b with
      | nil => simp [kernelStrncmp, common]
      | cons d t =>
          by_cases hcd : c = d
          · simp [kernelStrncmp, common, hcd, ih]
          · simp [kernelStrncmp, common, hcd]

/-- The code finds no difference when one of the strings ends first. -/
theorem kernelStrncmpSized_eq_zero (hsize : size ≠ 0) :
    kernelStrncmpSized a b size = 0 ↔ common a b = a.length ∨ common a b = b.length := by
  rw [kernelStrncmpSized_eq hsize, kernelStrncmp_eq_zero]

end Common

/-- The call goes to the file system that the model of the descriptors notes
for the file. -/
theorem fopenCall_fs (filepath : List UInt8) : (fopenCall filepath).fs = pathFs filepath := by
  rw [fopenCall, pathFs, kernelStrncmpSized_eq (by decide)]
  split <;> rfl

/-! ## The law -/

/-- Exactly the paths below `/dev/` go to the devices, and any other path
reaches the root as it is. -/
structure Dispatches (filepath : List UInt8) : Prop where
  dev : (fopenCall filepath).fs = .devfs ↔ devPrefix <+: filepath
  root : ¬ devPrefix <+: filepath → fopenCall filepath = ⟨.rootfs, some filepath⟩

/-- The convention of `strncmp`. -/
def ComparesFirst (a b : List UInt8) (size : UInt32) : Prop :=
  kernelStrncmpSized a b size = 0 ↔ a.take size.toNat = b.take size.toNat

theorem common_eq_length_iff {a b : List UInt8} : common a b = a.length ↔ a <+: b := by
  rw [List.prefix_iff_eq_take]
  constructor
  · intro h
    have htake : a.take a.length = b.take a.length := take_eq_iff.mpr (Or.inr h.ge)
    rwa [List.take_length] at htake
  · intro h
    have htake : a.take a.length = b.take a.length := by rwa [List.take_length]
    rcases take_eq_iff.mp htake with rfl | hle
    · exact common_self a
    · exact Nat.le_antisymm (common_le a b).1 hle

theorem common_comm (a b : List UInt8) : common a b = common b a := by
  fun_induction common a b with
  | case1 a s t ih => rw [common, if_pos rfl, ih]
  | case2 a s b t h => rw [common, if_neg fun hba => h hba.symm]
  | case3 s t hnil =>
      match s, t with
      | [], t => cases t <;> rfl
      | c :: s, [] => rfl
      | c :: s, d :: t => exact absurd rfl (hnil c s d t rfl)

theorem dispatches_iff (filepath : List UInt8) :
    Dispatches filepath ↔ ¬ (filepath <+: devPrefix ∧ filepath ≠ devPrefix) := by
  have hzero : kernelStrncmpSized filepath devPrefix 5 = 0
      ↔ filepath <+: devPrefix ∨ devPrefix <+: filepath := by
    rw [kernelStrncmpSized_eq_zero (by decide), common_eq_length_iff, common_comm,
      common_eq_length_iff]
  have hfs : (fopenCall filepath).fs = .devfs
      ↔ filepath <+: devPrefix ∨ devPrefix <+: filepath := by
    rw [← hzero, fopenCall]
    split
    case isTrue h => simp [h]
    case isFalse h => simp [h]
  constructor
  · rintro ⟨hdev, -⟩ ⟨hpre, hne⟩
    have hpre' := hdev.mp (hfs.mpr (Or.inl hpre))
    exact hne (hpre.eq_of_length (Nat.le_antisymm hpre.length_le hpre'.length_le))
  · intro h
    have hiff : (filepath <+: devPrefix ∨ devPrefix <+: filepath) ↔ devPrefix <+: filepath := by
      constructor
      · rintro (hpre | hpre)
        · by_contra hnot
          exact h ⟨hpre, fun heq => hnot (heq ▸ List.prefix_refl filepath)⟩
        · exact hpre
      · exact Or.inr
    refine ⟨hfs.trans hiff, fun hnot => ?_⟩
    rw [fopenCall, if_neg fun h0 => hnot (hiff.mp (hzero.mp h0))]

/-- `fs_fopen` takes the right file system for every path that is not cut
off inside `"/dev/"`; `kernel_strncmp` keeps to the convention when the two
strings are equal, when one ends first and not before `size`, and when they
differ in a character before `size`. -/
theorem fopen_strncmp_law (filepath a b : List UInt8) (size : UInt32) (hsize : size ≠ 0) :
    (Dispatches filepath ↔ ¬ (filepath <+: devPrefix ∧ filepath ≠ devPrefix))
    ∧ (ComparesFirst a b size
        ↔ a = b
          ∨ (a <+: b ∧ size.toNat ≤ a.length)
          ∨ (b <+: a ∧ size.toNat ≤ b.length)
          ∨ (common a b < a.length ∧ common a b < b.length ∧ common a b < size.toNat)) := by
  refine ⟨dispatches_iff filepath, ?_⟩
  obtain ⟨ha, hb⟩ := common_le a b
  rw [ComparesFirst, kernelStrncmpSized_eq_zero hsize, take_eq_iff, ← common_eq_length_iff,
    ← common_eq_length_iff, common_comm b a]
  by_cases hab : a = b
  · subst hab
    simp [common_self]
  · simp only [hab, false_or]
    omega

/-- `"/dev/t"`, and what it has in common with `"/dev/"`. -/
theorem fopen_strncmp_law_tty :
    (5 : UInt32) ≠ 0 ∧ Dispatches [0x2F, 0x64, 0x65, 0x76, 0x2F, 0x74]
      ∧ ComparesFirst [0x2F, 0x64, 0x65, 0x76, 0x2F, 0x74] devPrefix 5 := by
  have hsize : (5 : UInt32) ≠ 0 := by decide
  obtain ⟨hdispatch, hcompare⟩ := fopen_strncmp_law [0x2F, 0x64, 0x65, 0x76, 0x2F, 0x74]
    [0x2F, 0x64, 0x65, 0x76, 0x2F, 0x74] devPrefix 5 hsize
  exact ⟨hsize, hdispatch.mpr (by decide),
    hcompare.mpr (Or.inr (Or.inr (Or.inl ⟨by decide, by decide⟩)))⟩

/-- The root directory is opened as a device, with a path behind its NUL; and
`a` compares equal to `ab`. -/
theorem fopen_strncmp_law_root :
    ¬ Dispatches [0x2F] ∧ fopenCall [0x2F] = ⟨.devfs, none⟩
      ∧ ¬ ComparesFirst [0x61] [0x61, 0x62] 2 := by
  refine ⟨fun h => ?_, by decide, fun h => ?_⟩
  · exact absurd (h.dev.mp (by decide)) (by decide)
  · exact absurd (h.mp (by decide)) (by decide)

end Csos
