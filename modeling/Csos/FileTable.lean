import Csos.Lib.Run
import Csos.Lib.Counter
import Csos.SocketCalls
import Mathlib.Data.Finset.Card

/-!
# The descriptors of a task (`kernel32/fs.c`, `kernel32/task/tss.c`)

`fs_fopen`, `fs_dup` and `fs_fclose` of one task, with its `ftb` and the
`ref` of each `FILE`. A call of `fs_fopen` says which `FILE` the task
passes and whether the file system opens it.

`fs_fclose` never gives a slot back, and it takes the file system of the
root whatever the file is. The law of the table therefore holds only in
runs that close nothing.
-/

namespace Csos

open Lib

/-- `kernel_strncmp` of two strings, up to the NUL of the shorter one:
`size` is not counted down. -/
def kernelStrncmp : List UInt8 → List UInt8 → Int32
  | [], _ | _, [] => 0
  | a :: s, b :: t => if a = b then kernelStrncmp s t else 1

/-- `devfs` and `rootfs`. -/
inductive MountedFs where
  | devfs
  | rootfs
deriving DecidableEq

/-- `"/dev/"`. -/
def devPrefix : List UInt8 := [0x2F, 0x64, 0x65, 0x76, 0x2F]

/-- The file system that `fs_fopen` takes. -/
def pathFs (filepath : List UInt8) : MountedFs :=
  if kernelStrncmp filepath devPrefix = 0 then .devfs else .rootfs

/-- `ftb` of the task, `fd` and `ref` of each `FILE`, the file system that
opened it, and the calls of `fclose` of the file systems so far. -/
structure FdTable (F : Type) where
  ftb : Nat → Option F
  fd : F → Int
  ref : F → Int32
  opener : F → Option MountedFs
  fclosed : List (MountedFs × F)

inductive FdCall (F : Type) where
  | fopen (file : F) (filepath : List UInt8) (opens : Bool)
  | dup (fd : Int)
  | fclose (fd : Int)

namespace FdTable

variable {F : Type} [DecidableEq F]

omit [DecidableEq F] in
/-- `tss_task_file`. -/
def taskFile (s : FdTable F) (fd : Int) : Option F :=
  if 0 ≤ fd ∧ fd < taskFtSize then s.ftb fd.toNat else none

/-- The first slot that is NULL. -/
def freeSlot (s : FdTable F) : Option Nat :=
  (List.range taskFtSize).find? fun i => (s.ftb i).isNone

/-- `tss_task_alloc_fd`. -/
def taskAllocFd (s : FdTable F) (file : F) : FdTable F × Int :=
  match s.freeSlot with
  | none => (s, -1)
  | some i => ({ s with ftb := Function.update s.ftb i (some file) }, i)

def fsFopen (s : FdTable F) (file : F) (filepath : List UInt8) (opens : Bool) : FdTable F × Int :=
  if opens then
    let (s', fd) := s.taskAllocFd file
    ({ s' with
        fd := Function.update s'.fd file fd
        ref := Function.update s'.ref file 1
        opener := Function.update s'.opener file (some (pathFs filepath)) }, fd)
  else (s, -1)

def fsFclose (s : FdTable F) (fd : Int) : FdTable F × Int :=
  match s.taskFile fd with
  | none => (s, -1)
  | some file =>
      if s.ref file = 1 then ({ s with fclosed := s.fclosed ++ [(.rootfs, file)] }, 0)
      else ({ s with ref := Function.update s.ref file (s.ref file - 1) }, 0)

def fsDup (s : FdTable F) (fd : Int) : FdTable F × Int :=
  if fd < 0 ∨ fd ≥ taskFtSize then (s, -1)
  else
    match s.taskFile fd with
    | none => (s, -1)
    | some file =>
        let (s', nfd) := s.taskAllocFd file
        if nfd ≥ 0 then ({ s' with ref := Function.update s'.ref file (s'.ref file + 1) }, nfd)
        else (s', -1)

def call (s : FdTable F) : FdCall F → FdTable F × Int
  | .fopen file filepath opens => s.fsFopen file filepath opens
  | .dup fd => s.fsDup fd
  | .fclose fd => s.fsFclose fd

def step (s : FdTable F) (c : FdCall F) : Option (FdTable F) := some (s.call c).1

/-- A task that has opened nothing. -/
def start : FdTable F where
  ftb := fun _ => none
  fd := fun _ => 0
  ref := fun _ => 0
  opener := fun _ => none
  fclosed := []

/-! ## The law -/

/-- The slots that point to the file. -/
def slots (s : FdTable F) (file : F) : Finset Nat :=
  (Finset.range taskFtSize).filter fun i => s.ftb i = some file

/-- `ref` of an open file is the number of its slots. -/
def RefLaw (s : FdTable F) : Prop :=
  ∀ file, (s.slots file).card ≠ 0 → (s.ref file).toInt = (s.slots file).card

/-- What a call has to do, besides keeping `ref`: a descriptor that was
closed is free, and the file system that opened the file is told when it
was the last one, and only then. -/
def CloseLaw (s s' : FdTable F) (fd : Int) : Prop :=
  ∀ file, s.taskFile fd = some file → s'.taskFile fd = none
    ∧ ∀ fs, s.opener file = some fs →
      s'.fclosed = if (s.slots file).card = 1 then s.fclosed ++ [(fs, file)] else s.fclosed

/-- The call obeys the law. -/
def Correctly (s : FdTable F) (c : FdCall F) : Prop :=
  (s.call c).1.RefLaw
    ∧ match c with
      | .fclose fd => (s.call c).2 = 0 → s.CloseLaw (s.call c).1 fd
      | .fopen .. | .dup _ => (s.call c).1.fclosed = s.fclosed

/-- A close names no descriptor in use, and an open that succeeds takes a
`FILE` without one; with a full table it may also have just one. -/
def Meets (s : FdTable F) : FdCall F → Prop
  | .fopen file _ opens => opens = true →
      (s.slots file).card = 0 ∨ (s.slots file).card = 1 ∧ s.freeSlot = none
  | .dup _ => True
  | .fclose fd => s.taskFile fd = none

/-! ## Slots -/

variable {s : FdTable F} {file f : F} {i : Nat} {fd : Int}

omit [DecidableEq F] in
theorem freeSlot_spec (h : s.freeSlot = some i) : i < taskFtSize ∧ s.ftb i = none := by
  have hmem := List.mem_of_find?_eq_some h
  have hnone := List.find?_some h
  exact ⟨List.mem_range.mp hmem, Option.isNone_iff_eq_none.mp hnone⟩

/-- A free slot is taken. -/
theorem card_slots_update (hi : i < taskFtSize) (hfree : s.ftb i = none) (file f : F) :
    (slots { s with ftb := Function.update s.ftb i (some file) } f).card
      = (s.slots f).card + if f = file then 1 else 0 := by
  have hnot : i ∉ s.slots f := by
    rw [slots, Finset.mem_filter, hfree]
    rintro ⟨-, ⟨⟩⟩
  have hmem : ∀ j, Function.update s.ftb i (some file) j = some f
      ↔ j = i ∧ file = f ∨ j ≠ i ∧ s.ftb j = some f := by
    intro j
    by_cases hj : j = i
    · subst hj
      simp
    · simp [hj]
  split
  case isTrue hf =>
    subst hf
    rw [← Finset.card_insert_of_notMem hnot]
    refine congrArg Finset.card (Finset.ext fun j => ?_)
    rw [slots, Finset.mem_filter, Finset.mem_range, Finset.mem_insert, slots, Finset.mem_filter,
      Finset.mem_range]
    dsimp only
    rw [hmem j]
    grind
  case isFalse hf =>
    rw [Nat.add_zero]
    refine congrArg Finset.card (Finset.ext fun j => ?_)
    rw [slots, Finset.mem_filter, slots, Finset.mem_filter]
    dsimp only
    rw [hmem j]
    grind

omit [DecidableEq F] in
theorem taskFile_slot (h : s.taskFile fd = some file) :
    0 ≤ fd ∧ fd < taskFtSize ∧ s.ftb fd.toNat = some file := by
  unfold taskFile at h
  split at h
  case isTrue hfd => exact ⟨hfd.1, hfd.2, h⟩
  case isFalse => cases h

theorem card_slots_pos (h : s.taskFile fd = some file) : 0 < (s.slots file).card := by
  obtain ⟨h0, hlt, hslot⟩ := taskFile_slot h
  refine Finset.card_pos.mpr ⟨fd.toNat, Finset.mem_filter.mpr ⟨Finset.mem_range.mpr ?_, hslot⟩⟩
  have hsize : taskFtSize = 32 := rfl
  omega

theorem card_slots_le (s : FdTable F) (file : F) : (s.slots file).card ≤ 32 :=
  (Finset.card_filter_le _ _).trans (Finset.card_range taskFtSize).le

/-! ## The calls -/

omit [DecidableEq F] in
/-- What `tss_task_alloc_fd` can do. -/
theorem taskAllocFd_cases (s : FdTable F) (file : F) :
    (s.freeSlot = none ∧ s.taskAllocFd file = (s, -1))
      ∨ ∃ i, s.freeSlot = some i ∧ i < taskFtSize ∧ s.ftb i = none
        ∧ s.taskAllocFd file
          = ({ s with ftb := Function.update s.ftb i (some file) }, (i : Int)) := by
  unfold taskAllocFd
  cases hs : s.freeSlot with
  | none => exact Or.inl ⟨rfl, rfl⟩
  | some i =>
      obtain ⟨hlt, hnone⟩ := freeSlot_spec hs
      exact Or.inr ⟨i, rfl, hlt, hnone, rfl⟩

/-- The `ref` of one file is set, and the law still holds of the others. -/
theorem refLaw_update (h : s.RefLaw) (s' : FdTable F) (r : Int32)
    (hslots : ∀ f, f ≠ file → (s'.slots f).card = (s.slots f).card)
    (href : s'.ref = Function.update s.ref file r) :
    s'.RefLaw ↔ ((s'.slots file).card ≠ 0 → r.toInt = (s'.slots file).card) := by
  have hself : s'.ref file = r := by rw [href, Function.update_self]
  refine ⟨fun h' hne => hself ▸ h' file hne, fun h' f hne => ?_⟩
  by_cases hf : f = file
  · subst hf
    rw [hself]
    exact h' hne
  · rw [href, Function.update_of_ne hf, hslots f hf]
    exact h f (hslots f hf ▸ hne)

/-- The file is opened and `fd` is what `tss_task_alloc_fd` returned. -/
def opened (s : FdTable F) (file : F) (filepath : List UInt8) (fd : Int) : FdTable F :=
  { s with
    fd := Function.update s.fd file fd
    ref := Function.update s.ref file 1
    opener := Function.update s.opener file (some (pathFs filepath)) }

/-- An open that succeeds is correct exactly when the file has one slot
then, or none. -/
theorem refLaw_opened {filepath : List UInt8} (h : s.RefLaw) (s' : FdTable F)
    (href : s'.ref = s.ref)
    (hslots : ∀ f, f ≠ file → (s'.slots f).card = (s.slots f).card) :
    (s'.opened file filepath fd).RefLaw ↔ (s'.slots file).card ≤ 1 := by
  have hone : (1 : Int32).toInt = 1 := rfl
  rw [refLaw_update h (s'.opened file filepath fd) 1 hslots (by rw [opened, href]), hone]
  change ((s'.slots file).card ≠ 0 → (1 : Int) = (s'.slots file).card) ↔ _
  omega

theorem correctly_fopen {filepath : List UInt8} {opens : Bool} (h : s.RefLaw) :
    s.Correctly (.fopen file filepath opens) ↔ s.Meets (.fopen file filepath opens) := by
  unfold Correctly Meets
  cases opens with
  | false => exact iff_of_true ⟨h, rfl⟩ nofun
  | true =>
      rcases taskAllocFd_cases s file with ⟨hfull, ha⟩ | ⟨i, hfree, hlt, hnone, ha⟩
      · have hcall : s.call (.fopen file filepath true) = (s.opened file filepath (-1), -1) := by
          change s.fsFopen file filepath true = _
          rw [fsFopen, if_pos rfl, ha]
          rfl
        rw [hcall, refLaw_opened h s rfl fun _ _ => rfl, hfull]
        change ((s.slots file).card ≤ 1 ∧ s.fclosed = s.fclosed) ↔ _
        simp only [and_true, forall_const]
        omega
      · have hcall : s.call (.fopen file filepath true)
            = (opened { s with ftb := Function.update s.ftb i (some file) } file filepath i,
              (i : Int)) := by
          change s.fsFopen file filepath true = _
          rw [fsFopen, if_pos rfl, ha]
          rfl
        have hcard := card_slots_update hlt hnone file
        rw [hcall, refLaw_opened h { s with ftb := Function.update s.ftb i (some file) } rfl
          fun f hf => by rw [hcard f, if_neg hf, Nat.add_zero], hcard file, if_pos rfl, hfree]
        change ((s.slots file).card + 1 ≤ 1 ∧ s.fclosed = s.fclosed) ↔ _
        simp only [and_true, forall_const, reduceCtorEq, and_false, or_false]
        omega

/-- What `fs_dup` can do. -/
theorem fsDup_cases (s : FdTable F) (fd : Int) :
    s.fsDup fd = (s, -1) ∨ ∃ file i, s.taskFile fd = some file ∧ i < taskFtSize ∧ s.ftb i = none
      ∧ s.fsDup fd = ({ s with
          ftb := Function.update s.ftb i (some file)
          ref := Function.update s.ref file (s.ref file + 1) }, (i : Int)) := by
  unfold fsDup
  split
  case isTrue => exact Or.inl rfl
  case isFalse =>
    cases hfile : s.taskFile fd with
    | none => exact Or.inl rfl
    | some file =>
        dsimp only
        rcases taskAllocFd_cases s file with ⟨-, ha⟩ | ⟨i, -, hlt, hnone, ha⟩
        · rw [ha]
          exact Or.inl rfl
        · rw [ha]
          exact Or.inr ⟨file, i, rfl, hlt, hnone, if_pos (Int.natCast_nonneg i)⟩

theorem correctly_dup (h : s.RefLaw) : s.Correctly (.dup fd) := by
  unfold Correctly
  change (s.fsDup fd).1.RefLaw ∧ (s.fsDup fd).1.fclosed = s.fclosed
  rcases fsDup_cases s fd with hd | ⟨file, i, hfile, hlt, hnone, hd⟩
  · rw [hd]
    exact ⟨h, rfl⟩
  · rw [hd]
    have hcard := card_slots_update hlt hnone file
    have hpos := card_slots_pos hfile
    have hle := card_slots_le s file
    have href := h file (Nat.ne_of_gt hpos)
    have hsucc := toInt_add_one (c := s.ref file) (by omega)
    refine ⟨(refLaw_update h _ (s.ref file + 1) (fun f hf => ?_) rfl).mpr fun _ => ?_, rfl⟩
    · exact (hcard f).trans (by rw [if_neg hf, Nat.add_zero])
    · refine Eq.trans ?_ (congrArg (Nat.cast : Nat → Int) (hcard file).symm)
      rw [if_pos rfl]
      omega

/-- A close never changes the slots. -/
theorem fsFclose_taskFile (hfile : s.taskFile fd = some file) :
    (s.fsFclose fd).2 = 0 ∧ (s.fsFclose fd).1.taskFile fd = some file := by
  unfold fsFclose
  rw [hfile]
  dsimp only
  split <;> exact ⟨rfl, hfile⟩

/-- No close of a descriptor in use is correct. -/
theorem correctly_fclose (h : s.RefLaw) : s.Correctly (.fclose fd) ↔ s.Meets (.fclose fd) := by
  unfold Correctly Meets
  change ((s.fsFclose fd).1.RefLaw ∧ ((s.fsFclose fd).2 = 0 → _)) ↔ _
  cases hfile : s.taskFile fd with
  | none =>
      have hclose : s.fsFclose fd = (s, -1) := by
        unfold fsFclose
        rw [hfile]
      rw [hclose]
      exact iff_of_true ⟨h, fun hr => absurd hr (by decide : ¬ (-1 : Int) = 0)⟩ hfile
  | some file =>
      obtain ⟨hresult, hkept⟩ := fsFclose_taskFile hfile
      refine iff_of_false (fun hc => ?_) fun hn => by cases hfile.symm.trans hn
      cases hkept.symm.trans (hc.2 hresult file hfile).1

/-! ## Every run -/

/-- In a run of a task that has opened nothing yet, all calls obey the law
if and only if each of them meets the condition. -/
theorem fdTable_law (calls : List (FdCall F)) :
    Always step Correctly (start : FdTable F) calls ↔ Always step Meets start calls := by
  have hiff : ∀ (s : FdTable F) c, s.RefLaw → (s.Correctly c ↔ s.Meets c) := fun s c h => by
    cases c with
    | fopen file filepath opens => exact correctly_fopen h
    | dup fd => exact iff_of_true (correctly_dup h) trivial
    | fclose fd => exact correctly_fclose h
  refine always_congr_of_invariant (B := fun _ _ => True) (I := RefLaw)
    (fun s c s' h _ hm hs => ?_) (fun s c h _ => hiff s c h) (fun file hne => absurd ?_ hne)
    (always_of_forall fun _ _ => trivial)
  · obtain rfl := Option.some.inj hs
    exact ((hiff s c h).mpr hm).1
  · refine Finset.card_eq_zero.mpr (Finset.filter_eq_empty_iff.mpr fun i _ => ?_)
    exact (Option.some_ne_none file).symm

/-- The shell opens its terminal and closes it again. -/
theorem fdTable_law_fails :
    ¬ ∀ calls : List (FdCall Unit), Always step Correctly start calls := by
  intro h
  have hclose := ((h [.fopen () [0x2F, 0x64, 0x65, 0x76, 0x2F, 0x74, 0x74, 0x79, 0x30] true,
    .fclose 0]).2 _ rfl).1
  have hfree := (hclose.2 (by decide) () (by decide)).1
  exact absurd hfree (by decide)

end FdTable

end Csos
