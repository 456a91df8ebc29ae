import Csos.Lib.Run
import Mathlib.Logic.Function.Basic
import Mathlib.Data.List.Count

/-!
# The device table (`kernel32/device.c`)

`device_open` and `device_close`. One loop of `device_open` looks both for
a free slot and for the slot of the device, and takes whichever comes
first. What the driver's `open` returns and leaves in `dev->data` is an
argument of the call.
-/

namespace Csos

open Lib

/-- `DEVICE_TABLE_SIZE`. -/
abbrev deviceTableSize : Nat := 1024

/-- The drivers of `dht`. -/
inductive DeviceHandle where
  | tty
  | disk
deriving DecidableEq

/-- `DEV_TTY` and `DEV_DISK`. -/
def DeviceHandle.major : DeviceHandle → Int32
  | .tty => 1
  | .disk => 2

/-- The loop over `dht`. -/
def findHandle (major : Int32) : Option DeviceHandle :=
  if DeviceHandle.tty.major = major then some .tty
  else if DeviceHandle.disk.major = major then some .disk
  else none

theorem findHandle_major (h : DeviceHandle) : findHandle h.major = some h := by
  cases h <;> decide

theorem major_of_findHandle {major : Int32} {h : DeviceHandle} (hf : findHandle major = some h) :
    h.major = major := by
  unfold findHandle at hf
  split at hf
  case isTrue hm =>
    obtain rfl := Option.some.inj hf
    exact hm
  case isFalse =>
    split at hf
    case isTrue hm =>
      obtain rfl := Option.some.inj hf
      exact hm
    case isFalse => cases hf

/-- `device_t`; `D` is what `data` points to. -/
structure DeviceT (D : Type) where
  handle : Option DeviceHandle
  minor : Int32
  data : Option D
  opc : Int32
deriving DecidableEq

namespace DeviceT

variable {D : Type}

/-- `kernel_memset(dev, 0, sizeof(device_t))`. -/
def zero : DeviceT D := { handle := none, minor := 0, data := none, opc := 0 }

/-- A slot that a device has. -/
def Live (dev : DeviceT D) : Prop := dev.opc ≠ 0

instance (dev : DeviceT D) : Decidable dev.Live := inferInstanceAs (Decidable (_ ≠ _))

/-- `dev->handle->major == major && dev->minor == minor`. -/
def Is (dev : DeviceT D) (major minor : Int32) : Prop :=
  dev.handle.map DeviceHandle.major = some major ∧ dev.minor = minor

instance (dev : DeviceT D) (major minor : Int32) : Decidable (dev.Is major minor) :=
  inferInstanceAs (Decidable (_ ∧ _))

end DeviceT

/-- How the first loop of `device_open` ends. -/
inductive DeviceSearch where
  | free (idev : Nat)
  | found (idev : Nat)
  | full

section Table

variable {D : Type}

/-- The first loop of `device_open`, with `n` slots left. -/
def deviceSearch (dt : Nat → DeviceT D) (major minor : Int32) : Nat → Nat → DeviceSearch
  | 0, _ => .full
  | n + 1, idev =>
      if (dt idev).opc = 0 then .free idev
      else if (dt idev).Is major minor then .found idev
      else deviceSearch dt major minor n (idev + 1)

/-- What `handle->open(dev)` returns and leaves in `dev->data`. -/
structure OpenAnswer (D : Type) where
  err : Int32
  data : Option D

/-- The table, the result, and whether a driver was called. -/
structure Opened (D : Type) where
  dt : Nat → DeviceT D
  result : Int
  called : Bool

def deviceOpen (dt : Nat → DeviceT D) (major minor : Int32) (answer : OpenAnswer D) : Opened D :=
  match deviceSearch dt major minor deviceTableSize 0 with
  | .found idev =>
      { dt := Function.update dt idev { dt idev with opc := (dt idev).opc + 1 }
        result := idev
        called := false }
  | .full => { dt, result := -1, called := false }
  | .free idev =>
      match findHandle major with
      | none => { dt, result := -1, called := false }
      | some handle =>
          let dev := { dt idev with minor, data := answer.data, handle := some handle }
          if answer.err = 0 then
            { dt := Function.update dt idev { dev with opc := 1 }, result := idev, called := true }
          else { dt := Function.update dt idev dev, result := -1, called := true }

def verifyDeviceId (dt : Nat → DeviceT D) (deviceId : Int) : Bool :=
  0 ≤ deviceId ∧ deviceId < deviceTableSize ∧ (dt deviceId.toNat).handle ≠ none

/-- The driver and the device that `device_read` and `device_write` go on
with; without one they return -1. -/
def deviceTarget (dt : Nat → DeviceT D) (deviceId : Int) : Option (DeviceHandle × DeviceT D) :=
  if verifyDeviceId dt deviceId then
    (dt deviceId.toNat).handle.map fun handle => (handle, dt deviceId.toNat)
  else none

def deviceClose (dt : Nat → DeviceT D) (deviceId : Int) : Nat → DeviceT D :=
  if verifyDeviceId dt deviceId then
    let dev := dt deviceId.toNat
    let opc := dev.opc - 1
    Function.update dt deviceId.toNat (if opc = 0 then .zero else { dev with opc })
  else dt

/-! ## The search -/

variable {dt : Nat → DeviceT D} {major minor : Int32} {i : Nat}

/-- A slot that the loop passes over. -/
def Passed (dt : Nat → DeviceT D) (major minor : Int32) (i : Nat) : Prop :=
  (dt i).Live ∧ ¬ (dt i).Is major minor

/-- Every way in which the loop can end. -/
theorem deviceSearch_cases (dt : Nat → DeviceT D) (major minor : Int32) (n i : Nat) :
    (∃ j, deviceSearch dt major minor n i = .free j ∧ i ≤ j ∧ j < i + n ∧ ¬ (dt j).Live
        ∧ ∀ k, i ≤ k → k < j → Passed dt major minor k)
      ∨ (∃ j, deviceSearch dt major minor n i = .found j ∧ i ≤ j ∧ j < i + n ∧ (dt j).Live
        ∧ (dt j).Is major minor ∧ ∀ k, i ≤ k → k < j → Passed dt major minor k)
      ∨ (deviceSearch dt major minor n i = .full
        ∧ ∀ k, i ≤ k → k < i + n → Passed dt major minor k) := by
  induction n generalizing i with
  | zero => exact Or.inr (Or.inr ⟨rfl, fun k hk hk' => absurd hk' (by omega)⟩)
  | succ n ih =>
      unfold deviceSearch
      by_cases hopc : (dt i).opc = 0
      · rw [if_pos hopc]
        exact Or.inl ⟨i, rfl, Nat.le_refl i, by omega, not_not.mpr hopc, fun k hk hk' => by omega⟩
      rw [if_neg hopc]
      by_cases his : (dt i).Is major minor
      · rw [if_pos his]
        exact Or.inr (Or.inl ⟨i, rfl, Nat.le_refl i, by omega, hopc, his,
          fun k hk hk' => by omega⟩)
      rw [if_neg his]
      -- the slot is passed over, and so are those that the rest passes over
      have hpass : ∀ j, (∀ k, i + 1 ≤ k → k < j → Passed dt major minor k) →
          ∀ k, i ≤ k → k < j → Passed dt major minor k := by
        intro j hj k hk hk'
        rcases Nat.eq_or_lt_of_le hk with rfl | hlt
        · exact ⟨hopc, his⟩
        · exact hj k hlt hk'
      rcases ih (i + 1) with ⟨j, hs, hle, hlt, hfree, hall⟩ | ⟨j, hs, hle, hlt, hlive, hj, hall⟩
        | ⟨hs, hall⟩
      · exact Or.inl ⟨j, hs, by omega, by omega, hfree, hpass j hall⟩
      · exact Or.inr (Or.inl ⟨j, hs, by omega, by omega, hlive, hj, hpass j hall⟩)
      · refine Or.inr (Or.inr ⟨hs, fun k hk hk' => ?_⟩)
        exact hpass (i + 1 + n) hall k hk (by omega)

end Table

end Csos
