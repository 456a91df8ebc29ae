import Mathlib.Algebra.Ring.Nat
import Mathlib.Data.List.TakeWhile
import Mathlib.Logic.Function.Basic

/-!
# The PCI devices (`kernel32/device/pci.c`)

`pci_init` reads the vendor of every function of every device on every bus
and writes those it finds to the table `devices`, in a slot that
`pci_alloc_device` gives it. That function takes a slot for free when its
address is not NULL, so it always gives the first one; and the scan of a
device ends at the first function number that is not there.

`Enumerated` is what the table is for. A space of addresses is enumerated
when it has one function at most, with the number 0.
-/

namespace Csos

/-! ## `pci.h` -/

/-- `PCI_DEVICE_NR`, `PCI_CONF_VENDOR` and `PCI_CONF_REVISION`. -/
abbrev pciDeviceNr : Nat := 10
abbrev pciConfVendor : UInt8 := 0x0
abbrev pciConfRevision : UInt8 := 0x8

/-- `pci_device_t`, without the registers of its memory. -/
structure PciDevice where
  bus : UInt8
  dev : UInt8
  func : UInt8
  vendorid : UInt16
  deviceid : UInt16
  revision : UInt8
  classcode : UInt32
deriving DecidableEq

/-- What `kernel_memset` leaves of a device. -/
def PciDevice.zero : PciDevice := ⟨0, 0, 0, 0, 0, 0, 0⟩

/-- The table `devices`. -/
abbrev PciDevices := Nat → PciDevice

/-- The word that `PCI_CONF_DATA` has for each one in `PCI_CONF_ADDR`. -/
abbrev PciSpace := UInt32 → UInt32

/-- A bus, a device on it, and a function of this. -/
abbrev PciFunc := Fin 256 × Fin 32 × Fin 8

/-! ## `pci.c` -/

def pciAddr (bus dev func addr : UInt8) : UInt32 :=
  (0x80000000 : UInt32) ||| ((bus &&& 0xff).toUInt32 <<< 16) ||| ((dev &&& 0x1f).toUInt32 <<< 11)
    ||| ((func &&& 0x7).toUInt32 <<< 8) ||| addr.toUInt32

def pciInl (space : PciSpace) (bus dev func addr : UInt8) : UInt32 :=
  space (pciAddr bus dev func addr)

/-- The test of the address `&devices[i]`. -/
def slotNonNull (_ : Nat) : Bool := true

def pciAllocDevice : Option Nat := (List.range pciDeviceNr).find? slotNonNull

/-- The vendor in the first word of a function. -/
def pciVendor (value : UInt32) : UInt16 := (value &&& 0xFFFF).toUInt16

/-- The loop of `pci_check_device`, over the function numbers. -/
def pciCheckLoop (space : PciSpace) (bus dev : UInt8) :
    List (Fin 8) → PciDevices → Option PciDevices
  | [], devices => some devices
  | f :: fs, devices =>
      let func := UInt8.ofNat f
      let value := pciInl space bus dev func pciConfVendor
      let vendorid := pciVendor value
      if vendorid = 0 ∨ vendorid = 0xFFFF then some devices
      else do
        let slot ← pciAllocDevice
        let device := { devices slot with bus, dev, func, vendorid }
        let device := { device with deviceid := (value >>> 16).toUInt16 }
        let value := pciInl space bus dev func pciConfRevision
        let device := { device with classcode := value >>> 8, revision := (value &&& 0xFF).toUInt8 }
        pciCheckLoop space bus dev fs (Function.update devices slot device)

def pciCheckDevice (space : PciSpace) (devices : PciDevices) (bus : Fin 256) (dev : Fin 32) :
    Option PciDevices :=
  pciCheckLoop space (UInt8.ofNat bus) (UInt8.ofNat dev) (List.finRange 8) devices

def pciEnumDevice (space : PciSpace) (devices : PciDevices) : Option PciDevices :=
  (List.finRange 256).foldlM (fun devices bus =>
    (List.finRange 32).foldlM (fun devices dev => pciCheckDevice space devices bus dev) devices)
    devices

def pciInit (space : PciSpace) : Option PciDevices := pciEnumDevice space fun _ => .zero

/-- `pci_find_device`: the slot, and NULL is `none`. -/
def pciFindDevice (devices : PciDevices) (vendorid deviceid : UInt16) : Option Nat :=
  (List.range pciDeviceNr).find? fun i =>
    (devices i).vendorid = vendorid ∧ (devices i).deviceid = deviceid

/-! ## Addresses -/

theorem or_eq_add {a b i : Nat} (ha : 2 ^ i ∣ a) (hb : b < 2 ^ i) : a ||| b = a + b := by
  obtain ⟨k, rfl⟩ := ha
  rw [Nat.mul_comm, ← Nat.shiftLeft_eq, Nat.shiftLeft_add_eq_or_of_lt hb]

theorem pciAddr_toNat (bus dev func addr : UInt8) : (pciAddr bus dev func addr).toNat
    = 2 ^ 31 + bus.toNat * 2 ^ 16 + dev.toNat % 32 * 2 ^ 11 + func.toNat % 8 * 2 ^ 8
        + addr.toNat := by
  have hbus := bus.toNat_lt
  have hdev := Nat.mod_lt dev.toNat (by decide : 32 > 0)
  have hfunc := Nat.mod_lt func.toNat (by decide : 8 > 0)
  have haddr := addr.toNat_lt
  have hfields : (bus &&& 0xff).toUInt32.toNat = bus.toNat
      ∧ (dev &&& 0x1f).toUInt32.toNat = dev.toNat % 32
      ∧ (func &&& 0x7).toUInt32.toNat = func.toNat % 8 := by
    simp only [UInt8.toNat_toUInt32, UInt8.toNat_and]
    refine ⟨?_, Nat.and_two_pow_sub_one_eq_mod _ 5, Nat.and_two_pow_sub_one_eq_mod _ 3⟩
    exact (Nat.and_two_pow_sub_one_eq_mod _ 8).trans (Nat.mod_eq_of_lt hbus)
  obtain ⟨hbus', hdev', hfunc'⟩ := hfields
  have hshift : ∀ (x n : UInt32) (k : Nat), n.toNat = k → k < 32 → x.toNat * 2 ^ k < 2 ^ 32 →
      (x <<< n).toNat = x.toNat * 2 ^ k := by
    rintro x n k rfl hk hlt
    rw [UInt32.toNat_shiftLeft, Nat.mod_eq_of_lt hk, Nat.shiftLeft_eq, Nat.mod_eq_of_lt hlt]
  simp only [pciAddr, UInt32.toNat_or, UInt8.toNat_toUInt32]
  rw [hshift _ _ 16 rfl (by decide) (by omega), hshift _ _ 11 rfl (by decide) (by omega),
    hshift _ _ 8 rfl (by decide) (by omega), hbus', hdev', hfunc',
    show UInt32.toNat 0x80000000 = 2 ^ 31 from rfl,
    or_eq_add (a := 2 ^ 31) (i := 31) (Nat.dvd_refl _) (by omega),
    or_eq_add (a := 2 ^ 31 + bus.toNat * 2 ^ 16) (i := 16) (by omega) (by omega),
    or_eq_add (a := 2 ^ 31 + bus.toNat * 2 ^ 16 + dev.toNat % 32 * 2 ^ 11) (i := 11) (by omega)
      (by omega),
    or_eq_add (i := 8) (by omega) (by omega)]

/-- Every word has its own address. -/
theorem pciAddr_inj {p q : PciFunc} {a b : UInt8}
    (h : pciAddr (UInt8.ofNat p.1) (UInt8.ofNat p.2.1) (UInt8.ofNat p.2.2) a
      = pciAddr (UInt8.ofNat q.1) (UInt8.ofNat q.2.1) (UInt8.ofNat q.2.2) b) : p = q ∧ a = b := by
  have heq := congrArg UInt32.toNat h
  simp only [pciAddr_toNat, UInt8.toNat_ofNat'] at heq
  have ha := a.toNat_lt
  have hb := b.toNat_lt
  have hbus := p.1.isLt
  have hbus' := q.1.isLt
  have hdev := p.2.1.isLt
  have hdev' := q.2.1.isLt
  refine ⟨Prod.ext (Fin.ext ?_) (Prod.ext (Fin.ext ?_) (Fin.ext ?_)), UInt8.toNat_inj.mp ?_⟩
  all_goals omega

/-! ## The functions that are there -/

namespace PciSpace

variable (space : PciSpace)

/-- The word of a function at `addr`. -/
def word (p : PciFunc) (addr : UInt8) : UInt32 :=
  pciInl space (UInt8.ofNat p.1) (UInt8.ofNat p.2.1) (UInt8.ofNat p.2.2) addr

def vendorOf (p : PciFunc) : UInt16 := pciVendor (space.word p pciConfVendor)

def deviceOf (p : PciFunc) : UInt16 := (space.word p pciConfVendor >>> 16).toUInt16

/-- The function is present. -/
def Present (p : PciFunc) : Prop := ¬ (space.vendorOf p = 0 ∨ space.vendorOf p = 0xFFFF)

instance (p : PciFunc) : Decidable (space.Present p) := inferInstanceAs (Decidable (¬ _))

/-- The slot tells of the function. -/
structure Records (device : PciDevice) (p : PciFunc) : Prop where
  bus : device.bus = UInt8.ofNat p.1
  dev : device.dev = UInt8.ofNat p.2.1
  func : device.func = UInt8.ofNat p.2.2
  vendorid : device.vendorid = space.vendorOf p
  deviceid : device.deviceid = space.deviceOf p

/-- A present function has these ids. -/
def HasIds (vendorid deviceid : UInt16) (p : PciFunc) : Prop :=
  space.Present p ∧ space.vendorOf p = vendorid ∧ space.deviceOf p = deviceid

/-- Every present function is in one slot of the table, and is found there
by its ids when one with these is present. Nothing is found of ids that
are not there, except for those of an unused slot. -/
structure Enumerated (devices : PciDevices) : Prop where
  recorded : ∀ p, space.Present p →
    ∃! i, i < pciDeviceNr ∧ space.Records (devices i) p
  found : ∀ vendorid deviceid, (∃ p, space.HasIds vendorid deviceid p)
    ↔ ∃ i p, pciFindDevice devices vendorid deviceid = some i
        ∧ space.HasIds vendorid deviceid p ∧ space.Records (devices i) p
  missing : ∀ vendorid deviceid, ¬ (vendorid = 0 ∧ deviceid = 0) →
    (¬ ∃ p, space.HasIds vendorid deviceid p) →
      pciFindDevice devices vendorid deviceid = none

/-- What `pci_check_device` writes for a function. -/
def record (p : PciFunc) : PciDevice where
  bus := UInt8.ofNat p.1
  dev := UInt8.ofNat p.2.1
  func := UInt8.ofNat p.2.2
  vendorid := space.vendorOf p
  deviceid := space.deviceOf p
  revision := (space.word p pciConfRevision &&& 0xFF).toUInt8
  classcode := space.word p pciConfRevision >>> 8

/-- The functions of a device that the scan comes to. -/
def scanned (bus : Fin 256) (dev : Fin 32) : List PciFunc :=
  ((List.finRange 8).map fun func => (bus, dev, func)).takeWhile fun p => space.Present p

/-- The functions that the scan comes to. -/
def allScanned : List PciFunc :=
  (List.finRange 256).flatMap fun bus => (List.finRange 32).flatMap fun dev => space.scanned bus dev

/-! ## The scan -/

variable {space} {devices : PciDevices} {p q : PciFunc}

theorem pciAllocDevice_eq : pciAllocDevice = some 0 := rfl

/-- Each function goes to the first slot. -/
theorem pciCheckLoop_eq (bus : Fin 256) (dev : Fin 32) (fs : List (Fin 8))
    (devices : PciDevices) :
    pciCheckLoop space (UInt8.ofNat bus) (UInt8.ofNat dev) fs devices
      = some (((fs.map fun func => (bus, dev, func)).takeWhile fun p => space.Present p).foldl
          (fun devices p => Function.update devices 0 (space.record p)) devices) := by
  induction fs generalizing devices with
  | nil => rfl
  | cons f fs ih =>
      rw [pciCheckLoop, List.map_cons, List.takeWhile_cons]
      by_cases h : space.Present (bus, dev, f)
      · refine (if_neg h).trans ?_
        rw [pciAllocDevice_eq, if_pos (decide_eq_true h), List.foldl_cons, ← ih]
        rfl
      · refine (if_pos (not_not.mp h)).trans ?_
        rw [if_neg (by simpa using h)]
        rfl

theorem pciInit_eq :
    pciInit space = some (space.allScanned.foldl
      (fun devices p => Function.update devices 0 (space.record p)) fun _ => .zero) := by
  have hdevice : ∀ devices bus dev, pciCheckDevice space devices bus dev
      = pure ((space.scanned bus dev).foldl
          (fun devices p => Function.update devices 0 (space.record p)) devices) :=
    fun devices bus dev => pciCheckLoop_eq bus dev _ devices
  simp only [pciInit, pciEnumDevice, hdevice, List.foldlM_pure, allScanned, List.foldl_flatMap]
  rfl

/-- The last one stays there. -/
theorem foldl_record (ps : List PciFunc) (devices : PciDevices) :
    ps.foldl (fun devices p => Function.update devices 0 (space.record p)) devices
      = match ps.getLast? with
        | some p => Function.update devices 0 (space.record p)
        | none => devices := by
  induction ps generalizing devices with
  | nil => rfl
  | cons p ps ih =>
      rw [List.foldl_cons, ih, List.getLast?_cons]
      cases ps.getLast? with
      | none => rfl
      | some q => exact Function.update_idem _ _ _

theorem mem_allScanned : p ∈ space.allScanned ↔ p ∈ space.scanned p.1 p.2.1 := by
  simp only [allScanned, List.mem_flatMap, List.mem_finRange, true_and]
  constructor
  · rintro ⟨bus, dev, h⟩
    obtain ⟨func, -, rfl⟩ := List.mem_map.mp ((List.takeWhile_sublist _).subset h)
    exact h
  · exact fun h => ⟨p.1, p.2.1, h⟩

/-- The scan of a device begins at the function 0. -/
theorem scanned_cons (bus : Fin 256) (dev : Fin 32) :
    ∃ fs, space.scanned bus dev
      = if space.Present (bus, dev, 0) then (bus, dev, 0) :: fs else [] := by
  rw [scanned, List.finRange_succ, List.map_cons, List.takeWhile_cons]
  exact ⟨_, if_congr decide_eq_true_iff rfl rfl⟩

theorem present_of_scanned (h : p ∈ space.allScanned) :
    space.Present p ∧ space.Present (p.1, p.2.1, 0) := by
  rw [mem_allScanned] at h
  have hpresent := List.mem_takeWhile_imp h
  refine ⟨of_decide_eq_true hpresent, ?_⟩
  obtain ⟨fs, hscan⟩ := space.scanned_cons p.1 p.2.1
  by_contra hnot
  rw [hscan, if_neg hnot] at h
  cases h

theorem mem_scanned (h : space.Present p) (hzero : p.2.2 = 0) : p ∈ space.allScanned := by
  obtain ⟨bus, dev, func⟩ := p
  obtain rfl : func = 0 := hzero
  obtain ⟨fs, hscan⟩ := space.scanned_cons bus dev
  rw [mem_allScanned, hscan, if_pos h]
  exact List.mem_cons_self

/-! ## The table -/

/-- The table with a function in its first slot, or empty. -/
def tableOf (space : PciSpace) (o : Option PciFunc) : PciDevices := fun i =>
  if i = 0 then (o.map space.record).getD .zero else .zero

theorem pciInit_last : pciInit space = some (space.tableOf space.allScanned.getLast?) := by
  rw [pciInit_eq, foldl_record]
  cases space.allScanned.getLast? with
  | none => exact congrArg some (funext fun i => (ite_self _).symm)
  | some p => exact congrArg some (funext fun i => Function.update_apply _ _ _ i)

/-- A slot is unused or has the function. -/
theorem tableOf_cases (o : Option PciFunc) (i : Nat) :
    space.tableOf o i = .zero ∨ ∃ p, o = some p ∧ space.tableOf o i = space.record p := by
  rw [tableOf]
  by_cases hi : i = 0
  · rw [if_pos hi]
    cases o with
    | none => exact Or.inl rfl
    | some p => exact Or.inr ⟨p, rfl, rfl⟩
  · rw [if_neg hi]
    exact Or.inl rfl

theorem records_inj {device : PciDevice} (hp : space.Records device p)
    (hq : space.Records device q) : p = q := by
  have hbus := congrArg UInt8.toNat (hp.bus.symm.trans hq.bus)
  have hdev := congrArg UInt8.toNat (hp.dev.symm.trans hq.dev)
  have hfunc := congrArg UInt8.toNat (hp.func.symm.trans hq.func)
  simp only [UInt8.toNat_ofNat'] at hbus hdev hfunc
  refine Prod.ext (Fin.ext ?_) (Prod.ext (Fin.ext ?_) (Fin.ext ?_))
  all_goals omega

/-- An unused slot tells of no function. -/
theorem not_records_zero (h : space.Present p) : ¬ space.Records .zero p :=
  fun hrecords => h (Or.inl hrecords.vendorid.symm)

theorem records_tableOf {o : Option PciFunc} {i : Nat} (hp : space.Present p) :
    space.Records (space.tableOf o i) p ↔ i = 0 ∧ o = some p := by
  rw [tableOf]
  by_cases hi : i = 0
  · rw [if_pos hi, and_iff_right hi]
    cases o with
    | none => exact iff_of_false (not_records_zero hp) nofun
    | some q =>
        rw [Option.some.injEq]
        refine ⟨fun h => records_inj ⟨rfl, rfl, rfl, rfl, rfl⟩ h, ?_⟩
        rintro rfl
        exact ⟨rfl, rfl, rfl, rfl, rfl⟩
  · rw [if_neg hi]
    exact iff_of_false (not_records_zero hp) fun h => hi h.1

/-- A table of one slot is enough for the function in it. -/
theorem enumerated_iff_last {o : Option PciFunc} (ho : ∀ p, o = some p → space.Present p) :
    space.Enumerated (space.tableOf o) ↔ ∀ p, space.Present p → o = some p := by
  constructor
  · intro h p hp
    obtain ⟨i, ⟨-, hrecords⟩, -⟩ := h.recorded p hp
    exact ((records_tableOf hp).mp hrecords).2
  · intro h
    refine ⟨fun p hp => ⟨0, ⟨by decide, (records_tableOf hp).mpr ⟨rfl, h p hp⟩⟩, ?_⟩, ?_, ?_⟩
    · rintro i ⟨-, hrecords⟩
      exact ((records_tableOf hp).mp hrecords).1
    · intro vendorid deviceid
      constructor
      · rintro ⟨p, hp, rfl, rfl⟩
        have hrecords := (records_tableOf hp).mpr ⟨rfl, h p hp⟩
        refine ⟨0, p, ?_, ⟨hp, rfl, rfl⟩, hrecords⟩
        exact List.find?_cons_of_pos (decide_eq_true ⟨hrecords.vendorid, hrecords.deviceid⟩)
      · rintro ⟨i, p, -, hids, -⟩
        exact ⟨p, hids⟩
    · intro vendorid deviceid hused hnone
      refine List.find?_eq_none.mpr fun i _ hi => ?_
      obtain ⟨hvendor, hdevice⟩ := of_decide_eq_true hi
      rcases tableOf_cases o i with hzero | ⟨p, hp, hrecord⟩
      · rw [hzero] at hvendor hdevice
        exact hused ⟨hvendor.symm, hdevice.symm⟩
      · rw [hrecord] at hvendor hdevice
        exact hnone ⟨p, ho p hp, hvendor, hdevice⟩

/-- The scan finds all there is when there is one function at most, with
the number 0. -/
theorem last_iff : (∀ p, space.Present p → space.allScanned.getLast? = some p)
    ↔ ∀ p, space.Present p → p.2.2 = 0 ∧ ∀ q, space.Present q → q = p := by
  constructor
  · intro h p hp
    have hlast := h p hp
    have honly : ∀ q, space.Present q → q = p := fun q hq =>
      Option.some.inj ((h q hq).symm.trans hlast)
    have hzero := honly _ (present_of_scanned (List.mem_of_getLast? hlast)).2
    exact ⟨congrArg (fun p => p.2.2) hzero.symm, honly⟩
  · intro h p hp
    obtain ⟨hzero, honly⟩ := h p hp
    cases hlast : space.allScanned.getLast? with
    | none =>
        have hmem := mem_scanned hp hzero
        rw [List.getLast?_eq_none_iff.mp hlast] at hmem
        cases hmem
    | some q =>
        rw [honly q (present_of_scanned (List.mem_of_getLast? hlast)).1]

/-- After `pci_init` the table has every function, exactly when there is
one at most and it has the number 0. -/
theorem pciInit_enumerated_iff (space : PciSpace) :
    (∃ devices, pciInit space = some devices ∧ space.Enumerated devices)
      ↔ ∀ p, space.Present p → p.2.2 = 0 ∧ ∀ q, space.Present q → q = p := by
  have hpresent : ∀ p, space.allScanned.getLast? = some p → space.Present p := fun p hp =>
    (present_of_scanned (List.mem_of_getLast? hp)).1
  rw [← last_iff, ← enumerated_iff_last hpresent]
  simp only [pciInit_last, Option.some.injEq, exists_eq_left']

/-- The address of the first word of a function. -/
def vendorAddr (p : PciFunc) : UInt32 :=
  pciAddr (UInt8.ofNat p.1) (UInt8.ofNat p.2.1) (UInt8.ofNat p.2.2) pciConfVendor

theorem vendorAddr_inj (h : vendorAddr p = vendorAddr q) : p = q := (pciAddr_inj h).1

def hostBridge : PciFunc := (0, 0, 0)

def networkCard : PciFunc := (0, 3, 0)

/-- A host bridge, and a network card on the same bus. -/
def twoFunctions : PciSpace := fun a =>
  if a = vendorAddr hostBridge then 0x12378086
  else if a = vendorAddr networkCard then 0x100E8086
  else 0xFFFFFFFF

theorem twoFunctions_present (h : twoFunctions.Present p) : p = hostBridge ∨ p = networkCard := by
  by_contra hnot
  rw [not_or] at hnot
  have hword : twoFunctions (vendorAddr p) = 0xFFFFFFFF := by
    rw [twoFunctions, if_neg fun heq => hnot.1 (vendorAddr_inj heq),
      if_neg fun heq => hnot.2 (vendorAddr_inj heq)]
  refine h (Or.inr ?_)
  rw [vendorOf, word, pciInl]
  exact congrArg pciVendor hword

/-- The card takes the slot of the bridge. -/
theorem pciInit_enumerated_fails :
    ¬ ∀ (space : PciSpace) (fs : List PciFunc), fs.length ≤ pciDeviceNr →
      (∀ p, space.Present p → p ∈ fs) →
        ∃ devices, pciInit space = some devices ∧ space.Enumerated devices := by
  intro hall
  have hmem : ∀ p, twoFunctions.Present p → p ∈ [hostBridge, networkCard] := by
    intro p hp
    rcases twoFunctions_present hp with rfl | rfl
    · exact List.mem_cons_self
    · exact List.mem_cons_of_mem _ List.mem_cons_self
  obtain ⟨devices, hinit, henum⟩ := hall twoFunctions _ (by decide) hmem
  rw [pciInit_last] at hinit
  obtain rfl := Option.some.inj hinit
  have hlast := (enumerated_iff_last fun p hp =>
    (present_of_scanned (List.mem_of_getLast? hp)).1).mp henum
  have hsame := (hlast hostBridge (by decide)).symm.trans (hlast networkCard (by decide))
  exact absurd (Option.some.inj hsame) (by decide)

end PciSpace

end Csos
