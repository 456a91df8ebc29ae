import Csos.Device
import Csos.Lib.Counter

/-!
# The law of the device table

What `device_open` and `device_close` are for, over every run: one live
slot for each device that is open, with the number of its opens. The loop
of `device_open` stops at the first free slot, whether or not the device
has a slot behind it, and leaves the slot half written when the driver
refuses. The law holds exactly as long as neither happens.
-/

namespace Csos

open Lib

variable {D : Type}

/-- The table, and the opens that were not closed yet: the id that was
returned, and the device. -/
structure DeviceRun (D : Type) where
  dt : Nat → DeviceT D
  opens : List (Nat × Int32 × Int32)

/-- A close names the open that it matches. -/
inductive DeviceCall (D : Type) where
  | open (major minor : Int32) (answer : OpenAnswer D)
  | close (deviceId : Nat) (major minor : Int32)

namespace DeviceRun

def opened (r : DeviceRun D) (major minor : Int32) (o : Opened D) : DeviceRun D where
  dt := o.dt
  opens := if 0 ≤ o.result then (o.result.toNat, major, minor) :: r.opens else r.opens

def closed (r : DeviceRun D) (deviceId : Nat) (major minor : Int32) : DeviceRun D where
  dt := deviceClose r.dt deviceId
  opens := r.opens.erase (deviceId, major, minor)

def step (r : DeviceRun D) : DeviceCall D → Option (DeviceRun D)
  | .open major minor answer => some (r.opened major minor (deviceOpen r.dt major minor answer))
  | .close deviceId major minor => some (r.closed deviceId major minor)

/-- Each close matches an earlier successful open. -/
def Fits (r : DeviceRun D) : DeviceCall D → Prop
  | .open .. => True
  | .close deviceId major minor => (deviceId, major, minor) ∈ r.opens

instance (r : DeviceRun D) : ∀ c, Decidable (r.Fits c)
  | .open .. => isTrue trivial
  | .close .. => inferInstanceAs (Decidable (_ ∈ _))

/-- The slot `i` is that of the open device. -/
def Has (r : DeviceRun D) (i : Nat) (major minor : Int32) : Prop :=
  i < deviceTableSize ∧ (r.dt i).Live ∧ (r.dt i).Is major minor

instance (r : DeviceRun D) (i : Nat) (major minor : Int32) : Decidable (r.Has i major minor) :=
  inferInstanceAs (Decidable (_ ∧ _))

/-- The opens of a device that were not closed yet. -/
def count (r : DeviceRun D) (major minor : Int32) : Nat :=
  r.opens.countP fun o => o.2 = (major, minor)

/-- The law in one state. -/
structure DeviceLaw (r : DeviceRun D) : Prop where
  /-- at most one slot -/
  one : ∀ i j major minor, r.Has i major minor → r.Has j major minor → i = j
  /-- `opc` is the number of opens minus closes -/
  opc : ∀ i major minor, r.Has i major minor → ((r.dt i).opc.toInt : Int) = r.count major minor
  /-- what is open has a slot -/
  held : ∀ i major minor, (i, major, minor) ∈ r.opens → r.Has i major minor
  /-- `device_read` and `device_write` only reach drivers of live slots -/
  reach : ∀ deviceId, deviceTarget r.dt deviceId ≠ none →
    0 ≤ deviceId ∧ deviceId.toNat < deviceTableSize ∧ (r.dt deviceId.toNat).Live

/-- The law of one `device_open`. -/
structure OpenLaw (r : DeviceRun D) (major minor : Int32) (o : Opened D) : Prop where
  /-- an open device keeps its id, and its driver is not called -/
  again : ∀ i, r.Has i major minor → o.result = i ∧ o.called = false
  /-- a failure leaves the table as it was -/
  failed : o.result < 0 → o.dt = r.dt

/-- The call obeys the law and leads to a state that does. -/
def Correctly (r : DeviceRun D) : DeviceCall D → Prop
  | .open major minor answer =>
      OpenLaw r major minor (deviceOpen r.dt major minor answer)
        ∧ DeviceLaw (r.opened major minor (deviceOpen r.dt major minor answer))
  | .close deviceId major minor => DeviceLaw (r.closed deviceId major minor)

/-- There is no free slot before that of the device, whose `opc` can be
raised, and if the driver is called, it succeeds. -/
structure OpenMeets (r : DeviceRun D) (major minor : Int32) (answer : OpenAnswer D) : Prop where
  slot : ∀ i < deviceTableSize, r.Has i major minor →
    (∀ j < i, (r.dt j).Live) ∧ (r.dt i).opc ≠ Int32.maxValue
  driver : (∀ i < deviceTableSize, ¬ r.Has i major minor) →
    (∃ j < deviceTableSize, ¬ (r.dt j).Live) → findHandle major ≠ none → answer.err = 0

def Meets (r : DeviceRun D) : DeviceCall D → Prop
  | .open major minor answer => r.OpenMeets major minor answer
  | .close .. => True

/-- The empty table. -/
def empty : DeviceRun D where
  dt := fun _ => .zero
  opens := []

/-! ## The invariant -/

/-- The law, and what keeps it: a slot has a driver exactly when it is
live. -/
structure DeviceInv (r : DeviceRun D) : Prop extends DeviceLaw r where
  driver : ∀ i < deviceTableSize, (r.dt i).Live ↔ (r.dt i).handle ≠ none

variable {r : DeviceRun D} {major minor M m : Int32} {i j id : Nat}

theorem deviceTarget_ne_none {dt : Nat → DeviceT D} {deviceId : Int} :
    deviceTarget dt deviceId ≠ none
      ↔ 0 ≤ deviceId ∧ deviceId.toNat < deviceTableSize ∧ (dt deviceId.toNat).handle ≠ none := by
  unfold deviceTarget verifyDeviceId
  by_cases h : 0 ≤ deviceId ∧ deviceId < deviceTableSize ∧ (dt deviceId.toNat).handle ≠ none
  · rw [if_pos (decide_eq_true h)]
    obtain ⟨h0, hlt, hh⟩ := h
    refine ⟨fun _ => ⟨h0, by omega, hh⟩, fun _ hm => hh ?_⟩
    exact Option.map_eq_none_iff.mp hm
  · rw [if_neg (by rwa [decide_eq_true_eq])]
    refine ⟨fun hn => absurd rfl hn, fun ⟨h0, hlt, hh⟩ => absurd ⟨h0, ?_, hh⟩ h⟩
    omega

theorem reach_of_driver
    (h : ∀ i < deviceTableSize, (r.dt i).Live ↔ (r.dt i).handle ≠ none) (deviceId : Int)
    (ht : deviceTarget r.dt deviceId ≠ none) :
    0 ≤ deviceId ∧ deviceId.toNat < deviceTableSize ∧ (r.dt deviceId.toNat).Live := by
  obtain ⟨h0, hlt, hh⟩ := deviceTarget_ne_none.mp ht
  exact ⟨h0, hlt, (h _ hlt).mpr hh⟩

theorem deviceInv_empty : DeviceInv (empty : DeviceRun D) where
  one := fun _ _ _ _ h => absurd rfl h.2.1
  opc := fun _ _ _ h => absurd rfl h.2.1
  held := nofun
  reach := reach_of_driver fun _ _ => ⟨fun h => absurd rfl h, fun h => absurd rfl h⟩
  driver := fun _ _ => ⟨fun h => absurd rfl h, fun h => absurd rfl h⟩

/-- A slot names one device. -/
theorem Is.unique {dev : DeviceT D} (h : dev.Is major minor) (h' : dev.Is M m) :
    (M, m) = (major, minor) := by
  obtain ⟨hh, hm⟩ := h
  obtain ⟨hh', hm'⟩ := h'
  rw [← hm, ← hm', Option.some.inj (hh'.symm.trans hh)]

theorem Has.handle (h : r.Has i major minor) : ∃ handle, (r.dt i).handle = some handle
    ∧ findHandle major = some handle := by
  obtain ⟨handle, hh, hm⟩ := Option.map_eq_some_iff.mp h.2.2.1
  exact ⟨handle, hh, hm ▸ findHandle_major handle⟩

/-- One slot is written. -/
theorem DeviceInv.update {dev : DeviceT D} {opens : List (Nat × Int32 × Int32)} (h : DeviceInv r)
    (hj : j < deviceTableSize) (hdriver : dev.Live ↔ dev.handle ≠ none)
    (hone : dev.Live → ∀ M m, dev.Is M m → ∀ i ≠ j, ¬ r.Has i M m)
    (hopc : dev.Live → ∀ M m, dev.Is M m →
      (dev.opc.toInt : Int) = opens.countP fun o => o.2 = (M, m))
    (hother : ∀ i ≠ j, ∀ M m, r.Has i M m →
      (opens.countP fun o => o.2 = (M, m)) = r.count M m)
    (hheld : ∀ i M m, (i, M, m) ∈ opens →
      i = j ∧ dev.Live ∧ dev.Is M m ∨ i ≠ j ∧ r.Has i M m) :
    DeviceInv { dt := Function.update r.dt j dev, opens } := by
  have hself : Function.update r.dt j dev j = dev := Function.update_self ..
  have hne : ∀ i, i ≠ j → Function.update r.dt j dev i = r.dt i :=
    fun i hi => Function.update_of_ne hi ..
  have hhas : ∀ i M m, DeviceRun.Has { dt := Function.update r.dt j dev, opens } i M m ↔
      i = j ∧ dev.Live ∧ dev.Is M m ∨ i ≠ j ∧ r.Has i M m := by
    intro i M m
    by_cases hi : i = j
    · subst hi
      simp [Has, hj]
    · simp [Has, hi]
  have hdr : ∀ i < deviceTableSize, (Function.update r.dt j dev i).Live
      ↔ (Function.update r.dt j dev i).handle ≠ none := by
    intro i hi
    by_cases hij : i = j
    · rw [hij, hself]
      exact hdriver
    · rw [hne i hij]
      exact h.driver i hi
  refine ⟨⟨?_, ?_, fun i M m hmem => (hhas i M m).mpr (hheld i M m hmem), reach_of_driver hdr⟩, hdr⟩
  · intro i k M m hi hk
    rcases (hhas i M m).mp hi with ⟨rfl, hl, his⟩ | ⟨hij, hi'⟩
    · rcases (hhas k M m).mp hk with ⟨rfl, -, -⟩ | ⟨hkj, hk'⟩
      · rfl
      · exact absurd hk' (hone hl M m his k hkj)
    · rcases (hhas k M m).mp hk with ⟨rfl, hl, his⟩ | ⟨hkj, hk'⟩
      · exact absurd hi' (hone hl M m his i hij)
      · exact h.one i k M m hi' hk'
  · intro i M m hi
    rcases (hhas i M m).mp hi with ⟨rfl, hl, his⟩ | ⟨hij, hi⟩
    · dsimp only
      rw [hself]
      exact hopc hl M m his
    · dsimp only
      rw [hne i hij]
      exact (h.opc i M m hi).trans (congrArg _ (hother i hij M m hi).symm)

/-! ## `device_open` -/

theorem count_opened (r : DeviceRun D) (major minor : Int32) {o : Opened D} (ho : 0 ≤ o.result)
    (M m : Int32) :
    (r.opened major minor o).count M m
      = r.count M m + if (major, minor) = (M, m) then 1 else 0 := by
  unfold count opened
  rw [if_pos ho, List.countP_cons]
  simp

/-- The device is open and the loop found its slot. -/
theorem DeviceInv.found (h : DeviceInv r) (hj : r.Has j major minor)
    (hmax : (r.dt j).opc ≠ Int32.maxValue) :
    DeviceInv (r.opened major minor
      { dt := Function.update r.dt j { r.dt j with opc := (r.dt j).opc + 1 }
        result := j
        called := false }) := by
  obtain ⟨hlt, hlive, hj'⟩ := id hj
  have hopc := h.opc j major minor hj
  have hpos := toInt_pos_of_ne_zero hopc hlive
  have hsucc := toInt_add_one (toInt_lt_max hmax)
  have hlive' : (r.dt j).opc + 1 ≠ 0 := fun he => by
    rw [he, Int32.toInt_zero] at hsucc
    omega
  have hcount := count_opened r major minor
    (o := { dt := Function.update r.dt j { r.dt j with opc := (r.dt j).opc + 1 }, result := j,
            called := false }) (Int.natCast_nonneg j)
  have hother : ∀ M m, (r.dt j).Is M m → (M, m) = (major, minor) := fun M m => Is.unique hj'
  refine h.update hlt ?_ (fun _ M m his i hi hhas => ?_) (fun _ M m his => ?_)
    (fun i hi M m hhas => ?_) (fun i M m hmem => ?_)
  · exact iff_of_true hlive' ((h.driver j hlt).mp hlive)
  · obtain ⟨rfl, rfl⟩ := Prod.mk.inj (hother M m his)
    exact hi (h.one i j _ _ hhas hj)
  · obtain ⟨rfl, rfl⟩ := Prod.mk.inj (hother M m his)
    refine Eq.trans ?_ (congrArg (Nat.cast : Nat → Int) (hcount M m).symm)
    rw [if_pos rfl]
    change ((r.dt j).opc + 1).toInt = _
    omega
  · refine (hcount M m).trans ?_
    rw [if_neg, Nat.add_zero]
    rintro ⟨⟩
    exact hi (h.one i j _ _ hhas hj)
  · have hmem : (i, M, m) ∈ (j, major, minor) :: r.opens := hmem
    rcases List.mem_cons.mp hmem with he | hmem
    · cases he
      exact Or.inl ⟨rfl, hlive', hj'⟩
    · have hhas := h.held i M m hmem
      by_cases hi : i = j
      · subst hi
        exact Or.inl ⟨rfl, hlive', hhas.2.2⟩
      · exact Or.inr ⟨hi, hhas⟩

/-- The device is not open and the driver takes it. -/
theorem DeviceInv.taken {answer : OpenAnswer D} {handle : DeviceHandle} (h : DeviceInv r)
    (hj : j < deviceTableSize) (hfree : ¬ (r.dt j).Live) (hh : findHandle major = some handle)
    (hnew : ∀ i, ¬ r.Has i major minor) :
    DeviceInv (r.opened major minor
      { dt := Function.update r.dt j
          { r.dt j with minor, data := answer.data, handle := some handle, opc := 1 }
        result := j
        called := true }) := by
  let dev : DeviceT D :=
    { r.dt j with minor, data := answer.data, handle := some handle, opc := 1 }
  have his : dev.Is major minor := ⟨congrArg some (major_of_findHandle hh), rfl⟩
  have hlive : dev.Live := (by decide : (1 : Int32) ≠ 0)
  have hcount := count_opened r major minor
    (o := { dt := Function.update r.dt j dev, result := j, called := true }) (Int.natCast_nonneg j)
  have hzero : r.count major minor = 0 := by
    refine List.countP_eq_zero.mpr fun o ho he => ?_
    obtain ⟨i, M, m⟩ := o
    obtain ⟨rfl, rfl⟩ := Prod.mk.inj (of_decide_eq_true he)
    exact hnew i (h.held i _ _ ho)
  refine h.update hj ?_ (fun _ M m his' i _ hhas => ?_) (fun _ M m his' => ?_)
    (fun i _ M m hhas => ?_) (fun i M m hmem => ?_)
  · exact iff_of_true hlive (Option.some_ne_none handle)
  · obtain ⟨rfl, rfl⟩ := Prod.mk.inj (Is.unique his his')
    exact hnew i hhas
  · obtain ⟨rfl, rfl⟩ := Prod.mk.inj (Is.unique his his')
    refine Eq.trans ?_ (congrArg (Nat.cast : Nat → Int) (hcount M m).symm)
    rw [if_pos rfl, hzero]
    rfl
  · refine (hcount M m).trans ?_
    rw [if_neg, Nat.add_zero]
    rintro ⟨⟩
    exact hnew i hhas
  · have hmem : (i, M, m) ∈ (j, major, minor) :: r.opens := hmem
    rcases List.mem_cons.mp hmem with he | hmem
    · cases he
      exact Or.inl ⟨rfl, hlive, his⟩
    · have hhas := h.held i M m hmem
      refine Or.inr ⟨fun he => ?_, hhas⟩
      subst he
      exact hfree hhas.2.1

/-- What is to be shown of each way in which an open can go. -/
def Verdict (r : DeviceRun D) (major minor : Int32) (answer : OpenAnswer D) (o : Opened D) : Prop :=
  (OpenLaw r major minor o ∧ DeviceLaw (r.opened major minor o) ↔ r.OpenMeets major minor answer)
    ∧ (r.OpenMeets major minor answer → DeviceInv (r.opened major minor o))

variable {answer : OpenAnswer D} {o : Opened D}

theorem Verdict.yes (hlaw : OpenLaw r major minor o) (hinv : DeviceInv (r.opened major minor o))
    (hm : r.OpenMeets major minor answer) : r.Verdict major minor answer o :=
  ⟨iff_of_true ⟨hlaw, hinv.toDeviceLaw⟩ hm, fun _ => hinv⟩

theorem Verdict.no (hc : ¬ (OpenLaw r major minor o ∧ DeviceLaw (r.opened major minor o)))
    (hm : ¬ r.OpenMeets major minor answer) : r.Verdict major minor answer o :=
  ⟨iff_of_false hc hm, fun h => absurd h hm⟩

/-- The call fails early. -/
theorem verdict_refused (h : DeviceInv r) (hnew : ∀ i, ¬ r.Has i major minor)
    (hm : (∃ j < deviceTableSize, ¬ (r.dt j).Live) → findHandle major = none) :
    r.Verdict major minor answer { dt := r.dt, result := -1, called := false } :=
  .yes ⟨fun i hi => absurd hi (hnew i), fun _ => rfl⟩ h
    ⟨fun i _ hi => absurd hi (hnew i), fun _ hfree hn => absurd (hm hfree) hn⟩

/-- The device has a slot behind a free one, and its driver is called
again. -/
theorem verdict_again (hi : r.Has i major minor) (hj : j < i) (hfree : ¬ (r.dt j).Live)
    (hcalled : o.called = true) : r.Verdict major minor answer o :=
  .no (fun hc => by cases hcalled.symm.trans (hc.1.again i hi).2)
    fun hm => hfree ((hm.slot i hi.1 hi).1 j hj)

/-- The driver of a new device succeeds. -/
theorem verdict_taken {handle : DeviceHandle} (h : DeviceInv r) (hj : j < deviceTableSize)
    (hfree : ¬ (r.dt j).Live) (hh : findHandle major = some handle)
    (hnew : ∀ i, ¬ r.Has i major minor) (herr : answer.err = 0) :
    r.Verdict major minor answer
      { dt := Function.update r.dt j
          { r.dt j with minor, data := answer.data, handle := some handle, opc := 1 }
        result := j
        called := true } :=
  .yes ⟨fun i hi => absurd hi (hnew i), fun hr => absurd hr (Int.not_lt.mpr (Int.natCast_nonneg j))⟩
    (h.taken hj hfree hh hnew) ⟨fun i _ hi => absurd hi (hnew i), fun _ _ _ => herr⟩

/-- The driver of a new device refuses, and its handle stays in the slot. -/
theorem verdict_left {handle : DeviceHandle} (h : DeviceInv r) (hj : j < deviceTableSize)
    (hfree : ¬ (r.dt j).Live) (hh : findHandle major = some handle)
    (hnew : ∀ i, ¬ r.Has i major minor) (herr : answer.err ≠ 0) :
    r.Verdict major minor answer
      { dt := Function.update r.dt j
          { r.dt j with minor, data := answer.data, handle := some handle }
        result := -1
        called := true } := by
  refine .no (fun hc => ?_) fun hm => ?_
  · have hsame := congrFun (hc.1.failed (by decide : (-1 : Int) < 0)) j
    dsimp only at hsame
    rw [Function.update_self] at hsame
    have hnone : (r.dt j).handle = none :=
      not_not.mp fun hne => hfree ((h.driver j hj).mpr hne)
    cases (congrArg DeviceT.handle hsame).trans hnone
  · exact herr (hm.driver (fun i _ => hnew i) ⟨j, hj, hfree⟩ (by rw [hh]; exact nofun))

/-- The loop found the slot of the device. -/
theorem verdict_found (h : DeviceInv r) (hj : r.Has j major minor)
    (hbefore : ∀ k < j, (r.dt k).Live) :
    r.Verdict major minor answer
      { dt := Function.update r.dt j { r.dt j with opc := (r.dt j).opc + 1 }
        result := j
        called := false } := by
  by_cases hmax : (r.dt j).opc = Int32.maxValue
  · refine .no (fun hc => ?_) fun hm => (hm.slot j hj.1 hj).2 hmax
    have hopc := hc.2.opc j major minor ⟨hj.1, ?_, ?_⟩
    · -- one more than the largest `int`
      change ((Function.update r.dt j _ j).opc.toInt : Int) = _ at hopc
      rw [Function.update_self] at hopc
      dsimp only at hopc
      rw [hmax] at hopc
      have hneg : (Int32.maxValue + 1).toInt < 0 := by decide
      rw [hopc] at hneg
      exact absurd hneg (Int.not_lt.mpr (Int.natCast_nonneg _))
    · change (Function.update r.dt j _ j).Live
      rw [Function.update_self]
      change (r.dt j).opc + 1 ≠ 0
      rw [hmax]
      decide
    · change (Function.update r.dt j _ j).Is major minor
      rw [Function.update_self]
      exact hj.2.2
  · refine .yes ⟨fun i hi => ?_, fun hr => ?_⟩ (h.found hj hmax)
      ⟨fun i _ hi => ?_, fun hnew => absurd hj (hnew j hj.1)⟩
    · rw [h.one i j _ _ hi hj]
      exact ⟨rfl, rfl⟩
    · exact absurd hr (Int.not_lt.mpr (Int.natCast_nonneg j))
    · obtain rfl := h.one i j _ _ hi hj
      exact ⟨hbefore, hmax⟩

/-- Without the refusal of a driver, and with no free slot before that of
the device, an open is correct; otherwise it is not. -/
theorem open_verdict (h : DeviceInv r) :
    r.Verdict major minor answer (deviceOpen r.dt major minor answer) := by
  have hnot : ∀ k, Passed r.dt major minor k → ¬ r.Has k major minor := fun k hk hh => hk.2 hh.2.2
  rcases deviceSearch_cases r.dt major minor deviceTableSize 0 with
    ⟨j, hs, -, hlt, hfree, hall⟩ | ⟨j, hs, -, hlt, hlive, hj, hall⟩ | ⟨hs, hall⟩
  · rw [Nat.zero_add] at hlt
    unfold deviceOpen
    rw [hs]
    cases hh : findHandle major with
    | none =>
        refine verdict_refused h (fun i hi => ?_) fun _ => hh
        obtain ⟨handle, -, hm⟩ := hi.handle
        cases hh.symm.trans hm
    | some handle =>
        dsimp only
        by_cases hnew : ∀ i, ¬ r.Has i major minor
        case neg =>
          obtain ⟨i, hi⟩ := not_forall_not.mp hnew
          have hji : j < i := by
            rcases Nat.lt_trichotomy i j with hlt' | rfl | hgt
            · exact absurd hi (hnot i (hall i (Nat.zero_le i) hlt'))
            · exact absurd hi.2.1 hfree
            · exact hgt
          refine verdict_again hi hji hfree ?_
          split <;> rfl
        case pos =>
          split
          case isTrue herr => exact verdict_taken h hlt hfree hh hnew herr
          case isFalse herr => exact verdict_left h hlt hfree hh hnew herr
  · rw [Nat.zero_add] at hlt
    unfold deviceOpen
    rw [hs]
    exact verdict_found h ⟨hlt, hlive, hj⟩ fun k hk => (hall k (Nat.zero_le k) hk).1
  · rw [Nat.zero_add] at hall
    unfold deviceOpen
    rw [hs]
    refine verdict_refused h (fun i hi => hnot i (hall i (Nat.zero_le i) hi.1) hi) ?_
    rintro ⟨k, hk, hfree⟩
    exact absurd (hall k (Nat.zero_le k) hk).1 hfree

/-! ## `device_close` -/

theorem DeviceInv.closed (h : DeviceInv r) (hmem : (j, major, minor) ∈ r.opens) :
    DeviceInv (r.closed j major minor) := by
  have hhas := h.held j major minor hmem
  obtain ⟨hlt, hlive, his⟩ := id hhas
  have hopc := h.opc j major minor hhas
  have hpos := toInt_pos_of_ne_zero hopc hlive
  have hpred := toInt_sub_one hpos
  have hverify : verifyDeviceId r.dt j = true := by
    refine decide_eq_true ⟨Int.natCast_nonneg j, Int.ofNat_lt.mpr hlt, ?_⟩
    exact (h.driver j hlt).mp hlive
  have hcount : ∀ M m, (r.opens.erase (j, major, minor)).countP (fun o => o.2 = (M, m))
      = r.count M m - if (major, minor) = (M, m) then 1 else 0 := by
    intro M m
    rw [List.countP_erase]
    simp [count, hmem]
  let dev : DeviceT D :=
    if (r.dt j).opc - 1 = 0 then .zero else { r.dt j with opc := (r.dt j).opc - 1 }
  have hclosed : r.closed j major minor
      = { dt := Function.update r.dt j dev, opens := r.opens.erase (j, major, minor) } := by
    unfold DeviceRun.closed deviceClose
    rw [if_pos hverify]
    rfl
  have hother : ∀ i ≠ j, ∀ M m, r.Has i M m →
      (r.opens.erase (j, major, minor)).countP (fun o => o.2 = (M, m)) = r.count M m := by
    intro i hi M m hhas'
    rw [hcount, if_neg, Nat.sub_zero]
    rintro ⟨⟩
    exact hi (h.one i j _ _ hhas' hhas)
  rw [hclosed]
  by_cases hzero : (r.dt j).opc - 1 = 0
  · have hdev : dev = .zero := if_pos hzero
    have hdead : ¬ dev.Live := fun hl => hl (by rw [hdev]; rfl)
    refine h.update hlt ?_ (fun hl => absurd hl hdead) (fun hl => absurd hl hdead) hother
      (fun i M m hmem' => ?_)
    · refine iff_of_false hdead fun hn => hn ?_
      rw [hdev]
      rfl
    · have hhas' := h.held i M m (List.mem_of_mem_erase hmem')
      refine Or.inr ⟨fun he => ?_, hhas'⟩
      subst he
      -- no open of the device is left
      obtain ⟨rfl, rfl⟩ := Prod.mk.inj (Is.unique his hhas'.2.2)
      have hleft := hcount M m
      rw [if_pos rfl] at hleft
      have hnone : (r.opens.erase (i, M, m)).countP (fun o => o.2 = (M, m)) ≠ 0 := fun he =>
        List.countP_eq_zero.mp he _ hmem' (decide_eq_true rfl)
      rw [hzero, Int32.toInt_zero] at hpred
      omega
  · have hdev : dev = { r.dt j with opc := (r.dt j).opc - 1 } := if_neg hzero
    have hlive' : dev.Live := by
      rw [hdev]
      exact hzero
    have his' : ∀ M m, dev.Is M m ↔ (r.dt j).Is M m := fun M m => by rw [hdev]; exact Iff.rfl
    refine h.update hlt ?_ (fun _ M m hM i hi hhas' => ?_) (fun _ M m hM => ?_) hother
      (fun i M m hmem' => ?_)
    · refine iff_of_true hlive' ?_
      rw [hdev]
      exact (h.driver j hlt).mp hlive
    · obtain ⟨rfl, rfl⟩ := Prod.mk.inj (Is.unique his ((his' M m).mp hM))
      exact hi (h.one i j _ _ hhas' hhas)
    · obtain ⟨rfl, rfl⟩ := Prod.mk.inj (Is.unique his ((his' M m).mp hM))
      rw [hcount, if_pos rfl, hdev]
      dsimp only
      omega
    · have hhas' := h.held i M m (List.mem_of_mem_erase hmem')
      by_cases hi : i = j
      · subst hi
        exact Or.inl ⟨rfl, hlive', (his' M m).mpr hhas'.2.2⟩
      · exact Or.inr ⟨hi, hhas'⟩

/-! ## Every run -/

theorem correctly_iff_meets {c : DeviceCall D} (h : DeviceInv r) (hf : r.Fits c) :
    r.Correctly c ↔ r.Meets c := by
  cases c with
  | «open» major minor answer => exact (open_verdict h).1
  | close deviceId major minor => exact iff_of_true (h.closed hf).toDeviceLaw trivial

theorem DeviceInv.step {c : DeviceCall D} {r' : DeviceRun D} (h : DeviceInv r) (hf : r.Fits c)
    (hm : r.Meets c) (hs : r.step c = some r') : DeviceInv r' := by
  cases c with
  | «open» major minor answer =>
      obtain rfl := Option.some.inj hs
      exact (open_verdict h).2 hm
  | close deviceId major minor =>
      obtain rfl := Option.some.inj hs
      exact h.closed hf

/-- From the empty table, all calls of a run are correct if and only if
each of them meets the condition. -/
theorem deviceTable_law (calls : List (DeviceCall D)) (hfits : Always step Fits empty calls) :
    Always step Correctly (empty : DeviceRun D) calls ↔ Always step Meets empty calls :=
  always_congr_of_invariant (I := DeviceInv) (fun _ _ _ h hf hm hs => h.step hf hm hs)
    (fun _ _ h hf => correctly_iff_meets h hf) deviceInv_empty hfits

end DeviceRun

/-- A driver that succeeds. -/
def openOk : OpenAnswer Unit := { err := 0, data := none }

/-- The disk is opened twice. -/
theorem deviceTable_law_twice :
    Always DeviceRun.step DeviceRun.Correctly DeviceRun.empty
      [.open 2 0xb1 openOk, .open 2 0xb1 openOk] := by
  refine (DeviceRun.deviceTable_law _ (by decide)).mpr ⟨⟨?_, fun _ _ _ => rfl⟩, fun r hr => ?_⟩
  · exact fun i _ hi => absurd rfl hi.2.1
  obtain rfl := Option.some.inj hr
  refine ⟨⟨fun i _ hi => ?_, fun hnew => ?_⟩, fun _ _ => trivial⟩
  · have h0 : i = 0 := by
      by_contra hne
      have hopen : (deviceOpen DeviceRun.empty.dt 2 0xb1 openOk).dt = Function.update
          (fun _ => .zero) 0 { handle := some .disk, minor := 0xb1, data := none, opc := 1 } := rfl
      refine hi.2.1 ?_
      change ((deviceOpen DeviceRun.empty.dt 2 0xb1 openOk).dt i).opc = 0
      rw [hopen, Function.update_of_ne hne]
      rfl
    subst h0
    exact ⟨fun j hj => absurd hj (Nat.not_lt_zero j), by decide⟩
  · exact absurd (by decide) (hnew 0 (by decide))

/-- The disk is closed, and the terminal that is still open gets a second
slot. -/
def reopened : List (DeviceCall Unit) :=
  [.open 2 0xb1 openOk, .open 1 0 openOk, .close 0 2 0xb1]

theorem deviceTable_law_fails :
    ¬ ∀ calls : List (DeviceCall Unit), Always DeviceRun.step DeviceRun.Fits DeviceRun.empty calls →
      Always DeviceRun.step DeviceRun.Correctly DeviceRun.empty calls := by
  intro h
  have hc := h (reopened ++ [.open 1 0 openOk]) (by decide)
  have hrun : run DeviceRun.step DeviceRun.empty reopened
      = some ((run DeviceRun.step DeviceRun.empty reopened).get (by decide)) := by simp
  have hlaw := (hc.after hrun).1
  have hcalled := (hlaw.again 1 (by decide)).2
  exact absurd hcalled (by decide)

end Csos
