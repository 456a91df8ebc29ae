import Csos.Lib.Run
import Csos.Lib.Ring

/-!
# The receive ring (`kernel32/device/pci/e1000.c`)

`e1000_rx_init` and `receive_packet`, and the device on the other side of
the ring. The driver is cut into the steps between which the device can
act. What the device does is not in the source: it takes the descriptor
at its head while the head is not the last tail it was told, writes the
frame, marks the descriptor and moves its head, in three steps.

A buffer stands for itself: the physical address of its payload, which
`get_paddr` finds, is the buffer. `netif_input` appears by the frame that
it is given; a buffer that it was given belongs to the network code until
that gives it back (`release`).
-/

namespace Csos

open Lib

/-- `RX_DESC_NR`. -/
abbrev rxDescNr : Nat := 32

/-- `RS_DD`. -/
abbrev rsDd : UInt8 := 1

/-- `rx_desc_t`, the fields that the driver reads or writes. -/
structure RxDesc (B : Type) where
  address : B
  length : UInt16
  status : UInt8

/-- `rx->status & RS_DD`. -/
def RxDesc.Done {B : Type} (d : RxDesc B) : Prop := d.status &&& rsDd ≠ 0

instance {B : Type} (d : RxDesc B) : Decidable d.Done := inferInstanceAs (Decidable (_ ≠ _))

/-- Where the driver is in the loop of `receive_packet`. -/
inductive RxPc (B : Type) where
  /-- before the test of `RS_DD`; the function may also not be running -/
  | test
  | length
  | input (buff : B)
  | alloc
  | store (buff : B)
  | address (buff : B)
  | status
  | tail
  | next
deriving DecidableEq

/-- Where the device is with the frame at its head. -/
inductive RxDevice where
  | idle
  | wrote (frame : List UInt8)
  | marked
deriving DecidableEq

/-- The frame that is written and not marked. -/
def RxDevice.frame : RxDevice → Option (List UInt8)
  | .wrote frame => some frame
  | _ => none

/-- The driver's variables, the registers and memory that it shares with
the device, and what has come to pass. -/
structure RxState (B : Type) where
  rx : Nat → RxDesc B
  rxBuff : Nat → B
  rxNow : Nat
  /-- `E1000_RDT` and `E1000_RDH` -/
  rdt : Nat
  rdh : Nat
  payload : B → List UInt8
  length : B → UInt16
  pc : RxPc B
  device : RxDevice
  /-- the frames that the device received -/
  received : List (List UInt8)
  /-- the frames that `netif_input` was given -/
  passed : List (List UInt8)
  /-- the buffers that the network code holds -/
  handed : List B

namespace RxState

variable {B : Type} [DecidableEq B]

def setDesc (s : RxState B) (i : Nat) (d : RxDesc B) : RxState B :=
  { s with rx := Function.update s.rx i d }

omit [DecidableEq B] in
/-- `e1000_rx_init`. The device is enabled by the last write, so nothing
happens in between. `alloc` gives the buffers in the order of the calls. -/
def e1000RxInit (s : RxState B) (alloc : Nat → B) : RxState B :=
  { s with
    rx := fun i => if i < rxDescNr then { s.rx i with address := alloc i, status := 0 } else s.rx i
    rxBuff := fun i => if i < rxDescNr then alloc i else s.rxBuff i
    rxNow := 0
    rdt := rxDescNr - 1
    rdh := 0
    pc := .test
    device := .idle
    received := []
    passed := [] }

/-- One step of `receive_packet`; `fresh` is what `alloc_desc_buff`
returns if the step calls it. -/
def driver (s : RxState B) (fresh : B) : RxState B :=
  let rx := s.rx s.rxNow
  match s.pc with
  | .test => if rx.Done then { s with pc := .length } else s
  | .length =>
      let buff := s.rxBuff s.rxNow
      { s with length := Function.update s.length buff rx.length, pc := .input buff }
  | .input buff =>
      { s with
        passed := s.passed ++ [(s.payload buff).take (s.length buff).toNat]
        handed := buff :: s.handed
        pc := .alloc }
  | .alloc => { s with pc := .store fresh }
  | .store buff =>
      { s with rxBuff := Function.update s.rxBuff s.rxNow buff, pc := .address buff }
  | .address buff => { s.setDesc s.rxNow { rx with address := buff } with pc := .status }
  | .status => { s.setDesc s.rxNow { rx with status := 0 } with pc := .tail }
  | .tail => { s with rdt := s.rxNow, pc := .next }
  | .next => { s with rxNow := (s.rxNow + 1) % rxDescNr, pc := .test }

/-- The device puts a frame into the buffer at its head. -/
def deviceWrite (s : RxState B) (frame : List UInt8) : RxState B :=
  let rx := s.rx s.rdh
  let length := UInt16.ofNat frame.length
  { s.setDesc s.rdh { rx with length } with
    payload := Function.update s.payload rx.address frame
    device := .wrote frame }

/-- The device writes the status of the descriptor at its head. -/
def deviceMark (s : RxState B) (frame : List UInt8) (status : UInt8) : RxState B :=
  { s.setDesc s.rdh { s.rx s.rdh with status } with
    device := .marked
    received := s.received ++ [frame] }

omit [DecidableEq B] in
def deviceAdvance (s : RxState B) : RxState B :=
  { s with rdh := (s.rdh + 1) % rxDescNr, device := .idle }

end RxState

inductive RxAction (B : Type) where
  | driver (fresh : B)
  | write (frame : List UInt8)
  | mark (status : UInt8)
  | advance
  | release (buff : B)

namespace RxState

variable {B : Type} [DecidableEq B]

def step (s : RxState B) : RxAction B → Option (RxState B)
  | .driver fresh => some (s.driver fresh)
  | .write frame => some (s.deviceWrite frame)
  | .mark status => s.device.frame.map fun frame => s.deviceMark frame status
  | .advance => some s.deviceAdvance
  | .release buff => some { s with handed := s.handed.erase buff }

/-- `alloc_desc_buff` returns a buffer in use nowhere else, and the device
keeps to its side: it writes only while its head is not the tail, a frame
whose size fits the `length` of the descriptor, and marks it with `RS_DD`. -/
def Fits (s : RxState B) : RxAction B → Prop
  | .driver fresh => s.pc = .alloc → fresh ∉ s.handed ∧ ∀ i < rxDescNr, s.rxBuff i ≠ fresh
  | .write frame => s.device = .idle ∧ s.rdh ≠ s.rdt ∧ frame.length < 65536
  | .mark status => s.device.frame ≠ none ∧ status &&& rsDd ≠ 0
  | .advance => s.device = .marked
  | .release _ => True

instance (s : RxState B) : ∀ a, Decidable (s.Fits a)
  | .driver _ => inferInstanceAs (Decidable (_ → _))
  | .write _ => inferInstanceAs (Decidable (_ ∧ _))
  | .mark _ => inferInstanceAs (Decidable (_ ∧ _))
  | .advance => inferInstanceAs (Decidable (_ = _))
  | .release _ => isTrue trivial

/-- What the ring is for, in one state. -/
structure RxLaw (s : RxState B) : Prop where
  /-- each frame once, in the order of the device -/
  passed : s.passed <+: s.received
  /-- the driver leaves no frame behind -/
  caughtUp : s.pc = .test → ¬ (s.rx s.rxNow).Done → s.passed = s.received
  /-- between iterations -/
  tail : s.pc = .test → s.rdt = (s.rxNow + (rxDescNr - 1)) % rxDescNr
  /-- where the device would write now -/
  target : s.device = .idle → s.rdh ≠ s.rdt → (s.rx s.rdh).address ∉ s.handed

end RxState

/-! ## The invariant -/

/-- The frames that the current iteration has passed on. -/
def RxPc.sent {B : Type} : RxPc B → Nat
  | .test | .length | .input _ => 0
  | _ => 1

/-- The descriptors that the current iteration has cleared. -/
def RxPc.cleared {B : Type} : RxPc B → Nat
  | .tail | .next => 1
  | _ => 0

/-- The tails that the current iteration has told the device. -/
def RxPc.told {B : Type} : RxPc B → Nat
  | .next => 1
  | _ => 0

/-- The old address is still in the current descriptor. -/
def RxPc.swapping {B : Type} : RxPc B → Bool
  | .address _ => true
  | _ => false

/-- The buffer that was passed on is still in `rx_buff`. -/
def RxPc.handing {B : Type} : RxPc B → Bool
  | .alloc | .store _ => true
  | _ => false

/-- The frames that are marked with the head still on them. -/
def RxDevice.held : RxDevice → Nat
  | .marked => 1
  | _ => 0

namespace RxState

variable {B : Type} [DecidableEq B] {s : RxState B} {done : Nat}

/-- The descriptor `i` holds the frame. -/
def HoldsFrame (s : RxState B) (i : Nat) (frame : List UInt8) : Prop :=
  s.payload (s.rx i).address = frame ∧ (s.rx i).length = UInt16.ofNat frame.length
    ∧ frame.length < 65536

/-- The state after `done` whole iterations. The frames `done`, `done + 1`
and so on lie in the descriptors of these numbers, modulo the ring. -/
structure RxInv (s : RxState B) (done : Nat) : Prop where
  now : s.rxNow = done % 32
  rdt : s.rdt = (done + s.pc.told + 31) % 32
  rdh : ∃ head, head + s.device.held = s.received.length ∧ s.rdh = head % 32
  started : done ≤ s.received.length
  current : s.pc ≠ .test → done < s.received.length
  room : s.received.length ≤ done + s.pc.told + 31
  passed : s.passed = s.received.take (done + s.pc.sent)
  marked : ∀ j, done + s.pc.cleared ≤ j → j < s.received.length → (s.rx (j % 32)).Done
  clear : ∀ j, s.received.length ≤ j → j < done + s.pc.cleared + 32 → ¬ (s.rx (j % 32)).Done
  frames : ∀ j (h : j < s.received.length), done + s.pc.sent ≤ j →
    s.HoldsFrame (j % 32) s.received[j]
  pending : ∀ f, s.device = .wrote f → s.received.length < done + s.pc.told + 31
    ∧ s.HoldsFrame (s.received.length % 32) f
  input : ∀ b, s.pc = .input b → b = s.rxBuff (done % 32)
    ∧ s.length b = (s.rx (done % 32)).length
  address : ∀ i < 32, (i = done % 32 → s.pc.swapping = false) → (s.rx i).address = s.rxBuff i
  stored : ∀ b, s.pc = .address b → s.rxBuff (done % 32) = b
  distinct : ∀ i < 32, ∀ j < 32, s.rxBuff i = s.rxBuff j → i = j
  apart : ∀ i < 32, (i = done % 32 → s.pc.handing = false) →
    s.rxBuff i ∉ s.handed
  fresh : ∀ b, s.pc = .store b → b ∉ s.handed ∧ ∀ i < 32, s.rxBuff i ≠ b

omit [DecidableEq B] in
theorem RxInv.law (h : RxInv s done) : RxLaw s := by
  obtain ⟨head, hheld, hrdh⟩ := h.rdh
  have hle := h.started
  have hroom := h.room
  refine ⟨?_, ?_, ?_, ?_⟩
  · rw [h.passed]
    exact List.take_prefix _ _
  · intro hpc hclear
    have hend : s.received.length ≤ done := by
      by_contra hlt
      refine hclear ?_
      rw [h.now]
      exact h.marked done (by simp [hpc, RxPc.cleared]) (by omega)
    rw [h.passed]
    exact List.take_of_length_le (by omega)
  · intro hpc
    rw [h.rdt, h.now, hpc]
    simp only [RxPc.told, rxDescNr]
    omega
  · intro hdev hne
    simp only [hdev, RxDevice.held] at hheld
    -- the head is the current descriptor only before the first step
    have hslot : s.rdh = done % 32 → s.pc = .test := by
      intro he
      by_contra hpc
      have := h.current hpc
      have := h.rdt
      cases hp : s.pc <;> simp only [hp, RxPc.told] at * <;> omega
    have hlt : s.rdh < 32 := by omega
    rw [h.address _ hlt fun he => by rw [hslot he]; rfl]
    exact h.apart _ hlt fun he => by rw [hslot he]; rfl

/-! ## One step -/

/-- A descriptor apart from the current one. -/
theorem slot_ne {i j : Nat} (hij : i < j) (hji : j < i + 32) : j % 32 ≠ i % 32 := by omega

omit [DecidableEq B] in
/-- Another descriptor was written. -/
theorem HoldsFrame.setDesc {i j : Nat} {d : RxDesc B} {f : List UInt8} (h : s.HoldsFrame j f)
    (hne : j ≠ i) : (s.setDesc i d).HoldsFrame j f := by
  unfold HoldsFrame RxState.setDesc
  dsimp only
  rw [Function.update_of_ne hne]
  exact h

omit [DecidableEq B] in
/-- Only a status was written. -/
theorem HoldsFrame.setStatus {i j : Nat} {status : UInt8} {f : List UInt8}
    (h : s.HoldsFrame j f) : (s.setDesc i { s.rx i with status }).HoldsFrame j f := by
  unfold HoldsFrame RxState.setDesc
  dsimp only
  by_cases hj : j = i
  · rw [hj, Function.update_self]
    rwa [hj] at h
  · rw [Function.update_of_ne hj]
    exact h

omit [DecidableEq B] in
/-- The status is not written. -/
theorem done_update {rx : Nat → RxDesc B} {i : Nat} {d : RxDesc B}
    (hd : d.status = (rx i).status) (j : Nat) :
    (Function.update rx i d j).Done ↔ (rx j).Done := by
  unfold RxDesc.Done
  by_cases hj : j = i
  · rw [hj, Function.update_self, hd]
  · rw [Function.update_of_ne hj]

/-- The test of `RS_DD` holds for a frame that came. -/
theorem RxInv.driver_test {fresh : B} (h : RxInv s done) (hpc : s.pc = .test) :
    RxInv (s.driver fresh) done := by
  obtain ⟨rx, rxBuff, rxNow, rdt, rdh, payload, length, pc, device, received, passed, handed⟩ := s
  obtain rfl : rxNow = done % 32 := h.now
  obtain rfl : pc = .test := hpc
  simp only [RxState.driver]
  split
  case isFalse => exact h
  case isTrue hd =>
    have hlt : done < received.length := by
      by_contra hle
      exact h.clear done (by simp; omega) (by simp [RxPc.cleared]) hd
    exact { h with
      current := fun _ => hlt
      input := nofun
      stored := nofun
      fresh := nofun }

/-- The length of the frame goes to the buffer. -/
theorem RxInv.driver_length {fresh : B} (h : RxInv s done) (hpc : s.pc = .length) :
    RxInv (s.driver fresh) done := by
  obtain ⟨rx, rxBuff, rxNow, rdt, rdh, payload, length, pc, device, received, passed, handed⟩ := s
  obtain rfl : rxNow = done % 32 := h.now
  obtain rfl : pc = .length := hpc
  have hlt : done < received.length := h.current nofun
  refine { h with
    current := fun _ => hlt
    input := ?_
    stored := nofun
    fresh := nofun }
  rintro _ ⟨⟩
  exact ⟨rfl, Function.update_self ..⟩

/-- The frame is passed on, and with it the buffer. -/
theorem RxInv.driver_input {fresh buff : B} (h : RxInv s done) (hpc : s.pc = .input buff) :
    RxInv (s.driver fresh) done := by
  obtain ⟨rx, rxBuff, rxNow, rdt, rdh, payload, length, pc, device, received, passed, handed⟩ := s
  obtain rfl : rxNow = done % 32 := h.now
  obtain rfl : pc = .input buff := hpc
  have hlt : done < received.length := h.current nofun
  obtain ⟨hb, hlen⟩ := h.input buff rfl
  obtain ⟨hpay, hflen, hmax⟩ := h.frames done hlt (Nat.le_refl done)
  have haddr : (rx (done % 32)).address = rxBuff (done % 32) :=
    h.address _ (Nat.mod_lt _ (by decide)) fun _ => rfl
  dsimp only at hb hlen hpay hflen hmax
  have hsent : (payload buff).take (length buff).toNat = received[done] := by
    rw [haddr, ← hb] at hpay
    rw [hlen, hflen, hpay, UInt16.toNat_ofNat', Nat.mod_eq_of_lt (by omega)]
    exact List.take_length
  refine { h with
    current := fun _ => hlt
    passed := ?_
    frames := fun j hj hle => h.frames j hj (Nat.le_of_succ_le hle)
    input := nofun
    apart := ?_
    stored := nofun
    fresh := nofun }
  · change passed ++ [(payload buff).take (length buff).toNat] = received.take (done + 1)
    have hp : passed = received.take done := h.passed
    rw [hsent, hp, List.take_succ_eq_append_getElem hlt]
  · intro i hi hne hmem
    rcases List.mem_cons.mp hmem with he | hmem
    · rw [hb] at he
      have := h.distinct i hi _ (Nat.mod_lt _ (by decide)) he
      cases hne this
    · exact h.apart i hi (fun _ => rfl) hmem

/-- The new buffer is in use nowhere else. -/
theorem RxInv.driver_alloc {fresh : B} (h : RxInv s done) (hpc : s.pc = .alloc)
    (hf : s.Fits (.driver fresh)) : RxInv (s.driver fresh) done := by
  obtain ⟨rx, rxBuff, rxNow, rdt, rdh, payload, length, pc, device, received, passed, handed⟩ := s
  obtain rfl : rxNow = done % 32 := h.now
  obtain rfl : pc = .alloc := hpc
  have hlt : done < received.length := h.current nofun
  refine { h with
    current := fun _ => hlt
    input := nofun
    stored := nofun
    fresh := ?_ }
  rintro _ ⟨⟩
  exact hf rfl

/-- It takes the place of the one that was passed on, in `rx_buff`. -/
theorem RxInv.driver_store {fresh buff : B} (h : RxInv s done) (hpc : s.pc = .store buff) :
    RxInv (s.driver fresh) done := by
  obtain ⟨rx, rxBuff, rxNow, rdt, rdh, payload, length, pc, device, received, passed, handed⟩ := s
  obtain rfl : rxNow = done % 32 := h.now
  obtain rfl : pc = .store buff := hpc
  have hlt : done < received.length := h.current nofun
  obtain ⟨hnot, hne⟩ := h.fresh buff rfl
  have hslot : done % 32 < 32 := Nat.mod_lt _ (by decide)
  have hother : ∀ i, i ≠ done % 32 →
      Function.update rxBuff (done % 32) buff i = rxBuff i :=
    fun i hi => Function.update_of_ne hi _ _
  refine { h with
    current := fun _ => hlt
    input := nofun
    address := fun i hi hi' => ?_
    stored := ?_
    distinct := fun i hi j hj he => ?_
    apart := fun i hi _ => ?_
    fresh := nofun }
  · have hid : i ≠ done % 32 := fun he => nomatch hi' he
    exact (h.address i hi fun _ => rfl).trans (hother i hid).symm
  · rintro _ ⟨⟩
    exact Function.update_self ..
  · change Function.update rxBuff _ buff i = Function.update rxBuff _ buff j at he
    by_cases hid : i = done % 32 <;> by_cases hjd : j = done % 32
    · rw [hid, hjd]
    · rw [hid, Function.update_self, hother j hjd] at he
      exact absurd he.symm (hne j hj)
    · rw [hjd, Function.update_self, hother i hid] at he
      exact absurd he (hne i hi)
    · rw [hother i hid, hother j hjd] at he
      exact h.distinct i hi j hj he
  · change Function.update rxBuff _ buff i ∉ handed
    by_cases hid : i = done % 32
    · rw [hid, Function.update_self]
      exact hnot
    · rw [hother i hid]
      exact h.apart i hi fun he => absurd he hid

/-- And in the descriptor. -/
theorem RxInv.driver_address {fresh buff : B} (h : RxInv s done) (hpc : s.pc = .address buff) :
    RxInv (s.driver fresh) done := by
  obtain ⟨rx, rxBuff, rxNow, rdt, rdh, payload, length, pc, device, received, passed, handed⟩ := s
  obtain rfl : rxNow = done % 32 := h.now
  obtain rfl : pc = .address buff := hpc
  have hlt : done < received.length := h.current nofun
  have hroom : received.length ≤ done + 31 := h.room
  have hmax : received.length ≤ done + 32 := Nat.le_succ_of_le hroom
  have hdone := done_update (i := done % 32)
    (d := { rx (done % 32) with address := buff }) rfl
  refine { h with
    current := fun _ => hlt
    marked := fun j hle hj => (hdone (j % 32)).mpr (h.marked j hle hj)
    clear := fun j hj hle hd => h.clear j hj hle ((hdone (j % 32)).mp hd)
    frames := fun j hj hle => (h.frames j hj hle).setDesc ?_
    pending := fun f hf => ⟨(h.pending f hf).1, (h.pending f hf).2.setDesc ?_⟩
    input := nofun
    address := fun i hi _ => ?_
    stored := nofun
    fresh := nofun }
  · exact slot_ne hle (Nat.lt_of_lt_of_le hj hmax)
  · exact slot_ne hlt (Nat.lt_succ_of_le hroom)
  · change (Function.update rx (done % 32) { rx (done % 32) with address := buff } i).address
      = rxBuff i
    by_cases hid : i = done % 32
    · rw [hid, Function.update_self]
      exact (h.stored buff rfl).symm
    · rw [Function.update_of_ne hid]
      exact h.address i hi fun he => absurd he hid

/-- The descriptor is cleared. -/
theorem RxInv.driver_status {fresh : B} (h : RxInv s done) (hpc : s.pc = .status) :
    RxInv (s.driver fresh) done := by
  obtain ⟨rx, rxBuff, rxNow, rdt, rdh, payload, length, pc, device, received, passed, handed⟩ := s
  obtain rfl : rxNow = done % 32 := h.now
  obtain rfl : pc = .status := hpc
  have hlt : done < received.length := h.current nofun
  have hroom : received.length ≤ done + 31 := h.room
  have hmax : received.length ≤ done + 32 := Nat.le_succ_of_le hroom
  have hother : ∀ i, i ≠ done % 32 →
      Function.update rx (done % 32) { rx (done % 32) with status := 0 } i = rx i :=
    fun i hi => Function.update_of_ne hi _ _
  refine { h with
    current := fun _ => hlt
    marked := fun j hle hj => ?_
    clear := fun j hj hle => ?_
    frames := fun j hj hle => (h.frames j hj hle).setStatus
    pending := fun f hf => ⟨(h.pending f hf).1, (h.pending f hf).2.setStatus⟩
    input := nofun
    address := fun i hi _ => ?_
    stored := nofun
    fresh := nofun }
  · have hj' : j % 32 ≠ done % 32 := slot_ne hle (Nat.lt_of_lt_of_le hj hmax)
    change (Function.update rx _ _ _).Done
    rw [hother _ hj']
    exact h.marked j (Nat.le_of_succ_le hle) hj
  · change ¬ (Function.update rx _ _ _).Done
    by_cases hj' : j % 32 = done % 32
    · rw [hj', Function.update_self]
      exact fun hd => hd (by simp)
    · rw [hother _ hj']
      change j < done + 1 + 32 at hle
      refine h.clear j hj ?_
      change j < done + 0 + 32
      omega
  · change (Function.update rx _ _ _).address = rxBuff i
    by_cases hid : i = done % 32
    · rw [hid, Function.update_self]
      exact h.address _ (Nat.mod_lt _ (by decide)) fun _ => rfl
    · rw [hother i hid]
      exact h.address i hi fun _ => rfl

/-- The device is told of it. -/
theorem RxInv.driver_tail {fresh : B} (h : RxInv s done) (hpc : s.pc = .tail) :
    RxInv (s.driver fresh) done := by
  obtain ⟨rx, rxBuff, rxNow, rdt, rdh, payload, length, pc, device, received, passed, handed⟩ := s
  obtain rfl : rxNow = done % 32 := h.now
  obtain rfl : pc = .tail := hpc
  have hlt : done < received.length := h.current nofun
  have hroom : received.length ≤ done + 31 := h.room
  refine { h with
    rdt := ?_
    current := fun _ => hlt
    room := ?_
    pending := fun f hf => ⟨?_, (h.pending f hf).2⟩
    input := nofun
    stored := nofun
    fresh := nofun }
  · change done % 32 = (done + 1 + 31) % 32
    omega
  · change received.length ≤ done + 1 + 31
    omega
  · change received.length < done + 1 + 31
    omega

/-- The iteration ends. -/
theorem RxInv.driver_next {fresh : B} (h : RxInv s done) (hpc : s.pc = .next) :
    RxInv (s.driver fresh) (done + 1) := by
  obtain ⟨rx, rxBuff, rxNow, rdt, rdh, payload, length, pc, device, received, passed, handed⟩ := s
  obtain rfl : rxNow = done % 32 := h.now
  obtain rfl : pc = .next := hpc
  have hlt : done < received.length := h.current nofun
  have hrdt : rdt = (done + 1 + 31) % 32 := h.rdt
  have hroom : received.length ≤ done + 1 + 31 := h.room
  exact {
    now := by change (done % 32 + 1) % 32 = (done + 1) % 32; omega
    rdt := hrdt
    rdh := h.rdh
    started := hlt
    current := fun hne => absurd rfl hne
    room := hroom
    passed := h.passed
    marked := h.marked
    clear := h.clear
    frames := h.frames
    pending := h.pending
    input := nofun
    address := fun i hi _ => h.address i hi fun _ => rfl
    stored := nofun
    distinct := h.distinct
    apart := fun i hi _ => h.apart i hi fun _ => rfl
    fresh := nofun }

theorem RxInv.driver {fresh : B} (h : RxInv s done) (hf : s.Fits (.driver fresh)) :
    ∃ done', RxInv (s.driver fresh) done' := by
  cases hpc : s.pc with
  | test => exact ⟨done, h.driver_test hpc⟩
  | length => exact ⟨done, h.driver_length hpc⟩
  | input buff => exact ⟨done, h.driver_input hpc⟩
  | alloc => exact ⟨done, h.driver_alloc hpc hf⟩
  | store buff => exact ⟨done, h.driver_store hpc⟩
  | address buff => exact ⟨done, h.driver_address hpc⟩
  | status => exact ⟨done, h.driver_status hpc⟩
  | tail => exact ⟨done, h.driver_tail hpc⟩
  | next => exact ⟨done + 1, h.driver_next hpc⟩

/-- The device writes behind the frames that are on their way. -/
theorem RxInv.write {frame : List UInt8} (h : RxInv s done) (hf : s.Fits (.write frame)) :
    RxInv (s.deviceWrite frame) done := by
  obtain ⟨rx, rxBuff, rxNow, rdt, rdh, payload, length, pc, device, received, passed, handed⟩ := s
  obtain ⟨hdev, hne, hmax⟩ := hf
  obtain ⟨head, hheld, hrdh⟩ := h.rdh
  dsimp only at hdev hne hrdh
  subst hdev
  obtain rfl : head = received.length := hheld
  subst hrdh
  have hrdt : rdt = (done + pc.told + 31) % 32 := h.rdt
  have hroom : received.length ≤ done + pc.told + 31 := h.room
  have hstart : done ≤ received.length := h.started
  have hlt : received.length < done + pc.told + 31 := by omega
  have hbusy : pc.told = 1 → done < received.length := fun ht => h.current fun hp => by
    dsimp only at hp
    rw [hp] at ht
    cases ht
  have htold : pc.told ≤ 1 := by cases pc <;> simp [RxPc.told]
  let slot := received.length % 32
  let length' := UInt16.ofNat frame.length
  have hdone := done_update (i := slot) (d := { rx slot with length := length' }) rfl
  have hother : ∀ j, j ≠ slot →
      Function.update rx slot { rx slot with length := length' } j = rx j :=
    fun j hj => Function.update_of_ne hj _ _
  -- the buffer under the head is the one in `rx_buff`
  have haddr : (rx slot).address = rxBuff slot := by
    refine h.address _ (Nat.mod_lt _ (by decide)) fun he => ?_
    have hp : pc = .test := by
      by_contra hp
      have : done < received.length := h.current hp
      dsimp only [slot] at he
      omega
    dsimp only
    rw [hp]
    rfl
  refine { h with
    rdh := ⟨received.length, rfl, rfl⟩
    marked := fun j hle hj => (hdone (j % 32)).mpr (h.marked j hle hj)
    clear := fun j hj hle hd => h.clear j hj hle ((hdone (j % 32)).mp hd)
    frames := fun j hj hle => ?_
    pending := ?_
    input := fun b hb => ⟨(h.input b hb).1, ?_⟩
    address := fun i hi hsw => ?_ }
  · change done + pc.sent ≤ j at hle
    change j < received.length at hj
    have hslot : j % 32 ≠ slot := fun he => slot_ne hj (by omega) he.symm
    have haddr' : (rx (j % 32)).address = rxBuff (j % 32) := by
      refine h.address _ (Nat.mod_lt _ (by decide)) fun he => ?_
      have hj' : j = done := by omega
      have hsent : pc.sent = 0 := by omega
      change pc.swapping = false
      cases pc <;> first | rfl | exact absurd hsent Nat.one_ne_zero
    obtain ⟨hpay, hflen, hfmax⟩ := h.frames j hj hle
    refine ⟨?_, ?_, hfmax⟩
    · change Function.update payload (rx slot).address frame
        (Function.update rx slot _ _).address = _
      rw [hother _ hslot, Function.update_of_ne]
      · exact hpay
      · rw [haddr, haddr']
        exact fun he => hslot (h.distinct _ (Nat.mod_lt _ (by decide)) _
          (Nat.mod_lt _ (by decide)) he)
    · change (Function.update rx slot _ _).length = _
      rw [hother _ hslot]
      exact hflen
  · rintro _ ⟨⟩
    refine ⟨hlt, ?_, ?_, hmax⟩
    · change Function.update payload (rx slot).address frame
        (Function.update rx slot _ slot).address
        = frame
      rw [Function.update_self, Function.update_self]
    · change (Function.update rx slot _ slot).length = _
      rw [Function.update_self]
  · have hlt' : done < received.length := h.current fun hp => by cases hp.symm.trans hb
    change length b = (Function.update rx slot _ (done % 32)).length
    rw [hother _ fun he => slot_ne hlt' (by omega) he.symm]
    exact (h.input b hb).2
  · have haddr' : (rx i).address = rxBuff i := h.address i hi hsw
    change (Function.update rx slot _ i).address = rxBuff i
    by_cases hi' : i = slot
    · rw [hi', Function.update_self]
      exact haddr
    · rw [hother i hi']
      exact haddr'

omit [DecidableEq B] in
/-- The frame that was written counts as received. -/
theorem RxInv.mark {status : UInt8} {frame : List UInt8} (h : RxInv s done)
    (hdev : s.device = .wrote frame) (hst : status &&& rsDd ≠ 0) :
    RxInv (s.deviceMark frame status) done := by
  obtain ⟨rx, rxBuff, rxNow, rdt, rdh, payload, length, pc, device, received, passed, handed⟩ := s
  obtain ⟨head, hheld, hrdh⟩ := h.rdh
  dsimp only at hdev hrdh
  subst hdev
  obtain rfl : head = received.length := hheld
  subst hrdh
  obtain ⟨hlt, hpay, hflen, hfmax⟩ := h.pending frame rfl
  have hlt : received.length < done + pc.told + 31 := hlt
  have hstart : done ≤ received.length := h.started
  have htold : pc.told ≤ 1 := by cases pc <;> simp [RxPc.told]
  let slot := received.length % 32
  have hother : ∀ j, j ≠ slot → Function.update rx slot { rx slot with status } j = rx j :=
    fun j hj => Function.update_of_ne hj _ _
  have hsame : ∀ i, (Function.update rx slot { rx slot with status } i).address = (rx i).address
      ∧ (Function.update rx slot { rx slot with status } i).length = (rx i).length := by
    intro i
    by_cases hi : i = slot
    · rw [hi, Function.update_self]
      exact ⟨rfl, rfl⟩
    · rw [hother i hi]
      exact ⟨rfl, rfl⟩
  have hlen : (received ++ [frame]).length = received.length + 1 := by simp
  have hpassed : passed = received.take (done + pc.sent) := h.passed
  have hsent : done + pc.sent ≤ received.length := by
    by_cases hp : pc = .test
    · subst hp
      exact hstart
    · have : done < received.length := h.current hp
      have : pc.sent ≤ 1 := by cases pc <;> simp [RxPc.sent]
      omega
  refine { h with
    rdh := ⟨received.length, hlen.symm, rfl⟩
    started := ?_
    current := fun hp => ?_
    room := ?_
    passed := ?_
    marked := fun j hle hj => ?_
    clear := fun j hj hle => ?_
    frames := fun j hj hle => ?_
    pending := nofun
    input := fun b hb => ⟨(h.input b hb).1, ?_⟩
    address := fun i hi hsw => ?_ }
  · change done ≤ (received ++ [frame]).length
    omega
  · change done < (received ++ [frame]).length
    omega
  · change (received ++ [frame]).length ≤ done + pc.told + 31
    omega
  · change passed = (received ++ [frame]).take (done + pc.sent)
    rw [List.take_append_of_le_length hsent]
    exact hpassed
  · change j < (received ++ [frame]).length at hj
    change done + pc.cleared ≤ j at hle
    change (Function.update rx slot _ (j % 32)).Done
    by_cases hj' : j = received.length
    · rw [hj', Function.update_self]
      exact hst
    · have hlt' : j < received.length := by omega
      rw [hother _ fun he => slot_ne hlt' (by omega) he.symm]
      exact h.marked j hle hlt'
  · change (received ++ [frame]).length ≤ j at hj
    change j < done + pc.cleared + 32 at hle
    have hcur : pc.cleared = 1 → done < received.length := fun hc => h.current fun hp => by
      dsimp only at hp
      rw [hp] at hc
      cases hc
    have hcl : pc.cleared ≤ 1 := by cases pc <;> simp [RxPc.cleared]
    change ¬ (Function.update rx slot _ (j % 32)).Done
    rw [hother _ (slot_ne (by omega) (by omega))]
    exact h.clear j (by dsimp only; omega) hle
  · change j < (received ++ [frame]).length at hj
    change RxState.HoldsFrame _ (j % 32) (received ++ [frame])[j]
    by_cases hj' : j < received.length
    · rw [List.getElem_append_left hj']
      exact (h.frames j hj' hle).setStatus
    · obtain rfl : j = received.length := by omega
      rw [List.getElem_append_right (Nat.le_refl _)]
      simp only [Nat.sub_self, List.getElem_cons_zero]
      exact HoldsFrame.setStatus ⟨hpay, hflen, hfmax⟩
  · change length b = (Function.update rx slot _ (done % 32)).length
    rw [(hsame _).2]
    exact (h.input b hb).2
  · change (Function.update rx slot _ i).address = rxBuff i
    rw [(hsame i).1]
    exact h.address i hi hsw

omit [DecidableEq B] in
/-- The head moves behind the last frame. -/
theorem RxInv.advance (h : RxInv s done) (hdev : s.device = .marked) :
    RxInv s.deviceAdvance done := by
  obtain ⟨rx, rxBuff, rxNow, rdt, rdh, payload, length, pc, device, received, passed, handed⟩ := s
  obtain ⟨head, hheld, hrdh⟩ := h.rdh
  dsimp only at hdev hheld hrdh
  subst hdev
  subst hrdh
  refine { h with
    rdh := ⟨head + 1, hheld, ?_⟩
    pending := nofun }
  change (head % 32 + 1) % 32 = (head + 1) % 32
  omega

theorem RxInv.release {buff : B} (h : RxInv s done) :
    RxInv { s with handed := s.handed.erase buff } done :=
  { h with
    apart := fun i hi hne hmem => h.apart i hi hne (List.mem_of_mem_erase hmem)
    fresh := fun b hb => ⟨fun hmem => (h.fresh b hb).1 (List.mem_of_mem_erase hmem),
      (h.fresh b hb).2⟩ }

/-- One step of either side, or of the network code. -/
theorem RxInv.step {a : RxAction B} (h : RxInv s done) (hf : s.Fits a) :
    ∃ s' done', s.step a = some s' ∧ RxInv s' done' := by
  cases a with
  | driver fresh =>
      obtain ⟨done', h'⟩ := h.driver hf
      exact ⟨_, done', rfl, h'⟩
  | write frame => exact ⟨_, done, rfl, h.write hf⟩
  | mark status =>
      obtain ⟨hframe, hst⟩ := hf
      obtain ⟨frame, hdev⟩ : ∃ frame, s.device = .wrote frame := by
        cases hd : s.device <;> simp [hd, RxDevice.frame] at hframe ⊢
      refine ⟨_, done, ?_, h.mark hdev hst⟩
      unfold RxState.step
      rw [hdev]
      rfl
  | advance => exact ⟨_, done, rfl, h.advance hf⟩
  | release buff => exact ⟨_, done, rfl, h.release⟩

/-! ## Every run -/

/-- What `alloc_desc_buff` is taken to give to `e1000_rx_init`: buffers
that are in use nowhere else. -/
structure FreshRing (s : RxState B) (alloc : Nat → B) : Prop where
  distinct : ∀ i < rxDescNr, ∀ j < rxDescNr, alloc i = alloc j → i = j
  apart : ∀ i < rxDescNr, alloc i ∉ s.handed

omit [DecidableEq B] in
theorem e1000RxInit_inv {alloc : Nat → B} (hf : s.FreshRing alloc) :
    RxInv (s.e1000RxInit alloc) 0 := by
  have hbuff : ∀ i < 32, (s.e1000RxInit alloc).rxBuff i = alloc i := fun i hi => if_pos hi
  have hrx : ∀ i < 32,
      (s.e1000RxInit alloc).rx i = { s.rx i with address := alloc i, status := 0 } :=
    fun i hi => if_pos hi
  exact {
    now := rfl
    rdt := rfl
    rdh := ⟨0, rfl, rfl⟩
    started := Nat.le_refl 0
    current := fun hne => absurd rfl hne
    room := Nat.zero_le _
    passed := rfl
    marked := fun j _ hj => absurd hj (Nat.not_lt_zero j)
    clear := fun j _ _ hd => by
      rw [hrx _ (Nat.mod_lt _ (by decide))] at hd
      exact hd (by simp)
    frames := fun j hj => absurd hj (Nat.not_lt_zero j)
    pending := nofun
    input := nofun
    address := fun i hi _ => by rw [hrx i hi, hbuff i hi]
    stored := nofun
    distinct := fun i hi j hj he => by
      rw [hbuff i hi, hbuff j hj] at he
      exact hf.distinct i hi j hj he
    apart := fun i hi _ => by
      rw [hbuff i hi]
      exact hf.apart i hi
    fresh := nofun }

/-- From `e1000_rx_init` on, every run comes back and ends in a state that
obeys the law. -/
theorem rxRing_law {alloc : Nat → B} (hf : s.FreshRing alloc) (as : List (RxAction B))
    (has : Always step Fits (s.e1000RxInit alloc) as) :
    ∃ s', run step (s.e1000RxInit alloc) as = some s' ∧ s'.RxLaw := by
  obtain ⟨s', hrun, done, h⟩ := run_total_of_always (I := fun s : RxState B => ∃ done, RxInv s done)
    (fun s a ⟨done, h⟩ hfit => by
      obtain ⟨s', done', hstep, h'⟩ := h.step hfit
      exact ⟨s', hstep, done', h'⟩) ⟨0, e1000RxInit_inv hf⟩ has
  exact ⟨s', hrun, h.law⟩

end RxState

/-- Nothing was ever received; the network code holds the buffer 40. -/
def quietRing : RxState Nat where
  rx := fun _ => { address := 0, length := 0, status := 0 }
  rxBuff := fun _ => 0
  rxNow := 0
  rdt := 0
  rdh := 0
  payload := fun _ => []
  length := fun _ => 0
  pc := .test
  device := .idle
  received := []
  passed := []
  handed := [40]

/-- The device writes a second frame while the driver is busy with the
first one. -/
theorem rxRing_law_two :
    let as : List (RxAction Nat) := [.write [1, 2, 3], .mark 3, .advance, .driver 0, .driver 0,
      .driver 0, .write [4], .driver 32, .mark 1, .driver 0, .driver 0, .advance, .driver 0,
      .driver 0, .driver 0, .driver 0, .driver 0, .driver 0]
    ∃ s', run RxState.step (quietRing.e1000RxInit id) as = some s' ∧ s'.RxLaw
      ∧ s'.passed = [[1, 2, 3], [4]] := by
  intro as
  have hf : quietRing.FreshRing id := ⟨fun _ _ _ _ h => h, by decide⟩
  obtain ⟨s', hrun, hlaw⟩ := RxState.rxRing_law hf as (by decide)
  have hpassed : (run RxState.step (quietRing.e1000RxInit id) as).map RxState.passed
      = some [[1, 2, 3], [4]] := by decide
  rw [hrun] at hpassed
  exact ⟨s', hrun, hlaw, Option.some.inj hpassed⟩

end Csos
