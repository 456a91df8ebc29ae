import Csos.Lib.Run

/-!
# The transmit ring (`kernel32/device/pci/e1000.c`)

`e1000_tx_init` and `send_packet`, cut into the steps between which the
device can act. What the device does is not in the source: while its head is
not the tail that it was told, it takes the descriptor at its head, puts the
frame on the wire when the descriptor says that the packet ends there, reports
the status if the descriptor asks for it, and moves its head.

A buffer stands for itself: `netout_thread` is the only caller, and what it
sends lies where physical and virtual addresses are the same. Other code may
write to any buffer but the one that is being sent.
-/

namespace Csos

open Lib

/-- `TX_DESC_NR`. -/
abbrev txDescNr : Nat := 32

/-- `TCMD_EOP`, `TCMD_RS`. -/
abbrev tcmdEop : UInt8 := 0x01

abbrev tcmdRs : UInt8 := 0x08

/-- `TCMD_EOP | TCMD_RPS | TCMD_RS | TCMD_IFCS`. -/
abbrev txCmd : UInt8 := 0x1B

/-- `TS_DD`. -/
abbrev tsDd : UInt8 := 1

/-- `tx_desc_t`, the fields that the driver reads or writes. -/
structure TxDesc (B : Type) where
  address : B
  length : UInt16
  cmd : UInt8
  sta : UInt8
deriving DecidableEq

/-- `sta & 0xF`. -/
def TxDesc.Over {B : Type} (d : TxDesc B) : Prop := d.sta &&& 0xF ≠ 0

instance {B : Type} (d : TxDesc B) : Decidable d.Over := inferInstanceAs (Decidable (_ ≠ _))

/-- The statements of `send_packet`; `txOld` is the local variable. -/
inductive TxLine where
  | address
  | length
  | cmd
  | sta
  | next
  | tail (txOld : Nat)
  | wait (txOld : Nat)
deriving DecidableEq

/-- Whether `send_packet` is running, with its arguments. -/
inductive TxPc (B : Type) where
  | idle
  | call (line : TxLine) (eth : B) (length : UInt16)
deriving DecidableEq

/-- The buffer that is being sent. -/
def TxPc.eth {B : Type} : TxPc B → Option B
  | .idle => none
  | .call _ eth _ => some eth

/-- Where the device is with the descriptor at its head. -/
inductive TxDevice (B : Type) where
  | idle
  | fetched (d : TxDesc B)
  | transmitted (cmd : UInt8)
  | marked
deriving DecidableEq

/-- The descriptor that is read and not sent. -/
def TxDevice.toSend {B : Type} : TxDevice B → Option (TxDesc B)
  | .fetched d => some d
  | _ => none

/-- The command of the descriptor that is sent and not marked. -/
def TxDevice.toMark {B : Type} : TxDevice B → Option UInt8
  | .transmitted cmd => some cmd
  | _ => none

/-- The driver's variables, the registers and memory that it shares with
the device, and what has come to pass. -/
structure TxState (B : Type) where
  tx : Nat → TxDesc B
  txNow : Nat
  /-- `E1000_TDT` and `E1000_TDH` -/
  tdt : Nat
  tdh : Nat
  payload : B → Nat → UInt8
  length : B → UInt16
  pc : TxPc B
  device : TxDevice B
  /-- what the device has of a packet that has not ended -/
  segments : List UInt8
  /-- the frames on the wire -/
  wire : List (List UInt8)
  /-- the frames that `send_packet` was called with -/
  asked : List (List UInt8)

/-- The first bytes of a buffer. -/
def frameBytes (payload : Nat → UInt8) (length : UInt16) : List UInt8 :=
  (List.range length.toNat).map payload

namespace TxState

variable {B : Type} [DecidableEq B]

def setDesc (s : TxState B) (i : Nat) (d : TxDesc B) : TxState B :=
  { s with tx := Function.update s.tx i d }

omit [DecidableEq B] in
/-- `e1000_tx_init`; `null` is the address 0. -/
def e1000TxInit (s : TxState B) (null : B) : TxState B :=
  { s with
    tx := fun i => if i < txDescNr then { s.tx i with address := null, sta := tsDd } else s.tx i
    txNow := 0
    tdt := 0
    tdh := 0
    pc := .idle
    device := .idle
    segments := []
    wire := []
    asked := [] }

omit [DecidableEq B] in
/-- The call of `send_packet` in `e1000_send_packet`. -/
def e1000SendPacket (s : TxState B) (buff : B) : TxState B :=
  { s with
    pc := .call .address buff (s.length buff)
    asked := s.asked ++ [frameBytes (s.payload buff) (s.length buff)] }

/-- One step of `send_packet`. -/
def sendPacket (s : TxState B) : TxState B :=
  let tx := s.tx s.txNow
  match s.pc with
  | .idle => s
  | .call line eth length =>
      match line with
      | .address =>
          { s.setDesc s.txNow { tx with address := eth } with pc := .call .length eth length }
      | .length => { s.setDesc s.txNow { tx with length } with pc := .call .cmd eth length }
      | .cmd => { s.setDesc s.txNow { tx with cmd := txCmd } with pc := .call .sta eth length }
      | .sta => { s.setDesc s.txNow { tx with sta := 0 } with pc := .call .next eth length }
      | .next =>
          { s with txNow := (s.txNow + 1) % txDescNr, pc := .call (.tail s.txNow) eth length }
      | .tail txOld => { s with tdt := s.txNow, pc := .call (.wait txOld) eth length }
      | .wait txOld => if (s.tx txOld).Over then { s with pc := .idle } else s

/-- The device reads the descriptor at its head. -/
def deviceFetch (s : TxState B) : TxState B := { s with device := .fetched (s.tx s.tdh) }

/-- It reads the buffer, and sends if the packet ends with it. -/
def deviceTransmit (s : TxState B) (d : TxDesc B) : TxState B :=
  let packet := s.segments ++ frameBytes (s.payload d.address) d.length
  let s := { s with device := .transmitted d.cmd }
  if d.cmd &&& tcmdEop ≠ 0 then { s with segments := [], wire := s.wire ++ [packet] }
  else { s with segments := packet }

/-- It reports that the descriptor is done, if it is to. -/
def deviceMark (s : TxState B) (cmd sta : UInt8) : TxState B :=
  let s := { s with device := .marked }
  if cmd &&& tcmdRs ≠ 0 then s.setDesc s.tdh { s.tx s.tdh with sta } else s

omit [DecidableEq B] in
def deviceAdvance (s : TxState B) : TxState B :=
  { s with tdh := (s.tdh + 1) % txDescNr, device := .idle }

end TxState

inductive TxAction (B : Type) where
  | send (buff : B)
  | driver
  | write (buff : B) (payload : Nat → UInt8) (length : UInt16)
  | fetch
  | transmit
  | mark (sta : UInt8)
  | advance

namespace TxState

variable {B : Type} [DecidableEq B]

def step (s : TxState B) : TxAction B → Option (TxState B)
  | .send buff => some (s.e1000SendPacket buff)
  | .driver => some s.sendPacket
  | .write buff payload length =>
      some { s with
        payload := Function.update s.payload buff payload
        length := Function.update s.length buff length }
  | .fetch => some s.deviceFetch
  | .transmit => s.device.toSend.map s.deviceTransmit
  | .mark sta => s.device.toMark.map fun cmd => s.deviceMark cmd sta
  | .advance => some s.deviceAdvance

/-- One call at a time, whose buffer nobody else writes to, and a device
that keeps to its side. -/
def Fits (s : TxState B) : TxAction B → Prop
  | .send _ => s.pc = .idle
  | .driver => True
  | .write buff _ _ => s.pc.eth ≠ some buff
  | .fetch => s.device = .idle ∧ s.tdh ≠ s.tdt
  | .transmit => s.device.toSend ≠ none
  | .mark sta => s.device.toMark ≠ none ∧ sta &&& tsDd ≠ 0
  | .advance => s.device = .marked

instance (s : TxState B) : ∀ a, Decidable (s.Fits a)
  | .send _ => inferInstanceAs (Decidable (_ = _))
  | .driver => isTrue trivial
  | .write _ _ _ => inferInstanceAs (Decidable (_ ≠ _))
  | .fetch => inferInstanceAs (Decidable (_ ∧ _))
  | .transmit => inferInstanceAs (Decidable (_ ≠ _))
  | .mark _ => inferInstanceAs (Decidable (_ ∧ _))
  | .advance => inferInstanceAs (Decidable (_ = _))

/-- What the ring is for, in one state. -/
structure TxLaw (s : TxState B) : Prop where
  /-- each frame once, in the order of the calls -/
  wire : s.wire <+: s.asked
  /-- when no call is under way, everything is on the wire -/
  returned : s.pc = .idle → s.wire = s.asked
  /-- the device keeps away from a descriptor that is being filled in -/
  apart : ∀ line eth length, s.pc = .call line eth length → (∀ txOld, line ≠ .wait txOld) →
    s.device = .idle ∧ s.tdh = s.tdt ∨ s.device = .marked ∧ s.tdh ≠ s.tdt
  /-- a call that waits has the device at work, or about to be -/
  busy : ∀ txOld eth length, s.pc = .call (.wait txOld) eth length → ¬ (s.tx txOld).Over →
    s.device = .idle → s.tdh ≠ s.tdt

end TxState

/-! ## The invariant -/

namespace TxLine

/-- How many fields of the descriptor are filled in. -/
def filled : TxLine → Nat
  | .address => 0
  | .length => 1
  | .cmd => 2
  | .sta => 3
  | .next | .tail _ | .wait _ => 4

/-- Whether `tx_now` has moved on. -/
def moved : TxLine → Nat
  | .tail _ | .wait _ => 1
  | _ => 0

/-- Whether the device has been told. -/
def told : TxLine → Nat
  | .wait _ => 1
  | _ => 0

/-- `tx_old`. -/
def txOld : TxLine → Option Nat
  | .tail txOld | .wait txOld => some txOld
  | _ => none

end TxLine

namespace TxPc

variable {B : Type}

def calls : TxPc B → Nat
  | .idle => 0
  | .call _ _ _ => 1

def moved : TxPc B → Nat
  | .idle => 0
  | .call line _ _ => line.moved

def told : TxPc B → Nat
  | .idle => 0
  | .call line _ _ => line.told

end TxPc

/-- A descriptor that is done with the head still on it. -/
def TxDevice.held {B : Type} : TxDevice B → Nat
  | .idle | .fetched _ => 0
  | .transmitted _ | .marked => 1

/-- Between two descriptors, as far as the driver can tell. -/
def TxDevice.AtRest {B : Type} : TxDevice B → Prop
  | .idle | .marked => True
  | .fetched _ | .transmitted _ => False

/-- The first fields of a descriptor. -/
structure TxDesc.Filled {B : Type} (d : TxDesc B) (n : Nat) (eth : B) (length : UInt16) :
    Prop where
  address : 1 ≤ n → d.address = eth
  length : 2 ≤ n → d.length = length
  cmd : 3 ≤ n → d.cmd = txCmd

namespace TxState

variable {B : Type} {s : TxState B} {done : Nat}

/-- The state after `done` whole calls. -/
structure TxInv (s : TxState B) (done : Nat) : Prop where
  now : s.txNow = (done + s.pc.moved) % 32
  tdt : s.tdt = (done + s.pc.told) % 32
  tdh : ∃ head, head + s.device.held = s.wire.length ∧ s.tdh = head % 32
  asked : s.asked.length = done + s.pc.calls
  wire : s.wire <+: s.asked
  low : done ≤ s.wire.length
  high : s.wire.length ≤ done + s.pc.told
  segments : s.segments = []
  rest : s.pc.told = 0 → s.device.AtRest
  filled : ∀ line eth length, s.pc = .call line eth length →
    (s.tx (done % 32)).Filled line.filled eth length
  frame : ∀ line eth length, s.pc = .call line eth length →
    s.asked[done]? = some (frameBytes (s.payload eth) length)
  old : ∀ line eth length, s.pc = .call line eth length → ∀ txOld ∈ line.txOld, txOld = done % 32
  cleared : ∀ line eth length, s.pc = .call line eth length → 4 ≤ line.filled → line.told = 0 →
    ¬ (s.tx (done % 32)).Over
  fetched : ∀ d, s.device = .fetched d →
    s.wire.length = done ∧ ¬ (s.tx (done % 32)).Over ∧ d = s.tx (done % 32)
  transmitted : ∀ cmd, s.device = .transmitted cmd →
    s.wire.length = done + 1 ∧ ¬ (s.tx (done % 32)).Over ∧ cmd = txCmd
  finished : s.pc.told = 1 → s.device.AtRest → ((s.tx (done % 32)).Over ↔ s.wire.length = done + 1)

theorem TxInv.law (h : TxInv s done) : TxLaw s := by
  obtain ⟨head, hheld, htdh⟩ := h.tdh
  have hlow := h.low
  have hhigh := h.high
  have htdt := h.tdt
  refine ⟨h.wire, ?_, ?_, ?_⟩
  · intro hpc
    have hasked := h.asked
    rw [hpc, TxPc.told] at hhigh
    rw [hpc, TxPc.calls] at hasked
    exact h.wire.eq_of_length (by omega)
  · intro line eth length hpc hline
    have htold : s.pc.told = 0 := by
      rw [hpc, TxPc.told]
      cases line with
      | wait txOld => exact absurd rfl (hline txOld)
      | _ => rfl
    have hrest := h.rest htold
    cases hdev : s.device with
    | idle =>
        rw [hdev, TxDevice.held] at hheld
        exact .inl ⟨rfl, by omega⟩
    | marked =>
        rw [hdev, TxDevice.held] at hheld
        exact .inr ⟨rfl, by omega⟩
    | fetched d => rw [hdev] at hrest; exact hrest.elim
    | transmitted cmd => rw [hdev] at hrest; exact hrest.elim
  · intro txOld eth length hpc hover hdev
    have htold : s.pc.told = 1 := by rw [hpc]; rfl
    have hold : txOld = done % 32 := h.old _ _ _ hpc txOld rfl
    rw [hold, h.finished htold (hdev ▸ trivial)] at hover
    rw [hdev, TxDevice.held] at hheld
    omega

/-! ## One step -/

theorem over_of_done {sta : UInt8} (h : sta &&& tsDd ≠ 0) : sta &&& 0xF ≠ 0 := by
  intro hzero
  refine h ?_
  calc sta &&& tsDd = (sta &&& 0xF) &&& tsDd := by rw [UInt8.and_assoc]; rfl
    _ = 0 := by rw [hzero, UInt8.zero_and]

/-- A call starts. -/
theorem TxInv.send {buff : B} (h : TxInv s done) (hf : s.pc = .idle) :
    TxInv (s.e1000SendPacket buff) done := by
  obtain ⟨tx, txNow, tdt, tdh, payload, length, pc, device, segments, wire, asked⟩ := s
  obtain rfl : pc = .idle := hf
  have hasked : asked.length = done := h.asked
  have hwire : wire <+: asked := h.wire
  exact { h with
    asked := by
      change (asked ++ [frameBytes (payload buff) (length buff)]).length = done + 1
      rw [List.length_append, hasked]
      rfl
    wire := hwire.trans (List.prefix_append _ _)
    filled := by
      rintro line eth n ⟨⟩
      exact ⟨fun h => absurd h (by decide), fun h => absurd h (by decide),
        fun h => absurd h (by decide)⟩
    frame := by
      rintro line eth n ⟨⟩
      change (asked ++ [frameBytes (payload buff) (length buff)])[done]? = _
      rw [List.getElem?_append_right (Nat.le_of_eq hasked), hasked, Nat.sub_self]
      rfl
    old := by
      rintro line eth n ⟨⟩ txOld hold
      cases hold
    cleared := by
      rintro line eth n ⟨⟩ hle
      exact absurd hle (by decide)
    finished := fun htold => absurd htold Nat.zero_ne_one }

/-- A field of the descriptor is filled in. -/
theorem TxInv.fill {line line' : TxLine} {eth : B} {length : UInt16} {d : TxDesc B}
    (h : TxInv s done) (hpc : s.pc = .call line eth length) (hline : line.filled < 4)
    (hline' : line'.filled = line.filled + 1) (htold : line.told = 0) (htold' : line'.told = 0)
    (hmoved : line.moved = 0) (hmoved' : line'.moved = 0) (hold : line'.txOld = none)
    (hd : d.Filled line'.filled eth length) (hclear : line'.filled = 4 → ¬ d.Over) :
    TxInv { s.setDesc s.txNow d with pc := .call line' eth length } done := by
  obtain ⟨tx, txNow, tdt, tdh, payload, len, pc, device, segments, wire, asked⟩ := s
  obtain rfl : pc = .call line eth length := hpc
  have hnow : txNow = done % 32 := by
    have hnow := h.now
    change txNow = (done + line.moved) % 32 at hnow
    rwa [hmoved] at hnow
  have hself : Function.update tx txNow d (done % 32) = d := by
    rw [hnow]
    exact Function.update_self ..
  have hrest : device.AtRest := h.rest htold
  exact { h with
    now := by
      change txNow = (done + line'.moved) % 32
      rw [hmoved']
      exact hnow
    tdt := by
      have htdt := h.tdt
      change tdt = (done + line.told) % 32 at htdt
      change tdt = (done + line'.told) % 32
      rwa [htold', ← htold]
    high := by
      have hhigh := h.high
      change wire.length ≤ done + line.told at hhigh
      change wire.length ≤ done + line'.told
      rwa [htold', ← htold]
    rest := fun _ => hrest
    filled := by
      rintro _ _ _ ⟨⟩
      change (Function.update tx txNow d (done % 32)).Filled _ _ _
      rwa [hself]
    frame := by
      rintro _ _ _ ⟨⟩
      exact h.frame line eth length rfl
    old := by
      rintro _ _ _ ⟨⟩ txOld hmem
      rw [hold] at hmem
      cases hmem
    cleared := by
      rintro _ _ _ ⟨⟩ hle _
      change ¬ (Function.update tx txNow d (done % 32)).Over
      rw [hself]
      exact hclear (by omega)
    fetched := by
      rintro d rfl
      exact hrest.elim
    transmitted := by
      rintro cmd rfl
      exact hrest.elim
    finished := fun ht => absurd (htold'.symm.trans ht) (by decide) }

/-- `tx_now` moves on. -/
theorem TxInv.next {eth : B} {length : UInt16} (h : TxInv s done)
    (hpc : s.pc = .call .next eth length) :
    TxInv { s with txNow := (s.txNow + 1) % txDescNr, pc := .call (.tail s.txNow) eth length }
      done := by
  obtain ⟨tx, txNow, tdt, tdh, payload, len, pc, device, segments, wire, asked⟩ := s
  obtain rfl : pc = .call .next eth length := hpc
  obtain rfl : txNow = done % 32 := h.now
  exact { h with
    now := by
      change (done % 32 + 1) % 32 = (done + 1) % 32
      omega
    filled := by
      rintro _ _ _ ⟨⟩
      exact h.filled .next eth length rfl
    frame := by
      rintro _ _ _ ⟨⟩
      exact h.frame .next eth length rfl
    old := by
      rintro _ _ _ ⟨⟩ _ ⟨⟩
      rfl
    cleared := by
      rintro _ _ _ ⟨⟩ hle htold
      exact h.cleared .next eth length rfl hle htold }

/-- The device is told. -/
theorem TxInv.tail {eth : B} {length : UInt16} {txOld : Nat} (h : TxInv s done)
    (hpc : s.pc = .call (.tail txOld) eth length) :
    TxInv { s with tdt := s.txNow, pc := .call (.wait txOld) eth length } done := by
  obtain ⟨tx, txNow, tdt, tdh, payload, len, pc, device, segments, wire, asked⟩ := s
  obtain rfl : pc = .call (.tail txOld) eth length := hpc
  obtain rfl : txNow = (done + 1) % 32 := h.now
  have hlow : done ≤ wire.length := h.low
  have hhigh : wire.length ≤ done := h.high
  have hclear : ¬ (tx (done % 32)).Over :=
    h.cleared (.tail txOld) eth length rfl (Nat.le_refl 4) rfl
  have hrest : device.AtRest := h.rest rfl
  exact { h with
    tdt := rfl
    high := Nat.le_succ_of_le hhigh
    rest := fun ht => absurd ht Nat.one_ne_zero
    filled := by
      rintro _ _ _ ⟨⟩
      exact h.filled (.tail txOld) eth length rfl
    frame := by
      rintro _ _ _ ⟨⟩
      exact h.frame (.tail txOld) eth length rfl
    old := by
      rintro _ _ _ ⟨⟩ _ ⟨⟩
      exact h.old (.tail txOld) eth length rfl txOld rfl
    cleared := by
      rintro _ _ _ ⟨⟩ _ ht
      exact absurd ht Nat.one_ne_zero
    finished := fun _ _ => ⟨fun hover => absurd hover hclear, fun hlen => by
      change wire.length = done + 1 at hlen
      omega⟩ }

/-- The call returns: the frame is on the wire. -/
theorem TxInv.wait {eth : B} {length : UInt16} {txOld : Nat} (h : TxInv s done)
    (hpc : s.pc = .call (.wait txOld) eth length) (hover : (s.tx txOld).Over) :
    TxInv { s with pc := .idle } (done + 1) := by
  obtain ⟨tx, txNow, tdt, tdh, payload, len, pc, device, segments, wire, asked⟩ := s
  obtain rfl : pc = .call (.wait txOld) eth length := hpc
  obtain rfl : txOld = done % 32 := h.old _ eth length rfl txOld rfl
  have hrest : device.AtRest := by
    cases device with
    | idle => trivial
    | marked => trivial
    | fetched d => exact absurd hover (h.fetched d rfl).2.1
    | transmitted cmd => exact absurd hover (h.transmitted cmd rfl).2.1
  have hlen : wire.length = done + 1 := (h.finished rfl hrest).mp hover
  exact {
    now := h.now
    tdt := h.tdt
    tdh := h.tdh
    asked := h.asked
    wire := h.wire
    low := Nat.le_of_eq hlen.symm
    high := Nat.le_of_eq hlen
    segments := h.segments
    rest := fun _ => hrest
    filled := by rintro _ _ _ ⟨⟩
    frame := by rintro _ _ _ ⟨⟩
    old := by rintro _ _ _ ⟨⟩
    cleared := by rintro _ _ _ ⟨⟩
    fetched := by
      rintro d rfl
      exact hrest.elim
    transmitted := by
      rintro cmd rfl
      exact hrest.elim
    finished := fun ht => absurd ht Nat.zero_ne_one }

theorem TxInv.driver (h : TxInv s done) : ∃ done', TxInv s.sendPacket done' := by
  have hdesc (eth : B) (length : UInt16) (line : TxLine)
      (hpc : s.pc = .call line eth length) (hmoved : line.moved = 0) :
      (s.tx s.txNow).Filled line.filled eth length := by
    have hnow := h.now
    rw [hpc, TxPc.moved, hmoved, Nat.add_zero] at hnow
    rw [hnow]
    exact h.filled line eth length hpc
  unfold sendPacket
  cases hpc : s.pc with
  | idle => exact ⟨done, h⟩
  | call line eth length =>
      cases line with
      | address =>
          refine ⟨done, h.fill hpc (by decide) rfl rfl rfl rfl rfl rfl ⟨?_, ?_, ?_⟩
            fun h => absurd h (by decide)⟩
          · exact fun _ => rfl
          · exact fun h => absurd h (by decide)
          · exact fun h => absurd h (by decide)
      | length =>
          have hd := hdesc eth length _ hpc rfl
          refine ⟨done, h.fill hpc (by decide) rfl rfl rfl rfl rfl rfl ⟨?_, ?_, ?_⟩
            fun h => absurd h (by decide)⟩
          · exact fun _ => hd.address (by decide)
          · exact fun _ => rfl
          · exact fun h => absurd h (by decide)
      | cmd =>
          have hd := hdesc eth length _ hpc rfl
          refine ⟨done, h.fill hpc (by decide) rfl rfl rfl rfl rfl rfl ⟨?_, ?_, ?_⟩
            fun h => absurd h (by decide)⟩
          · exact fun _ => hd.address (by decide)
          · exact fun _ => hd.length (by decide)
          · exact fun _ => rfl
      | sta =>
          have hd := hdesc eth length _ hpc rfl
          refine ⟨done, h.fill hpc (by decide) rfl rfl rfl rfl rfl rfl ⟨?_, ?_, ?_⟩ ?_⟩
          · exact fun _ => hd.address (by decide)
          · exact fun _ => hd.length (by decide)
          · exact fun _ => hd.cmd (by decide)
          · exact fun _ hover => hover (by simp)
      | next => exact ⟨done, h.next hpc⟩
      | tail txOld => exact ⟨done, h.tail hpc⟩
      | wait txOld =>
          dsimp only
          split
          case isTrue hover => exact ⟨done + 1, h.wait hpc hover⟩
          case isFalse => exact ⟨done, h⟩

/-- Another buffer is written. -/
theorem TxInv.write [DecidableEq B] {buff : B} {data : Nat → UInt8} {len : UInt16}
    (h : TxInv s done) (hf : s.pc.eth ≠ some buff) :
    TxInv { s with
      payload := Function.update s.payload buff data
      length := Function.update s.length buff len } done := by
  exact { h with
    frame := by
      intro line eth n hpc
      change s.pc = .call line eth n at hpc
      have hne : eth ≠ buff := fun he => hf (by rw [hpc, he]; rfl)
      change s.asked[done]? = some (frameBytes (Function.update s.payload buff data eth) n)
      rw [Function.update_of_ne hne]
      exact h.frame line eth n hpc }

/-- The device takes the descriptor that is filled in. -/
theorem TxInv.fetch (h : TxInv s done) (hdev : s.device = .idle) (hne : s.tdh ≠ s.tdt) :
    TxInv s.deviceFetch done := by
  obtain ⟨tx, txNow, tdt, tdh, payload, len, pc, device, segments, wire, asked⟩ := s
  obtain rfl : device = .idle := hdev
  obtain ⟨head, hheld, htdh⟩ := h.tdh
  obtain rfl : head = wire.length := hheld
  obtain rfl : tdh = wire.length % 32 := htdh
  obtain rfl : tdt = (done + pc.told) % 32 := h.tdt
  have hlow : done ≤ wire.length := h.low
  have hhigh : wire.length ≤ done + pc.told := h.high
  have htold : pc.told ≤ 1 := by
    cases pc with
    | idle => exact Nat.zero_le 1
    | call line eth n => cases line <;> simp [TxPc.told, TxLine.told]
  change wire.length % 32 ≠ (done + pc.told) % 32 at hne
  have hone : pc.told = 1 := by
    by_contra hzero
    exact hne (by rw [show wire.length = done + pc.told by omega])
  have hlen : wire.length = done := by
    by_contra hother
    exact hne (by rw [show wire.length = done + pc.told by omega])
  have hover := h.finished hone trivial
  exact { h with
    tdh := ⟨wire.length, rfl, rfl⟩
    rest := fun hzero => absurd (hone.symm.trans hzero) Nat.one_ne_zero
    fetched := by
      rintro _ ⟨⟩
      refine ⟨hlen, fun h => ?_, ?_⟩
      · have hnext : wire.length = done + 1 := hover.mp h
        omega
      · change tx (wire.length % 32) = tx (done % 32)
        rw [hlen]
    transmitted := by rintro _ ⟨⟩
    finished := fun _ hrest => hrest.elim }

/-- Only a call that waits has told the device. -/
theorem told_ne_zero {pc : TxPc B} (h : pc.told ≠ 0) :
    ∃ txOld eth length, pc = .call (.wait txOld) eth length := by
  cases pc with
  | idle => exact absurd rfl h
  | call line eth length =>
      cases line with
      | wait txOld => exact ⟨txOld, eth, length, rfl⟩
      | _ => exact absurd rfl h

theorem prefix_concat {α : Type} {xs ys : List α} {x : α} (h : xs <+: ys)
    (hx : ys[xs.length]? = some x) : xs ++ [x] <+: ys := by
  obtain ⟨zs, rfl⟩ := h
  rw [List.getElem?_append_right (Nat.le_refl _), Nat.sub_self] at hx
  cases zs with
  | nil => cases hx
  | cons z zs =>
      obtain rfl := Option.some.inj hx
      exact ⟨zs, by rw [List.append_assoc, List.singleton_append]⟩

/-- The frame goes out: it is the one that the call is about. -/
theorem TxInv.transmit {d : TxDesc B} (h : TxInv s done) (hdev : s.device = .fetched d) :
    TxInv (s.deviceTransmit d) done := by
  obtain ⟨tx, txNow, tdt, tdh, payload, len, pc, device, segments, wire, asked⟩ := s
  obtain rfl : device = .fetched d := hdev
  obtain rfl : segments = [] := h.segments
  obtain ⟨hlen, hover, hd⟩ := h.fetched d rfl
  obtain ⟨head, hheld, htdh⟩ := h.tdh
  obtain ⟨txOld, eth, n, rfl⟩ : ∃ txOld eth n, pc = .call (.wait txOld) eth n :=
    told_ne_zero h.rest
  dsimp only at hlen hover hd hheld htdh
  have hfilled : d.Filled 4 eth n := hd ▸ h.filled (.wait txOld) eth n rfl
  have hcmd : d.cmd = txCmd := hfilled.cmd (by decide)
  have hasked : asked[wire.length]? = some (frameBytes (payload d.address) d.length) := by
    rw [hfilled.address (by decide), hfilled.length (by decide), hlen]
    exact h.frame (.wait txOld) eth n rfl
  have hwire : (wire ++ [frameBytes (payload d.address) d.length]).length = done + 1 := by
    rw [List.length_append, hlen]
    rfl
  unfold deviceTransmit
  rw [if_pos (by rw [hcmd]; decide)]
  exact { h with
    tdh := ⟨head, by
      change head + 1 = (wire ++ [frameBytes (payload d.address) d.length]).length
      change head = wire.length at hheld
      omega, htdh⟩
    wire := prefix_concat h.wire hasked
    low := by
      change done ≤ (wire ++ [frameBytes (payload d.address) d.length]).length
      omega
    high := Nat.le_of_eq hwire
    segments := rfl
    rest := fun hzero => absurd hzero Nat.one_ne_zero
    fetched := by rintro _ ⟨⟩
    transmitted := by
      rintro _ ⟨⟩
      exact ⟨hwire, hover, hcmd⟩
    finished := fun _ hrest => hrest.elim }

/-- The status tells the call that it may return. -/
theorem TxInv.mark {cmd sta : UInt8} (h : TxInv s done) (hdev : s.device = .transmitted cmd)
    (hsta : sta &&& tsDd ≠ 0) : TxInv (s.deviceMark cmd sta) done := by
  obtain ⟨tx, txNow, tdt, tdh, payload, len, pc, device, segments, wire, asked⟩ := s
  obtain rfl : device = .transmitted cmd := hdev
  obtain ⟨hlen, hover, rfl⟩ := h.transmitted cmd rfl
  obtain ⟨head, hheld, htdh⟩ := h.tdh
  obtain ⟨txOld, eth, n, rfl⟩ : ∃ txOld eth n, pc = .call (.wait txOld) eth n :=
    told_ne_zero h.rest
  have hhead : head = done := by
    change head + 1 = wire.length at hheld
    change wire.length = done + 1 at hlen
    omega
  obtain rfl : tdh = done % 32 := hhead ▸ htdh
  have hself : Function.update tx (done % 32) { tx (done % 32) with sta } (done % 32)
      = { tx (done % 32) with sta } := Function.update_self ..
  have hfilled := h.filled (.wait txOld) eth n rfl
  unfold deviceMark
  rw [if_pos (by decide)]
  exact { h with
    tdh := ⟨head, hheld, by rw [hhead]; rfl⟩
    rest := fun hzero => absurd hzero Nat.one_ne_zero
    filled := by
      rintro _ _ _ ⟨⟩
      change (Function.update tx (done % 32) _ (done % 32)).Filled _ _ _
      rw [hself]
      exact ⟨hfilled.address, hfilled.length, hfilled.cmd⟩
    cleared := by
      rintro _ _ _ ⟨⟩ _ hzero
      exact absurd hzero Nat.one_ne_zero
    fetched := by rintro _ ⟨⟩
    transmitted := by rintro _ ⟨⟩
    finished := by
      intro _ _
      change (Function.update tx (done % 32) _ (done % 32)).Over ↔ wire.length = done + 1
      rw [hself]
      exact ⟨fun _ => hlen, fun _ => over_of_done hsta⟩ }

/-- The head moves past a descriptor that is done. -/
theorem TxInv.advance (h : TxInv s done) (hdev : s.device = .marked) :
    TxInv s.deviceAdvance done := by
  obtain ⟨tx, txNow, tdt, tdh, payload, len, pc, device, segments, wire, asked⟩ := s
  obtain rfl : device = .marked := hdev
  obtain ⟨head, hheld, htdh⟩ := h.tdh
  exact { h with
    tdh := ⟨head + 1, hheld, by
      change (tdh + 1) % 32 = (head + 1) % 32
      change tdh = head % 32 at htdh
      omega⟩
    rest := fun _ => trivial
    fetched := by rintro _ ⟨⟩
    transmitted := by rintro _ ⟨⟩
    finished := fun htold _ => h.finished htold trivial }

/-! ## Every run -/

theorem e1000TxInit_inv (s : TxState B) (null : B) : TxInv (s.e1000TxInit null) 0 where
  now := rfl
  tdt := rfl
  tdh := ⟨0, rfl, rfl⟩
  asked := rfl
  wire := List.prefix_rfl
  low := Nat.le_refl 0
  high := Nat.le_refl 0
  segments := rfl
  rest := fun _ => trivial
  filled := by rintro _ _ _ ⟨⟩
  frame := by rintro _ _ _ ⟨⟩
  old := by rintro _ _ _ ⟨⟩
  cleared := by rintro _ _ _ ⟨⟩
  fetched := by rintro _ ⟨⟩
  transmitted := by rintro _ ⟨⟩
  finished := fun htold => absurd htold Nat.zero_ne_one

variable [DecidableEq B]

theorem TxInv.step {a : TxAction B} (h : TxInv s done) (hf : s.Fits a) :
    ∃ s' done', s.step a = some s' ∧ TxInv s' done' := by
  cases a with
  | send buff => exact ⟨_, done, rfl, h.send hf⟩
  | driver =>
      obtain ⟨done', h'⟩ := h.driver
      exact ⟨_, done', rfl, h'⟩
  | write buff data len => exact ⟨_, done, rfl, h.write hf⟩
  | fetch => exact ⟨_, done, rfl, h.fetch hf.1 hf.2⟩
  | transmit =>
      obtain ⟨d, hd⟩ := Option.ne_none_iff_exists'.mp hf
      have hdev : s.device = .fetched d := by
        cases hdev : s.device <;> simp_all [TxDevice.toSend]
      refine ⟨_, done, ?_, h.transmit hdev⟩
      rw [TxState.step, hd, Option.map_some]
  | mark sta =>
      obtain ⟨cmd, hcmd⟩ := Option.ne_none_iff_exists'.mp hf.1
      have hdev : s.device = .transmitted cmd := by
        cases hdev : s.device <;> simp_all [TxDevice.toMark]
      refine ⟨_, done, ?_, h.mark hdev hf.2⟩
      rw [TxState.step, hcmd, Option.map_some]
  | advance => exact ⟨_, done, rfl, h.advance hf⟩

/-- From `e1000_tx_init` on, every run comes back and ends in a state that
obeys the law. -/
theorem txRing_law (s : TxState B) (null : B) (as : List (TxAction B))
    (has : Always step Fits (s.e1000TxInit null) as) :
    ∃ s', run step (s.e1000TxInit null) as = some s' ∧ s'.TxLaw := by
  obtain ⟨s', hrun, done, h⟩ := run_total_of_always (I := fun s : TxState B => ∃ done, TxInv s done)
    (fun s a ⟨done, h⟩ hfit => by
      obtain ⟨s', done', hstep, h'⟩ := h.step hfit
      exact ⟨s', hstep, done', h'⟩) ⟨0, e1000TxInit_inv s null⟩ has
  exact ⟨s', hrun, h.law⟩

end TxState

/-- Nothing was ever sent; the buffers hold their number. -/
def quietTxRing : TxState Nat where
  tx := fun _ => { address := 0, length := 0, cmd := 0, sta := 0 }
  txNow := 0
  tdt := 0
  tdh := 0
  payload := fun b _ => UInt8.ofNat b
  length := fun _ => 2
  pc := .idle
  device := .idle
  segments := []
  wire := []
  asked := []

/-- The second call starts while the head is still on the first
descriptor. -/
theorem txRing_law_two :
    let as : List (TxAction Nat) := [.send 7, .driver, .driver, .driver, .driver, .driver, .driver,
      .fetch, .driver, .transmit, .mark 1, .driver, .send 9, .driver, .driver, .advance, .driver,
      .driver, .driver, .driver, .write 7 (fun _ => 0) 3, .fetch, .transmit, .mark 1, .driver]
    ∃ s', run TxState.step (quietTxRing.e1000TxInit 0) as = some s' ∧ s'.TxLaw
      ∧ s'.wire = [[7, 7], [9, 9]] := by
  intro as
  obtain ⟨s', hrun, hlaw⟩ := TxState.txRing_law quietTxRing 0 as (by decide)
  have hwire : (run TxState.step (quietTxRing.e1000TxInit 0) as).map TxState.wire
      = some [[7, 7], [9, 9]] := by decide
  rw [hrun] at hwire
  exact ⟨s', hrun, hlaw, Option.some.inj hwire⟩

end Csos
