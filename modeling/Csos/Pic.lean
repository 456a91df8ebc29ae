import Csos.Lib.Census
import Csos.Lib.Run
import Mathlib.Data.BitVec

/-!
# The interrupt controllers (`kernel32/pic.c`)

`pic_init`, `irq_enable`, `irq_disable` and `send_eoi`, as the bytes that they
write, and the two 8259A that these go to. What the controllers make of them
is not in the source: four words initialise one, a word to the data port is the
mask after that, and `PIC_OCW2_EOI` ends the highest interrupt in service.

A handler may be switched away before its `send_eoi`, since it may wake a task
that runs at once, and others may come in between. So `send_eoi` need not end
the interrupt that it is meant for; `PicLaw` says what is right all the same.
-/

namespace Csos

open Lib

/-- What the next byte at the data port is. -/
inductive PicStage where
  | off
  | icw2
  | icw3
  | icw4
  | ready
deriving DecidableEq

/-- An 8259A. -/
structure Pic where
  stage : PicStage
  icw1 : BitVec 8
  icw2 : BitVec 8
  icw3 : BitVec 8
  icw4 : BitVec 8
  /-- masked, requested and in service -/
  imr : BitVec 8
  irr : BitVec 8
  isr : BitVec 8
deriving DecidableEq

namespace Pic

def bit (i : Nat) : BitVec 8 := BitVec.twoPow 8 i

/-- The line that comes first. -/
def first (lines : BitVec 8) : Option Nat := (List.range 8).find? fun i => lines.getLsbD i

/-- A byte at the command port: `ICW1` or `OCW2`. -/
def command (p : Pic) (val : BitVec 8) : Pic :=
  if val.getLsbD 4 then { p with stage := .icw2, icw1 := val, imr := 0, irr := 0, isr := 0 }
  else if val = 0x20 then
    match first p.isr with
    | some i => { p with isr := p.isr &&& ~~~bit i }
    | none => p
  else p

/-- A byte at the data port: `ICW2` to `ICW4`, or the mask. -/
def data (p : Pic) (val : BitVec 8) : Pic :=
  let afterIcw3 : PicStage := if p.icw1.getLsbD 0 then .icw4 else .ready
  match p.stage with
  | .off => p
  | .icw2 => { p with stage := if p.icw1.getLsbD 1 then afterIcw3 else .icw3, icw2 := val }
  | .icw3 => { p with stage := afterIcw3, icw3 := val }
  | .icw4 => { p with stage := .ready, icw4 := val }
  | .ready => { p with imr := val }

/-- The line that the controller asks for, of the requests `irr`: the first
one that is not masked, unless it or an earlier one is in service. -/
def request (p : Pic) (irr : BitVec 8) : Option Nat :=
  if p.stage = .ready then
    (first (irr &&& ~~~p.imr)).filter fun i => (List.range (i + 1)).all fun j => !p.isr.getLsbD j
  else none

/-- The processor takes the request. -/
def serve (p : Pic) (i : Nat) : Pic := { p with irr := p.irr &&& ~~~bit i, isr := p.isr ||| bit i }

/-- The vector of a line. -/
def vector (p : Pic) (i : Nat) : Nat := (p.icw2 &&& 0xF8).toNat + i

end Pic

/-- The two controllers; the second one is wired to line 2 of the first. -/
structure Pics where
  pic0 : Pic
  pic1 : Pic

namespace Pics

/-- `outb`. -/
def outb (s : Pics) (port : Nat) (val : BitVec 8) : Pics :=
  if port = 0x20 then { s with pic0 := s.pic0.command val }
  else if port = 0x21 then { s with pic0 := s.pic0.data val }
  else if port = 0xA0 then { s with pic1 := s.pic1.command val }
  else if port = 0xA1 then { s with pic1 := s.pic1.data val }
  else s

/-- `inb(PIC0_IMR)` and `inb(PIC1_IMR)`. -/
def inbImr (s : Pics) (port : Nat) : BitVec 8 := if port = 0x21 then s.pic0.imr else s.pic1.imr

def picInit (s : Pics) : Pics :=
  let s := s.outb 0x20 0x11
  let s := s.outb 0x21 0x20
  let s := s.outb 0x21 4
  let s := s.outb 0x21 1
  let s := s.outb 0xA0 0x11
  let s := s.outb 0xA1 0x28
  let s := s.outb 0xA1 2
  let s := s.outb 0xA1 1
  let s := s.outb 0x21 0xFB
  s.outb 0xA1 0xFF

/-- `1 << irq_number`, as far as a byte of it is used. -/
def irqBit (irqNumber : Int) : BitVec 8 := ((1 : BitVec 32) <<< irqNumber.toNat).setWidth 8

def irqEnable (s : Pics) (irqNumber : Int) : Pics :=
  if irqNumber < 0x20 then s
  else if irqNumber - 0x20 < 8 then s.outb 0x21 (s.inbImr 0x21 &&& ~~~irqBit (irqNumber - 0x20))
  else s.outb 0xA1 (s.inbImr 0xA1 &&& ~~~irqBit (irqNumber - 0x20 - 8))

def irqDisable (s : Pics) (irqNumber : Int) : Pics :=
  if irqNumber < 0x20 then s
  else if irqNumber - 0x20 < 8 then s.outb 0x21 (s.inbImr 0x21 ||| irqBit (irqNumber - 0x20))
  else s.outb 0xA1 (s.inbImr 0xA1 ||| irqBit (irqNumber - 0x20 - 8))

def sendEoi (s : Pics) (irqNumber : Int) : Pics :=
  if 8 ≤ irqNumber - 0x20 then (s.outb 0xA0 0x20).outb 0x20 0x20 else s.outb 0x20 0x20

/-- A device asks for an interrupt. -/
def raise (s : Pics) (line : Nat) : Pics :=
  if line < 8 then { s with pic0 := { s.pic0 with irr := s.pic0.irr ||| Pic.bit line } }
  else { s with pic1 := { s.pic1 with irr := s.pic1.irr ||| Pic.bit (line - 8) } }

/-- The requests at the first controller. -/
def irr0 (s : Pics) : BitVec 8 :=
  (s.pic0.irr &&& ~~~Pic.bit 2) ||| if (s.pic1.request s.pic1.irr).isSome then Pic.bit 2 else 0

/-- The processor takes an interrupt, and gets its vector. -/
def acknowledge (s : Pics) : Option (Pics × Nat) := do
  let i ← s.pic0.request s.irr0
  let pic0 := s.pic0.serve i
  if s.pic0.icw3.getLsbD i then
    let j ← s.pic1.request s.pic1.irr
    return (⟨pic0, s.pic1.serve j⟩, s.pic1.vector j)
  else return (⟨pic0, s.pic1⟩, s.pic0.vector i)

/-- The bit of a line, in the registers of the two. -/
def lineBit (x₀ x₁ : BitVec 8) (line : Nat) : Bool :=
  if line < 8 then x₀.getLsbD line else x₁.getLsbD (line - 8)

/-- Whether a line is masked. -/
def masked (s : Pics) : Nat → Bool := lineBit s.pic0.imr s.pic1.imr

/-- Whether a line has asked and not been taken. -/
def requested (s : Pics) : Nat → Bool := lineBit s.pic0.irr s.pic1.irr

end Pics

/-- The controllers, the handlers that are under way, by the vector that they
will give to `send_eoi`, and what has been asked for since `pic_init`. -/
structure PicRun where
  pics : Pics
  handlers : List Nat
  enabled : Nat → Bool
  waiting : Nat → Bool

inductive PicAction where
  | raise (line : Nat)
  | interrupt
  | eoi (vector : Nat)
  | enable (irqNumber : Int)
  | disable (irqNumber : Int)

namespace PicRun

/-- After `pic_init`. -/
def start (s : Pics) : PicRun where
  pics := s.picInit
  handlers := []
  enabled := fun line => line = 2
  waiting := fun _ => false

/-- `irq_enable` and `irq_disable` for one of the sixteen lines. -/
def setEnabled (enabled : Nat → Bool) (irqNumber : Int) (b : Bool) : Nat → Bool :=
  if 0x20 ≤ irqNumber ∧ irqNumber < 0x30 then Function.update enabled (irqNumber - 0x20).toNat b
  else enabled

def step (r : PicRun) : PicAction → Option PicRun
  | .raise line =>
      some { r with pics := r.pics.raise line, waiting := Function.update r.waiting line true }
  | .interrupt =>
      match r.pics.acknowledge with
      | some (pics, vector) =>
          some { r with
            pics
            handlers := vector :: r.handlers
            waiting := Function.update r.waiting (vector - 0x20) false }
      | none => some r
  | .eoi vector =>
      some { r with pics := r.pics.sendEoi vector, handlers := r.handlers.erase vector }
  | .enable irqNumber =>
      some { r with
        pics := r.pics.irqEnable irqNumber
        enabled := setEnabled r.enabled irqNumber true }
  | .disable irqNumber =>
      some { r with
        pics := r.pics.irqDisable irqNumber
        enabled := setEnabled r.enabled irqNumber false }

/-- Line 2 has no device, a handler ends once, and a shift stays in an `int`. -/
def Fits (r : PicRun) : PicAction → Prop
  | .raise line => line < 16 ∧ line ≠ 2
  | .interrupt => True
  | .eoi vector => vector ∈ r.handlers
  | .enable irqNumber | .disable irqNumber => irqNumber < 0x28 + 31

instance (r : PicRun) : ∀ a, Decidable (r.Fits a)
  | .raise _ => inferInstanceAs (Decidable (_ ∧ _))
  | .interrupt => isTrue trivial
  | .eoi _ => inferInstanceAs (Decidable (_ ∈ _))
  | .enable _ | .disable _ => inferInstanceAs (Decidable (_ < _))

/-- What the controllers are for, in one state. -/
structure PicLaw (r : PicRun) : Prop where
  /-- a line is open if it was enabled last -/
  masked : ∀ line < 16, r.pics.masked line = !r.enabled line
  /-- no request gets lost, and none is taken twice -/
  requested : ∀ line < 16, r.pics.requested line = r.waiting line
  /-- when all handlers have come to their end, nothing is held up -/
  quiet : r.handlers = [] → r.pics.pic0.isr = 0 ∧ r.pics.pic1.isr = 0
  /-- and whatever is asked for can be taken -/
  ready : r.handlers = [] → ∀ line < 16, r.waiting line → r.enabled line →
    (8 ≤ line → r.enabled 2) → r.pics.acknowledge ≠ none
  /-- what is taken was asked for and enabled -/
  taken : ∀ pics vector, r.pics.acknowledge = some (pics, vector) →
    ∃ line < 16, vector = 0x20 + line ∧ r.waiting line ∧ r.enabled line

end PicRun

/-! ## Bits -/

namespace Pic

variable {p : Pic} {x irr : BitVec 8} {i j : Nat}

theorem getLsbD_set (hi : i < 8) : (x ||| bit i).getLsbD = Function.update x.getLsbD i true := by
  funext j
  rw [BitVec.getLsbD_or, bit, BitVec.getLsbD_twoPow, Function.update_apply]
  by_cases hj : j = i
  · simp [hj, hi]
  · simp [hj, Ne.symm hj]

theorem getLsbD_clear (hi : i < 8) :
    (x &&& ~~~bit i).getLsbD = Function.update x.getLsbD i false := by
  funext j
  rw [BitVec.getLsbD_and, BitVec.getLsbD_not, bit, BitVec.getLsbD_twoPow, Function.update_apply]
  by_cases hj : j = i
  · simp [hj, hi]
  · by_cases hj8 : j < 8
    · simp [hj, Ne.symm hj, hj8]
    · simp [hj, hj8, BitVec.getLsbD_of_ge x j (Nat.le_of_not_lt hj8)]

theorem getLsbD_none (i : Nat) : (0 : BitVec 8).getLsbD i = false := BitVec.getLsbD_zero

/-- A shift too far leaves nothing of the byte. -/
theorem bit_of_ge (hi : 8 ≤ i) : bit i = 0 := by
  refine BitVec.eq_of_getLsbD_eq fun j _ => ?_
  rw [bit, BitVec.getLsbD_twoPow, getLsbD_none, decide_eq_false (Nat.not_lt_of_le hi),
    Bool.false_and]

theorem first_some (h : first x = some i) : i < 8 ∧ x.getLsbD i = true :=
  ⟨List.mem_range.mp (List.mem_of_find?_eq_some h), List.find?_some h⟩

theorem first_none (h : first x = none) : x = 0 := by
  refine BitVec.eq_of_getLsbD_eq fun i hi => ?_
  have hnot := List.find?_eq_none.mp h i (List.mem_range.mpr hi)
  rw [Bool.not_eq_true] at hnot
  rw [hnot, getLsbD_none]

/-- What is asked for is open, and neither it nor an earlier line is in
service. -/
theorem request_some (h : p.request irr = some i) : i < 8 ∧ irr.getLsbD i = true
    ∧ p.imr.getLsbD i = false ∧ p.isr.getLsbD i = false := by
  unfold request at h
  split at h
  case isFalse => cases h
  case isTrue =>
    obtain ⟨hfirst, hfree⟩ := Option.filter_eq_some_iff.mp h
    obtain ⟨hi, hbit⟩ := first_some hfirst
    rw [BitVec.getLsbD_and, BitVec.getLsbD_not, Bool.and_eq_true, Bool.and_eq_true] at hbit
    have hisr := List.all_eq_true.mp hfree i (List.mem_range.mpr (Nat.lt_succ_self i))
    exact ⟨hi, hbit.1, by simpa using hbit.2.2, by simpa using hisr⟩

/-- Without a handler under way an open line is asked for. -/
theorem request_quiet (hp : p.stage = .ready) (hisr : p.isr = 0) (hi : i < 8)
    (hirr : irr.getLsbD i = true) (himr : p.imr.getLsbD i = false) : p.request irr ≠ none := by
  rw [request, if_pos hp]
  cases hfirst : first (irr &&& ~~~p.imr) with
  | none =>
      have hbit : (irr &&& ~~~p.imr).getLsbD i = true := by
        rw [BitVec.getLsbD_and, BitVec.getLsbD_not, hirr, himr, decide_eq_true hi]
        rfl
      rw [first_none hfirst, getLsbD_none] at hbit
      cases hbit
  | some j =>
      rw [Option.filter_some, if_pos]
      · simp
      · rw [List.all_eq_true]
        intro k _
        rw [hisr, getLsbD_none]
        rfl

end Pic

namespace Pics

variable {x₀ x₁ y : BitVec 8} {i : Nat} {b : Bool}

theorem lineBit_update0 (hi : i < 8) (hy : y.getLsbD = Function.update x₀.getLsbD i b) :
    lineBit y x₁ = Function.update (lineBit x₀ x₁) i b := by
  funext line
  unfold lineBit
  rw [hy, Function.update_apply, Function.update_apply]
  split_ifs <;> first | rfl | omega

theorem lineBit_update1 (hy : y.getLsbD = Function.update x₁.getLsbD i b) :
    lineBit x₀ y = Function.update (lineBit x₀ x₁) (8 + i) b := by
  funext line
  unfold lineBit
  rw [hy, Function.update_apply, Function.update_apply]
  split_ifs <;> first | rfl | omega

theorem irqBit_eq (irqNumber : Int) : irqBit irqNumber = Pic.bit irqNumber.toNat := by
  refine BitVec.eq_of_getLsbD_eq fun j hj => ?_
  rw [irqBit, Pic.bit, BitVec.getLsbD_twoPow, BitVec.getLsbD_setWidth, BitVec.getLsbD_shiftLeft,
    Bool.eq_iff_iff]
  simp only [BitVec.ofNat_eq_ofNat, BitVec.getLsbD_one, Bool.and_eq_true, Bool.not_eq_true',
    decide_eq_true_eq, decide_eq_false_iff_not]
  omega

end Pics

/-! ## The invariant -/

/-- The lines in a register, counted. -/
def Bits (x : BitVec 8) (n : Nat) : Prop := ∃ who, Census who id x.getLsbD ∧ who.card = n

namespace Bits

variable {x : BitVec 8} {n i : Nat}

theorem zero : Bits 0 0 := ⟨∅, Census.empty Pic.getLsbD_none, Finset.card_empty⟩

theorem eq_zero (h : Bits x 0) : x = 0 := by
  obtain ⟨who, hwho, hcard⟩ := h
  refine BitVec.eq_of_getLsbD_eq fun i _ => ?_
  rw [Pic.getLsbD_none]
  by_contra hbit
  have hpos := hwho.card_pos (t := i) (by simpa using hbit)
  omega

theorem set (h : Bits x n) (hi : i < 8) (hx : x.getLsbD i = false) :
    Bits (x ||| Pic.bit i) (n + 1) := by
  obtain ⟨who, hwho, hcard⟩ := h
  obtain ⟨who', hwho', hcard'⟩ := hwho.move i true
  refine ⟨who', by rwa [Pic.getLsbD_set hi], ?_⟩
  rw [hx] at hcard'
  simp only [id_eq, Bool.toNat_false, Bool.toNat_true] at hcard'
  omega

/-- One line less. -/
theorem clear (h : Bits x n) (hn : 0 < n) :
    ∃ i, Pic.first x = some i ∧ Bits (x &&& ~~~Pic.bit i) (n - 1) := by
  cases hfirst : Pic.first x with
  | none =>
      obtain ⟨who, hwho, hcard⟩ := h
      have hempty : who = ∅ := hwho.unique (Pic.first_none hfirst ▸ Census.empty Pic.getLsbD_none)
      rw [hempty, Finset.card_empty] at hcard
      omega
  | some i =>
      obtain ⟨hi, hbit⟩ := Pic.first_some hfirst
      obtain ⟨who, hwho, hcard⟩ := h
      obtain ⟨who', hwho', hcard'⟩ := hwho.move i false
      refine ⟨i, rfl, who', by rwa [Pic.getLsbD_clear hi], ?_⟩
      rw [hbit] at hcard'
      simp only [id_eq, Bool.toNat_false, Bool.toNat_true] at hcard'
      omega

end Bits

/-- As `pic_init` leaves a controller. -/
structure Pic.Ready (p : Pic) (start : Nat) : Prop where
  stage : p.stage = .ready
  vector : ∀ i, p.vector i = start + i

namespace PicRun

variable {r : PicRun}

structure PicInv (r : PicRun) : Prop where
  ready0 : r.pics.pic0.Ready 0x20
  ready1 : r.pics.pic1.Ready 0x28
  cascade : r.pics.pic0.icw3 = Pic.bit 2
  masked : ∀ line < 16, r.pics.masked line = !r.enabled line
  requested : ∀ line < 16, r.pics.requested line = r.waiting line
  waiting : r.waiting 2 = false
  served0 : Bits r.pics.pic0.isr r.handlers.length
  served1 : Bits r.pics.pic1.isr (r.handlers.countP fun vector => 0x28 ≤ vector)

theorem picInit_eq (s : Pics) : s.picInit =
    ⟨⟨.ready, 0x11, 0x20, 4, 1, 0xFB, 0, 0⟩, ⟨.ready, 0x11, 0x28, 2, 1, 0xFF, 0, 0⟩⟩ := by
  simp [Pics.picInit, Pics.outb, Pic.command, Pic.data]

theorem PicInv.start (s : Pics) : PicInv (PicRun.start s) := by
  unfold PicRun.start
  rw [picInit_eq]
  exact {
    ready0 := ⟨rfl, fun _ => rfl⟩
    ready1 := ⟨rfl, fun _ => rfl⟩
    cascade := by decide
    masked := by decide
    requested := by decide
    waiting := rfl
    served0 := Bits.zero
    served1 := Bits.zero }

theorem data_ready {p : Pic} {val : BitVec 8} (h : p.stage = .ready) :
    p.data val = { p with imr := val } := by
  rw [Pic.data, h]

/-- The mask of one line changes. -/
theorem PicInv.mask0 {k : Nat} {x : BitVec 8} {b : Bool} (h : PicInv r) (hk : k < 8)
    (hx : x.getLsbD = Function.update r.pics.pic0.imr.getLsbD k (!b)) :
    PicInv { r with
      pics := r.pics.outb 0x21 x
      enabled := Function.update r.enabled k b } := by
  have hpics : r.pics.outb 0x21 x = { r.pics with pic0 := { r.pics.pic0 with imr := x } } := by
    rw [← data_ready h.ready0.stage]
    rfl
  rw [hpics]
  exact { h with
    ready0 := ⟨h.ready0.stage, h.ready0.vector⟩
    masked := fun line hline => by
      change Pics.lineBit x r.pics.pic1.imr line = !Function.update r.enabled k b line
      rw [Pics.lineBit_update0 hk hx, Function.update_apply, Function.update_apply]
      split
      case isTrue => rfl
      case isFalse => exact h.masked line hline }

theorem PicInv.mask1 {k : Nat} {x : BitVec 8} {b : Bool} (h : PicInv r)
    (hx : x.getLsbD = Function.update r.pics.pic1.imr.getLsbD k (!b)) :
    PicInv { r with
      pics := r.pics.outb 0xA1 x
      enabled := Function.update r.enabled (8 + k) b } := by
  have hpics : r.pics.outb 0xA1 x = { r.pics with pic1 := { r.pics.pic1 with imr := x } } := by
    rw [← data_ready h.ready1.stage]
    rfl
  rw [hpics]
  exact { h with
    ready1 := ⟨h.ready1.stage, h.ready1.vector⟩
    masked := fun line hline => by
      change Pics.lineBit r.pics.pic0.imr x line = !Function.update r.enabled (8 + k) b line
      rw [Pics.lineBit_update1 hx, Function.update_apply, Function.update_apply]
      split
      case isTrue => rfl
      case isFalse => exact h.masked line hline }

/-- Both `irq_enable` and `irq_disable` set the bit of their line alone. -/
theorem PicInv.setMask {irqNumber : Int} {b : Bool} {x : BitVec 8 → BitVec 8 → BitVec 8}
    (h : PicInv r)
    (hset : ∀ y k, k < 8 → (x y (Pic.bit k)).getLsbD = Function.update y.getLsbD k (!b))
    (hzero : ∀ y, x y 0 = y) :
    PicInv { r with
      pics := if irqNumber < 0x20 then r.pics
        else if irqNumber - 0x20 < 8 then
          r.pics.outb 0x21 (x (r.pics.inbImr 0x21) (Pics.irqBit (irqNumber - 0x20)))
        else r.pics.outb 0xA1 (x (r.pics.inbImr 0xA1) (Pics.irqBit (irqNumber - 0x20 - 8)))
      enabled := setEnabled r.enabled irqNumber b } := by
  rw [Pics.irqBit_eq, Pics.irqBit_eq]
  unfold setEnabled
  split
  case isTrue hlow => rw [if_neg (by omega)]; exact h
  case isFalse hlow =>
    split
    case isTrue hfirst =>
      rw [if_pos (by omega)]
      exact h.mask0 (by omega) (hset _ _ (by omega))
    case isFalse hsecond =>
      by_cases hhigh : irqNumber < 0x30
      · rw [if_pos (by omega),
          show (irqNumber - 0x20).toNat = 8 + (irqNumber - 0x20 - 8).toNat by omega]
        exact h.mask1 (hset _ _ (by omega))
      · rw [if_neg (by omega), Pic.bit_of_ge (by omega), hzero]
        have hsame : r.pics.outb 0xA1 (r.pics.inbImr 0xA1) = r.pics := by
          change { r.pics with pic1 := r.pics.pic1.data r.pics.pic1.imr } = r.pics
          rw [data_ready h.ready1.stage]
        rw [hsame]
        exact h

/-- The same line changes in two tables. -/
theorem update_agrees {f g : Nat → Bool} (h : ∀ line < 16, f line = g line) (k : Nat) (b : Bool) :
    ∀ line < 16, Function.update f k b line = Function.update g k b line := by
  intro line hline
  rw [Function.update_apply, Function.update_apply, h line hline]

/-- A request comes. -/
theorem PicInv.raise {line : Nat} (h : PicInv r) (h16 : line < 16) (h2 : line ≠ 2) :
    PicInv { r with
      pics := r.pics.raise line
      waiting := Function.update r.waiting line true } := by
  have hwaiting : Function.update r.waiting line true 2 = false := by
    rw [Function.update_of_ne (Ne.symm h2)]
    exact h.waiting
  unfold Pics.raise
  split
  case isTrue h8 =>
    exact { h with
      ready0 := ⟨h.ready0.stage, h.ready0.vector⟩
      waiting := hwaiting
      requested := fun line' hline => by
        change Pics.lineBit (r.pics.pic0.irr ||| Pic.bit line) r.pics.pic1.irr line'
          = Function.update r.waiting line true line'
        rw [Pics.lineBit_update0 h8 (Pic.getLsbD_set h8)]
        exact update_agrees h.requested line true line' hline }
  case isFalse h8 =>
    exact { h with
      ready1 := ⟨h.ready1.stage, h.ready1.vector⟩
      waiting := hwaiting
      requested := fun line' hline => by
        change Pics.lineBit r.pics.pic0.irr (r.pics.pic1.irr ||| Pic.bit (line - 8)) line'
          = Function.update r.waiting line true line'
        rw [Pics.lineBit_update1 (Pic.getLsbD_set (by omega)),
          show 8 + (line - 8) = line by omega]
        exact update_agrees h.requested line true line' hline }

/-- The line of an interrupt: one of the first controller, or one of the
second by way of the first. -/
theorem PicInv.acknowledge_cases {pics : Pics} {vector : Nat} (h : PicInv r)
    (hack : r.pics.acknowledge = some (pics, vector)) :
    (∃ i < 8, i ≠ 2 ∧ vector = 0x20 + i ∧ pics = { r.pics with pic0 := r.pics.pic0.serve i }
      ∧ r.pics.pic0.irr.getLsbD i = true ∧ r.pics.pic0.imr.getLsbD i = false
      ∧ r.pics.pic0.isr.getLsbD i = false)
    ∨ ∃ j < 8, vector = 0x28 + j ∧ pics = ⟨r.pics.pic0.serve 2, r.pics.pic1.serve j⟩
      ∧ r.pics.pic1.irr.getLsbD j = true ∧ r.pics.pic1.imr.getLsbD j = false
      ∧ r.pics.pic0.isr.getLsbD 2 = false ∧ r.pics.pic1.isr.getLsbD j = false := by
  unfold Pics.acknowledge at hack
  obtain ⟨i, hrequest, hack⟩ := Option.bind_eq_some_iff.mp hack
  obtain ⟨hi, hirr, himr, hisr⟩ := Pic.request_some hrequest
  have hcascade : r.pics.pic0.icw3.getLsbD i = decide (i = 2) := by
    rw [h.cascade, Pic.bit, BitVec.getLsbD_twoPow, decide_eq_true (by decide), Bool.true_and]
    exact decide_eq_decide.mpr eq_comm
  rw [hcascade] at hack
  by_cases hi2 : i = 2
  · rw [decide_eq_true hi2, if_pos rfl] at hack
    obtain ⟨j, hsecond, hack⟩ := Option.bind_eq_some_iff.mp hack
    obtain ⟨hj, hjirr, hjimr, hjisr⟩ := Pic.request_some hsecond
    obtain ⟨rfl, rfl⟩ := Prod.mk.injEq .. |>.mp (Option.some.inj hack)
    subst hi2
    exact .inr ⟨j, hj, h.ready1.vector j, rfl, hjirr, hjimr, hisr, hjisr⟩
  · rw [decide_eq_false hi2, if_neg Bool.false_ne_true] at hack
    obtain ⟨rfl, rfl⟩ := Prod.mk.injEq .. |>.mp (Option.some.inj hack)
    refine .inl ⟨i, hi, hi2, h.ready0.vector i, rfl, ?_, himr, hisr⟩
    have hlater : (if (r.pics.pic1.request r.pics.pic1.irr).isSome then Pic.bit 2 else 0).getLsbD i
        = false := by
      split
      case isTrue =>
        rw [Pic.bit, BitVec.getLsbD_twoPow, decide_eq_false (Ne.symm hi2), Bool.and_false]
      case isFalse => exact Pic.getLsbD_none i
    rw [Pics.irr0, BitVec.getLsbD_or, hlater, Bool.or_false, BitVec.getLsbD_and,
      Bool.and_eq_true] at hirr
    exact hirr.1

/-- An interrupt is taken. -/
theorem PicInv.interrupt {pics : Pics} {vector : Nat} (h : PicInv r)
    (hack : r.pics.acknowledge = some (pics, vector)) :
    PicInv { r with
      pics
      handlers := vector :: r.handlers
      waiting := Function.update r.waiting (vector - 0x20) false } := by
  have hwaiting : Function.update r.waiting (vector - 0x20) false 2 = false := by
    rw [Function.update_apply, h.waiting, ite_self]
  rcases h.acknowledge_cases hack with ⟨i, hi, -, rfl, rfl, -, -, hisr⟩
    | ⟨j, hj, rfl, rfl, -, -, hisr, hjisr⟩
  · exact { h with
      ready0 := ⟨h.ready0.stage, h.ready0.vector⟩
      waiting := hwaiting
      requested := fun line hline => by
        change Pics.lineBit (r.pics.pic0.irr &&& ~~~Pic.bit i) r.pics.pic1.irr line
          = Function.update r.waiting (0x20 + i - 0x20) false line
        rw [Pics.lineBit_update0 hi (Pic.getLsbD_clear hi), Nat.add_sub_cancel_left]
        exact update_agrees h.requested i false line hline
      served0 := h.served0.set hi hisr
      served1 := by
        change Bits r.pics.pic1.isr (((0x20 + i) :: r.handlers).countP _)
        rw [List.countP_cons_of_neg (by simp; omega)]
        exact h.served1 }
  · exact { h with
      ready0 := ⟨h.ready0.stage, h.ready0.vector⟩
      ready1 := ⟨h.ready1.stage, h.ready1.vector⟩
      waiting := hwaiting
      requested := fun line hline => by
        change Pics.lineBit (r.pics.pic0.irr &&& ~~~Pic.bit 2) (r.pics.pic1.irr &&& ~~~Pic.bit j)
          line = Function.update r.waiting (0x28 + j - 0x20) false line
        have hfirst := update_agrees h.requested 2 false
        rw [← h.waiting, Function.update_eq_self, h.waiting] at hfirst
        rw [Pics.lineBit_update1 (Pic.getLsbD_clear hj),
          Pics.lineBit_update0 (by decide) (Pic.getLsbD_clear (by decide)),
          show 0x28 + j - 0x20 = 8 + j by omega]
        exact update_agrees hfirst (8 + j) false line hline
      served0 := h.served0.set (by decide) hisr
      served1 := by
        change Bits (r.pics.pic1.isr ||| Pic.bit j) (((0x28 + j) :: r.handlers).countP _)
        rw [List.countP_cons_of_pos (by simp)]
        exact h.served1.set hj hjisr }

/-- `PIC_OCW2_EOI` at a controller with something in service. -/
theorem command_eoi {p : Pic} {n : Nat} (h : Bits p.isr n) (hn : 0 < n) :
    ∃ isr, p.command 0x20 = { p with isr } ∧ Bits isr (n - 1) := by
  obtain ⟨i, hfirst, hbits⟩ := h.clear hn
  refine ⟨_, ?_, hbits⟩
  rw [Pic.command, if_neg (by decide), if_pos rfl, hfirst]

/-- A handler ends. -/
theorem PicInv.eoi {vector : Nat} (h : PicInv r) (hmem : vector ∈ r.handlers) :
    PicInv { r with pics := r.pics.sendEoi vector, handlers := r.handlers.erase vector } := by
  have hlength := List.length_erase_of_mem hmem
  have hpos : 0 < r.handlers.length := List.length_pos_of_mem hmem
  have hcount := List.countP_erase (fun v => decide (0x28 ≤ v)) r.handlers vector
  obtain ⟨isr0, heoi0, hbits0⟩ := command_eoi h.served0 hpos
  unfold Pics.sendEoi
  split
  case isTrue hsecond =>
    have hhigh : decide (0x28 ≤ vector) = true := by simp; omega
    have hpos1 : 0 < r.handlers.countP fun v => decide (0x28 ≤ v) :=
      List.countP_pos_iff.mpr ⟨vector, hmem, hhigh⟩
    obtain ⟨isr1, heoi1, hbits1⟩ := command_eoi h.served1 hpos1
    have hpics : (r.pics.outb 0xA0 0x20).outb 0x20 0x20
        = ⟨{ r.pics.pic0 with isr := isr0 }, { r.pics.pic1 with isr := isr1 }⟩ := by
      rw [← heoi0, ← heoi1]
      rfl
    rw [hpics]
    exact { h with
      ready0 := ⟨h.ready0.stage, h.ready0.vector⟩
      ready1 := ⟨h.ready1.stage, h.ready1.vector⟩
      served0 := hlength ▸ hbits0
      served1 := by
        change Bits isr1 ((r.handlers.erase vector).countP _)
        rw [hcount, if_pos ⟨hmem, hhigh⟩]
        exact hbits1 }
  case isFalse hfirst =>
    have hlow : ¬ decide (0x28 ≤ vector) = true := by simp; omega
    have hpics :
        r.pics.outb 0x20 0x20 = { r.pics with pic0 := { r.pics.pic0 with isr := isr0 } } := by
      rw [← heoi0]
      rfl
    rw [hpics]
    exact { h with
      ready0 := ⟨h.ready0.stage, h.ready0.vector⟩
      served0 := hlength ▸ hbits0
      served1 := by
        change Bits r.pics.pic1.isr ((r.handlers.erase vector).countP _)
        rw [hcount, if_neg fun hboth => hlow hboth.2]
        exact h.served1 }

theorem irr0_cascade : r.pics.irr0.getLsbD 2 = (r.pics.pic1.request r.pics.pic1.irr).isSome := by
  rw [Pics.irr0, BitVec.getLsbD_or, Pic.getLsbD_clear (by decide), Function.update_self,
    Bool.false_or]
  split
  case isTrue hsome => rw [hsome]; decide
  case isFalse hnone => rw [Bool.eq_false_iff.mpr hnone]; decide

theorem irr0_line {i : Nat} (hi : i ≠ 2) (h : r.pics.pic0.irr.getLsbD i = true) :
    r.pics.irr0.getLsbD i = true := by
  rw [Pics.irr0, BitVec.getLsbD_or, Pic.getLsbD_clear (by decide), Function.update_of_ne hi, h,
    Bool.true_or]

/-- What the first controller asks for can be taken. -/
theorem PicInv.acknowledge_ne_none (h : PicInv r)
    (hrequest : r.pics.pic0.request r.pics.irr0 ≠ none) : r.pics.acknowledge ≠ none := by
  obtain ⟨i, hi⟩ := Option.ne_none_iff_exists'.mp hrequest
  obtain ⟨-, hirr, -, -⟩ := Pic.request_some hi
  rw [Pics.acknowledge, hi, Option.bind_eq_bind, Option.bind_some]
  by_cases hcascade : r.pics.pic0.icw3.getLsbD i
  · have hi2 : i = 2 := by
      rw [h.cascade, Pic.bit, BitVec.getLsbD_twoPow, Bool.and_eq_true] at hcascade
      exact (of_decide_eq_true hcascade.2).symm
    rw [hi2, irr0_cascade] at hirr
    obtain ⟨j, hj⟩ := Option.isSome_iff_exists.mp hirr
    rw [if_pos hcascade, hj, Option.bind_some]
    exact Option.some_ne_none _
  · rw [if_neg hcascade]
    exact Option.some_ne_none _

theorem PicInv.law (h : PicInv r) : PicLaw r := by
  have hquiet : r.handlers = [] → r.pics.pic0.isr = 0 ∧ r.pics.pic1.isr = 0 := by
    intro hnone
    have h0 := h.served0
    have h1 := h.served1
    rw [hnone] at h0 h1
    exact ⟨h0.eq_zero, h1.eq_zero⟩
  refine ⟨h.masked, h.requested, hquiet, ?_, ?_⟩
  · intro hnone line hline hwaiting henabled hcascade
    obtain ⟨hisr0, hisr1⟩ := hquiet hnone
    have hrequested := (h.requested line hline).trans hwaiting
    have hmasked := h.masked line hline
    rw [henabled] at hmasked
    unfold Pics.requested Pics.lineBit at hrequested
    unfold Pics.masked Pics.lineBit at hmasked
    refine h.acknowledge_ne_none ?_
    by_cases h8 : line < 8
    · rw [if_pos h8] at hrequested hmasked
      have h2 : line ≠ 2 := fun h2 => by
        rw [h2, h.waiting] at hwaiting
        cases hwaiting
      exact Pic.request_quiet h.ready0.stage hisr0 h8 (irr0_line h2 hrequested) hmasked
    · rw [if_neg h8] at hrequested hmasked
      have hsecond := Pic.request_quiet h.ready1.stage hisr1 (by omega) hrequested hmasked
      have hopen := h.masked 2 (by decide)
      rw [hcascade (by omega)] at hopen
      refine Pic.request_quiet h.ready0.stage hisr0 (by decide) ?_ hopen
      rw [irr0_cascade]
      exact Option.isSome_iff_ne_none.mpr hsecond
  · intro pics vector hack
    rcases h.acknowledge_cases hack with ⟨i, hi, -, rfl, -, hirr, himr, -⟩
      | ⟨j, hj, rfl, -, hirr, himr, -, -⟩
    · have hrequested := h.requested i (by omega)
      have hmasked := h.masked i (by omega)
      rw [Pics.requested, Pics.lineBit, if_pos hi, hirr] at hrequested
      rw [Pics.masked, Pics.lineBit, if_pos hi, himr] at hmasked
      exact ⟨i, by omega, rfl, hrequested.symm, by simpa using hmasked⟩
    · have hrequested := h.requested (8 + j) (by omega)
      have hmasked := h.masked (8 + j) (by omega)
      rw [Pics.requested, Pics.lineBit, if_neg (by omega), Nat.add_sub_cancel_left, hirr]
        at hrequested
      rw [Pics.masked, Pics.lineBit, if_neg (by omega), Nat.add_sub_cancel_left, himr] at hmasked
      exact ⟨8 + j, by omega, by omega, hrequested.symm, by simpa using hmasked⟩

theorem PicInv.step {a : PicAction} (h : PicInv r) (hf : r.Fits a) :
    ∃ r', r.step a = some r' ∧ PicInv r' := by
  cases a with
  | raise line => exact ⟨_, rfl, h.raise hf.1 hf.2⟩
  | interrupt =>
      unfold PicRun.step
      cases hack : r.pics.acknowledge with
      | none => exact ⟨r, rfl, h⟩
      | some result => exact ⟨_, rfl, h.interrupt hack⟩
  | eoi vector => exact ⟨_, rfl, h.eoi hf⟩
  | enable irqNumber =>
      refine ⟨_, rfl, h.setMask (x := fun y bit => y &&& ~~~bit) (fun y k hk => ?_) fun y => ?_⟩
      · exact Pic.getLsbD_clear hk
      · exact BitVec.and_allOnes
  | disable irqNumber =>
      refine ⟨_, rfl, h.setMask (x := fun y bit => y ||| bit) (fun y k hk => ?_) fun y => ?_⟩
      · exact Pic.getLsbD_set hk
      · simp

/-- From `pic_init` on, in whatever order requests, interrupts and the ends
of the handlers come. -/
theorem pic_law (s : Pics) (as : List PicAction) (has : Always step Fits (PicRun.start s) as) :
    ∃ r', run step (PicRun.start s) as = some r' ∧ r'.PicLaw := by
  obtain ⟨r', hrun, h⟩ :=
    run_total_of_always (fun r a h hfit => PicInv.step h hfit) (PicInv.start s) has
  exact ⟨r', hrun, h.law⟩

end PicRun

/-- Controllers that nobody has set up, with all their bits set. -/
def rawPic : Pic := ⟨.ready, 0xFF, 0xFF, 0xFF, 0xFF, 0xFF, 0xFF, 0xFF⟩

/-- The clock is switched away before its `send_eoi`, and the keyboard comes
in between. -/
theorem pic_law_nested :
    let as : List PicAction := [.enable 0x21, .enable 0x28, .raise 8, .interrupt, .raise 1,
      .interrupt, .eoi 0x28, .eoi 0x21]
    ∃ r', run PicRun.step (PicRun.start ⟨rawPic, rawPic⟩) as = some r' ∧ r'.PicLaw := by
  intro as
  refine PicRun.pic_law ⟨rawPic, rawPic⟩ as ?_
  unfold PicRun.start
  rw [PicRun.picInit_eq]
  decide

end Csos
