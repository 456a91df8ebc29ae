import Csos.Pci

/-!
# The base addresses of a PCI device (`kernel32/device/pci.c`)

`pci_set_bars` finds out how large a region is: it writes all ones to the base
address, looks which of them stay, and puts the old value back. A device in
`PciBus` has words some bits of which can be written, and some of which are
cleared when a one is written to them.
-/

namespace Csos

/-- `PCI_BAR_NR`, `PCI_CONF_COMMAND` and `PCI_CONF_BASE_ADDR0`. -/
abbrev pciBarNr : Nat := 6
abbrev pciConfCommand : UInt8 := 0x4
abbrev pciConfBaseAddr0 : UInt8 := 0x10

/-- `PCI_BAR_IO_MASK`, `PCI_BAR_MEM_MASK` and `PCI_COMMAND_MASTER`. -/
abbrev pciBarIoMask : UInt32 := 0xFFFFFFFC
abbrev pciBarMemMask : UInt32 := 0xFFFFFFF0
abbrev pciCommandMaster : UInt32 := 4

inductive PciBarType where
  | mem
  | io
deriving DecidableEq

/-- `pci_bar_t`; `index` has seven bits, and -1 is 127 in it. -/
structure PciBar where
  index : Nat
  type : PciBarType
  iobase : UInt32
  size : UInt32
deriving DecidableEq

/-- The words of all devices, with the bits of each that can be written and
those that a one clears. -/
structure PciBus where
  words : PciSpace
  writable : UInt32 → UInt32
  cleared : UInt32 → UInt32

/-- What a word is after a write. -/
def writtenWord (writable cleared word value : UInt32) : UInt32 :=
  (word &&& ~~~(writable ||| cleared)) ||| (value &&& writable) ||| (word &&& cleared &&& ~~~value)

def pciOutl (s : PciBus) (bus dev func addr : UInt8) (value : UInt32) : PciBus :=
  let a := pciAddr bus dev func addr
  let word := writtenWord (s.writable a) (s.cleared a) (s.words a) value
  { s with words := Function.update s.words a word }

def pciSize (base mask : UInt32) : UInt32 :=
  let size := mask &&& base
  ~~~size + 1

def pciEnableBusmastering (s : PciBus) (device : PciDevice) : PciBus :=
  let data := pciInl s.words device.bus device.dev device.func pciConfCommand
  pciOutl s device.bus device.dev device.func pciConfCommand (data ||| pciCommandMaster)

/-- What an iteration of `pci_set_bars` makes of the two values that it has
read. -/
def setBar (i : Nat) (value len : UInt32) (bar : PciBar) : PciBar :=
  let bar := { bar with index := 127 }
  if value = 0 then bar
  else if len = 0 ∨ len = 0xFFFFFFFF then bar
  else
    let value := if value = 0xFFFFFFFF then 0 else value
    if value &&& 1 ≠ 0 then
      { index := i, type := .io, iobase := value &&& pciBarIoMask,
        size := pciSize len pciBarIoMask }
    else
      { index := i, type := .mem, iobase := value &&& pciBarMemMask,
        size := pciSize len pciBarMemMask }

/-- `PCI_CONF_BASE_ADDR0 + (i << 2)`. -/
def barAddr (i : Nat) : UInt8 := pciConfBaseAddr0 + UInt8.ofNat i <<< 2

/-- An iteration of `pci_set_bars`. -/
def pciSetBar (device : PciDevice) (s : PciBus) (bar : Nat → PciBar) (i : Nat) :
    PciBus × (Nat → PciBar) :=
  let addr := barAddr i
  let value := pciInl s.words device.bus device.dev device.func addr
  let s := pciOutl s device.bus device.dev device.func addr 0xFFFFFFFF
  let len := pciInl s.words device.bus device.dev device.func addr
  let s := pciOutl s device.bus device.dev device.func addr value
  (s, Function.update bar i (setBar i value len (bar i)))

def pciSetBars (s : PciBus) (device : PciDevice) (bar : Nat → PciBar) : PciBus × (Nat → PciBar) :=
  (List.range pciBarNr).foldl (fun state i => pciSetBar device state.1 state.2 i) (s, bar)

/-! ## The protocol -/

section Protocol

variable {s : PciBus} {device : PciDevice} {bar : Nat → PciBar} {word writable value x : UInt32}
  {i j k t h : Nat}

theorem toNat_ext (hx : ∀ i, word.toNat.testBit i = x.toNat.testBit i) : word = x :=
  UInt32.toNat_inj.mp (Nat.eq_of_testBit_eq hx)

/-- The old value comes back, as no bit of the word is cleared by a one. -/
theorem writtenWord_back :
    writtenWord writable 0 (writtenWord writable 0 word value) word = word := by
  unfold writtenWord
  refine UInt32.eq_of_toBitVec_eq (BitVec.eq_of_getLsbD_eq fun i hi => ?_)
  have hzero : (0 : UInt32).toBitVec.getLsbD i = false := BitVec.getLsbD_zero
  simp only [UInt32.toBitVec_or, UInt32.toBitVec_and, UInt32.toBitVec_not, BitVec.getLsbD_or,
    BitVec.getLsbD_and, BitVec.getLsbD_not, hzero, decide_eq_true hi]
  cases word.toBitVec.getLsbD i <;> cases writable.toBitVec.getLsbD i <;> simp

/-- All ones: the bits that can be written are set. -/
theorem writtenWord_ones : writtenWord writable 0 word 0xFFFFFFFF = word ||| writable := by
  unfold writtenWord
  refine UInt32.eq_of_toBitVec_eq (BitVec.eq_of_getLsbD_eq fun i hi => ?_)
  have hzero : (0 : UInt32).toBitVec.getLsbD i = false := BitVec.getLsbD_zero
  have hones : (0xFFFFFFFF : UInt32).toBitVec.getLsbD i = true := by
    change (BitVec.allOnes 32).getLsbD i = true
    rw [BitVec.getLsbD_allOnes, decide_eq_true hi]
  simp only [UInt32.toBitVec_or, UInt32.toBitVec_and, UInt32.toBitVec_not, BitVec.getLsbD_or,
    BitVec.getLsbD_and, BitVec.getLsbD_not, hzero, hones, decide_eq_true hi]
  cases word.toBitVec.getLsbD i <;> cases writable.toBitVec.getLsbD i <;> simp

/-- The word of a register. -/
def barWord (s : PciBus) (device : PciDevice) (i : Nat) : UInt32 :=
  pciInl s.words device.bus device.dev device.func (barAddr i)

/-- The bits of it that can be written. -/
def barWritable (s : PciBus) (device : PciDevice) (i : Nat) : UInt32 :=
  s.writable (pciAddr device.bus device.dev device.func (barAddr i))

def barCleared (s : PciBus) (device : PciDevice) (i : Nat) : UInt32 :=
  s.cleared (pciAddr device.bus device.dev device.func (barAddr i))

/-- An iteration leaves the device as it was. -/
theorem pciSetBar_eq (hc : barCleared s device i = 0) : pciSetBar device s bar i
    = (s, Function.update bar i (setBar i (barWord s device i)
        (writtenWord (barWritable s device i) 0 (barWord s device i) 0xFFFFFFFF) (bar i))) := by
  unfold barCleared at hc
  unfold pciSetBar pciOutl pciInl barWord barWritable pciInl
  dsimp only
  rw [hc, Function.update_self, Function.update_idem, writtenWord_back, Function.update_eq_self]

/-- What the loop has made of the first `n` entries. -/
theorem pciSetBars_loop (hc : ∀ i < pciBarNr, barCleared s device i = 0) {n : Nat}
    (hn : n ≤ pciBarNr) :
    (List.range n).foldl (fun state i => pciSetBar device state.1 state.2 i) (s, bar)
      = (s, fun i => if i < n then setBar i (barWord s device i)
          (writtenWord (barWritable s device i) 0 (barWord s device i) 0xFFFFFFFF) (bar i)
        else bar i) := by
  induction n with
  | zero => rfl
  | succ n ih =>
      rw [List.range_succ, List.foldl_append, ih (Nat.le_of_succ_le hn), List.foldl_cons,
        List.foldl_nil]
      dsimp only
      rw [pciSetBar_eq (hc n hn), if_neg (Nat.lt_irrefl n)]
      refine congrArg (Prod.mk s) (funext fun i => ?_)
      rw [Function.update_apply]
      split
      case isTrue hi => rw [hi, if_pos (Nat.lt_succ_self n)]
      case isFalse hi =>
        by_cases hlt : i < n
        · rw [if_pos hlt, if_pos (Nat.lt_succ_of_lt hlt)]
        · rw [if_neg hlt, if_neg (by omega)]

/-! ## The region -/

/-- A base address: the bits from `k` up to `h` can be written, and those
under `t` say what the region is. -/
structure BaseRegister (t k h : Nat) (word writable : UInt32) : Prop where
  type_le : t ≤ k
  lt : k < h
  le : h ≤ 32
  writable : ∀ i, writable.toNat.testBit i = (decide (k ≤ i) && decide (i < h))
  fixed : ∀ i, t ≤ i → i < k ∨ h ≤ i → word.toNat.testBit i = false

/-- A base address of one of the two types. In the ports, bit 1 is 0. -/
def IsRegister (type : PciBarType) (k h : Nat) (word writable : UInt32) : Prop :=
  match type with
  | .io => BaseRegister 1 k h word writable ∧ 2 ≤ k ∧ word.toNat.testBit 0 = true
  | .mem => BaseRegister 4 k h word writable ∧ word.toNat.testBit 0 = false

/-- The device answers to an address. -/
def BarAnswers (word writable x : UInt32) : Prop := x &&& writable = word &&& writable

/-- The region that an entry stands for. -/
def PciBar.Contains (bar : PciBar) (x : UInt32) : Prop :=
  bar.iobase.toNat ≤ x.toNat ∧ x.toNat < bar.iobase.toNat + bar.size.toNat

theorem BaseRegister.writable_eq (hr : BaseRegister t k h word writable) :
    writable.toNat = 2 ^ h - 2 ^ k := by
  have hshift : 2 ^ h - 2 ^ k = (2 ^ (h - k) - 1) * 2 ^ k := by
    rw [Nat.sub_mul, ← pow_add, Nat.sub_add_cancel (Nat.le_of_lt hr.lt), one_mul]
  refine Nat.eq_of_testBit_eq fun i => ?_
  rw [hr.writable, hshift, Nat.testBit_mul_two_pow, Nat.testBit_two_pow_sub_one,
    Bool.eq_iff_iff]
  simp only [Bool.and_eq_true, decide_eq_true_eq]
  have hlt := hr.lt
  omega

/-- The part of an address that the device looks at. -/
theorem BaseRegister.and_writable (hr : BaseRegister t k h word writable) (x : UInt32) :
    (x &&& writable).toNat = x.toNat % 2 ^ h / 2 ^ k * 2 ^ k := by
  refine Nat.eq_of_testBit_eq fun i => ?_
  rw [UInt32.toNat_and, Nat.testBit_and, hr.writable, Nat.testBit_mul_two_pow,
    Nat.testBit_div_two_pow, Nat.testBit_mod_two_pow, Bool.eq_iff_iff]
  simp only [Bool.and_eq_true, decide_eq_true_eq]
  constructor
  · rintro ⟨hx, hk, hh⟩
    rw [Nat.sub_add_cancel hk]
    exact ⟨hk, hh, hx⟩
  · rintro ⟨hk, hh, hx⟩
    rw [Nat.sub_add_cancel hk] at hh hx
    exact ⟨hx, hk, hh⟩

/-- Without its type, the all-ones word is the bits that can be written. -/
theorem BaseRegister.len_and (hr : BaseRegister t k h word writable) {mask : UInt32} (hj : t ≤ j)
    (hjk : j ≤ k) (hmask : ∀ i, mask.toNat.testBit i = (decide (j ≤ i) && decide (i < 32))) :
    mask &&& writtenWord writable 0 word 0xFFFFFFFF = writable := by
  refine toNat_ext fun i => ?_
  have hfixed := hr.fixed i
  have hle := hr.le
  rw [writtenWord_ones, UInt32.toNat_and, UInt32.toNat_or, Nat.testBit_and, Nat.testBit_or, hmask,
    hr.writable, Bool.eq_iff_iff]
  simp only [Bool.and_eq_true, Bool.or_eq_true, decide_eq_true_eq]
  constructor
  · rintro ⟨⟨hji, -⟩, hword | hin⟩
    · by_contra hout
      rw [hfixed (Nat.le_trans hj hji) (by omega)] at hword
      cases hword
    · exact hin
  · exact fun hin => ⟨⟨by omega, by omega⟩, .inr hin⟩

/-- And the word is its base. -/
theorem BaseRegister.word_and (hr : BaseRegister t k h word writable) {mask : UInt32} (hj : t ≤ j)
    (hjk : j ≤ k) (hmask : ∀ i, mask.toNat.testBit i = (decide (j ≤ i) && decide (i < 32))) :
    word &&& mask = word &&& writable := by
  refine toNat_ext fun i => ?_
  have hfixed := hr.fixed i
  have hle := hr.le
  rw [UInt32.toNat_and, UInt32.toNat_and, Nat.testBit_and, Nat.testBit_and, hmask, hr.writable,
    Bool.eq_iff_iff]
  simp only [Bool.and_eq_true, decide_eq_true_eq]
  constructor
  · rintro ⟨hword, hji, -⟩
    refine ⟨hword, ?_⟩
    by_contra hout
    rw [hfixed (Nat.le_trans hj hji) (by omega)] at hword
    cases hword
  · rintro ⟨hword, hki, hih⟩
    exact ⟨hword, Nat.le_trans hjk hki, Nat.lt_of_lt_of_le hih hle⟩

/-- An entry has the right region exactly if the device looks at all of the
upper bits. -/
theorem BaseRegister.region {entry : PciBar} (hr : BaseRegister t k h word writable)
    (hbase : entry.iobase = word &&& writable) (hsize : entry.size = ~~~writable + 1) :
    (∀ x, entry.Contains x ↔ BarAnswers word writable x) ↔ h = 32 := by
  have hlt := hr.lt
  have hle := hr.le
  have hkh : 2 ^ k < 2 ^ h := Nat.pow_lt_pow_right (by decide) hlt
  have hh32 : 2 ^ h ≤ 2 ^ 32 := Nat.pow_le_pow_right (by decide) hle
  have hk0 : 0 < 2 ^ k := Nat.two_pow_pos k
  obtain ⟨b, hb⟩ : ∃ b, entry.iobase.toNat = b * 2 ^ k :=
    ⟨word.toNat % 2 ^ h / 2 ^ k, by rw [hbase, hr.and_writable]⟩
  have hbh : b * 2 ^ k < 2 ^ h := by
    rw [← hb, hbase, hr.and_writable]
    exact Nat.lt_of_le_of_lt (Nat.div_mul_le_self _ _) (Nat.mod_lt _ (Nat.two_pow_pos h))
  have hsize' : entry.size.toNat = 2 ^ 32 - 2 ^ h + 2 ^ k := by
    rw [hsize, UInt32.toNat_add, UInt32.toNat_not, hr.writable_eq]
    have hs : UInt32.size = 2 ^ 32 := rfl
    have h1 : (1 : UInt32).toNat = 1 := rfl
    rw [hs, h1, Nat.mod_eq_of_lt (by omega)]
    omega
  have hcontains (x : UInt32) : entry.Contains x
      ↔ b * 2 ^ k ≤ x.toNat ∧ x.toNat < b * 2 ^ k + (2 ^ 32 - 2 ^ h + 2 ^ k) := by
    rw [PciBar.Contains, hb, hsize']
  have hanswers (x : UInt32) : BarAnswers word writable x
      ↔ x.toNat % 2 ^ h / 2 ^ k * 2 ^ k = b * 2 ^ k := by
    rw [BarAnswers, ← UInt32.toNat_inj, hr.and_writable, ← hbase, hb]
  constructor
  · intro hall
    by_contra hne
    -- the address behind the region
    have hnext : (b + 1) * 2 ^ k ≤ 2 ^ h := by
      rw [← Nat.sub_add_cancel (Nat.le_of_lt hlt), pow_add] at hbh ⊢
      exact Nat.mul_le_mul_right _ (Nat.lt_of_mul_lt_mul_right hbh)
    have hhalf : 2 ^ h ≤ 2 ^ 31 := Nat.pow_le_pow_right (by decide) (by omega)
    have hx : (UInt32.ofNat ((b + 1) * 2 ^ k)).toNat = (b + 1) * 2 ^ k := by
      rw [UInt32.toNat_ofNat', Nat.mod_eq_of_lt (by omega)]
    have hin := (hall (UInt32.ofNat ((b + 1) * 2 ^ k))).mp
      ((hcontains _).mpr (by rw [hx, Nat.succ_mul]; omega))
    rw [hanswers, hx] at hin
    rcases Nat.lt_or_eq_of_le hnext with hinside | hend
    · rw [Nat.mod_eq_of_lt hinside, Nat.mul_div_cancel _ hk0] at hin
      rw [Nat.succ_mul] at hin
      omega
    · rw [hend, Nat.mod_self, Nat.zero_div, Nat.zero_mul] at hin
      rw [Nat.succ_mul, ← hin] at hend
      omega
  · rintro rfl x
    have hx : x.toNat < 2 ^ 32 := x.toNat_lt
    rw [hcontains, hanswers, Nat.mod_eq_of_lt hx, Nat.mul_left_inj (by omega),
      Nat.div_eq_iff hk0]
    omega

theorem testBit_ones (hi : i < 32) : (0xFFFFFFFF : UInt32).toNat.testBit i = true := by
  have hones : (0xFFFFFFFF : UInt32).toNat = 2 ^ 32 - 1 := rfl
  rw [hones, Nat.testBit_two_pow_sub_one, decide_eq_true hi]

theorem testBit_zero (i : Nat) : (0 : UInt32).toNat.testBit i = false := Nat.zero_testBit i

theorem ioMask_testBit (i : Nat) :
    pciBarIoMask.toNat.testBit i = (decide (2 ≤ i) && decide (i < 32)) := by
  have hmask : pciBarIoMask.toNat = (2 ^ 30 - 1) * 2 ^ 2 := rfl
  rw [hmask, Nat.testBit_mul_two_pow, Nat.testBit_two_pow_sub_one, Bool.eq_iff_iff]
  simp only [Bool.and_eq_true, decide_eq_true_eq]
  omega

theorem memMask_testBit (i : Nat) :
    pciBarMemMask.toNat.testBit i = (decide (4 ≤ i) && decide (i < 32)) := by
  have hmask : pciBarMemMask.toNat = (2 ^ 28 - 1) * 2 ^ 4 := rfl
  rw [hmask, Nat.testBit_mul_two_pow, Nat.testBit_two_pow_sub_one, Bool.eq_iff_iff]
  simp only [Bool.and_eq_true, decide_eq_true_eq]
  omega

/-- The test of the lowest bit. -/
theorem and_one_ne_zero : word &&& 1 ≠ 0 ↔ word.toNat.testBit 0 = true := by
  rw [Ne, ← UInt32.toNat_inj, UInt32.toNat_and, Nat.testBit_zero]
  have hone : (1 : UInt32).toNat = 1 := rfl
  have hzero : (0 : UInt32).toNat = 0 := rfl
  rw [hone, hzero, Nat.and_one_is_mod, decide_eq_true_eq]
  omega

/-- A word with a bit that is 0 is not all ones, and one with a bit is not 0. -/
theorem ne_ones (hi : i < 32) (hword : word.toNat.testBit i = false) : word ≠ 0xFFFFFFFF := by
  rintro rfl
  rw [testBit_ones hi] at hword
  cases hword

theorem ne_zero (hword : word.toNat.testBit i = true) : word ≠ 0 := by
  rintro rfl
  rw [testBit_zero] at hword
  cases hword

theorem BaseRegister.len_testBit (hr : BaseRegister t k h word writable) (i : Nat) :
    (writtenWord writable 0 word 0xFFFFFFFF).toNat.testBit i
      = (word.toNat.testBit i || (decide (k ≤ i) && decide (i < h))) := by
  rw [writtenWord_ones, UInt32.toNat_or, Nat.testBit_or, hr.writable]

/-- An entry for a register with an address. -/
theorem setBar_register {type : PciBarType} {entry : PciBar}
    (hr : IsRegister type k h word writable) (h0 : word ≠ 0) :
    setBar i word (writtenWord writable 0 word 0xFFFFFFFF) entry
      = { index := i, type, iobase := word &&& writable, size := ~~~writable + 1 } := by
  cases type with
  | io =>
      obtain ⟨hr, h2, hbit⟩ := hr
      have hone : word.toNat.testBit 1 = false := hr.fixed 1 (Nat.le_refl 1) (.inl h2)
      have hlen : (writtenWord writable 0 word 0xFFFFFFFF).toNat.testBit 1 = false := by
        rw [hr.len_testBit, hone, decide_eq_false (by omega)]
        rfl
      have hlen0 : (writtenWord writable 0 word 0xFFFFFFFF).toNat.testBit 0 = true := by
        rw [hr.len_testBit, hbit, Bool.true_or]
      unfold setBar
      dsimp only
      rw [if_neg h0, if_neg (not_or.mpr ⟨ne_zero hlen0, ne_ones (by decide) hlen⟩),
        if_neg (ne_ones (by decide) hone), if_pos (and_one_ne_zero.mpr hbit), pciSize,
        hr.len_and (by decide) h2 ioMask_testBit, hr.word_and (by decide) h2 ioMask_testBit]
  | mem =>
      obtain ⟨hr, hbit⟩ := hr
      have hk := hr.type_le
      have hlen : (writtenWord writable 0 word 0xFFFFFFFF).toNat.testBit 0 = false := by
        rw [hr.len_testBit, hbit, decide_eq_false (by omega)]
        rfl
      have hlen0 : (writtenWord writable 0 word 0xFFFFFFFF).toNat.testBit k = true := by
        rw [hr.len_testBit, decide_eq_true (Nat.le_refl k), decide_eq_true hr.lt]
        exact Bool.or_true _
      unfold setBar
      dsimp only
      rw [if_neg h0, if_neg (not_or.mpr ⟨ne_zero hlen0, ne_ones (by decide) hlen⟩),
        if_neg (ne_ones (by decide) hbit), if_neg, pciSize,
        hr.len_and (Nat.le_refl 4) hk memMask_testBit,
        hr.word_and (Nat.le_refl 4) hk memMask_testBit]
      rw [and_one_ne_zero, hbit]
      exact Bool.false_ne_true

/-- `pci_set_bars` leaves the device as it was, and finds the region of each
base address whose upper bits are all there. -/
theorem pciSetBars_regions (hc : ∀ i < pciBarNr, barCleared s device i = 0) :
    (pciSetBars s device bar).1 = s
      ∧ ∀ i < pciBarNr, let entry := (pciSetBars s device bar).2 i
        (barWord s device i = 0 → entry = { bar i with index := 127 })
        ∧ ∀ type k h, IsRegister type k h (barWord s device i) (barWritable s device i) →
          barWord s device i ≠ 0 → entry.index = i ∧ entry.type = type
          ∧ ((∀ x, entry.Contains x ↔ BarAnswers (barWord s device i) (barWritable s device i) x)
            ↔ h = 32) := by
  unfold pciSetBars
  rw [pciSetBars_loop hc (Nat.le_refl _)]
  refine ⟨rfl, fun i hi => ?_⟩
  dsimp only
  rw [if_pos hi]
  refine ⟨fun h0 => by rw [h0]; rfl, fun type k h hr h0 => ?_⟩
  rw [setBar_register hr h0]
  refine ⟨rfl, rfl, ?_⟩
  cases type with
  | io => exact hr.1.region rfl rfl
  | mem => exact hr.1.region rfl rfl

end Protocol

/-- A network card: a region of 2 ^ 17 bytes at `0xFEBC0000`. -/
def cardBus : PciBus where
  words := fun a => if a = 0x80001810 then 0xFEBC0000 else 0
  writable := fun a => if a = 0x80001810 then 0xFFFE0000 else 0
  cleared := fun _ => 0

def cardDevice : PciDevice := ⟨0, 3, 0, 0x8086, 0x100E, 0, 0x020000⟩

def noBars : Nat → PciBar := fun _ => ⟨0, .mem, 0, 0⟩

theorem cardRegister : IsRegister .mem 17 32 0xFEBC0000 0xFFFE0000 := by
  refine ⟨⟨by decide, by decide, Nat.le_refl 32, fun i => ?_, fun i _ hi => ?_⟩, by decide⟩
  · have hmask : (0xFFFE0000 : UInt32).toNat = (2 ^ 15 - 1) * 2 ^ 17 := rfl
    rw [hmask, Nat.testBit_mul_two_pow, Nat.testBit_two_pow_sub_one, Bool.eq_iff_iff]
    simp only [Bool.and_eq_true, decide_eq_true_eq]
    omega
  · have hword : (0xFEBC0000 : UInt32).toNat = 0x7F5E * 2 ^ 17 := rfl
    rw [hword, Nat.testBit_mul_two_pow]
    rcases hi with hlow | hhigh
    · rw [decide_eq_false (Nat.not_le_of_lt hlow), Bool.false_and]
    · rw [Nat.testBit_lt_two_pow (Nat.lt_of_lt_of_le (by decide : 0x7F5E < 2 ^ 15)
        (Nat.pow_le_pow_right (by decide) (by omega))), Bool.and_false]

/-- The region of the card is found, and nothing changes at the card. -/
theorem pciSetBars_regions_card : (pciSetBars cardBus cardDevice noBars).1 = cardBus
    ∧ ((pciSetBars cardBus cardDevice noBars).2 0).index = 0
    ∧ ∀ x, ((pciSetBars cardBus cardDevice noBars).2 0).Contains x
      ↔ BarAnswers 0xFEBC0000 0xFFFE0000 x := by
  obtain ⟨hsame, hentries⟩ := @pciSetBars_regions cardBus cardDevice noBars fun _ _ => rfl
  obtain ⟨hindex, -, hregion⟩ := (hentries 0 (by decide)).2 .mem 17 32 cardRegister (by decide)
  exact ⟨hsame, hindex, hregion.mpr rfl⟩

end Csos
