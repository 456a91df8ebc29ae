import Csos.TtyDrain
import Mathlib.Data.Bool.AllAny

/-!
# Text on a terminal (`dev_tty_write` and `tty_write`)

Printable characters and line feeds, written by one call after the other.
A call ends with an empty queue and a free place for every token again, and
what it does to the screen is what its bytes do one by one.
-/

namespace Csos

open Lib

/-- Printable ASCII, or a line feed. -/
def IsText (c : UInt8) : Prop := (0x20 ≤ c ∧ c ≤ 0x7E) ∨ c = 0x0A

instance (c : UInt8) : Decidable (IsText c) := inferInstanceAs (Decidable (_ ∨ _))

/-- No control character but the line feed is text. -/
theorem IsText.ne {c d : UInt8} (h : IsText c) (hd : d < 0x20) (hlf : d ≠ 0x0A) : c ≠ d := by
  rintro rfl
  rcases h with ⟨hle, -⟩ | rfl
  · exact absurd hle (UInt8.not_le.mpr hd)
  · exact hlf rfl

namespace TtyScreen

/-! ## What the loops leave -/

theorem copyCells_term (s : TtyScreen) (dst src : Int) (n : Nat) :
    (s.copyCells dst src n).term = s.term := (wrote_copyCells s dst src n).1

theorem blankCells_term (s : TtyScreen) (ptr : Int) (n : Nat) :
    (s.blankCells ptr n).term = s.term := (wrote_blankCells s ptr n).1

theorem scrollUp_term (s : TtyScreen) (n : Int) : (s.scrollUp n).term = s.term := by
  rw [scrollUp, blankCells_term, copyCells_term]

theorem put_cells (s : TtyScreen) (a b : Int) (ch : TtyChar) :
    (s.put a ch).cells b = if b = a then ch else s.cells b :=
  Function.update_apply s.cells a ch b

theorem blankCells_c (s : TtyScreen) (ptr : Int) (n : Nat) (a : Int) :
    ((s.blankCells ptr n).cells a).c
      = if ptr ≤ a ∧ a < ptr + n then 0x20 else (s.cells a).c := by
  induction n generalizing s ptr with
  | zero => exact (if_neg (by omega)).symm
  | succ n ih =>
      rw [blankCells, ih, put_cells]
      rcases eq_or_ne a ptr with rfl | hne
      · rw [if_neg (by omega), if_pos rfl, if_pos (by omega)]
      · rw [if_neg hne]
        exact if_congr (by omega) rfl rfl

/-! ## Text -/

/-- What the `switch` does with a byte of text. -/
def text (cursor : CursorCtrl) (s : TtyScreen) (c : UInt8) : TtyScreen :=
  if c = 0x0A then
    let s := s.comLf
    { s with term := s.term.comCr }
  else s.ttyWriteChar cursor c

theorem ttyWrite_text {c : UInt8} (h : IsText c) (s : TtyScreen) (cursor : CursorCtrl) :
    s.ttyWrite cursor c = some (s.text cursor c) := by
  have hbs := h.ne (d := 0x08) (by decide) (by decide)
  have hht := h.ne (d := 0x09) (by decide) (by decide)
  have hnul := h.ne (d := 0x00) (by decide) (by decide)
  have hcr := h.ne (d := 0x0D) (by decide) (by decide)
  rw [ttyWrite, if_neg hbs, if_neg hht, if_neg hnul, if_neg hcr, text]
  by_cases hlf : c = 0x0A
  · rw [if_pos hlf, if_pos hlf]
  · rw [if_neg hlf, if_neg hlf]

/-- The codes that `tty_put` hands on for the cursor keys. -/
def IsKey (c : UInt8) : Prop := c = keyUp ∨ c = keyDown ∨ c = keyLeft ∨ c = keyRight

instance (c : UInt8) : Decidable (IsKey c) := inferInstanceAs (Decidable (_ ∨ _))

/-- A character that is shown at the cursor, at the end of the line of input. -/
def draw (s : TtyScreen) (c : UInt8) : TtyScreen :=
  let offset := s.term.offset
  let s := if offset ≥ s.term.columns * s.term.rows then s.scrollUp 1 else s
  let tc := s.term.base + offset
  let s := s.put tc { c, fg := s.term.cfg, bg := s.term.cbg, blink := s.term.cb }
  { s with term := s.term.forward }

/-- What is echoed, or is no code of a key, is shown. -/
theorem ttyWriteChar_draw (s : TtyScreen) {cursor : CursorCtrl} {c : UInt8}
    (hcur : cursor.current = cursor.total) (h : IsKey c → cursor.canEcho = true) :
    s.ttyWriteChar cursor c = s.draw c := by
  have hnot : ∀ {p : Prop}, (p → IsKey c) → ¬ (p ∧ (!cursor.canEcho) = true) := by
    rintro p hp ⟨hkey, hoff⟩
    rw [h (hp hkey)] at hoff
    cases hoff
  have hleft := hnot fun hc : c = keyLeft => Or.inr (Or.inr (Or.inl hc))
  have hright := hnot fun hc : c = keyRight => Or.inr (Or.inr (Or.inr hc))
  have hstill := hnot fun hc : c = keyUp ∨ c = keyDown => hc.imp_right Or.inl
  rw [ttyWriteChar, if_neg hleft, if_neg hright, if_neg hstill]
  simp only [hcur, if_true]
  rfl

/-- What a whole text does. -/
def print (cursor : CursorCtrl) (s : TtyScreen) (bytes : List UInt8) : TtyScreen :=
  bytes.foldl (text cursor) s

theorem print_append (cursor : CursorCtrl) (s : TtyScreen) (bytes bytes' : List UInt8) :
    s.print cursor (bytes ++ bytes') = (s.print cursor bytes).print cursor bytes' :=
  List.foldl_append

theorem print_concat (cursor : CursorCtrl) (s : TtyScreen) (bytes : List UInt8) (c : UInt8) :
    s.print cursor (bytes ++ [c]) = (s.print cursor bytes).text cursor c :=
  print_append cursor s bytes [c]

end TtyScreen

namespace Drain

variable {T : Type} {cursor : CursorCtrl} {s s' : Drain T} {cs bytes : List UInt8} {c : UInt8}

/-- Between two calls of `dev_tty_write`: `tty_write` is not running, and
nobody waits for a place. -/
structure Idle (s : Drain T) (cs : List UInt8) : Prop where
  stocked : s.Stocked cs
  waiting : s.osem.waiting = []
  pc : s.pc = .text

theorem idle_opened (buf : Nat → UInt8) (index : Nat) (cells : Int → TtyChar) :
    (opened T buf index cells).Idle [] := ⟨stocked_opened buf index cells, rfl, rfl⟩

/-- One byte of text is taken and shown. -/
theorem Idle.round (cursor : CursorCtrl) (h : s.Idle (c :: cs)) (hc : IsText c) :
    ∃ s₁, s.round cursor = .again s₁ ∧ s₁.Idle cs ∧ s₁.screen = s.screen.text cursor c := by
  obtain ⟨⟨hfifo, hsize, htokens⟩, hwait, hpc⟩ := h
  obtain ⟨fifo, hget, hholds, hsize'⟩ := hfifo.get
  rw [List.length_cons] at htokens
  have hobuf : ttyObufSize = 512 := rfl
  have hone := toInt_add_one (c := s.osem.counter) (by omega)
  let osem := { s.osem with counter := s.osem.counter + 1 }
  have hget' : s.get = some ({ s with fifo, osem, taken := s.taken ++ [c] }, c) := by
    rw [get, hget, Option.map_some, Sem.notify_nil hwait]
  refine ⟨{ s with fifo, osem, taken := s.taken ++ [c], screen := s.screen.text cursor c },
    ?_, ⟨⟨hholds, hsize'.trans hsize, by dsimp only [osem]; omega⟩, hwait, hpc⟩, rfl⟩
  have hesc := hc.ne (d := 0x1B) (by decide) (by decide)
  simp only [Drain.round, hpc, hget', if_neg hesc, TtyScreen.ttyWrite_text hc]

/-- `tty_write` shows the text that is in the queue. -/
theorem Idle.ends (cursor : CursorCtrl) (h : s.Idle bytes) (htext : ∀ c ∈ bytes, IsText c) :
    ∃ s', Lib.Ends (Drain.round cursor) s (.done s') ∧ s'.Idle []
      ∧ s'.screen = s.screen.print cursor bytes := by
  induction bytes generalizing s with
  | nil =>
      have hround : s.round cursor = .leave (.done s) := by
        simp only [Drain.round, h.pc, get_nil h.stocked.fifo]
      exact ⟨s, .of_leave hround, h, rfl⟩
  | cons c bytes ih =>
      obtain ⟨s₁, hround, hidle, hscreen⟩ := h.round cursor (htext c List.mem_cons_self)
      obtain ⟨s', hends, hidle', hscreen'⟩ :=
        ih hidle fun c hc => htext c (List.mem_cons_of_mem _ hc)
      refine ⟨s', (ends_again_iff hround).mpr hends, hidle', ?_⟩
      rw [hscreen', hscreen]
      rfl

/-- A text that has room in the queue gets through, and is shown. -/
theorem Idle.writes (cursor : CursorCtrl) (t : T) (h : s.Idle []) (htext : ∀ c ∈ bytes, IsText c)
    (hroom : bytes.length ≤ ttyObufSize) :
    ∃ s', (∀ s₁, Writes cursor t s bytes s₁ ↔ s₁ = s') ∧ s'.Idle []
      ∧ s'.screen = s.screen.print cursor bytes := by
  by_cases hempty : bytes.length ≤ 0
  · obtain rfl := List.length_eq_zero_iff.mp (Nat.le_zero.mp hempty)
    exact ⟨s, fun s₁ => Iff.rfl, h, rfl⟩
  obtain ⟨s₁, hloop, hstock, hwait, hscreen, hpc⟩ :=
    @writeLoop_of_room T t s [] bytes h.stocked (by rwa [List.length_nil, Nat.zero_add])
  have hidle : s₁.Idle bytes := ⟨hstock, hwait.trans h.waiting, hpc.trans h.pc⟩
  obtain ⟨s', hends, hidle', hscreen'⟩ := hidle.ends cursor htext
  refine ⟨s', fun s₂ => ?_, hidle', hscreen'.trans (by rw [hscreen])⟩
  rw [Writes, if_neg hempty]
  constructor
  · rintro ⟨s₃, hloop', hends'⟩
    obtain rfl := Option.some.inj (hloop.symm.trans hloop')
    exact DrainEnd.done.inj (hends'.unique hends)
  · rintro rfl
    exact ⟨s₁, hloop, hends⟩

end Drain

end Csos
