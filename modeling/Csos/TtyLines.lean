import Csos.Lib.Lines
import Csos.TtyText

/-!
# The last lines of a text

A terminal that was just cleared is told a text whose lines are shorter than
a row. Its screen shows the last 25 lines, and the cursor is at the end of
the one that is being written: a character goes to its place in the last
line, and the line feed behind the last row moves every line up by one.
-/

namespace Csos

open Lib

namespace TtyScreen

variable {s : TtyScreen} {cursor : CursorCtrl} {a home : Int} {c : UInt8}

/-! ## What the loops leave in the cells -/

/-- Copied upwards, a cell is read before it is written. -/
theorem copyCells_cells (s : TtyScreen) {dst src : Int} (hle : dst ≤ src) (n : Nat) (a : Int) :
    (s.copyCells dst src n).cells a
      = if dst ≤ a ∧ a < dst + n then s.cells (a + (src - dst)) else s.cells a := by
  induction n generalizing s dst src with
  | zero => exact (if_neg (by omega)).symm
  | succ n ih =>
      rw [copyCells, ih _ (by omega), put_cells, put_cells]
      rcases Int.lt_trichotomy a dst with hlt | rfl | hgt
      · rw [if_neg (by omega), if_neg (by omega), if_neg (by omega)]
      · rw [if_neg (by omega), if_pos rfl, if_pos (by omega), add_sub_cancel]
      · have hshift : src + 1 - (dst + 1) = src - dst := by omega
        rw [hshift, if_neg (by omega : ¬ a + (src - dst) = dst), if_neg (by omega : ¬ a = dst)]
        exact if_congr (by omega) rfl rfl

theorem clearCells_c (s : TtyScreen) (ptr : Int) (n : Nat) (a : Int) :
    ((s.clearCells ptr n).cells a).c
      = if ptr ≤ a ∧ a < ptr + n then 0x20 else (s.cells a).c := by
  induction n generalizing s ptr with
  | zero => exact (if_neg (by omega)).symm
  | succ n ih =>
      rw [clearCells, ih, put_cells]
      rcases eq_or_ne a ptr with rfl | hne
      · rw [if_neg (by omega), if_pos rfl, if_pos (by omega)]
      · rw [if_neg hne]
        exact if_congr (by omega) rfl rfl

/-! ## The lines on the screen -/

/-- The character in row `r` and column `k` when the last 25 of `lines` are
on the screen. -/
def lineChar (lines : List (List UInt8)) (r k : Nat) : UInt8 :=
  ((lines.rtake 25).getD r []).getD k 0x20

/-- The last 25 lines are on the screen at `home`, left-aligned and padded
with blanks, and the cursor is at the end of the last one. -/
structure Displays (home : Int) (s : TtyScreen) (lines : List (List UInt8)) : Prop where
  base : s.term.base = home
  rows : s.term.rows = 25
  columns : s.term.columns = 80
  row : s.term.cr = min lines.length 25 - 1
  column : s.term.cc = (lines.getLastD []).length
  chars : ∀ r k : Nat, r < 25 → k < 80 →
    (s.cells (home + (r * 80 + k))).c = lineChar lines r k

theorem lineChar_eq (lines : List (List UInt8)) (r k : Nat) :
    lineChar lines r k = (lines.getD (lines.length - 25 + r) []).getD k 0x20 := by
  rw [lineChar, getD_rtake]

/-- One character more in the last line. -/
theorem lineChar_concat (lines : List (List UInt8)) (l : List UInt8) (r k : Nat) :
    lineChar (lines ++ [l ++ [c]]) r k
      = if lines.length + 1 - 25 + r = lines.length ∧ k = l.length then c
        else lineChar (lines ++ [l]) r k := by
  rw [lineChar_eq, lineChar_eq, List.length_append, List.length_append, List.length_singleton,
    List.length_singleton, getD_concat, getD_concat]
  by_cases hr : lines.length + 1 - 25 + r = lines.length
  · rw [if_pos hr, if_pos hr, getD_concat]
    exact if_congr (and_iff_right hr).symm rfl rfl
  · rw [if_neg hr, if_neg hr, if_neg fun h => hr h.1]

/-- A new line below the others. -/
theorem lineChar_newline (lines : List (List UInt8)) (r k : Nat) :
    lineChar (lines ++ [[]]) r k = (lines.getD (lines.length + 1 - 25 + r) []).getD k 0x20 := by
  rw [lineChar_eq, List.length_append, List.length_singleton, getD_concat]
  split
  case isTrue hr => rw [hr, List.getD_eq_default _ _ (Nat.le_refl _)]
  case isFalse => rfl

theorem displays_ttyInit (index : Nat) (cells : Int → TtyChar) :
    Displays (vgaBegin + index * 2000) (ttyInit index cells) [[]] := by
  have hterm : (ttyInit index cells).term = .init index := (wrote_clearCells _ _ _).1
  refine ⟨?_, ?_, ?_, ?_, ?_, fun r k hr hk => ?_⟩
  · rw [hterm]
    rfl
  · rw [hterm]
    rfl
  · rw [hterm]
    rfl
  · rw [hterm]
    rfl
  · rw [hterm]
    rfl
  · have hblank : lineChar [[]] r k = 0x20 := by
      rw [lineChar_eq]
      rcases r with _ | r <;> rfl
    have hbase : (DevTerminal.init index).base = vgaBegin + index * 2000 := rfl
    have hsize : ((DevTerminal.init index).columns * (DevTerminal.init index).rows).toNat = 2000 :=
      rfl
    rw [hblank, ttyInit, ttyClear, clearCells_c]
    dsimp only
    rw [hbase, hsize]
    exact if_pos (by omega)

/-! ## One byte -/

variable {lines : List (List UInt8)} {l : List UInt8}

/-- The cursor stands behind the last character of the last line. -/
theorem Displays.cursor_eq (h : Displays home s (lines ++ [l])) :
    s.term.cr = min (lines.length + 1) 25 - 1 ∧ s.term.cc = l.length := by
  have hr := h.row
  have hc := h.column
  rw [List.length_append, List.length_singleton] at hr
  rw [List.getLastD_concat] at hc
  exact ⟨by omega, hc⟩

theorem Displays.char (h : Displays home s (lines ++ [l])) (hecho : cursor.canEcho = true)
    (hcur : cursor.current = cursor.total) (hl : (l ++ [c]).length < 80) (hc : c ≠ 0x0A) :
    Displays home (s.text cursor c) (lines ++ [l ++ [c]]) := by
  obtain ⟨hcr, hcc⟩ := h.cursor_eq
  have hcolumns := h.columns
  have hrows := h.rows
  rw [List.length_append, List.length_singleton] at hl
  have hoffset := DevTerminal.offset_eq h.columns
  have hforward : s.term.forward = { s.term with cc := s.term.cc + 1 } := if_neg (by omega)
  have hscroll : ¬ s.term.offset ≥ s.term.columns * s.term.rows := by
    rw [hcolumns, hrows]
    omega
  have hdraw : s.text cursor c = { s.put (s.term.base + s.term.offset)
      { c, fg := s.term.cfg, bg := s.term.cbg, blink := s.term.cb } with
      term := { s.term with cc := s.term.cc + 1 } } := by
    rw [text, if_neg hc, ttyWriteChar_draw s hcur fun _ => hecho, draw]
    dsimp only
    rw [if_neg hscroll, ← hforward]
    rfl
  rw [hdraw]
  refine ⟨h.base, hrows, hcolumns, ?_, ?_, fun r k hr hk => ?_⟩
  · dsimp only
    rw [hcr, List.length_append, List.length_singleton]
  · dsimp only
    rw [hcc, List.getLastD_concat, List.length_append]
    rfl
  · rw [put_cells, lineChar_concat, h.base]
    by_cases hcell : lines.length + 1 - 25 + r = lines.length ∧ k = l.length
    · rw [if_pos hcell, if_pos (by omega)]
    · rw [if_neg hcell, if_neg (by omega), h.chars r k hr hk]

/-- Every line moves up by one, and the last row is cleared. -/
theorem scrollUp_c (s : TtyScreen) (hrows : s.term.rows = 25) (hcolumns : s.term.columns = 80)
    (r k : Nat) (hr : r < 25) (hk : k < 80) :
    ((s.scrollUp 1).cells (s.term.base + (r * 80 + k))).c
      = if r < 24 then (s.cells (s.term.base + ((r + 1 : Nat) * 80 + k))).c else 0x20 := by
  have hscroll : s.scrollUp 1
      = (s.copyCells s.term.base (s.term.base + 80) 1920).blankCells (s.term.base + 1920) 80 := by
    rw [scrollUp, hrows, hcolumns]
    rfl
  rw [hscroll, blankCells_c, copyCells_cells s (by omega)]
  by_cases hlast : r < 24
  · rw [if_neg (by omega), if_pos (by omega), if_pos hlast]
    congr 2
    omega
  · rw [if_pos (by omega), if_neg hlast]

theorem Displays.newline (h : Displays home s lines) (hne : lines ≠ []) :
    Displays home (s.text cursor 0x0A) (lines ++ [[]]) := by
  have hpos := List.length_pos_iff.mpr hne
  have hrow := h.row
  have hrows := h.rows
  have hlength : (lines ++ [[]]).length = lines.length + 1 := by
    rw [List.length_append, List.length_singleton]
  rw [text, if_pos rfl, comLf, hrows]
  by_cases hroom : s.term.cr + 1 < 25
  · -- there is a row below: nothing is written
    rw [if_pos hroom]
    refine ⟨h.base, hrows, h.columns, ?_, ?_, fun r k hr hk => ?_⟩
    · rw [hlength]
      dsimp only [DevTerminal.comCr]
      omega
    · rw [List.getLastD_concat]
      rfl
    · have hfirst : lines.length + 1 - 25 = lines.length - 25 := by omega
      dsimp only
      rw [h.chars r k hr hk, lineChar_newline, lineChar_eq, hfirst]
  · -- the screen is full
    have hterm := scrollUp_term s 1
    have hnext : ∀ r, lines.length + 1 - 25 + r = lines.length - 25 + (r + 1) := by omega
    rw [if_neg hroom]
    refine ⟨?_, ?_, ?_, ?_, ?_, fun r k hr hk => ?_⟩
    · dsimp only
      rw [hterm]
      exact h.base
    · dsimp only
      rw [hterm]
      exact hrows
    · dsimp only
      rw [hterm]
      exact h.columns
    · dsimp only
      rw [hterm, hlength]
      dsimp only [DevTerminal.comCr]
      omega
    · rw [List.getLastD_concat]
      rfl
    · dsimp only
      rw [← h.base, scrollUp_c s hrows h.columns r k hr hk, lineChar_newline, hnext]
      split
      case isTrue hlast => rw [h.base, h.chars (r + 1) k (by omega) hk, lineChar_eq]
      case isFalse hlast =>
        have hbeyond : lines.getD (lines.length - 25 + (r + 1)) [] = [] :=
          List.getD_eq_default _ _ (by omega)
        rw [hbeyond]
        rfl

/-! ## The whole text -/

theorem displays_print (index : Nat) (cells : Int → TtyChar) (hecho : cursor.canEcho = true)
    (hcur : cursor.current = cursor.total) (bytes : List UInt8)
    (hlines : ∀ l ∈ bytes.splitOn 0x0A, l.length < 80) :
    Displays (vgaBegin + index * 2000) ((ttyInit index cells).print cursor bytes)
      (bytes.splitOn 0x0A) := by
  induction bytes using List.reverseRecOn with
  | nil =>
      rw [List.splitOn_nil, print, List.foldl_nil]
      exact displays_ttyInit index cells
  | append_singleton bytes c ih =>
      rw [print_concat]
      by_cases hc : c = 0x0A
      · subst hc
        rw [splitOn_concat_self] at hlines ⊢
        refine (ih fun l hl => hlines l ?_).newline (List.splitOn_ne_nil _ _)
        exact List.mem_append_left _ hl
      · obtain ⟨lines, l, hbytes, hmore⟩ := splitOn_concat (beq_false_of_ne hc) bytes
        rw [hmore] at hlines ⊢
        rw [hbytes] at ih
        have hlast := hlines _ List.mem_concat_self
        refine Displays.char (ih fun l' hl' => ?_) hecho hcur hlast hc
        rcases List.mem_append.mp hl' with hl' | hl'
        · exact hlines l' (List.mem_append_left _ hl')
        · rw [List.length_append, List.length_singleton] at hlast
          rw [List.mem_singleton.mp hl']
          omega

end TtyScreen

namespace Drain

variable {T : Type} {s : Drain T}

/-- One call of `dev_tty_write` after the other. -/
def WritesAll (cursor : CursorCtrl) (t : T) : Drain T → List (List UInt8) → Drain T → Prop
  | s, [], s' => s' = s
  | s, bytes :: rest, s' => ∃ s₁, Writes cursor t s bytes s₁ ∧ WritesAll cursor t s₁ rest s'

/-- The pieces get through, and what they show is what the whole text shows. -/
theorem Idle.writesAll (cursor : CursorCtrl) (t : T) (h : s.Idle []) (pieces : List (List UInt8))
    (hsize : ∀ p ∈ pieces, p.length ≤ ttyObufSize) (htext : ∀ p ∈ pieces, ∀ c ∈ p, IsText c) :
    ∃ s', (∀ s₁, WritesAll cursor t s pieces s₁ ↔ s₁ = s') ∧ s'.Idle []
      ∧ s'.screen = s.screen.print cursor pieces.flatten := by
  induction pieces generalizing s with
  | nil => exact ⟨s, fun s₁ => Iff.rfl, h, rfl⟩
  | cons p pieces ih =>
      obtain ⟨s₁, hwrites, hidle, hscreen⟩ :=
        h.writes cursor t (htext p List.mem_cons_self) (hsize p List.mem_cons_self)
      obtain ⟨s', hrest, hidle', hscreen'⟩ := ih hidle
        (fun q hq => hsize q (List.mem_cons_of_mem p hq))
        (fun q hq => htext q (List.mem_cons_of_mem p hq))
      refine ⟨s', fun s₂ => ⟨?_, fun hs₂ => ⟨s₁, (hwrites s₁).mpr rfl, (hrest s₂).mpr hs₂⟩⟩,
        hidle', ?_⟩
      · rintro ⟨s₃, hs₃, hs₂⟩
        obtain rfl := (hwrites s₃).mp hs₃
        exact (hrest s₂).mp hs₂
      · rw [hscreen', hscreen, List.flatten_cons, TtyScreen.print_append]

/-- After `tty_init`, a text of short lines is shown by its last 25 lines,
in whatever pieces it is written. -/
theorem ttyWrite_shows_lines (cursor : CursorCtrl) (t : T) (index : Nat) (cells : Int → TtyChar)
    (pieces : List (List UInt8)) (hidle : s.Idle []) (hinit : s.screen = .ttyInit index cells)
    (hecho : cursor.canEcho = true) (hcur : cursor.current = cursor.total)
    (hsize : ∀ p ∈ pieces, p.length ≤ ttyObufSize) (htext : ∀ p ∈ pieces, ∀ c ∈ p, IsText c)
    (hlines : ∀ l ∈ pieces.flatten.splitOn 0x0A, l.length < 80) :
    ∃ s', (∀ s₁, WritesAll cursor t s pieces s₁ ↔ s₁ = s')
      ∧ s'.screen.Displays (vgaBegin + index * 2000) (pieces.flatten.splitOn 0x0A) := by
  obtain ⟨s', hwrites, -, hscreen⟩ := hidle.writesAll cursor t pieces hsize htext
  refine ⟨s', hwrites, ?_⟩
  rw [hscreen, hinit]
  exact TtyScreen.displays_print index cells hecho hcur pieces.flatten hlines

/-- `Hi` and `!` below it, in two pieces. -/
theorem ttyWrite_shows_lines_two : ∃ s' : Drain Unit,
    (∀ s₁, WritesAll (openCursor true) () (opened Unit (fun _ => 0) 0 fun _ => ⟨0, 0, 0, false⟩)
        [[0x48, 0x69], [0x0A, 0x21]] s₁ ↔ s₁ = s')
      ∧ s'.screen.Displays (vgaBegin + (0 : Nat) * 2000) [[0x48, 0x69], [0x21]] := by
  have hlines : ([[0x48, 0x69], [0x0A, 0x21]] : List (List UInt8)).flatten.splitOn 0x0A
      = [[0x48, 0x69], [0x21]] := by decide
  have htext : ∀ c ∈ ([[0x48, 0x69], [0x0A, 0x21]] : List (List UInt8)).flatten, IsText c :=
    List.all_iff_forall_prop.mp (by decide)
  have h := ttyWrite_shows_lines (openCursor true) () 0 (fun _ => ⟨0, 0, 0, false⟩)
    [[0x48, 0x69], [0x0A, 0x21]] (idle_opened (fun _ => 0) 0 fun _ => ⟨0, 0, 0, false⟩)
    (by rw [opened]) rfl rfl (by decide)
    (fun p hp c hc => htext c (List.mem_flatten_of_mem hp hc)) (by rw [hlines]; decide)
  rwa [hlines] at h

end Drain

end Csos
