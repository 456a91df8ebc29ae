import Csos.Lib.Run
import Csos.Terminal

/-!
# What stays on the screen

For every stream of output bytes and every state of the keyboard cursor:
which bytes keep the cursor and the cells that are written on the screen of
the terminal, and which do not. The line feed, the tab and the colours are
always safe. The last cell of the screen, text that is pushed off its end,
a backspace at its beginning and absolute positions are not checked.
-/

namespace Csos

open Lib

namespace TtyScreen

variable {s s' s'' : TtyScreen} {lo hi mid a tc : Int} {n : Nat}

/-! ## The cells that a loop writes -/

/-- Exactly the cells from `lo` up to `hi` were written. -/
def Wrote (s s' : TtyScreen) (lo hi : Int) : Prop :=
  s'.term = s.term ∧ ∀ a, a ∈ s'.written ↔ a ∈ s.written ∨ lo ≤ a ∧ a < hi

theorem wrote_nothing (h : hi ≤ lo) : Wrote s s lo hi :=
  ⟨rfl, fun _ => (or_iff_left fun ha => by omega).symm⟩

theorem Wrote.trans {lo' hi' lo'' hi'' : Int} (h : Wrote s s' lo hi) (h' : Wrote s' s'' lo' hi')
    (hall : ∀ a, lo'' ≤ a ∧ a < hi'' ↔ (lo ≤ a ∧ a < hi) ∨ lo' ≤ a ∧ a < hi') :
    Wrote s s'' lo'' hi'' :=
  ⟨h'.1.trans h.1, fun a => by rw [h'.2, h.2, hall, or_assoc]⟩

theorem wrote_put (s : TtyScreen) (a : Int) (ch : TtyChar) : Wrote s (s.put a ch) a (a + 1) := by
  refine ⟨rfl, fun b => ?_⟩
  rw [put, List.mem_append, List.mem_singleton]
  exact or_congr_right (by omega)

theorem wrote_copyCells (s : TtyScreen) (dst src : Int) (n : Nat) :
    Wrote s (s.copyCells dst src n) dst (dst + n) := by
  induction n generalizing s dst src with
  | zero => exact wrote_nothing (by simp)
  | succ n ih => exact (wrote_put s dst _).trans (ih _ (dst + 1) (src + 1)) fun a => by omega

theorem wrote_blankCells (s : TtyScreen) (ptr : Int) (n : Nat) :
    Wrote s (s.blankCells ptr n) ptr (ptr + n) := by
  induction n generalizing s ptr with
  | zero => exact wrote_nothing (by simp)
  | succ n ih => exact (wrote_put s ptr _).trans (ih _ (ptr + 1)) fun a => by omega

theorem wrote_clearCells (s : TtyScreen) (ptr : Int) (n : Nat) :
    Wrote s (s.clearCells ptr n) ptr (ptr + n) := by
  induction n generalizing s ptr with
  | zero => exact wrote_nothing (by simp)
  | succ n ih => exact (wrote_put s ptr _).trans (ih _ (ptr + 1)) fun a => by omega

theorem wrote_shiftRight (s : TtyScreen) (tc : Int) (n : Nat) :
    Wrote s (s.shiftRight tc n) (tc + 1) (tc + n + 1) := by
  induction n generalizing s with
  | zero => exact wrote_nothing (by simp)
  | succ n ih => exact (wrote_put s (tc + n + 1) _).trans (ih _) fun a => by omega

theorem wrote_shiftLeft (s : TtyScreen) (ptc : Int) (n : Nat) :
    Wrote s (s.shiftLeft ptc n) ptc (ptc + n) := by
  induction n generalizing s ptc with
  | zero => exact wrote_nothing (by simp)
  | succ n ih => exact (wrote_put s ptc _).trans (ih _ (ptc + 1)) fun a => by omega

/-! ## The cells that `com_bs` looks at -/

theorem shiftLeft_cells_of_lt (s : TtyScreen) {ptc : Int} (n : Nat) (ha : a < ptc) :
    (s.shiftLeft ptc n).cells a = s.cells a := by
  induction n generalizing s ptc with
  | zero => rfl
  | succ n ih =>
      rw [shiftLeft, ih _ (by omega), put]
      exact Function.update_of_ne (by omega) _ _

theorem shiftLeft_cells_self (s : TtyScreen) (ptc : Int) (n : Nat) :
    ((s.shiftLeft ptc (n + 1)).cells ptc).c = (s.cells (ptc + 1)).c := by
  rw [shiftLeft, shiftLeft_cells_of_lt _ n (by omega), put]
  dsimp only
  rw [Function.update_self]

/-- The search for a character ends within the cells from `lo` on exactly
when there is one. -/
theorem spaces_le_iff (cells : Int → TtyChar) (tc lo : Int) (n : Nat) (hlo : lo ≤ tc)
    (hn : tc - lo < n) :
    (∃ size : Nat, spaces cells tc n = some size ∧ (size : Int) ≤ tc - lo)
      ↔ ∃ a, lo ≤ a ∧ a ≤ tc ∧ (cells a).c ≠ 0x20 := by
  induction n generalizing tc with
  | zero => omega
  | succ n ih =>
      unfold spaces
      by_cases hc : (cells tc).c = 0x20
      · rw [if_pos hc]
        rcases Int.lt_or_eq_of_le hlo with hlt | rfl
        · -- the rest of the search is the search from the cell before
          have hrest := ih (tc - 1) (by omega) (by omega)
          constructor
          · rintro ⟨size, hs, hle⟩
            obtain ⟨size', hs', rfl⟩ := Option.map_eq_some_iff.mp hs
            obtain ⟨a, ha, ha', hne⟩ := hrest.mp ⟨size', hs', by omega⟩
            exact ⟨a, ha, by omega, hne⟩
          · rintro ⟨a, ha, ha', hne⟩
            have hat : a ≠ tc := fun he => hne (he ▸ hc)
            obtain ⟨size, hs, hle⟩ := hrest.mpr ⟨a, ha, by omega, hne⟩
            exact ⟨size + 1, by rw [hs]; rfl, by omega⟩
        · constructor
          · rintro ⟨size, hs, hle⟩
            obtain ⟨size', -, rfl⟩ := Option.map_eq_some_iff.mp hs
            omega
          · rintro ⟨a, ha, ha', hne⟩
            exact absurd (Int.le_antisymm ha' ha ▸ hc) hne
      · rw [if_neg hc]
        exact iff_of_true ⟨0, rfl, by omega⟩ ⟨tc, hlo, Int.le_refl tc, hc⟩

end TtyScreen

namespace DevTerminal

variable {t t' t'' : DevTerminal} {n : Nat}

/-- All that the cursor movements leave as it was. -/
structure Fixed (t t' : DevTerminal) : Prop where
  base : t'.base = t.base
  rows : t'.rows = t.rows
  columns : t'.columns = t.columns
  or : t'.or = t.or
  oc : t'.oc = t.oc

theorem Fixed.refl (t : DevTerminal) : Fixed t t := ⟨rfl, rfl, rfl, rfl, rfl⟩

theorem Fixed.trans (h : Fixed t t') (h' : Fixed t' t'') : Fixed t t'' :=
  ⟨h'.base.trans h.base, h'.rows.trans h.rows, h'.columns.trans h.columns, h'.or.trans h.or,
    h'.oc.trans h.oc⟩

/-- The cursor is on a screen of 25 rows and 80 columns. -/
structure OnScreen (t : DevTerminal) : Prop where
  rows : t.rows = 25
  columns : t.columns = 80
  row : 0 ≤ t.cr ∧ t.cr < 25
  column : 0 ≤ t.cc ∧ t.cc < 80

theorem offset_eq (h : t.columns = 80) : t.offset = t.cc + t.cr * 80 := by rw [offset, h]

/-- Going back keeps the cursor in the columns and counts down the cells. -/
theorem back_iterate (n : Nat) (hcol : t.columns = 80) (hcc : 0 ≤ t.cc ∧ t.cc < 80) :
    Fixed t (back^[n] t) ∧ (0 ≤ (back^[n] t).cc ∧ (back^[n] t).cc < 80)
      ∧ (back^[n] t).offset = t.offset - n := by
  induction n generalizing t with
  | zero => exact ⟨.refl t, hcc, (Int.sub_zero _).symm⟩
  | succ n ih =>
      have hback : Fixed t t.back ∧ (0 ≤ t.back.cc ∧ t.back.cc < 80)
          ∧ t.back.offset = t.offset - 1 := by
        unfold back
        split
        case isTrue hc =>
          refine ⟨⟨rfl, rfl, rfl, rfl, rfl⟩, ?_, ?_⟩
          · dsimp only
            omega
          · unfold offset
            dsimp only
            rw [hcol]
            omega
        case isFalse hc =>
          refine ⟨⟨rfl, rfl, rfl, rfl, rfl⟩, ?_, ?_⟩
          · dsimp only
            omega
          · unfold offset
            dsimp only
            rw [hcol]
            omega
      obtain ⟨hf, hcc', ho⟩ := hback
      obtain ⟨hf', hcc'', ho'⟩ := ih (hf.columns.trans hcol) hcc'
      rw [Function.iterate_succ_apply]
      exact ⟨hf.trans hf', hcc'', by omega⟩

theorem OnScreen.offset_nonneg (h : t.OnScreen) : 0 ≤ t.offset := by
  obtain ⟨-, hcol, hrow, hcc⟩ := h
  rw [offset_eq hcol]
  omega

/-- The cursor goes back `n` cells, and is on the screen then exactly when
there are as many. -/
theorem OnScreen.backword (h : t.OnScreen) (hn : t.offset ≠ 0) (n : Nat) :
    Fixed t (t.ttyCursorBackword n)
      ∧ ((t.ttyCursorBackword n).OnScreen ↔ (n : Int) ≤ t.offset) := by
  obtain ⟨hrows, hcol, hrow, hcc⟩ := h
  rw [offset_eq hcol] at hn
  have hback : t.ttyCursorBackword n = back^[n] t := if_neg (by omega)
  obtain ⟨hf, hcc', ho⟩ := back_iterate n hcol hcc
  rw [offset_eq (hf.columns.trans hcol), offset_eq hcol] at ho
  rw [hback, offset_eq hcol]
  refine ⟨hf, fun h' => ?_, fun hle => ⟨hf.rows.trans hrows, hf.columns.trans hcol, ?_, hcc'⟩⟩
  · have hrow' := h'.row
    omega
  · omega

/-- At the beginning of the screen it stays where it is. -/
theorem ttyCursorBackword_zero (h : t.OnScreen) (hn : t.offset = 0) (n : Nat) :
    t.ttyCursorBackword n = t := by
  obtain ⟨hrows, hcol, hrow, hcc⟩ := h
  rw [offset_eq hcol] at hn
  exact if_pos (by omega)

/-- The cursor goes forward one cell, which the last one does not have. -/
theorem OnScreen.forward_one (h : t.OnScreen) :
    Fixed t (t.ttyCursorForward 1) ∧ ((t.ttyCursorForward 1).OnScreen ↔ t.offset < 1999) := by
  obtain ⟨hrows, hcol, hrow, hcc⟩ := h
  have hone : t.ttyCursorForward 1 = t.forward := rfl
  rw [hone, offset_eq hcol]
  unfold forward
  split
  case isTrue hlast =>
    refine ⟨⟨rfl, rfl, rfl, rfl, rfl⟩, fun h' => ?_, fun hlt => ⟨hrows, hcol, ?_, ?_⟩⟩
    · have hrow' := h'.row
      dsimp only at hrow'
      omega
    · dsimp only
      omega
    · dsimp only
      omega
  case isFalse hlast =>
    refine ⟨⟨rfl, rfl, rfl, rfl, rfl⟩, fun h' => ?_, fun hlt => ⟨hrows, hcol, hrow, ?_⟩⟩
    · omega
    · dsimp only
      omega

/-- Within a line the cursor can go forward by any number of cells. -/
theorem OnScreen.forward_line (h : t.OnScreen) (n : Nat) (hn : t.cc + n < 80) :
    Fixed t (t.ttyCursorForward n) ∧ (t.ttyCursorForward n).OnScreen := by
  unfold ttyCursorForward
  induction n generalizing t with
  | zero => exact ⟨.refl t, h⟩
  | succ n ih =>
      have hcol := h.columns
      have hcc := h.column
      have hstep : t.forward = { t with cc := t.cc + 1 } := if_neg (by omega)
      have hon : t.forward.OnScreen := by
        rw [hstep]
        exact ⟨h.rows, hcol, h.row, by dsimp only; omega⟩
      have hfix : Fixed t t.forward := by
        rw [hstep]
        exact ⟨rfl, rfl, rfl, rfl, rfl⟩
      obtain ⟨hf, ho⟩ := ih hon (by rw [hstep]; dsimp only; omega)
      rw [Function.iterate_succ_apply]
      exact ⟨hfix.trans hf, ho⟩

theorem OnScreen.comLeft (h : t.OnScreen) (cursor : CursorCtrl) :
    Fixed t (t.comLeft cursor) ∧ (t.comLeft cursor).OnScreen := by
  unfold DevTerminal.comLeft
  split
  case isTrue => exact ⟨.refl t, h⟩
  case isFalse =>
    have hpos := h.offset_nonneg
    by_cases hn : t.offset = 0
    · rw [ttyCursorBackword_zero h hn]
      exact ⟨.refl t, h⟩
    · obtain ⟨hf, hiff⟩ := h.backword hn 1
      exact ⟨hf, hiff.mpr (by omega)⟩

theorem sgr_fixed (t : DevTerminal) (arg : UInt8) :
    Fixed t (t.sgr arg) ∧ (t.sgr arg).cr = t.cr ∧ (t.sgr arg).cc = t.cc := by
  unfold sgr
  split_ifs <;> exact ⟨⟨rfl, rfl, rfl, rfl, rfl⟩, rfl, rfl⟩

/-- Colours do not move the cursor. -/
theorem foldl_sgr_fixed (args : Nat → UInt8) (is : List Nat) (t : DevTerminal) :
    let t' := is.foldl (fun t i => t.sgr (args i)) t
    Fixed t t' ∧ t'.cr = t.cr ∧ t'.cc = t.cc := by
  induction is generalizing t with
  | nil => exact ⟨.refl t, rfl, rfl⟩
  | cons i is ih =>
      obtain ⟨hf, hr, hc⟩ := sgr_fixed t (args i)
      obtain ⟨hf', hr', hc'⟩ := ih (t.sgr (args i))
      exact ⟨hf.trans hf', hr'.trans hr, hc'.trans hc⟩

end DevTerminal

namespace TtyScreen

variable {s s' : TtyScreen} {cursor : CursorCtrl} {c : UInt8} {lo hi : Int}

/-! ## The law -/

/-- The cursor is on the screen, and only cells of the screen were
written. -/
structure Confined (s : TtyScreen) : Prop where
  row : 0 ≤ s.term.cr ∧ s.term.cr < s.term.rows
  column : 0 ≤ s.term.cc ∧ s.term.cc < s.term.columns
  cells : ∀ a ∈ s.written,
    s.term.base ≤ a ∧ a < s.term.base + s.term.rows * s.term.columns

/-- From the line break that the cursor stands behind back to the cell
before the screen there are only spaces. -/
def BlankAbove (s : TtyScreen) : Prop :=
  (s.cells (s.term.base + s.term.offset)).c = 0x20
    ∧ ∀ a, s.term.base - 1 ≤ a → a < s.term.base + s.term.offset - 1 → (s.cells a).c = 0x20

/-- What the terminal is told keeps it on the screen. `n` cells of the text
are behind the cursor. -/
def Keeps (s : TtyScreen) (cursor : CursorCtrl) : TtyOut → Prop
  | .nothing => True
  | .char c =>
      let n : Int := cursor.total.toNat - cursor.current.toNat
      if c = 0x08 then
        cursor.canBackspace = true → 0 < s.term.offset ∧ s.term.offset + n ≤ 2000
          ∧ (s.term.cc = 0 → ¬ s.BlankAbove)
      else if c = 0x09 ∨ c = 0x00 ∨ c = 0x0D ∨ c = 0x0A then True
      else if (c = keyLeft ∨ c = keyUp ∨ c = keyDown) ∧ cursor.canEcho = false then True
      else if c = keyRight ∧ cursor.canEcho = false then
        cursor.canRight = true → s.term.offset < 1999
      else s.term.offset < 1999 ∧ s.term.offset + n < 2000
  | .control c a =>
      (c = 0x66 ∨ c = 0x48) → a.idx = 2 → (a.args 0).toNat < 25 ∧ (a.args 1).toNat < 80

/-- The law, and what it rests on: the size of the screen, and a position
on it to go back to. -/
structure ScreenInv (s : TtyScreen) : Prop extends Confined s where
  rows : s.term.rows = 25
  columns : s.term.columns = 80
  base : 1 ≤ s.term.base
  origin : (0 ≤ s.term.or ∧ s.term.or < 25) ∧ 0 ≤ s.term.oc ∧ s.term.oc < 80

theorem ScreenInv.onScreen (h : s.ScreenInv) : s.term.OnScreen :=
  ⟨h.rows, h.columns, h.rows ▸ h.row, h.columns ▸ h.column⟩

theorem ScreenInv.cells_lt (h : s.ScreenInv) :
    ∀ a ∈ s.written, s.term.base ≤ a ∧ a < s.term.base + 2000 := by
  intro a ha
  have hcells := h.cells a ha
  rw [h.rows, h.columns] at hcells
  exact hcells

/-- The cursor has moved and cells were written: when that is confined. -/
theorem ScreenInv.confined_iff (h : s.ScreenInv) (s' : TtyScreen) (hf : s.term.Fixed s'.term)
    (hw : ∀ a, a ∈ s'.written ↔ a ∈ s.written ∨ lo ≤ a ∧ a < hi) :
    s'.Confined ↔ s'.term.OnScreen ∧ (lo < hi → s.term.base ≤ lo ∧ hi ≤ s.term.base + 2000) := by
  have hrows := hf.rows.trans h.rows
  have hcolumns := hf.columns.trans h.columns
  constructor
  · intro hc
    refine ⟨⟨hrows, hcolumns, hrows ▸ hc.row, hcolumns ▸ hc.column⟩, fun hlt => ?_⟩
    have hlo := hc.cells lo ((hw lo).mpr (Or.inr ⟨Int.le_refl lo, hlt⟩))
    have hhi := hc.cells (hi - 1) ((hw (hi - 1)).mpr (Or.inr ⟨by omega, by omega⟩))
    rw [hrows, hcolumns, hf.base] at hlo hhi
    omega
  · rintro ⟨hon, hrange⟩
    refine ⟨hrows ▸ hon.row, hcolumns ▸ hon.column, fun a ha => ?_⟩
    rw [hrows, hcolumns, hf.base]
    rcases (hw a).mp ha with ha | ⟨hlo, hhi⟩
    · exact h.cells_lt a ha
    · have hr := hrange (by omega)
      omega

/-- A move that keeps the rest of the terminal. -/
theorem ScreenInv.of_confined (h : s.ScreenInv) (hf : s.term.Fixed s'.term) (hc : s'.Confined) :
    s'.ScreenInv :=
  { hc with
    rows := hf.rows.trans h.rows
    columns := hf.columns.trans h.columns
    base := hf.base ▸ h.base
    origin := by
      rw [hf.or, hf.oc]
      exact h.origin }

/-! ## The handlers -/

theorem ScreenInv.scrollUp (h : s.ScreenInv) :
    Wrote s (s.scrollUp 1) s.term.base (s.term.base + 2000) := by
  have hcopy := wrote_copyCells s s.term.base (s.term.base + 80) 1920
  have hblank := wrote_blankCells (s.copyCells s.term.base (s.term.base + 80) 1920)
    (s.term.base + 1920) 80
  unfold TtyScreen.scrollUp
  rw [h.rows, h.columns]
  exact hcopy.trans hblank fun a => by omega

/-- The line feed, and the carriage return after it. -/
theorem ScreenInv.comLf (h : s.ScreenInv) :
    ScreenInv { s.comLf with term := s.comLf.term.comCr } := by
  have hrow := h.onScreen.row
  unfold TtyScreen.comLf
  split
  case isTrue hlt =>
    rw [h.rows] at hlt
    refine h.of_confined ⟨rfl, rfl, rfl, rfl, rfl⟩ ⟨?_, ?_, h.cells⟩
    · change 0 ≤ s.term.cr + 1 ∧ s.term.cr + 1 < s.term.rows
      rw [h.rows]
      omega
    · change 0 ≤ (0 : Int) ∧ 0 < s.term.columns
      rw [h.columns]
      omega
  case isFalse =>
    obtain ⟨hterm, hw⟩ := h.scrollUp
    dsimp only
    rw [hterm]
    have hf : s.term.Fixed s.term.comCr := ⟨rfl, rfl, rfl, rfl, rfl⟩
    refine h.of_confined hf ((h.confined_iff { s.scrollUp 1 with term := s.term.comCr } hf hw).mpr
      ⟨⟨h.rows, h.columns, hrow, ?_⟩, fun _ => ?_⟩)
    · exact ⟨Int.le_refl 0, (by decide : (0 : Int) < 80)⟩
    · omega

theorem ScreenInv.comHt (h : s.ScreenInv) : s.comHt.ScreenInv := by
  have hon := h.onScreen
  obtain ⟨-, hcol, hrow, hcc⟩ := id hon
  have hmod : 0 ≤ s.term.cc.tmod 8 ∧ s.term.cc.tmod 8 < 8 := by
    rw [Int.tmod_eq_emod_of_nonneg hcc.1]
    omega
  obtain ⟨size, hsize⟩ : ∃ size : Int, size = if s.term.cc + (8 - s.term.cc.tmod 8) ≥ s.term.columns
      then s.term.columns - s.term.cc - 1 else 8 - s.term.cc.tmod 8 := ⟨_, rfl⟩
  have hline : 0 ≤ size ∧ s.term.cc + size < 80 := by
    rw [hsize, hcol]
    split <;> omega
  obtain ⟨hterm, hw⟩ := wrote_blankCells s (s.term.base + s.term.offset) size.toNat
  obtain ⟨hf, hon'⟩ := hon.forward_line size.toNat (by omega)
  unfold TtyScreen.comHt
  dsimp only
  rw [← hsize, hterm]
  refine h.of_confined hf ((h.confined_iff { s.blankCells (s.term.base + s.term.offset) size.toNat with
    term := s.term.ttyCursorForward size.toNat } hf hw).mpr ⟨hon', fun _ => ?_⟩)
  rw [DevTerminal.offset_eq hcol]
  omega

/-- A character of the text, where the insertion of `n` cells and the step
of the cursor fit on the screen. -/
theorem ScreenInv.ttyWriteChar (h : s.ScreenInv) (hcur : cursor.current ≤ cursor.total)
    (hc : ¬ (c = 0x08 ∨ c = 0x09 ∨ c = 0x00 ∨ c = 0x0D ∨ c = 0x0A)) :
    s.term.Fixed (s.ttyWriteChar cursor c).term
      ∧ ((s.ttyWriteChar cursor c).Confined ↔ s.Keeps cursor (.char c)) := by
  have hon := h.onScreen
  have hcells : ∀ {t : DevTerminal}, s.term.Fixed t →
      (Confined { s with term := t } ↔ t.OnScreen) :=
    fun {t} hf => by
      have hw : ∀ a, a ∈ s.written ↔ a ∈ s.written ∨ (0 : Int) ≤ a ∧ a < 0 := fun a =>
        (or_iff_left fun ha => by omega).symm
      rw [h.confined_iff { s with term := t } hf hw]
      exact and_iff_left fun hlt => absurd hlt (Int.lt_irrefl 0)
  simp only [not_or] at hc
  obtain ⟨hbs, hht, hnul, hcr, hlf⟩ := hc
  unfold Keeps TtyScreen.ttyWriteChar
  simp only [hbs, hht, hnul, hcr, hlf, if_false, or_self, Bool.not_eq_true']
  by_cases hleft : c = keyLeft ∧ cursor.canEcho = false
  · obtain ⟨hf, hon'⟩ := hon.comLeft cursor
    rw [if_pos hleft, if_pos ⟨Or.inl hleft.1, hleft.2⟩]
    exact ⟨hf, iff_of_true ((hcells hf).mpr hon') trivial⟩
  rw [if_neg hleft]
  by_cases hright : c = keyRight ∧ cursor.canEcho = false
  · have hno : ¬ ((c = keyLeft ∨ c = keyUp ∨ c = keyDown) ∧ cursor.canEcho = false) := by
      rintro ⟨hc, -⟩
      rw [hright.1] at hc
      exact absurd hc (by decide)
    rw [if_pos hright, if_neg hno, if_pos hright]
    unfold DevTerminal.comRight
    cases cursor.canRight with
    | false => exact ⟨.refl s.term, iff_of_true h.toConfined nofun⟩
    | true =>
        obtain ⟨hf, hiff⟩ := hon.forward_one
        exact ⟨hf, ((hcells hf).trans hiff).trans ⟨fun hlt _ => hlt, fun hlt => hlt rfl⟩⟩
  rw [if_neg hright]
  by_cases hup : (c = keyUp ∨ c = keyDown) ∧ cursor.canEcho = false
  · rw [if_pos hup, if_pos ⟨Or.inr hup.1, hup.2⟩]
    exact ⟨.refl s.term, iff_of_true h.toConfined trivial⟩
  have hno : ¬ ((c = keyLeft ∨ c = keyUp ∨ c = keyDown) ∧ cursor.canEcho = false) := by
    rintro ⟨hc | hc, he⟩
    · exact hleft ⟨hc, he⟩
    · exact hup ⟨hc, he⟩
  rw [if_neg hup, if_neg hno, if_neg hright]
  obtain ⟨-, hcol, hrow, hcc⟩ := id hon
  have hoff := DevTerminal.offset_eq hcol
  have hin : ¬ s.term.offset ≥ s.term.columns * s.term.rows := by
    rw [h.rows, hcol, hoff]
    omega
  obtain ⟨hf, hiff⟩ := hon.forward_one
  rw [UInt16.le_iff_toNat_le] at hcur
  dsimp only
  rw [if_neg hin]
  by_cases hend : cursor.current = cursor.total
  · rw [if_pos hend, hend]
    obtain ⟨hterm, hw⟩ := wrote_put s (s.term.base + s.term.offset)
      { c, fg := s.term.cfg, bg := s.term.cbg, blink := s.term.cb }
    rw [hterm]
    refine ⟨hf, ?_⟩
    rw [h.confined_iff { s.put (s.term.base + s.term.offset) _ with
      term := s.term.ttyCursorForward 1 } hf hw]
    dsimp only
    rw [hiff]
    omega
  · rw [if_neg hend]
    obtain ⟨n, hn⟩ : ∃ n, n = cursor.total.toNat - cursor.current.toNat := ⟨_, rfl⟩
    have hpos : 0 < n := by
      have hne : cursor.current.toNat ≠ cursor.total.toNat :=
        fun he => hend (UInt16.toNat_inj.mp he)
      omega
    obtain ⟨hterm, hw⟩ := wrote_shiftRight s (s.term.base + s.term.offset) n
    rw [← hn, hterm]
    refine ⟨hf, ?_⟩
    rw [h.confined_iff { s.shiftRight (s.term.base + s.term.offset) n with
      term := s.term.ttyCursorForward 1 } hf hw]
    dsimp only
    rw [hiff]
    omega

/-- `com_bs` with the loop already done. -/
theorem comBs_eq (hcan : cursor.canBackspace = true) :
    let tc := s.term.base + s.term.offset - 1
    let t := s.shiftLeft tc (cursor.total.toNat - cursor.current.toNat + 1)
    s.comBs cursor = (if s.term.cc = 0 then spaces t.cells tc (tc + 1).toNat else some 1).map
      fun size => { t with term := s.term.ttyCursorBackword size } := by
  intro tc t
  have hterm : t.term = s.term := (wrote_shiftLeft s tc _).1
  unfold comBs
  rw [hcan]
  change (if t.term.cc = 0 then (spaces t.cells tc (tc + 1).toNat).bind _ else _) = _
  rw [hterm]
  split
  case isTrue =>
    cases spaces t.cells tc (tc + 1).toNat with
    | none => rfl
    | some size => rfl
  case isFalse => rfl

/-- How far `com_bs` goes back stays on the screen, unless there are only
spaces above. -/
theorem ScreenInv.spaces_iff (h : s.ScreenInv) (n : Nat) :
    let tc := s.term.base + s.term.offset - 1
    (∃ size : Nat, spaces (s.shiftLeft tc (n + 1)).cells tc (tc + 1).toNat = some size
        ∧ (size : Int) ≤ s.term.offset) ↔ ¬ s.BlankAbove := by
  intro tc
  have hbase := h.base
  have hoff := h.onScreen.offset_nonneg
  have hself := shiftLeft_cells_self s tc n
  have hbelow := fun a (ha : a < tc) => shiftLeft_cells_of_lt s (n + 1) ha
  have hgo := spaces_le_iff (s.shiftLeft tc (n + 1)).cells tc (s.term.base - 1) (tc + 1).toNat
    (by omega) (by omega)
  have hlen : tc - (s.term.base - 1) = s.term.offset := by omega
  have hnext : tc + 1 = s.term.base + s.term.offset := by omega
  rw [hlen] at hgo
  rw [hgo]
  unfold BlankAbove
  constructor
  · rintro ⟨a, ha, ha', hne⟩ ⟨hhere, habove⟩
    rcases Int.lt_or_eq_of_le ha' with hlt | rfl
    · rw [hbelow a hlt] at hne
      exact hne (habove a ha hlt)
    · rw [hself, hnext] at hne
      exact hne hhere
  · intro hblank
    by_cases hhere : (s.cells (s.term.base + s.term.offset)).c = 0x20
    · obtain ⟨a, ha, hlt, hne⟩ : ∃ a, s.term.base - 1 ≤ a
          ∧ a < s.term.base + s.term.offset - 1 ∧ (s.cells a).c ≠ 0x20 := by
        by_contra hall
        refine hblank ⟨hhere, fun a ha hlt => ?_⟩
        by_contra hne
        exact hall ⟨a, ha, hlt, hne⟩
      exact ⟨a, ha, Int.le_of_lt hlt, by rw [hbelow a hlt]; exact hne⟩
    · exact ⟨tc, by omega, Int.le_refl tc, by rw [hself, hnext]; exact hhere⟩

/-- A backspace. -/
theorem ScreenInv.comBs (h : s.ScreenInv) (hcur : cursor.current ≤ cursor.total) :
    (∀ s', s.comBs cursor = some s' → s'.Confined → s.term.Fixed s'.term)
      ∧ ((∃ s', s.comBs cursor = some s' ∧ s'.Confined) ↔ s.Keeps cursor (.char 0x08)) := by
  have hon := h.onScreen
  obtain ⟨-, hcol, hrow, hcc⟩ := id hon
  have hoff := DevTerminal.offset_eq hcol
  have hkeeps : s.Keeps cursor (.char 0x08) ↔ (cursor.canBackspace = true → 0 < s.term.offset
      ∧ s.term.offset + (cursor.total.toNat - cursor.current.toNat : Int) ≤ 2000
      ∧ (s.term.cc = 0 → ¬ s.BlankAbove)) := Iff.rfl
  rw [UInt16.le_iff_toNat_le] at hcur
  rw [hkeeps]
  cases hcan : cursor.canBackspace with
  | false =>
      have hsame : s.comBs cursor = some s := by
        unfold TtyScreen.comBs
        rw [hcan]
        rfl
      rw [hsame]
      refine ⟨fun s' hs' _ => ?_, iff_of_true ⟨s, rfl, h.toConfined⟩ nofun⟩
      obtain rfl := Option.some.inj hs'
      exact .refl s.term
  | true =>
      obtain ⟨n, hn⟩ : ∃ n, n = cursor.total.toNat - cursor.current.toNat := ⟨_, rfl⟩
      have hcast : (n : Int) = cursor.total.toNat - cursor.current.toNat := by omega
      obtain ⟨tc, htc⟩ : ∃ tc, tc = s.term.base + s.term.offset - 1 := ⟨_, rfl⟩
      have heq := comBs_eq (s := s) hcan
      have hspaces := h.spaces_iff n
      obtain ⟨hterm, hw⟩ := wrote_shiftLeft s tc (n + 1)
      dsimp only at heq hspaces
      rw [← hn, ← htc] at heq
      rw [← htc] at hspaces
      have hback : ∀ size : Nat, s.term.offset ≠ 0 →
          s.term.Fixed (s.term.ttyCursorBackword size)
            ∧ (Confined { s.shiftLeft tc (n + 1) with term := s.term.ttyCursorBackword size }
              ↔ (size : Int) ≤ s.term.offset ∧ s.term.offset + n ≤ 2000) := by
        intro size hne
        obtain ⟨hf, hiff⟩ := hon.backword hne size
        refine ⟨hf, ?_⟩
        rw [h.confined_iff { s.shiftLeft tc (n + 1) with
          term := s.term.ttyCursorBackword size } hf hw]
        dsimp only
        rw [hiff]
        omega
      have hsome : ∀ s', s.comBs cursor = some s' ↔ ∃ size : Nat,
          (if s.term.cc = 0 then spaces (s.shiftLeft tc (n + 1)).cells tc (tc + 1).toNat
            else some 1) = some size
          ∧ { s.shiftLeft tc (n + 1) with term := s.term.ttyCursorBackword size } = s' := by
        intro s'
        rw [heq]
        exact Option.map_eq_some_iff
      have hnonneg := hon.offset_nonneg
      rcases Int.lt_or_eq_of_le hnonneg with hpos | hzero
      · have hne : s.term.offset ≠ 0 := Int.ne_of_gt hpos
        constructor
        · intro s' hs' _
          obtain ⟨size, -, rfl⟩ := (hsome s').mp hs'
          exact (hback size hne).1
        · constructor
          · rintro ⟨s', hs', hconf⟩ -
            obtain ⟨size, hsize, rfl⟩ := (hsome s').mp hs'
            obtain ⟨hle, hroom⟩ := (hback size hne).2.mp hconf
            refine ⟨hpos, hcast ▸ hroom, fun hcc0 => ?_⟩
            rw [if_pos hcc0] at hsize
            exact hspaces.mp ⟨size, hsize, hle⟩
          · intro hk
            obtain ⟨-, hroom, hblank⟩ := hk rfl
            have hfits : s.term.offset + n ≤ 2000 := hcast ▸ hroom
            by_cases hcc0 : s.term.cc = 0
            · obtain ⟨size, hsize, hle⟩ := hspaces.mpr (hblank hcc0)
              exact ⟨_, (hsome _).mpr ⟨size, by rw [if_pos hcc0]; exact hsize, rfl⟩,
                (hback size hne).2.mpr ⟨hle, hfits⟩⟩
            · exact ⟨_, (hsome _).mpr ⟨1, by rw [if_neg hcc0], rfl⟩,
                (hback 1 hne).2.mpr ⟨hpos, hfits⟩⟩
      · -- the cell before the screen is written
        have hout : ∀ s', s.comBs cursor = some s' → ¬ s'.Confined := by
          intro s' hs' hconf
          obtain ⟨size, -, rfl⟩ := (hsome s').mp hs'
          rw [DevTerminal.ttyCursorBackword_zero hon hzero.symm] at hconf
          have hrange := ((h.confined_iff { s.shiftLeft tc (n + 1) with term := s.term }
            (.refl s.term) hw).mp hconf).2 (by omega)
          omega
        refine ⟨fun s' hs' hconf => absurd hconf (hout s' hs'), iff_of_false ?_ fun hk => ?_⟩
        · rintro ⟨s', hs', hconf⟩
          exact hout s' hs' hconf
        · have hpos := (hk rfl).1
          omega

/-- An escape sequence. -/
theorem ScreenInv.comEsc (h : s.ScreenInv) (cursor : CursorCtrl) (c : UInt8) (a : EscArgs) :
    (Confined { s with term := s.term.comEsc c a } ↔ s.Keeps cursor (.control c a))
      ∧ (Confined { s with term := s.term.comEsc c a } →
        ScreenInv { s with term := s.term.comEsc c a }) := by
  have hon := h.onScreen
  obtain ⟨-, hcol, hrow, hcc⟩ := id hon
  have hkeeps : s.Keeps cursor (.control c a) ↔ ((c = 0x66 ∨ c = 0x48) → a.idx = 2 →
      (a.args 0).toNat < 25 ∧ (a.args 1).toNat < 80) := Iff.rfl
  rw [hkeeps]
  unfold DevTerminal.comEsc
  by_cases hm : c = 0x6D
  · -- the colours
    rw [if_pos hm]
    obtain ⟨hf, hr, hc⟩ := DevTerminal.foldl_sgr_fixed a.args (List.range a.idx.toNat) s.term
    have hconf : Confined { s with
        term := (List.range a.idx.toNat).foldl (fun t i => t.sgr (a.args i)) s.term } := by
      refine ⟨?_, ?_, ?_⟩
      · dsimp only
        rw [hr, hf.rows]
        exact h.row
      · dsimp only
        rw [hc, hf.columns]
        exact h.column
      · dsimp only
        rw [hf.base, hf.rows, hf.columns]
        exact h.cells
    refine ⟨iff_of_true hconf fun hfh => ?_, h.of_confined hf⟩
    rw [hm] at hfh
    exact absurd hfh (by decide)
  rw [if_neg hm]
  by_cases hfh : c = 0x66 ∨ c = 0x48
  · rw [if_pos hfh]
    by_cases htwo : a.idx = 2
    · -- absolute positioning
      rw [if_pos htwo]
      refine ⟨⟨fun hconf _ _ => ?_, fun hk => ?_⟩, fun hconf => ?_⟩
      · have hr := hconf.row
        have hc := hconf.column
        dsimp only at hr hc
        rw [h.rows] at hr
        rw [hcol] at hc
        omega
      · obtain ⟨hr, hc⟩ := hk hfh htwo
        refine ⟨?_, ?_, h.cells⟩
        · dsimp only
          rw [h.rows]
          omega
        · dsimp only
          rw [hcol]
          omega
      · exact { hconf with
          rows := h.rows
          columns := hcol
          base := h.base
          origin := ⟨hrow, hcc⟩ }
    · rw [if_neg htwo]
      by_cases hone : a.idx = 1 ∧ a.args 0 = 0
      · -- back to the position before
        rw [if_pos hone]
        have hconf :
            Confined { s with term := { s.term with cr := s.term.or, cc := s.term.oc } } := by
          refine ⟨?_, ?_, h.cells⟩
          · dsimp only
            rw [h.rows]
            exact h.origin.1
          · dsimp only
            rw [hcol]
            exact h.origin.2
        exact ⟨iff_of_true hconf fun _ he => absurd he htwo,
          h.of_confined ⟨rfl, rfl, rfl, rfl, rfl⟩⟩
      · rw [if_neg hone]
        exact ⟨iff_of_true h.toConfined fun _ he => absurd he htwo, fun _ => h⟩
  · rw [if_neg hfh]
    exact ⟨iff_of_true h.toConfined fun hc => absurd hc hfh, fun _ => h⟩

/-- A message whose result is known. -/
theorem told_of_eq {t : TtyScreen} {out : TtyOut} (htold : s.told cursor out = some t)
    (hiff : t.Confined ↔ s.Keeps cursor out) (hinv : t.Confined → t.ScreenInv) :
    ((∃ s', s.told cursor out = some s' ∧ s'.Confined) ↔ s.Keeps cursor out)
      ∧ ∀ s', s.told cursor out = some s' → s'.Confined → s'.ScreenInv := by
  refine ⟨⟨?_, fun hk => ⟨t, htold, hiff.mpr hk⟩⟩, fun s' hs' hconf => ?_⟩
  · rintro ⟨s', hs', hconf⟩
    obtain rfl := Option.some.inj (htold.symm.trans hs')
    exact hiff.mp hconf
  · obtain rfl := Option.some.inj (htold.symm.trans hs')
    exact hinv hconf

/-- Whatever the terminal is told: it stays on the screen exactly when the
condition says so, and then the invariant is kept. -/
theorem ScreenInv.told (h : s.ScreenInv) (hcur : cursor.current ≤ cursor.total) (out : TtyOut) :
    ((∃ s', s.told cursor out = some s' ∧ s'.Confined) ↔ s.Keeps cursor out)
      ∧ ∀ s', s.told cursor out = some s' → s'.Confined → s'.ScreenInv := by
  cases out with
  | nothing => exact told_of_eq rfl (iff_of_true h.toConfined trivial) fun _ => h
  | control c a =>
      obtain ⟨hiff, hinv⟩ := h.comEsc cursor c a
      exact told_of_eq rfl hiff hinv
  | char c =>
      have hfixed : ∀ {t : TtyScreen}, t.ScreenInv → s.told cursor (.char c) = some t →
          s.Keeps cursor (.char c) →
          ((∃ s', s.told cursor (.char c) = some s' ∧ s'.Confined) ↔ s.Keeps cursor (.char c))
            ∧ ∀ s', s.told cursor (.char c) = some s' → s'.Confined → s'.ScreenInv :=
        fun ht heq hk => told_of_eq heq (iff_of_true ht.toConfined hk) fun _ => ht
      by_cases hbs : c = 0x08
      · subst hbs
        obtain ⟨hf, hiff⟩ := h.comBs hcur
        exact ⟨hiff, fun s' hs' hconf => h.of_confined (hf s' hs' hconf) hconf⟩
      by_cases hht : c = 0x09
      · subst hht
        exact hfixed h.comHt rfl trivial
      by_cases hnul : c = 0x00
      · subst hnul
        exact hfixed h rfl trivial
      by_cases hcr : c = 0x0D
      · subst hcr
        have hzero : ScreenInv { s with term := s.term.comCr } := by
          refine h.of_confined ⟨rfl, rfl, rfl, rfl, rfl⟩ ⟨h.row, ?_, h.cells⟩
          change 0 ≤ (0 : Int) ∧ 0 < s.term.columns
          rw [h.columns]
          decide
        exact hfixed hzero rfl trivial
      by_cases hlf : c = 0x0A
      · subst hlf
        exact hfixed h.comLf rfl trivial
      -- the characters of the text
      have hc : ¬ (c = 0x08 ∨ c = 0x09 ∨ c = 0x00 ∨ c = 0x0D ∨ c = 0x0A) := by
        simp only [hbs, hht, hnul, hcr, hlf, or_self, not_false_eq_true]
      have htold : s.told cursor (.char c) = some (s.ttyWriteChar cursor c) := by
        change s.ttyWrite cursor c = _
        unfold ttyWrite
        rw [if_neg hbs, if_neg hht, if_neg hnul, if_neg hcr, if_neg hlf]
      obtain ⟨hf, hiff⟩ := h.ttyWriteChar hcur hc
      exact told_of_eq htold hiff fun hconf => h.of_confined hf hconf

theorem wrote_ttyInit (index : Nat) (cells : Int → TtyChar) :
    Wrote { term := .init index, cells, written := [] } (ttyInit index cells)
      (DevTerminal.init index).base ((DevTerminal.init index).base + 2000) := by
  have hsize : (((DevTerminal.init index).columns * (DevTerminal.init index).rows).toNat : Int)
      = 2000 := by
    change ((80 * 25 : Int).toNat : Int) = 2000
    decide
  unfold ttyInit ttyClear
  rw [← hsize]
  exact wrote_clearCells _ _ _

/-- `tty_init` of one of the terminals. -/
theorem screenInv_init (index : Nat) (cells : Int → TtyChar) : ScreenInv (ttyInit index cells) := by
  obtain ⟨hterm, hw⟩ := wrote_ttyInit index cells
  have hrow : 0 ≤ (0 : Int) ∧ (0 : Int) < 25 := by decide
  have hcolumn : 0 ≤ (0 : Int) ∧ (0 : Int) < 80 := by decide
  refine ⟨⟨?_, ?_, fun a ha => ?_⟩, ?_, ?_, ?_, ?_⟩ <;> rw [hterm]
  · exact hrow
  · exact hcolumn
  · exact ((hw a).mp ha).resolve_left List.not_mem_nil
  · rfl
  · rfl
  · change 1 ≤ (0x5C000 + index * (25 * 80) : Int)
    omega
  · exact ⟨hrow, hcolumn⟩

end TtyScreen

namespace TtyConsole

open TtyScreen

variable {s s' : TtyConsole} {b : TtyByte}

/-! ## Every stream of bytes -/

/-- The bytes that can come next in text with escape sequences of at most
two arguments. -/
def Expects : Parse → UInt8 → Prop
  | .text, _ => True
  | .esc, c => c = 0x5B
  | .bracket, c => isDigit c ∨ isFinal c ∨ c = 0x3B
  | .semi _, c => isDigit c ∨ isFinal c
  | .digit a _ _, c => isDigit c ∨ isFinal c ∨ c = 0x3B ∧ a.idx = 0
  | .stuck, _ => False

instance : ∀ p c, Decidable (Expects p c)
  | .text, _ => isTrue trivial
  | .esc, _ => inferInstanceAs (Decidable (_ = _))
  | .bracket, _ => inferInstanceAs (Decidable (_ ∨ _))
  | .semi _, _ => inferInstanceAs (Decidable (_ ∨ _))
  | .digit .., _ => inferInstanceAs (Decidable (_ ∨ _))
  | .stuck, _ => isFalse id

/-- Such a byte, and a keyboard cursor within its text. -/
def Fits (s : TtyConsole) (b : TtyByte) : Prop :=
  Expects s.parse b.c ∧ b.cursor.current ≤ b.cursor.total

/-- The byte is done with, and all is on the screen then. -/
def Correctly (s : TtyConsole) (b : TtyByte) : Prop :=
  ∃ s', s.step b = some s' ∧ s'.screen.Confined

/-- The condition on the byte, which an escape sequence only meets or not
at its end. -/
def Meets (s : TtyConsole) (b : TtyByte) : Prop := s.screen.Keeps b.cursor (s.parse.feed b.c).2

theorem correctly_iff (h : s.screen.ScreenInv) (hf : s.Fits b) : s.Correctly b ↔ s.Meets b := by
  rw [Meets, ← (h.told hf.2 _).1]
  constructor
  · rintro ⟨s', hs', hconf⟩
    obtain ⟨screen, hscreen, rfl⟩ := Option.map_eq_some_iff.mp hs'
    exact ⟨screen, hscreen, hconf⟩
  · rintro ⟨screen, hscreen, hconf⟩
    exact ⟨_, Option.map_eq_some_iff.mpr ⟨screen, hscreen, rfl⟩, hconf⟩

theorem screenInv_step (h : s.screen.ScreenInv) (hf : s.Fits b) (hm : s.Meets b)
    (hs : s.step b = some s') : s'.screen.ScreenInv := by
  obtain ⟨t, ht, hconf⟩ := (correctly_iff h hf).mpr hm
  obtain rfl := Option.some.inj (ht.symm.trans hs)
  obtain ⟨screen, hscreen, rfl⟩ := Option.map_eq_some_iff.mp hs
  exact (h.told hf.2 _).2 screen hscreen hconf

/-- From `tty_init` on, all bytes of a stream keep the cursor and the cells
that are written on the screen if and only if each of them meets the
condition. -/
theorem screen_law (index : Nat) (cells : Int → TtyChar) (bytes : List TtyByte)
    (hfits : Always step Fits (start index cells) bytes) :
    Always step Correctly (start index cells) bytes
      ↔ Always step Meets (start index cells) bytes := by
  obtain ⟨s, hs⟩ : ∃ s, s = start index cells := ⟨_, rfl⟩
  have hinv : s.screen.ScreenInv := by
    rw [hs, start]
    dsimp only
    exact screenInv_init index cells
  rw [← hs] at hfits ⊢
  exact always_congr_of_invariant (I := fun s => s.screen.ScreenInv)
    (fun _ _ _ h hf hm hs => screenInv_step h hf hm hs) (fun _ _ h hf => correctly_iff h hf)
    hinv hfits

/-- A byte while nothing is being typed. -/
def plain (c : UInt8) : TtyByte where
  c := c
  cursor := ⟨0, 0, false, false, false, true⟩

/-- One character on a fresh screen. -/
theorem screen_law_char :
    Always step Correctly (start 0 fun _ => ⟨0, 0, 0, false⟩) [plain 0x41] := by
  have hfits : Always step Fits (start 0 fun _ => ⟨0, 0, 0, false⟩) [plain 0x41] :=
    ⟨⟨trivial, UInt16.le_refl 0⟩, fun _ _ => trivial⟩
  refine (screen_law 0 _ _ hfits).mpr ⟨?_, fun _ _ => trivial⟩
  have hoffset : (ttyInit 0 fun _ => ⟨0, 0, 0, false⟩).term.offset = 0 := by
    rw [(wrote_ttyInit 0 _).1]
    rfl
  have hmeets : ∀ offset : Int, offset = 0 → offset < 1999 ∧ offset + (0 - 0) < 2000 := by
    intro offset h
    omega
  exact hmeets _ hoffset

/-- `ESC [ 24 ; 79 H`. -/
def toCorner : List TtyByte := [0x1B, 0x5B, 0x32, 0x34, 0x3B, 0x37, 0x39, 0x48].map plain

/-- The last cell of the screen. -/
theorem run_toCorner (screen : TtyScreen) :
    run step { screen, parse := .text } toCorner = some {
      screen := { screen with term := { screen.term with
        or := screen.term.cr, oc := screen.term.cc, cr := 24, cc := 79 } }
      parse := .text } := rfl

/-- A character in the last cell: the cursor leaves the screen. -/
theorem screen_law_corner :
    ¬ ∀ (index : Nat) (cells : Int → TtyChar) (bytes : List TtyByte),
      Always step Fits (start index cells) bytes →
      Always step Correctly (start index cells) bytes := by
  intro h
  have hfits : ∀ screen,
      Always step Fits { screen, parse := .text } (toCorner ++ [plain 0x41]) := by
    intro screen
    have hcur := UInt16.le_refl 0
    refine always_cons_get ⟨trivial, hcur⟩ rfl (always_cons_get ⟨rfl, hcur⟩ rfl ?_)
    refine always_cons_get ⟨Or.inl rfl, hcur⟩ rfl (always_cons_get ⟨Or.inl rfl, hcur⟩ rfl ?_)
    refine always_cons_get ⟨Or.inr (Or.inr ⟨rfl, rfl⟩), hcur⟩ rfl ?_
    refine always_cons_get ⟨Or.inl rfl, hcur⟩ rfl (always_cons_get ⟨Or.inl rfl, hcur⟩ rfl ?_)
    exact always_cons_get ⟨Or.inr (Or.inl rfl), hcur⟩ rfl
      (always_cons_get ⟨trivial, hcur⟩ rfl trivial)
  have hinit := screenInv_init 0 fun _ => ⟨0, 0, 0, false⟩
  have hlast := (h 0 (fun _ => ⟨0, 0, 0, false⟩) _ (hfits _)).after (run_toCorner _)
  generalize ttyInit 0 (fun _ => ⟨0, 0, 0, false⟩) = screen at hinit hlast
  have hon := hinit.onScreen
  have hrow : 0 ≤ (24 : Int) ∧ (24 : Int) < 25 := by decide
  have hcolumn : 0 ≤ (79 : Int) ∧ (79 : Int) < 80 := by decide
  have hcorner : ScreenInv { screen with term := { screen.term with
      or := screen.term.cr, oc := screen.term.cc, cr := 24, cc := 79 } } :=
    { hinit with
      row := ⟨hrow.1, hrow.2.trans_eq hinit.rows.symm⟩
      column := ⟨hcolumn.1, hcolumn.2.trans_eq hinit.columns.symm⟩
      origin := ⟨hon.row, hon.column⟩ }
  have hlt : _ < (1999 : Int) :=
    ((correctly_iff (s := { screen := _, parse := .text }) (b := plain 0x41) hcorner
      ⟨trivial, UInt16.le_refl 0⟩).mp hlast).1
  rw [DevTerminal.offset_eq hcorner.columns] at hlt
  exact absurd hlt (by decide : ¬ (79 + 24 * 80 : Int) < 1999)

end TtyConsole

end Csos
