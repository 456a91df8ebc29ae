import Csos.DottedQuad
import Csos.TerminalLaw

/-!
# Drawing a command again (`shell_cmd_up`, `tty_tcsetattr`)

When the shell goes through its history it has the screen blanked from the
prompt on and prints the command there, between two escape sequences: the
first one goes to the prompt, the second one back to where the cursor was.

The arrow key that asked for it has cleared `can_echo`, and with that the
terminal takes the letters `H`, `K`, `M` and `P` of the command for arrow
keys. The command is on the screen exactly if it has none of them
(`redraw_law`).
-/

namespace Csos

open Lib Lib.Bytes

/-! ## The code -/

/-- `term_t`. -/
structure TermT where
  cc : UInt8
  cr : UInt8

/-- `tty_tcgetattr` for `stdin`. -/
def ttyTcgetattr (t : DevTerminal) : TermT where
  cc := UInt8.ofInt t.cc
  cr := UInt8.ofInt t.cr

namespace TtyScreen

/-- The loop of `tty_tcsetattr` with `start`, for `count` cells. -/
def tcsetCells (s : TtyScreen) (start : Int) : Nat → TtyScreen
  | 0 => s
  | count + 1 =>
      (s.put start { c := 0x20, fg := s.term.fg, bg := s.term.bg, blink := s.term.cb }).tcsetCells
        (start + 1) count

/-- `tty_tcsetattr` for `stdin`. -/
def ttyTcsetattr (s : TtyScreen) (term : TermT) : TtyScreen :=
  let s := { s with term := { s.term with cc := term.cc.toNat, cr := term.cr.toNat } }
  let place := s.term.columns * s.term.cr + s.term.cc
  s.tcsetCells (s.term.base + place) (s.term.columns * s.term.rows - place).toNat

end TtyScreen

theorem redraw_ne_percent : (0x1B : BitVec 8) ≠ 0x25 ∧ (0x5B : BitVec 8) ≠ 0x25
    ∧ (0x3B : BitVec 8) ≠ 0x25 ∧ (0x66 : BitVec 8) ≠ 0x25 ∧ (0x30 : BitVec 8) ≠ 0x25 := by
  decide

/-- `"\033[%d;%df%s\033[0f"`, for the place `term` and the command `cmd` at `p`. -/
def redrawItems (term : TermT) (p : BitVec 32) (cmd : List (BitVec 8)) : List FormatItem :=
  let esc := FormatItem.char 0x1B redraw_ne_percent.1
  let bracket := FormatItem.char 0x5B redraw_ne_percent.2.1
  let semicolon := FormatItem.char 0x3B redraw_ne_percent.2.2.1
  let f := FormatItem.char 0x66 redraw_ne_percent.2.2.2.1
  let zero := FormatItem.char 0x30 redraw_ne_percent.2.2.2.2
  let number (v : UInt8) := FormatItem.number .plain .d (v.toBitVec.setWidth 32)
  [esc, bracket, number term.cr, semicolon, number term.cc, f, .string .plain p cmd,
    esc, bracket, zero, f]

/-- What is printed. -/
def redrawText (term : TermT) (cmd : List (BitVec 8)) : List (BitVec 8) :=
  [0x1B, 0x5B] ++ decimalChars term.cr.toNat ++ [0x3B] ++ decimalChars term.cc.toNat ++ [0x66]
    ++ cmd ++ [0x1B, 0x5B, 0x30, 0x66]

theorem redrawItems_render (term : TermT) (p : BitVec 32) (cmd : List (BitVec 8)) :
    (redrawItems term p cmd).flatMap FormatItem.render = redrawText term cmd := by
  have hcmd : FormatItem.render (.string .plain p cmd) = cmd := by
    change fieldText {} (-1) cmd = cmd
    rw [fieldText, Int.toNat_of_nonpos (by omega)]
    rfl
  have hnumber (v : UInt8) :
      FormatItem.render (.number .plain .d (v.toBitVec.setWidth 32)) = decimalChars v.toNat :=
    numberText_byte v.toBitVec
  simp only [redrawItems, redrawText, List.flatMap_cons, List.flatMap_nil, hcmd, hnumber]
  simp only [FormatItem.render, List.append_assoc, List.cons_append, List.nil_append,
    List.append_nil]

theorem vsprintf_redraw {va : Nat → BitVec 32} {m : Bytes} {term : TermT} {p : BitVec 32}
    {cmd : List (BitVec 8)} (hcr : va 0 = term.cr.toBitVec.setWidth 32)
    (hcc : va 1 = term.cc.toBitVec.setWidth 32) (hp : va 2 = p) (hnull : p ≠ 0)
    (hcmd : IsString m p.toNat cmd) (hlen : cmd.length < 0x20000000) :
    vsprintf va m [0x1B, 0x5B, 0x25, 0x64, 0x3B, 0x25, 0x64, 0x66, 0x25, 0x73, 0x1B, 0x5B, 0x30,
      0x66] = some ⟨redrawText term cmd, 3, m⟩ := by
  rw [← redrawItems_render term p]
  have hpasses : ArgsPass va m 0 (redrawItems term p cmd) :=
    ⟨trivial, trivial, hcr, trivial, hcc, trivial, ⟨hp, hnull, hcmd, hlen⟩, trivial, trivial,
      trivial, trivial, trivial⟩
  have hprints : vsprintfLoop va ((redrawItems term p cmd).length + 3) ⟨[], 0, m⟩
      ((redrawItems term p cmd).flatMap FormatItem.text ++ []) = _ := vsprintfLoop_items hpasses
  exact hprints

/-! ## The cells -/

/-- The terminal takes the character for an arrow key when nothing is echoed. -/
def IsArrow (c : UInt8) : Prop := c = keyLeft ∨ c = keyRight ∨ c = keyUp ∨ c = keyDown

instance (c : UInt8) : Decidable (IsArrow c) := inferInstanceAs (Decidable (_ ∨ _))

/-- A character that the terminal only writes. -/
def IsWritten (c : UInt8) : Prop :=
  c ≠ 0x08 ∧ c ≠ 0x09 ∧ c ≠ 0x00 ∧ c ≠ 0x0D ∧ c ≠ 0x0A ∧ c ≠ 0x1B

instance (c : UInt8) : Decidable (IsWritten c) := inferInstanceAs (Decidable (_ ∧ _))

/-- The character is written, whatever the keyboard has left. -/
def Shown (cursor : CursorCtrl) (c : UInt8) : Prop := cursor.canEcho = true ∨ ¬ IsArrow c

instance (cursor : CursorCtrl) (c : UInt8) : Decidable (Shown cursor c) :=
  inferInstanceAs (Decidable (_ ∨ _))

namespace DevTerminal

variable {t t' : DevTerminal} {cursor : CursorCtrl}

/-- The cursor is in some column. -/
structure InColumn (t : DevTerminal) : Prop where
  rows : t.rows = 25
  columns : t.columns = 80
  column : 0 ≤ t.cc ∧ t.cc < 80

theorem InColumn.of_fixed (h : t.InColumn) (hf : t.Fixed t') (hcc : 0 ≤ t'.cc ∧ t'.cc < 80) :
    t'.InColumn := ⟨hf.rows.trans h.rows, hf.columns.trans h.columns, hcc⟩

theorem InColumn.forward (h : t.InColumn) :
    Fixed t (t.ttyCursorForward 1) ∧ (t.ttyCursorForward 1).InColumn
      ∧ (t.ttyCursorForward 1).offset = t.offset + 1 := by
  obtain ⟨hrows, hcol, hcc⟩ := h
  have hone : t.ttyCursorForward 1 = t.forward := rfl
  rw [hone]
  unfold DevTerminal.forward DevTerminal.offset
  split
  case isTrue hlast =>
    refine ⟨⟨rfl, rfl, rfl, rfl, rfl⟩, ⟨hrows, hcol, by dsimp only; omega⟩, ?_⟩
    dsimp only
    rw [hcol]
    omega
  case isFalse hlast =>
    refine ⟨⟨rfl, rfl, rfl, rfl, rfl⟩, ⟨hrows, hcol, by dsimp only; omega⟩, ?_⟩
    dsimp only
    omega

/-- An arrow key moves the cursor one cell on at most. -/
theorem InColumn.comLeft (h : t.InColumn) : Fixed t (t.comLeft cursor)
    ∧ (t.comLeft cursor).InColumn ∧ (t.comLeft cursor).offset ≤ t.offset + 1 := by
  have hsame : Fixed t t ∧ t.InColumn ∧ t.offset ≤ t.offset + 1 := ⟨.refl t, h, by omega⟩
  unfold DevTerminal.comLeft ttyCursorBackword
  split
  case isTrue => exact hsame
  case isFalse =>
    split
    case isTrue => exact hsame
    case isFalse =>
      obtain ⟨hf, hcc, ho⟩ := back_iterate 1 h.columns h.column
      exact ⟨hf, h.of_fixed hf hcc, by omega⟩

theorem InColumn.comRight (h : t.InColumn) : Fixed t (t.comRight cursor)
    ∧ (t.comRight cursor).InColumn ∧ (t.comRight cursor).offset ≤ t.offset + 1 := by
  unfold DevTerminal.comRight
  split
  case isTrue => exact ⟨.refl t, h, by omega⟩
  case isFalse =>
    obtain ⟨hf, hin, ho⟩ := h.forward
    exact ⟨hf, hin, by omega⟩

end DevTerminal

namespace TtyScreen

variable {s : TtyScreen} {cursor : CursorCtrl} {c : UInt8}

theorem tcsetCells_eq (s : TtyScreen) (start : Int) (count : Nat) :
    (s.tcsetCells start count).term = s.term
      ∧ ∀ a, ((s.tcsetCells start count).cells a).c
          = if start ≤ a ∧ a < start + count then 0x20 else (s.cells a).c := by
  induction count generalizing s start with
  | zero => exact ⟨rfl, fun a => (if_neg (by omega)).symm⟩
  | succ count ih =>
      obtain ⟨hterm, hcells⟩ := ih (s.put start
        { c := 0x20, fg := s.term.fg, bg := s.term.bg, blink := s.term.cb }) (start + 1)
      refine ⟨hterm, fun a => ?_⟩
      rw [tcsetCells, hcells]
      by_cases ha : a = start
      · rw [if_neg (by omega), if_pos (by omega), ha, put]
        dsimp only
        rw [Function.update_self]
      · rw [put]
        dsimp only
        rw [Function.update_of_ne ha]
        exact if_congr (by omega) rfl rfl

/-- A character that is written. -/
theorem ttyWriteChar_shown (h : s.term.InColumn) (hcur : cursor.current = cursor.total)
    (hlt : s.term.offset < 2000) (hc : Shown cursor c) :
    s.term.Fixed (s.ttyWriteChar cursor c).term ∧ (s.ttyWriteChar cursor c).term.InColumn
      ∧ (s.ttyWriteChar cursor c).term.offset = s.term.offset + 1
      ∧ ∀ a, ((s.ttyWriteChar cursor c).cells a).c
          = if a = s.term.base + s.term.offset then c else (s.cells a).c := by
  have hnot (P : Prop) (hP : P → IsArrow c) : ¬ (P ∧ (!cursor.canEcho) = true) := by
    rintro ⟨harrow, hecho⟩
    rcases hc with hc | hc
    · rw [hc] at hecho
      cases hecho
    · exact hc (hP harrow)
  have hroom : ¬ s.term.offset ≥ s.term.columns * s.term.rows := by
    rw [h.columns, h.rows]
    omega
  have hwrite : s.ttyWriteChar cursor c
      = { s.put (s.term.base + s.term.offset)
            { c, fg := s.term.cfg, bg := s.term.cbg, blink := s.term.cb } with
          term := s.term.ttyCursorForward 1 } := by
    rw [ttyWriteChar, if_neg (hnot _ .inl), if_neg (hnot _ fun h => .inr (.inl h)),
      if_neg (hnot _ fun h => .inr (.inr h))]
    simp only [if_neg hroom, if_pos hcur]
    rfl
  rw [hwrite]
  obtain ⟨hf, hin, ho⟩ := h.forward
  refine ⟨hf, hin, ho, fun a => ?_⟩
  change (Function.update s.cells _ _ a).c = _
  rw [Function.update_apply]
  split <;> rfl

/-- One that is not. -/
theorem ttyWriteChar_arrow (h : s.term.InColumn) (hc : ¬ Shown cursor c) :
    s.term.Fixed (s.ttyWriteChar cursor c).term ∧ (s.ttyWriteChar cursor c).term.InColumn
      ∧ (s.ttyWriteChar cursor c).term.offset ≤ s.term.offset + 1
      ∧ (s.ttyWriteChar cursor c).cells = s.cells := by
  obtain ⟨hecho, harrow⟩ := not_or.mp hc
  have hecho' : (!cursor.canEcho) = true := by
    rw [Bool.eq_false_of_not_eq_true hecho]
    rfl
  rw [ttyWriteChar]
  split
  case isTrue =>
    obtain ⟨hf, hin, ho⟩ := h.comLeft
    exact ⟨hf, hin, ho, rfl⟩
  case isFalse hleft =>
    split
    case isTrue =>
      obtain ⟨hf, hin, ho⟩ := h.comRight
      exact ⟨hf, hin, ho, rfl⟩
    case isFalse hright =>
      have hupdown : (c = keyUp ∨ c = keyDown) ∧ (!cursor.canEcho) = true := by
        rcases not_not.mp harrow with hc | hc | hc
        · exact absurd ⟨hc, hecho'⟩ hleft
        · exact absurd ⟨hc, hecho'⟩ hright
        · exact ⟨hc, hecho'⟩
      rw [if_pos hupdown]
      exact ⟨.refl _, h, by omega, rfl⟩

end TtyScreen

/-! ## The numbers of a control -/

namespace TtyConsole

/-- The bytes of a text, while the keyboard leaves the cursor as it is. -/
def bytesOf (cursor : CursorCtrl) (cs : List (BitVec 8)) : List TtyByte :=
  cs.map fun c => ⟨UInt8.ofBitVec c, cursor⟩

open TtyScreen

section Control

variable {screen : TtyScreen} {cursor : CursorCtrl} {a : EscArgs} {c v : UInt8}
  {rest : List (BitVec 8)}

theorem digitChar_byte : ∀ d < 10, isDigit (UInt8.ofBitVec (digitChar false d)) = true
    ∧ UInt8.ofBitVec (digitChar false d) - 0x30 = UInt8.ofNat d := by
  decide

/-- The digits behind the first one. -/
theorem run_digits {ds : List Nat} (hds : ∀ d ∈ ds, d < 10) :
    ∃ c', run step ⟨screen, .digit a c v⟩ (bytesOf cursor (ds.map (digitChar false) ++ rest))
      = run step ⟨screen, .digit a c' (ds.foldl (fun v d => v * 10 + UInt8.ofNat d) v)⟩
          (bytesOf cursor rest) := by
  induction ds generalizing c v with
  | nil => exact ⟨c, rfl⟩
  | cons d ds ih =>
      obtain ⟨hdigit, hvalue⟩ := digitChar_byte d (hds d List.mem_cons_self)
      obtain ⟨c', hrest⟩ := @ih (UInt8.ofBitVec (digitChar false d)) (v * 10 + UInt8.ofNat d)
        fun d hd => hds d (List.mem_cons_of_mem _ hd)
      have hfeed : Parse.feed (.digit a c v) (UInt8.ofBitVec (digitChar false d))
          = (.digit a (UInt8.ofBitVec (digitChar false d)) (v * 10 + UInt8.ofNat d), .nothing) := by
        rw [Parse.feed, if_pos hdigit, hvalue]
      have hstep : step ⟨screen, .digit a c v⟩ ⟨UInt8.ofBitVec (digitChar false d), cursor⟩
          = some ⟨screen, .digit a (UInt8.ofBitVec (digitChar false d))
              (v * 10 + UInt8.ofNat d)⟩ := by
        rw [step, hfeed]
        rfl
      refine ⟨c', ?_⟩
      rw [List.map_cons, List.cons_append, bytesOf, List.map_cons, run_cons, hstep,
        Option.bind_some]
      exact hrest

theorem foldl_numeral (n : Nat) :
    (numeral 10 n).foldl (fun v d => v * 10 + UInt8.ofNat d) 0 = UInt8.ofNat n := by
  have hstep : ∀ v, ∀ d ∈ numeral 10 n,
      UInt8.ofNat v * 10 + UInt8.ofNat d = UInt8.ofNat (v * 10 + d) := by
    intro v d _
    rw [UInt8.ofNat_add, UInt8.ofNat_mul]
    rfl
  have hfold : (numeral 10 n).foldl (fun v d => v * 10 + UInt8.ofNat d) (UInt8.ofNat 0)
      = UInt8.ofNat (horner 10 0 ((numeral 10 n).map id)) := foldl_horner hstep
  rwa [List.map_id, horner_numeral] at hfold

/-- A digit is no final byte and no `;`. -/
theorem escLoop_digit : ∀ d < 10, ∀ a, escLoop a (UInt8.ofBitVec (digitChar false d))
    = (.digit a (UInt8.ofBitVec (digitChar false d)) (UInt8.ofNat d), .nothing) := by
  have hbyte : ∀ d < 10, isFinal (UInt8.ofBitVec (digitChar false d)) = false
      ∧ UInt8.ofBitVec (digitChar false d) ≠ 0x3B := by decide
  intro d hd a
  obtain ⟨hfinal, hsemi⟩ := hbyte d hd
  obtain ⟨hdigit, hvalue⟩ := digitChar_byte d hd
  rw [escLoop, hfinal, if_neg Bool.false_ne_true, if_neg hsemi, if_pos hdigit, hvalue]

/-- A number, and the byte behind it. -/
theorem run_number {p : Parse} (hp : p.feed = escLoop a) (n : Nat) {c : BitVec 8}
    (hc : isDigit (UInt8.ofBitVec c) = false) :
    run step ⟨screen, p⟩ (bytesOf cursor (decimalChars n ++ c :: rest))
      = ((screen.told cursor (escLoop (a.push (UInt8.ofNat n)) (UInt8.ofBitVec c)).2).map
          fun screen => ⟨screen, (escLoop (a.push (UInt8.ofNat n)) (UInt8.ofBitVec c)).1⟩).bind
            fun s => run step s (bytesOf cursor rest) := by
  have hlt := @numeral_lt 10 n (by decide)
  have hvalue := foldl_numeral n
  obtain ⟨d, ds, hds⟩ := List.exists_cons_of_ne_nil (@numeral_ne_nil 10 n)
  rw [hds, List.foldl_cons, UInt8.zero_mul, UInt8.zero_add] at hvalue
  rw [hds] at hlt
  have hd := hlt d List.mem_cons_self
  have hfirst : step ⟨screen, p⟩ ⟨UInt8.ofBitVec (digitChar false d), cursor⟩
      = some ⟨screen, .digit a (UInt8.ofBitVec (digitChar false d)) (UInt8.ofNat d)⟩ := by
    rw [step, hp, escLoop_digit d hd a]
    rfl
  obtain ⟨c', hrun⟩ := @run_digits screen cursor a (UInt8.ofBitVec (digitChar false d))
    (UInt8.ofNat d) (c :: rest) ds fun d hd => hlt d (List.mem_cons_of_mem _ hd)
  have hlast : Parse.feed (.digit a c' (UInt8.ofNat n)) (UInt8.ofBitVec c)
      = escLoop (a.push (UInt8.ofNat n)) (UInt8.ofBitVec c) := by
    rw [Parse.feed, hc, if_neg Bool.false_ne_true]
  rw [decimalChars, hds, List.map_cons, List.cons_append, bytesOf, List.map_cons, run_cons, hfirst,
    Option.bind_some]
  refine hrun.trans ?_
  rw [hvalue, bytesOf, List.map_cons, run_cons, step, hlast]
  rfl

/-- The sequence that goes to a place and remembers where the cursor was. -/
theorem run_goto (term : TermT) :
    run step ⟨screen, .text⟩ (bytesOf cursor ([0x1B, 0x5B] ++ decimalChars term.cr.toNat ++ [0x3B]
        ++ decimalChars term.cc.toNat ++ [0x66] ++ rest))
      = run step ⟨{ screen with term := { screen.term with
            or := screen.term.cr, oc := screen.term.cc
            cr := term.cr.toNat, cc := term.cc.toNat } }, .text⟩ (bytesOf cursor rest) := by
  have hrow := @run_number screen cursor .none (decimalChars term.cc.toNat ++ 0x66 :: rest) .bracket
    rfl term.cr.toNat 0x3B (by decide)
  have hcolumn := @run_number screen cursor (EscArgs.none.push term.cr) rest
    (.semi (EscArgs.none.push term.cr)) rfl term.cc.toNat 0x66 (by decide)
  rw [UInt8.ofNat_toNat] at hrow hcolumn
  have htext : [0x1B, 0x5B] ++ decimalChars term.cr.toNat ++ [0x3B]
        ++ decimalChars term.cc.toNat ++ [0x66] ++ rest
      = 0x1B :: 0x5B :: (decimalChars term.cr.toNat ++ 0x3B :: (decimalChars term.cc.toNat
        ++ 0x66 :: rest)) := by
    simp only [List.append_assoc, List.cons_append, List.nil_append]
  rw [htext]
  change run step ⟨screen, .bracket⟩ (bytesOf cursor (decimalChars term.cr.toNat ++ _)) = _
  rw [hrow]
  change run step ⟨screen, .semi _⟩ (bytesOf cursor (decimalChars term.cc.toNat ++ _)) = _
  rw [hcolumn]
  rfl

theorem step_written (hc : IsWritten c) :
    step ⟨screen, .text⟩ ⟨c, cursor⟩ = some ⟨screen.ttyWriteChar cursor c, .text⟩ := by
  obtain ⟨hbs, hht, hnul, hcr, hlf, hesc⟩ := hc
  have hfeed : Parse.feed .text c = (.text, .char c) := if_neg hesc
  have htold : screen.told cursor (.char c) = some (screen.ttyWriteChar cursor c) := by
    rw [told, ttyWrite, if_neg hbs, if_neg hht, if_neg hnul, if_neg hcr, if_neg hlf]
  rw [step, hfeed]
  dsimp only
  rw [htold]
  rfl

/-- What a row of characters leaves on the screen: nothing else is written, and when all of
them are, they stand there in order. -/
structure Typed (cursor : CursorCtrl) (s : TtyScreen) (cs : List (BitVec 8)) (s' : TtyScreen) :
    Prop where
  fixed : s.term.Fixed s'.term
  written : ∀ a, (s'.cells a).c = (s.cells a).c
    ∨ ∃ c ∈ cs, Shown cursor (UInt8.ofBitVec c) ∧ (s'.cells a).c = UInt8.ofBitVec c
  shown : (∀ c ∈ cs, Shown cursor (UInt8.ofBitVec c)) → ∀ a, (s'.cells a).c
    = if s.term.base + s.term.offset ≤ a ∧ a < s.term.base + s.term.offset + cs.length then
        UInt8.ofBitVec (cs.getD (a - (s.term.base + s.term.offset)).toNat 0)
      else (s.cells a).c

/-- The first character, and those behind it. -/
theorem typed_cons (c : BitVec 8) (cs : List (BitVec 8)) (base offset a : Int) {old : UInt8} :
    (if base + (offset + 1) ≤ a ∧ a < base + (offset + 1) + cs.length then
        UInt8.ofBitVec (cs.getD (a - (base + (offset + 1))).toNat 0)
      else if a = base + offset then UInt8.ofBitVec c else old)
      = if base + offset ≤ a ∧ a < base + offset + (c :: cs).length then
          UInt8.ofBitVec ((c :: cs).getD (a - (base + offset)).toNat 0)
        else old := by
  rw [List.length_cons]
  by_cases hfirst : a = base + offset
  · rw [if_neg (by omega), if_pos hfirst, if_pos (by omega), hfirst, Int.sub_self]
    rfl
  · by_cases hin : base + (offset + 1) ≤ a ∧ a < base + (offset + 1) + cs.length
    · have hindex : (a - (base + offset)).toNat = (a - (base + (offset + 1))).toNat + 1 := by omega
      rw [if_pos hin, if_pos (by omega), hindex, List.getD_cons_succ]
    · rw [if_neg hin, if_neg hfirst, if_neg (by omega)]

theorem run_typed {cs : List (BitVec 8)} (h : screen.term.InColumn)
    (hcur : cursor.current = cursor.total) (hcs : ∀ c ∈ cs, IsWritten (UInt8.ofBitVec c))
    (hfit : screen.term.offset + cs.length ≤ 2000) :
    ∃ screen', run step ⟨screen, .text⟩ (bytesOf cursor (cs ++ rest))
        = run step ⟨screen', .text⟩ (bytesOf cursor rest)
      ∧ Typed cursor screen cs screen' := by
  induction cs generalizing screen with
  | nil => exact ⟨screen, rfl, .refl _, fun a => .inl rfl, fun _ a => (if_neg (by
      rw [List.length_nil]; omega)).symm⟩
  | cons c cs ih =>
      rw [List.length_cons] at hfit
      have hstep := @step_written screen cursor _ (hcs c List.mem_cons_self)
      have hrun (screen' : TtyScreen) :
          run step ⟨screen, .text⟩ (bytesOf cursor (c :: cs ++ rest))
            = run step ⟨screen.ttyWriteChar cursor (UInt8.ofBitVec c), .text⟩
                (bytesOf cursor (cs ++ rest)) := by
        rw [List.cons_append, bytesOf, List.map_cons, run_cons, hstep, Option.bind_some]
        rfl
      have hcs' : ∀ c ∈ cs, IsWritten (UInt8.ofBitVec c) :=
        fun c hc => hcs c (List.mem_cons_of_mem _ hc)
      by_cases hc : Shown cursor (UInt8.ofBitVec c)
      · obtain ⟨hf, hin, ho, hcells⟩ := ttyWriteChar_shown h hcur (by omega) hc
        obtain ⟨s', hrest, hfixed, hwritten, hshown⟩ := ih hin hcs' (by omega)
        refine ⟨s', (hrun s').trans hrest, hf.trans hfixed, fun a => ?_, fun hall a => ?_⟩
        · rcases hwritten a with ha | ⟨c', hc', ha⟩
          · rw [ha, hcells]
            split
            case isTrue => exact .inr ⟨c, List.mem_cons_self, hc, rfl⟩
            case isFalse => exact .inl rfl
          · exact .inr ⟨c', List.mem_cons_of_mem _ hc', ha⟩
        · rw [hshown (fun c hc => hall c (List.mem_cons_of_mem _ hc)), hf.base, ho, hcells]
          exact typed_cons c cs _ _ a
      · obtain ⟨hf, hin, ho, hcells⟩ := ttyWriteChar_arrow h hc
        obtain ⟨s', hrest, hfixed, hwritten, -⟩ := ih hin hcs' (by omega)
        refine ⟨s', (hrun s').trans hrest, hf.trans hfixed, fun a => ?_, fun hall =>
          absurd (hall c List.mem_cons_self) hc⟩
        rcases hwritten a with ha | ⟨c', hc', ha⟩
        · rw [ha, hcells]
          exact .inl rfl
        · exact .inr ⟨c', List.mem_cons_of_mem _ hc', ha⟩

/-- The sequence that goes back. -/
theorem run_back : run step ⟨screen, .text⟩ (bytesOf cursor [0x1B, 0x5B, 0x30, 0x66])
    = some ⟨{ screen with term := { screen.term with
        cr := screen.term.or, cc := screen.term.oc } }, .text⟩ := by
  have hzero := @run_number screen cursor .none [] .bracket rfl 0 0x66 (by decide)
  have hback : screen.term.comEsc 0x66 (EscArgs.none.push 0)
      = { screen.term with cr := screen.term.or, cc := screen.term.oc } := by
    rw [DevTerminal.comEsc, if_neg (by decide), if_pos (by decide), if_neg (by decide),
      if_pos (by decide)]
  have hdigit : decimalChars 0 = [0x30] := by decide
  rw [hdigit] at hzero
  refine hzero.trans ?_
  change some (TtyConsole.mk { screen with term := screen.term.comEsc 0x66 (EscArgs.none.push 0) }
    .text) = _
  rw [hback]

end Control

/-! ## The command line -/

/-- The screen `s` has the text from a place on, and blanks behind it; before the place it is
as in `s₀`. -/
def Displays (s₀ : TtyScreen) (place : Int) (cs : List (BitVec 8)) (s : TtyScreen) : Prop :=
  ∀ a, (s.cells a).c
    = if s₀.term.base + place ≤ a ∧ a < s₀.term.base + 2000 then
        UInt8.ofBitVec (cs.getD (a - (s₀.term.base + place)).toNat 0x20)
      else (s₀.cells a).c

theorem ttyTcgetattr_place {t : DevTerminal} (h : t.OnScreen) :
    ((ttyTcgetattr t).cr.toNat : Int) = t.cr ∧ ((ttyTcgetattr t).cc.toNat : Int) = t.cc := by
  have hbyte : ∀ x : Int, 0 ≤ x → x < 256 → ((UInt8.ofInt x).toNat : Int) = x := by
    intro x hlo hhi
    rw [UInt8.ofInt, UInt8.toNat_ofNat_of_lt' (by rw [UInt8.size]; omega)]
    omega
  obtain ⟨-, -, hrow, hcc⟩ := h
  exact ⟨hbyte _ hrow.1 (by omega), hbyte _ hcc.1 (by omega)⟩

/-- What `tty_tcsetattr` does with the place that `tty_tcgetattr` gave. -/
theorem ttyTcsetattr_eq {s : TtyScreen} {t : DevTerminal} (hs : s.term.OnScreen) (ht : t.OnScreen) :
    (s.ttyTcsetattr (ttyTcgetattr t)).term = { s.term with cc := t.cc, cr := t.cr }
      ∧ ∀ a, ((s.ttyTcsetattr (ttyTcgetattr t)).cells a).c
          = if s.term.base + t.offset ≤ a ∧ a < s.term.base + 2000 then 0x20
            else (s.cells a).c := by
  obtain ⟨hrow, hcolumn⟩ := ttyTcgetattr_place ht
  obtain ⟨-, -, htrow, htcolumn⟩ := id ht
  rw [DevTerminal.offset_eq ht.columns, ttyTcsetattr, hrow, hcolumn]
  obtain ⟨hterm, hcells⟩ := tcsetCells_eq { s with term := { s.term with cc := t.cc, cr := t.cr } }
    (s.term.base + (s.term.columns * t.cr + t.cc))
    (s.term.columns * s.term.rows - (s.term.columns * t.cr + t.cc)).toNat
  refine ⟨hterm, fun a => (hcells a).trans ?_⟩
  rw [hs.columns, hs.rows]
  exact if_congr (by omega) rfl rfl

/-- The whole line, on a screen that is blank from the place on. -/
theorem run_redraw {s : TtyScreen} {t : DevTerminal} {cursor : CursorCtrl}
    {cmd : List (BitVec 8)} (ht : t.OnScreen) (hs : s.term.OnScreen)
    (hcur : cursor.current = cursor.total)
    (hwritten : ∀ c ∈ cmd, IsWritten (UInt8.ofBitVec c)) (hfit : t.offset + cmd.length ≤ 2000) :
    ∃ s₁ s', run step ⟨s.ttyTcsetattr (ttyTcgetattr t), .text⟩
          (bytesOf cursor (redrawText (ttyTcgetattr t) cmd)) = some ⟨s', .text⟩
      ∧ s'.term.cr = t.cr ∧ s'.term.cc = t.cc
      ∧ s₁.term.base = s.term.base ∧ s₁.term.offset = t.offset
      ∧ s₁.cells = (s.ttyTcsetattr (ttyTcgetattr t)).cells ∧ Typed cursor s₁ cmd s' := by
  obtain ⟨hrow, hcolumn⟩ := ttyTcgetattr_place ht
  obtain ⟨hterm, -⟩ := ttyTcsetattr_eq hs ht
  generalize s.ttyTcsetattr (ttyTcgetattr t) = screen at hterm ⊢
  let s₁ : TtyScreen := { screen with term := { screen.term with
    or := screen.term.cr, oc := screen.term.cc
    cr := (ttyTcgetattr t).cr.toNat, cc := (ttyTcgetattr t).cc.toNat } }
  have hoffset : s₁.term.offset = t.offset := by
    change ((ttyTcgetattr t).cc.toNat : Int) + (ttyTcgetattr t).cr.toNat * screen.term.columns = _
    rw [hrow, hcolumn, hterm, DevTerminal.offset, ht.columns]
    exact congrArg (fun c => t.cc + t.cr * c) hs.columns
  have hin : s₁.term.InColumn := by
    refine ⟨?_, ?_, ?_⟩
    · change screen.term.rows = 25
      rw [hterm]
      exact hs.rows
    · change screen.term.columns = 80
      rw [hterm]
      exact hs.columns
    · change 0 ≤ ((ttyTcgetattr t).cc.toNat : Int) ∧ ((ttyTcgetattr t).cc.toNat : Int) < 80
      rw [hcolumn]
      exact ht.column
  obtain ⟨s₂, hrun, htyped⟩ := @run_typed s₁ cursor [0x1B, 0x5B, 0x30, 0x66] cmd hin hcur hwritten
    (by rw [hoffset]; exact hfit)
  have horigin : s₂.term.or = t.cr ∧ s₂.term.oc = t.cc := by
    rw [htyped.fixed.or, htyped.fixed.oc]
    change screen.term.cr = _ ∧ screen.term.cc = _
    rw [hterm]
    exact ⟨rfl, rfl⟩
  refine ⟨s₁, { s₂ with term := { s₂.term with cr := s₂.term.or, cc := s₂.term.oc } }, ?_,
    horigin.1, horigin.2, ?_, hoffset, rfl, ?_⟩
  · rw [redrawText, List.append_assoc _ cmd, run_goto, hrun, run_back]
  · change screen.term.base = _
    rw [hterm]
  · exact ⟨⟨htyped.fixed.base, htyped.fixed.rows, htyped.fixed.columns, htyped.fixed.or,
      htyped.fixed.oc⟩, htyped.written, htyped.shown⟩

/-- The command that is drawn again stands on the screen from the prompt on, with blanks
behind it and nothing else changed, exactly if each of its characters is written; the cursor
is behind the prompt. -/
theorem redraw_law {va : Nat → BitVec 32} {m : Bytes} {cmd : List (BitVec 8)} {t : DevTerminal}
    {s : TtyScreen} {cursor : CursorCtrl} (ht : t.OnScreen) (hs : s.term.OnScreen)
    (hcur : cursor.current = cursor.total) (hcr : va 0 = (ttyTcgetattr t).cr.toBitVec.setWidth 32)
    (hcc : va 1 = (ttyTcgetattr t).cc.toBitVec.setWidth 32) (hnull : va 2 ≠ 0)
    (hcmd : IsString m (va 2).toNat cmd) (hwritten : ∀ c ∈ cmd, IsWritten (UInt8.ofBitVec c))
    (hfit : t.offset + cmd.length ≤ 2000) :
    ∃ cs s', vsprintf va m [0x1B, 0x5B, 0x25, 0x64, 0x3B, 0x25, 0x64, 0x66, 0x25, 0x73, 0x1B, 0x5B,
          0x30, 0x66] = some ⟨cs, 3, m⟩
      ∧ run step ⟨s.ttyTcsetattr (ttyTcgetattr t), .text⟩ (bytesOf cursor cs) = some ⟨s', .text⟩
      ∧ s'.term.cr = t.cr ∧ s'.term.cc = t.cc
      ∧ (Displays s t.offset cmd s' ↔ ∀ c ∈ cmd, Shown cursor (UInt8.ofBitVec c)) := by
  have hpos : 0 ≤ t.offset := ht.offset_nonneg
  have hprint := vsprintf_redraw hcr hcc rfl hnull hcmd (by omega)
  obtain ⟨s₁, s', hrun, hrow, hcolumn, hbase, hoffset, hcells₁, htyped⟩ :=
    run_redraw ht hs hcur hwritten hfit
  obtain ⟨-, hblank⟩ := ttyTcsetattr_eq hs ht
  rw [← hcells₁] at hblank
  have hshown := htyped.shown
  rw [hbase, hoffset] at hshown
  refine ⟨_, s', hprint, hrun, hrow, hcolumn, fun hdisplays c hc => ?_, fun hall a => ?_⟩
  · by_contra hnot
    obtain ⟨i, hi, rfl⟩ := List.mem_iff_getElem.mp hc
    have hcell := hdisplays (s.term.base + t.offset + i)
    have hindex : (s.term.base + t.offset + i - (s.term.base + t.offset)).toNat = i := by omega
    rw [if_pos (by omega), hindex, List.getD_eq_getElem _ _ hi] at hcell
    rcases htyped.written (s.term.base + t.offset + i) with hold | ⟨c', -, hshown', hnew⟩
    · rw [hold, hblank, if_pos (by omega)] at hcell
      refine hnot (.inr ?_)
      rw [← hcell]
      decide
    · rw [hnew] at hcell
      exact hnot (hcell ▸ hshown')
  · rw [hshown hall a, hblank]
    by_cases hin : s.term.base + t.offset ≤ a ∧ a < s.term.base + t.offset + cmd.length
    · rw [if_pos hin, if_pos (by omega), List.getD_eq_getElem _ _ (by omega),
        List.getD_eq_getElem _ _ (by omega)]
    · rw [if_neg hin]
      by_cases hscreen : s.term.base + t.offset ≤ a ∧ a < s.term.base + 2000
      · rw [if_pos hscreen, if_pos hscreen, List.getD_eq_default _ _ (by omega)]
        rfl
      · rw [if_neg hscreen, if_neg hscreen]

/-- A page with `ls` at the address 1, a fresh terminal, and the cursor as `KEY_UP` leaves
it. -/
def lsPage : Bytes := fun b => ([0, 0x6C, 0x73] : List (BitVec 8)).getD b 0

def freshScreen : TtyScreen := ttyInit 0 fun _ => ⟨0, 0, 0, false⟩

def afterUp : CursorCtrl := ⟨0, 0, false, false, false, false⟩

/-- `ls` is drawn. -/
theorem redraw_law_ls :
    ∃ cs s', vsprintf (fun i => if i = 2 then 1 else 0) lsPage
          [0x1B, 0x5B, 0x25, 0x64, 0x3B, 0x25, 0x64, 0x66, 0x25, 0x73, 0x1B, 0x5B, 0x30, 0x66]
        = some ⟨cs, 3, lsPage⟩
      ∧ run step ⟨freshScreen.ttyTcsetattr (ttyTcgetattr (.init 0)), .text⟩ (bytesOf afterUp cs)
        = some ⟨s', .text⟩
      ∧ Displays freshScreen 0 [0x6C, 0x73] s' := by
  have hon : (DevTerminal.init 0).OnScreen := ⟨rfl, rfl, by decide, by decide⟩
  obtain ⟨cs, s', hprint, hrun, -, -, hiff⟩ := @redraw_law (fun i => if i = 2 then 1 else 0) lsPage
    [0x6C, 0x73] (.init 0) freshScreen afterUp hon (screenInv_init 0 _).onScreen rfl rfl rfl
    (by decide) (by decide) (by decide) (by decide)
  exact ⟨cs, s', hprint, hrun, hiff.mpr (by decide)⟩

end TtyConsole

end Csos
