import Csos.Tty

/-!
# The screen of a terminal (`kernel32/device/tty.c`)

The handlers of `tty_write` and `com_esc`: what they write to the video
memory and how they move the cursor. Memory is counted in `tty_char_t`
from address 0, and every cell that is written is recorded.

The backspace over a line break looks for a character that is no space,
and stops at none but that. Where there is none down to address 0 it does
not come back.
-/

namespace Csos

/-- `tty_char_t`. -/
structure TtyChar where
  c : UInt8
  fg : UInt8
  bg : UInt8
  blink : Bool
deriving DecidableEq

/-- `dev_terminal_t`. -/
structure DevTerminal where
  base : Int
  rows : Int
  columns : Int
  or : Int
  oc : Int
  cr : Int
  cc : Int
  fg : UInt8
  bg : UInt8
  cfg : UInt8
  cbg : UInt8
  cb : Bool
deriving DecidableEq

/-- `SCREEN_ROWS` and `SCREEN_COLUMNS`. -/
abbrev screenRows : Int := 25
abbrev screenColumns : Int := 80

/-- `PM_VGA_BEGIN`, in cells. -/
abbrev vgaBegin : Int := 0x5C000

namespace DevTerminal

/-- The cell of the cursor, from `base`. -/
def offset (t : DevTerminal) : Int := t.cc + t.cr * t.columns

/-- One round of `tty_cursor_backword`. -/
def back (t : DevTerminal) : DevTerminal :=
  if t.cc - 1 < 0 then { t with cr := t.cr - 1, cc := t.columns - 1 }
  else { t with cc := t.cc - 1 }

def ttyCursorBackword (t : DevTerminal) (n : Nat) : DevTerminal :=
  if t.cc = 0 ∧ t.cr = 0 then t else back^[n] t

/-- One round of `tty_cursor_forward`. -/
def forward (t : DevTerminal) : DevTerminal :=
  if t.cc + 1 ≥ t.columns then { t with cr := t.cr + 1, cc := 0 }
  else { t with cc := t.cc + 1 }

def ttyCursorForward (t : DevTerminal) (n : Nat) : DevTerminal := forward^[n] t

def comCr (t : DevTerminal) : DevTerminal := { t with cc := 0 }

def comLeft (t : DevTerminal) (cursor : CursorCtrl) : DevTerminal :=
  if !cursor.canLeft then t else t.ttyCursorBackword 1

def comRight (t : DevTerminal) (cursor : CursorCtrl) : DevTerminal :=
  if !cursor.canRight then t else t.ttyCursorForward 1

/-- One argument of `m`. -/
def sgr (t : DevTerminal) (arg : UInt8) : DevTerminal :=
  if 30 ≤ arg ∧ arg ≤ 37 then { t with cfg := arg - 30 }
  else if 40 ≤ arg ∧ arg ≤ 47 then { t with cbg := arg - 40 }
  else if arg = 5 ∨ arg = 6 then { t with cb := true }
  else if arg = 25 then { t with cb := false }
  else if arg = 0 then { t with cfg := t.fg, cbg := t.bg, cb := false }
  else t

/-- The end of `com_esc`: what the final byte `c` does with the arguments. -/
def comEsc (t : DevTerminal) (c : UInt8) (a : EscArgs) : DevTerminal :=
  if c = 0x6D then (List.range a.idx.toNat).foldl (fun t i => t.sgr (a.args i)) t
  else if c = 0x66 ∨ c = 0x48 then
    if a.idx = 2 then
      { t with or := t.cr, oc := t.cc, cr := (a.args 0).toNat, cc := (a.args 1).toNat }
    else if a.idx = 1 ∧ a.args 0 = 0 then { t with cr := t.or, cc := t.oc }
    else t
  else t

/-- What `tty_init` sets. -/
def init (index : Nat) : DevTerminal where
  base := vgaBegin + index * (screenRows * screenColumns)
  rows := screenRows
  columns := screenColumns
  or := 0
  oc := 0
  cr := 0
  cc := 0
  fg := 0xF
  bg := 0
  cfg := 0xF
  cbg := 0
  cb := false

end DevTerminal

/-- A terminal, the memory, and the cells that were written so far. -/
structure TtyScreen where
  term : DevTerminal
  cells : Int → TtyChar
  written : List Int

namespace TtyScreen

/-- A cell is written. -/
def put (s : TtyScreen) (a : Int) (ch : TtyChar) : TtyScreen :=
  { s with cells := Function.update s.cells a ch, written := s.written ++ [a] }

/-- `kernel_memcpy` of `n` cells. -/
def copyCells (s : TtyScreen) (dst src : Int) : Nat → TtyScreen
  | 0 => s
  | n + 1 => (s.put dst (s.cells src)).copyCells (dst + 1) (src + 1) n

/-- `(ptr + i)->c = ' '` for `n` cells. -/
def blankCells (s : TtyScreen) (ptr : Int) : Nat → TtyScreen
  | 0 => s
  | n + 1 => (s.put ptr { s.cells ptr with c := 0x20 }).blankCells (ptr + 1) n

/-- The loop of `tty_clear`. -/
def clearCells (s : TtyScreen) (ptr : Int) : Nat → TtyScreen
  | 0 => s
  | n + 1 =>
      (s.put ptr { s.cells ptr with c := 0x20, bg := s.term.bg, fg := s.term.fg }).clearCells
        (ptr + 1) n

def ttyClear (s : TtyScreen) : TtyScreen :=
  s.clearCells s.term.base (s.term.columns * s.term.rows).toNat

/-- `tty_init`. -/
def ttyInit (index : Nat) (cells : Int → TtyChar) : TtyScreen :=
  ttyClear { term := .init index, cells, written := [] }

def scrollUp (s : TtyScreen) (lines : Int) : TtyScreen :=
  let total := s.term.columns * s.term.rows
  let size := s.term.columns * lines
  (s.copyCells s.term.base (s.term.base + size) (total - size).toNat).blankCells
    (s.term.base + (total - size)) size.toNat

def comLf (s : TtyScreen) : TtyScreen :=
  if s.term.cr + 1 < s.term.rows then { s with term := { s.term with cr := s.term.cr + 1 } }
  else s.scrollUp 1

/-- The loop that makes room at `tc`, from the end of the text on. -/
def shiftRight (s : TtyScreen) (tc : Int) : Nat → TtyScreen
  | 0 => s
  | n + 1 => (s.put (tc + n + 1) (s.cells (tc + n))).shiftRight tc n

/-- The loop that closes the gap at `ptc`. -/
def shiftLeft (s : TtyScreen) (ptc : Int) : Nat → TtyScreen
  | 0 => s
  | n + 1 =>
      (s.put ptc { s.cells ptc with c := (s.cells (ptc + 1)).c }).shiftLeft (ptc + 1) n

def ttyWriteChar (s : TtyScreen) (cursor : CursorCtrl) (c : UInt8) : TtyScreen :=
  if c = keyLeft ∧ !cursor.canEcho then { s with term := s.term.comLeft cursor }
  else if c = keyRight ∧ !cursor.canEcho then { s with term := s.term.comRight cursor }
  else if (c = keyUp ∨ c = keyDown) ∧ !cursor.canEcho then s
  else
    let offset := s.term.offset
    let s := if offset ≥ s.term.columns * s.term.rows then s.scrollUp 1 else s
    let tc := s.term.base + offset
    let s :=
      if cursor.current = cursor.total then
        s.put tc { c, fg := s.term.cfg, bg := s.term.cbg, blink := s.term.cb }
      else s.shiftRight tc (cursor.total.toNat - cursor.current.toNat)
    { s with term := s.term.ttyCursorForward 1 }

/-- The number of spaces from `tc` down, among `n` cells. -/
def spaces (cells : Int → TtyChar) (tc : Int) : Nat → Option Nat
  | 0 => none
  | n + 1 =>
      if (cells tc).c = 0x20 then (spaces cells (tc - 1) n).map fun size => size + 1 else some 0

def comBs (s : TtyScreen) (cursor : CursorCtrl) : Option TtyScreen :=
  if !cursor.canBackspace then some s
  else do
    let tc := s.term.base + s.term.offset - 1
    let backcount := cursor.total.toNat - cursor.current.toNat + 1
    let s := s.shiftLeft tc backcount
    let size ← if s.term.cc = 0 then spaces s.cells tc (tc + 1).toNat else some 1
    return { s with term := s.term.ttyCursorBackword size }

def comHt (s : TtyScreen) : TtyScreen :=
  let size := 8 - s.term.cc.tmod 8
  let tc := s.term.base + s.term.offset
  let size :=
    if s.term.cc + size ≥ s.term.columns then s.term.columns - s.term.cc - 1 else size
  let s := s.blankCells tc size.toNat
  { s with term := s.term.ttyCursorForward size.toNat }

/-- The `switch` of `tty_write`, but for the escape sequences. -/
def ttyWrite (s : TtyScreen) (cursor : CursorCtrl) (c : UInt8) : Option TtyScreen :=
  if c = 0x08 then s.comBs cursor
  else if c = 0x09 then some s.comHt
  else if c = 0x00 then some s
  else if c = 0x0D then some { s with term := s.term.comCr }
  else if c = 0x0A then
    let s := s.comLf
    some { s with term := s.term.comCr }
  else some (s.ttyWriteChar cursor c)

/-- What the terminal does with what it is told. -/
def told (s : TtyScreen) (cursor : CursorCtrl) : TtyOut → Option TtyScreen
  | .nothing => some s
  | .char c => s.ttyWrite cursor c
  | .control c a => some { s with term := s.term.comEsc c a }

end TtyScreen

/-- The terminal between two bytes of its output. -/
structure TtyConsole where
  screen : TtyScreen
  parse : Parse

/-- One byte of the output, and what the keyboard has left in `cursor`. -/
structure TtyByte where
  c : UInt8
  cursor : CursorCtrl

namespace TtyConsole

/-- `tty_write` and `com_esc`, for one byte. -/
def step (s : TtyConsole) (b : TtyByte) : Option TtyConsole :=
  let (parse, out) := s.parse.feed b.c
  (s.screen.told b.cursor out).map fun screen => { screen, parse }

/-- After `tty_init`. -/
def start (index : Nat) (cells : Int → TtyChar) : TtyConsole :=
  { screen := .ttyInit index cells, parse := .text }

end TtyConsole

end Csos
