import Csos.Tty

/-!
# The keyboard (`kernel32/kbd.c`)

What `handle_normal_key` does with one byte of the keyboard depends on the
state of the modifier keys alone: it puts a character into the input queue
of the terminal in front, it brings another terminal to the front, or it
does neither. The parts of `kbd.c` that only compute are here; what they do
to the terminals is in the module about the input queues.
-/

namespace Csos

/-- `key_map_t`. -/
structure KeyMap where
  normal : UInt8
  func : UInt8
deriving DecidableEq

/-- `kmt`, without the entries that are zero. -/
def kmtEntries : List (UInt8 × KeyMap) := [
  (0x29, ⟨0x60, 0x7E⟩), (0x02, ⟨0x31, 0x21⟩), (0x03, ⟨0x32, 0x40⟩), (0x04, ⟨0x33, 0x23⟩),
  (0x05, ⟨0x34, 0x24⟩), (0x06, ⟨0x35, 0x25⟩), (0x07, ⟨0x36, 0x5E⟩), (0x08, ⟨0x37, 0x26⟩),
  (0x09, ⟨0x38, 0x2A⟩), (0x0A, ⟨0x39, 0x28⟩), (0x0B, ⟨0x30, 0x29⟩), (0x0C, ⟨0x2D, 0x5F⟩),
  (0x0D, ⟨0x3D, 0x2B⟩), (0x0E, ⟨0x08, 0x08⟩), (0x0F, ⟨0x09, 0x09⟩), (0x1E, ⟨0x61, 0x41⟩),
  (0x30, ⟨0x62, 0x42⟩), (0x2E, ⟨0x63, 0x43⟩), (0x20, ⟨0x64, 0x44⟩), (0x12, ⟨0x65, 0x45⟩),
  (0x21, ⟨0x66, 0x46⟩), (0x22, ⟨0x67, 0x47⟩), (0x23, ⟨0x68, 0x48⟩), (0x17, ⟨0x69, 0x49⟩),
  (0x24, ⟨0x6A, 0x4A⟩), (0x25, ⟨0x6B, 0x4B⟩), (0x26, ⟨0x6C, 0x4C⟩), (0x32, ⟨0x6D, 0x4D⟩),
  (0x31, ⟨0x6E, 0x4E⟩), (0x18, ⟨0x6F, 0x4F⟩), (0x19, ⟨0x70, 0x50⟩), (0x10, ⟨0x71, 0x51⟩),
  (0x13, ⟨0x72, 0x52⟩), (0x1F, ⟨0x73, 0x53⟩), (0x14, ⟨0x74, 0x54⟩), (0x16, ⟨0x75, 0x55⟩),
  (0x2F, ⟨0x76, 0x56⟩), (0x11, ⟨0x77, 0x57⟩), (0x2D, ⟨0x78, 0x58⟩), (0x15, ⟨0x79, 0x59⟩),
  (0x2C, ⟨0x7A, 0x5A⟩), (0x52, ⟨0x30, 0x30⟩), (0x53, ⟨0x2E, 0x2E⟩), (0x4F, ⟨0x31, 0x31⟩),
  (0x50, ⟨0x32, 0x32⟩), (0x51, ⟨0x33, 0x33⟩), (0x4B, ⟨0x34, 0x34⟩), (0x4C, ⟨0x35, 0x35⟩),
  (0x4D, ⟨0x36, 0x36⟩), (0x47, ⟨0x37, 0x37⟩), (0x48, ⟨0x38, 0x38⟩), (0x49, ⟨0x39, 0x39⟩),
  (0x4A, ⟨0x2D, 0x2D⟩), (0x4E, ⟨0x2B, 0x2B⟩), (0x45, ⟨0x2F, 0x2F⟩), (0x46, ⟨0x2F, 0x2F⟩),
  (0x37, ⟨0x2A, 0x2A⟩), (0x33, ⟨0x2C, 0x3C⟩), (0x34, ⟨0x2E, 0x3E⟩), (0x35, ⟨0x2F, 0x3F⟩),
  (0x27, ⟨0x3B, 0x3A⟩), (0x28, ⟨0x27, 0x22⟩), (0x1A, ⟨0x5B, 0x7B⟩), (0x1B, ⟨0x5D, 0x7D⟩),
  (0x2B, ⟨0x5C, 0x7C⟩)]

/-- `kmt[key]`. The table ends at 0x53; `past` is what lies behind it. -/
def kmt (past : UInt8 → KeyMap) (key : UInt8) : KeyMap :=
  if key > 0x53 then past key else (kmtEntries.lookup key).getD ⟨0, 0⟩

/-- `key_state_t`. -/
structure KeyState where
  e0 : Bool
  lpShift : Bool
  rpShift : Bool
  capsLock : Bool
  lpCtrl : Bool
  rpCtrl : Bool
  lpAlt : Bool
  rpAlt : Bool
deriving DecidableEq

/-- `KEY_E0` and `KEY_F1`. -/
abbrev keyE0 : UInt8 := 0xE0
abbrev keyF1 : UInt8 := 0x3B

/-- `MAKE_CODE` and `KEY_CODE`. -/
def makeCode (rc : UInt8) : Bool := rc &&& 0x80 = 0
def keyCode (rc : UInt8) : UInt8 := rc &&& 0x7F

/-- The `case`s of `handle_normal_key`. -/
inductive KeyCase where
  /-- `KEY_F1` to `KEY_F8` -/
  | fx
  /-- `KEY_F9` to `KEY_F12`, and `KEY_ESC` -/
  | log
  /-- `KEY_LEFT`, `KEY_RIGHT`, `KEY_UP` and `KEY_DOWN` -/
  | arrow
  /-- `KEY_ENTER`, `KEY_SPACE`, `KEY_BACKSPACE` and `KEY_TAB` -/
  | plain (ch : UInt8)
  | caps
  | ctrl
  | alt
  | leftShift
  | rightShift
  | default

def keyCase (key : UInt8) : KeyCase :=
  if keyF1 ≤ key ∧ key ≤ 0x42 then .fx
  else if key = 0x43 ∨ key = 0x44 ∨ key = 0x57 ∨ key = 0x58 ∨ key = 0x01 then .log
  else if key = keyLeft ∨ key = keyRight ∨ key = keyUp ∨ key = keyDown then .arrow
  else if key = 0x1C then .plain 0x0A
  else if key = 0x39 then .plain 0x20
  else if key = 0x0E then .plain 0x08
  else if key = 0x0F then .plain 0x09
  else if key = 0x3A then .caps
  else if key = 0x1D then .ctrl
  else if key = 0x38 then .alt
  else if key = 0x2A then .leftShift
  else if key = 0x36 then .rightShift
  else .default

/-- The character of a key of the table. -/
def KeyState.char (past : UInt8 → KeyMap) (ks : KeyState) (key : UInt8) : UInt8 :=
  if ks.lpShift || ks.rpShift then
    if ks.capsLock then (kmt past key).normal else (kmt past key).func
  else
    if ks.capsLock then (kmt past key).func else (kmt past key).normal

/-- What `tty_put` does to `tty->cursor`. -/
def CursorCtrl.typed (cursor : CursorCtrl) (ks : KeyState) (ch : UInt8) : CursorCtrl :=
  if ch = 0x08 then
    if cursor.current > 0 then
      { cursor with
        current := cursor.current - 1
        total := cursor.total - 1
        canBackspace := true
        canEcho := true }
    else { cursor with canBackspace := false, canEcho := true }
  else if ch = keyLeft ∧ ks.e0 then
    if cursor.current > 0 then
      { cursor with current := cursor.current - 1, canLeft := true, canEcho := false }
    else { cursor with canLeft := false, canEcho := false }
  else if ch = keyRight ∧ ks.e0 then
    if cursor.current < cursor.total then
      { cursor with current := cursor.current + 1, canRight := true, canEcho := false }
    else { cursor with canRight := false, canEcho := false }
  else if ks.e0 ∧ (ch = keyUp ∨ ch = keyDown) then { cursor with canEcho := false }
  else if ch = 0x0A then
    { cursor with current := 0, total := 0, canEcho := true, canBackspace := false }
  else { cursor with current := cursor.current + 1, total := cursor.total + 1, canEcho := true }

/-- What a byte of the keyboard asks for. -/
inductive KeyEffect where
  | nothing
  | put (ch : UInt8)
  | front (index : Nat)
deriving DecidableEq

/-- What `handle_normal_key` asks for when the modifier keys are `ks`. -/
def keyEffect (past : UInt8 → KeyMap) (ks : KeyState) (rc : UInt8) : KeyEffect :=
  match keyCase (keyCode rc) with
  | .fx => .front (keyCode rc - keyF1).toNat
  | .arrow => if makeCode rc && ks.e0 then .put (keyCode rc) else .nothing
  | .plain ch => if makeCode rc then .put ch else .nothing
  | .default => if makeCode rc then .put (ks.char past (keyCode rc)) else .nothing
  | .log | .caps | .ctrl | .alt | .leftShift | .rightShift => .nothing

end Csos
