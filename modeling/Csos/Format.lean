import Csos.Lib.CString
import Csos.Lib.Numeral

/-!
# Formatted output (`lib/stdio.c`)

`number` and `vsprintf`. The characters that were written to the buffer so
far stand for the buffer and the pointer `str`; the format is what is left
of it in front of its NUL, and `++fmt` behind that fails. The arguments are
the words at `args`, and memory is read by `%s` and written by `%n`.

An `int` is an integer that wraps.
-/

namespace Csos

open Lib Lib.Bytes

/-- The value of an `int`. -/
def i32 (x : Int) : Int := x.bmod 0x100000000

theorem i32_of_range {x : Int} (hlo : -0x80000000 ≤ x) (hhi : x < 0x80000000) : i32 x = x :=
  Int.bmod_eq_of_le (by omega) (by omega)

/-- `is_digit`. -/
def isDigitChar (c : BitVec 8) : Bool := 0x30 ≤ c ∧ c ≤ 0x39

/-- The loop of `skip_atoi`, and where it stops. -/
def skipAtoi : List (BitVec 8) → Int → Int × List (BitVec 8)
  | [], i => (i, [])
  | c :: s, i => if isDigitChar c then skipAtoi s (i32 (i * 10 + c.toNat - 48)) else (i, c :: s)

/-! ## `number` -/

/-- `ZEROPAD`, `SIGN`, `PLUS`, `SPACE`, `LEFT`, `SPECIAL` and `SMALL`. -/
structure NumFlags where
  zeropad : Bool := false
  sign : Bool := false
  plus : Bool := false
  space : Bool := false
  left : Bool := false
  special : Bool := false
  small : Bool := false
deriving DecidableEq

/-- `digits[d]`. -/
def digitChar (small : Bool) (d : Nat) : BitVec 8 :=
  if d < 10 then BitVec.ofNat 8 (0x30 + d)
  else if small then BitVec.ofNat 8 (0x61 + (d - 10))
  else BitVec.ofNat 8 (0x41 + (d - 10))

/-- What the loop with `do_div` stores to `tmp`, the last digit first, when
there is room for so many of them. -/
def tmpDigits (base : Nat) : Nat → Nat → Option (List Nat)
  | 0, num => if num = 0 then some [] else none
  | n + 1, num =>
      if num = 0 then some [] else (tmpDigits base n (num / base)).map (num % base :: ·)

/-- `while (size-- > 0) *str++ = c`: the characters, and `size` behind it. -/
def fillLoop (c : BitVec 8) (size : Int) : List (BitVec 8) × Int :=
  (List.replicate size.toNat c, i32 (min size 0 - 1))

/-- The sign of a number, as the characters that show it. -/
def signChars (num : BitVec 32) (type : NumFlags) : List (BitVec 8) :=
  if type.sign ∧ num.toInt < 0 then [0x2D]
  else if type.plus then [0x2B]
  else if type.space then [0x20]
  else []

/-- `num`, or `-num` when a minus sign shows. -/
def magnitude (num : BitVec 32) (type : NumFlags) : BitVec 32 :=
  if type.sign ∧ num.toInt < 0 then -num else num

/-- What `SPECIAL` puts in front of the digits. -/
def baseChars (base : Nat) (type : NumFlags) : List (BitVec 8) :=
  if type.special then
    if base = 8 then [0x30]
    else if base = 16 then [0x30, digitChar type.small 33]
    else []
  else []

/-- `size` when the sign and the base have their room. -/
def sizeLeft (num : BitVec 32) (base : Nat) (size : Int) (type : NumFlags) : Int :=
  let size := if signChars num type ≠ [] then i32 (size - 1) else size
  if type.special then
    if base = 16 then i32 (size - 2) else if base = 8 then i32 (size - 1) else size
  else size

/-- `tmp[0]`, ..., `tmp[i - 1]`. -/
def tmpOf (base : Nat) (num : BitVec 32) : Option (List Nat) :=
  if num = 0 then some [0] else tmpDigits base 36 num.toNat

/-- The loops that write, from the blanks on the left to those on the right. -/
def numberLoops (type : NumFlags) (size precision : Int) (front : List (BitVec 8))
    (tmp : List Nat) : List (BitVec 8) :=
  let c : BitVec 8 := if type.zeropad then 0x30 else 0x20
  let (blanks, size) := if !(type.zeropad || type.left) then fillLoop 0x20 size else ([], size)
  let (pads, size) := if !type.left then fillLoop c size else ([], size)
  let (tail, _) := fillLoop 0x20 size
  blanks ++ front ++ pads ++ List.replicate (precision - tmp.length).toNat 0x30
    ++ tmp.reverse.map (digitChar type.small) ++ tail

/-- The characters that `number` writes, or `none` where it returns 0 or
`tmp` is too short. -/
def number (num : BitVec 32) (base : Nat) (size precision : Int) (type : NumFlags) :
    Option (List (BitVec 8)) :=
  let type := if type.left then { type with zeropad := false } else type
  if base < 2 ∨ 36 < base then none
  else
    (tmpOf base (magnitude num type)).map fun tmp =>
      let i : Int := tmp.length
      let precision := if i > precision then i else precision
      numberLoops type (i32 (sizeLeft num base size type - precision)) precision
        (signChars num type ++ baseChars base type) tmp

/-! ## `vsprintf` -/

/-- `str`, `args` and the memory. -/
structure Printing where
  str : List (BitVec 8)
  ap : Nat
  mem : Bytes

/-- `*str++ = c` for the characters of `cs`. -/
def Printing.put (s : Printing) (cs : List (BitVec 8)) : Printing := { s with str := s.str ++ cs }

/-- `++fmt`. -/
def nextChar : List (BitVec 8) → Option (List (BitVec 8))
  | [] => none
  | _ :: fmt => some fmt

/-- The `switch` of the flags. -/
def flagOf (flags : NumFlags) (c : BitVec 8) : Option NumFlags :=
  if c = 0x2D then some { flags with left := true }
  else if c = 0x2B then some { flags with plus := true }
  else if c = 0x20 then some { flags with space := true }
  else if c = 0x23 then some { flags with special := true }
  else if c = 0x30 then some { flags with zeropad := true }
  else none

/-- From `repeat` on, with `fmt` before the first `++fmt`. -/
def flagsLoop : List (BitVec 8) → NumFlags → Option (NumFlags × List (BitVec 8))
  | [], _ => none
  | _ :: fmt, flags =>
      match fmt.head?.bind (flagOf flags) with
      | some flags => flagsLoop fmt flags
      | none => some (flags, fmt)

/-- The field width, with `flags`, `args` and `fmt` behind it. Nothing
skips the `*`. -/
def fieldWidth (va : Nat → BitVec 32) (ap : Nat) (flags : NumFlags) (fmt : List (BitVec 8)) :
    Int × NumFlags × Nat × List (BitVec 8) :=
  match fmt.head? with
  | none => (-1, flags, ap, fmt)
  | some c =>
      if isDigitChar c then
        let (width, fmt) := skipAtoi fmt 0
        (width, flags, ap, fmt)
      else if c = 0x2A then
        let width := (va ap).toInt
        if width < 0 then (i32 (-width), { flags with left := true }, ap + 1, fmt)
        else (width, flags, ap + 1, fmt)
      else (-1, flags, ap, fmt)

/-- The precision, with `args` and `fmt` behind it. -/
def precisionOf (va : Nat → BitVec 32) (ap : Nat) (fmt : List (BitVec 8)) :
    Option (Int × Nat × List (BitVec 8)) :=
  if fmt.head? = some 0x2E then do
    let fmt ← nextChar fmt
    let (precision, ap, fmt) :=
      match fmt.head? with
      | none => (-1, ap, fmt)
      | some c =>
          if isDigitChar c then
            let (precision, fmt) := skipAtoi fmt 0
            (precision, ap, fmt)
          else if c = 0x2A then ((va ap).toInt, ap + 1, fmt)
          else (-1, ap, fmt)
    return (if precision < 0 then 0 else precision, ap, fmt)
  else some (-1, ap, fmt)

/-- The conversion qualifier, which nothing looks at. -/
def qualifier (fmt : List (BitVec 8)) : Option (List (BitVec 8)) :=
  if fmt.head? = some 0x68 ∨ fmt.head? = some 0x6C ∨ fmt.head? = some 0x4C then nextChar fmt
  else some fmt

/-- `while (--field_width > 0) *str++ = ' '`. -/
def beforeLoop (width : Int) : List (BitVec 8) × Int :=
  let width := i32 (width - 1)
  (List.replicate width.toNat 0x20, min width 0)

/-- `while (len < field_width--) *str++ = ' '`. -/
def aroundLoop (len width : Int) : List (BitVec 8) × Int :=
  (List.replicate (width - len).toNat 0x20, i32 (min width len - 1))

/-- The loop of `_strlen`. -/
def strlenLoop (m : Bytes) : Nat → Nat → Option Nat
  | 0, _ => none
  | n + 1, c => if m c = 0 then some 0 else (strlenLoop m n (c + 1)).map (· + 1)

/-- `_strlen`. Memory ends after so many bytes. -/
def strlen (m : Bytes) (str : Nat) : Option Nat :=
  if str = 0 then some 0 else strlenLoop m 0x100000000 str

def convertChar (va : Nat → BitVec 32) (s : Printing) (flags : NumFlags) (width : Int) : Printing :=
  let (front, width) := if !flags.left then beforeLoop width else ([], width)
  let (tail, _) := beforeLoop width
  { s.put (front ++ [(va s.ap).setWidth 8] ++ tail) with ap := s.ap + 1 }

def convertString (va : Nat → BitVec 32) (s : Printing) (flags : NumFlags) (width precision : Int) :
    Option Printing := do
  let p := (va s.ap).toNat
  let len ← strlen s.mem p
  let len := i32 len
  let len := if precision < 0 then len else if len > precision then precision else len
  let (front, width) := if !flags.left then aroundLoop len width else ([], width)
  let (tail, _) := aroundLoop len width
  return { s.put (front ++ (List.range len.toNat).map (fun i => s.mem (p + i)) ++ tail) with
    ap := s.ap + 1 }

def convertNumber (va : Nat → BitVec 32) (s : Printing) (base : Nat) (flags : NumFlags)
    (width precision : Int) : Option Printing := do
  let cs ← number (va s.ap) base width precision flags
  return { s.put cs with ap := s.ap + 1 }

/-- The `switch` of the conversions. -/
def convert (va : Nat → BitVec 32) (s : Printing) (flags : NumFlags) (width precision : Int)
    (c : BitVec 8) : Option Printing :=
  if c = 0x63 then some (convertChar va s flags width)
  else if c = 0x73 then convertString va s flags width precision
  else if c = 0x6F then convertNumber va s 8 flags width precision
  else if c = 0x70 then
    if width = -1 then convertNumber va s 16 { flags with zeropad := true } 8 precision
    else convertNumber va s 16 flags width precision
  else if c = 0x78 then convertNumber va s 16 { flags with small := true } width precision
  else if c = 0x58 then convertNumber va s 16 flags width precision
  else if c = 0x64 ∨ c = 0x69 then
    convertNumber va s 10 { flags with sign := true } width precision
  else if c = 0x75 then convertNumber va s 10 flags width precision
  else if c = 0x6E then
    some { s with mem := store32 s.mem (va s.ap).toNat s.str.length, ap := s.ap + 1 }
  else if c = 0x25 then some (s.put [0x25])
  else some (s.put [0x25, c])

/-- One `%`, and `fmt` for the next round. At the NUL `--fmt` takes back the
`++fmt` of the loop. -/
def directive (va : Nat → BitVec 32) (s : Printing) (fmt : List (BitVec 8)) :
    Option (Printing × List (BitVec 8)) := do
  let (flags, fmt) ← flagsLoop fmt {}
  let (width, flags, ap, fmt) := fieldWidth va s.ap flags fmt
  let (precision, ap, fmt) ← precisionOf va ap fmt
  let fmt ← qualifier fmt
  match fmt with
  | [] => return ({ s with ap }.put [0x25], [])
  | c :: fmt => return (← convert va { s with ap } flags width precision c, fmt)

/-- The rounds of `vsprintf`. -/
def vsprintfLoop (va : Nat → BitVec 32) : Nat → Printing → List (BitVec 8) → Option Printing
  | _, s, [] => some s
  | 0, _, _ :: _ => none
  | n + 1, s, c :: fmt =>
      if c ≠ 0x25 then vsprintfLoop va n (s.put [c]) fmt
      else do
        let (s, fmt) ← directive va s (c :: fmt)
        vsprintfLoop va n s fmt

/-- `vsprintf` without the final NUL; the value returned is the length of
`str`. -/
def vsprintf (va : Nat → BitVec 32) (m : Bytes) (fmt : List (BitVec 8)) : Option Printing :=
  vsprintfLoop va fmt.length { str := [], ap := 0, mem := m } fmt

end Csos
