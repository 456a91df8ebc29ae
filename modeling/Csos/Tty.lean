import Csos.Lib.Ring
import Csos.Lib.Semaphore

/-!
# Terminals (`kernel32/device/tty.c`)

The queues of a terminal, its data, and the control of its output:
`tty_write` takes one byte after the other from the output queue, and
`com_esc` takes the bytes of an escape sequence. `Parse` is where the two
are when they ask for the next byte; between two bytes they only compute.

`protect_enter`/`protect_exit` make the functions on queues atomic.
-/

namespace Csos

open Lib

/-! ## `tty_fifo_t` -/

structure TtyFifo where
  buf : Nat → UInt8
  size : Nat
  read : Nat
  write : Nat
  count : Nat

def ttyFifoInit (buf : Nat → UInt8) (size : Nat) : TtyFifo :=
  { buf, size, read := 0, write := 0, count := 0 }

/-- The queue, or -1 when it is full. -/
def ttyFifoPut (fifo : TtyFifo) (c : UInt8) : Option TtyFifo :=
  if fifo.count ≥ fifo.size then none
  else
    let write := fifo.write + 1
    some { fifo with
      buf := Function.update fifo.buf fifo.write c
      write := if write ≥ fifo.size then 0 else write
      count := fifo.count + 1 }

/-- The queue and the byte, or -1 when it is empty. -/
def ttyFifoGet (fifo : TtyFifo) : Option (TtyFifo × UInt8) :=
  if fifo.count ≤ 0 then none
  else
    let read := fifo.read + 1
    some ({ fifo with
      read := if read ≥ fifo.size then 0 else read
      count := fifo.count - 1 }, fifo.buf fifo.read)

namespace TtyFifo

variable {fifo fifo' : TtyFifo} {c : UInt8} {cs : List UInt8}

/-- The queue holds the bytes `cs`. -/
structure Holds (fifo : TtyFifo) (cs : List UInt8) : Prop where
  ring : Ring fifo.buf fifo.size fifo.read cs
  write : fifo.write = (fifo.read + cs.length) % fifo.size
  count : fifo.count = cs.length

theorem holds_init {buf : Nat → UInt8} {size : Nat} (h : 0 < size) :
    (ttyFifoInit buf size).Holds [] where
  ring := Ring.nil h
  write := (Nat.zero_mod size).symm
  count := rfl

theorem Holds.put (h : fifo.Holds cs) (hroom : cs.length < fifo.size) :
    ∃ fifo', ttyFifoPut fifo c = some fifo' ∧ fifo'.Holds (cs ++ [c]) ∧ fifo'.size = fifo.size := by
  have hpos : 0 < fifo.size := Nat.lt_of_le_of_lt (Nat.zero_le _) hroom
  refine ⟨_, if_neg (by rw [h.count]; omega), ⟨?_, ?_, ?_⟩, rfl⟩
  · dsimp only
    rw [h.write]
    exact h.ring.push hroom
  · dsimp only
    rw [h.write, List.length_append, List.length_singleton]
    exact ring_next hpos
  · simp [h.count]

theorem Holds.put_full (h : fifo.Holds cs) (hfull : cs.length = fifo.size) :
    ttyFifoPut fifo c = none := if_pos (by rw [h.count]; omega)

theorem Holds.get (h : fifo.Holds (c :: cs)) :
    ∃ fifo', ttyFifoGet fifo = some (fifo', c) ∧ fifo'.Holds cs ∧ fifo'.size = fifo.size := by
  obtain ⟨hc, hring⟩ := h.ring.pop
  have hlt := h.ring.start
  have hne : ¬ fifo.count ≤ 0 := by
    rw [h.count]
    exact Nat.not_succ_le_zero _
  refine ⟨{ fifo with read := next fifo.size fifo.read, count := fifo.count - 1 },
    (if_neg hne).trans (by rw [hc]; rfl), ⟨hring, ?_, ?_⟩, rfl⟩
  · change fifo.write = (next fifo.size fifo.read + cs.length) % fifo.size
    rw [h.write, next_eq hlt, Nat.mod_add_mod, List.length_cons, Nat.add_assoc, Nat.add_comm 1]
  · simp [h.count]

theorem Holds.get_empty (h : fifo.Holds []) : ttyFifoGet fifo = none :=
  if_pos (by rw [h.count]; exact Nat.le_refl 0)

end TtyFifo

/-! ## `tty_t` -/

/-- `TTY_DEV_NR`, `TTY_OBUF_SIZE` and `TTY_IBUF_SIZE`. -/
abbrev ttyDevNr : Nat := 8
abbrev ttyObufSize : Nat := 512
abbrev ttyIbufSize : Nat := 512

/-- `KEY_UP`, `KEY_DOWN`, `KEY_LEFT` and `KEY_RIGHT`. -/
abbrev keyUp : UInt8 := 0x48
abbrev keyDown : UInt8 := 0x50
abbrev keyLeft : UInt8 := 0x4B
abbrev keyRight : UInt8 := 0x4D

/-- `cursor_ctrl_t`. -/
structure CursorCtrl where
  total : UInt16
  current : UInt16
  canBackspace : Bool
  canLeft : Bool
  canRight : Bool
  canEcho : Bool
deriving DecidableEq

/-- `tty_t`, with the tasks `T` that may wait for it. -/
structure TtyT (T : Type) where
  ofifo : TtyFifo
  ififo : TtyFifo
  osem : Sem T
  isem : Sem T
  /-- `iflags & TTY_IECHO` -/
  iecho : Bool
  terminalIndex : Int32
  cursor : CursorCtrl

/-! ## The control of the output -/

/-- The local variables `args` and `idx` of `com_esc`. The source has room
for three `args` and does not check `idx`; here there is room for all. -/
structure EscArgs where
  args : Nat → UInt8
  idx : UInt8

def EscArgs.none : EscArgs := { args := fun _ => 0, idx := 0 }

/-- `args[idx++] = arg`. -/
def EscArgs.push (a : EscArgs) (arg : UInt8) : EscArgs :=
  { args := Function.update a.args a.idx.toNat arg, idx := a.idx + 1 }

/-- Who asks for the next byte. -/
inductive Parse where
  /-- `tty_write` -/
  | text
  /-- `com_esc`, for its first and for its second byte -/
  | esc
  | bracket
  /-- `com_esc`, after a `;` -/
  | semi (a : EscArgs)
  /-- `com_esc`, in the digits of an argument; `c` is the last one -/
  | digit (a : EscArgs) (c arg : UInt8)
  /-- the loop of `com_esc` goes round without asking for a byte -/
  | stuck

/-- What the terminal is told. -/
inductive TtyOut where
  | nothing
  | char (c : UInt8)
  | control (c : UInt8) (a : EscArgs)

/-- `'0' <= c <= '9'`. -/
def isDigit (c : UInt8) : Bool := 0x30 ≤ c ∧ c ≤ 0x39

/-- `'m'`, `'f'` or `'H'`. -/
def isFinal (c : UInt8) : Bool := c = 0x6D ∨ c = 0x66 ∨ c = 0x48

/-- The `while (TRUE)` of `com_esc`, up to the next `tty_fifo_get`. A byte
that is no digit, no `;` and no final one is looked at for ever. -/
def escLoop (a : EscArgs) (c : UInt8) : Parse × TtyOut :=
  if isFinal c then (.text, .control c a)
  else if c = 0x3B then (.semi a, .nothing)
  else if isDigit c then (.digit a c (c - 0x30), .nothing)
  else (.stuck, .nothing)

/-- The byte `c` came. -/
def Parse.feed (p : Parse) (c : UInt8) : Parse × TtyOut :=
  match p with
  | .text => if c = 0x1B then (.esc, .nothing) else (.text, .char c)
  | .esc => if c = 0x5B then (.bracket, .nothing) else (.text, .nothing)
  | .bracket => escLoop .none c
  | .semi a => escLoop a c
  | .digit a _ arg =>
      if isDigit c then (.digit a c (arg * 10 + (c - 0x30)), .nothing) else escLoop (a.push arg) c
  | .stuck => (.stuck, .nothing)

/-- There was no byte. `tty_write` ends; in the digits `com_esc` stores the
argument and reads its last digit again. -/
def Parse.starve (p : Parse) : Option (Parse × TtyOut) :=
  match p with
  | .text => none
  | .esc | .bracket | .semi _ => some (.text, .nothing)
  | .digit a c arg => some (escLoop (a.push arg) c)
  | .stuck => some (.stuck, .nothing)

end Csos
