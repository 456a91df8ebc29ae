import Csos.Lib.Run
import Csos.Tty

/-!
# The queue of a terminal as a bounded queue

`tty_fifo_t` is an array with two indices that go around and a number of
bytes; the indices are the same when the queue is empty and when it is
full. `boundedQueue` is what it is for: the bytes in a row, at most `size`
of them. `TtyFifo.Holds` relates the two, and every call keeps it.

A call that returns -1 does not come to its `protect_exit`; the array, the
indices and the number are as before.
-/

namespace Csos

open Lib

/-- The calls on a queue. -/
inductive FifoCall where
  | put (c : UInt8)
  | get
deriving DecidableEq

/-- What a call returns, and the byte that it leaves in `*c`. -/
structure FifoResult where
  ret : Int
  byte : Option UInt8
deriving DecidableEq

/-- The queue after a call. -/
def TtyFifo.call (fifo : TtyFifo) : FifoCall → TtyFifo × FifoResult
  | .put c =>
      match ttyFifoPut fifo c with
      | some fifo' => (fifo', ⟨0, none⟩)
      | none => (fifo, ⟨-1, none⟩)
  | .get =>
      match ttyFifoGet fifo with
      | some (fifo', c) => (fifo', ⟨0, some c⟩)
      | none => (fifo, ⟨-1, none⟩)

/-- A queue of at most `size` bytes, the oldest first. -/
def boundedQueue (size : Nat) (cs : List UInt8) : FifoCall → List UInt8 × FifoResult
  | .put c => if cs.length < size then (cs ++ [c], ⟨0, none⟩) else (cs, ⟨-1, none⟩)
  | .get =>
      match cs with
      | [] => ([], ⟨-1, none⟩)
      | c :: cs => (cs, ⟨0, some c⟩)

namespace TtyFifo

/-- The indices are those of cells, and `write` is `count` cells after
`read`. -/
structure InBounds (fifo : TtyFifo) : Prop where
  read : fifo.read < fifo.size
  write : fifo.write < fifo.size
  count : fifo.count ≤ fifo.size
  around : fifo.write = (fifo.read + fifo.count) % fifo.size

variable {fifo : TtyFifo} {cs : List UInt8} {size : Nat}

theorem Holds.inBounds (h : fifo.Holds cs) : fifo.InBounds where
  read := h.ring.start
  write := by
    rw [h.write]
    exact Nat.mod_lt _ (Nat.zero_lt_of_lt h.ring.start)
  count := by
    rw [h.count]
    exact h.ring.fits
  around := by rw [h.count, h.write]

/-- One call, on the array and on the queue. -/
theorem Holds.call (h : fifo.Holds cs) (hsize : fifo.size = size) (call : FifoCall) :
    (fifo.call call).2 = (boundedQueue size cs call).2
      ∧ (fifo.call call).1.Holds (boundedQueue size cs call).1
      ∧ (fifo.call call).1.size = size := by
  subst hsize
  cases call with
  | put c =>
      by_cases hroom : cs.length < fifo.size
      · obtain ⟨fifo', hput, hholds, hsize'⟩ := h.put (c := c) hroom
        simp only [TtyFifo.call, hput, boundedQueue, if_pos hroom]
        exact ⟨trivial, hholds, hsize'⟩
      · have hfull : cs.length = fifo.size :=
          Nat.le_antisymm h.ring.fits (Nat.not_lt.mp hroom)
        simp only [TtyFifo.call, h.put_full hfull, boundedQueue, if_neg hroom]
        exact ⟨trivial, h, trivial⟩
  | get =>
      cases cs with
      | nil =>
          simp only [TtyFifo.call, h.get_empty, boundedQueue]
          exact ⟨trivial, h, trivial⟩
      | cons c cs =>
          obtain ⟨fifo', hget, hholds, hsize'⟩ := h.get
          simp only [TtyFifo.call, hget, boundedQueue]
          exact ⟨trivial, hholds, hsize'⟩

/-- From `tty_fifo_init` on, any calls return what they return on a queue of
at most `size` bytes, and the array holds this queue within its bounds. -/
theorem ttyFifo_refines (buf : Nat → UInt8) {size : Nat} (hsize : 0 < size)
    (calls : List FifoCall) :
    ∃ fifo, exec (fun fifo c => some (TtyFifo.call fifo c)) (ttyFifoInit buf size) calls
        = some (fifo, (specRun (boundedQueue size) [] calls).2)
      ∧ fifo.Holds (specRun (boundedQueue size) [] calls).1
      ∧ fifo.size = size ∧ fifo.InBounds := by
  let R : TtyFifo → List UInt8 → Prop := fun fifo cs => fifo.Holds cs ∧ fifo.size = size
  have hstep : ∀ fifo cs call, R fifo cs → True →
      ∃ fifo', some (TtyFifo.call fifo call) = some (fifo', (boundedQueue size cs call).2)
        ∧ R fifo' (boundedQueue size cs call).1 := by
    rintro fifo cs call ⟨hholds, hsize⟩ -
    obtain ⟨hresult, hholds', hsize'⟩ := hholds.call hsize call
    refine ⟨(fifo.call call).1, ?_, hholds', hsize'⟩
    rw [← hresult]
  have hinit : R (ttyFifoInit buf size) [] := ⟨holds_init hsize, rfl⟩
  have hvalid : Admitted (fun _ _ => True) (boundedQueue size) [] calls :=
    admitted_of_forall fun _ _ => trivial
  obtain ⟨fifo, hexec, hholds, hsize'⟩ := exec_refines hstep hinit hvalid
  exact ⟨fifo, hexec, hholds, hsize', hholds.inBounds⟩

/-- Two cells: the third byte has no room, and the fourth goes around. -/
theorem ttyFifo_refines_two :
    ∃ fifo, exec (fun fifo c => some (TtyFifo.call fifo c)) (ttyFifoInit (fun _ => 0) 2)
        [.put 1, .put 2, .put 3, .get, .put 4]
        = some (fifo, [⟨0, none⟩, ⟨0, none⟩, ⟨-1, none⟩, ⟨0, some 1⟩, ⟨0, none⟩])
      ∧ fifo.Holds [2, 4] ∧ fifo.size = 2 ∧ fifo.InBounds :=
  ttyFifo_refines (fun _ => 0) (by decide) [.put 1, .put 2, .put 3, .get, .put 4]

end TtyFifo

end Csos
