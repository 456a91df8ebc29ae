import Csos.Lib.Counter
import Mathlib.Data.List.Basic

/-!
# A semaphore by itself

A counter in the `int` range and the tasks that wait, first come first
served. A `wait` takes a token or joins the queue; a `notify` lets the
first waiter go or adds a token. The counter is not checked: it wraps.
-/

namespace Csos

namespace Lib

structure Sem (T : Type) where
  counter : Int32
  waiting : List T
deriving DecidableEq

namespace Sem

variable {T : Type} {s : Sem T} {t : T} {ts : List T}

/-- `t` waits. The answer says whether it goes on at once. -/
def wait (s : Sem T) (t : T) : Sem T × Bool :=
  if s.counter > 0 then ({ s with counter := s.counter - 1 }, true)
  else ({ s with waiting := s.waiting ++ [t] }, false)

/-- The answer is the task that goes on. -/
def notify (s : Sem T) : Sem T × Option T :=
  match s.waiting with
  | [] => ({ s with counter := s.counter + 1 }, none)
  | t :: ts => ({ s with waiting := ts }, some t)

theorem counter_pos_iff : s.counter > 0 ↔ 0 < s.counter.toInt := Int32.lt_iff_toInt_lt

theorem wait_of_pos (h : 0 < s.counter.toInt) :
    s.wait t = ({ s with counter := s.counter - 1 }, true) := if_pos (counter_pos_iff.mpr h)

theorem wait_of_not_pos (h : ¬ 0 < s.counter.toInt) :
    s.wait t = ({ s with waiting := s.waiting ++ [t] }, false) :=
  if_neg fun hp => h (counter_pos_iff.mp hp)

theorem notify_nil (h : s.waiting = []) :
    s.notify = ({ s with counter := s.counter + 1 }, none) := by
  unfold notify
  rw [h]

theorem notify_cons (h : s.waiting = t :: ts) : s.notify = ({ s with waiting := ts }, some t) := by
  unfold notify
  rw [h]

/-- Tasks wait only while there is no token. -/
structure Ok (s : Sem T) : Prop where
  nonneg : 0 ≤ s.counter.toInt
  waiters : s.waiting ≠ [] → s.counter.toInt = 0

theorem Ok.wait (h : s.Ok) : (s.wait t).1.Ok := by
  by_cases hp : 0 < s.counter.toInt
  · rw [wait_of_pos hp]
    have hs := toInt_sub_one hp
    refine ⟨?_, fun hw => ?_⟩
    · rw [hs]
      omega
    · exact absurd (h.waiters hw) (by omega)
  · rw [wait_of_not_pos hp]
    have hn := h.nonneg
    refine ⟨hn, fun _ => ?_⟩
    change s.counter.toInt = 0
    omega

theorem Ok.notify (h : s.Ok) (hlt : s.counter.toInt < 2147483647) : s.notify.1.Ok := by
  have hn := h.nonneg
  cases hw : s.waiting with
  | nil =>
      rw [notify_nil hw]
      refine ⟨?_, fun hne => absurd hw hne⟩
      rw [toInt_add_one hlt]
      omega
  | cons t ts =>
      rw [notify_cons hw]
      exact ⟨hn, fun _ => h.waiters (by rw [hw]; exact List.cons_ne_nil t ts)⟩

end Sem

end Lib

end Csos
