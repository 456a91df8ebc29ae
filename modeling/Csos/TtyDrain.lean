import Csos.Lib.Loop
import Csos.Lib.Run
import Csos.TerminalLaw

/-!
# Draining a terminal (`tty_write` and `com_esc`)

The loops of `tty_write` and `com_esc`, round by round, with the array of
`com_esc` that has three elements. Nobody puts a byte meanwhile. A round
takes a byte or none: `com_esc` also goes round with the byte that it has,
and what it does then decides whether it ever ends.

`EscScan` is the language of the outputs that are drained. An escape
sequence has at most three numbers, only `;` between them, and a final
byte; or the queue ends in it, and not directly behind a digit.
-/

namespace Csos

open Lib

/-! ## The code -/

/-- Where `tty_write` or `com_esc` is. -/
inductive DrainPc where
  /-- in `tty_write`, before `tty_fifo_get` -/
  | text
  /-- in `com_esc`, before its first and its second byte -/
  | first
  | second
  /-- after a `;`, before the next byte -/
  | next (a : EscArgs)
  /-- at the beginning of `while (TRUE)` -/
  | loop (a : EscArgs) (c : UInt8)
  /-- at the beginning of the loop over digits -/
  | number (a : EscArgs) (c arg : UInt8)
  /-- in a scan of `com_bs` that does not come back -/
  | lost

/-- The queue, its semaphore, the screen, and the bytes that were taken. -/
structure Drain (T : Type) where
  fifo : TtyFifo
  osem : Sem T
  screen : TtyScreen
  taken : List UInt8
  pc : DrainPc

inductive DrainEnd (T : Type) where
  /-- `tty_write` returns -/
  | done (s : Drain T)
  /-- `com_esc` stores to `args[3]` -/
  | overflow

namespace Drain

variable {T : Type}

/-- `tty_fifo_get`, and `sem_notify` behind it. -/
def get (s : Drain T) : Option (Drain T × UInt8) :=
  (ttyFifoGet s.fifo).map fun r =>
    ({ s with fifo := r.1, osem := s.osem.notify.1, taken := s.taken ++ [r.2] }, r.2)

/-- `args[idx++] = arg`. -/
def store (s : Drain T) (a : EscArgs) (c arg : UInt8) : Round (Drain T) (DrainEnd T) :=
  if a.idx.toNat ≥ 3 then .leave .overflow else .again { s with pc := .loop (a.push arg) c }

/-- A round. -/
def round (cursor : CursorCtrl) (s : Drain T) : Round (Drain T) (DrainEnd T) :=
  match s.pc with
  | .text =>
      match s.get with
      | none => .leave (.done s)
      | some (s, c) =>
          if c = 0x1B then .again { s with pc := .first }
          else
            match s.screen.ttyWrite cursor c with
            | some screen => .again { s with screen, pc := .text }
            | none => .again { s with pc := .lost }
  | .first =>
      match s.get with
      | none => .again { s with pc := .text }
      | some (s, c) => .again { s with pc := if c = 0x5B then .second else .text }
  | .second =>
      match s.get with
      | none => .again { s with pc := .text }
      | some (s, c) => .again { s with pc := .loop .none c }
  | .next a =>
      match s.get with
      | none => .again { s with pc := .text }
      | some (s, c) => .again { s with pc := .loop a c }
  | .loop a c =>
      if isFinal c then
        .again { s with
          screen := { s.screen with term := s.screen.term.comEsc c a }
          pc := .text }
      else if c = 0x3B then .again { s with pc := .next a }
      else .again { s with pc := .number a c 0 }
  | .number a c arg =>
      if isDigit c then
        let arg := arg * 10 + (c - 0x30)
        match s.get with
        | none => s.store a c arg
        | some (s, c) => .again { s with pc := .number a c arg }
      else s.store a c arg
  | .lost => .again s

end Drain

/-! ## The language -/

/-- How far an output has been read. -/
inductive EscScan where
  | text
  | esc
  /-- in a sequence, after so many numbers -/
  | args (k : Nat)
  /-- in the digits of the `k`-th number -/
  | digits (k : Nat)
deriving DecidableEq

namespace EscScan

def next : EscScan → UInt8 → Option EscScan
  | text, c => some (if c = 0x1B then esc else text)
  | esc, c => some (if c = 0x5B then args 0 else text)
  | args k, c =>
      if isFinal c then some text
      else if c = 0x3B then some (args k)
      else if isDigit c ∧ k < 3 then some (digits (k + 1))
      else none
  | digits k, c =>
      if isDigit c then some (digits k)
      else if isFinal c then some text
      else if c = 0x3B then some (args k)
      else none

/-- An output may end here. -/
def rests : EscScan → Bool
  | digits _ => false
  | _ => true

/-- The output `cs` is in the language. -/
def tame : EscScan → List UInt8 → Bool
  | st, [] => st.rests
  | st, c :: cs =>
      match st.next c with
      | some st => st.tame cs
      | none => false

end EscScan

/-! ## The backspace -/

/-- The scan of `com_bs` over a line break comes to a character that is no space. -/
def BackStops (s : TtyScreen) (cursor : CursorCtrl) : Prop :=
  cursor.canBackspace = true → s.term.cc = 0 →
    let tc := s.term.base + s.term.offset - 1
    let t := s.shiftLeft tc (cursor.total.toNat - cursor.current.toNat + 1)
    ∃ a, 0 ≤ a ∧ a ≤ tc ∧ (t.cells a).c ≠ 0x20

/-- If the byte is a backspace outside of an escape sequence, its scan ends. -/
def BackOk (s : TtyConsole) (b : TtyByte) : Prop :=
  s.parse = .text → b.c = 0x08 → BackStops s.screen b.cursor

theorem spaces_isSome (cells : Int → TtyChar) (tc : Int) :
    (∃ size : Nat, TtyScreen.spaces cells tc (tc + 1).toNat = some size)
      ↔ ∃ a, 0 ≤ a ∧ a ≤ tc ∧ (cells a).c ≠ 0x20 := by
  generalize hn : (tc + 1).toNat = n
  induction n generalizing tc with
  | zero =>
      refine iff_of_false nofun ?_
      rintro ⟨a, ha, ha', -⟩
      omega
  | succ n ih =>
      rw [TtyScreen.spaces]
      split
      case isTrue hc =>
        have hrest := ih (tc - 1) (by omega)
        constructor
        · rintro ⟨size, hs⟩
          obtain ⟨size', hs', -⟩ := Option.map_eq_some_iff.mp hs
          obtain ⟨a, ha, ha', hne⟩ := hrest.mp ⟨size', hs'⟩
          exact ⟨a, ha, by omega, hne⟩
        · rintro ⟨a, ha, ha', hne⟩
          have hat : a ≠ tc := fun he => hne (he ▸ hc)
          obtain ⟨size, hs⟩ := hrest.mpr ⟨a, ha, by omega, hne⟩
          exact ⟨size + 1, by rw [hs]; rfl⟩
      case isFalse hc => exact iff_of_true ⟨0, rfl⟩ ⟨tc, by omega, Int.le_refl tc, hc⟩

theorem comBs_isSome (s : TtyScreen) (cursor : CursorCtrl) :
    (∃ s', s.comBs cursor = some s') ↔ BackStops s cursor := by
  cases hcan : cursor.canBackspace with
  | false =>
      refine iff_of_true ⟨s, by rw [TtyScreen.comBs, hcan]; rfl⟩ fun h => ?_
      rw [hcan] at h
      cases h
  | true =>
      rw [TtyScreen.comBs_eq hcan]
      by_cases hcc : s.term.cc = 0
      · rw [if_pos hcc, ← Option.isSome_iff_exists, Option.isSome_map, Option.isSome_iff_exists,
          spaces_isSome]
        exact ⟨fun h _ _ => h, fun h => h hcan hcc⟩
      · rw [if_neg hcc]
        exact iff_of_true ⟨_, rfl⟩ fun _ h => absurd h hcc

/-! ## Where it is between two bytes -/

/-- The loop is where the byte by byte control `p` and the language `st` are. -/
inductive Waits : DrainPc → Parse → EscScan → Prop
  | text : Waits .text .text .text
  | first : Waits .first .esc .esc
  | second : Waits .second .bracket (.args 0)
  | next (a : EscArgs) (h : a.idx.toNat ≤ 3) : Waits (.next a) (.semi a) (.args a.idx.toNat)
  | number (a : EscArgs) (c arg : UInt8) (hc : isDigit c = true) (h : a.idx.toNat < 3) :
      Waits (.number a c arg) (.digit a c (arg * 10 + (c - 0x30))) (.digits (a.idx.toNat + 1))

/-- The loop ends with an empty queue, and has taken `cs`. -/
def Finishes {T : Type} (cursor : CursorCtrl) (s : Drain T) (cs : List UInt8) : Prop :=
  ∃ s', Lib.Ends (Drain.round cursor) s (.done s') ∧ s'.fifo.Holds [] ∧ s'.taken = s.taken ++ cs

section Rounds

variable {T : Type} {cursor : CursorCtrl} {s s₁ : Drain T} {cs : List UInt8} {c arg : UInt8}
  {a : EscArgs} {e : Drain T}

theorem Drain.get_nil (h : s.fifo.Holds []) : s.get = none := by
  rw [Drain.get, h.get_empty]
  rfl

theorem Drain.get_cons (h : s.fifo.Holds (c :: cs)) : ∃ s₁, s.get = some (s₁, c)
    ∧ s₁.fifo.Holds cs ∧ s₁.screen = s.screen ∧ s₁.taken = s.taken ++ [c] := by
  obtain ⟨fifo, hget, hholds, -⟩ := h.get
  exact ⟨{ s with fifo, osem := s.osem.notify.1, taken := s.taken ++ [c] },
    by rw [Drain.get, hget, Option.map_some], hholds, rfl, rfl⟩

theorem isFinal_not_digit (hc : isDigit c) : ¬ isFinal c ∧ c ≠ 0x3B := by
  constructor
  · intro hf
    simp only [isFinal, decide_eq_true_eq] at hf
    rcases hf with rfl | rfl | rfl <;> exact absurd hc (by decide)
  · rintro rfl
    exact absurd hc (by decide)

theorem EscArgs.push_idx (h : a.idx.toNat < 3) : (a.push arg).idx.toNat = a.idx.toNat + 1 := by
  rw [EscArgs.push, UInt8.toNat_add]
  have hone : (1 : UInt8).toNat = 1 := rfl
  omega

/-- A fourth number is stored past the array. -/
theorem not_done_of_full (hpc : s.pc = .number a c arg) (hfull : 3 ≤ a.idx.toNat)
    (h : s.fifo.Holds cs) : ¬ Lib.Ends (Drain.round cursor) s (.done e) := by
  have hstore : ∀ (s : Drain T) c arg, s.store a c arg = .leave .overflow :=
    fun _ _ _ => if_pos hfull
  induction cs generalizing s c arg with
  | nil =>
      have hround : s.round cursor = .leave .overflow := by
        simp only [Drain.round, hpc, Drain.get_nil h, hstore, ite_self]
      rw [ends_leave_iff hround]
      exact nofun
  | cons d cs ih =>
      obtain ⟨s₁, hget, hholds, -, -⟩ := Drain.get_cons h
      by_cases hc : isDigit c
      · have hround : s.round cursor
            = .again { s₁ with pc := .number a d (arg * 10 + (c - 0x30)) } := by
          simp only [Drain.round, hpc, hget, if_pos hc]
        rw [ends_again_iff hround]
        exact ih rfl hholds
      · have hround : s.round cursor = .leave .overflow := by
          simp only [Drain.round, hpc, if_neg hc, hstore]
        rw [ends_leave_iff hround]
        exact nofun

/-- A byte that is no digit, no `;` and no final one is never left behind. -/
theorem not_done_of_other (hpc : s.pc = .loop a c) (hf : ¬ isFinal c) (hs : c ≠ 0x3B)
    (hc : ¬ isDigit c) : ¬ Lib.Ends (Drain.round cursor) s (.done e) := by
  generalize hn : 3 - a.idx.toNat = n
  induction n generalizing s a with
  | zero =>
      have hround : s.round cursor = .again { s with pc := .number a c 0 } := by
        simp only [Drain.round, hpc, if_neg hf, if_neg hs]
      have hnext : Drain.round cursor { s with pc := .number a c 0 } = .leave .overflow := by
        simp only [Drain.round, if_neg hc, Drain.store, if_pos (by omega : a.idx.toNat ≥ 3)]
      rw [ends_again_iff hround, ends_leave_iff hnext]
      exact nofun
  | succ n ih =>
      have hround : s.round cursor = .again { s with pc := .number a c 0 } := by
        simp only [Drain.round, hpc, if_neg hf, if_neg hs]
      have hnext : Drain.round cursor { s with pc := .number a c 0 }
          = .again { s with pc := .loop (a.push 0) c } := by
        simp only [Drain.round, if_neg hc, Drain.store,
          if_neg (by omega : ¬ a.idx.toNat ≥ 3)]
      rw [ends_again_iff hround, ends_again_iff hnext]
      exact ih rfl (by rw [EscArgs.push_idx (by omega)]; omega)

/-- A queue that ends behind a digit leaves the digit to be read again. -/
theorem not_done_of_starved (hpc : s.pc = .number a c arg) (hc : isDigit c) (h : s.fifo.Holds []) :
    ¬ Lib.Ends (Drain.round cursor) s (.done e) := by
  have hf := isFinal_not_digit hc
  generalize hn : 3 - a.idx.toNat = n
  induction n generalizing s a arg with
  | zero => exact not_done_of_full hpc (by omega) h
  | succ n ih =>
      have hround : s.round cursor
          = .again { s with pc := .loop (a.push (arg * 10 + (c - 0x30))) c } := by
        simp only [Drain.round, hpc, if_pos hc, Drain.get_nil h, Drain.store,
          if_neg (by omega : ¬ a.idx.toNat ≥ 3)]
      have hnext : Drain.round cursor { s with pc := .loop (a.push (arg * 10 + (c - 0x30))) c }
          = .again { s with pc := .number (a.push (arg * 10 + (c - 0x30))) c 0 } := by
        simp only [Drain.round, if_neg hf.1, if_neg hf.2]
      rw [ends_again_iff hround, ends_again_iff hnext]
      exact ih rfl h (by rw [EscArgs.push_idx (by omega)]; omega)

/-- All backspaces of the output stop. -/
def Calm (cursor : CursorCtrl) (s : TtyConsole) (cs : List UInt8) : Prop :=
  Always TtyConsole.step BackOk s (cs.map fun c => ⟨c, cursor⟩)

theorem calm_cons {p : Parse} {screen : TtyScreen} : Calm cursor ⟨screen, p⟩ (c :: cs)
    ↔ BackOk ⟨screen, p⟩ ⟨c, cursor⟩ ∧ ∀ t, screen.told cursor (p.feed c).2 = some t →
      Calm cursor ⟨t, (p.feed c).1⟩ cs := by
  refine and_congr_right fun _ => ⟨fun h t ht => h _ (Option.map_eq_some_iff.mpr ⟨t, ht, rfl⟩), ?_⟩
  rintro h s' hs'
  obtain ⟨t, ht, rfl⟩ := Option.map_eq_some_iff.mp hs'
  exact h t ht

/-- `tty_write` has no answer only for a backspace whose scan goes on. -/
theorem ttyWrite_isSome (screen : TtyScreen) :
    (∃ t, screen.ttyWrite cursor c = some t) ↔ BackOk ⟨screen, .text⟩ ⟨c, cursor⟩ := by
  by_cases hc : c = 0x08
  · rw [TtyScreen.ttyWrite, if_pos hc, comBs_isSome]
    exact ⟨fun h _ _ => h, fun h => h rfl hc⟩
  · refine iff_of_true ?_ fun _ h => absurd h hc
    rw [TtyScreen.ttyWrite, if_neg hc]
    split_ifs <;> exact ⟨_, rfl⟩

theorem finishes_again {l : List UInt8} (h : s.round cursor = .again s₁)
    (ht : s₁.taken = s.taken ++ l) : Finishes cursor s (l ++ cs) ↔ Finishes cursor s₁ cs := by
  refine exists_congr fun e => ?_
  rw [ends_again_iff h, ht, List.append_assoc]

theorem not_finishes (h : ∀ e, ¬ Lib.Ends (Drain.round cursor) s (.done e)) :
    ¬ Finishes cursor s cs := fun ⟨e, he, _⟩ => h e he

/-- The rest of the output decides, wherever the loop waits for it. -/
def DrainDecides (cursor : CursorCtrl) (T : Type) (cs : List UInt8) : Prop :=
  ∀ (s : Drain T) p st, s.fifo.Holds cs → Waits s.pc p st →
    (Finishes cursor s cs ↔ st.tame cs = true ∧ Calm cursor ⟨s.screen, p⟩ cs)

/-- The beginning of `while (TRUE)`, with the byte `c`. -/
theorem finishes_loop (hrest : DrainDecides cursor T cs) (h : s.fifo.Holds cs)
    (hpc : s.pc = .loop a c) (ha : a.idx.toNat ≤ 3) : Finishes cursor s cs
      ↔ (EscScan.args a.idx.toNat).tame (c :: cs) = true
        ∧ ∀ screen, s.screen.told cursor (escLoop a c).2 = some screen →
          Calm cursor ⟨screen, (escLoop a c).1⟩ cs := by
  by_cases hf : isFinal c
  · have hround : s.round cursor = .again { s with
        screen := { s.screen with term := s.screen.term.comEsc c a }, pc := .text } := by
      simp only [Drain.round, hpc, if_pos hf]
    have hiff := hrest { s with
      screen := { s.screen with term := s.screen.term.comEsc c a }, pc := .text } _ _ h .text
    rw [← finishes_again hround (List.append_nil _).symm, List.nil_append] at hiff
    rw [hiff]
    simp [EscScan.tame, EscScan.next, escLoop, hf, TtyScreen.told]
  by_cases hs : c = 0x3B
  · have hround : s.round cursor = .again { s with pc := .next a } := by
      simp only [Drain.round, hpc, if_neg hf, if_pos hs]
    have hiff := hrest { s with pc := .next a } _ _ h (.next a ha)
    rw [← finishes_again hround (List.append_nil _).symm, List.nil_append] at hiff
    rw [hiff]
    subst hs
    have hf : isFinal 0x3B = false := by decide
    simp [EscScan.tame, EscScan.next, escLoop, hf, TtyScreen.told]
  by_cases hc : isDigit c
  · have hround : s.round cursor = .again { s with pc := .number a c 0 } := by
      simp only [Drain.round, hpc, if_neg hf, if_neg hs]
    rw [← List.nil_append cs, finishes_again hround (List.append_nil _).symm, List.nil_append]
    by_cases hlt : a.idx.toNat < 3
    · have hiff := hrest { s with pc := .number a c 0 } _ _ h (.number a c 0 hc hlt)
      rw [hiff]
      simp [EscScan.tame, EscScan.next, escLoop, hf, hs, hc, hlt, TtyScreen.told]
    · refine iff_of_false (not_finishes fun e => not_done_of_full rfl (by omega) h) ?_
      simp [EscScan.tame, EscScan.next, hf, hs, hlt]
  · refine iff_of_false (not_finishes fun e => not_done_of_other hpc hf hs hc) ?_
    simp [EscScan.tame, EscScan.next, hf, hs, hc]

theorem decides_nil : DrainDecides cursor T [] := by
  intro s p st h hw
  have hdone : s.pc = .text → Finishes cursor s [] := fun hpc =>
    ⟨s, .of_leave (by simp only [Drain.round, hpc, Drain.get_nil h]), h, (List.append_nil _).symm⟩
  have hback : s.round cursor = .again { s with pc := .text } → Finishes cursor s [] := by
    intro hround
    rw [← List.append_nil [], finishes_again hround (List.append_nil _).symm]
    have hget : Drain.get { s with pc := .text } = none := Drain.get_nil h
    exact ⟨{ s with pc := .text }, .of_leave (by simp only [Drain.round, hget]), h,
      (List.append_nil _).symm⟩
  generalize hpc : s.pc = pc at hw
  cases hw with
  | text => exact iff_of_true (hdone hpc) ⟨rfl, trivial⟩
  | first =>
      exact iff_of_true (hback (by simp only [Drain.round, hpc, Drain.get_nil h])) ⟨rfl, trivial⟩
  | second =>
      exact iff_of_true (hback (by simp only [Drain.round, hpc, Drain.get_nil h])) ⟨rfl, trivial⟩
  | next a ha =>
      exact iff_of_true (hback (by simp only [Drain.round, hpc, Drain.get_nil h])) ⟨rfl, trivial⟩
  | number a c arg hc hlt =>
      refine iff_of_false (not_finishes fun e => not_done_of_starved hpc hc h) fun hcon => ?_
      exact absurd hcon.1 (by simp [EscScan.tame, EscScan.rests])

theorem decides_cons (hrest : DrainDecides cursor T cs) : DrainDecides cursor T (c :: cs) := by
  intro s p st h hw
  obtain ⟨s₁, hget, hholds, hscreen, htaken⟩ := Drain.get_cons h
  -- the byte is taken, and `com_esc` goes round with it
  have hloop : ∀ a : EscArgs, a.idx.toNat ≤ 3 →
      s.round cursor = .again { s₁ with pc := .loop a c } →
      (Finishes cursor s (c :: cs) ↔ (EscScan.args a.idx.toNat).tame (c :: cs) = true
        ∧ ∀ screen, s.screen.told cursor (escLoop a c).2 = some screen →
          Calm cursor ⟨screen, (escLoop a c).1⟩ cs) := by
    intro a ha hround
    have hiff := finishes_loop hrest (s := { s₁ with pc := .loop a c }) hholds rfl ha
    rw [← finishes_again hround htaken, List.singleton_append, hscreen] at hiff
    exact hiff
  -- the byte is taken, and the next one is asked for
  have hnext : ∀ (t : Drain T) p' st', s.round cursor = .again t → t.fifo.Holds cs →
      t.taken = s.taken ++ [c] → Waits t.pc p' st' →
      (Finishes cursor s (c :: cs) ↔ st'.tame cs = true ∧ Calm cursor ⟨t.screen, p'⟩ cs) := by
    intro t p' st' hround hfifo ht hw'
    have hiff := hrest t p' st' hfifo hw'
    rwa [← finishes_again hround ht, List.singleton_append] at hiff
  have hback : ∀ {p : Parse}, p ≠ .text → BackOk ⟨s.screen, p⟩ ⟨c, cursor⟩ :=
    fun hp h => absurd h hp
  rw [calm_cons]
  generalize hpc : s.pc = pc at hw
  cases hw with
  | text =>
      by_cases hesc : c = 0x1B
      · have hround : s.round cursor = .again { s₁ with pc := .first } := by
          simp only [Drain.round, hpc, hget, if_pos hesc]
        rw [hnext _ _ _ hround hholds htaken .first, hscreen]
        subst hesc
        simp [EscScan.tame, EscScan.next, Parse.feed, TtyScreen.told, BackOk]
      · have hok := @ttyWrite_isSome cursor c s.screen
        cases hwrite : s.screen.ttyWrite cursor c with
        | some screen =>
            have hround : s.round cursor = .again { s₁ with screen, pc := .text } := by
              simp only [Drain.round, hpc, hget, if_neg hesc, hscreen, hwrite]
            rw [hnext _ _ _ hround hholds htaken .text]
            have hb := hok.mp ⟨screen, hwrite⟩
            simp [EscScan.tame, EscScan.next, Parse.feed, TtyScreen.told, hesc, hwrite, hb]
        | none =>
            have hround : s.round cursor = .again { s₁ with pc := .lost } := by
              simp only [Drain.round, hpc, hget, if_neg hesc, hscreen, hwrite]
            refine iff_of_false (not_finishes fun e => ?_) ?_
            · rw [ends_again_iff hround]
              exact not_ends_of_again_self rfl
            · rintro ⟨-, hb, -⟩
              obtain ⟨t, ht⟩ := hok.mpr hb
              exact absurd (ht.symm.trans hwrite) nofun
  | first =>
      have hround : s.round cursor
          = .again { s₁ with pc := if c = 0x5B then .second else .text } := by
        simp only [Drain.round, hpc, hget]
      have hb := hback (p := .esc) nofun
      by_cases hc : c = 0x5B
      · rw [if_pos hc] at hround
        rw [hnext _ _ _ hround hholds htaken .second, hscreen]
        subst hc
        simp [EscScan.tame, EscScan.next, Parse.feed, TtyScreen.told, hb]
      · rw [if_neg hc] at hround
        rw [hnext _ _ _ hround hholds htaken .text, hscreen]
        simp [EscScan.tame, EscScan.next, Parse.feed, TtyScreen.told, hc, hb]
  | second =>
      rw [hloop .none (Nat.zero_le 3) (by simp only [Drain.round, hpc, hget])]
      have hb := hback (p := .bracket) nofun
      exact and_congr_right fun _ => (and_iff_right hb).symm
  | next a ha =>
      rw [hloop a ha (by simp only [Drain.round, hpc, hget])]
      have hb := hback (p := .semi a) nofun
      exact and_congr_right fun _ => (and_iff_right hb).symm
  | number a c₀ arg hc₀ hlt =>
      have hround : s.round cursor
          = .again { s₁ with pc := .number a c (arg * 10 + (c₀ - 0x30)) } := by
        simp only [Drain.round, hpc, hget, if_pos hc₀]
      have hb := hback (p := .digit a c₀ (arg * 10 + (c₀ - 0x30))) nofun
      by_cases hc : isDigit c
      · rw [hnext _ _ _ hround hholds htaken (.number a c _ hc hlt), hscreen]
        simp [EscScan.tame, EscScan.next, Parse.feed, TtyScreen.told, hc, hb]
      · have hstore : Drain.round cursor { s₁ with pc := .number a c (arg * 10 + (c₀ - 0x30)) }
            = .again { s₁ with pc := .loop (a.push (arg * 10 + (c₀ - 0x30))) c } := by
          simp only [Drain.round, if_neg hc, Drain.store, if_neg (by omega : ¬ a.idx.toNat ≥ 3)]
        have hpush := @EscArgs.push_idx (arg * 10 + (c₀ - 0x30)) a hlt
        have hiff := finishes_loop hrest
          (s := { s₁ with pc := .loop (a.push (arg * 10 + (c₀ - 0x30))) c }) hholds rfl
          (by rw [hpush]; omega)
        rw [← finishes_again hstore (List.append_nil _).symm, List.nil_append,
          ← finishes_again hround htaken, List.singleton_append, hscreen, hpush] at hiff
        rw [hiff]
        simp [EscScan.tame, EscScan.next, Parse.feed, hc, hb]

theorem decides : DrainDecides cursor T cs := by
  induction cs with
  | nil => exact decides_nil
  | cons c cs ih => exact decides_cons ih

/-! ## No byte is lost -/

/-- What was taken and what is in the queue are together `all`. -/
def Drain.Queue (all : List UInt8) (s : Drain T) : Prop :=
  ∃ l, s.fifo.Holds l ∧ s.taken ++ l = all

theorem Drain.Queue.get {all : List UInt8} (h : s.Queue all) (hget : s.get = some (s₁, c)) :
    s₁.Queue all := by
  obtain ⟨l, hl, hall⟩ := h
  cases l with
  | nil => exact absurd ((Drain.get_nil hl).symm.trans hget) nofun
  | cons d l =>
      obtain ⟨s₂, hget₂, hl₂, -, htaken⟩ := Drain.get_cons hl
      obtain ⟨rfl, -⟩ := Prod.mk.inj (Option.some.inj (hget.symm.trans hget₂))
      refine ⟨l, hl₂, ?_⟩
      rw [htaken, List.append_assoc]
      exact hall

theorem Drain.Queue.round {all : List UInt8} (h : s.Queue all) :
    match s.round cursor with
    | .again s' => s'.Queue all
    | .leave (.done s') => s'.Queue all
    | .leave .overflow => True := by
  have hget : ∀ r, s.get = some r → r.1.Queue all := fun r hr => h.get hr
  have hstore : ∀ (s : Drain T) a c arg, s.Queue all →
      match s.store a c arg with
      | .again s' => s'.Queue all
      | .leave (.done s') => s'.Queue all
      | .leave .overflow => True := by
    intro s a c arg h
    by_cases hfull : a.idx.toNat ≥ 3
    · rw [Drain.store, if_pos hfull]
      trivial
    · rw [Drain.store, if_neg hfull]
      exact h
  unfold Drain.round
  cases hpc : s.pc with
  | text =>
      cases hg : s.get with
      | none => exact h
      | some r =>
          dsimp only
          split_ifs
          · exact hget r hg
          · cases r.1.screen.ttyWrite cursor r.2 <;> exact hget r hg
  | first | second | next =>
      cases hg : s.get with
      | none => exact h
      | some r => exact hget r hg
  | loop a c =>
      dsimp only
      split_ifs <;> exact h
  | number a c arg =>
      dsimp only
      split_ifs
      · cases hg : s.get with
        | none => exact hstore s a c _ h
        | some r => exact hget r hg
      · exact hstore s a c arg h
  | lost => exact h

/-- The loop takes the bytes in their order. -/
theorem queue_of_done {all : List UInt8} (h : s.Queue all)
    (hend : Lib.Ends (Drain.round cursor) s (.done e)) : e.Queue all := by
  refine hend.invariant (I := Drain.Queue all)
    (Q := fun r => match r with | .done e => e.Queue all | .overflow => True) ?_ ?_ h
  · intro s s' hs hround
    have hkeep := @Drain.Queue.round T cursor s all hs
    rw [hround] at hkeep
    exact hkeep
  · intro s r hs hround
    have hkeep := @Drain.Queue.round T cursor s all hs
    rw [hround] at hkeep
    cases r <;> exact hkeep

theorem TtyFifo.Holds.eq_nil {fifo : TtyFifo} (h : fifo.Holds cs) (hnil : fifo.Holds []) :
    cs = [] := List.eq_nil_of_length_eq_zero (h.count.symm.trans hnil.count)

theorem finishes_iff (h : s.fifo.Holds cs) : Finishes cursor s cs
    ↔ ∃ e, Lib.Ends (Drain.round cursor) s (.done e) ∧ e.fifo.Holds [] := by
  refine exists_congr fun e => and_congr_right fun hend => and_iff_left_of_imp fun hnil => ?_
  obtain ⟨l, hl, hall⟩ := queue_of_done ⟨cs, h, rfl⟩ hend
  obtain rfl := hl.eq_nil hnil
  rwa [List.append_nil] at hall

theorem finishes_iff_taken (h : s.fifo.Holds cs) : Finishes cursor s cs
    ↔ ∃ e, Lib.Ends (Drain.round cursor) s (.done e) ∧ e.taken = s.taken ++ cs := by
  refine exists_congr fun e => and_congr_right fun hend => and_iff_right_of_imp fun htaken => ?_
  obtain ⟨l, hl, hall⟩ := queue_of_done ⟨cs, h, rfl⟩ hend
  rw [htaken] at hall
  rwa [List.append_right_eq_self.mp hall] at hl

/-! ## `tty_write` -/

/-- `tty_write` is called with `cs` in the queue. The cursor of the keyboard
is within its text, as `kbd.c` keeps it. -/
structure TtyCalled (cursor : CursorCtrl) (s : Drain T) (cs : List UInt8) : Prop where
  fifo : s.fifo.Holds cs
  pc : s.pc = .text
  cursor : cursor.current ≤ cursor.total

/-- `tty_write` comes to an end with an empty queue, and nothing is stored
past the array of `com_esc`. -/
def Drains (cursor : CursorCtrl) (s : Drain T) : Prop :=
  (∃ s', Lib.Ends (Drain.round cursor) s (.done s') ∧ s'.fifo.Holds [])
    ∧ ¬ Lib.Ends (Drain.round cursor) s .overflow

/-- `tty_write` drains the queue if and only if its bytes are in the
language and every backspace among them stops. -/
theorem ttyWrite_drains (h : TtyCalled cursor s cs) :
    Drains cursor s ↔ EscScan.text.tame cs = true ∧ Calm cursor ⟨s.screen, .text⟩ cs := by
  have hpc := h.pc
  have hwaits : Waits s.pc .text .text := by
    rw [hpc]
    exact .text
  rw [← decides s .text .text h.fifo hwaits, finishes_iff h.fifo]
  refine and_iff_left_of_imp ?_
  rintro ⟨e, hend, -⟩ hover
  exact absurd (hend.unique hover) nofun

/-- Without `can_backspace` every backspace stops. -/
theorem calm_of_cannot (hcan : cursor.canBackspace = false) (t : TtyConsole) :
    Calm cursor t cs := by
  induction cs generalizing t with
  | nil => trivial
  | cons c cs ih =>
      refine ⟨fun _ _ h => ?_, fun s' _ => ih s'⟩
      rw [hcan] at h
      cases h

end Rounds

/-- A queue that holds `cs` from its first cell on. -/
def TtyFifo.of (cs : List UInt8) : TtyFifo :=
  { buf := fun i => cs.getD i 0, size := ttyObufSize, read := 0, write := cs.length,
    count := cs.length }

theorem TtyFifo.holds_of {cs : List UInt8} (h : cs.length < ttyObufSize) :
    (TtyFifo.of cs).Holds cs where
  ring := ⟨Nat.zero_lt_succ 511, Nat.le_of_lt h, fun i hi => by
    change cs.getD ((0 + i) % ttyObufSize) 0 = cs[i]
    rw [Nat.zero_add, Nat.mod_eq_of_lt (Nat.lt_trans hi h), List.getD_eq_getElem?_getD,
      List.getElem?_eq_getElem hi, Option.getD_some]⟩
  write := ((congrArg (· % ttyObufSize) (Nat.zero_add _)).trans (Nat.mod_eq_of_lt h)).symm
  count := rfl

/-! ## A fresh terminal -/

/-- `tty->cursor` after `dev_tty_open`, which leaves `can_echo` as it is. -/
def openCursor (canEcho : Bool) : CursorCtrl where
  total := 0
  current := 0
  canBackspace := false
  canLeft := false
  canRight := false
  canEcho := canEcho

namespace Drain

variable {T : Type}

/-- `dev_tty_open`. -/
def opened (T : Type) (buf : Nat → UInt8) (index : Nat) (cells : Int → TtyChar) : Drain T where
  fifo := ttyFifoInit buf ttyObufSize
  osem := { counter := Int32.ofNat ttyObufSize, waiting := [] }
  screen := .ttyInit index cells
  taken := []
  pc := .text

end Drain

/-- `ESC [ 3 1 m A`. -/
def redA : List UInt8 := [0x1B, 0x5B, 0x33, 0x31, 0x6D, 0x41]

/-- On a fresh terminal. -/
theorem ttyWrite_drains_red : Drains (openCursor true)
    { Drain.opened Unit (fun _ => 0) 0 fun _ => ⟨0, 0, 0, false⟩ with fifo := .of redA } :=
  (ttyWrite_drains ⟨TtyFifo.holds_of (by decide), rfl, UInt16.le_refl 0⟩).mpr
    ⟨by decide, calm_of_cannot rfl _⟩

/-- `ESC [ A` is looked at for ever. -/
theorem ttyWrite_drains_up :
    ¬ ∀ (cursor : CursorCtrl) (s : Drain Unit) (cs : List UInt8),
      TtyCalled cursor s cs → Drains cursor s := by
  intro h
  have hholds := @TtyFifo.holds_of [0x1B, 0x5B, 0x41] (by decide)
  obtain ⟨hdone, -⟩ := h (openCursor true)
    { Drain.opened Unit (fun _ => 0) 0 fun _ => ⟨0, 0, 0, false⟩ with fifo := .of _ } _
    ⟨hholds, rfl, UInt16.le_refl 0⟩
  have htame := ((decides _ .text .text hholds .text).mp ((finishes_iff hholds).mpr hdone)).1
  exact absurd htame (by decide)

/-! ## `dev_tty_write` -/

namespace Drain

variable {T : Type}

/-- The loop of `dev_tty_write`, until the task blocks: nobody else takes
from the queue, so a task that blocks stays blocked. -/
def writeLoop (t : T) (s : Drain T) : List UInt8 → Option (Drain T)
  | [] => some s
  | c :: rest =>
      let (osem, on) := s.osem.wait t
      if on then
        match ttyFifoPut s.fifo c with
        | none => some { s with osem }
        | some fifo => writeLoop t { s with fifo, osem } rest
      else none

/-- `dev_tty_write` of `bytes` gets through and comes to `s'`. -/
def Writes (cursor : CursorCtrl) (t : T) (s : Drain T) (bytes : List UInt8) (s' : Drain T) :
    Prop :=
  if bytes.length ≤ 0 then s' = s
  else ∃ s₁, s.writeLoop t bytes = some s₁ ∧ Lib.Ends (round cursor) s₁ (.done s')

/-- Every free place has its token. -/
structure Stocked (s : Drain T) (cs : List UInt8) : Prop where
  fifo : s.fifo.Holds cs
  size : s.fifo.size = ttyObufSize
  tokens : s.osem.counter.toInt + cs.length = ttyObufSize

theorem stocked_opened (buf : Nat → UInt8) (index : Nat) (cells : Int → TtyChar) :
    (opened T buf index cells).Stocked [] where
  fifo := TtyFifo.holds_init (Nat.zero_lt_succ 511)
  size := rfl
  tokens := rfl

/-- The bytes go in as long as there is a place for them. -/
theorem writeLoop_eq_some {t : T} {s s₁ : Drain T} {cs bytes : List UInt8} (h : s.Stocked cs) :
    s.writeLoop t bytes = some s₁ →
      cs.length + bytes.length ≤ ttyObufSize ∧ s₁.fifo.Holds (cs ++ bytes)
        ∧ s₁.screen = s.screen ∧ s₁.taken = s.taken ∧ s₁.pc = s.pc := by
  have hfits := h.fifo.ring.fits
  have hsize := h.size
  have htokens := h.tokens
  induction bytes generalizing s cs with
  | nil =>
      rintro ⟨⟩
      rw [List.append_nil]
      exact ⟨by rw [List.length_nil]; omega, h.fifo, rfl, rfl, rfl⟩
  | cons c rest ih =>
      rw [writeLoop]
      by_cases hpos : 0 < s.osem.counter.toInt
      · obtain ⟨fifo, hput, hholds, hsize'⟩ := h.fifo.put (c := c) (by omega)
        have hone := toInt_sub_one hpos
        rw [Sem.wait_of_pos hpos]
        simp only [hput, if_true]
        intro hrest
        have hlen : (cs ++ [c]).length = cs.length + 1 := by simp
        have h' : Stocked { s with fifo, osem := { s.osem with counter := s.osem.counter - 1 } }
            (cs ++ [c]) := ⟨hholds, hsize'.trans hsize, by dsimp only; omega⟩
        obtain ⟨hroom, hall, hscreen, htaken, hpc⟩ :=
          ih h' h'.fifo.ring.fits h'.size h'.tokens hrest
        rw [List.append_assoc, List.singleton_append] at hall
        exact ⟨by rw [List.length_cons]; omega, hall, hscreen, htaken, hpc⟩
      · rw [Sem.wait_of_not_pos hpos]
        exact nofun

/-- They all go in if there are as many. -/
theorem writeLoop_of_room {t : T} {s : Drain T} {cs bytes : List UInt8} (h : s.Stocked cs)
    (hroom : cs.length + bytes.length ≤ ttyObufSize) :
    ∃ s₁, s.writeLoop t bytes = some s₁ ∧ s₁.Stocked (cs ++ bytes)
      ∧ s₁.osem.waiting = s.osem.waiting ∧ s₁.screen = s.screen ∧ s₁.pc = s.pc := by
  have hsize := h.size
  have htokens := h.tokens
  induction bytes generalizing s cs with
  | nil =>
      rw [List.append_nil]
      exact ⟨s, rfl, h, rfl, rfl, rfl⟩
  | cons c rest ih =>
      rw [List.length_cons] at hroom
      have hpos : 0 < s.osem.counter.toInt := by omega
      obtain ⟨fifo, hput, hholds, hsize'⟩ := h.fifo.put (c := c) (by omega)
      have hone := toInt_sub_one hpos
      have hlen : (cs ++ [c]).length = cs.length + 1 := by simp
      have h' : Stocked { s with fifo, osem := { s.osem with counter := s.osem.counter - 1 } }
          (cs ++ [c]) := ⟨hholds, hsize'.trans hsize, by dsimp only; omega⟩
      obtain ⟨s₁, hs₁, hall⟩ := ih h' (by omega) h'.size h'.tokens
      rw [List.append_assoc, List.singleton_append] at hall
      rw [writeLoop, Sem.wait_of_pos hpos]
      simp only [hput, if_true]
      exact ⟨s₁, hs₁, hall⟩

/-- A write to a fresh terminal gets through, with exactly its bytes taken,
if and only if they have room in the queue all together and are in the
language. -/
theorem devTtyWrite_completes (t : T) (buf : Nat → UInt8) (index : Nat) (cells : Int → TtyChar)
    (canEcho : Bool) (bytes : List UInt8) :
    (∃ s', Writes (openCursor canEcho) t (opened T buf index cells) bytes s' ∧ s'.taken = bytes)
      ↔ bytes.length ≤ ttyObufSize ∧ EscScan.text.tame bytes = true := by
  have hstock := stocked_opened (T := T) buf index cells
  by_cases hempty : bytes.length ≤ 0
  · obtain rfl := List.length_eq_zero_iff.mp (Nat.le_zero.mp hempty)
    exact iff_of_true ⟨_, rfl, rfl⟩ ⟨Nat.zero_le _, rfl⟩
  simp only [Writes, if_neg hempty]
  have hdecides : ∀ {s₁ : Drain T}, s₁.fifo.Holds bytes → s₁.taken = [] → s₁.pc = .text →
      ((∃ s', Lib.Ends (round (openCursor canEcho)) s₁ (.done s') ∧ s'.taken = bytes)
        ↔ EscScan.text.tame bytes = true) := by
    intro s₁ hholds htaken hpc
    have hwaits : Waits s₁.pc .text .text := by
      rw [hpc]
      exact .text
    have hiff := @decides T (openCursor canEcho) bytes s₁ _ _ hholds hwaits
    rw [finishes_iff_taken hholds, htaken, List.nil_append,
      and_iff_left (calm_of_cannot rfl _)] at hiff
    exact hiff
  constructor
  · rintro ⟨s', ⟨s₁, hloop, hend⟩, htaken⟩
    obtain ⟨hroom, hholds, -, htaken₁, hpc⟩ := writeLoop_eq_some hstock hloop
    rw [List.length_nil, Nat.zero_add] at hroom
    exact ⟨hroom, (hdecides hholds htaken₁ hpc).mp ⟨s', hend, htaken⟩⟩
  · rintro ⟨hroom, htame⟩
    obtain ⟨s₁, hloop, -⟩ := @writeLoop_of_room T t _ _ bytes hstock
      (by rwa [List.length_nil, Nat.zero_add])
    obtain ⟨-, hholds, -, htaken₁, hpc⟩ := writeLoop_eq_some hstock hloop
    obtain ⟨s', hend, htaken⟩ := (hdecides hholds htaken₁ hpc).mpr htame
    exact ⟨s', ⟨s₁, hloop, hend⟩, htaken⟩

/-- The 513th byte waits for ever. -/
theorem devTtyWrite_completes_full :
    ¬ ∀ bytes : List UInt8, ∃ s' : Drain Unit,
      Writes (openCursor true) () (opened Unit (fun _ => 0) 0 fun _ => ⟨0, 0, 0, false⟩) bytes s'
        ∧ s'.taken = bytes := by
  intro h
  obtain ⟨bytes, hlen⟩ : ∃ bytes : List UInt8, bytes.length = 513 :=
    ⟨List.replicate 513 0x41, List.length_replicate⟩
  obtain ⟨s', hwrites, -⟩ := h bytes
  rw [Writes, if_neg (by omega)] at hwrites
  obtain ⟨s₁, hloop, -⟩ := hwrites
  have hroom := (writeLoop_eq_some (stocked_opened _ _ _) hloop).1
  rw [hlen] at hroom
  exact absurd hroom (by decide)

end Drain

end Csos
