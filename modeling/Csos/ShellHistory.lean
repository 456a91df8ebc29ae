import Mathlib.Data.List.Forall2
import Csos.ShellLaw

/-!
# The lines that were executed

`histStep` runs the shell beside the list of the lines that were executed.
An executed line goes into the history in front of the one that is browsed,
and nothing takes the cursor back to the end of the history. So the history
is in order as long as the lines from the cursor on are all the same as the
one that is executed. The cursor keys leave `cmd` and `pcwrite` right only
where they had nothing to replace.
-/

namespace Csos

open Lib

/-! ## Insertion in front of a tail -/

section Lists

variable {α : Type} {as bs es : List α} {a z : α}

theorem cons_eq_concat_iff : a :: bs = bs ++ [a] ↔ ∀ b ∈ bs, b = a := by
  induction bs with
  | nil => simp
  | cons b bs ih =>
      rw [List.cons_append, List.cons.injEq, List.forall_mem_cons]
      refine ⟨fun ⟨hab, hbs⟩ => ?_, fun ⟨hba, hbs⟩ => ?_⟩
      · subst hab
        exact ⟨rfl, ih.mp hbs⟩
      · subst hba
        exact ⟨rfl, ih.mpr hbs⟩

/-- An element in front of a tail is at its end too, if the tail is full of
it, but for the sentinel `z`. -/
theorem insert_before_iff (h : as ++ bs = es ++ [z]) (hbs : bs ≠ []) :
    as ++ [a] ++ bs = es ++ [a] ++ [z] ↔ ∀ b ∈ bs.dropLast, b = a := by
  obtain rfl | ⟨cs, y, rfl⟩ := bs.eq_nil_or_concat
  · exact absurd rfl hbs
  · rw [List.concat_eq_append, ← List.append_assoc] at h
    obtain ⟨rfl, hy⟩ := List.append_inj' h rfl
    obtain rfl := List.singleton_inj.mp hy
    rw [List.concat_eq_append, List.dropLast_concat, ← cons_eq_concat_iff, ← List.append_assoc,
      List.append_left_inj, List.append_assoc, List.append_assoc, List.append_right_inj,
      List.singleton_append]

end Lists

namespace Shell

variable {N : Type} [DecidableEq N] {s s' s₀ : Shell N} {l : CmdLine}
  {as bs : List (N × CmdLine)} {cur e : N × CmdLine} {malloc : Malloc N} {cmdExec : CmdExec}
  {getcwd : Bytes}

/-! ## The record -/

/-- A character that is typed, a line that is executed, or a cursor key. -/
inductive HistOp where
  | putc (ch : BitVec 8)
  | exec
  | up
  | down

/-- The line in `cmd`. -/
def line (s : Shell N) : CmdLine := s.mem.stringAt 0 cmdMaxSize

/-- The shell, the lines that were executed, and whether the last step was
a cursor key that moved. -/
structure Recorded (N : Type) where
  shell : Shell N
  executed : List CmdLine
  moved : Bool

def histStep (malloc : Malloc N) (cmdExec : CmdExec) (t : Recorded N) : HistOp → Option (Recorded N)
  | .putc ch => (shellPutc t.shell ch).map fun shell => ⟨shell, t.executed, false⟩
  | .exec => (shellExec malloc cmdExec t.shell).map fun shell =>
      ⟨shell, t.executed ++ [t.shell.line], false⟩
  | .up => (shellCmdUp t.shell).map fun shell => ⟨shell, t.executed, shell.now ≠ t.shell.now⟩
  | .down => (shellCmdDown t.shell).map fun shell => ⟨shell, t.executed, shell.now ≠ t.shell.now⟩

/-- The history from its head is `ls`. -/
def HistoryIs (s : Shell N) (ls : List CmdLine) : Prop :=
  ∃ ns, s.heap.Rep () ns ∧ List.Forall₂ (fun n l => (s.text n).IsString 0 l) ns ls

/-- The history is what was executed and an empty line, and behind a move
the line of `now` is in `cmd`, with `pcwrite` at its end. -/
structure HistLaw (t : Recorded N) : Prop where
  history : t.shell.HistoryIs (t.executed ++ [[]])
  moved : t.moved = true → ∃ n l, t.shell.now = some n ∧ (t.shell.text n).IsString 0 l
    ∧ t.shell.mem.IsString 0 l ∧ t.shell.pcwrite = l.length

/-- The nodes of the history from `now` on. -/
def later (s : Shell N) : List N := nodesFrom s.heap.next (s.heap.size ()).toNat s.now

/-- What a step has to meet: a line is executed where all lines from `now`
on are the same, up to the sentinel, and a cursor key goes to a line which
`cmd` or `pcwrite` already fits. -/
def HistMeets (t : Recorded N) : HistOp → Prop
  | .putc _ => True
  | .exec => ∀ n ∈ t.shell.later.dropLast, (t.shell.text n).IsString 0 t.shell.line
  | .up => ∀ pnode ∈ t.shell.now.bind t.shell.heap.pre,
      ((t.shell.text pnode).stringAt 0 cmdMaxSize).length = t.shell.pcwrite
  | .down => ∀ pnode ∈ t.shell.now.bind t.shell.heap.next,
      (t.shell.text pnode).IsString 0 t.shell.line

instance {t : Recorded N} : ∀ op, Decidable (HistMeets t op)
  | .putc _ => isTrue trivial
  | .exec => inferInstanceAs (Decidable (∀ n ∈ t.shell.later.dropLast, _))
  | .up => inferInstanceAs (Decidable (∀ pnode ∈ t.shell.now.bind t.shell.heap.pre, _))
  | .down => inferInstanceAs (Decidable (∀ pnode ∈ t.shell.now.bind t.shell.heap.next, _))

/-- The step comes back. -/
def ComesBack (malloc : Malloc N) (cmdExec : CmdExec) (t : Recorded N) (op : HistOp) : Prop :=
  (histStep malloc cmdExec t op).isSome

instance {t : Recorded N} {op : HistOp} : Decidable (ComesBack malloc cmdExec t op) :=
  inferInstanceAs (Decidable (_ = true))

/-! ## The history and its lines -/

omit [DecidableEq N] in
theorem Browsing.historyIs (hb : s.Browsing as cur bs) :
    s.HistoryIs ((as ++ cur :: bs).map Prod.snd) := by
  refine ⟨_, hb.rep, ?_⟩
  rw [List.forall₂_map_left_iff, List.forall₂_map_right_iff, List.forall₂_same]
  exact fun e he => (hb.text e he).1

omit [DecidableEq N] in
theorem HistoryIs.unique {ls ls' : List CmdLine} (h : s.HistoryIs ls) (h' : s.HistoryIs ls') :
    ls = ls' := by
  obtain ⟨ns, hrep, hls⟩ := h
  obtain ⟨ns', hrep', hls'⟩ := h'
  obtain rfl := hrep.unique hrep'
  exact List.right_unique_forall₂' (fun _ _ _ h h' => h.unique h') hls hls'

omit [DecidableEq N] in
theorem Browsing.later_eq (hb : s.Browsing as cur bs) :
    s.later = (cur :: bs).map Prod.fst := by
  have hpath := hb.rep.forward
  rw [List.map_append] at hpath
  have hlen : ((cur :: bs).map Prod.fst).length ≤ (s.heap.size ()).toNat := by
    rw [hb.rep.size, List.map_append, List.length_append]
    exact Nat.le_add_left _ _
  rw [later, hb.now]
  exact hpath.suffix.nodesFrom_eq hlen

/-- The line is in `cmd`, the history is in order, and behind a move the
line is that of `now`. -/
structure HistInv (t : Recorded N) (as : List (N × CmdLine)) (cur : N × CmdLine)
    (bs : List (N × CmdLine)) (l : CmdLine) : Prop where
  browsing : t.shell.Browsing as cur bs
  editing : t.shell.Editing l
  order : (as ++ cur :: bs).map Prod.snd = t.executed ++ [[]]
  moved : t.moved = true → l = cur.2

omit [DecidableEq N] in
theorem HistInv.law {t : Recorded N} (hi : HistInv t as cur bs l) : HistLaw t where
  history := hi.order ▸ hi.browsing.historyIs
  moved hm := by
    obtain rfl := hi.moved hm
    obtain ⟨htext, hlen⟩ := hi.browsing.text cur (by simp)
    exact ⟨cur.1, cur.2, hi.browsing.now, htext, hi.editing.cmd.isString hlen, hi.editing.pcwrite⟩

/-! ## One step -/

omit [DecidableEq N] in
theorem Editing.line_eq (he : s.Editing l) : s.line = l.take cmdMaxSize := he.cmd.stringAt_eq

omit [DecidableEq N] in
/-- The lines from the cursor on, up to the sentinel. -/
theorem Browsing.later_iff (hb : s.Browsing as cur bs) :
    (∀ n ∈ s.later.dropLast, (s.text n).IsString 0 l)
      ↔ ∀ b ∈ ((cur :: bs).map Prod.snd).dropLast, b = l := by
  have htext : ∀ e ∈ (cur :: bs).dropLast, (s.text e.1).IsString 0 e.2 := fun e he =>
    (hb.text e (List.mem_append_right _ (List.dropLast_subset _ he))).1
  rw [hb.later_eq, ← List.map_dropLast, ← List.map_dropLast, List.forall_mem_map,
    List.forall_mem_map]
  refine forall₂_congr fun e he => ⟨fun h => (htext e he).unique h, fun h => ?_⟩
  rw [← h]
  exact htext e he

theorem HistInv.putc {t t' : Recorded N} {ch : BitVec 8} (hi : HistInv t as cur bs l)
    (hstep : histStep malloc cmdExec t (.putc ch) = some t') : ∃ l, HistInv t' as cur bs l := by
  obtain ⟨shell, hput, rfl⟩ := Option.map_eq_some_iff.mp hstep
  obtain ⟨mem, pcwrite, l', rfl, he⟩ := shellPutc_spec hi.editing hput
  exact ⟨l', hi.browsing.congr rfl rfl rfl rfl, he, hi.order, fun h => absurd h (by simp)⟩

/-- Execution keeps the order exactly when it meets its condition. -/
theorem HistInv.exec [HasAddr N] {t t' : Recorded N} (hi : HistInv t as cur bs l)
    (hstep : histStep malloc cmdExec t .exec = some t') :
    ∃ n, t'.shell.Browsing (as ++ [(n, l)]) cur bs ∧ t'.shell.Editing [] ∧ t'.moved = false
      ∧ (HistMeets t .exec
        ↔ (as ++ [(n, l)] ++ cur :: bs).map Prod.snd = t'.executed ++ [[]]) := by
  obtain ⟨shell, hexec, rfl⟩ := Option.map_eq_some_iff.mp hstep
  have hl := shellExec_fits hi.editing hexec
  obtain ⟨n, hb, he⟩ := shellExec_spec hi.browsing hi.editing hl hexec
  have hline : t.shell.line = l := by
    rw [hi.editing.line_eq]
    exact List.take_of_length_le (Nat.le_of_lt hl)
  have horder := hi.order
  rw [List.map_append] at horder
  refine ⟨n, hb, he, rfl, ?_⟩
  simp only [HistMeets, hline, hi.browsing.later_iff, List.map_append, List.map_singleton]
  exact (insert_before_iff horder (by simp)).symm

omit [DecidableEq N] in
theorem Browsing.ne_of_up (hb : s.Browsing (as ++ [e]) cur bs) : s.now ≠ some e.1 := by
  have hnodup := hb.rep.nodup
  rw [List.map_append, List.map_append, List.map_singleton, List.map_cons] at hnodup
  rw [hb.now]
  intro hsame
  have hmem : e.1 ∈ as.map Prod.fst ++ [e.1] := by simp
  exact (List.nodup_append.mp hnodup).2.2 e.1 hmem cur.1 (by simp) (Option.some.inj hsame).symm

omit [DecidableEq N] in
theorem Browsing.ne_of_down (hb : s.Browsing as cur (e :: bs)) : s.now ≠ some e.1 := by
  have hsplit : as ++ cur :: e :: bs = as ++ [cur] ++ e :: bs := by simp
  have hb' : { s with now := some e.1 }.Browsing (as ++ [cur]) e bs :=
    ⟨hsplit ▸ hb.rep, rfl, hsplit ▸ hb.text, hsplit ▸ hb.used⟩
  rw [hb.now]
  exact fun hsame => hb'.ne_of_up hsame.symm

/-- Up: nothing moves, or the line in front is copied over `cmd`. -/
theorem HistInv.up {t t' : Recorded N} (hi : HistInv t as cur bs l)
    (hstep : histStep malloc cmdExec t .up = some t') :
    (HistMeets t .up → ∃ as cur bs l, HistInv t' as cur bs l)
      ∧ (HistLaw t' → HistMeets t .up) := by
  rcases as.eq_nil_or_concat with rfl | ⟨as, e, rfl⟩
  · obtain ⟨shell, hup, rfl⟩ := Option.map_eq_some_iff.mp hstep
    obtain rfl := Option.some.inj ((shellCmdUp_first hi.browsing).symm.trans hup)
    refine ⟨fun _ => ⟨_, _, _, _, hi.browsing, hi.editing, hi.order, by simp⟩, fun _ pnode hp => ?_⟩
    rw [hi.browsing.now, Option.bind_some, hi.browsing.first_pre] at hp
    exact absurd hp (Option.not_mem_none pnode)
  · rw [List.concat_eq_append] at hi
    obtain ⟨shell, hup, rfl⟩ := Option.map_eq_some_iff.mp hstep
    obtain ⟨hup', hb⟩ := shellCmdUp_spec hi.browsing
    obtain rfl := Option.some.inj (hup'.symm.trans hup)
    obtain ⟨htext, hlen⟩ := hi.browsing.text e (by simp)
    have hmoved : decide (some e.1 ≠ t.shell.now) = true :=
      decide_eq_true hi.browsing.ne_of_up.symm
    constructor
    · intro hm
      have hsame := hm e.1 hi.browsing.now_pre
      rw [htext.stringAt_eq hlen, hi.editing.pcwrite] at hsame
      refine ⟨as, e, cur :: bs, e.2, hb _, ⟨hi.editing.cmd.copy htext hsame, hi.editing.pcread, ?_⟩,
        ?_, fun _ => rfl⟩
      · exact hi.editing.pcwrite.trans hsame.symm
      · simpa using hi.order
    · intro hlaw pnode hp
      obtain rfl := Option.some.inj (hi.browsing.now_pre.symm.trans hp)
      obtain ⟨n, l', hnow, htext', -, hpc⟩ := hlaw.moved hmoved
      obtain rfl := Option.some.inj hnow
      obtain rfl := htext.unique htext'
      rw [htext.stringAt_eq hlen]
      exact hpc.symm

/-- Down: nothing moves, or `now` moves alone. -/
theorem HistInv.down {t t' : Recorded N} (hi : HistInv t as cur bs l)
    (hstep : histStep malloc cmdExec t .down = some t') :
    (HistMeets t .down → ∃ as cur bs l, HistInv t' as cur bs l)
      ∧ (HistLaw t' → HistMeets t .down) := by
  cases bs with
  | nil =>
      obtain ⟨shell, hdown, rfl⟩ := Option.map_eq_some_iff.mp hstep
      obtain rfl := Option.some.inj ((shellCmdDown_last hi.browsing).symm.trans hdown)
      refine ⟨fun _ => ⟨_, _, _, _, hi.browsing, hi.editing, hi.order, by simp⟩,
        fun _ pnode hp => ?_⟩
      rw [hi.browsing.now, Option.bind_some, hi.browsing.last_next] at hp
      exact absurd hp (Option.not_mem_none pnode)
  | cons e bs =>
      obtain ⟨shell, hdown, rfl⟩ := Option.map_eq_some_iff.mp hstep
      obtain ⟨hdown', hb⟩ := shellCmdDown_spec hi.browsing
      obtain rfl := Option.some.inj (hdown'.symm.trans hdown)
      obtain ⟨htext, hlen⟩ := hi.browsing.text e (by simp)
      have hmoved : decide (some e.1 ≠ t.shell.now) = true :=
        decide_eq_true hi.browsing.ne_of_down.symm
      constructor
      · intro hm
        have hline : t.shell.line = e.2 := (hm e.1 hi.browsing.now_next).unique htext
        have hl : l = e.2 := by
          rw [hi.editing.line_eq] at hline
          have hlen' := congrArg List.length hline
          rw [List.length_take] at hlen'
          rwa [List.take_of_length_le (by omega)] at hline
        exact ⟨as ++ [cur], e, bs, l, hb, ⟨hi.editing.cmd, hi.editing.pcread, hi.editing.pcwrite⟩,
          by simpa using hi.order, fun _ => hl⟩
      · intro hlaw pnode hp
        obtain rfl := Option.some.inj (hi.browsing.now_next.symm.trans hp)
        obtain ⟨n, l', hnow, htext', hcmd, -⟩ := hlaw.moved hmoved
        obtain rfl := Option.some.inj hnow
        obtain rfl := htext.unique htext'
        have hline : t.shell.line = e.2 := hcmd.stringAt_eq hlen
        rw [hline]
        exact htext

/-! ## Runs -/

theorem HistInv.step [HasAddr N] {t t' : Recorded N} {op : HistOp} (hi : HistInv t as cur bs l)
    (hstep : histStep malloc cmdExec t op = some t') :
    (HistMeets t op → ∃ as cur bs l, HistInv t' as cur bs l) ∧ (HistLaw t' → HistMeets t op) := by
  cases op with
  | putc ch =>
      obtain ⟨l', hi'⟩ := hi.putc hstep
      exact ⟨fun _ => ⟨_, _, _, _, hi'⟩, fun _ => trivial⟩
  | exec =>
      obtain ⟨n, hb, he, hmoved, hiff⟩ := hi.exec hstep
      refine ⟨fun hm => ⟨_, _, _, _, hb, he, hiff.mp hm, fun h => ?_⟩, fun hlaw => ?_⟩
      · exact absurd (hmoved.symm.trans h) (by decide)
      · exact hiff.mpr (hb.historyIs.unique hlaw.history)
  | up => exact hi.up hstep
  | down => exact hi.down hstep

/-- The history is in order and the buffer follows the cursor, at every
point of a run that comes back, exactly when no line is executed in front
of different ones and no cursor key has anything to replace. -/
theorem shellHistory_law [HasAddr N] {ops : List HistOp}
    (hinit : shellInit malloc s₀ getcwd = some s)
    (hops : Always (histStep malloc cmdExec) (ComesBack malloc cmdExec) ⟨s, [], false⟩ ops) :
    Throughout (histStep malloc cmdExec) HistLaw ⟨s, [], false⟩ ops
      ↔ Always (histStep malloc cmdExec) HistMeets ⟨s, [], false⟩ ops := by
  obtain ⟨n, hb, he⟩ := shellInit_spec hinit
  have hi : HistInv ⟨s, [], false⟩ [] (n, []) [] [] := ⟨hb, he, rfl, fun _ => rfl⟩
  refine throughout_iff_always (I := fun t => ∃ as cur bs l, HistInv t as cur bs l) ?_ ?_ ?_
    ⟨_, _, _, _, hi⟩ hops
  · rintro t ⟨as, cur, bs, l, hi⟩
    exact hi.law
  · rintro t op t' ⟨as, cur, bs, l, hi⟩ - hm hstep
    exact (hi.step hstep).1 hm
  · rintro t op ⟨as, cur, bs, l, hi⟩ hback hm
    obtain ⟨t', hstep⟩ := Option.isSome_iff_exists.mp hback
    exact ⟨t', hstep, fun hlaw => hm ((hi.step hstep).2 hlaw)⟩

/-- `ls` is executed, replaces two other letters from the history, and is
executed again. -/
theorem shellHistory_law_again : Throughout (histStep fourBlocks idleCmds) HistLaw
    ⟨startedShell, [], false⟩
    [.putc 0x6C, .putc 0x73, .exec, .putc 0x63, .putc 0x64, .up, .exec] :=
  (shellHistory_law startedShell_eq (by decide +kernel)).mpr (by decide +kernel)

/-- `a` is executed and comes back with the cursor, but `pcwrite` is still 0. -/
theorem shellHistory_up : ¬ Throughout (histStep fourBlocks idleCmds) HistLaw
    ⟨startedShell, [], false⟩ [.putc 0x61, .exec, .up] := by
  intro h
  have hrun : (run (histStep fourBlocks idleCmds) ⟨startedShell, [], false⟩
      [.putc 0x61, .exec, .up]).map (fun t => (t.moved, t.shell.pcwrite, t.shell.mem 0))
        = some (true, 0, 0x61) := by
    decide +kernel
  obtain ⟨t, ht, heq⟩ := Option.map_eq_some_iff.mp hrun
  obtain ⟨hmoved, hrest⟩ := Prod.mk.inj heq
  obtain ⟨hpc, hmem⟩ := Prod.mk.inj hrest
  obtain ⟨n, l, -, -, hcmd, hlen⟩ := (h _ _ List.prefix_rfl ht).moved hmoved
  obtain rfl := List.length_eq_zero_iff.mp (hlen.symm.trans hpc)
  have hnul : t.shell.mem 0 = 0 := hcmd.nul
  exact absurd (hnul.symm.trans hmem) (by decide)

end Shell

end Csos
