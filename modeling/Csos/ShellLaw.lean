import Csos.Lib.Run
import Csos.ListSeq
import Csos.Shell

/-!
# The line that is typed

`lineStep` runs the loop of the shell beside the line that the keys make,
and beside the bytes outside `cmd`, which only a command may change. The
line is right until a key is taken for something else: a backspace at the
start of the line is a character, a letter `H` or `P` is a cursor key, and
the last byte of `cmd` is not kept for the zero.
-/

namespace Csos

open Lib

namespace Shell

variable {N : Type} [DecidableEq N] {s s' s₀ : Shell N} {l : CmdLine}
  {as bs : List (N × CmdLine)} {cur e : N × CmdLine} {malloc : Malloc N} {cmdExec : CmdExec}
  {getcwd outside : Bytes} {ch : BitVec 8} {n : N}

/-! ## Keys and the line -/

/-- A printable character of ASCII. -/
def IsPrint (ch : BitVec 8) : Prop := 0x20 ≤ ch ∧ ch ≤ 0x7E

instance : DecidablePred IsPrint := fun _ => inferInstanceAs (Decidable (_ ∧ _))

/-- Printable characters, backspace and Enter. -/
def IsTyped (ch : BitVec 8) : Prop := ch = 0x0A ∨ ch = 0x08 ∨ IsPrint ch

instance : DecidablePred IsTyped := fun _ => inferInstanceAs (Decidable (_ ∨ _))

/-- The line behind a key; a character that does not fit is ignored. -/
def typed (l : CmdLine) (ch : BitVec 8) : CmdLine :=
  if ch = 0x0A then []
  else if ch = 0x08 then l.dropLast
  else if l.length + 1 < cmdMaxSize then l ++ [ch]
  else l

/-- What the command of the line leaves outside `cmd`, where it finds
`outside`. -/
def cmdOutside (malloc : Malloc N) (cmdExec : CmdExec) (s : Shell N) (outside : Bytes) :
    Option Bytes := do
  let s ← shellCmdSave malloc s
  let (s, cmd) ← shellGetArg s
  shellFindCmd cmdExec (fun a => if a < cmdMaxSize then s.mem a else outside a) s.pcread cmd

/-- The shell, the line that was typed, and the bytes outside `cmd`. -/
structure Typing (N : Type) where
  shell : Shell N
  line : CmdLine
  outside : Bytes

/-- Only a command may change what is outside `cmd`. -/
def outsideAfter (malloc : Malloc N) (cmdExec : CmdExec) (t : Typing N) (ch : BitVec 8) :
    Option Bytes :=
  if ch = 0x0A then cmdOutside malloc cmdExec t.shell t.outside else some t.outside

/-- One key. -/
def lineStep (malloc : Malloc N) (cmdExec : CmdExec) (t : Typing N) (ch : BitVec 8) :
    Option (Typing N) := do
  let shell ← shellKey malloc cmdExec t.shell ch
  let outside ← outsideAfter malloc cmdExec t ch
  return ⟨shell, typed t.line ch, outside⟩

/-- The line is in `cmd` with its zero, and nothing was stored outside. -/
structure LineLaw (t : Typing N) : Prop where
  cmd : t.shell.mem.IsString 0 t.line
  fits : t.line.length < cmdMaxSize
  pcwrite : t.shell.pcwrite < cmdMaxSize
  outside : ∀ a, cmdMaxSize ≤ a → t.shell.mem a = t.outside a

/-- What a key has to meet. A cursor key in place of a letter does no harm
where the letter would be ignored and `cmd` stays as it is. -/
structure LineMeets (t : Typing N) (ch : BitVec 8) : Prop where
  back : ch = 0x08 → t.line ≠ []
  up : ch = keyUpChar → t.line.length + 1 = cmdMaxSize
    ∧ ∀ pnode ∈ t.shell.now.bind t.shell.heap.pre, (t.shell.text pnode).IsString 0 t.line
  down : ch = keyDownChar → t.line.length + 1 = cmdMaxSize
  char : IsPrint ch → ch ≠ keyUpChar → ch ≠ keyDownChar → t.line.length + 1 < cmdMaxSize

instance {t : Typing N} : Decidable (LineMeets t ch) :=
  decidable_of_iff ((ch = 0x08 → t.line ≠ []) ∧ (ch = keyUpChar → t.line.length + 1 = cmdMaxSize
      ∧ ∀ pnode ∈ t.shell.now.bind t.shell.heap.pre, (t.shell.text pnode).IsString 0 t.line)
      ∧ (ch = keyDownChar → t.line.length + 1 = cmdMaxSize)
      ∧ (IsPrint ch → ch ≠ keyUpChar → ch ≠ keyDownChar → t.line.length + 1 < cmdMaxSize))
    ⟨fun h => ⟨h.1, h.2.1, h.2.2.1, h.2.2.2⟩, fun h => ⟨h.back, h.up, h.down, h.char⟩⟩

/-! ## One key -/

theorem IsPrint.ne (h : IsPrint ch) : ch ≠ 0x0A ∧ ch ≠ 0x08 ∧ ch ≠ 0 := by
  refine ⟨?_, ?_, ?_⟩ <;> rintro rfl <;> exact absurd h (by decide)

theorem shellKey_enter : shellKey malloc cmdExec s 0x0A = shellExec malloc cmdExec s := if_pos rfl

theorem shellKey_up : shellKey malloc cmdExec s keyUpChar = shellCmdUp s := rfl

theorem shellKey_down : shellKey malloc cmdExec s keyDownChar = shellCmdDown s := rfl

theorem shellKey_back : shellKey malloc cmdExec s 0x08 = shellPutc s 0x08 := rfl

theorem shellKey_char (h : IsPrint ch) (hup : ch ≠ keyUpChar) (hdown : ch ≠ keyDownChar) :
    shellKey malloc cmdExec s ch = shellPutc s ch := by
  rw [shellKey, if_neg h.ne.1, if_neg hup, if_neg hdown]

theorem typed_char (h : IsPrint ch) :
    typed l ch = if l.length + 1 < cmdMaxSize then l ++ [ch] else l := by
  rw [typed, if_neg h.ne.1, if_neg h.ne.2.1]

/-- A key that is not Enter leaves the record of the bytes outside as it is. -/
theorem lineStep_of_key {t : Typing N} (hch : ch ≠ 0x0A)
    (h : shellKey malloc cmdExec t.shell ch = some s') :
    lineStep malloc cmdExec t ch = some ⟨s', typed t.line ch, t.outside⟩ := by
  have hout : outsideAfter malloc cmdExec t ch = some t.outside := if_neg hch
  rw [lineStep, h, hout]
  rfl

/-- The line is in `cmd` with zeros behind it, and no line in the history
has an `H`. -/
structure LineInv (t : Typing N) (as : List (N × CmdLine)) (cur : N × CmdLine)
    (bs : List (N × CmdLine)) : Prop where
  browsing : t.shell.Browsing as cur bs
  editing : t.shell.Editing t.line
  fits : t.line.length < cmdMaxSize
  history : ∀ e ∈ as ++ cur :: bs, keyUpChar ∉ e.2
  line : keyUpChar ∉ t.line
  outside : ∀ a, cmdMaxSize ≤ a → t.shell.mem a = t.outside a

omit [DecidableEq N] in
theorem LineInv.law {t : Typing N} (hi : LineInv t as cur bs) : LineLaw t where
  cmd := hi.editing.cmd.isString hi.fits
  fits := hi.fits
  pcwrite := hi.editing.pcwrite ▸ hi.fits
  outside := hi.outside

/-- The command finds outside `cmd` what the record says. -/
theorem cmdOutside_eq [HasAddr N] {t : Typing N} {shell : Shell N} (hi : LineInv t as cur bs)
    (hstep : shellExec malloc cmdExec t.shell = some shell) :
    ∃ mem, cmdOutside malloc cmdExec t.shell t.outside = some mem
      ∧ ∀ a, cmdMaxSize ≤ a → shell.mem a = mem a := by
  rw [shellExec] at hstep
  obtain ⟨s₁, hsave, hstep⟩ := Option.bind_eq_some_iff.mp hstep
  obtain ⟨n, -, he₁, hmem₁⟩ := shellCmdSave_spec hi.browsing hi.editing hi.fits hsave
  obtain ⟨⟨s₂, cmd⟩, harg, hstep⟩ := Option.bind_eq_some_iff.mp hstep
  obtain ⟨mem, pcread, rfl, hmem⟩ := shellGetArg_spec he₁ hi.fits harg
  obtain ⟨mem', hcmd, hstep⟩ := Option.bind_eq_some_iff.mp hstep
  obtain rfl := Option.some.inj hstep
  have hsame : (fun a => if a < cmdMaxSize then mem a else t.outside a) = mem := by
    funext a
    split
    · rfl
    · rename_i ha
      rw [hmem a (Nat.le_of_not_lt ha), hmem₁, hi.outside a (Nat.le_of_not_lt ha)]
  refine ⟨mem', ?_, fun a ha => Bytes.fill_outside (Or.inr (by omega))⟩
  rw [cmdOutside, hsave]
  simp only [Option.bind_eq_bind, Option.bind_some, harg, hsame]
  exact hcmd

theorem LineInv.enter [HasAddr N] {t t' : Typing N} (hi : LineInv t as cur bs)
    (hstep : lineStep malloc cmdExec t 0x0A = some t') :
    ∃ n, LineInv t' (as ++ [(n, t.line)]) cur bs := by
  have hafter : outsideAfter malloc cmdExec t 0x0A = cmdOutside malloc cmdExec t.shell t.outside :=
    if_pos rfl
  rw [lineStep, shellKey_enter, hafter] at hstep
  obtain ⟨shell, hexec, hstep⟩ := Option.bind_eq_some_iff.mp hstep
  obtain ⟨n, hb, he⟩ := shellExec_spec hi.browsing hi.editing hi.fits hexec
  obtain ⟨mem, hmem, hout⟩ := cmdOutside_eq hi hexec
  rw [hmem] at hstep
  obtain rfl := Option.some.inj hstep
  refine ⟨n, hb, he, Nat.zero_lt_succ 63, fun e hmem => ?_, List.not_mem_nil, hout⟩
  simp only [List.append_assoc, List.mem_append, List.singleton_append, List.mem_cons] at hmem
  obtain hmem | rfl | rfl | hmem := hmem
  · exact hi.history e (by simp [hmem])
  · exact hi.line
  · exact hi.history e (by simp)
  · exact hi.history e (by simp [hmem])

omit [DecidableEq N] in
/-- The line behind a key that only stores into `cmd`. -/
theorem LineInv.store {t : Typing N} {a pcwrite : Nat} {c : BitVec 8} (hi : LineInv t as cur bs)
    (he : { t.shell with mem := t.shell.mem.store8 a c, pcwrite }.Editing l)
    (hl : l.length < cmdMaxSize) (hup : keyUpChar ∉ l) (ha : a < cmdMaxSize) :
    LineInv ⟨{ t.shell with mem := t.shell.mem.store8 a c, pcwrite }, l, t.outside⟩ as cur bs where
  browsing := hi.browsing.congr rfl rfl rfl rfl
  editing := he
  fits := hl
  history := hi.history
  line := hup
  outside b hb := (Bytes.store8_of_ne (by omega)).trans (hi.outside b hb)

theorem LineInv.back {t : Typing N} (hi : LineInv t as cur bs) (hl : t.line ≠ []) :
    ∃ t', lineStep malloc cmdExec t 0x08 = some t' ∧ LineInv t' as cur bs := by
  obtain ⟨hput, he⟩ := shellPutc_pop hi.editing hl
  have hfits := hi.fits
  refine ⟨_, lineStep_of_key (by decide) (shellKey_back.trans hput), ?_⟩
  refine hi.store he ?_ (fun hup => hi.line (List.dropLast_subset _ hup)) (by omega)
  exact Nat.lt_of_le_of_lt (List.length_dropLast ▸ Nat.sub_le _ _) hfits

/-- At the start of the line a backspace is a character. -/
theorem LineInv.back_start {t : Typing N} (hi : LineInv t as cur bs) (hl : t.line = []) :
    ∃ t', lineStep malloc cmdExec t 0x08 = some t' ∧ ¬ LineLaw t' := by
  have h0 : (0x08 : BitVec 8) ≠ 0 := by decide
  obtain ⟨hput, he⟩ := shellPutc_push hi.editing (Or.inr hl) h0 (by rw [hl]; decide)
  refine ⟨_, lineStep_of_key (by decide) (shellKey_back.trans hput), fun hlaw => ?_⟩
  have heq : typed t.line 0x08 = t.line ++ [0x08] :=
    hlaw.cmd.unique (he.cmd.isString (by rw [hl]; decide))
  rw [hl] at heq
  exact absurd heq (by decide)

theorem LineInv.char {t : Typing N} (hi : LineInv t as cur bs) (hch : IsPrint ch)
    (hup : ch ≠ keyUpChar) (hdown : ch ≠ keyDownChar) (hl : t.line.length + 1 < cmdMaxSize) :
    ∃ t', lineStep malloc cmdExec t ch = some t' ∧ LineInv t' as cur bs := by
  obtain ⟨hput, he⟩ := shellPutc_push hi.editing (Or.inl hch.ne.2.1) hch.ne.2.2
    (Nat.lt_trans hi.fits cmdMaxSize_lt)
  refine ⟨_, lineStep_of_key hch.ne.1 ((shellKey_char hch hup hdown).trans hput), ?_⟩
  rw [typed_char hch, if_pos hl]
  refine hi.store he ?_ ?_ hi.fits
  · rwa [List.length_append, List.length_singleton]
  · rw [List.mem_append, List.mem_singleton]
    rintro (h | h)
    · exact hi.line h
    · exact hup h.symm

/-- The last byte of `cmd` is given to a character. -/
theorem LineInv.char_full {t : Typing N} (hi : LineInv t as cur bs) (hch : IsPrint ch)
    (hup : ch ≠ keyUpChar) (hdown : ch ≠ keyDownChar) (hl : ¬ t.line.length + 1 < cmdMaxSize) :
    ∃ t', lineStep malloc cmdExec t ch = some t' ∧ ¬ LineLaw t' := by
  obtain ⟨hput, -⟩ := shellPutc_push hi.editing (Or.inl hch.ne.2.1) hch.ne.2.2
    (Nat.lt_trans hi.fits cmdMaxSize_lt)
  exact ⟨_, lineStep_of_key hch.ne.1 ((shellKey_char hch hup hdown).trans hput),
    fun hlaw => hl hlaw.pcwrite⟩

theorem typed_full (h : IsPrint ch) (hl : l.length + 1 = cmdMaxSize) : typed l ch = l := by
  rw [typed_char h, if_neg (by omega)]

theorem typed_fits (h : IsPrint ch) (hl : l.length < cmdMaxSize) (hne : l.length + 1 ≠ cmdMaxSize) :
    typed l ch = l ++ [ch] := by
  rw [typed_char h, if_pos (by omega)]

theorem isPrint_up : IsPrint keyUpChar := by decide

theorem isPrint_down : IsPrint keyDownChar := by decide

/-- With a full line, the cursor goes up to a line like it. -/
theorem LineInv.up {t t' : Typing N} (hi : LineInv t as cur bs)
    (hl : t.line.length + 1 = cmdMaxSize)
    (hsame : ∀ pnode ∈ t.shell.now.bind t.shell.heap.pre, (t.shell.text pnode).IsString 0 t.line)
    (hstep : lineStep malloc cmdExec t keyUpChar = some t') :
    ∃ as cur bs, LineInv t' as cur bs := by
  have htyped := typed_full isPrint_up hl
  rcases as.eq_nil_or_concat with rfl | ⟨as, e, rfl⟩
  · obtain rfl := Option.some.inj ((lineStep_of_key (by decide)
      (shellKey_up.trans (shellCmdUp_first hi.browsing))).symm.trans hstep)
    rw [htyped]
    exact ⟨[], cur, bs, hi⟩
  · rw [List.concat_eq_append] at hi
    obtain ⟨hup, hb⟩ := shellCmdUp_spec hi.browsing
    obtain ⟨htext, -⟩ := hi.browsing.text e (by simp)
    have hline : e.2 = t.line :=
      htext.unique (hsame _ hi.browsing.now_pre)
    obtain rfl := Option.some.inj
      ((lineStep_of_key (by decide) (shellKey_up.trans hup)).symm.trans hstep)
    rw [htyped]
    refine ⟨as, e, cur :: bs, hb _, ⟨?_, hi.editing.pcread, hi.editing.pcwrite⟩, hi.fits, ?_,
      hi.line, ?_⟩
    · rw [← hline]
      exact (hline ▸ hi.editing.cmd).copy htext rfl
    · intro x hx
      exact hi.history x (by simpa using hx)
    · intro a ha
      rw [← hi.outside a ha]
      exact Bytes.copy_outside (Or.inr (by rw [hline]; omega))

/-- Otherwise the letter is missing, or the line is another one. -/
theorem LineInv.up_wrong {t : Typing N} (hi : LineInv t as cur bs)
    (hn : ¬ (t.line.length + 1 = cmdMaxSize ∧ ∀ pnode ∈ t.shell.now.bind t.shell.heap.pre,
      (t.shell.text pnode).IsString 0 t.line)) :
    ∃ t', lineStep malloc cmdExec t keyUpChar = some t' ∧ ¬ LineLaw t' := by
  have hlen := hi.fits
  rcases as.eq_nil_or_concat with rfl | ⟨as, e, rfl⟩
  · refine ⟨_, lineStep_of_key (by decide) (shellKey_up.trans (shellCmdUp_first hi.browsing)),
      fun hlaw => ?_⟩
    have hfull : t.line.length + 1 ≠ cmdMaxSize := by
      refine fun hfull => hn ⟨hfull, fun pnode hpre => ?_⟩
      rw [hi.browsing.now, Option.bind_some, hi.browsing.first_pre] at hpre
      exact absurd hpre (Option.not_mem_none pnode)
    have heq : typed t.line keyUpChar = t.line := hlaw.cmd.unique (hi.editing.cmd.isString hlen)
    rw [typed_fits isPrint_up hlen hfull] at heq
    exact absurd (congrArg List.length heq) (by simp)
  · rw [List.concat_eq_append] at hi
    obtain ⟨hup, -⟩ := shellCmdUp_spec hi.browsing
    obtain ⟨htext, -⟩ := hi.browsing.text e (by simp)
    refine ⟨_, lineStep_of_key (by decide) (shellKey_up.trans hup), fun hlaw => ?_⟩
    have heq : typed t.line keyUpChar = e.2 := hlaw.cmd.unique htext.copy
    by_cases hfull : t.line.length + 1 = cmdMaxSize
    · rw [typed_full isPrint_up hfull] at heq
      refine hn ⟨hfull, fun pnode hpre => ?_⟩
      obtain rfl := Option.some.inj (hi.browsing.now_pre.symm.trans hpre)
      rw [heq]
      exact htext
    · rw [typed_fits isPrint_up hlen hfull] at heq
      exact hi.history e (by simp) (heq ▸ by simp)

/-- The cursor goes down and `cmd` stays. -/
theorem LineInv.down {t : Typing N} (hi : LineInv t as cur bs) :
    ∃ shell as' cur' bs', lineStep malloc cmdExec t keyDownChar
        = some ⟨shell, typed t.line keyDownChar, t.outside⟩
      ∧ shell.mem = t.shell.mem ∧ LineInv ⟨shell, t.line, t.outside⟩ as' cur' bs' := by
  cases bs with
  | nil =>
      exact ⟨_, as, cur, [], lineStep_of_key (by decide)
        (shellKey_down.trans (shellCmdDown_last hi.browsing)), rfl, hi⟩
  | cons e bs =>
      obtain ⟨hdown, hb⟩ := shellCmdDown_spec hi.browsing
      refine ⟨_, as ++ [cur], e, bs, lineStep_of_key (by decide) (shellKey_down.trans hdown), rfl,
        hb, ⟨hi.editing.cmd, hi.editing.pcread, hi.editing.pcwrite⟩, hi.fits, fun x hx => ?_,
        hi.line, hi.outside⟩
      exact hi.history x (by simpa using hx)

/-! ## Runs -/

theorem LineInv.keep [HasAddr N] {t t' : Typing N} (hi : LineInv t as cur bs) (hch : IsTyped ch)
    (hm : LineMeets t ch) (hstep : lineStep malloc cmdExec t ch = some t') :
    ∃ as cur bs, LineInv t' as cur bs := by
  obtain rfl | rfl | hprint := hch
  · obtain ⟨n, hi'⟩ := hi.enter hstep
    exact ⟨_, _, _, hi'⟩
  · obtain ⟨t₁, h₁, hi'⟩ := hi.back (hm.back rfl)
    obtain rfl := Option.some.inj (h₁.symm.trans hstep)
    exact ⟨_, _, _, hi'⟩
  · rcases eq_or_ne ch keyUpChar with rfl | hup
    · exact hi.up (hm.up rfl).1 (hm.up rfl).2 hstep
    · rcases eq_or_ne ch keyDownChar with rfl | hdown
      · obtain ⟨shell, as', cur', bs', h₁, -, hi'⟩ := hi.down
        obtain rfl := Option.some.inj (h₁.symm.trans hstep)
        rw [typed_full isPrint_down (hm.down rfl)]
        exact ⟨_, _, _, hi'⟩
      · obtain ⟨t₁, h₁, hi'⟩ := hi.char hprint hup hdown (hm.char hprint hup hdown)
        obtain rfl := Option.some.inj (h₁.symm.trans hstep)
        exact ⟨_, _, _, hi'⟩

theorem LineInv.break {t : Typing N} (hi : LineInv t as cur bs) (hch : IsTyped ch)
    (hm : ¬ LineMeets t ch) : ∃ t', lineStep malloc cmdExec t ch = some t' ∧ ¬ LineLaw t' := by
  -- a key meets what its own clause says, and the other clauses are not about it
  obtain rfl | rfl | hprint := hch
  · exact absurd ⟨fun h => absurd h (by decide), fun h => absurd h (by decide),
      fun h => absurd h (by decide), fun h => absurd h (by decide)⟩ hm
  · refine hi.back_start (by_contra fun hl => hm ?_)
    exact ⟨fun _ => hl, fun h => absurd h (by decide), fun h => absurd h (by decide),
      fun h => absurd h (by decide)⟩
  · rcases eq_or_ne ch keyUpChar with rfl | hup
    · refine hi.up_wrong fun hu => hm ?_
      exact ⟨fun h => absurd h (by decide), fun _ => hu, fun h => absurd h (by decide),
        fun _ h => absurd rfl h⟩
    · rcases eq_or_ne ch keyDownChar with rfl | hdown
      · have hne : t.line.length + 1 ≠ cmdMaxSize := fun hl => hm
          ⟨fun h => absurd h (by decide), fun h => absurd h hup, fun _ => hl,
            fun _ _ h => absurd rfl h⟩
        obtain ⟨shell, as', cur', bs', h₁, hmem, hi'⟩ := hi.down
        refine ⟨_, h₁, fun hlaw => ?_⟩
        have heq := hlaw.cmd.unique (hi'.editing.cmd.isString hi'.fits)
        rw [typed_fits isPrint_down hi.fits hne] at heq
        exact absurd (congrArg List.length heq) (by simp)
      · refine hi.char_full hprint hup hdown fun hl => hm ?_
        exact ⟨fun h => absurd h hprint.ne.2.1, fun h => absurd h hup, fun h => absurd h hdown,
          fun _ _ _ => hl⟩

/-- The line is in `cmd` at every point of a run exactly when no key of it
is taken for something else. -/
theorem shellLine_law [HasAddr N] {keys : List (BitVec 8)}
    (hinit : shellInit malloc s₀ getcwd = some s) (hkeys : ∀ ch ∈ keys, IsTyped ch) :
    Throughout (lineStep malloc cmdExec) LineLaw ⟨s, [], s.mem⟩ keys
      ↔ Always (lineStep malloc cmdExec) LineMeets ⟨s, [], s.mem⟩ keys := by
  obtain ⟨n, hb, he⟩ := shellInit_spec hinit
  have hi : LineInv ⟨s, [], s.mem⟩ [] (n, []) [] := by
    refine ⟨hb, he, Nat.zero_lt_succ 63, fun e hmem => ?_, List.not_mem_nil, fun _ _ => rfl⟩
    obtain rfl := List.mem_singleton.mp hmem
    exact List.not_mem_nil
  have hB : Always (lineStep malloc cmdExec) (fun _ ch => True ∧ IsTyped ch) ⟨s, [], s.mem⟩ keys :=
    (always_of_forall fun _ _ => trivial).and_of_forall hkeys
  refine throughout_iff_always (I := fun t => ∃ as cur bs, LineInv t as cur bs) ?_ ?_ ?_
    ⟨_, _, _, hi⟩ hB
  · rintro t ⟨as, cur, bs, hi⟩
    exact hi.law
  · rintro t ch t' ⟨as, cur, bs, hi⟩ ⟨-, hch⟩ hm hstep
    exact hi.keep hch hm hstep
  · rintro t ch ⟨as, cur, bs, hi⟩ ⟨-, hch⟩ hm
    exact hi.break hch hm

/-- `malloc` from four blocks. -/
def fourBlocks : Malloc { a : UInt32 // a ≠ 0 } where
  block used := [⟨0x8000, by decide⟩, ⟨0x8048, by decide⟩, ⟨0x8090, by decide⟩,
    ⟨0x80D8, by decide⟩].find? (· ∉ used)
  fresh used n h := by simpa using List.find?_some h

/-- The memory of a shell before `shell_init`. -/
def blankShell : Shell { a : UInt32 // a ≠ 0 } where
  mem _ := 0
  pcread := 0
  pcwrite := 0
  now := none
  heap := ⟨fun _ => none, fun _ => none, fun _ => none, fun _ => none, fun _ => 0⟩
  text _ _ := 0
  used := []

/-- The shell after `shell_init`, in the directory `/`. -/
def startedShell : Shell { a : UInt32 // a ≠ 0 } :=
  (shellInit fourBlocks blankShell fun a => if a = 0 then 0x2F else 0).get (by decide)

theorem startedShell_eq :
    shellInit fourBlocks blankShell (fun a => if a = 0 then 0x2F else 0) = some startedShell :=
  (Option.some_get _).symm

/-- Commands that change nothing. -/
abbrev idleCmds : CmdExec := fun _ mem _ => some mem

/-- A line with a backspace, then Enter. -/
theorem shellLine_law_pwd : Throughout (lineStep fourBlocks idleCmds) LineLaw
    ⟨startedShell, [], startedShell.mem⟩ [0x70, 0x77, 0x64, 0x64, 0x08, 0x0A] := by
  exact (shellLine_law startedShell_eq (by decide)).mpr (by decide +kernel)

/-- An `H` is not typed. -/
theorem shellLine_letter : ¬ Throughout (lineStep fourBlocks idleCmds) LineLaw
    ⟨startedShell, [], startedShell.mem⟩ [0x48] := by
  intro h
  have hrun : (run (lineStep fourBlocks idleCmds) ⟨startedShell, [], startedShell.mem⟩ [0x48]).map
      (fun t => (t.shell.mem 0, t.line)) = some (0, [0x48]) := by decide +kernel
  obtain ⟨t, ht, heq⟩ := Option.map_eq_some_iff.mp hrun
  obtain ⟨hmem, hline⟩ := Prod.mk.inj heq
  have hcmd := (h _ _ List.prefix_rfl ht).cmd.2 0 (Nat.zero_le _)
  rw [hline, hmem] at hcmd
  exact absurd hcmd (by decide)

end Shell

end Csos
