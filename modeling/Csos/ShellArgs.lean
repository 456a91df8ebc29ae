import Csos.Lib.Lines
import Csos.Shell

/-!
# The arguments of a command (`shell_get_arg`)

The line is cut in place: a call puts a zero over the blank behind the field
that it returns. So the fields of the line, split at single blanks, come one
after the other, and stay where they are.
-/

namespace Csos

open Lib Lib.Bytes

section Args

variable {N : Type} {s : Shell N} {mem : Bytes} {cur f rest : CmdLine}
  {fields : List CmdLine} {n : Nat}

/-- `n` calls of `shell_get_arg`, and what they return. -/
def shellGetArgs (s : Shell N) : Nat → Option (Shell N × List Nat)
  | 0 => some (s, [])
  | n + 1 => do
      let (s, ps) ← shellGetArgs s n
      let (s, p) ← shellGetArg s
      return (s, ps ++ [p])

/-! ## One call -/

theorem shellGetArgLoop_eq {i k : Nat} (hk : k < n)
    (hbefore : ∀ j < k, mem (i + j) ≠ 0x20 ∧ mem (i + j) ≠ 0)
    (hstop : mem (i + k) = 0x20 ∨ mem (i + k) = 0) : shellGetArgLoop mem n i = some (i + k) := by
  induction k generalizing n i with
  | zero =>
      obtain ⟨n, rfl⟩ := Nat.exists_eq_succ_of_ne_zero (Nat.ne_of_gt hk)
      refine if_neg ?_
      rintro ⟨hblank, hzero⟩
      exact hstop.elim hblank hzero
  | succ k ih =>
      obtain ⟨n, rfl⟩ := Nat.exists_eq_succ_of_ne_zero (Nat.ne_of_gt (Nat.zero_lt_of_lt hk))
      have hmove : ∀ j, i + 1 + j = i + (j + 1) := by omega
      have hrest := ih (i := i + 1) (Nat.lt_of_succ_lt_succ hk)
        (fun j hj => by
          rw [hmove]
          exact hbefore (j + 1) (by omega))
        (by rwa [hmove])
      have hfirst := hbefore 0 (Nat.zero_lt_succ k)
      rw [Nat.add_zero] at hfirst
      rw [shellGetArgLoop, if_pos hfirst, hrest, hmove]

/-- The loop stops behind the characters that are no blanks. -/
theorem shellGetArgLoop_field (h : IsString mem n (f ++ rest)) (hf : 0x20 ∉ f)
    (hroom : n + f.length < shellBufs)
    (hstop : mem (n + f.length) = 0x20 ∨ mem (n + f.length) = 0) :
    shellGetArgLoop mem (shellBufs - n) n = some (n + f.length) := by
  refine shellGetArgLoop_eq (by omega) (fun j hj => ?_) hstop
  have hlen : (f ++ rest).length = f.length + rest.length := List.length_append
  have hchar : mem (n + j) = f[j] := by
    rw [h.2 j (by omega), List.getD_append _ _ _ _ hj, List.getD_eq_getElem f 0 hj]
  rw [hchar]
  refine ⟨fun hblank => hf (hblank ▸ List.getElem_mem hj), fun hzero => h.1 ?_⟩
  rw [← hzero]
  exact List.mem_append_left rest (List.getElem_mem hj)

/-- `cur` begins with the field `f`, and `rest` is left behind it. -/
def FirstField (cur f rest : CmdLine) : Prop :=
  cur.splitOn 0x20 = f :: rest.splitOn 0x20 ∨ cur.splitOn 0x20 = [f] ∧ rest = []

/-- A call takes the first field of what is left of the line, and writes
neither before it nor over a zero. -/
theorem shellGetArg_field (h : IsString s.mem s.pcread cur)
    (hroom : s.pcread + cur.length < shellBufs) :
    ∃ s' f rest, shellGetArg s = some (s', s.pcread) ∧ FirstField cur f rest
      ∧ IsString s'.mem s.pcread f ∧ s.pcread + f.length ≤ s'.pcread
      ∧ IsString s'.mem s'.pcread rest ∧ s'.pcread + rest.length = s.pcread + cur.length
      ∧ ∀ a, a < s.pcread ∨ s.mem a = 0 → s'.mem a = s.mem a := by
  by_cases hblank : (0x20 : BitVec 8) ∈ cur
  · obtain ⟨f, rest, rfl, hf⟩ := List.eq_append_cons_of_mem hblank
    obtain ⟨hat, -, hrest⟩ := isString_cons.mp h.of_append
    rw [List.length_append, List.length_cons] at hroom
    have hloop := shellGetArgLoop_field h hf (by omega) (Or.inl hat)
    have hkept : ∀ a, a ≠ s.pcread + f.length →
        s.mem.store8 (s.pcread + f.length) 0 a = s.mem a := fun a ha => store8_of_ne ha
    let mem := s.mem.store8 (s.pcread + f.length) 0
    refine ⟨{ s with mem, pcread := s.pcread + f.length + 1 }, f, rest, ?_, 
      Or.inl (List.splitOn_append_cons_self_of_not_mem hf _), ?_, ?_, ?_, ?_, ?_⟩
    · rw [shellGetArg, hloop, Option.bind_eq_bind, Option.bind_some, if_pos hat]
      rfl
    · exact h.cut (fun i hi => hkept _ (by omega)) store8_self
    · exact Nat.le_succ _
    · exact hrest.congr fun i _ => hkept _ (by omega)
    · rw [List.length_append, List.length_cons]
      dsimp only
      omega
    · rintro a (hlt | hzero)
      · exact hkept a (by omega)
      · refine hkept a fun ha => ?_
        rw [ha, hat] at hzero
        exact absurd hzero (by decide)
  · have hall : IsString s.mem s.pcread (cur ++ []) := by rwa [List.append_nil]
    have hloop := shellGetArgLoop_field hall hblank hroom (Or.inr h.nul)
    have hne : s.mem (s.pcread + cur.length) ≠ 0x20 := by
      rw [h.nul]
      decide
    refine ⟨{ s with pcread := s.pcread + cur.length }, cur, [], ?_,
      Or.inr ⟨List.splitOn_eq_singleton hblank, rfl⟩, h, Nat.le_refl _, isString_nil.mpr h.nul, rfl,
      fun _ _ => rfl⟩
    rw [shellGetArg, hloop, Option.bind_eq_bind, Option.bind_some, if_neg hne]
    rfl

/-! ## All calls -/

/-- The field that the next call of `n` calls returns is the first of `cur`. -/
def Remains (fields : List CmdLine) (n : Nat) (cur : CmdLine) : Prop :=
  fields.drop n = cur.splitOn 0x20 ∨ fields.length ≤ n ∧ cur = []

theorem Remains.next (h : Remains fields n cur) (hcur : FirstField cur f rest) :
    fields.getD n [] = f ∧ Remains fields (n + 1) rest := by
  rcases h with h | ⟨hlen, rfl⟩
  · have hget : ∀ fs, fields.drop n = f :: fs → fields.getD n [] = f := by
      intro fs hfs
      have hfirst := congrArg (fun l => l.getD 0 []) hfs
      rwa [List.getD_eq_getElem?_getD, List.getElem?_drop, ← List.getD_eq_getElem?_getD] at hfirst
    rcases hcur with hcur | ⟨hcur, rfl⟩
    · rw [hcur] at h
      refine ⟨hget _ h, Or.inl ?_⟩
      rw [← List.drop_drop, h]
      rfl
    · rw [hcur] at h
      refine ⟨hget _ h, Or.inr ⟨?_, rfl⟩⟩
      have hlen := congrArg List.length h
      rw [List.length_drop, List.length_singleton] at hlen
      omega
  · -- nothing is left, and nothing comes
    rw [FirstField, List.splitOn_nil] at hcur
    have hlen' : fields.length ≤ n + 1 := Nat.le_succ_of_le hlen
    rcases hcur with hcur | ⟨hcur, rfl⟩
    · exact absurd (List.cons.inj hcur).2.symm (List.splitOn_ne_nil _ _)
    · exact ⟨(List.getD_eq_default _ _ hlen).trans (List.cons.inj hcur).1, Or.inr ⟨hlen', rfl⟩⟩

/-- After `n` calls: the pointers `ps` were returned, and each has its field
of the line there still. -/
structure ArgsRead (line : CmdLine) (n : Nat) (s : Shell N) (ps : List Nat) : Prop where
  length : ps.length = n
  fields : ∀ k < n, IsString s.mem (ps.getD k 0) ((line.splitOn 0x20).getD k [])
  pcread : s.pcread ≤ line.length

/-- What the next calls rest on. -/
structure ArgsInv (line : CmdLine) (n : Nat) (s : Shell N) (ps : List Nat) (cur : CmdLine) : Prop
    extends ArgsRead line n s ps where
  below : ∀ k < n, ps.getD k 0 + ((line.splitOn 0x20).getD k []).length ≤ s.pcread
  rest : IsString s.mem s.pcread cur
  end_ : s.pcread + cur.length = line.length
  remains : Remains (line.splitOn 0x20) n cur

theorem ArgsInv.next {line : CmdLine} {ps : List Nat} (h : ArgsInv line n s ps cur)
    (hline : line.length < shellBufs) : ∃ s' cur', shellGetArg s = some (s', s.pcread)
      ∧ ArgsInv line (n + 1) s' (ps ++ [s.pcread]) cur' ∧ s.pcread ≤ s'.pcread := by
  obtain ⟨s', f, cur', hget, hbegins, hf, hle, hrest, hend, hkept⟩ :=
    shellGetArg_field h.rest (by rw [h.end_]; exact hline)
  obtain ⟨hfield, hremains⟩ := h.remains.next hbegins
  have hpast : s.pcread ≤ s'.pcread := Nat.le_trans (Nat.le_add_right _ _) hle
  have hline' := h.end_
  have hlength := h.length
  refine ⟨s', cur', hget, ⟨⟨?_, fun k hk => ?_, by omega⟩, fun k hk => ?_, hrest, by omega,
    hremains⟩, hpast⟩
  · rw [List.length_append, List.length_singleton, hlength]
  · rw [getD_concat, hlength]
    by_cases hkn : k = n
    · rw [if_pos hkn, hkn, hfield]
      exact hf
    · have hk' : k < n := by omega
      have hbelow := h.below k hk'
      rw [if_neg hkn]
      refine (h.fields k hk').congr fun i hi => hkept _ ?_
      rcases Nat.lt_or_eq_of_le hi with hlt | heq
      · exact Or.inl (by omega)
      · rw [heq]
        exact Or.inr (h.fields k hk').nul
  · rw [getD_concat, hlength]
    by_cases hkn : k = n
    · rw [if_pos hkn, hkn, hfield]
      exact hle
    · have hbelow := h.below k (by omega)
      rw [if_neg hkn]
      omega

theorem argsInv_shellGetArgs {line : CmdLine} (h : IsString s.mem 0 line)
    (hlen : line.length ≤ cmdMaxSize - 1) (hpc : s.pcread = 0) (n : Nat) :
    ∃ s' ps cur, shellGetArgs s n = some (s', ps) ∧ ArgsInv line n s' ps cur := by
  have hline : line.length < shellBufs := Nat.lt_of_le_of_lt hlen (by decide)
  induction n with
  | zero =>
      refine ⟨s, [], line, rfl, ⟨rfl, nofun, by omega⟩, nofun, by rwa [hpc], by omega, Or.inl rfl⟩
  | succ n ih =>
      obtain ⟨s₁, ps, cur, hargs, hinv⟩ := ih
      obtain ⟨s', cur', hget, hinv', -⟩ := hinv.next hline
      refine ⟨s', ps ++ [s₁.pcread], cur', ?_, hinv'⟩
      simp only [shellGetArgs, hargs, hget, Option.bind_eq_bind, Option.bind_some]
      rfl

/-- For every line that `cmd` holds and every number of calls: the calls
return the fields of the line in their order and then empty strings, all of
them stay where they are, and `pcread` only goes forward and not past the
zero at the end of the line. -/
theorem shellGetArgs_fields {line : CmdLine} (h : IsString s.mem 0 line)
    (hlen : line.length ≤ cmdMaxSize - 1) (hpc : s.pcread = 0) (n : Nat) :
    ∃ s' ps, shellGetArgs s n = some (s', ps) ∧ ArgsRead line n s' ps
      ∧ ∃ s'' p, shellGetArg s' = some (s'', p) ∧ s'.pcread ≤ s''.pcread := by
  have hline : line.length < shellBufs := Nat.lt_of_le_of_lt hlen (by decide)
  obtain ⟨s', ps, cur, hargs, hinv⟩ := argsInv_shellGetArgs h hlen hpc n
  obtain ⟨s'', cur', hget, -, hle⟩ := hinv.next hline
  exact ⟨s', ps, hargs, hinv.toArgsRead, s'', _, hget, hle⟩

/-- A shell that has `line` in `cmd`. -/
def shellOf (line : CmdLine) : Shell Unit where
  mem i := line.getD i 0
  pcread := 0
  pcwrite := line.length
  now := none
  heap := ⟨fun _ => none, fun _ => none, fun _ => none, fun _ => none, fun _ => 0⟩
  text _ _ := 0
  used := []

/-- Two letters with two blanks between them, and a call too many. -/
theorem shellGetArgs_fields_four : ∃ s' ps,
    shellGetArgs (shellOf [0x61, 0x20, 0x20, 0x62]) 4 = some (s', ps)
    ∧ ArgsRead [0x61, 0x20, 0x20, 0x62] 4 s' ps
    ∧ ∃ s'' p, shellGetArg s' = some (s'', p) ∧ s'.pcread ≤ s''.pcread :=
  shellGetArgs_fields (by decide) (by decide) rfl 4

end Args

end Csos
