import Csos.Lib.CString
import Csos.List

/-!
# The command line of the shell (`shell/shell.c` and the loop of `shell/main.c`)

`shell_t` starts with the two buffers `cmd` and `cwd` of 64 bytes each;
they are the bytes 0 to 127 of one memory here, so that a store through
`cmd` may land in `cwd`. A store or a copy that runs over both, into the
cursors behind them, has no result. The history is a list of `list.c`
whose nodes sit in blocks with a copy of the line.

The terminal (`printf`, `tcgetattr`, `tcsetattr`) is left out. What a
command of `cmd_list` does is a parameter: what it leaves in the two
buffers. So is `malloc`, a system call.
-/

namespace Csos

open Lib

/-- The characters of a command line, without the zero at its end. -/
abbrev CmdLine := List (BitVec 8)

/-- `CMD_MAX_SIZE`. -/
abbrev cmdMaxSize : Nat := 64

/-- The bytes of `cmd` and `cwd`. -/
abbrev shellBufs : Nat := 128

theorem cmdMaxSize_lt : cmdMaxSize < shellBufs := by decide

/-! ## `libapp/string.c` -/

/-- The loop of `strcpy`, from the byte `i` on. There is room for some
bytes only; what happens beyond is not followed. -/
def strcpyLoop (src : Bytes) (dst : Nat) : Nat → Nat → Bytes → Option Bytes
  | 0, _, _ => none
  | room + 1, i, m =>
      if src i = 0 then some (m.store8 (dst + i) 0)
      else strcpyLoop src dst room (i + 1) (m.store8 (dst + i) (src i))

def strcpy (m : Bytes) (dst room : Nat) (src : Bytes) : Option Bytes := strcpyLoop src dst room 0 m

/-- `!strcmp(cmd, name)`, for a name without zeros. -/
def strcmpIsZero (m : Bytes) : Nat → CmdLine → Bool
  | a, [] => m a = 0
  | a, c :: cs => m a = c && strcmpIsZero m (a + 1) cs

/-! ## `shell_t` -/

/-- `malloc`: the block it takes besides those in use, if there is one. -/
structure Malloc (N : Type) where
  block : List N → Option N
  fresh : ∀ used n, block used = some n → n ∉ used

/-- `shell_t` with its history. A history block is known by its `node`;
`text` is the `cmd` of each block, and `used` are the blocks in use. -/
structure Shell (N : Type) where
  mem : Bytes
  pcread : Nat
  pcwrite : Nat
  now : Option N
  heap : Heap Unit N
  text : N → Bytes
  used : List N

/-- The names in `cmd_list`: help, clear, echo, pwd, ls, cd, mkdir, rmdir,
exit, arp, ping, ifconfig, nc, lsof and test. -/
def cmdList : List CmdLine := [
  [0x68, 0x65, 0x6C, 0x70], [0x63, 0x6C, 0x65, 0x61, 0x72], [0x65, 0x63, 0x68, 0x6F],
  [0x70, 0x77, 0x64], [0x6C, 0x73], [0x63, 0x64], [0x6D, 0x6B, 0x64, 0x69, 0x72],
  [0x72, 0x6D, 0x64, 0x69, 0x72], [0x65, 0x78, 0x69, 0x74], [0x61, 0x72, 0x70],
  [0x70, 0x69, 0x6E, 0x67], [0x69, 0x66, 0x63, 0x6F, 0x6E, 0x66, 0x69, 0x67], [0x6E, 0x63],
  [0x6C, 0x73, 0x6F, 0x66], [0x74, 0x65, 0x73, 0x74]]

/-- What the `cmd_exec` of a name leaves in the buffers, from what it finds
there and `pcread`; `none` if it does not come back. -/
abbrev CmdExec := CmdLine → Bytes → Nat → Option Bytes

section Functions

variable {N : Type} [DecidableEq N]

def shellNewHistory (malloc : Malloc N) (s : Shell N) (value : Bytes) : Option (Shell N × N) := do
  let node ← malloc.block s.used
  let cmd ← strcpy (s.text node) 0 cmdMaxSize value
  let heap ← listNodeInit s.heap node
  return ({ s with text := Function.update s.text node cmd, heap, used := node :: s.used }, node)

def shellInit (malloc : Malloc N) (s : Shell N) (getcwd : Bytes) : Option (Shell N) := do
  let mem ← strcpy (s.mem.fill 0 0 cmdMaxSize) cmdMaxSize cmdMaxSize getcwd
  let heap ← listInit s.heap ()
  let (s, ncmd) ← shellNewHistory malloc { s with mem, pcread := 0, pcwrite := 0, heap } mem
  let heap ← listInsertBack s.heap () ncmd
  let now ← listGetLast heap ()
  return { s with heap, now }

def shellCmdSave (malloc : Malloc N) (s : Shell N) : Option (Shell N) := do
  let (s, ncmd) ← shellNewHistory malloc s s.mem
  let heap ← listInsertNode s.heap (some ()) (some ncmd) s.now 1
  return { s with heap }

/-- The loop of `shell_get_arg`: `pcread` at the next blank or zero. -/
def shellGetArgLoop (mem : Bytes) : Nat → Nat → Option Nat
  | 0, _ => none
  | n + 1, i => if mem i ≠ 0x20 ∧ mem i ≠ 0 then shellGetArgLoop mem n (i + 1) else some i

/-- The argument starts where `pcread` was. -/
def shellGetArg (s : Shell N) : Option (Shell N × Nat) := do
  let i ← shellGetArgLoop s.mem (shellBufs - s.pcread) s.pcread
  if s.mem i = 0x20 then
    return ({ s with mem := s.mem.store8 i 0, pcread := i + 1 }, s.pcread)
  else return ({ s with pcread := i }, s.pcread)

/-- The loop over `cmd_list` in `shell_exec`. -/
def shellFindCmd (cmdExec : CmdExec) (mem : Bytes) (pcread cmd : Nat) : Option Bytes :=
  match cmdList.find? (strcmpIsZero mem cmd) with
  | some name => cmdExec name mem pcread
  | none => some mem

def shellExec (malloc : Malloc N) (cmdExec : CmdExec) (s : Shell N) : Option (Shell N) := do
  let s ← shellCmdSave malloc s
  let (s, cmd) ← shellGetArg s
  let mem ← shellFindCmd cmdExec s.mem s.pcread cmd
  return { s with mem := mem.fill 0 0 cmdMaxSize, pcread := 0, pcwrite := 0 }

/-- The index is not checked. -/
def shellPutc (s : Shell N) (ch : BitVec 8) : Option (Shell N) :=
  if ch = 0x08 ∧ 0 < s.pcwrite then
    some { s with mem := s.mem.store8 (s.pcwrite - 1) 0, pcwrite := s.pcwrite - 1 }
  else if ch = 0 then some s
  else if s.pcwrite < shellBufs then
    some { s with mem := s.mem.store8 s.pcwrite ch, pcwrite := s.pcwrite + 1 }
  else none

/-- `cmd` is replaced and `pcwrite` is not. -/
def shellCmdUp (s : Shell N) : Option (Shell N) := do
  if ← listIsEmpty s.heap () then
    return s
  else match ← listGetPre s.heap (← s.now) with
    | none => return s
    | some pnode => do
      let mem ← strcpy s.mem 0 shellBufs (s.text pnode)
      return { s with mem, now := some pnode }

/-- The line is printed, and `cmd` is not replaced. -/
def shellCmdDown (s : Shell N) : Option (Shell N) := do
  if ← listIsEmpty s.heap () then
    return s
  else match ← listGetNext s.heap (← s.now) with
    | none => return s
    | some pnode => return { s with now := some pnode }

/-- `KEY_UP` and `KEY_DOWN`, as characters that the loop of `main` reads. -/
abbrev keyUpChar : BitVec 8 := 0x48
abbrev keyDownChar : BitVec 8 := 0x50

/-- One round of the loop in `main`. -/
def shellKey (malloc : Malloc N) (cmdExec : CmdExec) (s : Shell N) (ch : BitVec 8) :
    Option (Shell N) :=
  if ch = 0x0A then shellExec malloc cmdExec s
  else if ch = keyUpChar then shellCmdUp s
  else if ch = keyDownChar then shellCmdDown s
  else shellPutc s ch

end Functions

/-! ## The copy of a line -/

theorem strcpyLoop_eq {src m : Bytes} {l : CmdLine} (h : src.IsString 0 l) (dst : Nat)
    {room i : Nat} (hi : i ≤ l.length) (hroom : l.length < i + room) :
    strcpyLoop src dst room i (m.copy dst src i) = some (m.copy dst src (l.length + 1)) := by
  induction room generalizing i with
  | zero => omega
  | succ room ih =>
      have hsrc : src i = l.getD i 0 := by simpa using h.2 i hi
      rw [strcpyLoop]
      rcases Nat.lt_or_eq_of_le hi with hlt | rfl
      · have hne : src i ≠ 0 := hsrc ▸ Bytes.getD_ne_zero h.1 hlt
        rw [if_neg hne, Bytes.store8_copy, ih hlt (by omega)]
      · have hz : src l.length = 0 := by rw [hsrc, List.getD_eq_default _ _ (Nat.le_refl _)]
        rw [if_pos hz, ← hz, Bytes.store8_copy]

theorem strcpy_eq {src : Bytes} {l : CmdLine} (h : src.IsString 0 l) (m : Bytes) (dst : Nat)
    {room : Nat} (hroom : l.length < room) :
    strcpy m dst room src = some (m.copy dst src (l.length + 1)) := by
  have hloop := strcpyLoop_eq h dst (Nat.zero_le _) (i := 0) (m := m) (by simpa using hroom)
  rwa [Bytes.copy_zero] at hloop

/-- Wherever it comes back, `strcpy` writes in its room only. -/
theorem strcpyLoop_outside {src m m' : Bytes} {dst room i a : Nat}
    (h : strcpyLoop src dst room i m = some m') (ha : a < dst ∨ dst + i + room ≤ a) :
    m' a = m a := by
  induction room generalizing i m with
  | zero => exact absurd h (by simp [strcpyLoop])
  | succ room ih =>
      rw [strcpyLoop] at h
      split at h
      · obtain rfl := Option.some.inj h
        exact Bytes.store8_of_ne (by omega)
      · rw [ih h (by omega)]
        exact Bytes.store8_of_ne (by omega)

/-- A copy that comes back has found the zero in its room. -/
theorem strcpyLoop_zero {src m m' : Bytes} {dst room i : Nat}
    (h : strcpyLoop src dst room i m = some m') : ∃ k, k < i + room ∧ src k = 0 := by
  induction room generalizing i m with
  | zero => exact absurd h (by simp [strcpyLoop])
  | succ room ih =>
      rw [strcpyLoop] at h
      split at h
      · rename_i hz
        exact ⟨i, by omega, hz⟩
      · obtain ⟨k, hk, hz⟩ := ih h
        exact ⟨k, by omega, hz⟩

theorem strcpy_outside {src m m' : Bytes} {dst room a : Nat}
    (h : strcpy m dst room src = some m') (ha : a < dst ∨ dst + room ≤ a) : m' a = m a :=
  strcpyLoop_outside h (by omega)

namespace Shell

variable {N : Type} {s s' : Shell N} {l : CmdLine} {as bs : List (N × CmdLine)}
  {cur e : N × CmdLine} {malloc : Malloc N} {cmdExec : CmdExec}

/-! ## The history and the line -/

/-- The history holds the lines of `as`, `cur` and `bs`, oldest first, and
`now` points to the node of `cur`. -/
structure Browsing (s : Shell N) (as : List (N × CmdLine)) (cur : N × CmdLine)
    (bs : List (N × CmdLine)) : Prop where
  rep : s.heap.Rep () ((as ++ cur :: bs).map Prod.fst)
  now : s.now = some cur.1
  text : ∀ e ∈ as ++ cur :: bs, (s.text e.1).IsString 0 e.2 ∧ e.2.length < cmdMaxSize
  used : ∀ e ∈ as ++ cur :: bs, e.1 ∈ s.used

/-- `cmd` holds the line `l` and zeros, and `pcwrite` is at the end of `l`.
The line may be longer than `cmd`. -/
structure Editing (s : Shell N) (l : CmdLine) : Prop where
  cmd : s.mem.Shows 0 cmdMaxSize l
  pcread : s.pcread = 0
  pcwrite : s.pcwrite = l.length

/-- Another shell with the same history. -/
theorem Browsing.congr (h : s.Browsing as cur bs) (hheap : s'.heap = s.heap)
    (hnow : s'.now = s.now) (htext : s'.text = s.text) (hused : s'.used = s.used) :
    s'.Browsing as cur bs :=
  ⟨hheap ▸ h.rep, hnow ▸ h.now, htext ▸ h.text, hused ▸ h.used⟩

/-! ## One lemma for each function -/

/-- A line that fits its block is saved as it is, in a block of its own. -/
theorem shellNewHistory_spec [DecidableEq N] {node : N} {value : Bytes} (h : value.IsString 0 l)
    (hl : l.length < cmdMaxSize) (hstep : shellNewHistory malloc s value = some (s', node)) :
    ∃ heap cmd, s' = { s with text := Function.update s.text node cmd, heap, used := node :: s.used }
      ∧ cmd.IsString 0 l ∧ node ∉ s.used
      ∧ ∀ ns, s.heap.Rep () ns → node ∉ ns → heap.Rep () ns := by
  rw [shellNewHistory] at hstep
  obtain ⟨n, hn, hstep⟩ := Option.bind_eq_some_iff.mp hstep
  obtain ⟨heap, hheap, -, -, hkeep⟩ := Heap.listNodeInit_spec s.heap n
  rw [strcpy_eq h _ _ hl, hheap] at hstep
  obtain ⟨rfl, rfl⟩ := Prod.mk.inj (Option.some.inj hstep)
  exact ⟨heap, _, rfl, h.copy, malloc.fresh _ _ hn, hkeep ()⟩

/-- The shell starts with an empty line, which is all of the history. -/
theorem shellInit_spec [DecidableEq N] [HasAddr N] {getcwd : Bytes}
    (hstep : shellInit malloc s getcwd = some s') :
    ∃ n, s'.Browsing [] (n, []) [] ∧ s'.Editing [] := by
  rw [shellInit] at hstep
  obtain ⟨mem, hmem, hstep⟩ := Option.bind_eq_some_iff.mp hstep
  have hcmd : mem.Shows 0 cmdMaxSize [] :=
    (Bytes.shows_fill (m := s.mem)).congr fun i hi =>
      strcpy_outside hmem (Or.inl (by omega))
  obtain ⟨heap₀, hinit, hrep₀, -⟩ := Heap.listInit_spec s.heap ()
  obtain ⟨heap₁, hheap₁, hstep⟩ := Option.bind_eq_some_iff.mp hstep
  obtain rfl := Option.some.inj (hinit.symm.trans hheap₁)
  obtain ⟨⟨s₁, n⟩, hnew, hstep⟩ := Option.bind_eq_some_iff.mp hstep
  obtain ⟨heap₂, cmd, rfl, htext, -, hkeep⟩ :=
    shellNewHistory_spec (hcmd.isString (by decide)) (by decide) hnew
  obtain ⟨heap₃, hins, hrep₃, -⟩ :=
    Heap.listInsertBack_spec (hkeep [] hrep₀ List.not_mem_nil) List.not_mem_nil
  obtain ⟨heap₄, hheap₄, hstep⟩ := Option.bind_eq_some_iff.mp hstep
  obtain rfl := Option.some.inj (hins.symm.trans hheap₄)
  obtain ⟨now, hnow, hstep⟩ := Option.bind_eq_some_iff.mp hstep
  obtain rfl := Option.some.inj hstep
  obtain rfl := Option.some.inj hnow
  refine ⟨n, ⟨hrep₃, hrep₃.tail_eq, ?_, ?_⟩, hcmd, rfl, rfl⟩
  · intro e he
    obtain rfl := List.mem_singleton.mp he
    exact ⟨by simpa using htext, Nat.zero_lt_succ 63⟩
  · intro e he
    obtain rfl := List.mem_singleton.mp he
    exact List.mem_cons_self

/-- The line is put into the history in front of the one that is browsed. -/
theorem shellCmdSave_spec [DecidableEq N] [HasAddr N] (hb : s.Browsing as cur bs)
    (he : s.Editing l) (hl : l.length < cmdMaxSize) (hstep : shellCmdSave malloc s = some s') :
    ∃ n, s'.Browsing (as ++ [(n, l)]) cur bs ∧ s'.Editing l ∧ s'.mem = s.mem := by
  rw [shellCmdSave] at hstep
  obtain ⟨⟨s₁, n⟩, hnew, hstep⟩ := Option.bind_eq_some_iff.mp hstep
  obtain ⟨heap, cmd, rfl, hcmd, hfresh, hkeep⟩ :=
    shellNewHistory_spec (he.cmd.isString hl) hl hnew
  -- the block is not one of the history's
  have hne : ∀ e ∈ as ++ cur :: bs, e.1 ≠ n := fun e he hen => hfresh (hen ▸ hb.used e he)
  have hnot : n ∉ (as ++ cur :: bs).map Prod.fst := by
    intro hmem
    obtain ⟨e, he, hen⟩ := List.mem_map.mp hmem
    exact hne e he hen
  have hrep := hkeep _ hb.rep hnot
  rw [List.map_append, List.map_cons] at hrep hnot
  obtain ⟨heap', hins, hrep', -⟩ := Heap.listInsertNode_before_spec hrep hnot
  rw [← hb.now] at hins
  obtain ⟨heap₂, hins₂, hstep⟩ := Option.bind_eq_some_iff.mp hstep
  obtain rfl := Option.some.inj (hins.symm.trans hins₂)
  obtain rfl := Option.some.inj hstep
  have hsplit : ∀ e ∈ (as ++ [(n, l)]) ++ cur :: bs, e = (n, l) ∨ e ∈ as ++ cur :: bs := by
    intro e he
    simp only [List.append_assoc, List.mem_append, List.mem_singleton] at he ⊢
    tauto
  refine ⟨n, ⟨by simpa using hrep', hb.now, ?_, ?_⟩, ⟨he.cmd, he.pcread, he.pcwrite⟩, rfl⟩
  · intro e hmem
    obtain rfl | hold := hsplit e hmem
    · exact ⟨by simpa using hcmd, hl⟩
    · have htext : Function.update s.text n cmd e.1 = s.text e.1 :=
        Function.update_of_ne (hne e hold) ..
      refine ⟨?_, (hb.text e hold).2⟩
      change (Function.update s.text n cmd e.1).IsString 0 e.2
      rw [htext]
      exact (hb.text e hold).1
  · intro e hmem
    obtain rfl | hold := hsplit e hmem
    · exact List.mem_cons_self
    · exact List.mem_cons_of_mem n (hb.used e hold)

theorem shellGetArgLoop_le {mem : Bytes} {n i k a : Nat} (h : shellGetArgLoop mem n i = some k)
    (ha : mem a = 0) (hi : i ≤ a) : i ≤ k ∧ k ≤ a := by
  induction n generalizing i with
  | zero => exact absurd h (by simp [shellGetArgLoop])
  | succ n ih =>
      rw [shellGetArgLoop] at h
      split at h
      · rename_i hchar
        have hne : i ≠ a := fun hia => hchar.2 (hia ▸ ha)
        have hk := ih h (by omega)
        omega
      · obtain rfl := Option.some.inj h
        exact ⟨Nat.le_refl _, hi⟩

/-- The first word is cut off inside `cmd`. -/
theorem shellGetArg_spec {cmd : Nat} (he : s.Editing l) (hl : l.length < cmdMaxSize)
    (hstep : shellGetArg s = some (s', cmd)) :
    ∃ mem pcread, s' = { s with mem, pcread } ∧ ∀ a, cmdMaxSize ≤ a → mem a = s.mem a := by
  have hnul : s.mem l.length = 0 := by simpa using (he.cmd.isString hl).nul
  rw [shellGetArg] at hstep
  obtain ⟨i, hi, hstep⟩ := Option.bind_eq_some_iff.mp hstep
  have hle := shellGetArgLoop_le hi hnul (by rw [he.pcread]; exact Nat.zero_le _)
  split at hstep
  · obtain ⟨rfl, -⟩ := Prod.mk.inj (Option.some.inj hstep)
    exact ⟨_, _, rfl, fun a ha => Bytes.store8_of_ne (by omega)⟩
  · obtain ⟨rfl, -⟩ := Prod.mk.inj (Option.some.inj hstep)
    exact ⟨_, _, rfl, fun _ _ => rfl⟩

/-- A line is only saved if it fits its block. -/
theorem shellExec_fits [DecidableEq N] (he : s.Editing l)
    (hstep : shellExec malloc cmdExec s = some s') : l.length < cmdMaxSize := by
  rw [shellExec, shellCmdSave, shellNewHistory] at hstep
  obtain ⟨s₁, hsave, -⟩ := Option.bind_eq_some_iff.mp hstep
  obtain ⟨r, hnew, -⟩ := Option.bind_eq_some_iff.mp hsave
  obtain ⟨n, -, hnew⟩ := Option.bind_eq_some_iff.mp hnew
  obtain ⟨cmd, hcopy, -⟩ := Option.bind_eq_some_iff.mp hnew
  obtain ⟨k, hk, hz⟩ := strcpyLoop_zero hcopy
  rw [Nat.zero_add] at hk
  have hshow := he.cmd.2 k hk
  rw [Nat.zero_add, hz] at hshow
  by_contra hlt
  exact Bytes.getD_ne_zero he.cmd.1 (by omega) hshow.symm

/-- Enter: the line is in the history, in front of the one that is browsed,
and `cmd` is empty. -/
theorem shellExec_spec [DecidableEq N] [HasAddr N] (hb : s.Browsing as cur bs)
    (he : s.Editing l) (hl : l.length < cmdMaxSize)
    (hstep : shellExec malloc cmdExec s = some s') :
    ∃ n, s'.Browsing (as ++ [(n, l)]) cur bs ∧ s'.Editing [] := by
  rw [shellExec] at hstep
  obtain ⟨s₁, hsave, hstep⟩ := Option.bind_eq_some_iff.mp hstep
  obtain ⟨n, hb₁, he₁, -⟩ := shellCmdSave_spec hb he hl hsave
  obtain ⟨⟨s₂, cmd⟩, harg, hstep⟩ := Option.bind_eq_some_iff.mp hstep
  obtain ⟨mem, pcread, rfl, -⟩ := shellGetArg_spec he₁ hl harg
  obtain ⟨mem', -, hstep⟩ := Option.bind_eq_some_iff.mp hstep
  obtain rfl := Option.some.inj hstep
  exact ⟨n, hb₁.congr rfl rfl rfl rfl, Bytes.shows_fill, rfl, rfl⟩

theorem Editing.not_back {ch : BitVec 8} (he : s.Editing l) (hch : ch ≠ 0x08 ∨ l = []) :
    ¬ (ch = 0x08 ∧ 0 < s.pcwrite) := by
  rintro ⟨rfl, hpos⟩
  obtain h8 | rfl := hch
  · exact h8 rfl
  · exact absurd hpos (by simp [he.pcwrite])

/-- A character that is no backspace behind the start is appended. -/
theorem shellPutc_push {ch : BitVec 8} (he : s.Editing l) (hch : ch ≠ 0x08 ∨ l = [])
    (h0 : ch ≠ 0) (hl : l.length < shellBufs) :
    shellPutc s ch
        = some { s with mem := s.mem.store8 l.length ch, pcwrite := l.length + 1 }
      ∧ { s with mem := s.mem.store8 l.length ch, pcwrite := l.length + 1 }.Editing (l ++ [ch]) := by
  have hroom : s.pcwrite < shellBufs := he.pcwrite ▸ hl
  constructor
  · rw [shellPutc, if_neg (he.not_back hch), if_neg h0, if_pos hroom, he.pcwrite]
  · exact ⟨by simpa using he.cmd.push h0, he.pcread, by simp⟩

/-- A backspace behind the start deletes the last character. -/
theorem shellPutc_pop (he : s.Editing l) (hl : l ≠ []) :
    shellPutc s 0x08
        = some { s with mem := s.mem.store8 (l.length - 1) 0, pcwrite := l.length - 1 }
      ∧ { s with mem := s.mem.store8 (l.length - 1) 0, pcwrite := l.length - 1 }.Editing
        l.dropLast := by
  have hpos : 0 < s.pcwrite := by
    rw [he.pcwrite]
    exact List.length_pos_of_ne_nil hl
  constructor
  · rw [shellPutc, if_pos ⟨rfl, hpos⟩, he.pcwrite]
  · exact ⟨by simpa using he.cmd.pop, he.pcread, by simp⟩

/-- A character only changes the line. -/
theorem shellPutc_spec {ch : BitVec 8} (he : s.Editing l) (hstep : shellPutc s ch = some s') :
    ∃ mem pcwrite l', s' = { s with mem, pcwrite } ∧ s'.Editing l' := by
  rcases eq_or_ne ch 0 with rfl | h0
  · obtain rfl := Option.some.inj hstep
    exact ⟨s.mem, s.pcwrite, l, rfl, he⟩
  · by_cases hback : ch = 0x08 ∧ l ≠ []
    · obtain ⟨rfl, hl⟩ := hback
      obtain ⟨hput, he'⟩ := shellPutc_pop he hl
      obtain rfl := Option.some.inj (hput.symm.trans hstep)
      exact ⟨_, _, _, rfl, he'⟩
    · have hch : ch ≠ 0x08 ∨ l = [] := by tauto
      have hl : l.length < shellBufs := by
        by_contra hge
        rw [← he.pcwrite] at hge
        rw [shellPutc, if_neg (he.not_back hch), if_neg h0, if_neg hge] at hstep
        exact absurd hstep (by simp)
      obtain ⟨hput, he'⟩ := shellPutc_push he hch h0 hl
      obtain rfl := Option.some.inj (hput.symm.trans hstep)
      exact ⟨_, _, _, rfl, he'⟩

/-- The history is never empty. -/
theorem Browsing.notEmpty [DecidableEq N] (hb : s.Browsing as cur bs) :
    listIsEmpty s.heap () = some false := by
  rw [Heap.listIsEmpty_eq hb.rep]
  simp

theorem Browsing.pre_eq (hb : s.Browsing (as ++ [e]) cur bs) : s.heap.pre cur.1 = some e.1 := by
  have hrep := hb.rep
  rw [List.map_append, List.map_cons] at hrep
  rw [hrep.pre_eq, List.map_append, List.map_singleton, List.getLast?_concat]

theorem Browsing.now_pre (hb : s.Browsing (as ++ [e]) cur bs) :
    s.now.bind s.heap.pre = some e.1 := by
  rw [hb.now, Option.bind_some, hb.pre_eq]

theorem Browsing.next_eq (hb : s.Browsing as cur (e :: bs)) : s.heap.next cur.1 = some e.1 := by
  have hrep := hb.rep
  rw [List.map_append, List.map_cons] at hrep
  exact hrep.next_eq

theorem Browsing.first_pre (hb : s.Browsing [] cur bs) : s.heap.pre cur.1 = none := by
  have hrep : s.heap.Rep () ([] ++ cur.1 :: bs.map Prod.fst) := hb.rep
  exact hrep.pre_eq

theorem Browsing.now_next (hb : s.Browsing as cur (e :: bs)) :
    s.now.bind s.heap.next = some e.1 := by
  rw [hb.now, Option.bind_some, hb.next_eq]

theorem Browsing.last_next (hb : s.Browsing as cur []) : s.heap.next cur.1 = none := by
  have hrep := hb.rep
  rw [List.map_append, List.map_cons] at hrep
  exact hrep.next_eq

theorem shellCmdUp_first [DecidableEq N] (hb : s.Browsing [] cur bs) :
    shellCmdUp s = some s := by
  have hpre : listGetPre s.heap cur.1 = some none := congrArg some hb.first_pre
  rw [shellCmdUp, hb.notEmpty, hb.now]
  simp only [Option.bind_eq_bind, Option.bind_some, hpre]
  rfl

/-- Up: the line in front is copied over `cmd`, and `pcwrite` stays. -/
theorem shellCmdUp_spec [DecidableEq N] (hb : s.Browsing (as ++ [e]) cur bs) :
    shellCmdUp s = some { s with mem := s.mem.copy 0 (s.text e.1) (e.2.length + 1), now := some e.1 }
      ∧ ∀ mem, { s with mem, now := some e.1 }.Browsing as e (cur :: bs) := by
  have hsplit : as ++ [e] ++ cur :: bs = as ++ e :: cur :: bs := by simp
  have hpre : listGetPre s.heap cur.1 = some (some e.1) := congrArg some hb.pre_eq
  obtain ⟨htext, hlen⟩ := hb.text e (by simp)
  constructor
  · have hcopy : strcpy s.mem 0 shellBufs (s.text e.1)
        = some (s.mem.copy 0 (s.text e.1) (e.2.length + 1)) := 
      strcpy_eq htext _ _ (Nat.lt_trans hlen cmdMaxSize_lt)
    rw [shellCmdUp, hb.notEmpty, hb.now]
    simp only [Option.bind_eq_bind, Option.bind_some, hpre, hcopy]
    rfl
  · exact fun mem => ⟨hsplit ▸ hb.rep, rfl, hsplit ▸ hb.text, hsplit ▸ hb.used⟩

theorem shellCmdDown_last [DecidableEq N] (hb : s.Browsing as cur []) :
    shellCmdDown s = some s := by
  have hnext : listGetNext s.heap cur.1 = some none := congrArg some hb.last_next
  rw [shellCmdDown, hb.notEmpty, hb.now]
  simp only [Option.bind_eq_bind, Option.bind_some, hnext]
  rfl

/-- Down: only `now` moves. -/
theorem shellCmdDown_spec [DecidableEq N] (hb : s.Browsing as cur (e :: bs)) :
    shellCmdDown s = some { s with now := some e.1 }
      ∧ { s with now := some e.1 }.Browsing (as ++ [cur]) e bs := by
  have hsplit : as ++ cur :: e :: bs = as ++ [cur] ++ e :: bs := by simp
  have hnext : listGetNext s.heap cur.1 = some (some e.1) := congrArg some hb.next_eq
  constructor
  · rw [shellCmdDown, hb.notEmpty, hb.now]
    simp only [Option.bind_eq_bind, Option.bind_some, hnext]
    rfl
  · exact ⟨hsplit ▸ hb.rep, rfl, hsplit ▸ hb.text, hsplit ▸ hb.used⟩

end Shell

end Csos
