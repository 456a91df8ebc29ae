import Csos.TtyText
import Mathlib.Data.List.Induction

/-!
# Output and the state of the keyboard

`tty_write_char` takes the codes of the cursor keys for keys whenever
`can_echo` is off, and these codes are also the characters `H`, `P`, `K` and
`M`. What a program writes then depends on what the keyboard did before: a
text comes out alike under two states of the cursor flags exactly when each
of its characters does.
-/

namespace Csos

open Lib

/-- Two states of the keyboard under which the character `c` is one and the
same thing. -/
structure SameKey (f g : CursorCtrl) (c : UInt8) : Prop where
  echo : TtyScreen.IsKey c → f.canEcho = g.canEcho
  left : c = keyLeft → f.canEcho = false → f.canLeft = g.canLeft
  right : c = keyRight → f.canEcho = false → f.canRight = g.canRight

/-- What is no code of a key is the same under all of them. -/
theorem sameKey_of_not_isKey {f g : CursorCtrl} {c : UInt8} (h : ¬ TtyScreen.IsKey c) :
    SameKey f g c where
  echo hc := absurd hc h
  left hc := absurd (Or.inr (Or.inr (Or.inl hc))) h
  right hc := absurd (Or.inr (Or.inr (Or.inr hc))) h

namespace TtyScreen

variable {s : TtyScreen} {f g : CursorCtrl} {c : UInt8}

/-- What there is to be seen: the video memory and the cursor. -/
def look (s : TtyScreen) : (Int → TtyChar) × Int × Int := (s.cells, s.term.cr, s.term.cc)

/-! ## Alike -/

/-- What a key that is not echoed does instead. -/
theorem ttyWriteChar_keyLeft (s : TtyScreen) (h : f.canEcho = false) :
    s.ttyWriteChar f keyLeft = { s with term := s.term.comLeft f } :=
  if_pos ⟨rfl, by rw [h]; rfl⟩

theorem ttyWriteChar_keyRight (s : TtyScreen) (h : f.canEcho = false) :
    s.ttyWriteChar f keyRight = { s with term := s.term.comRight f } :=
  (if_neg fun hleft => absurd hleft.1 (by decide)).trans (if_pos ⟨rfl, by rw [h]; rfl⟩)

theorem ttyWriteChar_still (s : TtyScreen) (h : f.canEcho = false) (hc : c = keyUp ∨ c = keyDown) :
    s.ttyWriteChar f c = s := by
  have hleft : c ≠ keyLeft := by rcases hc with rfl | rfl <;> decide
  have hright : c ≠ keyRight := by rcases hc with rfl | rfl <;> decide
  rw [ttyWriteChar, if_neg fun hl => hleft hl.1, if_neg fun hr => hright hr.1,
    if_pos ⟨hc, by rw [h]; rfl⟩]

theorem ttyWriteChar_alike (s : TtyScreen) (hf : f.current = f.total) (hg : g.current = g.total)
    (h : SameKey f g c) : s.ttyWriteChar f c = s.ttyWriteChar g c := by
  by_cases hdraw : IsKey c → f.canEcho = true
  · rw [ttyWriteChar_draw s hf hdraw,
      ttyWriteChar_draw s hg fun hkey => (h.echo hkey).symm.trans (hdraw hkey)]
  obtain ⟨hkey, hoff⟩ := Classical.not_imp.mp hdraw
  have hfoff := Bool.eq_false_of_not_eq_true hoff
  have hgoff := (h.echo hkey).symm.trans hfoff
  rcases hkey with hup | hdown | rfl | rfl
  · rw [ttyWriteChar_still s hfoff (Or.inl hup), ttyWriteChar_still s hgoff (Or.inl hup)]
  · rw [ttyWriteChar_still s hfoff (Or.inr hdown), ttyWriteChar_still s hgoff (Or.inr hdown)]
  · rw [ttyWriteChar_keyLeft s hfoff, ttyWriteChar_keyLeft s hgoff, DevTerminal.comLeft,
      DevTerminal.comLeft, h.left rfl hfoff]
  · rw [ttyWriteChar_keyRight s hfoff, ttyWriteChar_keyRight s hgoff, DevTerminal.comRight,
      DevTerminal.comRight, h.right rfl hfoff]

theorem text_alike (s : TtyScreen) (hf : f.current = f.total) (hg : g.current = g.total)
    (h : SameKey f g c) : s.text f c = s.text g c := by
  rw [text, text, ttyWriteChar_alike s hf hg h]

theorem print_alike (s : TtyScreen) (hf : f.current = f.total) (hg : g.current = g.total)
    {bytes : List UInt8} (h : ∀ c ∈ bytes, SameKey f g c) : s.print f bytes = s.print g bytes := by
  induction bytes generalizing s with
  | nil => rfl
  | cons c bytes ih =>
      have hrest := ih (s.text f c) fun d hd => h d (List.mem_cons_of_mem c hd)
      have hc := text_alike s hf hg (h c List.mem_cons_self)
      change (s.text f c).print f bytes = (s.text g c).print g bytes
      rw [hrest, hc]

/-! ## Not alike -/

theorem forward_cursor (t : DevTerminal) : (t.forward.cr = t.cr ∧ t.forward.cc = t.cc + 1)
    ∨ t.forward.cr = t.cr + 1 := by
  unfold DevTerminal.forward
  split
  · exact Or.inr rfl
  · exact Or.inl ⟨rfl, rfl⟩

theorem back_cursor (t : DevTerminal) : (t.back.cr = t.cr ∧ t.back.cc = t.cc - 1)
    ∨ t.back.cr = t.cr - 1 := by
  unfold DevTerminal.back
  split
  · exact Or.inr rfl
  · exact Or.inl ⟨rfl, rfl⟩

theorem draw_term (s : TtyScreen) (c : UInt8) : (s.draw c).term = s.term.forward := by
  unfold draw
  dsimp only
  split
  · rw [put, scrollUp_term]
  · rfl

/-- The character is at the cursor now, wherever that was. -/
theorem draw_cell (s : TtyScreen) (c : UInt8) :
    ((s.draw c).cells (s.term.base + s.term.offset)).c = c := by
  unfold draw
  dsimp only
  split
  · rw [scrollUp_term, put_cells, if_pos rfl]
  · rw [put_cells, if_pos rfl]

theorem comLf_term (s : TtyScreen) :
    s.comLf.term = s.term ∨ s.comLf.term = { s.term with cr := s.term.cr + 1 } := by
  unfold comLf
  split
  · exact Or.inr rfl
  · exact Or.inl (scrollUp_term s 1)

/-- Without the cursor key to the left, no row is left upwards. -/
theorem text_row_le (s : TtyScreen) (hf : f.current = f.total) (hc : c ≠ keyLeft) :
    s.term.cr ≤ (s.text f c).term.cr := by
  have hforward : s.term.cr ≤ s.term.forward.cr := by
    rcases forward_cursor s.term with ⟨h, -⟩ | h <;> omega
  unfold text
  split
  case isTrue =>
    rcases s.comLf_term with h | h
    · exact Int.le_of_eq (by dsimp only; rw [h]; rfl)
    · dsimp only
      rw [h]
      dsimp only [DevTerminal.comCr]
      omega
  case isFalse =>
    by_cases hdraw : IsKey c → f.canEcho = true
    · rw [ttyWriteChar_draw s hf hdraw, draw_term]
      exact hforward
    obtain ⟨hkey, hoff⟩ := Classical.not_imp.mp hdraw
    have hfoff := Bool.eq_false_of_not_eq_true hoff
    rcases hkey with hup | hdown | hleft | rfl
    · rw [ttyWriteChar_still s hfoff (Or.inl hup)]
    · rw [ttyWriteChar_still s hfoff (Or.inr hdown)]
    · exact absurd hleft hc
    · rw [ttyWriteChar_keyRight s hfoff]
      dsimp only [DevTerminal.comRight]
      split
      · exact Int.le_refl _
      · exact hforward

/-- No cell shows the character `m`. -/
def Lacks (m : UInt8) (s : TtyScreen) : Prop := ∀ a, (s.cells a).c ≠ m

theorem Lacks.put {m : UInt8} (h : s.Lacks m) {ch : TtyChar} (hch : ch.c ≠ m) (a : Int) :
    (s.put a ch).Lacks m := by
  intro b
  rw [put_cells]
  split
  · exact hch
  · exact h b

theorem Lacks.scrollUp {m : UInt8} (h : s.Lacks m) (hm : m ≠ 0x20) (n : Int) :
    (s.scrollUp n).Lacks m := by
  have hcopy : ∀ (k : Nat) (s : TtyScreen) (dst src : Int), s.Lacks m →
      (s.copyCells dst src k).Lacks m := by
    intro k
    induction k with
    | zero => exact fun s _ _ hs => hs
    | succ k ih => exact fun s dst src hs => ih _ _ _ (hs.put (hs src) dst)
  intro a
  rw [TtyScreen.scrollUp, blankCells_c]
  split
  · exact hm.symm
  · exact hcopy _ s _ _ h a

theorem Lacks.draw {m : UInt8} (h : s.Lacks m) (hm : m ≠ 0x20) (hc : c ≠ m) :
    (s.draw c).Lacks m := by
  unfold TtyScreen.draw
  dsimp only
  split
  · exact (h.scrollUp hm 1).put hc _
  · exact h.put hc _

theorem Lacks.text {m : UInt8} (h : s.Lacks m) (hm : m ≠ 0x20) (hc : c ≠ m)
    (hf : f.current = f.total) : (s.text f c).Lacks m := by
  unfold TtyScreen.text
  split
  case isTrue =>
    unfold comLf
    split
    · exact h
    · exact h.scrollUp hm 1
  case isFalse =>
    by_cases hdraw : IsKey c → f.canEcho = true
    · rw [ttyWriteChar_draw s hf hdraw]
      exact h.draw hm hc
    obtain ⟨hkey, hoff⟩ := Classical.not_imp.mp hdraw
    have hfoff := Bool.eq_false_of_not_eq_true hoff
    rcases hkey with hup | hdown | rfl | rfl
    · rwa [ttyWriteChar_still s hfoff (Or.inl hup)]
    · rwa [ttyWriteChar_still s hfoff (Or.inr hdown)]
    · rwa [ttyWriteChar_keyLeft s hfoff]
    · rwa [ttyWriteChar_keyRight s hfoff]

/-- Where the character `c` cannot come out alike by chance. -/
structure Telling (c : UInt8) (s : TtyScreen) : Prop where
  row : c = keyLeft → 1 ≤ s.term.cr
  lacks : c = keyRight → s.Lacks c

/-- Other characters leave it so. -/
theorem Telling.print {bytes : List UInt8} (h : Telling c s) (hf : f.current = f.total)
    (hne : ∀ d ∈ bytes, d ≠ c) : Telling c (s.print f bytes) := by
  induction bytes generalizing s with
  | nil => exact h
  | cons d bytes ih =>
      have hd := hne d List.mem_cons_self
      refine ih ⟨fun hc => ?_, fun hc => ?_⟩ fun e he => hne e (List.mem_cons_of_mem d he)
      · exact Int.le_trans (h.row hc) (text_row_le s hf fun hl => hd (hl.trans hc.symm))
      · exact (h.lacks hc).text (by rw [hc]; decide) hd hf

/-- A key is shown under one of them and moves the cursor under the other. -/
theorem look_ne_of_echo (hkey : IsKey c) (hf : f.current = f.total) (hfon : f.canEcho = true)
    (hgoff : g.canEcho = false) (h : Telling c s) : (s.text f c).look ≠ (s.text g c).look := by
  have hlf : c ≠ 0x0A := by rcases hkey with rfl | rfl | rfl | rfl <;> decide
  rw [text, text, if_neg hlf, if_neg hlf, ttyWriteChar_draw s hf fun _ => hfon]
  intro heq
  obtain ⟨hcells, hcursor⟩ := Prod.mk.inj heq
  obtain ⟨hrow, hcolumn⟩ := Prod.mk.inj hcursor
  rw [draw_term] at hrow hcolumn
  have hforward := forward_cursor s.term
  rcases hkey with hup | hdown | rfl | rfl
  · rw [ttyWriteChar_still s hgoff (Or.inl hup)] at hrow hcolumn
    omega
  · rw [ttyWriteChar_still s hgoff (Or.inr hdown)] at hrow hcolumn
    omega
  · rw [ttyWriteChar_keyLeft s hgoff] at hrow hcolumn
    dsimp only [DevTerminal.comLeft, DevTerminal.ttyCursorBackword] at hrow hcolumn
    have hback := back_cursor s.term
    have hone : DevTerminal.back^[1] s.term = s.term.back := rfl
    rw [hone] at hrow hcolumn
    split_ifs at hrow hcolumn <;> omega
  · rw [ttyWriteChar_keyRight s hgoff] at hcells
    have hcell := draw_cell s keyRight
    rw [hcells] at hcell
    exact h.lacks rfl _ hcell

/-- Under one of them the cursor may move to the left, under the other not. -/
theorem look_ne_of_left (hfoff : f.canEcho = false) (hgoff : g.canEcho = false)
    (hne : f.canLeft ≠ g.canLeft) (h : Telling keyLeft s) :
    (s.text f keyLeft).look ≠ (s.text g keyLeft).look := by
  have hrow := h.row rfl
  have hback : s.term.ttyCursorBackword 1 = s.term.back := if_neg (by omega)
  have hcursor := back_cursor s.term
  rw [text, text, if_neg (by decide), if_neg (by decide), ttyWriteChar_keyLeft s hfoff,
    ttyWriteChar_keyLeft s hgoff]
  intro heq
  obtain ⟨hcr, hcc⟩ := Prod.mk.inj (Prod.mk.inj heq).2
  simp only [DevTerminal.comLeft, hback] at hcr hcc
  cases hf : f.canLeft <;> cases hg : g.canLeft <;> simp [hf, hg] at hcr hcc hne <;> omega

/-- Under one of them the cursor may move to the right, under the other not. -/
theorem look_ne_of_right (hfoff : f.canEcho = false) (hgoff : g.canEcho = false)
    (hne : f.canRight ≠ g.canRight) : (s.text f keyRight).look ≠ (s.text g keyRight).look := by
  have hone : s.term.ttyCursorForward 1 = s.term.forward := rfl
  have hcursor := forward_cursor s.term
  rw [text, text, if_neg (by decide), if_neg (by decide), ttyWriteChar_keyRight s hfoff,
    ttyWriteChar_keyRight s hgoff]
  intro heq
  obtain ⟨hcr, hcc⟩ := Prod.mk.inj (Prod.mk.inj heq).2
  simp only [DevTerminal.comRight, hone] at hcr hcc
  cases hf : f.canRight <;> cases hg : g.canRight <;> simp [hf, hg] at hcr hcc hne <;> omega

/-- What is not alike under two states of the keyboard shows. -/
theorem look_ne_of_not_sameKey (hf : f.current = f.total) (hg : g.current = g.total)
    (hnot : ¬ SameKey f g c) (h : Telling c s) : (s.text f c).look ≠ (s.text g c).look := by
  by_cases hecho : f.canEcho = g.canEcho
  · by_cases hleft : c = keyLeft → f.canEcho = false → f.canLeft = g.canLeft
    · have hright : ¬ (c = keyRight → f.canEcho = false → f.canRight = g.canRight) :=
        fun hright => hnot ⟨fun _ => hecho, hleft, hright⟩
      simp only [Classical.not_imp] at hright
      obtain ⟨rfl, hfoff, hne⟩ := hright
      exact look_ne_of_right hfoff (hecho.symm.trans hfoff) hne
    · simp only [Classical.not_imp] at hleft
      obtain ⟨rfl, hfoff, hne⟩ := hleft
      exact look_ne_of_left hfoff (hecho.symm.trans hfoff) hne h
  · have hkey : IsKey c := by
      by_contra hkey
      exact hnot (sameKey_of_not_isKey hkey)
    cases hfe : f.canEcho with
    | true =>
        have hge : g.canEcho = false := by
          rw [hfe] at hecho
          exact Bool.eq_false_of_not_eq_true fun hge => hecho hge.symm
        exact look_ne_of_echo hkey hf hfe hge h
    | false =>
        have hge : g.canEcho = true := by
          rw [hfe] at hecho
          exact Bool.eq_true_of_not_eq_false fun hge => hecho hge.symm
        exact (look_ne_of_echo hkey hg hge hfe h).symm

end TtyScreen

namespace Drain

variable {T : Type} {f g : CursorCtrl} {bytes : List UInt8}

/-- Whatever is on the terminal, `bytes` and every beginning of it look the
same under both states of the keyboard. -/
def LooksAlike (f g : CursorCtrl) (t : T) (bytes : List UInt8) : Prop :=
  ∀ s : Drain T, s.Idle [] → s.screen.term.OnScreen → ∀ p, p <+: bytes →
    ∀ s₁ s₂, Writes f t s p s₁ → Writes g t s p s₂ → s₁.screen.look = s₂.screen.look

/-- A screen with nothing on it and the cursor in its last row. -/
def blankScreen : TtyScreen where
  term := { DevTerminal.init 0 with cr := 24 }
  cells := fun _ => ⟨0x20, 0xF, 0, false⟩
  written := []

def blank (T : Type) : Drain T :=
  { opened T (fun _ => 0) 0 fun _ => ⟨0, 0, 0, false⟩ with screen := blankScreen }

theorem idle_blank : (blank T).Idle [] where
  stocked := ⟨TtyFifo.holds_init (Nat.zero_lt_succ 511), rfl, rfl⟩
  waiting := rfl
  pc := rfl

theorem onScreen_blank : blankScreen.term.OnScreen :=
  ⟨rfl, rfl, ⟨by decide, by decide⟩, ⟨by decide, by decide⟩⟩

theorem telling_blank (c : UInt8) : blankScreen.Telling c where
  row _ := by decide
  lacks hc a := by
    rw [hc]
    change (0x20 : UInt8) ≠ keyRight
    decide

/-- What gets through has had room. -/
theorem Idle.room {t : T} {s s' : Drain T} (h : s.Idle []) (hw : Writes f t s bytes s') :
    bytes.length ≤ ttyObufSize := by
  unfold Writes at hw
  split at hw
  case isTrue hempty => exact Nat.le_trans hempty (Nat.zero_le _)
  case isFalse =>
    obtain ⟨s₁, hloop, -⟩ := hw
    have hroom := (writeLoop_eq_some h.stocked hloop).1
    rwa [List.length_nil, Nat.zero_add] at hroom

/-- As long as everything looks the same, every character is alike. -/
theorem sameKey_of_looksAlike {t : T} (hf : f.current = f.total) (hg : g.current = g.total)
    (htext : ∀ c ∈ bytes, IsText c) (h : LooksAlike f g t bytes) (p : List UInt8) (hp : p <+: bytes)
    (hroom : p.length ≤ ttyObufSize) : ∀ c ∈ p, SameKey f g c := by
  induction p using List.reverseRecOn with
  | nil => exact fun c hc => absurd hc List.not_mem_nil
  | append_singleton p c ih =>
      have hlength : (p ++ [c]).length = p.length + 1 := List.length_append
      have hbefore := ih ((List.prefix_append p [c]).trans hp) (by omega)
      -- both runs come to `c` with the same screen
      have hc : SameKey f g c := by
        by_contra hc
        have htext' : ∀ d ∈ p ++ [c], IsText d := fun d hd => htext d (hp.subset hd)
        obtain ⟨s₁, hs₁, -, hscreen₁⟩ := idle_blank.writes f t htext' hroom
        obtain ⟨s₂, hs₂, -, hscreen₂⟩ := idle_blank.writes g t htext' hroom
        have hlook := h (blank T) idle_blank onScreen_blank _ hp s₁ s₂ ((hs₁ s₁).mpr rfl)
          ((hs₂ s₂).mpr rfl)
        rw [hscreen₁, hscreen₂, TtyScreen.print_concat, TtyScreen.print_concat,
          ← TtyScreen.print_alike _ hf hg hbefore] at hlook
        have htelling := (telling_blank c).print hf fun d hd hdc => hc (hdc ▸ hbefore d hd)
        exact TtyScreen.look_ne_of_not_sameKey hf hg hc htelling hlook
      intro d hd
      rcases List.mem_append.mp hd with hd | hd
      · exact hbefore d hd
      · rwa [List.mem_singleton.mp hd]

/-- A text looks the same under two states of the keyboard if and only if
each of its characters is alike, as far as it has room in the queue: a
longer one is never shown. -/
theorem devTtyWrite_looksAlike_iff (t : T) (hf : f.current = f.total) (hg : g.current = g.total)
    (htext : ∀ c ∈ bytes, IsText c) :
    LooksAlike f g t bytes ↔ ∀ c ∈ bytes.take ttyObufSize, SameKey f g c := by
  refine ⟨fun h => sameKey_of_looksAlike hf hg htext h _ (List.take_prefix _ _)
    (List.length_take_le _ _), fun h s hs _ p hp s₁ s₂ h₁ h₂ => ?_⟩
  have hroom := hs.room h₁
  have hshown : ∀ c ∈ p, SameKey f g c := fun c hc =>
    h c ((List.prefix_take_iff.mpr ⟨hp, hroom⟩).subset hc)
  have htext' : ∀ d ∈ p, IsText d := fun d hd => htext d (hp.subset hd)
  obtain ⟨s₁', hs₁, -, hscreen₁⟩ := hs.writes f t htext' hroom
  obtain ⟨s₂', hs₂, -, hscreen₂⟩ := hs.writes g t htext' hroom
  rw [(hs₁ s₁).mp h₁, (hs₂ s₂).mp h₂, hscreen₁, hscreen₂, TtyScreen.print_alike _ hf hg hshown]

/-- `ok` and a line feed. -/
theorem devTtyWrite_looksAlike_ok :
    LooksAlike (openCursor true) (openCursor false) () [0x6F, 0x6B, 0x0A] :=
  have htext : ∀ c ∈ [0x6F, 0x6B, 0x0A], IsText c := List.all_iff_forall_prop.mp (by decide)
  have hkeys : ∀ c ∈ [0x6F, 0x6B, 0x0A], ¬ TtyScreen.IsKey c :=
    List.all_iff_forall_prop.mp (by decide)
  (devTtyWrite_looksAlike_iff () rfl rfl htext).mpr fun c hc =>
    sameKey_of_not_isKey (hkeys c (List.mem_of_mem_take hc))

/-- `H` is a key as long as `can_echo` is off. -/
theorem devTtyWrite_looksAlike_h :
    ¬ ∀ (s : Drain Unit) (f g : CursorCtrl) (bytes : List UInt8), s.Idle [] →
      s.screen.term.OnScreen → f.current = f.total → g.current = g.total →
      (∀ c ∈ bytes, IsText c) →
      ∀ s₁ s₂, Writes f () s bytes s₁ → Writes g () s bytes s₂ →
        s₁.screen.look = s₂.screen.look := by
  intro h
  have htext : ∀ c ∈ [0x48], IsText c := List.all_iff_forall_prop.mp (by decide)
  have halike : LooksAlike (openCursor true) (openCursor false) () [0x48] :=
    fun s hs hon p hp => h s _ _ p hs hon rfl rfl fun c hc => htext c (hp.subset hc)
  have hecho := (sameKey_of_looksAlike rfl rfl htext halike _ List.prefix_rfl (by decide) 0x48
    List.mem_cons_self).echo (Or.inl rfl)
  exact absurd hecho (by decide)

end Drain

end Csos
