/-
What a strict parse does with a text does not depend on what follows.

# More ahead

Two states have the same words ahead, but the second one has more after
them (`ParseState.Extended`). As long as a run from the first one does not
come to its end, it cannot tell the difference: this is a simulation
(`extension`).

# At the end

A run that does come to the end goes on alike as well if what it looks
for there is found in neither state. That is so where the words after the
end do not go on with an operand. An action either needs words ahead
(`Parse.Needs`), and is then followed up to its last token by the
simulation, or it may start at the end, and is then followed by itself
(`Stretches`, `Closes`, `Lasts`).
-/
import ScriptTree.Proofs.Forward
import ScriptTree.Proofs.Tolerance

namespace ScriptTree

/-- A strict parse with just the given words ahead, all of which can be
read. -/
structure ParseState.Ahead (s : ParseState) (ws : List Word) : Prop where
  sound : s.Sound
  readable : s.rest.Readable
  words : s.words = ws

namespace ParseState

variable {s s' u : ParseState} {w next : Word} {ws tail : List Word}

namespace Ahead

/-- Neither what was reported nor where the last token ended counts. -/
theorem of_eq (h : s.Ahead ws) (hlookahead : s'.lookahead = s.lookahead)
    (hrest : s'.rest = s.rest) (hbreak : s'.lineBreak = s.lineBreak)
    (hlog : s'.log = s.log) : s'.Ahead ws where
  sound :=
    { log := by rw [hlog, h.sound.log]
      rest := by rw [hrest]; exact h.sound.rest
      lookahead := by
        rw [hlookahead, hrest]
        exact h.sound.lookahead }
  readable := by rw [hrest]; exact h.readable
  words := by
    rw [← h.words, ParseState.words, ParseState.words, hlookahead, hrest,
      hbreak]

theorem lookahead (h : s.Ahead (w :: ws)) :
    s.lookahead.isEnd = false ∧ s.lookahead.bare = w.token ∧
      s.lineBreak = w.newLine := words_cons h.words

theorem shift (h : s.Ahead ws) :
    ∃ s', Parse.shift s = .ok s.lookahead s' ∧ s'.Ahead ws.tail := by
  obtain ⟨s', hshift, hs', hr, -⟩ := shift_of_readable h.sound.log h.readable
  refine ⟨s', hshift, hs', hr, ?_⟩
  rw [(h.sound.shift hshift).2, h.words]

theorem of_shift (h : s.Ahead ws) {t : Token}
    (hs : Parse.shift s = .ok t u) : u.Ahead ws.tail := by
  obtain ⟨s', hshift, hs'⟩ := h.shift
  rw [hs] at hshift
  cases hshift
  exact hs'

theorem skip (h : s.Ahead ws) :
    ∃ s', Parse.skip s = .ok () s' ∧ s'.Ahead ws.tail := by
  obtain ⟨s', hshift, hs'⟩ := h.shift
  exact ⟨s', Parse.skip_ok.2 hshift, hs'⟩

theorem of_close (h : s.Ahead ws) {kind : NodeKind} {start : Position}
    {span : Span} (hc : Parse.close kind start s = .ok span u) :
    u.Ahead ws := by
  obtain ⟨-, rfl⟩ := Parse.close_ok.1 hc
  exact h.of_eq rfl rfl rfl rfl

/-- A look beyond the lookahead shows the second word. -/
theorem bindingAhead (h : s.Ahead (w :: next :: ws)) (onSameLine : Bool) :
    Parse.bindingAhead onSameLine s
      = .ok ((!onSameLine || !next.newLine) && next.token.startsBinding)
          s := by
  have hwords := h.words
  rw [words_of_not_end h.lookahead.1, List.cons.injEq] at hwords
  have hreadable := h.readable
  cases hrest : s.rest with
  | done comments t | illegal comments t =>
      rw [hrest] at hwords
      cases hwords.2
  | token comments t rest =>
      rw [hrest] at hwords hreadable
      obtain ⟨rfl, -⟩ := List.cons.inj hwords.2
      have haccept : s.log.accept t = .ok s.log :=
        Parse.accept_ok.2 (by simp [hreadable.1.unescaped])
      refine Parse.bindingAhead_ok.2
        ⟨rfl, t, rest, s.log, by rw [hrest]; rfl, haccept, ?_⟩
      show ((!onSameLine || !decide (s.lookahead.span.start.line
        ≠ t.span.start.line)) && t.startsBinding) = _
      by_cases hline : t.span.start.line = s.lookahead.span.start.line
      · simp [hline]
      · simp [hline, Ne.symm hline]

end Ahead

/-- The same words ahead, and more after them. -/
def Extended (tail : List Word) (s s' : ParseState) : Prop :=
  ∃ ws, s.Ahead ws ∧ s'.Ahead (ws ++ tail)

/-- The same with a word ahead. -/
def ExtendedInside (tail : List Word) (s s' : ParseState) : Prop :=
  ∃ w ws, s.Ahead (w :: ws) ∧ s'.Ahead (w :: (ws ++ tail))

theorem ExtendedInside.extended (h : ExtendedInside tail s s') :
    Extended tail s s' := by
  obtain ⟨w, ws, hs, hs'⟩ := h
  exact ⟨w :: ws, hs, hs'⟩

theorem Extended.sound (h : Extended tail s s') : s.Sound := by
  obtain ⟨ws, hs, -⟩ := h
  exact hs.sound

theorem Extended.inside (h : Extended tail s s') (hw : s.words ≠ []) :
    ExtendedInside tail s s' := by
  obtain ⟨ws, hs, hs'⟩ := h
  cases ws with
  | nil => exact absurd hs.words hw
  | cons w ws => exact ⟨w, ws, hs, hs'⟩

namespace ExtendedInside

theorem words_ne_nil (h : ExtendedInside tail s s') : s.words ≠ [] := by
  obtain ⟨w, ws, hs, -⟩ := h
  rw [hs.words]
  exact List.cons_ne_nil w ws

theorem bare_eq (h : ExtendedInside tail s s') :
    s'.lookahead.bare = s.lookahead.bare := by
  obtain ⟨w, ws, hs, hs'⟩ := h
  rw [hs.lookahead.2.1, hs'.lookahead.2.1]

theorem lineBreak_eq (h : ExtendedInside tail s s') :
    s'.lineBreak = s.lineBreak := by
  obtain ⟨w, ws, hs, hs'⟩ := h
  rw [hs.lookahead.2.2, hs'.lookahead.2.2]

theorem isPunctuator_eq (h : ExtendedInside tail s s') (text : String) :
    s'.lookahead.isPunctuator text
      = s.lookahead.isPunctuator text := by
  show s'.lookahead.bare.isPunctuator text = _
  rw [h.bare_eq]
  rfl

theorem shift (h : ExtendedInside tail s s') {t : Token}
    (hs : Parse.shift s = .ok t u) :
    ∃ u', Parse.shift s' = .ok s'.lookahead u' ∧ Extended tail u u' := by
  obtain ⟨w, ws, hw, hw'⟩ := h
  obtain ⟨u', hs', hu'⟩ := hw'.shift
  exact ⟨u', hs', ws, hw.of_shift hs, hu'⟩

theorem skip (h : ExtendedInside tail s s')
    (hs : Parse.skip s = .ok () u) :
    ∃ u', Parse.skip s' = .ok () u' ∧ Extended tail u u' := by
  obtain ⟨u', hs', hu'⟩ := h.shift (Parse.skip_ok.1 hs)
  exact ⟨u', Parse.skip_ok.2 hs', hu'⟩

/-- A run that consumes the lookahead, and then does not come to the end,
starts with two words ahead. -/
theorem bindingAhead (h : ExtendedInside tail s s') {onSameLine b : Bool}
    (hb : Parse.bindingAhead onSameLine s = .ok b s) (hp : s.Passes u)
    (hu : u.words ≠ []) : Parse.bindingAhead onSameLine s' = .ok b s' := by
  obtain ⟨w, ws, hs, hs'⟩ := h
  cases ws with
  | nil =>
      obtain ⟨t, s₁, s₂, hstay, hshift, hreach⟩ := hp
      have hs₁ := Reaches.sound hstay.reaches hs.sound
      obtain ⟨hs₂, hwords⟩ := hs₁.shift hshift
      have hle := (Reaches.words_suffix hstay.reaches hs.sound).length_le
      rw [hs.words, List.length_singleton] at hle
      have hnil : s₂.words = [] := by
        rw [hwords, ← List.length_eq_zero_iff, List.length_tail]
        omega
      exact absurd (Reaches.words_nil hreach hs₂ hnil) hu
  | cons next ws =>
      rw [hs.bindingAhead onSameLine] at hb
      cases hb
      exact hs'.bindingAhead onSameLine

end ExtendedInside

end ParseState

-- ======================================================== simulation

namespace ParseState.ExtendedInside

variable {s s' u : ParseState} {tail : List Word}

/-- But for its place the lookahead is the same. -/
theorem view_eq (h : ExtendedInside tail s s') :
    s'.lookahead.view (fun _ => ()) = s.lookahead.view fun _ => () := by
  show s'.lookahead.bare.view (fun _ => ()) = _
  rw [h.bare_eq]
  rfl

theorem sound (h : ExtendedInside tail s s') : s.Sound := by
  obtain ⟨w, ws, hs, -⟩ := h
  exact hs.sound

theorem of_eq {t t' : ParseState} (h : ExtendedInside tail s s')
    (ht : ∀ ws, s.Ahead ws → t.Ahead ws)
    (ht' : ∀ ws, s'.Ahead ws → t'.Ahead ws) : ExtendedInside tail t t' := by
  obtain ⟨w, ws, hs, hs'⟩ := h
  exact ⟨w, ws, ht _ hs, ht' _ hs'⟩

/-- A separator is a comma, and it is consumed. -/
theorem argumentSeparator (h : ExtendedInside tail s s')
    (hs : Parse.argumentSeparator s = .ok () u) :
    ∃ u', Parse.argumentSeparator s' = .ok () u' ∧ Extended tail u u' := by
  unfold Parse.argumentSeparator at hs
  rw [Parse.isTolerant_bind, h.sound.log] at hs
  obtain ⟨hcomma, hskip⟩ := Parse.expect_ok.1 hs
  obtain ⟨u', hskip', hu'⟩ := h.skip hskip
  refine ⟨u', Parse.argumentSeparator_of_comma ?_ hskip', hu'⟩
  rw [h.isPunctuator_eq, hcomma]

/-- No parenthesis is missing. -/
theorem missingParenthesis (h : ExtendedInside tail s s') {b : Bool}
    (hs : Parse.missingParenthesis s = .ok b u)
    (hclose : b = false → u.lookahead.isPunctuator ")" = true) :
    Parse.missingParenthesis s' = .ok b s' ∧ u = s := by
  unfold Parse.missingParenthesis at hs
  rw [Parse.isAt_bind, Parse.isTolerant_bind, h.sound.log,
    if_pos (by simp)] at hs
  obtain ⟨rfl, rfl⟩ := pure_ok.1 hs
  have hmark := hclose rfl
  refine ⟨Parse.missingParenthesis_of_parenthesis ?_, rfl⟩
  rw [h.isPunctuator_eq, hmark]

end ParseState.ExtendedInside

/-- Runs of a strict parse with and without more ahead, as long as they do
not come to the end. -/
def extension (tail : List Word) : Simulation Unit Unit where
  observe _ := ()
  place _ := ()
  place_eq _ _ := rfl
  Related := ParseState.ExtendedInside tail
  Fine u := u.words ≠ []
  fine_of_reaches h ht hu hne hnil :=
    hne (ParseState.Reaches.words_nil hu
      (ParseState.Reaches.sound ht h.sound) hnil)
  lookahead h := h.view_eq
  lineBreak h := h.lineBreak_eq
  last _ := rfl
  shift {s s' u} h hs hu := by
    obtain ⟨u', hs', hu'⟩ := h.shift hs
    exact ⟨u', hs', hu'.inside hu⟩
  close h _ := h.of_eq (fun _ hw => hw.of_eq rfl rfl rfl rfl)
    fun _ hw => hw.of_eq rfl rfl rfl rfl
  standAt h _ := h.of_eq (fun _ hw => hw.of_eq rfl rfl rfl rfl)
    fun _ hw => hw.of_eq rfl rfl rfl rfl
  tolerate {s s' u d d'} h _ ht _ := by
    have htolerant := (Parse.tolerate_ok.1 ht).1
    rw [h.sound.log] at htolerant
    cases htolerant
  bindingAhead h hb hp hu := h.bindingAhead hb hp hu
  argumentSeparator {s s' u} h hs hu := by
    obtain ⟨u', hs', hu'⟩ := h.argumentSeparator hs
    exact ⟨u', hs', hu'.inside hu⟩
  missingParenthesis {s s' u b} h hs _ hclose := by
    obtain ⟨hs', rfl⟩ := h.missingParenthesis hs hclose
    exact ⟨s', hs', h⟩

end ScriptTree
