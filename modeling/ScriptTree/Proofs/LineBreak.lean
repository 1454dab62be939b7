/-
Which line breaks a parse sees.

# Where the lookahead stands

Between any two steps of a parse the lookahead lies between two cursors
of the text, and the stream goes on from the second of them
(`ParseState.Situated`). A shift walks from there over what stands
between tokens to the next token (`Situated.shift`).

# Lines of tokens

A parse compares the lines on which two tokens start. So it sees a line
break if there is one after the first of them or within it; a token with
a line break in it is a string (`lineBreak_of_shift`).
-/
import ScriptTree.Proofs.Reading
import ScriptTree.Proofs.Tiling
import ScriptTree.Source.NameRanges

namespace ScriptTree

variable {source : List Char}

-- =========================================================== streams

/-- The next token of a stream is what comes after trivia. -/
theorem TokenStream.next_fromCursor [NameProperties] {steps : Nat} {c : Cursor}
    {t : Token} {rest : TokenStream} (hsteps : c.rest.length ≤ steps)
    (h : (fromCursor steps c).next.2 = .ok (t, rest)) :
    ∃ start stop steps', c.Walks true start ∧ start.Walks true stop ∧
      (t.kind ≠ .string → start.Walks false stop) ∧
      t.span = ⟨start.position, stop.position⟩ ∧
      rest = fromCursor steps' stop ∧ stop.rest.length ≤ steps' := by
  -- The end of the text stands where it is found, and stays there.
  have hatEnd {start : Cursor} (hrest : start.rest = [])
      (hwalk : c.Walks true start) :
      ∃ first stop steps', c.Walks true first ∧ first.Walks true stop ∧
        (start.endToken.kind ≠ .string → first.Walks false stop) ∧
        start.endToken.span = ⟨first.position, stop.position⟩ ∧
        TokenStream.done [] start.endToken = fromCursor steps' stop ∧
        stop.rest.length ≤ steps' :=
    ⟨start, start, 0, hwalk, .refl _, fun _ => .refl _, rfl, rfl,
      by simp [hrest]⟩
  cases steps with
  | zero =>
      cases h
      exact hatEnd (List.length_eq_zero_iff.1 (by omega)) (.refl c)
  | succ steps =>
      have hwalk := Cursor.walks_skipTrivia c
      cases begins c with
      | done hend hstream =>
          rw [hstream] at h
          cases h
          exact hatEnd hend hwalk
      | illegal _ _ hstream =>
          rw [hstream] at h
          cases h
      | @token t' stop _ htoken hlt hstream =>
          rw [hstream] at h
          cases h
          exact ⟨_, stop, steps, hwalk, (token_walks htoken).1,
            (token_walks htoken).2, Cursor.token_span htoken, rfl,
            by omega⟩

-- ============================================================ states

namespace ParseState

variable {s s' : ParseState} {start stop : Cursor}

/-- The lookahead lies between the cursors `start` and `stop`, and the
stream goes on from `stop`. -/
structure Situated [NameProperties] (source : List Char) (start stop : Cursor)
    (s : ParseState) : Prop where
  stands : start.StandsIn source
  walks : start.Walks true stop
  withinLine : s.lookahead.kind ≠ .string → start.Walks false stop
  span : s.lookahead.span = ⟨start.position, stop.position⟩
  rest : ∃ steps, s.rest = .fromCursor steps stop ∧
    stop.rest.length ≤ steps

/-- What was reported does not count, nor what was recorded. -/
theorem Situated.of_eq [NameProperties] (hs : s.Situated source start stop)
    (hlookahead : s'.lookahead = s.lookahead) (hrest : s'.rest = s.rest) :
    s'.Situated source start stop where
  stands := hs.stands
  walks := hs.walks
  withinLine := hlookahead ▸ hs.withinLine
  span := hlookahead ▸ hs.span
  rest := hrest ▸ hs.rest

theorem situated_ofText [NameProperties] (text : List Char) (tolerant : Bool) :
    (ofText text tolerant).Situated text (.ofText text)
      (.ofText text) where
  stands := Cursor.standsIn_ofText text
  walks := .refl _
  withinLine := fun _ => .refl _
  span := rfl
  rest := ⟨text.length, rfl, Nat.le_of_eq (Cursor.ofText_length text)⟩

/-- A shift walks on to the next token. -/
theorem Situated.shift [NameProperties]
    {t : Token} (hs : s.Situated source start stop)
    (h : Parse.shift s = .ok t s') :
    ∃ start' stop', stop.Walks true start' ∧
      s'.Situated source start' stop' := by
  obtain ⟨steps, hrest, hsteps⟩ := hs.rest
  obtain ⟨-, next, rest, log, hnext, -, rfl⟩ := Parse.shift_ok.1 h
  rw [hrest] at hnext
  obtain ⟨start', stop', steps', hgap, hwalk, hline, hspan, hrest',
    hsteps'⟩ := TokenStream.next_fromCursor hsteps hnext
  exact ⟨start', stop', hgap, (hs.stands.walks hs.walks).walks hgap,
    hwalk, hline, hspan, steps', hrest', hsteps'⟩

theorem Situated.step [NameProperties] (hs : s.Situated source start stop)
    (h : s.Step s') : ∃ start' stop', s'.Situated source start' stop' := by
  cases h with
  | shift h =>
      obtain ⟨start', stop', -, hs'⟩ := hs.shift h
      exact ⟨start', stop', hs'⟩
  | tolerate h =>
      obtain ⟨-, rfl⟩ := Parse.tolerate_ok.1 h
      exact ⟨start, stop, hs.of_eq rfl rfl⟩
  | close h =>
      obtain ⟨-, rfl⟩ := Parse.close_ok.1 h
      exact ⟨start, stop, hs.of_eq rfl rfl⟩
  | standAt h =>
      cases h
      exact ⟨start, stop, hs.of_eq rfl rfl⟩

/-- Wherever a parse gets, its lookahead has its place in the text. -/
theorem Reaches.situated [NameProperties] {text : List Char} {tolerant : Bool}
    (h : (ofText text tolerant).Reaches s) :
    ∃ start stop, s.Situated text start stop := by
  induction h with
  | refl => exact ⟨_, _, situated_ofText text tolerant⟩
  | tail _ hstep ih =>
      obtain ⟨start, stop, hs⟩ := ih
      exact hs.step hstep

end ParseState

-- ======================================================= line breaks

/-- A parse compares the lines on which tokens start. -/
theorem Parse.shift_lineBreak {s s' : ParseState} {t : Token}
    (h : Parse.shift s = .ok t s') :
    t = s.lookahead ∧ s'.lineBreak = decide
      (s.lookahead.span.start.line ≠ s'.lookahead.span.start.line) := by
  obtain ⟨ht, next, rest, log, -, -, rfl⟩ := Parse.shift_ok.1 h
  exact ⟨ht, rfl⟩

/-- A statement ends at a semicolon, at a brace, at the end of the text
or where the parse sees a line break. -/
theorem Parse.endStatement_ok {s s' : ParseState} {u : Unit}
    (h : Parse.endStatement s = .ok u s') :
    s.lookahead.isPunctuator ";" = true ∨
      s.lookahead.isPunctuator "\x7d" = true ∨
      s.lookahead.isEnd = true ∨ s.lineBreak = true := by
  unfold Parse.endStatement at h
  rw [Parse.lookahead_bind] at h
  split at h
  case isTrue hmark => exact .inl hmark
  case isFalse =>
    rw [Parse.afterLineBreak_bind] at h
    split at h
    case isTrue hbreak => exact .inr (.inr (.inr hbreak))
    case isFalse =>
      split at h
      case isFalse => exact absurd h Parse.unexpected_ok
      case isTrue hend =>
        rcases Bool.or_eq_true_iff.1 hend with hend | hmark
        · exact .inr (.inr (.inl hend))
        · exact .inr (.inl hmark)

/-- What a parse takes for a line break in front of its lookahead is a
line terminator between the two tokens or within the first of them, which
is a string then. So it sees the line breaks between tokens and no other,
but for strings over several lines with none after them. -/
theorem lineBreak_of_shift [NameProperties]
    {text : List Char} {tolerant : Bool} {s s' : ParseState} {t : Token}
    (hs : (ParseState.ofText text tolerant).Reaches s)
    (h : Parse.shift s = .ok t s') :
    let own := breaksLine
      (textBetween text t.span.start.offset t.span.stop.offset)
    let between := breaksLine
      (textBetween text t.span.stop.offset s'.lookahead.span.start.offset)
    (s'.lineBreak = true ↔ own = true ∨ between = true) ∧
    (own = true → t.kind = .string) ∧
    ((s'.lineBreak = true ↔ between = true) ↔
      (own = true → between = true)) ∧
    (∀ u s'', Parse.endStatement s' = .ok u s'' →
      s'.lookahead.isPunctuator ";" = true ∨
        s'.lookahead.isPunctuator "\x7d" = true ∨
        s'.lookahead.isEnd = true ∨ between = true ∨ own = true) := by
  intro own between
  obtain ⟨start, stop, hsit⟩ := ParseState.Reaches.situated hs
  obtain ⟨start', stop', hgap, hsit'⟩ := hsit.shift h
  obtain ⟨rfl, hlineBreak⟩ := Parse.shift_lineBreak h
  obtain ⟨word, lines, hword, hwordLines, -⟩ := hsit.walks.reads
  obtain ⟨gap, lines', hgapReads, hgapLines, -⟩ := hgap.reads
  have hstop := hsit.stands.walks hsit.walks
  -- What is read has a line terminator in it just if the line changes.
  have hown : own = breaksLine word := by
    unfold own
    rw [hsit.span, hsit.stands.textBetween_eq hword]
  have hbetween : between = breaksLine gap := by
    unfold between
    rw [hsit.span, hsit'.span, hstop.textBetween_eq hgapReads]
  have hbreak : s'.lineBreak = true ↔ own = true ∨ between = true := by
    have hlines : start'.position.line
        = start.position.line + lines + lines' := by
      rw [hgapReads.line, hword.line]
    rw [hlineBreak, hsit.span, hsit'.span, hown, hbetween, hwordLines,
      hgapLines, decide_eq_true_eq]
    show start.position.line ≠ start'.position.line ↔ _
    omega
  refine ⟨hbreak, ?_, ?_, ?_⟩
  · intro hbreaks
    by_cases hkind : s.lookahead.kind = .string
    · exact hkind
    · obtain ⟨word', lines', hword', hlines', hzero⟩ :=
        (hsit.withinLine hkind).reads
      have hsame := (hword.unique hword').1
      rw [hown, ← hsame, hlines', hzero rfl] at hbreaks
      exact absurd hbreaks (Nat.lt_irrefl 0)
  · rw [hbreak]
    constructor
    · intro hiff hown
      exact hiff.1 (.inl hown)
    · intro himp
      exact ⟨fun h => h.elim himp id, .inr⟩
  · intro u s'' hend
    rcases Parse.endStatement_ok hend with hmark | hmark | hend | hlast
    · exact .inl hmark
    · exact .inr (.inl hmark)
    · exact .inr (.inr (.inl hend))
    · rcases hbreak.1 hlast with hown | hbetween
      · exact .inr (.inr (.inr (.inr hown)))
      · exact .inr (.inr (.inr (.inl hbetween)))

/-- The first two tokens of a text. -/
private theorem shift_ofText [NameProperties]
    {text : List Char} {tolerant : Bool} {t next : Token} {rest : TokenStream}
    (h : TokenStream.ofText text = .token [] t (.token [] next rest))
    (ht : t.isEscapedReserved = false)
    (hnext : next.isEscapedReserved = false) :
    ∃ s s', (ParseState.ofText text tolerant).Reaches s ∧
      Parse.shift s = .ok t s' ∧ s'.lookahead = next := by
  let start := ParseState.ofText text tolerant
  have haccept {t : Token} (ht : t.isEscapedReserved = false) :
      start.log.accept t = .ok start.log :=
    Parse.accept_ok.2 (by simp [ht])
  have hfirst : Parse.shift start = .ok start.lookahead
      ({ start.pass [] with log := start.log }.consume t
        (.token [] next rest)) := by
    apply Parse.shift_ok.2
    have hrest : start.rest.next
        = ([], .ok (t, .token [] next rest)) := congrArg TokenStream.next h
    exact ⟨rfl, t, _, _, by rw [hrest], haccept ht, by rw [hrest]⟩
  exact ⟨_, _, .single (.shift hfirst), Parse.shift_ok.2 ⟨rfl, next, rest,
    start.log, rfl, haccept hnext, rfl⟩, rfl⟩

/-- A line break between two names. -/
theorem lineBreak_of_shift_names :
    ∃ s t s', (ParseState.ofText "a\nb".toList false).Reaches s ∧
      Parse.shift s = .ok t s' ∧
      (s'.lineBreak = true ↔
        breaksLine (textBetween "a\nb".toList t.span.start.offset
          t.span.stop.offset) = true ∨
        breaksLine (textBetween "a\nb".toList t.span.stop.offset
          s'.lookahead.span.start.offset) = true) := by
  have hstream : TokenStream.ofText "a\nb".toList
      = .token [] ⟨.identifier, .text "a", "a", ⟨0, 1, 0⟩, ⟨1, 1, 0⟩⟩
          (.token [] ⟨.identifier, .text "b", "b", ⟨2, 2, 2⟩, ⟨3, 2, 2⟩⟩
            (.done [] ⟨.endOfInput, .text "", "", ⟨3, 2, 2⟩,
              ⟨3, 2, 2⟩⟩)) := by
    decide +kernel
  obtain ⟨s, s', hs, h, -⟩ := shift_ofText hstream rfl rfl
  exact ⟨s, _, s', hs, h, (lineBreak_of_shift hs h).1⟩

/-- After a string over two lines a parse sees a line break where there
is none, so the line breaks that it sees are not those between tokens. -/
theorem lineBreak_within_string :
    ¬∀ (text : List Char) (tolerant : Bool) (s s' : ParseState) (t : Token),
      (ParseState.ofText text tolerant).Reaches s →
      Parse.shift s = .ok t s' → t.isEnd = false →
      (s'.lineBreak = true ↔
        breaksLine (textBetween text t.span.stop.offset
          s'.lookahead.span.start.offset) = true) := by
  intro hall
  have hstream : TokenStream.ofText "'a\\\nb' c".toList
      = .token [] ⟨.string, .text "ab", "'a\\\nb'", ⟨0, 1, 0⟩, ⟨6, 2, 4⟩⟩
          (.token [] ⟨.identifier, .text "c", "c", ⟨7, 2, 4⟩, ⟨8, 2, 4⟩⟩
            (.done [] ⟨.endOfInput, .text "", "", ⟨8, 2, 4⟩,
              ⟨8, 2, 4⟩⟩)) := by
    decide +kernel
  obtain ⟨s, s', hs, h, hnext⟩ := shift_ofText hstream rfl rfl
  have hlineBreak := (Parse.shift_lineBreak h).2
  rw [← (Parse.shift_lineBreak h).1, hnext] at hlineBreak
  have hbetween := (hall _ false s s' _ hs h rfl).1 hlineBreak
  rw [hnext] at hbetween
  revert hbetween
  decide

end ScriptTree
