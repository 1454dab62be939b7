/-
What stands between the lookahead and what was consumed last.

# Gaps

From the end of one token to the start of the next there are blanks, line
terminators and comments, and nothing else (`Gap`). If none of it breaks
the line, both places have the same line start.

# Trails

A parse holds on to one place behind its lookahead, the end of what was
consumed last. Most of the time that is the end of the token before. It
is the start of the lookahead after a statement without a semicolon, and
the end of the lookahead before the first token is consumed
(`ParseState.Trails`).
-/
import ScriptTree.Proofs.Guard.Script
import ScriptTree.Proofs.Scanning.Failure
import ScriptTree.Proofs.Sound

namespace ScriptTree

variable {source text : List Char} {c d : Cursor} {mayBreak : Bool}

-- ============================================================== gaps

/-- From one offset of a text to another there is nothing but trivia. -/
structure OnlyTrivia (source : List Char) (start stop : Nat) : Prop where
  le : start ≤ stop
  trivia : ∃ comments,
    Trivia source start (textBetween source start stop) comments

/-- What stands between two tokens that follow each other. -/
structure Gap (source : List Char) (p q : Position) : Prop where
  only : OnlyTrivia source p.offset q.offset
  /-- The line goes on, or is broken on the way. -/
  line : q.lineStart = p.lineStart ∨
    breaksLine (textBetween source p.offset q.offset) = true

namespace Cursor

/-- Lines are told apart by where they start. -/
theorem Walks.lineStart_of_line (h : c.Walks mayBreak d)
    (hline : d.position.line = c.position.line) :
    d.position.lineStart = c.position.lineStart := by
  induction h with
  | refl => rfl
  | braces _ ih => exact ih hline
  | @char c d ch rest hrest _ _ ih =>
      have hsame : c.advance.position.line = c.position.line ∧
          c.advance.position.lineStart = c.position.lineStart := by
        rw [advance_position hrest]
        exact ⟨rfl, rfl⟩
      rw [ih (hline.trans hsame.1.symm), hsame.2]
  | @lineBreak c next d _ hbreak hwalk _ =>
      obtain ⟨word, lines, hreads, -⟩ := hwalk.reads
      have hnext : next.position.line = c.position.line + 1 := by
        rcases lineBreak?_eq_some.1 hbreak with
          ⟨rest, -, rfl⟩ | ⟨ch, rest, -, -, -, rfl⟩
        · rfl
        · rfl
      have hle := hreads.line
      omega

/-- A walk that breaks no line stays on it. -/
theorem StandsIn.line_of_walks (h : c.StandsIn source)
    (hw : c.Walks true d) :
    d.position.lineStart = c.position.lineStart ∨
      breaksLine (textBetween source c.position.offset d.position.offset)
        = true := by
  by_cases hline : d.position.line = c.position.line
  · exact .inl (hw.lineStart_of_line hline)
  · right
    rw [(h.breaksLine_eq hw).1]
    simpa using Ne.symm hline

/-- What is passed over is a gap. -/
theorem gap_skipTrivia (h : c.StandsIn source) :
    Gap source c.position c.skipTrivia.2.position := by
  obtain ⟨gap, lines, hreads, htrivia⟩ := trivia_skipTrivia h
  rw [← h.textBetween_eq hreads] at htrivia
  have hle := hreads.offset
  exact ⟨⟨by omega, _, htrivia⟩, h.line_of_walks (walks_skipTrivia c)⟩

theorem gap_refl (h : c.StandsIn source) :
    Gap source c.position c.position := by
  have hnone := h.textBetween_eq (.refl c)
  exact ⟨⟨Nat.le_refl _, [], hnone ▸ .nil⟩, .inl rfl⟩

end Cursor

-- =========================================================== streams

/-- The next token of a stream starts after a gap. -/
theorem TokenStream.gap_fromCursor [NameProperties] {steps : Nat} {t : Token}
    {rest : TokenStream} (h : c.StandsIn source)
    (hnext : (fromCursor steps c).next.2 = .ok (t, rest)) :
    Gap source c.position t.span.start := by
  cases steps with
  | zero =>
      cases hnext
      exact Cursor.gap_refl h
  | succ steps =>
      have hgap := Cursor.gap_skipTrivia h
      cases begins c with
      | done _ hstream =>
          rw [hstream] at hnext
          cases hnext
          exact hgap
      | illegal _ _ hstream =>
          rw [hstream] at hnext
          cases hnext
      | token _ htoken _ hstream =>
          rw [hstream] at hnext
          cases hnext
          rw [Cursor.token_span htoken]
          exact hgap

/-- A stream that has no next token stops where the scan of one does. -/
theorem TokenStream.stops_fromCursor [NameProperties]
    {steps : Nat} {found : Diagnostic}
    (hnext : (fromCursor steps c).next.2 = .error found) :
    c.Stops found := by
  cases steps with
  | zero => cases hnext
  | succ steps =>
      cases begins c with
      | done _ hstream | token _ _ _ hstream =>
          rw [hstream] at hnext
          cases hnext
      | illegal _ htoken hstream =>
          rw [hstream] at hnext
          cases hnext
          exact (failsAt_token htoken).found.after
            (Cursor.walks_skipTrivia c)

-- ============================================================ states

namespace ParseState

variable {s s' : ParseState} {start stop : Cursor} {t : Token}

/-- From the end of the lookahead to the next one there is a gap. -/
theorem Situated.gap_of_shift [NameProperties]
    (hs : s.Situated source start stop) (h : Parse.shift s = .ok t s') :
    Gap source s.lookahead.span.stop s'.lookahead.span.start := by
  obtain ⟨steps, hrest, -⟩ := hs.rest
  obtain ⟨-, next, rest, log, hnext, -, rfl⟩ := Parse.shift_ok.1 h
  rw [hrest] at hnext
  rw [hs.span]
  exact TokenStream.gap_fromCursor (hs.stands.walks hs.walks) hnext

/-- Where the end of what was consumed last is. -/
inductive Trails [NameProperties]
    (text : List Char) (s : ParseState) : Prop where
  /-- A statement was ended without a semicolon. -/
  | atStart : s.last = s.lookahead.span.start → Trails text s
  /-- Nothing was consumed, or there is nothing else to consume. -/
  | atStop : s.last = s.lookahead.span.stop → Trails text s
  | after {t : Token} : t ∈ (TokenStream.ofText text).tokens →
      s.last = t.span.stop → Gap text s.last s.lookahead.span.start →
        Trails text s

theorem Trails.of_eq [NameProperties]
    (h : s.Trails text) (hlast : s'.last = s.last)
    (hlookahead : s'.lookahead = s.lookahead) : s'.Trails text := by
  cases h with
  | atStart h => exact .atStart (by rw [hlast, hlookahead, h])
  | atStop h => exact .atStop (by rw [hlast, hlookahead, h])
  | after hin h hgap =>
      exact .after hin (hlast.trans h) (by rwa [hlast, hlookahead])

theorem Underway.trails_of_shift [NameProperties] (hs : s.Underway text)
    (hseen : s.lookahead.Seen text) (h : Parse.shift s = .ok t s') :
    s'.Trails text := by
  obtain ⟨start, stop, hsit⟩ := hs.situated
  have hgap := hsit.gap_of_shift h
  obtain ⟨-, next, rest, log, hnext, -, rfl⟩ := Parse.shift_ok.1 h
  cases hend : s.lookahead.isEnd with
  | false => exact .after (hseen.mem hend) rfl hgap
  | true =>
      rw [hs.ends hend] at hnext
      cases hnext
      exact .atStop rfl

/-- What is known of the two places that a parse holds on to. -/
structure Traced [NameProperties]
    (text : List Char) (s : ParseState) : Prop where
  underway : s.Underway text
  seen : s.lookahead.Seen text
  trails : s.Trails text
  last : s.last.InText text

namespace Traced

theorem sited [NameProperties] (h : s.Traced text) : s.Sited text :=
  ⟨h.underway.situated, h.last⟩

theorem shift [NameProperties]
    (hs : s.Traced text) (h : Parse.shift s = .ok t s') : s'.Traced text where
  underway := hs.underway.shift h
  seen := hs.underway.keeps.seen_of_shift h
  trails := hs.underway.trails_of_shift hs.seen h
  last := by
    obtain ⟨start, stop, hsit⟩ := hs.underway.situated
    exact (sited_of_shift hsit h).last

/-- What was reported does not count, nor what was recorded. -/
theorem of_eq [NameProperties]
    (hs : s.Traced text) (hlookahead : s'.lookahead = s.lookahead)
    (hrest : s'.rest = s.rest) (htokens : s'.tokens = s.tokens)
    (hcomments : s'.comments = s.comments) (hlast : s'.last = s.last) :
    s'.Traced text where
  underway := hs.underway.of_eq hlookahead hrest htokens hcomments
  seen := hlookahead ▸ hs.seen
  trails := hs.trails.of_eq hlast hlookahead
  last := hlast ▸ hs.last

theorem extend [NameProperties] (hs : s.Traced text) :
    Traced text { s with last := s.lookahead.span.start } where
  underway := hs.underway.of_eq rfl rfl rfl rfl
  seen := hs.seen
  trails := .atStart rfl
  last := hs.sited.lookahead.start

/-- A script starts out from the end of its first token. -/
theorem of_skip [NameProperties] {tolerant : Bool}
    (h : Parse.skip (ofText text tolerant) = .ok () s) :
    Traced text { s with last := s.lookahead.span.stop } where
  underway := (underway_of_skip h).of_eq rfl rfl rfl rfl
  seen := by
    show s.lookahead.Seen text
    exact (keeps_ofText text tolerant).seen_of_shift (Parse.skip_ok.1 h)
  trails := .atStop rfl
  last := by
    obtain ⟨start, stop, hsit⟩ := (underway_of_skip h).situated
    exact hsit.inText.stop

end Traced

end ParseState

end ScriptTree
