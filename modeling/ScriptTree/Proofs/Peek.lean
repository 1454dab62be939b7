/-
A look beyond the lookahead leaves no trace, and does not lie.

# The reader behind a parse

A parse has the tokens of its text as a stream. They may as well be read
one by one: there is a reader that stands where the lookahead ends, has
the same text ahead and keeps the same log (`ParseState.ReadBy`). What a
shift puts in place of the lookahead is what that reader reads next, and
a shift fails where the reader does. So every state that a parse comes to
has its reader (`Reaches.readBy`).

# Looking and reading

A reader that looks ahead reads on for good and is sent back. All that
happens to it on the way is that its cursor moves and that its log grows
at the end, so it comes back as it was (`TokenReader.peek_back`). What it
has seen depends on its cursor and on the tolerance of its log alone. Both
stay while nothing is consumed, and so the token that was seen is the one
that is read later, and a failure comes again as well.
-/
import ScriptTree.Parser.State
import ScriptTree.Proofs.LineBreak
import ScriptTree.Proofs.Log
import ScriptTree.Proofs.Steps
import ScriptTree.Token.Peek
import ScriptTree.Source.NameRanges

namespace ScriptTree

variable {r ahead : TokenReader} {s s' : ParseState} {t : Token}
  {d : Diagnostic} {text : List Char} {tolerant : Bool}

-- =========================================================== readers

namespace DiagnosticLog

variable {log log' : DiagnosticLog}

/-- A log that has grown at the end comes back as it was. -/
theorem Extends.rollBack_eq (h : log.Extends log') :
    log'.rollBack log.recorded.length = log := by
  obtain ⟨more, hmore⟩ := h.recorded
  unfold rollBack
  rw [← hmore, List.take_left, h.tolerant]

/-- What a log accepts does not depend on what it has recorded. -/
theorem accept_of_tolerant_eq (h : log'.tolerant = log.tolerant) :
    (∀ next, log.accept t = .ok next → ∃ next', log'.accept t = .ok next') ∧
      ∀ d, log.accept t = .error d → log'.accept t = .error d := by
  unfold accept tolerate
  rw [h]
  by_cases hescaped : t.isEscapedReserved = true
  · by_cases htolerant : log.tolerant = true
    · simp [hescaped, htolerant]
    · simp [hescaped, htolerant]
  · simp [hescaped]

end DiagnosticLog

namespace TokenReader

/-- The next token is the one after the trivia. -/
theorem next_ok [NameProperties] :
    r.next = .ok t ahead ↔ ∃ stop log,
      Cursor.token r.cursor.skipTrivia.2 = .ok t stop ∧
      r.log.accept t = .ok log ∧
      ahead = { r with cursor := stop, log } :=
  token_eq_ok (r := { r with cursor := r.cursor.skipTrivia.2 })

theorem next_error [NameProperties] :
    r.next = .error d ahead ↔
      (∃ stop, Cursor.token r.cursor.skipTrivia.2 = .error d stop ∧
        ahead = { r with cursor := stop }) ∨
      ∃ t stop, Cursor.token r.cursor.skipTrivia.2 = .ok t stop ∧
        r.log.accept t = .error d ∧
        ahead = { r with cursor := r.cursor.skipTrivia.2 } :=
  token_eq_error (r := { r with cursor := r.cursor.skipTrivia.2 })

theorem backTo_eq (hlog : r.log.Extends ahead.log)
    (hkeeps : ahead.keepsComments = r.keepsComments) :
    ahead.backTo r = r := by
  unfold backTo
  rw [hlog.rollBack_eq, hkeeps]

/-- Looking ahead leaves the reader as it was. -/
theorem peek_back [NameProperties] (r : TokenReader) : r.peek.2 = r := by
  unfold peek
  split
  case h_1 t ahead hnext =>
    obtain ⟨stop, log, -, haccept, rfl⟩ := next_ok.1 hnext
    exact backTo_eq (.of_accept haccept) rfl
  case h_2 d ahead hnext =>
    rcases next_error.1 hnext with
      ⟨stop, -, rfl⟩ | ⟨t, stop, -, -, rfl⟩
    · exact backTo_eq (.refl r.log) rfl
    · exact backTo_eq (.refl r.log) rfl

/-- What is seen is what is read next. -/
theorem peek_ok [NameProperties] :
    r.peek.1 = .ok t ↔ ∃ ahead, r.next = .ok t ahead := by
  unfold peek
  cases r.next with
  | ok t' ahead => simp
  | error d ahead => simp

theorem peek_error [NameProperties] :
    r.peek.1 = .error d ↔ ∃ ahead, r.next = .error d ahead := by
  unfold peek
  cases r.next with
  | ok t ahead => simp
  | error d' ahead => simp

/-- What was recorded makes no difference to what is seen. -/
theorem peek_fst_eq [NameProperties]
    {r' : TokenReader} (hcursor : r'.cursor = r.cursor)
    (htolerant : r'.log.tolerant = r.log.tolerant) :
    r'.peek.1 = r.peek.1 := by
  cases hseen : r.peek.1 with
  | ok t =>
      obtain ⟨_, hnext⟩ := peek_ok.1 hseen
      obtain ⟨stop, log, htoken, haccept, -⟩ := next_ok.1 hnext
      obtain ⟨log', haccept'⟩ :=
        (DiagnosticLog.accept_of_tolerant_eq htolerant).1 log haccept
      rw [← hcursor] at htoken
      exact peek_ok.2 ⟨_, next_ok.2 ⟨stop, log', htoken, haccept', rfl⟩⟩
  | error d =>
      obtain ⟨_, hnext⟩ := peek_error.1 hseen
      rcases next_error.1 hnext with
        ⟨stop, htoken, -⟩ | ⟨t, stop, htoken, haccept, -⟩
      · rw [← hcursor] at htoken
        exact peek_error.2 ⟨_, next_error.2 (.inl ⟨stop, htoken, rfl⟩)⟩
      · have haccept' :=
          (DiagnosticLog.accept_of_tolerant_eq htolerant).2 d haccept
        rw [← hcursor] at htoken
        exact peek_error.2
          ⟨_, next_error.2 (.inr ⟨t, stop, htoken, haccept', rfl⟩)⟩

end TokenReader

-- =========================================================== streams

/-- The next token of a stream is the one that is read, and the stream
after it goes on from there. -/
theorem TokenStream.next_eq [NameProperties] (c : Cursor) :
    (fromCursor c.rest.length c).next = (c.skipTrivia.1,
      match Cursor.token c.skipTrivia.2 with
      | .ok t stop => .ok (t, fromCursor stop.rest.length stop)
      | .error d _ => .error d) := by
  -- The end of the text is followed by itself.
  have hatEnd {start : Cursor} (comments : List Comment)
      (hrest : start.rest = []) :
      (done comments start.endToken).next = (comments,
        match Cursor.token start with
        | .ok t stop => .ok (t, fromCursor stop.rest.length stop)
        | .error d _ => .error d) := by
    simp only [Cursor.token_of_nil hrest, fromCursor_of_rest_nil hrest]
    rfl
  cases hsteps : c.rest.length with
  | zero =>
      have hrest := List.length_eq_zero_iff.1 hsteps
      rw [Cursor.skipTrivia_of_rest_nil hrest]
      exact hatEnd [] hrest
  | succ steps =>
      cases begins c with
      | done hend hstream =>
          rw [hstream]
          exact hatEnd _ hend
      | illegal _ htoken hstream =>
          rw [hstream, htoken]
          rfl
      | @token t stop _ htoken hlt hstream =>
          have hsame : fromCursor steps stop
              = fromCursor stop.rest.length stop :=
            fromCursor_eq (Nat.le_refl _) (by omega)
          rw [hstream, htoken, hsame]
          rfl

-- =========================================================== parsers

namespace ParserState

/-- Nothing else happens to a parser that passes over comments. -/
theorem foldl_note_frame [Arithmetic] (comments : List Comment)
    (p : ParserState) : ∃ events kept,
      comments.foldl note p = { p with events, comments := kept } := by
  induction comments generalizing p with
  | nil => exact ⟨_, _, rfl⟩
  | cons comment comments ih =>
      obtain ⟨events, kept, hrest⟩ := ih (p.note comment)
      exact ⟨events, kept, hrest⟩

/-- Before it reads a token, a parser passes over what stands in front of
it, and keeps its lookahead. -/
theorem collectComments_eq (p : ParserState) :
    p.collectComments.markStart.reader = p.reader.skipTrivia.2 ∧
      p.collectComments.markStart.lookahead = p.lookahead := by
  have hmark (q : ParserState) : q.markStart.reader = q.reader ∧
      q.markStart.lookahead = q.lookahead := by
    unfold markStart
    split
    · exact ⟨rfl, rfl⟩
    · exact ⟨rfl, rfl⟩
  obtain ⟨hreader, hlookahead⟩ := hmark p.collectComments
  obtain ⟨events, kept, hfold⟩ := foldl_note_frame p.reader.skipTrivia.1
    { p with reader := p.reader.skipTrivia.2 }
  have hcollect : p.collectComments = _ := hfold
  rw [hreader, hlookahead, hcollect]
  exact ⟨rfl, rfl⟩

end ParserState

namespace Parser

variable {p : ParserState}

/-- What a parser looks at next is what its reader reads next. -/
theorem nextToken_of_next [NameProperties] (h : p.reader.next = .ok t ahead) :
    ∃ p', nextToken p = .ok p.lookahead p' ∧ p'.lookahead = t := by
  obtain ⟨hreader, hlookahead⟩ :=
    ParserState.collectComments_eq { p with last := p.here }
  have hread : TokenReader.token ({ p with last :=
      p.here }.collectComments.markStart).reader = .ok t ahead := by
    rw [hreader]
    exact h
  unfold nextToken
  simp only [hread]
  exact ⟨_, congrArg (EStateM.Result.ok · _) hlookahead, rfl⟩

theorem nextToken_of_error [NameProperties]
    (h : p.reader.next = .error d ahead) :
    ∃ p', nextToken p = .error (.refused d) p' := by
  obtain ⟨hreader, -⟩ :=
    ParserState.collectComments_eq { p with last := p.here }
  have hread : TokenReader.token ({ p with last :=
      p.here }.collectComments.markStart).reader = .error d ahead := by
    rw [hreader]
    exact h
  unfold nextToken
  simp only [hread]
  exact ⟨_, rfl⟩

/-- A parser that looks ahead is left as it was. -/
theorem bindingAhead_eq [NameProperties]
    (onSameLine : Bool) (p : ParserState) :
    bindingAhead onSameLine p = match p.reader.peek.1 with
      | .error d => .error (.refused d) p
      | .ok t => .ok ((!onSameLine || decide (t.span.start.line
          = p.lookahead.span.start.line)) && t.startsBinding) p := by
  have hback := p.reader.peek_back
  unfold bindingAhead
  generalize p.reader.peek = seen at hback
  obtain ⟨seen, reader⟩ := seen
  obtain rfl : reader = p.reader := hback
  cases seen with
  | error d => rfl
  | ok t =>
      dsimp only
      by_cases hline : t.span.start.line = p.lookahead.span.start.line
      · simp [hline]
      · cases onSameLine with
        | true => simp [hline]
        | false => simp

end Parser

-- ============================================================ parses

namespace ParseState

/-- A reader that has come as far as a parse: it stands where the
lookahead ends, and has the same text ahead and the same log. -/
structure ReadBy [NameProperties]
    (r : TokenReader) (s : ParseState) : Prop where
  position : r.cursor.position = s.lookahead.span.stop
  rest : s.rest = .fromCursor r.cursor.rest.length r.cursor
  log : s.log = r.log

theorem readBy_ofText [NameProperties]
    (text : List Char) (tolerant keeps : Bool) :
    (ofText text tolerant).ReadBy (.ofText text tolerant keeps) where
  position := rfl
  rest := by
    show TokenStream.fromCursor text.length (.ofText text) = _
    rw [← Cursor.ofText_length text]
    rfl
  log := rfl

/-- A shift looks at what the reader reads next. -/
theorem ReadBy.shift_of_next [NameProperties] (h : s.ReadBy r)
    (hnext : r.next = .ok t ahead) :
    ∃ s', Parse.shift s = .ok s.lookahead s' ∧ s'.lookahead = t ∧
      s'.ReadBy ahead := by
  obtain ⟨stop, log, htoken, haccept, rfl⟩ :=
    TokenReader.next_ok.1 hnext
  have hrest : s.rest.next.2
      = .ok (t, .fromCursor stop.rest.length stop) := by
    rw [h.rest, TokenStream.next_eq, htoken]
  have hstop : stop.position = t.span.stop := by
    rw [Cursor.token_span htoken]
  rw [← h.log] at haccept
  exact ⟨_, Parse.shift_ok.2 ⟨rfl, t, _, log, hrest, haccept, rfl⟩, rfl,
    hstop, rfl, rfl⟩

/-- A shift fails where the reader does. -/
theorem ReadBy.shift_of_error [NameProperties] (h : s.ReadBy r)
    (hnext : r.next = .error d ahead) :
    ∃ s', Parse.shift s = .error (.refused d) s' := by
  apply Exists.intro (s.pass s.rest.next.1)
  have hlog : (s.pass s.rest.next.1).log = r.log := h.log
  unfold Parse.shift
  simp only [hlog]
  rw [h.rest, TokenStream.next_eq]
  rcases TokenReader.next_error.1 hnext with
    ⟨stop, htoken, -⟩ | ⟨t, stop, htoken, haccept, -⟩
  · rw [htoken]
  · rw [htoken]
    simp only [haccept]

/-- To look beyond the lookahead is to look ahead with the reader. -/
theorem ReadBy.bindingAhead_eq [NameProperties]
    (h : s.ReadBy r) (onSameLine : Bool) :
    Parse.bindingAhead onSameLine s = match r.peek.1 with
      | .ok t => .ok ((!onSameLine || decide
          (t.span.start.line = s.lookahead.span.start.line))
            && t.startsBinding) s
      | .error d => .error (.refused d) s := by
  unfold Parse.bindingAhead
  rw [h.rest, TokenStream.next_eq, h.log]
  cases hseen : r.peek.1 with
  | ok t =>
      obtain ⟨_, hnext⟩ := TokenReader.peek_ok.1 hseen
      obtain ⟨stop, log, htoken, haccept, -⟩ :=
        TokenReader.next_ok.1 hnext
      simp only [htoken, haccept]
  | error d =>
      obtain ⟨_, hnext⟩ := TokenReader.peek_error.1 hseen
      rcases TokenReader.next_error.1 hnext with
        ⟨stop, htoken, -⟩ | ⟨t, stop, htoken, haccept, -⟩
      · simp only [htoken]
      · simp only [htoken, haccept]

/-- What a parse does to its log, the reader does as well. -/
theorem ReadBy.of_eq [NameProperties] (h : s.ReadBy r)
    (hlookahead : s'.lookahead = s.lookahead) (hrest : s'.rest = s.rest) :
    s'.ReadBy { r with log := s'.log } :=
  ⟨hlookahead ▸ h.position, hrest ▸ h.rest, rfl⟩

/-- A step of a parse is one of its reader, which stays in the text. -/
theorem ReadBy.step [NameProperties]
    (h : s.ReadBy r) (hr : r.cursor.StandsIn text) (hstep : s.Step s') :
    ∃ r', r'.cursor.StandsIn text ∧ s'.ReadBy r' := by
  have hstays (hlookahead : s'.lookahead = s.lookahead)
      (hrest : s'.rest = s.rest) :
      ∃ r', r'.cursor.StandsIn text ∧ s'.ReadBy r' :=
    ⟨{ r with log := s'.log }, hr, h.of_eq hlookahead hrest⟩
  cases hstep with
  | shift hshift =>
      cases hnext : r.next with
      | error d ahead =>
          obtain ⟨_, hfails⟩ := h.shift_of_error hnext
          rw [hshift] at hfails
          cases hfails
      | ok t ahead =>
          obtain ⟨_, hshift', -, h'⟩ := h.shift_of_next hnext
          rw [hshift] at hshift'
          cases hshift'
          obtain ⟨htoken, -⟩ := TokenReader.token_cursor hnext
          exact ⟨ahead, (hr.walks (Cursor.walks_skipTrivia _)).walks
            (token_walks htoken).1, h'⟩
  | tolerate htolerate =>
      obtain ⟨-, rfl⟩ := Parse.tolerate_ok.1 htolerate
      exact hstays rfl rfl
  | close hclose =>
      obtain ⟨-, rfl⟩ := Parse.close_ok.1 hclose
      exact hstays rfl rfl
  | standAt hstand =>
      cases hstand
      exact hstays rfl rfl

/-- Every state that a parse comes to has its reader. -/
theorem Reaches.readBy [NameProperties]
    (h : (ofText text tolerant).Reaches s) :
    ∃ r, r.cursor.StandsIn text ∧ s.ReadBy r := by
  induction h with
  | refl =>
      exact ⟨_, Cursor.standsIn_ofText text,
        readBy_ofText text tolerant true⟩
  | tail _ hstep ih =>
      obtain ⟨r, hr, hread⟩ := ih
      exact hread.step hr hstep

/-- While nothing is consumed, the same token is seen. -/
theorem ReadBy.stays [NameProperties] (h : s.ReadBy r) (hstays : s.Stays s') :
    ∃ r', s'.ReadBy r' ∧ r'.peek.1 = r.peek.1 := by
  refine ⟨_, h.of_eq hstays.lookahead hstays.rest,
    TokenReader.peek_fst_eq rfl ?_⟩
  show s'.log.tolerant = r.log.tolerant
  rw [hstays.reaches.log.tolerant, h.log]

end ParseState

/-- Wherever a parse has come to, a look beyond the lookahead leaves both
the parse and the reader behind it as they were: the cursor with its place,
its line and its braces, the log, the lookahead, and all that was reported
or collected. The token that is seen becomes the lookahead when the
lookahead is consumed next, all of it, and a failure stops the parse then
as it does now. The same holds of a parser in any state, whatever else
becomes of it before it reads on. -/
theorem lookahead_leaves_no_trace [NameProperties]
    (h : (ParseState.ofText text tolerant).Reaches s) (onSameLine : Bool) :
    (∃ r, r.cursor.StandsIn text ∧ s.ReadBy r) ∧
    (∀ r, s.ReadBy r → ∃ seen, r.peek = (seen, r) ∧
      (∀ t, seen = .ok t →
        Parse.bindingAhead onSameLine s = .ok ((!onSameLine || decide
          (t.span.start.line = s.lookahead.span.start.line))
            && t.startsBinding) s ∧
        ∀ s₁, s.Stays s₁ → ∃ s₂,
          Parse.shift s₁ = .ok s₁.lookahead s₂ ∧ s₂.lookahead = t) ∧
      (∀ d, seen = .error d →
        Parse.bindingAhead onSameLine s = .error (.refused d) s ∧
        ∀ s₁, s.Stays s₁ → ∃ s₂,
          Parse.shift s₁ = .error (.refused d) s₂)) ∧
    ∀ p : ParserState, ∃ seen, p.reader.peek = (seen, p.reader) ∧
      (∀ t, seen = .ok t →
        Parser.bindingAhead onSameLine p = .ok ((!onSameLine || decide
          (t.span.start.line = p.lookahead.span.start.line))
            && t.startsBinding) p ∧
        ∀ p₁ : ParserState, p₁.reader.cursor = p.reader.cursor →
          p₁.reader.log.tolerant = p.reader.log.tolerant →
          ∃ p₂, Parser.nextToken p₁ = .ok p₁.lookahead p₂ ∧
            p₂.lookahead = t) ∧
      (∀ d, seen = .error d →
        Parser.bindingAhead onSameLine p = .error (.refused d) p ∧
        ∀ p₁ : ParserState, p₁.reader.cursor = p.reader.cursor →
          p₁.reader.log.tolerant = p.reader.log.tolerant →
          ∃ p₂, Parser.nextToken p₁ = .error (.refused d) p₂) := by
  refine ⟨h.readBy, fun r hread => ⟨r.peek.1, ?_, ?_, ?_⟩,
    fun p => ⟨p.reader.peek.1, ?_, ?_, ?_⟩⟩
  · exact Prod.ext rfl r.peek_back
  · intro t hseen
    constructor
    · rw [hread.bindingAhead_eq, hseen]
    · intro s₁ hstays
      obtain ⟨r₁, hread₁, hsame⟩ := hread.stays hstays
      obtain ⟨ahead, hnext⟩ :=
        TokenReader.peek_ok.1 (hsame.trans hseen)
      obtain ⟨s₂, hshift, hlookahead, -⟩ := hread₁.shift_of_next hnext
      exact ⟨s₂, hshift, hlookahead⟩
  · intro d hseen
    constructor
    · rw [hread.bindingAhead_eq, hseen]
    · intro s₁ hstays
      obtain ⟨r₁, hread₁, hsame⟩ := hread.stays hstays
      obtain ⟨ahead, hnext⟩ :=
        TokenReader.peek_error.1 (hsame.trans hseen)
      exact hread₁.shift_of_error hnext
  · exact Prod.ext rfl p.reader.peek_back
  · intro t hseen
    constructor
    · rw [Parser.bindingAhead_eq, hseen]
    · intro p₁ hcursor htolerant
      have hsame := TokenReader.peek_fst_eq hcursor htolerant
      obtain ⟨ahead, hnext⟩ :=
        TokenReader.peek_ok.1 (hsame.trans hseen)
      exact Parser.nextToken_of_next hnext
  · intro d hseen
    constructor
    · rw [Parser.bindingAhead_eq, hseen]
    · intro p₁ hcursor htolerant
      have hsame := TokenReader.peek_fst_eq hcursor htolerant
      obtain ⟨ahead, hnext⟩ :=
        TokenReader.peek_error.1 (hsame.trans hseen)
      exact Parser.nextToken_of_error hnext

/-- A word in escapes after a comment is seen, and recorded only when it
is read. -/
theorem lookahead_leaves_no_trace_escape :
    let text := "let // c\nl\\u0065t".toList
    let word : Token := ⟨.keyword, .text "let", "l\\u0065t",
      ⟨⟨9, 2, 9⟩, ⟨17, 2, 9⟩⟩⟩
    ∃ s r, (ParseState.ofText text true).Reaches s ∧ s.ReadBy r ∧
      r.peek = (.ok word, r) ∧ r.log.recorded = [] ∧
      Parse.bindingAhead false s = .ok true s ∧
      Parse.bindingAhead true s = .ok false s ∧
      ∃ s', Parse.shift s = .ok s.lookahead s' ∧ s'.lookahead = word := by
  intro text word
  let start : TokenReader := .ofText text true true
  let first : Token := ⟨.keyword, .text "let", "let",
    ⟨⟨0, 1, 0⟩, ⟨3, 1, 0⟩⟩⟩
  let r : TokenReader :=
    ⟨⟨text, ⟨3, 1, 0⟩, 0⟩, ⟨true, []⟩, true⟩
  have hfirst : start.next = .ok first r := by
    apply TokenReader.next_ok.2
    refine ⟨r.cursor, ⟨true, []⟩, ?_, rfl, rfl⟩
    decide +kernel
  have hseen : r.peek.1.toOption = some word := by decide +kernel
  obtain ⟨s, hshift, hlookahead, hread⟩ :=
    (ParseState.readBy_ofText text true true).shift_of_next hfirst
  have hs : (ParseState.ofText text true).Reaches s :=
    .single (.shift hshift)
  obtain ⟨seen, hpeek, hok, -⟩ :=
    (lookahead_leaves_no_trace hs false).2.1 r hread
  obtain ⟨seen', hpeek', hok', -⟩ :=
    (lookahead_leaves_no_trace hs true).2.1 r hread
  have hword : seen = .ok word := by
    rw [hpeek] at hseen
    cases seen with
    | ok t => exact congrArg Except.ok (Option.some.inj hseen)
    | error d => cases hseen
  have hword' : seen' = .ok word := by
    rw [hpeek, hword] at hpeek'
    exact (Prod.mk.inj hpeek').1.symm
  obtain ⟨hahead, hnext⟩ := hok word hword
  obtain ⟨hahead', -⟩ := hok' word hword'
  rw [hlookahead] at hahead'
  exact ⟨s, r, hs, hread, hword ▸ hpeek, rfl, hahead, hahead',
    hnext s (.refl s)⟩

end ScriptTree
