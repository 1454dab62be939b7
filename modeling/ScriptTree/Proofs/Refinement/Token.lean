/-
A parser reads tokens as the grammar does.

# The token pump

To consume the lookahead, a parser passes over what stands before the next
token, marks the place where that starts, and reads it
(`ParserState.Poised`). The grammar has the token, and the comments before
it, at hand in its stream. A mark is set only where the reader has moved;
where it has not, the mark set before is right.

# Looking on

A parser has more than one way to see what comes next. It may send its
reader ahead and back, and for a semicolon it looks at the byte in the
text. Side by side with the grammar neither tells it anything that the
stream of tokens does not.
-/
import ScriptTree.Proofs.Refinement

namespace ScriptTree

variable (m : Machine) {text : List Char} {options : Options}

-- ======================================================= the token pump

/-- Who walks and does not get further has not moved. -/
theorem Cursor.Walks.position_eq {c d : Cursor} {mayBreak : Bool}
    (h : c.Walks mayBreak d) (hle : d.position.offset ≤ c.position.offset) :
    d.position = c.position := by
  have hforward {c d : Cursor} (h : c.Walks mayBreak d) :
      c.position.offset ≤ d.position.offset := by
    obtain ⟨word, lines, hreads, -⟩ := h.reads
    rw [hreads.offset]
    exact Nat.le_add_right _ _
  induction h with
  | refl => rfl
  | @char c d ch rest hrest _ hwalk _ =>
      have hstep := (Cursor.reads_advance hrest).offset
      have hlater := hforward hwalk
      have hpos := byteLength_pos (List.cons_ne_nil ch [])
      omega
  | @lineBreak c next d _ hbreak hwalk _ =>
      have hlater := hforward hwalk
      have hstep : c.position.offset < next.position.offset := by
        rcases lineBreak?_eq_some.1 hbreak with
          ⟨rest, -, rfl⟩ | ⟨ch, rest, -, -, -, rfl⟩
        · exact Nat.lt_add_of_pos_right Nat.two_pos
        · exact Nat.lt_add_of_pos_right ch.utf8Size_pos
      omega
  | braces _ ih => exact ih hle

/-- What is read from a sound cursor on can be cut out of the text. -/
theorem Cursor.Sound.textWithin?_eq {c d : Cursor} {word : List Char}
    {lines : Nat} (h : c.Sound text) (hr : c.Reads word lines d) :
    textWithin? c.position.offset d.position.offset text = some word := by
  obtain ⟨before, htext, hoffset⟩ := h.rest
  refine textWithin?_eq_some.2 ⟨before, d.rest, ?_, hoffset.symm, hr.offset⟩
  rw [List.append_assoc, ← hr.rest]
  exact htext

namespace ParserState

variable {K : Context → Prop} {p : ParserState} {s : ParseState}

/-- A parser that has passed over what stands before the next token, and
has marked the place. -/
structure Poised (text : List Char) (options : Options)
    (K : Context → Prop) (p : ParserState) (s : ParseState) : Prop where
  configured : p.options = options
  keeps : p.reader.keepsComments = options.comment
  cursor : p.reader.cursor.Sound text
  log : p.reader.log = s.log
  lookahead : p.lookahead = s.lookahead
  startMark : p.start = p.reader.cursor.position.mark
  lastMark : p.last = s.lookahead.span.stop.mark
  last : s.lookahead.span.stop.Sound text
  tells : p.Tells options s
  context : K p.context

/-- A comment is located as the options ask for. -/
theorem note_agrees (hp : p.options = options) {comment : Comment}
    (h : comment.Sound text) :
    @note m.arithmetic p comment = { p with
      events := p.events.push (.comment comment)
      comments := p.comments.push
        (options.locateEntry (.comment comment)) } := by
  unfold note
  simp only [h.start.lineColumn_agrees m, h.stop.lineColumn_agrees m, hp]
  rfl

/-- Comments that are passed over are reported and kept one by one. -/
theorem foldl_note (hp : p.options = options) {comments : List Comment}
    (hsound : ∀ comment ∈ comments, comment.Sound text) :
    comments.foldl (@note m.arithmetic) p = { p with
      events := p.events ++ (comments.map Event.comment).toArray
      comments := p.comments ++ (comments.map fun comment =>
        options.locateEntry (.comment comment)).toArray } := by
  induction comments generalizing p with
  | nil => simp
  | cons comment comments ih =>
      have hcomment := hsound comment List.mem_cons_self
      have hrest : ∀ c ∈ comments, c.Sound text :=
        fun c hc => hsound c (List.mem_cons_of_mem _ hc)
      rw [List.foldl_cons, note_agrees m hp hcomment]
      refine Eq.trans (ih ?_ hrest) ?_
      · exact hp
      · simp

/-- Passing over comments, a parser keeps and reports what the grammar
does. -/
theorem Tells.pass (h : p.Tells options s) (hp : p.options = options)
    {comments : List Comment}
    (hsound : ∀ comment ∈ comments, comment.Sound text) :
    ((if options.comment then comments else []).foldl
      (@note m.arithmetic) p).Tells options (s.pass comments) := by
  by_cases hcomment : options.comment = true
  · rw [if_pos hcomment, foldl_note m hp hsound]
    refine ⟨h.tokens, ?_, ?_⟩
    · simp [ParseState.pass, h.comments, hcomment]
    · have hall : comments.filter (fun _ => true) = comments :=
        List.filter_eq_self.2 fun _ _ => rfl
      simp [ParseState.pass, h.events, List.filter_map, Function.comp_def,
        Options.tells, hcomment, hall]
  · rw [if_neg hcomment]
    refine ⟨h.tokens, ?_, ?_⟩
    · simp [h.comments, hcomment]
    · simp [ParseState.pass, h.events, List.filter_map, Function.comp_def,
        Options.tells, hcomment]

/-- Where the reader has not moved, the place is marked already. -/
theorem Meets.markStart [NameProperties]
    (h : p.Meets text options K s) {q : ParserState}
    {stop : Cursor} (hwalk : p.reader.cursor.Walks true stop)
    (hq : q.reader.cursor = stop) (hstart : q.start = p.start) :
    @ParserState.markStart m.arithmetic q
      = { q with start := stop.position.mark } := by
  have hsound := (h.cursor.walks hwalk).position
  unfold ParserState.markStart here
  rw [hq, hstart, h.startMark, hsound.mark_agrees m]
  split
  case isTrue => rfl
  case isFalse hsame =>
    have hoffset : stop.position.offset
        = s.lookahead.span.start.offset := not_not.1 hsame
    obtain ⟨word, lines, hreads, -⟩ := hwalk.reads
    have hforward := hreads.offset
    rw [h.reader.position] at hforward
    have hplace : stop.position = s.lookahead.span.start := by
      rcases h.ordered with hempty | hlt
      · rw [hempty, ← h.reader.position]
        apply hwalk.position_eq
        rw [hoffset, hempty, ← h.reader.position]
      · omega
    rw [hplace, ← h.startMark, ← hstart]

/-- Before a token is read, a parser passes over what stands in front of
it, and marks the place. -/
theorem Meets.poised [NameProperties] (h : p.Meets text options K s) :
    ∃ q, q.Poised text options K (s.pass s.rest.next.1) ∧
      q.reader.cursor = p.reader.cursor.skipTrivia.2 ∧
      @ParserState.markStart m.arithmetic (@collectComments m.arithmetic
        { p with last := @here m.arithmetic p }) = q := by
  have hwalk := Cursor.walks_skipTrivia p.reader.cursor
  have hhere : @here m.arithmetic p = s.lookahead.span.stop.mark := by
    unfold here
    rw [h.cursor.position.mark_agrees m, h.reader.position]
  have hcomments : s.rest.next.1 = p.reader.cursor.skipTrivia.1 := by
    rw [h.reader.rest, TokenStream.next_eq]
  have hsound : ∀ comment ∈ p.reader.cursor.skipTrivia.1,
      comment.Sound text := h.cursor.skipTriviaWithin _
  -- The state that has passed over the comments.
  let passed : ParserState := { p with
    last := s.lookahead.span.stop.mark
    reader := { p.reader with cursor := p.reader.cursor.skipTrivia.2 } }
  have htold : passed.Tells options s :=
    ⟨h.tells.tokens, h.tells.comments, h.tells.events⟩
  have htells := htold.pass m h.configured hsound
  have hcollect : @collectComments m.arithmetic
      { p with last := @here m.arithmetic p }
      = (if options.comment then p.reader.cursor.skipTrivia.1
          else []).foldl (@note m.arithmetic) passed := by
    unfold collectComments
    rw [TokenReader.skipTrivia_agrees m h.cursor, hhere, ← h.keeps]
    rfl
  obtain ⟨events, kept, hfold⟩ := @foldl_note_frame m.arithmetic
    (if options.comment then p.reader.cursor.skipTrivia.1 else []) passed
  rw [hfold] at hcollect htells
  rw [hcollect, hcomments]
  refine ⟨_, ?_, rfl, h.markStart m hwalk rfl rfl⟩
  exact {
    configured := h.configured
    keeps := h.keeps
    cursor := h.cursor.walks hwalk
    log := h.reader.log.symm
    lookahead := h.lookahead
    startMark := rfl
    lastMark := rfl
    last := h.reader.position ▸ h.cursor.position
    tells := ⟨htells.tokens, htells.comments, htells.events⟩
    context := h.context }

/-- A token that was just read has its text. -/
theorem Poised.quote_agrees [NameProperties]
    (h : p.Poised text options K s) {t : Token}
    {stop : Cursor} (htoken : Cursor.token p.reader.cursor = .ok t stop) :
    textWithin? t.span.start.offset t.span.stop.offset text
      = some t.raw.toList := by
  rcases Cursor.token_ends htoken with
    ⟨-, -, rfl, rfl⟩ | ⟨-, word, lines, -, hreads, hraw, hspan⟩
  · exact h.cursor.textWithin?_eq (.refl _)
  · rw [hspan, hraw, String.toList_ofList]
    exact h.cursor.textWithin?_eq hreads

/-- A token whose text can be cut out of the source has that text. -/
theorem quote_eq {q : ParserState} {t : Token}
    (hsource : q.reader.cursor.source = text)
    (h : textWithin? t.span.start.offset t.span.stop.offset text
      = some t.raw.toList) : @quote m.arithmetic q t = t := by
  unfold quote
  rw [hsource, m.exact.textWithin h, String.ofList_toList]

/-- A token that was just read is kept with its location. -/
theorem Poised.tokenEntry_eq [NameProperties]
    (h : p.Poised text options K s) {t : Token}
    {stop : Cursor} (htoken : Cursor.token p.reader.cursor = .ok t stop)
    {q : ParserState} (hq : q.options = options)
    (hstart : q.start = p.start) (hstop : q.reader.cursor = stop) :
    @tokenEntry m.arithmetic q t = options.locateEntry (.token t) := by
  obtain ⟨hstopSound, -, -⟩ := h.cursor.token htoken
  have hspan := Cursor.token_span htoken
  have hquote : @quote m.arithmetic q t = t :=
    quote_eq m (hstop ▸ hstopSound.source) (h.quote_agrees htoken)
  have hhere : @here m.arithmetic q = t.span.stop.mark := by
    unfold here
    rw [hstop, hstopSound.position.mark_agrees m, hspan]
  have hmark : q.start = t.span.start.mark := by
    rw [hstart, h.startMark, hspan]
  unfold tokenEntry
  rw [hquote, hhere, hmark, hq]
  rfl

/-- A token is kept if tokens are asked for and it is not the end. -/
theorem keepToken_eq [Arithmetic] {q : ParserState} {t : Token}
    {entry : LocatedEntry} (hq : q.options = options)
    (hentry : q.tokenEntry t = entry) :
    q.keepToken t = { q with tokens :=
      if options.tokens && !t.isEnd then q.tokens.push entry
      else q.tokens } := by
  subst hq hentry
  unfold keepToken
  split
  case isTrue => rfl
  case isFalse => rfl

/-- What becomes of a parser that looks at the token that it has read. -/
theorem Poised.lookAt_eq [NameProperties]
    (h : p.Poised text options K s) {t : Token}
    {stop : Cursor} (htoken : Cursor.token p.reader.cursor = .ok t stop)
    (log : DiagnosticLog) :
    @ParserState.lookAt m.arithmetic
      { p with reader := { p.reader with cursor := stop, log } } t
    = { p with
        reader := { p.reader with cursor := stop, log }
        lookahead := t
        lineBreak := p.lookahead.span.start.line ≠ t.span.start.line
        tokens := if options.tokens && !t.isEnd then
          p.tokens.push (options.locateEntry (.token t)) else p.tokens } := by
  let q : ParserState := { p with
    reader := { p.reader with cursor := stop, log }
    lineBreak := p.lookahead.span.start.line ≠ t.span.start.line }
  have hq : q.options = options := h.configured
  have hentry : @tokenEntry m.arithmetic q t
      = options.locateEntry (.token t) :=
    h.tokenEntry_eq m htoken hq rfl rfl
  show { @keepToken m.arithmetic q t with lookahead := t } = _
  rw [@keepToken_eq _ m.arithmetic q t _ hq hentry]

/-- With the token that was read in place of the lookahead, a parser is
side by side with the grammar. -/
theorem Poised.lookAt [NameProperties]
    (h : p.Poised text options K s) {t : Token}
    {stop : Cursor} (htoken : Cursor.token p.reader.cursor = .ok t stop)
    (log : DiagnosticLog) :
    (@ParserState.lookAt m.arithmetic
      { p with reader := { p.reader with cursor := stop, log } } t).Beside
      text options K ({ s with log }.consume t
        (.fromCursor stop.rest.length stop)) := by
  obtain ⟨hstop, ht, hstart⟩ := h.cursor.token htoken
  have hspan := Cursor.token_span htoken
  have hends : stop.position = t.span.stop := by rw [hspan]
  have hordered : t.span.start = t.span.stop ∨
      t.span.start.offset < t.span.stop.offset := by
    rcases Cursor.token_ends htoken with
      ⟨-, -, -, rfl⟩ | ⟨-, word, lines, hne, hreads, -, -⟩
    · exact .inl rfl
    · right
      have hforward := hreads.offset
      have hpos := byteLength_pos hne
      rw [hspan]
      show p.reader.cursor.position.offset < stop.position.offset
      omega
  have hbyte (hsemicolon : byteAt? p.start.index stop.source
      = some 0x3B) : t.isPunctuator ";" = true := by
    rw [h.startMark, hstop.source] at hsemicolon
    exact h.cursor.isPunctuator_of_byte hsemicolon htoken
  have htokens : (if options.tokens && !t.isEnd then
      p.tokens.push (options.locateEntry (.token t)) else p.tokens).toList
      = if options.tokens then (if t.isEnd then s.tokens
          else s.tokens.push t).toList.map (options.locateEntry <| .token ·)
        else [] := by
    have htold := h.tells.tokens
    by_cases hwanted : options.tokens = true
    · by_cases hend : t.isEnd = true
      · simp [hwanted, hend, htold]
      · simp [hwanted, hend, htold]
    · simp [hwanted, htold]
  rw [h.lookAt_eq m htoken]
  exact {
    configured := h.configured
    keeps := h.keeps
    cursor := hstop
    reader := ⟨hends, rfl, rfl⟩
    lookahead := rfl
    lineBreak := by
      rw [h.lookahead]
      rfl
    startMark := by
      show p.start = t.span.start.mark
      rw [h.startMark, hspan]
    lastMark := h.lastMark
    start := ht.start
    last := h.last
    ordered := hordered
    cut := h.quote_agrees htoken
    tells := ⟨htokens, h.tells.comments, h.tells.events⟩
    context := h.context
    semicolon := fun hmark => hbyte (by simpa [atSemicolon] using hmark)
    word := Cursor.text?_of_keyword htoken }

/-- A parser consumes a token as the grammar does. -/
theorem Meets.nextToken [NameProperties] (h : p.Meets text options K s) :
    Carries text options (fun t c => t = s.lookahead ∧ K c) id
      (@Parser.nextToken _ m.arithmetic p) (Parse.shift s) := by
  obtain ⟨q, hq, hcursor, hpump⟩ := h.poised m
  have hstream := TokenStream.next_eq p.reader.cursor
  rw [← h.reader.rest] at hstream
  have hsecond := congrArg Prod.snd hstream
  dsimp only at hsecond
  have hnext : s.rest.next = (s.rest.next.1, s.rest.next.2) := rfl
  rw [hsecond] at hnext
  unfold Parser.nextToken Parse.shift
  simp only [hpump, TokenReader.token_agrees m hq.cursor]
  rw [hnext]
  unfold TokenReader.token
  rw [hcursor, hq.log]
  cases htoken : Cursor.token p.reader.cursor.skipTrivia.2 with
  | error d stop => exact .refused hq.tells.events
  | ok t stop =>
      have hread : Cursor.token q.reader.cursor = .ok t stop :=
        hcursor ▸ htoken
      dsimp only
      cases haccept : (s.pass s.rest.next.1).log.accept t with
      | error d => exact .refused hq.tells.events
      | ok log =>
          have hbeside := hq.lookAt m hread log
          refine Carries.pure (f := id) ?_ hq.lookahead.symm
          exact { hbeside with context := ⟨rfl, hbeside.context⟩ }

end ParserState

namespace ParserState.Beside

variable {K : Context → Prop} {p : ParserState} {s : ParseState}

theorem shift [NameProperties] (h : p.Beside text options K s) :
    Carries text options (fun t c => t = s.lookahead ∧ K c) id
      (@Parser.nextToken _ m.arithmetic p) (Parse.shift s) :=
  h.toMeets.nextToken m

/-- What else is known at a place does not matter to the two. -/
theorem forget [NameProperties] {P : Prop}
    (h : p.Beside text options (fun c => P ∧ K c) s) :
    p.Beside text options K s :=
  { h with context := h.context.2 }

/-- Both consume the lookahead, and the parser looks at it once more. -/
theorem take [NameProperties] (h : p.Beside text options K s) :
    Carries text options (fun _ => K) (fun _ => s.lookahead)
      (@Parser.nextToken _ m.arithmetic p) (Parse.skip s) := by
  have hshift := h.shift m
  unfold Parse.skip
  generalize @Parser.nextToken _ m.arithmetic p = r at hshift
  generalize hy : Parse.shift s = r' at hshift
  cases hshift with
  | ok hb =>
      rw [bind_of_ok hy]
      exact .pure (f := fun _ => s.lookahead) hb.forget hb.context.1.symm
  | refused hevents =>
      rw [bind_of_error hy]
      exact .refused hevents
  | exhausted =>
      rw [bind_of_error hy]
      exact .exhausted

/-- The token that is refused is consumed before. -/
theorem refuseNext [NameProperties]
    {α β : Type} {L : β → Context → Prop} {f : β → α}
    (h : p.Beside text options K s) :
    Carries text options L f
      ((@Parser.nextToken _ m.arithmetic >>= @Parser.unexpected α
        m.arithmetic) p)
      ((Parse.shift >>= Parse.unexpected) s) :=
  (h.shift m).bind fun t _ _ h' => h'.unexpected m t

theorem skip [NameProperties] (h : p.Beside text options K s) :
    Carries text options (fun _ => K) id (@Parser.skip _ m.arithmetic p)
      (Parse.skip s) :=
  (h.shift m).bind fun _ _ _ h' => .pure h'.forget rfl

theorem expect [NameProperties]
    (h : p.Beside text options K s) (mark : String) :
    Carries text options (fun _ => K) id
      (@Parser.expect _ m.arithmetic mark p) (Parse.expect mark s) := by
  refine (h.shift m).bind fun t p' s' h' => ?_
  apply Carries.ite
  · exact fun _ => .pure h'.forget rfl
  · exact fun _ => h'.unexpected m t

theorem expectWord [NameProperties]
    (h : p.Beside text options K s) (word : String) :
    Carries text options (fun _ => K) id
      (@Parser.expectWord _ m.arithmetic word p)
      (Parse.expectWord word s) := by
  refine (h.shift m).bind fun t p' s' h' => ?_
  apply Carries.ite
  · exact fun _ => .pure h'.forget rfl
  · exact fun _ => h'.unexpected m t

/-- A parser makes sure of the punctuator that the grammar has seen. -/
theorem expect_skip [NameProperties]
    (h : p.Beside text options K s) {mark : String}
    (hmark : s.lookahead.isPunctuator mark = true) :
    Carries text options (fun _ => K) id
      (@Parser.expect _ m.arithmetic mark p) (Parse.skip s) := by
  refine (h.shift m).bind fun t p' s' h' => ?_
  rw [← h'.context.1] at hmark
  dsimp only [id]
  rw [if_pos hmark]
  exact .pure h'.forget rfl

/-- A parser makes sure of the word that the grammar has seen. -/
theorem expectWord_skip [NameProperties]
    (h : p.Beside text options K s) {word : String}
    (hword : s.lookahead.isKeyword word = true) :
    Carries text options (fun _ => K) id
      (@Parser.expectWord _ m.arithmetic word p) (Parse.skip s) := by
  refine (h.shift m).bind fun t p' s' h' => ?_
  rw [← h'.context.1] at hword
  dsimp only [id]
  rw [if_pos hword]
  exact .pure h'.forget rfl

-- ============================================================ looking on

/-- The reader of the parser sees what comes next in the stream of the
grammar, and goes back. -/
theorem bindingAhead [NameProperties]
    (h : p.Beside text options K s) (onSameLine : Bool) :
    Carries text options (fun _ => K) id
      (@Parser.bindingAhead _ m.arithmetic onSameLine p)
      (Parse.bindingAhead onSameLine s) := by
  rw [h.reader.bindingAhead_eq]
  unfold Parser.bindingAhead
  rw [TokenReader.peek_agrees m h.cursor]
  have hback := p.reader.peek_back
  generalize hseen : p.reader.peek = seen at hback
  obtain ⟨seen, reader⟩ := seen
  obtain rfl : reader = p.reader := hback
  cases seen with
  | error d => exact .refused h.tells.events
  | ok t =>
      have hbinds : ((!onSameLine || decide (t.span.start.line
          = s.lookahead.span.start.line)) && t.startsBinding)
          = if onSameLine && decide (t.span.start.line
              ≠ s.lookahead.span.start.line) then false
            else t.startsBinding := by
        by_cases hline : t.span.start.line = s.lookahead.span.start.line
        · simp [hline]
        · cases onSameLine <;> simp [hline]
      dsimp only
      rw [hbinds, ← h.lookahead]
      split
      case isTrue => exact .ok (f := id) h
      case isFalse => exact .ok (f := id) h

-- ====================================================== ends of statements

/-- What was consumed last is taken to end where the lookahead starts. -/
theorem extendToLookahead [NameProperties] (h : p.Beside text options K s) :
    Carries text options (fun _ => K) id (Parser.extendToLookahead p)
      (Parse.extendToLookahead s) := by
  refine Carries.ok (f := id) (b := ()) ?_
  exact { h with
    reader := ⟨h.reader.position, h.reader.rest, h.reader.log⟩
    lastMark := h.startMark
    last := h.start
    tells := ⟨h.tells.tokens, h.tells.comments, h.tells.events⟩ }

/-- What was consumed last is taken to end where the lookahead does, which
is where the reader stands. -/
theorem standHere [NameProperties] (h : p.Beside text options K s) :
    Carries text options (fun _ => K) id
      (@Parser.standHere m.arithmetic p)
      (Parse.standAt s.lookahead.span.stop s) := by
  have hsound : s.lookahead.span.stop.Sound text :=
    h.reader.position ▸ h.cursor.position
  have hhere : @ParserState.here m.arithmetic p
      = s.lookahead.span.stop.mark := by
    unfold ParserState.here
    rw [h.cursor.position.mark_agrees m, h.reader.position]
  refine Carries.ok (f := id) (b := ()) ?_
  exact { h with
    reader := ⟨h.reader.position, h.reader.rest, h.reader.log⟩
    lastMark := hhere
    last := hsound
    tells := ⟨h.tells.tokens, h.tells.comments, h.tells.events⟩ }

/-- The byte where the lookahead starts tells nothing that the lookahead
does not. -/
theorem atSemicolon_or [NameProperties] (h : p.Beside text options K s) :
    (p.atSemicolon || p.lookahead.isPunctuator ";")
      = s.lookahead.isPunctuator ";" := by
  rw [h.lookahead]
  cases hbyte : p.atSemicolon with
  | true => rw [h.semicolon hbyte, Bool.or_self]
  | false => exact Bool.false_or _

theorem endStatement [NameProperties] (h : p.Beside text options K s) :
    Carries text options (fun _ => K) id
      (@Parser.endStatement _ m.arithmetic p) (Parse.endStatement s) := by
  unfold Parser.endStatement Parse.endStatement
  rw [h.atSemicolon_or, h.lineBreak, h.lookahead, Parse.lookahead_bind]
  split
  case isTrue => exact h.skip m
  case isFalse =>
    rw [Parse.afterLineBreak_bind]
    split
    case isTrue => exact .ok (f := id) h
    case isFalse =>
      split
      case isTrue => exact h.extendToLookahead
      case isFalse => exact h.unexpected m _

end ParserState.Beside

end ScriptTree
