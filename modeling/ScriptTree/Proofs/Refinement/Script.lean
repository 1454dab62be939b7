/-
A parser makes of a text what the grammar makes of it.

# The bound

Both go as many levels deep as the text has characters, and one more. The
grammar never gets there (`Parse.script_ends`), and so neither does the
parser: side by side from the first token on, they end the same way.

# Reports

What a parse comes to is therefore the script of the grammar, shown as the
options ask for it, together with what was kept on the way
(`parse_eq_report`). So it is said of a parse, by way of the grammar, what
holds of its scripts. And it makes no difference on which machine the
parser runs (`parse_agrees`).
-/
import ScriptTree.Proofs.Concord.Single
import ScriptTree.Proofs.Refinement.Statement

namespace ScriptTree

open Context

variable (m : Machine) {text : List Char} {options : Options}

-- ============================================================ the start

/-- Before the first token, a parser and the grammar have come to the same
place. -/
theorem ParserState.meets_ofText [NameProperties]
    (text : List Char) (options : Options) :
    (ofText options text).Meets text options (Keeps .ofScript)
      (.ofText text options.tolerant) where
  configured := rfl
  keeps := rfl
  cursor := Cursor.sound_ofText text
  reader := ParseState.readBy_ofText text _ _
  lookahead := rfl
  lineBreak := rfl
  startMark := rfl
  lastMark := rfl
  start := (Cursor.sound_ofText text).position
  last := (Cursor.sound_ofText text).position
  ordered := .inl rfl
  cut := by
    refine textWithin?_eq_some.2 ⟨[], text, rfl, rfl, rfl⟩
  tells := by
    refine ⟨?_, ?_, rfl⟩
    · cases options.tokens <;> rfl
    · cases options.comment <;> rfl
  context := ⟨rfl, rfl, rfl, rfl⟩

/-- Statements and declarations up to the end of the text. -/
theorem carries_script [NameProperties] (text : List Char) (options : Options)
    (depth : Nat) :
    Carries text options (fun _ => Keeps .ofScript)
      (Script.map options.locate)
      (@Parser.script _ m.arithmetic
        (@ParserProductions.ofDepth _ m.arithmetic depth)
        (.ofText options text))
      (Parse.script (.ofDepth depth)
        (.ofText text options.tolerant)) := by
  have hmeets := ParserState.meets_ofText text options
  have hlevels : (@ParserProductions.ofDepth _ m.arithmetic depth).Realizes
      text options (.ofDepth depth) :=
    ParserProductions.realizes_ofDepth m depth
  have hmore {p : ParserState} {s : ParseState}
      (h : p.Beside text options (Keeps .ofScript) s) :
      Carries text options (fun _ => Keeps .ofScript) id
        ((do return !(← Parser.lookahead).isEnd) p)
        ((do return !(← Parse.lookahead).isEnd) s) :=
    h.look (.pure h rfl)
  unfold Parser.script Parse.script Parser.skip Parse.skip
  simp only [bind_assoc, pure_bind]
  rw [hlevels.depth]
  refine (hmeets.nextToken m).bind fun _ p₁ s₁ h₁ => ?_
  have hbegins := h₁.forget
  have hstart := hbegins.start
  rw [Parse.lookahead_bind]
  refine (hbegins.standHere m).bindOk fun _ p₂ s₂ hstand h₂ => ?_
  have hsame : s₂.lookahead = s₁.lookahead := by
    cases hstand
    rfl
  rw [Parser.start_bind, h₂.startMark, hsame]
  refine (carries_collectWhile hmore (hlevels.item ·) h₂ _).bind
    fun body p₃ s₃ h₃ => ?_
  refine h₃.finished m .script hstart (fun _ _ hc => hc) fun span => ?_
  rw [Script.map, Statement.mapAll_eq]

-- ============================================================ the bound

namespace ParseState

/-- After the first token there are no more ahead than the text has
characters. -/
theorem ahead_le_of_skip [NameProperties] {tolerant : Bool} {s : ParseState}
    (h : Parse.skip (ofText text tolerant) = .ok () s) :
    s.ahead ≤ text.length := by
  obtain ⟨-, next, rest, log, hnext, -, rfl⟩ :=
    Parse.shift_ok.1 (Parse.skip_ok.1 h)
  obtain ⟨htokens, -⟩ :=
    (TokenStream.formed_ofText text).next_parts hnext
  have hle : (TokenStream.ofText text).tokens.length ≤ text.length :=
    TokenStream.tokens_length_le text.length (.ofText text)
  unfold ahead
  show (if next.isEnd then 0 else rest.tokens.length + 1) ≤ text.length
  split
  case isTrue => exact Nat.zero_le _
  case isFalse hend =>
    rw [htokens, if_neg hend] at hle
    simpa using hle

/-- The tokens that were kept and those ahead make up the text, in all
states of a run. -/
theorem invariant_keeps (stream : TokenStream) :
    Invariant (fun s => s.Keeps stream ∧ s.Ends) fun _ => True where
  formed hs := hs.1.formed
  ends hs := hs.2
  shift hs h := hs.1.shift h
  record hs _ := ⟨⟨hs.1.formed, hs.1.tokens, hs.1.comments,
    hs.1.complete⟩, hs.2⟩
  close hs := ⟨⟨hs.1.formed, hs.1.tokens, hs.1.comments,
    hs.1.complete⟩, hs.2⟩
  extend hs := ⟨⟨hs.1.formed, hs.1.tokens, hs.1.comments,
    hs.1.complete⟩, hs.2⟩
  failed _ := trivial
  passed _ := trivial

end ParseState

/-- The grammar does not run out of levels: it has a script, or refuses the
text. -/
theorem Parse.script_ends [NameProperties]
    (text : List Char) (tolerant : Bool) :
    (∃ script s, Parse.script (.ofDepth (text.length + 1))
      (.ofText text tolerant) = .ok script s) ∨
    ∃ d s, Parse.script (.ofDepth (text.length + 1))
      (.ofText text tolerant) = .error (.refused d) s := by
  rcases Parse.shift_cases (.ofText text tolerant) with
    ⟨s, hshift⟩ | ⟨d, hshift⟩
  · have hskip : Parse.skip (.ofText text tolerant) = .ok () s :=
      Parse.skip_ok.2 hshift
    have hkeeps := (ParseState.keeps_ofText text tolerant).shift hshift
    have hahead := ParseState.ahead_le_of_skip hskip
    rw [Parse.script_of_skip hskip]
    have hstand : ({ s with last := s.lookahead.span.stop } :
        ParseState).Keeps (.ofText text) :=
      ⟨hkeeps.1.formed, hkeeps.1.tokens, hkeeps.1.comments,
        hkeeps.1.complete⟩
    have hbound : ({ s with last := s.lookahead.span.stop } :
        ParseState).ahead < text.length + 1 :=
      Nat.lt_succ_of_le hahead
    have hends := ((ParseState.invariant_keeps (.ofText text)).scriptBody
      ⟨hstand, hkeeps.2⟩ hbound hbound s.lookahead.span.start).2
    rcases hends with ⟨script, s', hok, -⟩ | ⟨d, s', herror, -⟩
    · exact .inl ⟨script, s', hok⟩
    · exact .inr ⟨d, s', herror⟩
  · right
    exact ⟨d, _, Parse.script_of_refused hshift _⟩

-- ============================================================== reports

/-- A parser reports what its options show of what the grammar has. -/
theorem ParserState.Beside.report [NameProperties]
    {K : Context → Prop} {p : ParserState}
    {s : ParseState} (h : p.Beside text options K s)
    (script : Script Span) :
    p.report (script.map options.locate) = options.report script s := by
  unfold ParserState.report Options.report
  rw [h.configured, h.tells.tokens, h.tells.comments, h.reader.log]
  cases options.tokens <;> cases options.comment <;> rfl

/-- How a parser ends: as the grammar does, with a report on its script or
with the same refusal, having reported the same. -/
theorem runParser_cases [NameProperties]
    (options : Options) (text : List Char) :
    (∃ script s p, parseText options.tolerant text = ⟨.ok script, s⟩ ∧
      @runParser _ m.arithmetic options text
        = .ok (script.map options.locate) p ∧
      p.report (script.map options.locate) = options.report script s ∧
      p.events.toList = s.events.toList.filter options.tells) ∨
    ∃ d s p, parseText options.tolerant text
        = ⟨.error (.refused d), s⟩ ∧
      @runParser _ m.arithmetic options text = .error (.refused d) p ∧
      p.events.toList = s.events.toList.filter options.tells := by
  have hcarries := carries_script m text options (text.length + 1)
  generalize hrun : @Parser.script _ m.arithmetic _ _ = r at hcarries
  rcases Parse.script_ends text options.tolerant with
    ⟨script, s, hs⟩ | ⟨d, s, hs⟩
  · have htext : parseText options.tolerant text = ⟨.ok script, s⟩ := by
      simp only [parseText, hs]
    rw [hs] at hcarries
    cases hcarries with
    | @ok _ p _ h =>
        exact .inl ⟨script, s, p, htext, hrun, h.report script,
          h.tells.events⟩
  · have htext : parseText options.tolerant text
        = ⟨.error (.refused d), s⟩ := by
      simp only [parseText, hs]
    rw [hs] at hcarries
    cases hcarries with
    | @refused _ p _ hevents => exact .inr ⟨d, s, p, htext, hrun, hevents⟩

/-- A parse shows what the grammar makes of the text as the options ask for
it. -/
theorem parse_eq_report [NameProperties]
    (options : Options) (text : List Char) :
    @parse _ m.arithmetic options text
      = (parseText options.tolerant text).result.map
        (options.report · (parseText options.tolerant text).final) := by
  rcases runParser_cases m options text with
    ⟨script, s, p, htext, hrun, hreport, -⟩ | ⟨d, s, p, htext, hrun, -⟩
  · unfold parse
    rw [hrun, htext]
    exact congrArg Except.ok hreport
  · unfold parse
    rw [hrun, htext]
    rfl

/-- What a parser reports on the way is what its options show of what the
grammar does. -/
theorem parseEvents_eq_filter [NameProperties]
    (options : Options) (text : List Char) :
    @parseEvents _ m.arithmetic options text
      = (parseText options.tolerant text).final.events.toList.filter
        options.tells := by
  rcases runParser_cases m options text with
    ⟨script, s, p, htext, hrun, -, hevents⟩ | ⟨d, s, p, htext, hrun, hevents⟩
  · unfold parseEvents
    rw [hrun, htext]
    exact hevents
  · unfold parseEvents
    rw [hrun, htext]
    exact hevents

/-- Any machine parses a text alike. -/
theorem parse_agrees [NameProperties] (options : Options) (text : List Char) :
    @parse _ m.arithmetic options text = parse options text := by
  rw [parse_eq_report m, parse_eq_report ⟨_, Arithmetic.exact_plain⟩]

/-- Any machine reports the same on the way. -/
theorem parseEvents_agrees [NameProperties]
    (options : Options) (text : List Char) :
    @parseEvents _ m.arithmetic options text = parseEvents options text := by
  rw [parseEvents_eq_filter m,
    parseEvents_eq_filter ⟨_, Arithmetic.exact_plain⟩]

/-- What a text is parsed to, from what the grammar makes of it. -/
theorem parse_of_parseText [NameProperties]
    {result : Except Failure (Script Span)}
    {s : ParseState} (h : parseText options.tolerant text = ⟨result, s⟩) :
    parse options text = result.map (options.report · s) := by
  rw [parse_eq_report ⟨_, Arithmetic.exact_plain⟩, h]

/-- A text that parses is a script for as many productions as it needs. -/
theorem parse_ok [NameProperties] {report : Report} :
    parse options text = .ok report ↔ ∃ script s,
      Parse.script (.ofDepth (text.length + 1))
        (.ofText text options.tolerant) = .ok script s ∧
      report = options.report script s := by
  rw [parse_eq_report ⟨_, Arithmetic.exact_plain⟩]
  unfold parseText
  rcases h : Parse.script (.ofDepth (text.length + 1))
      (.ofText text options.tolerant) with ⟨script, s⟩ | ⟨failure, s⟩
  · simp only [h, Except.map]
    constructor
    · rintro ⟨⟩
      exact ⟨script, s, rfl, rfl⟩
    · rintro ⟨_, _, ⟨⟩, rfl⟩
      rfl
  · simp only [h, Except.map]
    constructor
    · rintro ⟨⟩
    · rintro ⟨_, _, ⟨⟩, -⟩

end ScriptTree
