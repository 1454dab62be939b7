/-
What a parse goes through: a stream of tokens, of which one is looked at
before it is consumed.

# Failures keep the state

A parse that fails has still reported the nodes and comments it was done
with. An action therefore ends in a state whether or not it succeeds.

# Two ways to fail

A text can be refused, with a diagnostic. The other failure is a bound on
the work running out; the bound is computed from the text, and a parse
never gets there.
-/
import ScriptTree.Token.Reader
import ScriptTree.Token.Stream
import ScriptTree.Tree
import ScriptTree.Tree.Kind

namespace ScriptTree

/-- What a parse reports while it goes on. -/
inductive Event where
  /-- A node is complete. -/
  | node (kind : NodeKind) (span : Span)
  /-- A comment was passed over. -/
  | comment (comment : Comment)
  deriving DecidableEq, Repr

/-- Why there is no result. -/
inductive Failure where
  | refused (diagnostic : Diagnostic)
  /-- The bound on the work ran out. -/
  | exhausted
  deriving DecidableEq, Repr

/-- The state of a parse. -/
structure ParseState where
  /-- The next token to be consumed. -/
  lookahead : Token
  /-- What follows it. -/
  rest : TokenStream
  /-- Whether the lookahead starts on another line than the token before
  it. -/
  lineBreak : Bool
  /-- Where the last consumed token ends. -/
  last : Position
  log : DiagnosticLog
  events : Array Event
  /-- The tokens that were looked at so far, the end of the text apart. -/
  tokens : Array Token
  /-- The comments that were passed over so far. -/
  comments : Array Comment
  deriving DecidableEq, Repr

namespace ParseState

/-- The state before the first token, in whose place the end of an empty
text is looked at. -/
def ofText [NameProperties]
    (text : List Char) (tolerant : Bool) : ParseState where
  lookahead := (Cursor.ofText text).endToken
  rest := .ofText text
  lineBreak := false
  last := (Cursor.ofText text).position
  log := ⟨tolerant, []⟩
  events := #[]
  tokens := #[]
  comments := #[]

/-- The state with comments reported and kept. -/
def pass (s : ParseState) (comments : List Comment) : ParseState :=
  { s with
    events := s.events ++ (comments.map Event.comment).toArray
    comments := s.comments ++ comments.toArray }

/-- The state with the lookahead consumed and `next` in its place, which
is kept unless it is the end of the text. -/
def consume (s : ParseState) (next : Token) (rest : TokenStream) :
    ParseState :=
  { s with
    lookahead := next
    rest
    lineBreak := s.lookahead.span.start.line ≠ next.span.start.line
    last := s.lookahead.span.stop
    tokens := if next.isEnd then s.tokens else s.tokens.push next }

/-- A cause found at a token. Its column is counted from the start of the
line on which the last consumed token ends. -/
def diagnoseToken (s : ParseState) (t : Token) (cause : Cause) :
    Diagnostic :=
  ⟨t.span.start.offset, t.span.start.line,
    t.span.start.offset - s.last.lineStart + 1, cause⟩

end ParseState

/-- What it means that a token is not the one expected. -/
def Token.unexpected (t : Token) : Cause :=
  match t.kind with
  | .endOfInput => .unexpectedEnd
  | .identifier => .unexpectedIdentifier
  | .numeric => .unexpectedNumber
  | .string => .unexpectedString
  | .keyword => .unexpectedReserved
  | .boolean | .null | .punctuator => .unexpectedToken t.shown

/-- Whether a declared name may start with the token. -/
def Token.startsBinding (t : Token) : Bool :=
  t.kind = .identifier || t.isPunctuator "[" || t.isPunctuator "\x7b"
    || t.isKeyword "let"

-- ====================================================== actions

/-- An action of a parse. -/
abbrev Parse := EStateM Failure ParseState

namespace Parse

variable {α : Type}

/-- The token to be consumed next. -/
def lookahead : Parse Token := fun s => .ok s.lookahead s

/-- Whether the lookahead is the given punctuator. -/
def isAt (text : String) : Parse Bool :=
  fun s => .ok (s.lookahead.isPunctuator text) s

/-- Whether the lookahead is the given keyword. -/
def isAtWord (text : String) : Parse Bool :=
  fun s => .ok (s.lookahead.isKeyword text) s

/-- Whether the lookahead starts on a new line. -/
def afterLineBreak : Parse Bool := fun s => .ok s.lineBreak s

/-- Whether diagnostics may be recorded. -/
def isTolerant : Parse Bool := fun s => .ok s.log.tolerant s

/-- Gives up, since the bound on the work ran out. -/
def exhausted : Parse α := fun s => .error .exhausted s

/-- Refuses the text. -/
def refuse (d : Diagnostic) : Parse α := fun s => .error (.refused d) s

/-- Records a diagnostic, or refuses the text where none is tolerated. -/
def tolerate (d : Diagnostic) : Parse Unit := fun s =>
  match s.log.tolerate d with
  | .ok log => .ok () { s with log }
  | .error d => .error (.refused d) s

/-- Refuses the text for a cause after the last consumed token. -/
def reject (cause : Cause) : Parse α :=
  fun s => refuse (s.last.diagnose cause) s

/-- Tolerates a cause after the last consumed token. -/
def object (cause : Cause) : Parse Unit :=
  fun s => tolerate (s.last.diagnose cause) s

/-- Refuses the text for a token that is not the one expected. -/
def unexpected (t : Token) : Parse α :=
  fun s => refuse (s.diagnoseToken t t.unexpected) s

/-- Tolerates a cause found at a token. -/
def objectTo (t : Token) (cause : Cause) : Parse Unit :=
  fun s => tolerate (s.diagnoseToken t cause) s

/-- Consumes the lookahead and looks at the token after it. The comments
between the two are reported. -/
def shift : Parse Token := fun s =>
  let (comments, next) := s.rest.next
  let passed := s.pass comments
  match next with
  | .error d => .error (.refused d) passed
  | .ok (t, rest) =>
    match passed.log.accept t with
    | .ok log => .ok s.lookahead ({ passed with log }.consume t rest)
    | .error d => .error (.refused d) passed

/-- Consumes the lookahead, which is known. -/
def skip : Parse Unit := do
  let _ ← shift

/-- Consumes the given punctuator. -/
def expect (text : String) : Parse Unit := do
  let t ← shift
  if t.isPunctuator text then return () else unexpected t

/-- Consumes the given keyword. -/
def expectWord (text : String) : Parse Unit := do
  let t ← shift
  if t.isKeyword text then return () else unexpected t

/-- Whether a declared name may start with the token after the lookahead,
on the same line if that is asked for. Nothing is consumed, reported or
recorded; a token that would stop the parse stops it here. -/
def bindingAhead (onSameLine : Bool) : Parse Bool := fun s =>
  match s.rest.next.2 with
  | .error d => .error (.refused d) s
  | .ok (t, _) =>
    match s.log.accept t with
    | .error d => .error (.refused d) s
    | .ok _ =>
      let sameLine := t.span.start.line = s.lookahead.span.start.line
      .ok ((!onSameLine || sameLine) && t.startsBinding) s

/-- Takes a place for the end of what was consumed last. -/
def standAt (place : Position) : Parse Unit :=
  fun s => .ok () { s with last := place }

/-- Takes the place where the lookahead starts for the end of what was
consumed last. -/
def extendToLookahead : Parse Unit := do
  standAt (← lookahead).span.start

/-- Completes a node that starts at `start` and ends with the last
consumed token. -/
def close (kind : NodeKind) (start : Position) : Parse Span := fun s =>
  let span : Span := ⟨start, s.last⟩
  .ok span { s with events := s.events.push (.node kind span) }

-- ==================================================== repetition

/-- Repeats an action as long as a condition holds, less than `steps`
times. -/
def collectWhile (more : Parse Bool) (item : Parse α) :
    Nat → Parse (List α)
  | 0 => exhausted
  | steps + 1 => do
    if ← more then
      let first ← item
      return first :: (← collectWhile more item steps)
    else return []

/-- One or more items, `steps` at most, with separators between them; a
separator may also stand before the closing parenthesis, which is left
alone. -/
def separated (item : Parse α) (separator : Parse Unit) :
    Nat → Parse (List α)
  | 0 => exhausted
  | steps + 1 => do
    let first ← item
    if ← isAt ")" then return [first]
    else
      separator
      if ← isAt ")" then return [first]
      else return first :: (← separated item separator steps)

/-- Any number of items up to the closing parenthesis, which is left
alone. -/
def upToParenthesis (item : Parse α) (separator : Parse Unit)
    (steps : Nat) : Parse (List α) := do
  if ← isAt ")" then return [] else separated item separator steps

/-- Items in parentheses. -/
def parenthesized (item : Parse α) (separator : Parse Unit)
    (steps : Nat) : Parse (List α) := do
  expect "("
  let items ← upToParenthesis item separator steps
  expect ")"
  return items

end Parse

end ScriptTree
