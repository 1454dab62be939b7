/-
A parser: a reader of tokens, of which one is looked at before it is
consumed, and what has to be kept in mind on the way.

# What a parser shows

The options of a parser say what is shown of a place. A node is located
when it is complete, a token when it is looked at, and a comment when it is
passed over. Tokens and comments are kept only for those who asked for them.

# Marks

A parser marks two places in the text, the one where the lookahead starts
and the one where the last consumed token ends. A mark has its column,
counted when it is set.

# Beside the grammar

The grammar (`Parse`) says the same of a text in fewer words. It has all
tokens of the text at hand, no options but tolerance, and hands down what
a parser keeps in its state. A parser comes to what the grammar comes to.
-/
import ScriptTree.Grammar.State
import ScriptTree.Report
import ScriptTree.Token.Peek

namespace ScriptTree

-- ============================================================== marks

/-- A marked place. -/
structure Mark where
  /-- The offset in the text. -/
  index : Nat
  line : Nat
  /-- The column, the first one being zero. -/
  column : Nat
  deriving DecidableEq, Repr

/-- The mark of a position. -/
def Position.mark [Arithmetic] (p : Position) : Mark :=
  ⟨p.offset, p.line, p.column⟩

namespace Mark

/-- The offset at which the line of the mark starts. -/
def lineStart [Arithmetic] (mark : Mark) : Nat :=
  Arithmetic.minus mark.index mark.column

/-- The position that is marked. -/
def position [Arithmetic] (mark : Mark) : Position :=
  ⟨mark.index, mark.line, mark.lineStart⟩

/-- The line and the column of a mark. -/
def lineColumn (mark : Mark) : LineColumn := ⟨mark.line, mark.column⟩

end Mark

/-- The byte at an offset in a text. -/
def byteAt? : Nat → List Char → Option UInt8
  | _, [] => none
  | offset, ch :: rest =>
    if offset < ch.utf8Size then (String.utf8EncodeChar ch)[offset]?
    else byteAt? (offset - ch.utf8Size) rest

-- ============================================================ context

/-- What an expression may still turn out to be. -/
structure CoverGrammar where
  /-- A value may be given to it. -/
  assignmentTarget : Bool
  /-- It may be a name that is bound. -/
  bindingElement : Bool
  /-- The token of an initializer that only a name to bind can have. No
  production puts one here. -/
  initializedName : Option Token
  deriving DecidableEq, Repr

namespace CoverGrammar

/-- Nothing is ruled out. -/
def permissive : CoverGrammar := ⟨true, true, none⟩

/-- The expression is nothing but an expression. -/
def clear (cover : CoverGrammar) : CoverGrammar :=
  { cover with assignmentTarget := false, bindingElement := false }

/-- What is ruled out in either place is ruled out. -/
def merge (outer inner : CoverGrammar) : CoverGrammar where
  assignmentTarget := outer.assignmentTarget && inner.assignmentTarget
  bindingElement := outer.bindingElement && inner.bindingElement
  initializedName := outer.initializedName <|> inner.initializedName

end CoverGrammar

/-- What is kept in mind of the productions around. -/
structure Context where
  cover : CoverGrammar
  inFunctionBody : Bool
  /-- Within the body of a loop of that function. -/
  inIteration : Bool
  /-- The labels of the statements around, up to that function. -/
  labels : List String
  deriving DecidableEq, Repr

/-- At the top of a script. -/
def Context.ofScript : Context := ⟨.permissive, false, false, []⟩

-- ============================================================= states

/-- The state of a parser. -/
structure ParserState where
  reader : TokenReader
  options : Options
  context : Context
  /-- The next token to be consumed. -/
  lookahead : Token
  /-- Whether the lookahead starts on another line than the token before
  it. -/
  lineBreak : Bool
  /-- Where the lookahead starts. -/
  start : Mark
  /-- Where the last consumed token ends. -/
  last : Mark
  tokens : Array LocatedEntry
  comments : Array LocatedEntry
  /-- What was reported so far. -/
  events : Array Event
  deriving DecidableEq, Repr

/-- A location from one line and column to another, as far as the options
ask for it. -/
def Options.place (options : Options) (range : Nat × Nat)
    (start stop : LineColumn) : Location where
  range := if options.range then some range else none
  lines :=
    if options.loc then some ⟨start, stop, options.source⟩ else none

namespace ParserState

/-- The state before the first token, in whose place the end of an empty
text is looked at. -/
def ofText (options : Options) (text : List Char) : ParserState :=
  let cursor := Cursor.ofText text
  let mark : Mark := ⟨0, cursor.position.line, 0⟩
  { reader := .ofText text options.tolerant options.comment
    options
    context := .ofScript
    lookahead := cursor.endToken
    lineBreak := false
    start := mark
    last := mark
    tokens := #[]
    comments := #[]
    events := #[] }

variable [Arithmetic]

/-- Where the reader stands. -/
def here (p : ParserState) : Mark := p.reader.cursor.position.mark

/-- The token with its text cut out of the source. -/
def quote (p : ParserState) (t : Token) : Token :=
  { t with raw := .ofList (Arithmetic.textWithin t.span.start.offset
      t.span.stop.offset p.reader.cursor.source) }

-- -------------------------------------------------- the token pump

/-- The state with a comment reported and kept. -/
def note (p : ParserState) (comment : Comment) : ParserState :=
  let start := comment.span.start
  let stop := comment.span.stop
  let location := p.options.place (start.offset, stop.offset)
    start.lineColumn stop.lineColumn
  { p with
    events := p.events.push (.comment comment)
    comments := p.comments.push ⟨.comment comment, location⟩ }

/-- The state with the comments before the next token passed over. -/
def collectComments (p : ParserState) : ParserState :=
  let (comments, reader) := p.reader.skipTrivia
  comments.foldl note { p with reader }

/-- The state with the place marked where the reader stands, unless it
stands there since the last mark. -/
def markStart (p : ParserState) : ParserState :=
  if p.reader.cursor.position.offset ≠ p.start.index then
    { p with start := p.here }
  else p

/-- A token that was just read, as it is kept. It ends where the reader
stands. -/
def tokenEntry (p : ParserState) (t : Token) : LocatedEntry :=
  ⟨.token (p.quote t), p.options.place (t.span.start.offset,
    t.span.stop.offset) p.start.lineColumn p.here.lineColumn⟩

/-- The state with the token kept, if tokens are asked for. The end of the
text is not kept. -/
def keepToken (p : ParserState) (t : Token) : ParserState :=
  if p.options.tokens && !t.isEnd then
    { p with tokens := p.tokens.push (p.tokenEntry t) }
  else p

/-- The state with a token that was just read in place of the lookahead. -/
def lookAt (p : ParserState) (next : Token) : ParserState :=
  let lineBreak := p.lookahead.span.start.line ≠ next.span.start.line
  { { p with lineBreak }.keepToken next with lookahead := next }

-- ------------------------------------------------------- diagnostics

/-- A cause after the last consumed token. -/
def diagnose (p : ParserState) (cause : Cause) : Diagnostic :=
  ⟨p.last.index, p.last.line, p.last.column + 1, cause⟩

/-- A cause found at a token. Its column is counted from the start of the
line on which the last consumed token ends. -/
def diagnoseToken (p : ParserState) (t : Token) (cause : Cause) :
    Diagnostic :=
  ⟨t.span.start.offset, t.span.start.line,
    t.span.start.offset - p.last.lineStart + 1, cause⟩

/-- Whether a semicolon stands where the lookahead starts. -/
def atSemicolon (p : ParserState) : Bool :=
  byteAt? p.start.index p.reader.cursor.source = some 0x3B

end ParserState

-- ============================================================ actions

/-- An action of a parser. -/
abbrev Parser := EStateM Failure ParserState

namespace Parser

variable {α : Type}

/-- The token to be consumed next. -/
def lookahead : Parser Token := fun p => .ok p.lookahead p

/-- Whether the lookahead is the given punctuator. -/
def isAt (text : String) : Parser Bool :=
  fun p => .ok (p.lookahead.isPunctuator text) p

/-- Whether the lookahead is the given keyword. -/
def isAtWord (text : String) : Parser Bool :=
  fun p => .ok (p.lookahead.isKeyword text) p

/-- Whether the lookahead starts on a new line. -/
def afterLineBreak : Parser Bool := fun p => .ok p.lineBreak p

/-- Whether diagnostics may be recorded. -/
def isTolerant : Parser Bool := fun p => .ok p.reader.log.tolerant p

/-- Where the lookahead starts. -/
def start : Parser Mark := fun p => .ok p.start p

/-- What is kept in mind. -/
def context : Parser Context := fun p => .ok p.context p

/-- Changes what is kept in mind. -/
def adapt (change : Context → Context) : Parser Unit :=
  fun p => .ok () { p with context := change p.context }

/-- Gives up, since the bound on the work ran out. -/
def exhausted : Parser α := fun p => .error .exhausted p

/-- Refuses the text. -/
def refuse (d : Diagnostic) : Parser α := fun p => .error (.refused d) p

/-- Records a diagnostic, or refuses the text where none is tolerated. -/
def tolerate (d : Diagnostic) : Parser Unit := fun p =>
  match p.reader.log.tolerate d with
  | .ok log => .ok () { p with reader := { p.reader with log } }
  | .error d => .error (.refused d) p

/-- Refuses the text for a cause after the last consumed token. -/
def reject (cause : Cause) : Parser α :=
  fun p => refuse (p.diagnose cause) p

/-- Tolerates a cause after the last consumed token. -/
def object (cause : Cause) : Parser Unit :=
  fun p => tolerate (p.diagnose cause) p

variable [NameProperties] [Arithmetic]

/-- Refuses the text for a token that is not the one expected. -/
def unexpected (t : Token) : Parser α :=
  fun p => refuse (p.diagnoseToken t t.unexpected) p

/-- Tolerates a cause found at a token. -/
def objectTo (t : Token) (cause : Cause) : Parser Unit :=
  fun p => tolerate (p.diagnoseToken t cause) p

/-- Consumes the lookahead and reads the token after it. -/
def nextToken : Parser Token := fun p =>
  let p := ({ p with last := p.here }.collectComments).markStart
  match p.reader.token with
  | .error d reader => .error (.refused d) { p with reader }
  | .ok next reader => .ok p.lookahead ({ p with reader }.lookAt next)

/-- Consumes the lookahead, which is known. -/
def skip : Parser Unit := do
  let _ ← nextToken

/-- The token with its text cut out of the source. -/
def quoted (t : Token) : Parser Token := fun p => .ok (p.quote t) p

/-- Consumes the given punctuator. -/
def expect (text : String) : Parser Unit := do
  let t ← nextToken
  if t.isPunctuator text then return () else unexpected t

/-- Consumes the given keyword. -/
def expectWord (text : String) : Parser Unit := do
  let t ← nextToken
  if t.isKeyword text then return () else unexpected t

/-- Whether a declared name may start with the token after the lookahead,
on the same line if that is asked for. The reader looks ahead, and is sent
back. -/
def bindingAhead (onSameLine : Bool) : Parser Bool := fun p =>
  let (seen, reader) := p.reader.peek
  let p := { p with reader }
  match seen with
  | .error d => .error (.refused d) p
  | .ok next =>
    if onSameLine && next.span.start.line ≠ p.lookahead.span.start.line then
      .ok false p
    else .ok next.startsBinding p

/-- Takes the place where the reader stands for the end of what was
consumed last. -/
def standHere : Parser Unit := fun p => .ok () { p with last := p.here }

/-- Takes the place where the lookahead starts for the end of what was
consumed last. -/
def extendToLookahead : Parser Unit :=
  fun p => .ok () { p with last := p.start }

/-- Completes a node that starts at `start` and ends with the last consumed
token: reports it, and gives its location. -/
def finish (kind : NodeKind) (start : Mark) : Parser Location := fun p =>
  let span : Span := ⟨start.position, p.last.position⟩
  let location := p.options.place (start.index, p.last.index)
    start.lineColumn p.last.lineColumn
  .ok location { p with events := p.events.push (.node kind span) }

/-- The end of a statement: a semicolon, a line break, a closing brace or
the end of the text. Of these only the semicolon is consumed. -/
def endStatement : Parser Unit := fun p =>
  if p.atSemicolon || p.lookahead.isPunctuator ";" then skip p
  else if p.lineBreak then .ok () p
  else if p.lookahead.isEnd || p.lookahead.isPunctuator "\x7d" then
    extendToLookahead p
  else unexpected p.lookahead p

-- ====================================================== cover grammar

/-- Changes what an expression may turn out to be. -/
def cover (change : CoverGrammar → CoverGrammar) : Parser Unit :=
  adapt fun c => { c with cover := change c.cover }

/-- What follows is nothing but an expression. -/
def clearCover : Parser Unit := cover .clear

/-- An action that starts with nothing ruled out, and of which nothing is
ruled out around it. -/
def isolated (action : Parser α) : Parser α := do
  let outside ← context
  cover fun _ => .permissive
  let a ← action
  match (← context).cover.initializedName with
  | some t =>
    cover fun c => { c with initializedName := none }
    unexpected t
  | none =>
    cover fun _ => outside.cover
    return a

/-- An action that starts with nothing ruled out, and what it rules out is
ruled out around it. -/
def inherited (action : Parser α) : Parser α := do
  let outside ← context
  cover fun _ => .permissive
  let a ← action
  cover outside.cover.merge
  return a

-- ========================================================= repetition

/-- Items up to a closing parenthesis, if there are any. -/
def upToParenthesis (items : Parser (List α)) : Parser (List α) := do
  if ← isAt ")" then return [] else items

/-- Repeats an action as long as a condition holds, less than `steps`
times. -/
def collectWhile (more : Parser Bool) (item : Parser α) :
    Nat → Parser (List α)
  | 0 => exhausted
  | steps + 1 => do
    if ← more then
      let first ← item
      return first :: (← collectWhile more item steps)
    else return []

end Parser

end ScriptTree
