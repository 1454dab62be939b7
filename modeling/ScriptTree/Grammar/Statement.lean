/-
Statements. What jumps may refer to is handed down to the statements that
contain them.
-/
import ScriptTree.Grammar.Expression

namespace ScriptTree

namespace Parse

variable (inner : Productions)

/-- The end of a statement: a semicolon, a line break, a closing brace or
the end of the text. Of these only the semicolon is consumed. -/
def endStatement : Parse Unit := do
  let t ← lookahead
  if t.isPunctuator ";" then skip
  else if ← afterLineBreak then return ()
  else if t.isEnd || t.isPunctuator "\x7d" then extendToLookahead
  else unexpected t

-- ================================================= declarations

/-- Objects to the word `let` as a name, which only `var` can declare. -/
def refuseLet (kind : DeclarationKind) : Parse Unit := do
  let t ← lookahead
  if t.isKeyword "let" && kind ≠ .var then objectTo t .letInBinding

/-- The value of a declared name. Constants need one. -/
def declaredValue (kind : DeclarationKind) :
    Parse (Option (Expression Span)) := do
  if ← isAt "=" then
    skip
    some <$> assignment inner
  else if kind = .const then reject (.missingInitializer kind.text)
  else return none

/-- A declared name with its value. -/
def declarator (kind : DeclarationKind) : Parse (Declarator Span) := do
  let first ← lookahead
  refuseLet kind
  let id ← boundName (kind = .var)
  let init ← declaredValue inner kind
  return .mk id init (← close .variableDeclarator first.span.start)

/-- One or more declared names. -/
def declarators (kind : DeclarationKind) :
    Parse (List (Declarator Span)) := do
  let first ← declarator inner kind
  let further ← collectWhile (isAt ",") (do skip; declarator inner kind)
    inner.depth
  return first :: further

/-- A declaration as a statement. -/
def declaration (kind : DeclarationKind) : Parse (Statement Span) := do
  let first ← lookahead
  skip
  let declared ← declarators inner kind
  endStatement
  let span ← close .variableDeclaration first.span.start
  return .declaration (.mk kind declared span)

/-- Whether a declaration with `var` starts here. The word is a name like
any other unless a name to bind follows it on the same line. -/
def isAtVar : Parse Bool := do
  if (← lookahead).isIdentifier "var" then bindingAhead true
  else return false

-- ============================================= conditions and loops

/-- The statement that stands for a body which is not there. It consumes
nothing. -/
def missingBody : Parse (Statement Span) := do
  let next ← lookahead
  return .empty (← close .emptyStatement next.span.start)

/-- Whether a tolerant parse goes on without the parenthesis that closes
the head of a statement, and then without its body. -/
def missingParenthesis : Parse Bool := do
  if (← isAt ")") || !(← isTolerant) then return false
  else
    let t ← shift
    objectTo t t.unexpected
    return true

/-- The rest of the head of a loop, and its body. -/
def loopBody (jumps : Jumps) : Parse (Statement Span) := do
  if ← missingParenthesis then missingBody
  else
    expect ")"
    inner.statement jumps.loop

/-- The other branch of a condition. -/
def elseBranch (jumps : Jumps) : Parse (Option (Statement Span)) := do
  if ← isAtWord "else" then
    skip
    some <$> inner.statement jumps
  else return none

/-- A condition. -/
def ifElse (jumps : Jumps) : Parse (Statement Span) := do
  let first ← lookahead
  skip
  expect "("
  let test ← expression inner
  if ← missingParenthesis then
    let consequent ← missingBody
    let span ← close .ifStatement first.span.start
    return .ifElse test consequent none span
  else
    expect ")"
    let consequent ← inner.statement jumps
    let alternate ← elseBranch inner jumps
    let span ← close .ifStatement first.span.start
    return .ifElse test consequent alternate span

/-- A loop with its condition at the start. -/
def whileLoop (jumps : Jumps) : Parse (Statement Span) := do
  let first ← lookahead
  skip
  expect "("
  let test ← expression inner
  let body ← loopBody inner jumps
  return .whileLoop test body (← close .whileStatement first.span.start)

/-- The end of a loop with its condition at the end. A semicolon after it
belongs to it. -/
def loopEnd : Parse Unit := do
  if ← missingParenthesis then return ()
  else
    expect ")"
    if ← isAt ";" then skip

/-- A loop with its condition at the end. -/
def doWhileLoop (jumps : Jumps) : Parse (Statement Span) := do
  let first ← lookahead
  skip
  let body ← inner.statement jumps.loop
  expectWord "while"
  expect "("
  let test ← expression inner
  loopEnd
  let span ← close .doWhileStatement first.span.start
  return .doWhileLoop body test span

/-- The kind of declaration that a `for` loop starts with, if it does. -/
def forKind : Parse (Option DeclarationKind) := do
  if ← isAtWord "const" then return some .const
  else if ← isAtWord "let" then return some .letting
  else if ← isAtVar then return some .var
  else return none

/-- The declaration or expression that a `for` loop starts with. -/
def forStart : Parse (ForInit Span) := do
  let first ← lookahead
  match ← forKind with
  | some kind =>
    skip
    let declared ← declarators inner kind
    let span ← close .variableDeclaration first.span.start
    return .declaration (.mk kind declared span)
  | none => .expression <$> expression inner

/-- What a `for` loop starts with, and the semicolon after it. -/
def forInit : Parse (Option (ForInit Span)) := do
  if ← isAt ";" then
    skip
    return none
  else
    let init ← forStart inner
    expect ";"
    return some init

/-- An expression, unless the given punctuator comes first. -/
def optionalExpression (stop : String) :
    Parse (Option (Expression Span)) := do
  if ← isAt stop then return none
  else some <$> expression inner

/-- A loop with a start, a condition and a step. -/
def forLoop (jumps : Jumps) : Parse (Statement Span) := do
  let first ← lookahead
  skip
  expect "("
  let init ← forInit inner
  let test ← optionalExpression inner ";"
  expect ";"
  let update ← optionalExpression inner ")"
  let body ← loopBody inner jumps
  let span ← close .forStatement first.span.start
  return .forLoop init test update body span

-- ======================================================== jumps

/-- Objects to a label that no statement around the jump has. -/
def requireLabel (jumps : Jumps) (id : Identifier Span) : Parse Unit :=
  if jumps.labels.contains id.name then pure ()
  else tolerate (id.place.start.diagnose (.unknownLabel id.name))

/-- The label after a jump, on the same line. -/
def jumpLabel (jumps : Jumps) : Parse (Option (Identifier Span)) := do
  let t ← lookahead
  if t.kind ≠ .identifier || (← afterLineBreak) then return none
  else
    let id ← boundName false
    requireLabel jumps id
    return some id

/-- The end of a jump. One without a label belongs into a loop. -/
def endJump (jumps : Jumps) (label : Option (Identifier Span))
    (cause : Cause) : Parse Unit := do
  endStatement
  if label.isNone && !jumps.inLoop then object cause

/-- A jump out of a loop, or out of the statement with a label. -/
def breaking (jumps : Jumps) : Parse (Statement Span) := do
  let first ← lookahead
  skip
  let label ← jumpLabel jumps
  endJump jumps label .illegalBreak
  return .breaking label (← close .breakStatement first.span.start)

/-- A jump to the next round of a loop. -/
def continuing (jumps : Jumps) : Parse (Statement Span) := do
  let first ← lookahead
  skip
  let label ← jumpLabel jumps
  endJump jumps label .illegalContinue
  return .continuing label (← close .continueStatement first.span.start)

/-- Whether a value to return follows. A string may do so on a later
line. -/
def hasReturnValue : Parse Bool := do
  let t ← lookahead
  return t.kind = .string
    || !(t.isPunctuator ";" || t.isPunctuator "\x7d" || t.isEnd
      || (← afterLineBreak))

/-- The value to return, if one follows. -/
def returnValue : Parse (Option (Expression Span)) := do
  if ← hasReturnValue then some <$> expression inner else return none

/-- Objects to a value returned from outside of all functions. -/
def requireFunction (jumps : Jumps) : Parse Unit :=
  if jumps.inFunction then pure () else object .illegalReturn

/-- A jump out of a function, with a value or without one. -/
def returning (jumps : Jumps) : Parse (Statement Span) := do
  requireFunction jumps
  let first ← lookahead
  skip
  let argument ← returnValue inner
  endStatement
  return .returning argument (← close .returnStatement first.span.start)

/-- A value thrown, on the line of the word that throws it. -/
def throwing : Parse (Statement Span) := do
  let first ← lookahead
  skip
  if ← afterLineBreak then reject .newlineAfterThrow
  else
    let argument ← expression inner
    endStatement
    return .throwing argument (← close .throwStatement first.span.start)

-- ============================================= other statements

/-- Statements in braces. -/
def block (jumps : Jumps) : Parse (Block Span) := do
  let first ← lookahead
  skip
  let more : Parse Bool := do return !(← isAt "\x7d")
  let body ← collectWhile more (inner.item jumps) inner.depth
  expect "\x7d"
  return .mk body (← close .blockStatement first.span.start)

/-- A semicolon alone. -/
def emptyStatement : Parse (Statement Span) := do
  let first ← lookahead
  skip
  return .empty (← close .emptyStatement first.span.start)

/-- A call of the debugger. -/
def debugger : Parse (Statement Span) := do
  let first ← lookahead
  skip
  endStatement
  return .debugger (← close .debuggerStatement first.span.start)

/-- The end of a statement that is an expression. -/
def expressionEnd (start : Position) (e : Expression Span) :
    Parse (Statement Span) := do
  endStatement
  return .expression e (← close .expressionStatement start)

/-- An expression as a statement. -/
def expressionStatement : Parse (Statement Span) := do
  let first ← lookahead
  let e ← expression inner
  expressionEnd first.span.start e

/-- A statement with a label. The labels around a statement differ. -/
def labeled (jumps : Jumps) (start : Position)
    (label : Identifier Span) : Parse (Statement Span) := do
  skip
  if jumps.labels.contains label.name then
    reject (.labelRedeclared label.name)
  else
    let body ← inner.statement (jumps.label label.name)
    return .labeled label body (← close .labeledStatement start)

/-- A statement with a label, or an expression. A name is a label when a
colon follows it. -/
def labeledOrExpression (jumps : Jumps) : Parse (Statement Span) := do
  let first ← lookahead
  let e ← expression inner
  match e, ← isAt ":" with
  | .identifier label, true =>
    labeled inner jumps first.span.start label
  | _, _ => expressionEnd first.span.start e

-- =================================================== the choice

/-- The statement that a keyword opens. -/
def keywordStatement (jumps : Jumps) (word : String) :
    Parse (Statement Span) :=
  match word with
  | "break" => breaking jumps
  | "continue" => continuing jumps
  | "debugger" => debugger
  | "do" => doWhileLoop inner jumps
  | "for" => forLoop inner jumps
  | "def" => .function <$> functionDeclaration inner
  | "if" => ifElse inner jumps
  | "let" => labeledOrExpression inner jumps
  | "return" => returning inner jumps
  | "while" => whileLoop inner jumps
  | _ => expressionStatement inner

/-- A statement. -/
def statement (jumps : Jumps) : Parse (Statement Span) := do
  let t ← lookahead
  match t.kind with
  | .boolean | .null | .numeric | .string => expressionStatement inner
  | .punctuator =>
    if t.isPunctuator "\x7b" then .block <$> block inner jumps
    else if t.isPunctuator ";" then emptyStatement
    else expressionStatement inner
  | .identifier =>
    if ← isAtVar then declaration inner .var
    else if t.isIdentifier "throw" then throwing inner
    else labeledOrExpression inner jumps
  | .keyword => keywordStatement inner jumps t.shown
  | .endOfInput => unexpected t

/-- A statement or a declaration. The word `let` declares only if a name
to bind follows it, on whatever line. -/
def item (jumps : Jumps) : Parse (Statement Span) := do
  if ← isAtWord "const" then declaration inner .const
  else if ← isAtWord "let" then
    if ← bindingAhead false then declaration inner .letting
    else statement inner jumps
  else statement inner jumps

end Parse

end ScriptTree
