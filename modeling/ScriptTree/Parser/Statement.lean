/-
Statements, as a parser reads them.

# Around a statement

What jumps may refer to is kept in mind while a statement is read. The body
of a loop sets that it is one, a label is added for the statement after it,
and both are taken back afterwards.
-/
import ScriptTree.Parser.Expression

namespace ScriptTree

namespace Parser

variable [NameProperties] [Arithmetic] (inner : ParserProductions)

-- ======================================================= declarations

/-- The value of a declared name. Constants need one. -/
def declaredValue (kind : DeclarationKind) :
    Parser (Option (Expression Location)) := do
  if ← isAt "=" then
    skip
    some <$> isolated (assignment inner)
  else if kind = .const then reject (.missingInitializer kind.text)
  else return none

/-- A declared name with its value. -/
def declarator (kind : DeclarationKind) : Parser (Declarator Location) := do
  let node ← start
  let id ← pattern (some kind)
  let init ← declaredValue inner kind
  return .mk id init (← finish .variableDeclarator node)

/-- One or more declared names. -/
def declarators (kind : DeclarationKind) :
    Parser (List (Declarator Location)) := do
  let first ← declarator inner kind
  let further ← collectWhile (isAt ",") (do skip; declarator inner kind)
    inner.depth
  return first :: further

/-- A declaration as a statement. -/
def declaration (kind : DeclarationKind) :
    Parser (Statement Location) := do
  let node ← start
  skip
  let declared ← declarators inner kind
  endStatement
  let location ← finish .variableDeclaration node
  return .declaration (.mk kind declared location)

/-- Whether a declaration with `var` starts here. The word is a name like
any other unless a name to bind follows it on the same line. -/
def isAtVar : Parser Bool := do
  if (← lookahead).isIdentifier "var" then bindingAhead true
  else return false

-- =================================================== other statements

/-- Statements in braces. -/
def block : Parser (Block Location) := do
  let node ← start
  expect "\x7b"
  let more : Parser Bool := do return !(← isAt "\x7d")
  let body ← collectWhile more inner.item inner.depth
  expect "\x7d"
  return .mk body (← finish .blockStatement node)

/-- A semicolon by itself. -/
def emptyStatement : Parser (Statement Location) := do
  let node ← start
  expect ";"
  return .empty (← finish .emptyStatement node)

/-- The statement that stands for a body which is not there. It consumes
nothing. -/
def missingBody : Parser (Statement Location) := do
  let node ← start
  return .empty (← finish .emptyStatement node)

/-- An expression as a statement. -/
def expressionStatement : Parser (Statement Location) := do
  let node ← start
  let e ← expression inner
  endStatement
  return .expression e (← finish .expressionStatement node)

-- =============================================== conditions and loops

/-- Whether a tolerant parser goes on without the parenthesis that closes
the head of a statement, and then without its body. -/
def missingParenthesis : Parser Bool := do
  if (← isAt ")") || !(← isTolerant) then return false
  else
    let t ← nextToken
    objectTo t t.unexpected
    return true

/-- The body of a loop. -/
def iterationBody : Parser (Statement Location) := do
  let outside ← context
  adapt fun c => { c with inIteration := true }
  let body ← isolated inner.statement
  adapt fun c => { c with inIteration := outside.inIteration }
  return body

/-- The rest of the head of a loop, and its body. -/
def loopBody : Parser (Statement Location) := do
  if ← missingParenthesis then missingBody
  else
    expect ")"
    iterationBody inner

/-- The other branch of a condition. -/
def elseBranch : Parser (Option (Statement Location)) := do
  if ← isAtWord "else" then
    skip
    some <$> inner.statement
  else return none

/-- A condition. -/
def ifElse : Parser (Statement Location) := do
  let node ← start
  expectWord "if"
  expect "("
  let test ← expression inner
  if ← missingParenthesis then
    let consequent ← missingBody
    return .ifElse test consequent none (← finish .ifStatement node)
  else
    expect ")"
    let consequent ← inner.statement
    let alternate ← elseBranch inner
    return .ifElse test consequent alternate (← finish .ifStatement node)

/-- The end of a loop with its condition at the end. A semicolon after it
belongs to it. -/
def loopEnd : Parser Unit := do
  if ← missingParenthesis then return ()
  else
    expect ")"
    if ← isAt ";" then skip

/-- A loop with its condition at the end. -/
def doWhileLoop : Parser (Statement Location) := do
  let node ← start
  expectWord "do"
  let body ← iterationBody inner
  expectWord "while"
  expect "("
  let test ← expression inner
  loopEnd
  return .doWhileLoop body test (← finish .doWhileStatement node)

/-- A loop with its condition at the start. -/
def whileLoop : Parser (Statement Location) := do
  let node ← start
  expectWord "while"
  expect "("
  let test ← expression inner
  let body ← loopBody inner
  return .whileLoop test body (← finish .whileStatement node)

/-- The kind of declaration that a `for` loop starts with, if it does. -/
def forKind : Parser (Option DeclarationKind) := do
  if ← isAtWord "const" then return some .const
  else if ← isAtWord "let" then return some .letting
  else if ← isAtVar then return some .var
  else return none

/-- The declaration that a `for` loop starts with. -/
def forDeclaration (kind : DeclarationKind) :
    Parser (ForInit Location) := do
  let node ← start
  skip
  let declared ← declarators inner kind
  let location ← finish .variableDeclaration node
  return .declaration (.mk kind declared location)

/-- The expressions that a `for` loop starts with. Unlike a sequence
elsewhere, they let the first one pass on what it rules out. -/
def forExpression : Parser (Expression Location) := do
  let first ← lookahead
  let e ← inherited (assignment inner)
  if ← isAt "," then
    sequenceOf first.span.start.mark e (collectWhile (isAt ",")
      (do skip; isolated (assignment inner)) inner.depth)
  else return e

/-- The declaration or the expressions that a `for` loop starts with. -/
def forStart : Parser (ForInit Location) := do
  match ← forKind with
  | some kind => forDeclaration inner kind
  | none => .expression <$> forExpression inner

/-- What a `for` loop starts with, and the semicolon after it. -/
def forInit : Parser (Option (ForInit Location)) := do
  if ← isAt ";" then
    skip
    return none
  else
    let init ← forStart inner
    expect ";"
    return some init

/-- An expression, unless the given punctuator comes first. -/
def optionalExpression (stop : String) :
    Parser (Option (Expression Location)) := do
  if ← isAt stop then return none
  else some <$> expression inner

/-- A loop with a start, a condition and a step. -/
def forLoop : Parser (Statement Location) := do
  let node ← start
  expectWord "for"
  expect "("
  let init ← forInit inner
  let test ← optionalExpression inner ";"
  expect ";"
  let update ← optionalExpression inner ")"
  let body ← loopBody inner
  return .forLoop init test update body (← finish .forStatement node)

-- ============================================================== jumps

/-- Objects to the label that a token is if no statement around has it. -/
def requireLabel (t : Token) (name : String) : Parser Unit := do
  if (← context).labels.contains name then return ()
  else tolerate (t.span.start.diagnose (.unknownLabel name))

/-- The label after a jump, on the same line. A statement around the jump
has it. -/
def jumpLabel : Parser (Option (Identifier Location)) := do
  let t ← lookahead
  if t.kind ≠ .identifier || (← afterLineBreak) then return none
  else
    let id ← boundName false
    requireLabel t id.name
    return some id

/-- The end of a jump. One without a label belongs into a loop. -/
def endJump (label : Option (Identifier Location)) (cause : Cause) :
    Parser Unit := do
  endStatement
  if label.isNone && !(← context).inIteration then object cause

/-- A jump out of a loop or a labeled statement. -/
def breaking : Parser (Statement Location) := do
  let node ← start
  expectWord "break"
  let label ← jumpLabel
  endJump label .illegalBreak
  return .breaking label (← finish .breakStatement node)

/-- A jump to the next round of a loop. -/
def continuing : Parser (Statement Location) := do
  let node ← start
  expectWord "continue"
  let label ← jumpLabel
  endJump label .illegalContinue
  return .continuing label (← finish .continueStatement node)

/-- Whether a value to return follows. A string may do so on a later
line. -/
def hasReturnValue : Parser Bool := do
  let t ← lookahead
  return !t.isPunctuator ";" && !t.isPunctuator "\x7d"
    && !(← afterLineBreak) && !t.isEnd || t.kind = .string

/-- The value to return, if one follows. -/
def returnValue : Parser (Option (Expression Location)) := do
  if ← hasReturnValue then some <$> expression inner else return none

/-- Objects to a value returned from outside of all functions. -/
def requireFunction : Parser Unit := do
  if !(← context).inFunctionBody then object .illegalReturn

/-- A return from a function. It belongs into the body of one. -/
def returning : Parser (Statement Location) := do
  requireFunction
  let node ← start
  expectWord "return"
  let argument ← returnValue inner
  endStatement
  return .returning argument (← finish .returnStatement node)

/-- An exception. Its value stands on the same line. -/
def throwing : Parser (Statement Location) := do
  let node ← start
  skip
  if ← afterLineBreak then reject .newlineAfterThrow
  else
    let argument ← expression inner
    endStatement
    return .throwing argument (← finish .throwStatement node)

/-- A call of the debugger. -/
def debugger : Parser (Statement Location) := do
  let node ← start
  expectWord "debugger"
  endStatement
  return .debugger (← finish .debuggerStatement node)

/-- A statement with a label. The labels around a statement differ. -/
def labeled (node : Mark) (label : Identifier Location) :
    Parser (Statement Location) := do
  skip
  if (← context).labels.contains label.name then
    reject (.labelRedeclared label.name)
  else
    adapt fun c => { c with labels := c.labels.insert label.name }
    let body ← inner.statement
    adapt fun c => { c with labels := c.labels.erase label.name }
    return .labeled label body (← finish .labeledStatement node)

/-- A statement with a label, or an expression. A name is a label when a
colon follows it. -/
def labeledOrExpression : Parser (Statement Location) := do
  let node ← start
  let e ← expression inner
  match e, ← isAt ":" with
  | .identifier label, true => labeled inner node label
  | _, _ =>
    endStatement
    return .expression e (← finish .expressionStatement node)

-- ========================================================= the choice

/-- The statement that a keyword opens. -/
def keywordStatement (word : Option String) :
    Parser (Statement Location) :=
  match word with
  | some "break" => breaking
  | some "continue" => continuing
  | some "debugger" => debugger
  | some "do" => doWhileLoop inner
  | some "for" => forLoop inner
  | some "def" => .function <$> functionDeclaration inner
  | some "if" => ifElse inner
  | some "let" => labeledOrExpression inner
  | some "return" => returning inner
  | some "while" => whileLoop inner
  | _ => expressionStatement inner

/-- A statement. -/
def statement : Parser (Statement Location) := do
  let t ← lookahead
  match t.kind with
  | .boolean | .null | .numeric | .string => expressionStatement inner
  | .punctuator =>
    if t.isPunctuator "\x7b" then .block <$> block inner
    else if t.isPunctuator ";" then emptyStatement
    else expressionStatement inner
  | .identifier =>
    if ← isAtVar then declaration inner .var
    else if t.isIdentifier "throw" then throwing inner
    else labeledOrExpression inner
  | .keyword => keywordStatement inner t.text?
  | .endOfInput => unexpected t

/-- A statement or a declaration. The word `let` declares only if a name
to bind follows it, on whatever line. -/
def item : Parser (Statement Location) := do
  if (← lookahead).kind ≠ .keyword then statement inner
  else if ← isAtWord "const" then declaration inner .const
  else if ← isAtWord "def" then .function <$> functionDeclaration inner
  else if ← isAtWord "let" then
    if ← bindingAhead false then declaration inner .letting
    else statement inner
  else statement inner

end Parser

end ScriptTree
