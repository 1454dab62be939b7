/-
Expressions, as a parser reads them.

# Targets

Whether a value may be given to an expression is known only when the
operator after it is met. Until then the parser keeps in mind what the
expression may still turn out to be (`CoverGrammar`), and each production
rules out what it is not.
-/
import ScriptTree.Grammar.Expression
import ScriptTree.Parser.Function

namespace ScriptTree

namespace Parser

variable [NameProperties] [Arithmetic] (inner : ParserProductions)

/-- Objects to what was just read if no value can be given to it. -/
def requireTarget : Parser Unit := do
  if (← context).cover.assignmentTarget then return ()
  else object .invalidTarget

/-- A comma between arguments. A tolerant parser goes on without one, and
takes a semicolon in its place. -/
def argumentSeparator : Parser Unit := do
  if ← isTolerant then
    let t ← lookahead
    if t.isPunctuator "," then skip
    else if t.isPunctuator ";" then
      skip
      objectTo t t.unexpected
    else objectTo t (.unexpectedToken t.shown)
  else expect ","

/-- Arguments with separators between them, `steps` at most, up to the
closing parenthesis; a separator may also stand before it. -/
def argumentsUpTo : Nat → Parser (List (Expression Location))
  | 0 => exhausted
  | steps + 1 => do
    let first ← isolated inner.assignment
    if ← isAt ")" then return [first]
    else
      argumentSeparator
      if ← isAt ")" then return [first]
      else return first :: (← argumentsUpTo steps)

/-- The arguments of a call. -/
def arguments : Parser (List (Expression Location)) := do
  expect "("
  let args ← upToParenthesis (argumentsUpTo inner inner.depth)
  expect ")"
  return args

/-- More expressions, with a comma before each. -/
def furtherItems (item : Parser (Expression Location)) :
    Parser (List (Expression Location)) := do
  let more : Parser Bool := do
    return !(← lookahead).isEnd && (← isAt ",")
  collectWhile more (do skip; item) inner.depth

/-- Closes a sequence of expressions, of which more follow the first. -/
def sequenceOf (start : Mark) (first : Expression Location)
    (further : Parser (List (Expression Location))) :
    Parser (Expression Location) := do
  let further ← further
  return .sequence (first :: further) (← finish .sequenceExpression start)

/-- An expression in parentheses, of which there are no empty ones. -/
def group : Parser (Expression Location) := do
  expect "("
  if ← isAt ")" then
    unexpected (← nextToken)
  else
    let first ← lookahead
    let e ← inherited inner.assignment
    if ← isAt "," then
      cover fun c => { c with assignmentTarget := false }
      let sequence ← sequenceOf first.span.start.mark e
        (furtherItems inner (inherited inner.assignment))
      expect ")"
      return sequence
    else
      expect ")"
      return e

/-- A literal. -/
def literal (node : Mark) : Parser (Expression Location) := do
  clearCover
  let t ← quoted (← nextToken)
  return .literal t.literalValue t.raw (← finish .literal node)

/-- A name, a literal, a group or a function. -/
def primary : Parser (Expression Location) := do
  let node ← start
  let first ← lookahead
  match first.kind with
  | .identifier => .identifier <$> (do nameOf node (← nextToken))
  | .numeric | .string | .boolean | .null => literal node
  | .punctuator =>
    if first.isPunctuator "(" then
      cover fun c => { c with bindingElement := false }
      inherited (group inner)
    else unexpected (← nextToken)
  | .keyword =>
    if first.isKeyword "function" then
      .function <$> functionExpression inner
    else if first.isKeyword "let" then
      .identifier <$> (do nameOf node (← nextToken))
    else unexpected (← nextToken)
  | .endOfInput => unexpected (← nextToken)

/-- Any number of calls of what is called. -/
def callsOf (start : Mark) : Nat → Expression Location →
    Parser (Expression Location)
  | 0, _ => exhausted
  | steps + 1, callee => do
    if ← isAt "(" then
      clearCover
      let args ← arguments inner
      let location ← finish .callExpression start
      callsOf start steps (.call callee args location)
    else return callee

/-- A primary expression, or calls of one. -/
def call : Parser (Expression Location) := do
  let first ← lookahead
  let callee ← inherited (primary inner)
  callsOf inner first.span.start.mark inner.depth callee

/-- An update, with its operator before or after the variable, or a
call. The operator after a variable stands on the same line. -/
def update : Parser (Expression Location) := do
  let first ← lookahead
  match first.updateOperator? with
  | some operator =>
    skip
    let argument ← inherited inner.unary
    requireTarget
    let location ← finish .updateExpression first.span.start.mark
    clearCover
    return .update operator argument true location
  | none =>
    let argument ← inherited (call inner)
    match ← afterLineBreak, (← lookahead).updateOperator? with
    | false, some operator =>
      requireTarget
      clearCover
      skip
      let location ← finish .updateExpression first.span.start.mark
      return .update operator argument false location
    | _, _ => return argument

/-- An operator before an operand, or an update. -/
def unary : Parser (Expression Location) := do
  let first ← lookahead
  match first.unaryOperator? with
  | some operator =>
    skip
    let argument ← inherited inner.unary
    let location ← finish .unaryExpression first.span.start.mark
    clearCover
    return .unary operator argument true location
  | none => update inner

/-- A power, which groups to the right. The base may be a unary
expression only if it starts with a parenthesis. -/
def power : Parser (Expression Location) := do
  let first ← lookahead
  let base ← inherited (unary inner)
  if Parse.isUnary base && !first.isPunctuator "(" then return base
  else if ← isAt "**" then
    skip
    clearCover
    let exponent ← isolated inner.power
    let location ← finish .binaryExpression first.span.start.mark
    return .binary .power base exponent location
  else return base

/-- An operand that waits for its right side. -/
structure Pending where
  left : Expression Location
  operator : InfixOperator
  /-- Where the left operand starts. -/
  start : Mark

/-- Closes an operation. -/
def operation (pending : Pending) (right : Expression Location) :
    Parser (Expression Location) := do
  match pending.operator with
  | .binary operator =>
    let location ← finish .binaryExpression pending.start
    return .binary operator pending.left right location
  | .logical operator =>
    let location ← finish .logicalExpression pending.start
    return .logical operator pending.left right location

/-- Closes the operations on the stack that bind at least as strongly as
`precedence`. Gives the rest of the stack, and the operand that results
with its start. -/
def reduce (precedence : Nat) : List Pending → Mark →
    Expression Location → Parser (List Pending × Mark × Expression Location)
  | [], start, e => pure ([], start, e)
  | pending :: stack, start, e => do
    if precedence ≤ pending.operator.precedence then
      let e ← operation pending e
      reduce precedence stack pending.start e
    else return (pending :: stack, start, e)

/-- Closes all operations on the stack. -/
def closeAll : List Pending → Expression Location →
    Parser (Expression Location)
  | [], e => return e
  | pending :: stack, e => do closeAll stack (← operation pending e)

/-- Any number of operators with the operands after them, given the stack
and the operand before them. -/
def operations : Nat → List Pending → Mark → Expression Location →
    Parser (Expression Location)
  | 0, _, _, _ => exhausted
  | steps + 1, stack, start, e => do
    match (← lookahead).infixOperator? with
    | none => closeAll stack e
    | some operator =>
      let (stack, start, e) ← reduce operator.precedence stack start e
      skip
      let next ← lookahead
      let right ← isolated (power inner)
      operations steps (⟨e, operator, start⟩ :: stack)
        next.span.start.mark right

/-- Operands with operators between them. -/
def binary : Parser (Expression Location) := do
  let first ← lookahead
  let e ← inherited (power inner)
  match (← lookahead).infixOperator? with
  | none => return e
  | some operator =>
    skip
    clearCover
    let next ← lookahead
    let right ← isolated (power inner)
    operations inner inner.depth [⟨e, operator, first.span.start.mark⟩]
      next.span.start.mark right

/-- A choice between two expressions. -/
def conditional : Parser (Expression Location) := do
  let first ← lookahead
  let test ← inherited (binary inner)
  if ← isAt "?" then
    skip
    let consequent ← isolated inner.assignment
    expect ":"
    let alternate ← isolated inner.assignment
    let location ← finish .conditionalExpression first.span.start.mark
    clearCover
    return .conditional test consequent alternate location
  else return test

/-- Rules out that a value is given to an assignment, unless it is a plain
one. -/
def clearUnlessPlain (operator : AssignmentOperator) : Parser Unit :=
  if operator = .assign then pure () else clearCover

/-- An assignment, which groups to the right. A plain one leaves open what
its left side does. -/
def assignment : Parser (Expression Location) := do
  let first ← lookahead
  let left ← conditional inner
  match (← lookahead).assignmentOperator? with
  | some operator =>
    requireTarget
    clearUnlessPlain operator
    skip
    let right ← isolated inner.assignment
    let location ← finish .assignmentExpression first.span.start.mark
    cover fun c => { c with initializedName := none }
    return .assignment operator left right location
  | none => return left

/-- One or more expressions with commas between them. -/
def expression : Parser (Expression Location) := do
  let first ← lookahead
  let e ← isolated (assignment inner)
  if ← isAt "," then
    sequenceOf first.span.start.mark e
      (furtherItems inner (isolated (assignment inner)))
  else return e

end Parser

end ScriptTree
