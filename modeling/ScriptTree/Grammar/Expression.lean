/-
Expressions, from those that bind most strongly to those that bind least.

# Operators between operands

Operands and operators are read from left to right. Operands that wait
for their right side are kept on a stack, with the operator after them.
An operator first closes everything on the stack that binds at least as
strongly, which makes operators of one strength group to the left.
-/
import ScriptTree.Grammar.Function

namespace ScriptTree

/-- Whether a value may be given to the expression: it is a variable, or
gives a value to one in plain form. -/
def Expression.isAssignable {π : Type} : Expression π → Bool
  | .identifier _ => true
  | .assignment .assign left _ _ => left.isAssignable
  | _ => false

namespace Token

/-- The text of a punctuator. -/
def punctuator? (t : Token) : Option String :=
  if t.kind = .punctuator then t.text? else none

/-- The operator that the token is before an operand. -/
def unaryOperator? (t : Token) : Option UnaryOperator :=
  t.punctuator?.bind UnaryOperator.ofText?

/-- The operator that the token is before or after a variable. -/
def updateOperator? (t : Token) : Option UpdateOperator :=
  t.punctuator?.bind UpdateOperator.ofText?

/-- The operator that the token is between a variable and its value. -/
def assignmentOperator? (t : Token) : Option AssignmentOperator :=
  t.punctuator?.bind AssignmentOperator.ofText?

/-- The operator that the token is between two operands. -/
def infixOperator? (t : Token) : Option InfixOperator :=
  if t.isKeyword "instanceof" then some (.binary .instanceOf)
  else t.punctuator?.bind InfixOperator.ofPunctuator?

/-- The value of a literal. A truth value is true only when it is spelled
out as such. -/
def literalValue (t : Token) : LiteralValue :=
  match t.kind, t.value with
  | .boolean, _ => .boolean (t.raw = "true")
  | .null, _ => .null
  | _, .number number => .number number
  | _, .text text => .string text

end Token

namespace Parse

variable (inner : Productions)

/-- Objects to an expression that no value can be given to. -/
def requireAssignable (e : Expression Span) : Parse Unit :=
  if e.isAssignable then pure () else object .invalidTarget

/-- A comma between arguments. A tolerant parse goes on without one, and
takes a semicolon in its place. -/
def argumentSeparator : Parse Unit := do
  if ← isTolerant then
    let t ← lookahead
    if t.isPunctuator "," then skip
    else if t.isPunctuator ";" then
      skip
      objectTo t t.unexpected
    else objectTo t (.unexpectedToken t.shown)
  else expect ","

/-- The arguments of a call. -/
def arguments : Parse (List (Expression Span)) :=
  parenthesized inner.assignment argumentSeparator inner.depth

/-- More expressions, with a comma before each. -/
def furtherItems (item : Parse (Expression Span)) :
    Parse (List (Expression Span)) :=
  collectWhile (isAt ",") (do skip; item) inner.depth

/-- Closes a sequence of expressions; a single one stands for itself. -/
def sequenceOf (start : Position) (first : Expression Span)
    (further : List (Expression Span)) : Parse (Expression Span) := do
  if further.isEmpty then return first
  else
    return .sequence (first :: further) (← close .sequenceExpression start)

/-- An expression in parentheses, of which there are no empty ones. -/
def group : Parse (Expression Span) := do
  expect "("
  let first ← lookahead
  if first.isPunctuator ")" then
    unexpected (← shift)
  else
    let e ← inner.assignment
    let further ← furtherItems inner inner.assignment
    let e ← sequenceOf first.span.start e further
    expect ")"
    return e

/-- A name, a literal, a group or a function. -/
def primary : Parse (Expression Span) := do
  let first ← lookahead
  match first.kind with
  | .identifier =>
    skip
    let span ← close .identifier first.span.start
    return .identifier ⟨first.shown, span⟩
  | .numeric | .string | .boolean | .null =>
    skip
    let span ← close .literal first.span.start
    return .literal first.literalValue first.raw span
  | .punctuator =>
    if first.isPunctuator "(" then group inner
    else unexpected (← shift)
  | .keyword =>
    if first.isKeyword "function" then
      return .function (← functionExpression inner)
    else if first.isKeyword "let" then
      skip
      let span ← close .identifier first.span.start
      return .identifier ⟨first.shown, span⟩
    else unexpected (← shift)
  | .endOfInput => unexpected (← shift)

/-- Any number of calls of what is called. -/
def callsOf (start : Position) : Nat → Expression Span →
    Parse (Expression Span)
  | 0, _ => exhausted
  | steps + 1, callee => do
    if ← isAt "(" then
      let args ← arguments inner
      let span ← close .callExpression start
      callsOf start steps (.call callee args span)
    else return callee

/-- A primary expression, or calls of one. -/
def call : Parse (Expression Span) := do
  let first ← lookahead
  let callee ← primary inner
  callsOf inner first.span.start inner.depth callee

/-- An update, with its operator before or after the variable, or a
call. The operator after a variable stands on the same line. -/
def update : Parse (Expression Span) := do
  let first ← lookahead
  match first.updateOperator? with
  | some operator =>
    skip
    let argument ← inner.unary
    requireAssignable argument
    let span ← close .updateExpression first.span.start
    return .update operator argument true span
  | none =>
    let argument ← call inner
    match (← lookahead).updateOperator?, ← afterLineBreak with
    | some operator, false =>
      requireAssignable argument
      skip
      let span ← close .updateExpression first.span.start
      return .update operator argument false span
    | _, _ => return argument

/-- An operator before an operand, or an update. -/
def unary : Parse (Expression Span) := do
  let first ← lookahead
  match first.unaryOperator? with
  | some operator =>
    skip
    let argument ← inner.unary
    let span ← close .unaryExpression first.span.start
    return .unary operator argument true span
  | none => update inner

/-- Whether the expression is a unary one. -/
def isUnary {π : Type} : Expression π → Bool
  | .unary .. => true
  | _ => false

/-- A power, which groups to the right. The base may be a unary
expression only if it starts with a parenthesis. -/
def power : Parse (Expression Span) := do
  let first ← lookahead
  let base ← unary inner
  if isUnary base && !first.isPunctuator "(" then return base
  else if ← isAt "**" then
    skip
    let exponent ← inner.power
    let span ← close .binaryExpression first.span.start
    return .binary .power base exponent span
  else return base

/-- An operand that waits for its right side. -/
structure Pending where
  left : Expression Span
  operator : InfixOperator
  /-- Where the left operand starts. -/
  start : Position

/-- Closes an operation. -/
def operation (pending : Pending) (right : Expression Span) :
    Parse (Expression Span) := do
  match pending.operator with
  | .binary operator =>
    let span ← close .binaryExpression pending.start
    return .binary operator pending.left right span
  | .logical operator =>
    let span ← close .logicalExpression pending.start
    return .logical operator pending.left right span

/-- Closes the operations on the stack that bind at least as strongly as
`precedence`. Gives the rest of the stack, and the operand that results
with its start. -/
def reduce (precedence : Nat) : List Pending → Position →
    Expression Span → Parse (List Pending × Position × Expression Span)
  | [], start, e => pure ([], start, e)
  | pending :: stack, start, e => do
    if precedence ≤ pending.operator.precedence then
      let e ← operation pending e
      reduce precedence stack pending.start e
    else return (pending :: stack, start, e)

/-- Any number of operators with the operands after them, given the stack
and the operand before them. -/
def operations : Nat → List Pending → Position → Expression Span →
    Parse (Expression Span)
  | 0, _, _, _ => exhausted
  | steps + 1, stack, start, e => do
    match (← lookahead).infixOperator? with
    | none =>
      let (_, _, e) ← reduce 0 stack start e
      return e
    | some operator =>
      let (stack, start, e) ← reduce operator.precedence stack start e
      skip
      let next ← lookahead
      let right ← power inner
      operations steps (⟨e, operator, start⟩ :: stack) next.span.start
        right

/-- Operands with operators between them. -/
def binary : Parse (Expression Span) := do
  let first ← lookahead
  let e ← power inner
  operations inner inner.depth [] first.span.start e

/-- A choice between two expressions. -/
def conditional : Parse (Expression Span) := do
  let first ← lookahead
  let test ← binary inner
  if ← isAt "?" then
    skip
    let consequent ← inner.assignment
    expect ":"
    let alternate ← inner.assignment
    let span ← close .conditionalExpression first.span.start
    return .conditional test consequent alternate span
  else return test

/-- An assignment, which groups to the right. -/
def assignment : Parse (Expression Span) := do
  let first ← lookahead
  let left ← conditional inner
  match (← lookahead).assignmentOperator? with
  | some operator =>
    requireAssignable left
    skip
    let right ← inner.assignment
    let span ← close .assignmentExpression first.span.start
    return .assignment operator left right span
  | none => return left

/-- One or more expressions with commas between them. -/
def expression : Parse (Expression Span) := do
  let first ← lookahead
  let e ← assignment inner
  let further ← furtherItems inner (assignment inner)
  sequenceOf first.span.start e further

end Parse

end ScriptTree
