/-
Names that are bound, and functions.
-/
import ScriptTree.Grammar.Production

namespace ScriptTree

namespace Parse

variable (inner : Productions)

/-- A name that is bound. The word `let` may be one where that is
allowed. -/
def boundName (allowsLet : Bool) : Parse (Identifier Span) := do
  let t ← shift
  if t.kind = .identifier || allowsLet && t.isKeyword "let" then
    return ⟨t.shown, ← close .identifier t.span.start⟩
  else unexpected t

/-- A parameter: a name, or a name with a default value. -/
def parameter : Parse (Parameter Span) := do
  let first ← lookahead
  let id ← boundName false
  if ← isAt "=" then
    skip
    let value ← inner.assignment
    return .withDefault id value
      (← close .assignmentPattern first.span.start)
  else return .plain id

/-- The parameters of a function. -/
def parameters : Parse (List (Parameter Span)) :=
  parenthesized (parameter inner) (expect ",") inner.depth

/-- The body of a function. -/
def functionBody : Parse (Block Span) := do
  let first ← lookahead
  expect "\x7b"
  let more : Parse Bool := do
    return !(← lookahead).isEnd && !(← isAt "\x7d")
  let body ← collectWhile more (inner.item .ofFunction) inner.depth
  expect "\x7d"
  return .mk body (← close .blockStatement first.span.start)

/-- The star that marks a generator. -/
def generatorStar : Parse Bool := do
  if ← isAt "*" then
    skip
    return true
  else return false

/-- A function as a statement, which has a name. -/
def functionDeclaration : Parse (Function Span) := do
  let first ← lookahead
  skip
  let generator ← generatorStar
  let id ← boundName false
  let params ← parameters inner
  let body ← functionBody inner
  return .mk (some id) params body generator
    (← close .functionDeclaration first.span.start)

/-- The name of a function that may have none. -/
def optionalName : Parse (Option (Identifier Span)) := do
  if ← isAt "(" then return none else some <$> boundName false

/-- A function as an expression. -/
def functionExpression : Parse (Function Span) := do
  let first ← lookahead
  skip
  let generator ← generatorStar
  let id ← optionalName
  let params ← parameters inner
  let body ← functionBody inner
  return .mk id params body generator
    (← close .functionExpression first.span.start)

end Parse

end ScriptTree
