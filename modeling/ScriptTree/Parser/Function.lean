/-
Names that are bound, and functions, as a parser reads them.

# Boundaries

Neither labels nor loops reach into the body of a function from outside.
A parser sets aside what it keeps in mind of them, and takes it up again
after the body.
-/
import ScriptTree.Parser.Production

namespace ScriptTree

namespace Parser

variable [NameProperties] [Arithmetic] (inner : ParserProductions)

/-- Completes the name that a token is. -/
def nameOf (start : Mark) (t : Token) : Parser (Identifier Location) :=
  return ⟨t.shown, ← finish .identifier start⟩

/-- A name that is bound. The word `let` may be one where that is
allowed. -/
def boundName (allowsLet : Bool) : Parser (Identifier Location) := do
  let node ← start
  let t ← nextToken
  if t.kind ≠ .identifier && !(t.isKeyword "let" && allowsLet) then
    unexpected t
  else nameOf node t

/-- Objects to the word `let` as the name in a declaration of the given
kind, if it is one. -/
def refuseLet (kind : Option DeclarationKind) : Parser Unit := do
  let t ← lookahead
  if t.isKeyword "let" && (kind = some .letting || kind = some .const) then
    objectTo t .letInBinding

/-- A name to bind in a declaration of the given kind, if it is one. Only
`var` can declare the name `let`. -/
def pattern (kind : Option DeclarationKind) :
    Parser (Identifier Location) := do
  refuseLet kind
  boundName (kind = some .var)

/-- A parameter: a name, or a name with a default value. -/
def parameter : Parser (Parameter Location) := do
  let first ← lookahead
  let id ← pattern none
  if ← isAt "=" then
    skip
    let value ← isolated inner.assignment
    return .withDefault id value
      (← finish .assignmentPattern first.span.start.mark)
  else return .plain id

/-- Parameters with commas between them, `steps` at most, up to the closing
parenthesis or the end of the text; a comma may also stand before the
parenthesis. -/
def parametersUpTo : Nat → Parser (List (Parameter Location))
  | 0 => exhausted
  | steps + 1 => do
    if (← lookahead).isEnd then return []
    else
      let first ← parameter inner
      if ← isAt ")" then return [first]
      else
        expect ","
        if ← isAt ")" then return [first]
        else return first :: (← parametersUpTo steps)

/-- The parameters of a function. -/
def parameters : Parser (List (Parameter Location)) := do
  expect "("
  let params ← upToParenthesis (parametersUpTo inner inner.depth)
  expect ")"
  return params

/-- The body of a function. -/
def functionBody : Parser (Block Location) := do
  let node ← start
  expect "\x7b"
  let outside ← context
  adapt fun c =>
    { c with labels := [], inIteration := false, inFunctionBody := true }
  let more : Parser Bool := do
    return !(← lookahead).isEnd && !(← isAt "\x7d")
  let body ← collectWhile more inner.item inner.depth
  expect "\x7d"
  adapt fun c =>
    { c with
      labels := outside.labels
      inIteration := outside.inIteration
      inFunctionBody := outside.inFunctionBody }
  return .mk body (← finish .blockStatement node)

/-- The star that marks a generator. -/
def generatorStar : Parser Bool := do
  if ← isAt "*" then
    skip
    return true
  else return false

/-- A function as a statement, which has a name. -/
def functionDeclaration : Parser (Function Location) := do
  let node ← start
  expectWord "def"
  let generator ← generatorStar
  let id ← boundName false
  let params ← parameters inner
  let body ← functionBody inner
  return .mk (some id) params body generator
    (← finish .functionDeclaration node)

/-- The name of a function that may have none. -/
def optionalName : Parser (Option (Identifier Location)) := do
  if ← isAt "(" then return none else some <$> boundName false

/-- A function as an expression. -/
def functionExpression : Parser (Function Location) := do
  let node ← start
  expectWord "function"
  let generator ← generatorStar
  let id ← optionalName
  let params ← parameters inner
  let body ← functionBody inner
  let location ← finish .functionExpression node
  clearCover
  return .mk id params body generator location

end Parser

end ScriptTree
