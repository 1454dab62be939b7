/-
Expressions as texts with all parentheses.

# One way to write

Every part of an expression that has parts itself stands in parentheses,
so no reader needs to know how strongly an operator binds. There is a
space between any two tokens.

# What can be written

A tree may hold what no text stands for: a name that is a keyword, a
literal with the value of another, a sequence of one expression.
`Expression.Writable` says which trees are free of this. Values are only
given to variables, and functions are left out.
-/
import ScriptTree.Grammar.Expression
import ScriptTree.Token.Lexeme

namespace ScriptTree

variable {π : Type}

/-- Whether the expression is one token. -/
def Expression.isLeaf : Expression π → Bool
  | .identifier _ | .literal _ _ _ => true
  | _ => false

/-- A part of an expression, in parentheses unless it is one token. -/
def enclosed (leaf : Bool) (texts : List String) : List String :=
  if leaf then texts else "(" :: texts ++ [")"]

mutual

/-- The tokens of an expression, written with all parentheses. -/
def Expression.written : Expression π → List String
  | .identifier id => [id.name]
  | .literal _ raw _ => [raw]
  | .assignment operator left right _ =>
    enclosed left.isLeaf left.written
      ++ operator.text :: enclosed right.isLeaf right.written
  | .binary operator left right _ =>
    enclosed left.isLeaf left.written
      ++ operator.text :: enclosed right.isLeaf right.written
  | .logical operator left right _ =>
    enclosed left.isLeaf left.written
      ++ operator.text :: enclosed right.isLeaf right.written
  | .conditional test consequent alternate _ =>
    enclosed test.isLeaf test.written
      ++ "?" :: enclosed consequent.isLeaf consequent.written
      ++ ":" :: enclosed alternate.isLeaf alternate.written
  | .call callee arguments _ =>
    enclosed callee.isLeaf callee.written
      ++ "(" :: [","].intercalate (Expression.writtenAll arguments)
      ++ [")"]
  | .sequence items _ =>
    [","].intercalate (Expression.writtenAll items)
  | .unary operator argument _ _ =>
    operator.text :: enclosed argument.isLeaf argument.written
  | .update operator argument true _ =>
    operator.text :: enclosed argument.isLeaf argument.written
  | .update operator argument false _ =>
    enclosed argument.isLeaf argument.written ++ [operator.text]
  | .function _ => []

/-- Each of several expressions as a part of another. -/
def Expression.writtenAll : List (Expression π) → List (List String)
  | [] => []
  | e :: rest =>
    enclosed e.isLeaf e.written :: Expression.writtenAll rest

end

/-- The text of an expression as a statement. -/
def Expression.text (e : Expression π) : List Char :=
  spaced ("(" :: e.written ++ [")", ";"])

-- ========================================================== writable

/-- A name that is read as it is spelled. -/
structure Identifier.Writable [NameProperties] (id : Identifier π) : Prop where
  lexeme : ∃ t, Token.ofText? id.name.toList = some t ∧
    t.kind = .identifier
  unescaped : '\\' ∉ id.name.toList

/-- Whether tokens of this kind are literals. -/
def TokenKind.isLiteral : TokenKind → Bool
  | .boolean | .null | .numeric | .string => true
  | _ => false

/-- An expression that a text stands for. -/
inductive Expression.Writable [NameProperties] : Expression π → Prop where
  | identifier {id : Identifier π} : id.Writable →
      Writable (.identifier id)
  | literal {value : LiteralValue} {raw : String} {place : π} {t : Token} :
      Token.ofText? raw.toList = some t → t.kind.isLiteral →
      t.literalValue = value → Writable (.literal value raw place)
  | assignment {operator : AssignmentOperator} {target : Identifier π}
      {right : Expression π} {place : π} : target.Writable →
      right.Writable →
      Writable (.assignment operator (.identifier target) right place)
  | binary {operator : BinaryOperator} {left right : Expression π}
      {place : π} : left.Writable → right.Writable →
      Writable (.binary operator left right place)
  | logical {operator : LogicalOperator} {left right : Expression π}
      {place : π} : left.Writable → right.Writable →
      Writable (.logical operator left right place)
  | conditional {test consequent alternate : Expression π} {place : π} :
      test.Writable → consequent.Writable → alternate.Writable →
      Writable (.conditional test consequent alternate place)
  | call {callee : Expression π} {arguments : List (Expression π)}
      {place : π} : callee.Writable → (∀ e ∈ arguments, e.Writable) →
      Writable (.call callee arguments place)
  | sequence {items : List (Expression π)} {place : π} :
      2 ≤ items.length → (∀ e ∈ items, e.Writable) →
      Writable (.sequence items place)
  | unary {operator : UnaryOperator} {argument : Expression π}
      {place : π} : argument.Writable →
      Writable (.unary operator argument true place)
  | update {operator : UpdateOperator} {target : Identifier π}
      {before : Bool} {place : π} : target.Writable →
      Writable (.update operator (.identifier target) before place)

end ScriptTree
