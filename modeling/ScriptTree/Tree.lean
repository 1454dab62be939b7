/-
The syntax tree of a script. Every node carries a place of type `π`. A
parser fills in the span of source text that the node covers, a report
keeps as much of it as was asked for, and with the unit type only the
shape of the tree is left.
-/
import ScriptTree.Number.Binary64
import ScriptTree.Tree.Operator

namespace ScriptTree

/-- The value of a literal. -/
inductive LiteralValue where
  | boolean (value : Bool)
  | number (value : Binary64)
  | string (text : String)
  | null
  deriving DecidableEq, Repr

/-- The ways to declare variables. -/
inductive DeclarationKind where
  | var
  | letting
  | const
  deriving DecidableEq, Repr

/-- The word that opens a declaration. -/
def DeclarationKind.text : DeclarationKind → String
  | .var => "var"
  | .letting => "let"
  | .const => "const"

/-- A name at a place. -/
structure Identifier (π : Type) where
  name : String
  place : π
  deriving DecidableEq, Repr

mutual

/-- An expression. -/
inductive Expression (π : Type) where
  | identifier (id : Identifier π)
  /-- A literal, with its source text. -/
  | literal (value : LiteralValue) (raw : String) (place : π)
  | assignment (operator : AssignmentOperator)
      (left right : Expression π) (place : π)
  | binary (operator : BinaryOperator) (left right : Expression π)
      (place : π)
  | logical (operator : LogicalOperator) (left right : Expression π)
      (place : π)
  | conditional (test consequent alternate : Expression π) (place : π)
  | call (callee : Expression π) (arguments : List (Expression π))
      (place : π)
  | sequence (items : List (Expression π)) (place : π)
  /-- A unary expression. Its operator stands before the operand. -/
  | unary (operator : UnaryOperator) (argument : Expression π)
      (before : Bool) (place : π)
  /-- An update, and whether its operator stands before the operand. -/
  | update (operator : UpdateOperator) (argument : Expression π)
      (before : Bool) (place : π)
  | function (function : Function π)

/-- A function, with or without a name. -/
inductive Function (π : Type) where
  | mk (id : Option (Identifier π)) (params : List (Parameter π))
      (body : Block π) (generator : Bool) (place : π)

/-- A parameter, with or without a default value. -/
inductive Parameter (π : Type) where
  | plain (id : Identifier π)
  | withDefault (id : Identifier π) (value : Expression π) (place : π)

/-- Statements in braces. -/
inductive Block (π : Type) where
  | mk (body : List (Statement π)) (place : π)

/-- A declared name, with or without a value. -/
inductive Declarator (π : Type) where
  | mk (id : Identifier π) (init : Option (Expression π)) (place : π)

/-- A declaration of variables. -/
inductive Declaration (π : Type) where
  | mk (kind : DeclarationKind) (declarators : List (Declarator π))
      (place : π)

/-- What a `for` loop starts with. -/
inductive ForInit (π : Type) where
  | declaration (declaration : Declaration π)
  | expression (expression : Expression π)

/-- A statement. -/
inductive Statement (π : Type) where
  | declaration (declaration : Declaration π)
  | function (function : Function π)
  | block (block : Block π)
  | ifElse (test : Expression π) (consequent : Statement π)
      (alternate : Option (Statement π)) (place : π)
  | forLoop (init : Option (ForInit π))
      (test update : Option (Expression π)) (body : Statement π)
      (place : π)
  | whileLoop (test : Expression π) (body : Statement π) (place : π)
  | doWhileLoop (body : Statement π) (test : Expression π) (place : π)
  | returning (argument : Option (Expression π)) (place : π)
  | breaking (label : Option (Identifier π)) (place : π)
  | continuing (label : Option (Identifier π)) (place : π)
  | throwing (argument : Expression π) (place : π)
  | expression (expression : Expression π) (place : π)
  | labeled (label : Identifier π) (body : Statement π) (place : π)
  | empty (place : π)
  | debugger (place : π)

end

/-- A whole script. -/
structure Script (π : Type) where
  body : List (Statement π)
  place : π

-- ====================================================== places

variable {π ρ : Type}

/-- The place of a function. -/
def Function.place : Function π → π
  | .mk _ _ _ _ place => place

/-- The place of a block. -/
def Block.place : Block π → π
  | .mk _ place => place

/-- The place of a declaration. -/
def Declaration.place : Declaration π → π
  | .mk _ _ place => place

/-- The place of an expression. -/
def Expression.place : Expression π → π
  | .identifier id => id.place
  | .function fn => fn.place
  | .literal _ _ place | .assignment _ _ _ place
  | .binary _ _ _ place | .logical _ _ _ place
  | .conditional _ _ _ place | .call _ _ place | .sequence _ place
  | .unary _ _ _ place | .update _ _ _ place => place

/-- The place of a statement. -/
def Statement.place : Statement π → π
  | .declaration decl => decl.place
  | .function fn => fn.place
  | .block b => b.place
  | .ifElse _ _ _ place | .forLoop _ _ _ _ place
  | .whileLoop _ _ place | .doWhileLoop _ _ place
  | .returning _ place | .breaking _ place | .continuing _ place
  | .throwing _ place | .expression _ place | .labeled _ _ place
  | .empty place | .debugger place => place

-- ============================================= changing all places

/-- The same name at another place. -/
def Identifier.map (f : π → ρ) (id : Identifier π) : Identifier ρ :=
  ⟨id.name, f id.place⟩

mutual

/-- The same expression with `f` applied to every place in it. -/
def Expression.map (f : π → ρ) : Expression π → Expression ρ
  | .identifier id => .identifier (id.map f)
  | .literal value raw place => .literal value raw (f place)
  | .assignment operator left right place =>
    .assignment operator (left.map f) (right.map f) (f place)
  | .binary operator left right place =>
    .binary operator (left.map f) (right.map f) (f place)
  | .logical operator left right place =>
    .logical operator (left.map f) (right.map f) (f place)
  | .conditional test consequent alternate place =>
    .conditional (test.map f) (consequent.map f) (alternate.map f)
      (f place)
  | .call callee arguments place =>
    .call (callee.map f) (Expression.mapAll f arguments) (f place)
  | .sequence items place =>
    .sequence (Expression.mapAll f items) (f place)
  | .unary operator argument before place =>
    .unary operator (argument.map f) before (f place)
  | .update operator argument before place =>
    .update operator (argument.map f) before (f place)
  | .function fn => .function (fn.map f)

/-- Several expressions with `f` applied to every place in them. -/
def Expression.mapAll (f : π → ρ) :
    List (Expression π) → List (Expression ρ)
  | [] => []
  | e :: rest => e.map f :: Expression.mapAll f rest

/-- An expression that may be missing, with other places. -/
def Expression.mapOption (f : π → ρ) :
    Option (Expression π) → Option (Expression ρ)
  | none => none
  | some e => some (e.map f)

/-- The same function with `f` applied to every place in it. -/
def Function.map (f : π → ρ) : Function π → Function ρ
  | .mk id params body generator place =>
    .mk (id.map (·.map f)) (Parameter.mapAll f params) (body.map f)
      generator (f place)

/-- The same parameter with `f` applied to every place in it. -/
def Parameter.map (f : π → ρ) : Parameter π → Parameter ρ
  | .plain id => .plain (id.map f)
  | .withDefault id value place =>
    .withDefault (id.map f) (value.map f) (f place)

/-- Several parameters with `f` applied to every place in them. -/
def Parameter.mapAll (f : π → ρ) :
    List (Parameter π) → List (Parameter ρ)
  | [] => []
  | p :: rest => p.map f :: Parameter.mapAll f rest

/-- The same block with `f` applied to every place in it. -/
def Block.map (f : π → ρ) : Block π → Block ρ
  | .mk body place => .mk (Statement.mapAll f body) (f place)

/-- The same declared name with `f` applied to every place in it. -/
def Declarator.map (f : π → ρ) : Declarator π → Declarator ρ
  | .mk id init place =>
    .mk (id.map f) (Expression.mapOption f init) (f place)

/-- Several declared names with `f` applied to every place in them. -/
def Declarator.mapAll (f : π → ρ) :
    List (Declarator π) → List (Declarator ρ)
  | [] => []
  | d :: rest => d.map f :: Declarator.mapAll f rest

/-- The same declaration with `f` applied to every place in it. -/
def Declaration.map (f : π → ρ) : Declaration π → Declaration ρ
  | .mk kind declarators place =>
    .mk kind (Declarator.mapAll f declarators) (f place)

/-- The same start of a loop with `f` applied to every place in it. -/
def ForInit.map (f : π → ρ) : ForInit π → ForInit ρ
  | .declaration decl => .declaration (decl.map f)
  | .expression e => .expression (e.map f)

/-- The start of a loop that may be missing, with other places. -/
def ForInit.mapOption (f : π → ρ) :
    Option (ForInit π) → Option (ForInit ρ)
  | none => none
  | some init => some (init.map f)

/-- The same statement with `f` applied to every place in it. -/
def Statement.map (f : π → ρ) : Statement π → Statement ρ
  | .declaration decl => .declaration (decl.map f)
  | .function fn => .function (fn.map f)
  | .block b => .block (b.map f)
  | .ifElse test consequent alternate place =>
    .ifElse (test.map f) (consequent.map f)
      (Statement.mapOption f alternate) (f place)
  | .forLoop init test update body place =>
    .forLoop (ForInit.mapOption f init) (Expression.mapOption f test)
      (Expression.mapOption f update) (body.map f) (f place)
  | .whileLoop test body place =>
    .whileLoop (test.map f) (body.map f) (f place)
  | .doWhileLoop body test place =>
    .doWhileLoop (body.map f) (test.map f) (f place)
  | .returning argument place =>
    .returning (Expression.mapOption f argument) (f place)
  | .breaking label place => .breaking (label.map (·.map f)) (f place)
  | .continuing label place =>
    .continuing (label.map (·.map f)) (f place)
  | .throwing argument place => .throwing (argument.map f) (f place)
  | .expression e place => .expression (e.map f) (f place)
  | .labeled label body place =>
    .labeled (label.map f) (body.map f) (f place)
  | .empty place => .empty (f place)
  | .debugger place => .debugger (f place)

/-- Several statements with `f` applied to every place in them. -/
def Statement.mapAll (f : π → ρ) :
    List (Statement π) → List (Statement ρ)
  | [] => []
  | s :: rest => s.map f :: Statement.mapAll f rest

/-- A statement that may be missing, with other places. -/
def Statement.mapOption (f : π → ρ) :
    Option (Statement π) → Option (Statement ρ)
  | none => none
  | some s => some (s.map f)

end

/-- The same script with `f` applied to every place in it. -/
def Script.map (f : π → ρ) (script : Script π) : Script ρ :=
  ⟨Statement.mapAll f script.body, f script.place⟩

-- ============================================================ shapes

/-- An expression but for its places. -/
def Expression.shape (e : Expression π) : Expression Unit :=
  e.map fun _ => ()

/-- A statement but for its places. -/
def Statement.shape (s : Statement π) : Statement Unit :=
  s.map fun _ => ()

/-- The expression that an operator makes of two operands. -/
def InfixOperator.node (operator : InfixOperator)
    (left right : Expression π) (place : π) : Expression π :=
  match operator with
  | .binary operator => .binary operator left right place
  | .logical operator => .logical operator left right place

end ScriptTree
