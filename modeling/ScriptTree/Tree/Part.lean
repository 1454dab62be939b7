/-
The parts of a tree, and what the data model asks of each.

# One list for all depths

What holds at every depth of a tree holds of every part on one list, on
which a part stands in front of those within it (`Expression.parts`). A
name is a part of its own wherever it stands.
-/
import ScriptTree.Token.Name
import ScriptTree.Tree

namespace ScriptTree

variable {π : Type}

/-- A part of a tree. -/
inductive Part (π : Type) where
  | name (id : Identifier π)
  | expression (e : Expression π)
  | function (fn : Function π)
  | parameter (p : Parameter π)
  | declaration (decl : Declaration π)
  | statement (s : Statement π)

/-- The name of a function, which may be missing. -/
def Function.id? : Function π → Option (Identifier π)
  | .mk id _ _ _ _ => id

/-- The name of a parameter. -/
def Parameter.id : Parameter π → Identifier π
  | .plain id | .withDefault id _ _ => id

/-- The name that is declared. -/
def Declarator.id : Declarator π → Identifier π
  | .mk id _ _ => id

/-- The value that a declared name is given. -/
def Declarator.init? : Declarator π → Option (Expression π)
  | .mk _ init _ => init

/-- A name that may be missing. -/
@[simp] def Identifier.partsOption : Option (Identifier π) → List (Part π)
  | none => []
  | some id => [.name id]

mutual

/-- An expression and the parts of it. -/
@[simp] def Expression.parts : Expression π → List (Part π)
  | .identifier id => [.expression (.identifier id), .name id]
  | .literal value raw place => [.expression (.literal value raw place)]
  | .assignment operator left right place =>
    .expression (.assignment operator left right place)
      :: left.parts ++ right.parts
  | .binary operator left right place =>
    .expression (.binary operator left right place)
      :: left.parts ++ right.parts
  | .logical operator left right place =>
    .expression (.logical operator left right place)
      :: left.parts ++ right.parts
  | .conditional test consequent alternate place =>
    .expression (.conditional test consequent alternate place)
      :: test.parts ++ consequent.parts ++ alternate.parts
  | .call callee arguments place =>
    .expression (.call callee arguments place)
      :: callee.parts ++ Expression.partsAll arguments
  | .sequence items place =>
    .expression (.sequence items place) :: Expression.partsAll items
  | .unary operator argument before place =>
    .expression (.unary operator argument before place)
      :: argument.parts
  | .update operator argument before place =>
    .expression (.update operator argument before place)
      :: argument.parts
  | .function fn => .expression (.function fn) :: fn.parts

/-- The parts of several expressions. -/
def Expression.partsAll : List (Expression π) → List (Part π)
  | [] => []
  | e :: rest => e.parts ++ Expression.partsAll rest

/-- The parts of an expression that may be missing. -/
@[simp] def Expression.partsOption :
    Option (Expression π) → List (Part π)
  | none => []
  | some e => e.parts

/-- A function and the parts of it. -/
@[simp] def Function.parts : Function π → List (Part π)
  | .mk id params body generator place =>
    .function (.mk id params body generator place)
      :: Identifier.partsOption id ++ Parameter.partsAll params
        ++ body.parts

/-- A parameter and the parts of it. -/
@[simp] def Parameter.parts : Parameter π → List (Part π)
  | .plain id => [.parameter (.plain id), .name id]
  | .withDefault id value place =>
    .parameter (.withDefault id value place) :: .name id :: value.parts

/-- The parts of several parameters. -/
def Parameter.partsAll : List (Parameter π) → List (Part π)
  | [] => []
  | p :: rest => p.parts ++ Parameter.partsAll rest

/-- The parts of a block, which is none itself. -/
@[simp] def Block.parts : Block π → List (Part π)
  | .mk body _ => Statement.partsAll body

/-- The parts of a declared name. -/
@[simp] def Declarator.parts : Declarator π → List (Part π)
  | .mk id init _ => .name id :: Expression.partsOption init

/-- The parts of several declared names. -/
def Declarator.partsAll : List (Declarator π) → List (Part π)
  | [] => []
  | d :: rest => d.parts ++ Declarator.partsAll rest

/-- A declaration and the parts of it. -/
@[simp] def Declaration.parts : Declaration π → List (Part π)
  | .mk kind declarators place =>
    .declaration (.mk kind declarators place)
      :: Declarator.partsAll declarators

/-- The parts of the start of a loop. -/
@[simp] def ForInit.parts : ForInit π → List (Part π)
  | .declaration decl => decl.parts
  | .expression e => e.parts

/-- The parts of the start of a loop that may be missing. -/
@[simp] def ForInit.partsOption : Option (ForInit π) → List (Part π)
  | none => []
  | some init => init.parts

/-- A statement and the parts of it. -/
@[simp] def Statement.parts : Statement π → List (Part π)
  | .declaration decl => .statement (.declaration decl) :: decl.parts
  | .function fn => .statement (.function fn) :: fn.parts
  | .block b => .statement (.block b) :: b.parts
  | .ifElse test consequent alternate place =>
    .statement (.ifElse test consequent alternate place)
      :: test.parts ++ consequent.parts
        ++ Statement.partsOption alternate
  | .forLoop init test update body place =>
    .statement (.forLoop init test update body place)
      :: ForInit.partsOption init ++ Expression.partsOption test
        ++ Expression.partsOption update ++ body.parts
  | .whileLoop test body place =>
    .statement (.whileLoop test body place) :: test.parts ++ body.parts
  | .doWhileLoop body test place =>
    .statement (.doWhileLoop body test place) :: body.parts ++ test.parts
  | .returning argument place =>
    .statement (.returning argument place)
      :: Expression.partsOption argument
  | .breaking label place =>
    .statement (.breaking label place) :: Identifier.partsOption label
  | .continuing label place =>
    .statement (.continuing label place) :: Identifier.partsOption label
  | .throwing argument place =>
    .statement (.throwing argument place) :: argument.parts
  | .expression e place => .statement (.expression e place) :: e.parts
  | .labeled label body place =>
    .statement (.labeled label body place) :: .name label :: body.parts
  | .empty place => [.statement (.empty place)]
  | .debugger place => [.statement (.debugger place)]

/-- The parts of several statements. -/
def Statement.partsAll : List (Statement π) → List (Part π)
  | [] => []
  | s :: rest => s.parts ++ Statement.partsAll rest

/-- The parts of a statement that may be missing. -/
@[simp] def Statement.partsOption : Option (Statement π) → List (Part π)
  | none => []
  | some s => s.parts

end

/-- The parts of a script, at every depth. -/
def Script.parts (script : Script π) : List (Part π) :=
  Statement.partsAll script.body

-- ============================================================== lists

@[simp] theorem Expression.partsAll_eq (l : List (Expression π)) :
    Expression.partsAll l = l.flatMap Expression.parts := by
  induction l with
  | nil => rfl
  | cons e rest ih => rw [Expression.partsAll, ih, List.flatMap_cons]

@[simp] theorem Parameter.partsAll_eq (l : List (Parameter π)) :
    Parameter.partsAll l = l.flatMap Parameter.parts := by
  induction l with
  | nil => rfl
  | cons p rest ih => rw [Parameter.partsAll, ih, List.flatMap_cons]

@[simp] theorem Declarator.partsAll_eq (l : List (Declarator π)) :
    Declarator.partsAll l = l.flatMap Declarator.parts := by
  induction l with
  | nil => rfl
  | cons d rest ih => rw [Declarator.partsAll, ih, List.flatMap_cons]

@[simp] theorem Statement.partsAll_eq (l : List (Statement π)) :
    Statement.partsAll l = l.flatMap Statement.parts := by
  induction l with
  | nil => rfl
  | cons s rest ih => rw [Statement.partsAll, ih, List.flatMap_cons]

-- ===================================================== the data model

/-- What the data model asks of a part. A sequence has two expressions or
more, and the operator of a unary expression stands before the operand; a
declaration declares something, and gives a value to each constant; a
function that is a statement has a name. No name is a reserved word but
for `let`, and that is not the name of a function, of a parameter, or of
anything that `let` or `const` declares. -/
def Part.Regular : Part π → Prop
  | .name id => (wordKind id.name).isReserved = false ∨ id.name = "let"
  | .expression (.sequence items _) => 2 ≤ items.length
  | .expression (.unary _ _ before _) => before = true
  | .function fn => ∀ id ∈ fn.id?, id.name ≠ "let"
  | .parameter p => p.id.name ≠ "let"
  | .declaration (.mk kind declarators _) =>
    declarators ≠ [] ∧ ∀ d ∈ declarators,
      (kind = .const → d.init?.isSome = true) ∧
        (kind ≠ .var → d.id.name ≠ "let")
  | .statement (.function fn) => fn.id?.isSome = true
  | .expression _ | .statement _ => True

end ScriptTree
