/-
The outline of a tree: its nodes, and which are within which.

# One form for all nodes

A tree has a form for each kind of node. What is said of all nodes alike,
where they are and what they are within, does not depend on these forms,
and is said of the outline. A node in an outline is a kind, a place and
the nodes directly within it.

# Order

The nodes within a node come in the order of the text. So the body of a
loop stands before its condition where the condition is at the end.
-/
import ScriptTree.Tree
import ScriptTree.Tree.Kind

namespace ScriptTree

/-- A node with those within it. -/
inductive Outline (π : Type) where
  | node (kind : NodeKind) (place : π) (children : List (Outline π))

variable {π ρ : Type}

namespace Outline

/-- The place of the outermost node. -/
def place : Outline π → π
  | .node _ place _ => place

mutual

/-- The same outline with `f` applied to every place in it. -/
def map (f : π → ρ) : Outline π → Outline ρ
  | .node kind place children => .node kind (f place) (mapAll f children)

/-- Several outlines with `f` applied to every place in them. -/
def mapAll (f : π → ρ) : List (Outline π) → List (Outline ρ)
  | [] => []
  | o :: rest => o.map f :: mapAll f rest

end

mutual

/-- The nodes of an outline, each after those within it. -/
def nodes : Outline π → List (NodeKind × π)
  | .node kind place children => nodesAll children ++ [(kind, place)]

/-- The nodes of several outlines, in their order. -/
def nodesAll : List (Outline π) → List (NodeKind × π)
  | [] => []
  | o :: rest => o.nodes ++ nodesAll rest

end

@[simp] theorem mapAll_eq (f : π → ρ) (l : List (Outline π)) :
    mapAll f l = l.map (map f) := by
  induction l with
  | nil => rfl
  | cons o rest ih => rw [mapAll, ih, List.map_cons]

@[simp] theorem place_map (f : π → ρ) (o : Outline π) :
    (o.map f).place = f o.place := by
  cases o
  rfl

@[simp] theorem nodesAll_append (l l' : List (Outline π)) :
    nodesAll (l ++ l') = nodesAll l ++ nodesAll l' := by
  induction l with
  | nil => rfl
  | cons o rest ih =>
      rw [List.cons_append, nodesAll, ih, nodesAll, List.append_assoc]

@[simp] theorem nodesAll_singleton (o : Outline π) :
    nodesAll [o] = o.nodes := List.append_nil _

/-- The nodes of a forest with one more tree. -/
theorem mem_nodesAll_concat {l children : List (Outline π)}
    {kind : NodeKind} {place : π} {node : NodeKind × π} :
    node ∈ nodesAll (l ++ [.node kind place children]) ↔
      node ∈ nodesAll l ∨ node ∈ nodesAll children ∨
        node = (kind, place) := by
  simp [nodes]

end Outline

-- ================================================= outlines of trees

/-- The outline of a name. -/
def Identifier.outline (id : Identifier π) : Outline π :=
  .node .identifier id.place []

/-- A name that may be missing. -/
def Identifier.outlineOption : Option (Identifier π) → List (Outline π)
  | none => []
  | some id => [id.outline]

mutual

/-- The outline of an expression. -/
def Expression.outline : Expression π → Outline π
  | .identifier id => id.outline
  | .literal _ _ place => .node .literal place []
  | .assignment _ left right place =>
    .node .assignmentExpression place [left.outline, right.outline]
  | .binary _ left right place =>
    .node .binaryExpression place [left.outline, right.outline]
  | .logical _ left right place =>
    .node .logicalExpression place [left.outline, right.outline]
  | .conditional test consequent alternate place =>
    .node .conditionalExpression place
      [test.outline, consequent.outline, alternate.outline]
  | .call callee arguments place =>
    .node .callExpression place
      (callee.outline :: Expression.outlineAll arguments)
  | .sequence items place =>
    .node .sequenceExpression place (Expression.outlineAll items)
  | .unary _ argument _ place =>
    .node .unaryExpression place [argument.outline]
  | .update _ argument _ place =>
    .node .updateExpression place [argument.outline]
  | .function fn => fn.outline .functionExpression

/-- The outlines of several expressions. -/
def Expression.outlineAll : List (Expression π) → List (Outline π)
  | [] => []
  | e :: rest => e.outline :: Expression.outlineAll rest

/-- The outline of an expression that may be missing. -/
def Expression.outlineOption : Option (Expression π) → List (Outline π)
  | none => []
  | some e => [e.outline]

/-- The outline of a function that is a node of the given kind. -/
def Function.outline (kind : NodeKind) : Function π → Outline π
  | .mk id params body _ place =>
    .node kind place (Identifier.outlineOption id
      ++ Parameter.outlineAll params ++ [body.outline])

/-- The outline of a parameter. One with a default value is a pattern. -/
def Parameter.outline : Parameter π → Outline π
  | .plain id => id.outline
  | .withDefault id value place =>
    .node .assignmentPattern place [id.outline, value.outline]

/-- The outlines of several parameters. -/
def Parameter.outlineAll : List (Parameter π) → List (Outline π)
  | [] => []
  | p :: rest => p.outline :: Parameter.outlineAll rest

/-- The outline of a block. -/
def Block.outline : Block π → Outline π
  | .mk body place =>
    .node .blockStatement place (Statement.outlineAll body)

/-- The outline of a declared name. -/
def Declarator.outline : Declarator π → Outline π
  | .mk id init place =>
    .node .variableDeclarator place
      (id.outline :: Expression.outlineOption init)

/-- The outlines of several declared names. -/
def Declarator.outlineAll : List (Declarator π) → List (Outline π)
  | [] => []
  | d :: rest => d.outline :: Declarator.outlineAll rest

/-- The outline of a declaration. -/
def Declaration.outline : Declaration π → Outline π
  | .mk _ declarators place =>
    .node .variableDeclaration place (Declarator.outlineAll declarators)

/-- The outline of the start of a loop. -/
def ForInit.outline : ForInit π → Outline π
  | .declaration decl => decl.outline
  | .expression e => e.outline

/-- The outline of the start of a loop that may be missing. -/
def ForInit.outlineOption : Option (ForInit π) → List (Outline π)
  | none => []
  | some init => [init.outline]

/-- The outline of a statement. -/
def Statement.outline : Statement π → Outline π
  | .declaration decl => decl.outline
  | .function fn => fn.outline .functionDeclaration
  | .block b => b.outline
  | .ifElse test consequent alternate place =>
    .node .ifStatement place
      (test.outline :: consequent.outline
        :: Statement.outlineOption alternate)
  | .forLoop init test update body place =>
    .node .forStatement place
      (ForInit.outlineOption init ++ Expression.outlineOption test
        ++ Expression.outlineOption update ++ [body.outline])
  | .whileLoop test body place =>
    .node .whileStatement place [test.outline, body.outline]
  | .doWhileLoop body test place =>
    .node .doWhileStatement place [body.outline, test.outline]
  | .returning argument place =>
    .node .returnStatement place (Expression.outlineOption argument)
  | .breaking label place =>
    .node .breakStatement place (Identifier.outlineOption label)
  | .continuing label place =>
    .node .continueStatement place (Identifier.outlineOption label)
  | .throwing argument place =>
    .node .throwStatement place [argument.outline]
  | .expression e place => .node .expressionStatement place [e.outline]
  | .labeled label body place =>
    .node .labeledStatement place [label.outline, body.outline]
  | .empty place => .node .emptyStatement place []
  | .debugger place => .node .debuggerStatement place []

/-- The outlines of several statements. -/
def Statement.outlineAll : List (Statement π) → List (Outline π)
  | [] => []
  | s :: rest => s.outline :: Statement.outlineAll rest

/-- The outline of a statement that may be missing. -/
def Statement.outlineOption : Option (Statement π) → List (Outline π)
  | none => []
  | some s => [s.outline]

end

/-- The outline of a script. -/
def Script.outline (script : Script π) : Outline π :=
  .node .script script.place (Statement.outlineAll script.body)

-- ================================================== lists in a tree

@[simp] theorem Expression.outlineAll_eq (l : List (Expression π)) :
    Expression.outlineAll l = l.map Expression.outline := by
  induction l with
  | nil => rfl
  | cons e rest ih => rw [Expression.outlineAll, ih, List.map_cons]

@[simp] theorem Parameter.outlineAll_eq (l : List (Parameter π)) :
    Parameter.outlineAll l = l.map Parameter.outline := by
  induction l with
  | nil => rfl
  | cons p rest ih => rw [Parameter.outlineAll, ih, List.map_cons]

@[simp] theorem Declarator.outlineAll_eq (l : List (Declarator π)) :
    Declarator.outlineAll l = l.map Declarator.outline := by
  induction l with
  | nil => rfl
  | cons d rest ih => rw [Declarator.outlineAll, ih, List.map_cons]

@[simp] theorem Statement.outlineAll_eq (l : List (Statement π)) :
    Statement.outlineAll l = l.map Statement.outline := by
  induction l with
  | nil => rfl
  | cons s rest ih => rw [Statement.outlineAll, ih, List.map_cons]

end ScriptTree
