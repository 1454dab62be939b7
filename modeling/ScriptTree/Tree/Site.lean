/-
The nodes of a tree that are under a rule about what they may be or
where they may stand.

# What is around a node

On the way down a tree, the functions, loops and labeled statements that
were entered are kept on a list, the innermost first (`Enclosure`). A
jump does not leave its function, so what counts for it ends at the first
function on that list (`ownFunction`).

# Order

The sites of a tree come in the order of the text: a statement before
what is within it, and the target of an assignment or an update after
what is within the target (`Statement.sites`).
-/
import ScriptTree.Tree

namespace ScriptTree

/-- What a node can be within. -/
inductive Enclosure where
  /-- The body of a function. -/
  | function
  /-- The body of a loop. -/
  | loop
  /-- A statement with the given label. -/
  | label (name : String)
  deriving DecidableEq, Repr

/-- What is around a node within its own function. -/
def ownFunction (around : List Enclosure) : List Enclosure :=
  around.takeWhile (· ≠ .function)

/-- A node that is under a rule. -/
inductive RuledNode where
  /-- What an assignment or an update gives a value to. -/
  | target (target : Expression Unit)
  | breaking (label : Option String)
  | continuing (label : Option String)
  | returning
  | labeled (name : String)

/-- Such a node, and what is around it, the innermost first. -/
structure Site where
  node : RuledNode
  around : List Enclosure

/-- The wording of what is wrong with a jump. -/
def isJumpText (description : String) : Bool :=
  description = "Illegal break statement"
    || description = "Illegal continue statement"
    || description = "Illegal return statement"
    || "Undefined label '".toList.isPrefixOf description.toList

namespace Site

/-- The text of what is wrong with a jump: without a label it is not
within a loop of its function, or no statement of its function around it
has the label, or it returns from outside of all functions. -/
def jumpFault? (site : Site) : Option String :=
  match site.node with
  | .breaking none =>
    if .loop ∈ ownFunction site.around then none
    else some "Illegal break statement"
  | .continuing none =>
    if .loop ∈ ownFunction site.around then none
    else some "Illegal continue statement"
  | .breaking (some name) | .continuing (some name) =>
    if .label name ∈ ownFunction site.around then none
    else some ("Undefined label '" ++ name ++ "'")
  | .returning =>
    if .function ∈ site.around then none
    else some "Illegal return statement"
  | .target _ | .labeled _ => none

/-- Whether a statement has the label of one around it in its function. -/
def redeclares (site : Site) : Bool :=
  match site.node with
  | .labeled name => .label name ∈ ownFunction site.around
  | _ => false

/-- What a value is given to. -/
def target? (site : Site) : Option (Expression Unit) :=
  match site.node with
  | .target target => some target
  | _ => none

end Site

-- ========================================================= the sites

variable {π : Type}

/-- Whether an expression is a name. -/
def Expression.isIdentifier : Expression π → Bool
  | .identifier _ => true
  | _ => false

mutual

/-- The sites in an expression. -/
@[simp] def Expression.sites (around : List Enclosure) :
    Expression π → List Site
  | .identifier _ | .literal _ _ _ => []
  | .assignment _ left right _ =>
    left.sites around ++ ⟨.target left.shape, around⟩
      :: right.sites around
  | .binary _ left right _ | .logical _ left right _ =>
    left.sites around ++ right.sites around
  | .conditional test consequent alternate _ =>
    test.sites around ++ consequent.sites around
      ++ alternate.sites around
  | .call callee arguments _ =>
    callee.sites around ++ Expression.sitesAll around arguments
  | .sequence items _ => Expression.sitesAll around items
  | .unary _ argument _ _ => argument.sites around
  | .update _ argument _ _ =>
    argument.sites around ++ [⟨.target argument.shape, around⟩]
  | .function fn => fn.sites around

/-- The sites in several expressions. -/
def Expression.sitesAll (around : List Enclosure) :
    List (Expression π) → List Site
  | [] => []
  | e :: rest => e.sites around ++ Expression.sitesAll around rest

/-- The sites in an expression that may be missing. -/
@[simp] def Expression.sitesOption (around : List Enclosure) :
    Option (Expression π) → List Site
  | none => []
  | some e => e.sites around

/-- The sites in a function. Only its body is within it. -/
@[simp] def Function.sites (around : List Enclosure) :
    Function π → List Site
  | .mk _ params body _ _ =>
    Parameter.sitesAll around params ++ body.sites (.function :: around)

/-- The sites in the default value of a parameter. -/
@[simp] def Parameter.sites (around : List Enclosure) :
    Parameter π → List Site
  | .plain _ => []
  | .withDefault _ value _ => value.sites around

/-- The sites in several parameters. -/
def Parameter.sitesAll (around : List Enclosure) :
    List (Parameter π) → List Site
  | [] => []
  | p :: rest => p.sites around ++ Parameter.sitesAll around rest

/-- The sites in a block. -/
@[simp] def Block.sites (around : List Enclosure) : Block π → List Site
  | .mk body _ => Statement.sitesAll around body

/-- The sites in the value of a declared name. -/
@[simp] def Declarator.sites (around : List Enclosure) :
    Declarator π → List Site
  | .mk _ init _ => Expression.sitesOption around init

/-- The sites in several declared names. -/
def Declarator.sitesAll (around : List Enclosure) :
    List (Declarator π) → List Site
  | [] => []
  | d :: rest => d.sites around ++ Declarator.sitesAll around rest

/-- The sites in a declaration. -/
@[simp] def Declaration.sites (around : List Enclosure) :
    Declaration π → List Site
  | .mk _ declarators _ => Declarator.sitesAll around declarators

/-- The sites in the start of a loop. -/
@[simp] def ForInit.sites (around : List Enclosure) : ForInit π → List Site
  | .declaration decl => decl.sites around
  | .expression e => e.sites around

/-- The sites in the start of a loop that may be missing. -/
@[simp] def ForInit.sitesOption (around : List Enclosure) :
    Option (ForInit π) → List Site
  | none => []
  | some init => init.sites around

/-- The sites in a statement. -/
@[simp] def Statement.sites (around : List Enclosure) :
    Statement π → List Site
  | .declaration decl => decl.sites around
  | .function fn => fn.sites around
  | .block b => b.sites around
  | .ifElse test consequent alternate _ =>
    test.sites around ++ consequent.sites around
      ++ Statement.sitesOption around alternate
  | .forLoop init test update body _ =>
    ForInit.sitesOption around init ++ Expression.sitesOption around test
      ++ Expression.sitesOption around update
      ++ body.sites (.loop :: around)
  | .whileLoop test body _ =>
    test.sites around ++ body.sites (.loop :: around)
  | .doWhileLoop body test _ =>
    body.sites (.loop :: around) ++ test.sites around
  | .returning argument _ =>
    ⟨.returning, around⟩ :: Expression.sitesOption around argument
  | .breaking label _ => [⟨.breaking (label.map (·.name)), around⟩]
  | .continuing label _ => [⟨.continuing (label.map (·.name)), around⟩]
  | .throwing argument _ => argument.sites around
  | .expression e _ => e.sites around
  | .labeled label body _ =>
    ⟨.labeled label.name, around⟩
      :: body.sites (.label label.name :: around)
  | .empty _ | .debugger _ => []

/-- The sites in several statements. -/
def Statement.sitesAll (around : List Enclosure) :
    List (Statement π) → List Site
  | [] => []
  | s :: rest => s.sites around ++ Statement.sitesAll around rest

/-- The sites in a statement that may be missing. -/
@[simp] def Statement.sitesOption (around : List Enclosure) :
    Option (Statement π) → List Site
  | none => []
  | some s => s.sites around

end

/-- The sites in a script, which nothing is around. -/
def Script.sites (script : Script π) : List Site :=
  Statement.sitesAll [] script.body

/-- What assignments and updates in a script give values to. -/
def Script.targets (script : Script π) : List (Expression Unit) :=
  script.sites.filterMap Site.target?

end ScriptTree
