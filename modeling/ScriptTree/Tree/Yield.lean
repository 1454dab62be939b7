/-
The tokens that a tree stands for, in the order of the text.

# What is left out

The places of a tree say nothing of the tokens in it. Parentheses, commas
and semicolons leave no trace in a tree, so they are left out here; all
other tokens are there, each as the value it stands for.
-/
import ScriptTree.Token
import ScriptTree.Tree

namespace ScriptTree

/-- The value of the token that a literal is. -/
def LiteralValue.token : LiteralValue → TokenValue
  | .boolean value => .text (if value then "true" else "false")
  | .number value => .number value
  | .string text => .text text
  | .null => .text "null"

/-- Whether a token leaves no trace in a tree. -/
def Token.isSilent (t : Token) : Bool :=
  t.isPunctuator "(" || t.isPunctuator ")" || t.isPunctuator ","
    || t.isPunctuator ";"

/-- The tokens among the given ones that leave a trace, as values. -/
def traces (tokens : List Token) : List TokenValue :=
  (tokens.filter (!·.isSilent)).map Token.value

variable {π : Type}

/-- A name. -/
def Identifier.yield (id : Identifier π) : List TokenValue :=
  [.text id.name]

/-- A name that may be missing. -/
def Identifier.yieldOption : Option (Identifier π) → List TokenValue
  | none => []
  | some id => id.yield

mutual

/-- The tokens of an expression. -/
@[simp] def Expression.yield : Expression π → List TokenValue
  | .identifier id => id.yield
  | .literal value _ _ => [value.token]
  | .assignment operator left right _ =>
    left.yield ++ .text operator.text :: right.yield
  | .binary operator left right _ =>
    left.yield ++ .text operator.text :: right.yield
  | .logical operator left right _ =>
    left.yield ++ .text operator.text :: right.yield
  | .conditional test consequent alternate _ =>
    test.yield ++ .text "?" :: consequent.yield
      ++ .text ":" :: alternate.yield
  | .call callee arguments _ =>
    callee.yield ++ Expression.yieldAll arguments
  | .sequence items _ => Expression.yieldAll items
  | .unary operator argument _ _ => .text operator.text :: argument.yield
  | .update operator argument true _ =>
    .text operator.text :: argument.yield
  | .update operator argument false _ =>
    argument.yield ++ [.text operator.text]
  | .function fn => fn.yield "function"

/-- The tokens of several expressions, without the commas. -/
@[simp] def Expression.yieldAll : List (Expression π) → List TokenValue
  | [] => []
  | e :: rest => e.yield ++ Expression.yieldAll rest

/-- The tokens of an expression that may be missing. -/
@[simp] def Expression.yieldOption : Option (Expression π) → List TokenValue
  | none => []
  | some e => e.yield

/-- The tokens of a function that opens with the given word. -/
@[simp] def Function.yield (word : String) : Function π → List TokenValue
  | .mk id params body generator _ =>
    .text word :: (if generator then [.text "*"] else [])
      ++ Identifier.yieldOption id ++ Parameter.yieldAll params
      ++ body.yield

/-- The tokens of a parameter. -/
@[simp] def Parameter.yield : Parameter π → List TokenValue
  | .plain id => id.yield
  | .withDefault id value _ => id.yield ++ .text "=" :: value.yield

/-- The tokens of several parameters, without the commas. -/
@[simp] def Parameter.yieldAll : List (Parameter π) → List TokenValue
  | [] => []
  | p :: rest => p.yield ++ Parameter.yieldAll rest

/-- The tokens of a block, its braces among them. -/
@[simp] def Block.yield : Block π → List TokenValue
  | .mk body _ =>
    .text "\x7b" :: Statement.yieldAll body ++ [.text "\x7d"]

/-- The tokens of a declared name. -/
@[simp] def Declarator.yield : Declarator π → List TokenValue
  | .mk id none _ => id.yield
  | .mk id (some init) _ => id.yield ++ .text "=" :: init.yield

/-- The tokens of several declared names, without the commas. -/
@[simp] def Declarator.yieldAll : List (Declarator π) → List TokenValue
  | [] => []
  | d :: rest => d.yield ++ Declarator.yieldAll rest

/-- The tokens of a declaration. -/
@[simp] def Declaration.yield : Declaration π → List TokenValue
  | .mk kind declarators _ =>
    .text kind.text :: Declarator.yieldAll declarators

/-- The tokens of the start of a loop. -/
@[simp] def ForInit.yield : ForInit π → List TokenValue
  | .declaration decl => decl.yield
  | .expression e => e.yield

/-- The tokens of the start of a loop that may be missing. -/
@[simp] def ForInit.yieldOption : Option (ForInit π) → List TokenValue
  | none => []
  | some init => init.yield

/-- The tokens of a statement. -/
@[simp] def Statement.yield : Statement π → List TokenValue
  | .declaration decl => decl.yield
  | .function fn => fn.yield "def"
  | .block b => b.yield
  | .ifElse test consequent none _ =>
    .text "if" :: test.yield ++ consequent.yield
  | .ifElse test consequent (some alternate) _ =>
    .text "if" :: test.yield ++ consequent.yield
      ++ .text "else" :: alternate.yield
  | .forLoop init test update body _ =>
    .text "for" :: ForInit.yieldOption init
      ++ Expression.yieldOption test ++ Expression.yieldOption update
      ++ body.yield
  | .whileLoop test body _ => .text "while" :: test.yield ++ body.yield
  | .doWhileLoop body test _ =>
    .text "do" :: body.yield ++ .text "while" :: test.yield
  | .returning argument _ =>
    .text "return" :: Expression.yieldOption argument
  | .breaking label _ => .text "break" :: Identifier.yieldOption label
  | .continuing label _ =>
    .text "continue" :: Identifier.yieldOption label
  | .throwing argument _ => .text "throw" :: argument.yield
  | .expression e _ => e.yield
  | .labeled label body _ => label.yield ++ .text ":" :: body.yield
  | .empty _ => []
  | .debugger _ => [.text "debugger"]

/-- The tokens of several statements. -/
@[simp] def Statement.yieldAll : List (Statement π) → List TokenValue
  | [] => []
  | s :: rest => s.yield ++ Statement.yieldAll rest

end

/-- The tokens of a script. -/
def Script.yield (script : Script π) : List TokenValue :=
  Statement.yieldAll script.body

end ScriptTree
