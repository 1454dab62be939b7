/-
The kinds of node a syntax tree is made of.
-/
namespace ScriptTree

/-- The kinds of node. -/
inductive NodeKind where
  | script
  | expressionStatement | blockStatement | variableDeclaration
  | variableDeclarator | functionDeclaration | ifStatement
  | forStatement | whileStatement | doWhileStatement | returnStatement
  | breakStatement | continueStatement | throwStatement
  | labeledStatement | emptyStatement | debuggerStatement
  | identifier | literal | assignmentExpression | binaryExpression
  | logicalExpression | conditionalExpression | callExpression
  | sequenceExpression | unaryExpression | updateExpression
  | functionExpression | assignmentPattern
  deriving DecidableEq, Repr

/-- The name of the kind. -/
def NodeKind.name : NodeKind → String
  | .script => "Script"
  | .expressionStatement => "ExpressionStatement"
  | .blockStatement => "BlockStatement"
  | .variableDeclaration => "VariableDeclaration"
  | .variableDeclarator => "VariableDeclarator"
  | .functionDeclaration => "FunctionDeclaration"
  | .ifStatement => "IfStatement"
  | .forStatement => "ForStatement"
  | .whileStatement => "WhileStatement"
  | .doWhileStatement => "DoWhileStatement"
  | .returnStatement => "ReturnStatement"
  | .breakStatement => "BreakStatement"
  | .continueStatement => "ContinueStatement"
  | .throwStatement => "ThrowStatement"
  | .labeledStatement => "LabeledStatement"
  | .emptyStatement => "EmptyStatement"
  | .debuggerStatement => "DebuggerStatement"
  | .identifier => "Identifier"
  | .literal => "Literal"
  | .assignmentExpression => "AssignmentExpression"
  | .binaryExpression => "BinaryExpression"
  | .logicalExpression => "LogicalExpression"
  | .conditionalExpression => "ConditionalExpression"
  | .callExpression => "CallExpression"
  | .sequenceExpression => "SequenceExpression"
  | .unaryExpression => "UnaryExpression"
  | .updateExpression => "UpdateExpression"
  | .functionExpression => "FunctionExpression"
  | .assignmentPattern => "AssignmentPattern"

end ScriptTree
