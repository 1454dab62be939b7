/-
The operators of expressions, by the form of expression they belong to.
The same text may belong to several forms: a plus sign stands between two
operands or before one.
-/
namespace ScriptTree

/-- Operators between two operands that are both evaluated. -/
inductive BinaryOperator where
  | bitOr | bitXor | bitAnd
  | equal | notEqual
  | less | greater | lessEqual | greaterEqual | instanceOf
  | shiftLeft | shiftRight | shiftRightZero
  | add | subtract | multiply | divide | remainder | power
  deriving DecidableEq, Repr

/-- Operators between two operands of which the second may be skipped. -/
inductive LogicalOperator where
  | or | and
  deriving DecidableEq, Repr

/-- Operators before their only operand. -/
inductive UnaryOperator where
  | plus | minus | bitNot | not
  deriving DecidableEq, Repr

/-- Operators that change the variable before or after which they
stand. -/
inductive UpdateOperator where
  | increment | decrement
  deriving DecidableEq, Repr

/-- Operators that give a variable a value. -/
inductive AssignmentOperator where
  | assign
  | add | subtract | multiply | divide | remainder | power
  | shiftLeft | shiftRight | shiftRightZero
  | bitAnd | bitOr | bitXor
  deriving DecidableEq, Repr

namespace BinaryOperator

/-- The text of an operator. -/
def text : BinaryOperator → String
  | .bitOr => "|" | .bitXor => "^" | .bitAnd => "&"
  | .equal => "==" | .notEqual => "!="
  | .less => "<" | .greater => ">"
  | .lessEqual => "<=" | .greaterEqual => ">="
  | .instanceOf => "instanceof"
  | .shiftLeft => "<<" | .shiftRight => ">>" | .shiftRightZero => ">>>"
  | .add => "+" | .subtract => "-"
  | .multiply => "*" | .divide => "/" | .remainder => "%"
  | .power => "**"

/-- All binary operators. -/
def all : List BinaryOperator :=
  [.bitOr, .bitXor, .bitAnd, .equal, .notEqual, .less, .greater,
    .lessEqual, .greaterEqual, .instanceOf, .shiftLeft, .shiftRight,
    .shiftRightZero, .add, .subtract, .multiply, .divide, .remainder,
    .power]

/-- The operator with the given text. -/
def ofText? (text : String) : Option BinaryOperator :=
  all.find? (·.text = text)

end BinaryOperator

namespace LogicalOperator

/-- The text of an operator. -/
def text : LogicalOperator → String
  | .or => "||" | .and => "&&"

/-- The operator with the given text. -/
def ofText? (text : String) : Option LogicalOperator :=
  [or, and].find? (·.text = text)

end LogicalOperator

namespace UnaryOperator

/-- The text of an operator. -/
def text : UnaryOperator → String
  | .plus => "+" | .minus => "-" | .bitNot => "~" | .not => "!"

/-- The operator with the given text. -/
def ofText? (text : String) : Option UnaryOperator :=
  [plus, minus, bitNot, not].find? (·.text = text)

end UnaryOperator

namespace UpdateOperator

/-- The text of an operator. -/
def text : UpdateOperator → String
  | .increment => "++" | .decrement => "--"

/-- The operator with the given text. -/
def ofText? (text : String) : Option UpdateOperator :=
  [increment, decrement].find? (·.text = text)

end UpdateOperator

namespace AssignmentOperator

/-- The text of an operator. -/
def text : AssignmentOperator → String
  | .assign => "="
  | .add => "+=" | .subtract => "-=" | .multiply => "*="
  | .divide => "/=" | .remainder => "%=" | .power => "**="
  | .shiftLeft => "<<=" | .shiftRight => ">>="
  | .shiftRightZero => ">>>="
  | .bitAnd => "&=" | .bitOr => "|=" | .bitXor => "^="

/-- All operators that assign. -/
def all : List AssignmentOperator :=
  [.assign, .add, .subtract, .multiply, .divide, .remainder, .power,
    .shiftLeft, .shiftRight, .shiftRightZero, .bitAnd, .bitOr, .bitXor]

/-- The operator with the given text. -/
def ofText? (text : String) : Option AssignmentOperator :=
  all.find? (·.text = text)

end AssignmentOperator

-- ================================================== precedence

/-- The operators that stand between two operands. -/
inductive InfixOperator where
  | binary (operator : BinaryOperator)
  | logical (operator : LogicalOperator)
  deriving DecidableEq, Repr

namespace InfixOperator

/-- The text of an operator. -/
def text : InfixOperator → String
  | .binary operator => operator.text
  | .logical operator => operator.text

/-- How strongly the operator binds. -/
def precedence : InfixOperator → Nat
  | .logical .or => 1
  | .logical .and => 2
  | .binary .bitOr => 3
  | .binary .bitXor => 4
  | .binary .bitAnd => 5
  | .binary .equal | .binary .notEqual => 6
  | .binary .less | .binary .greater | .binary .lessEqual
  | .binary .greaterEqual | .binary .instanceOf => 7
  | .binary .shiftLeft | .binary .shiftRight
  | .binary .shiftRightZero => 8
  | .binary .add | .binary .subtract => 9
  | .binary .multiply | .binary .divide | .binary .remainder => 11
  | .binary .power => 12

/-- The operator that a punctuator is. The power operator is left out: it
groups to the right and binds before all others. -/
def ofPunctuator? (text : String) : Option InfixOperator :=
  match LogicalOperator.ofText? text with
  | some operator => some (.logical operator)
  | none =>
    match BinaryOperator.ofText? text with
    | some .power | some .instanceOf | none => none
    | some operator => some (.binary operator)

end InfixOperator

end ScriptTree
