/-
Operands with operators between them, and how they group.

# Splitting

The operator that is carried out last is the last of the weakest ones. A
chain is split there, and both sides are grouped in turn
(`Chain.grouped`).

# Binding

The same said of the tree, without a way to find it: at every node the
operators on the left bind at least as strongly as the one between, and
those on the right more strongly (`Chain.Groups`).
-/
import ScriptTree.Tree

namespace ScriptTree

/-- Operands with operators between them. -/
inductive Chain (α : Type) where
  | operand (a : α)
  | more (a : α) (operator : InfixOperator) (rest : Chain α)
  deriving DecidableEq, Repr

namespace Chain

variable {α β : Type}

/-- The operand on the left. -/
def first : Chain α → α
  | .operand a | .more a _ _ => a

/-- The same chain of other operands. -/
def map (f : α → β) : Chain α → Chain β
  | .operand a => .operand (f a)
  | .more a operator rest => .more (f a) operator (rest.map f)

/-- The operators, from left to right. -/
def operators : Chain α → List InfixOperator
  | .operand _ => []
  | .more _ operator rest => operator :: rest.operators

/-- Two chains with an operator between them. -/
def append : Chain α → InfixOperator → Chain α → Chain α
  | .operand a, operator, right => .more a operator right
  | .more a next rest, operator, right =>
    .more a next (rest.append operator right)

/-- The last of the weakest operators, with what is on either side. -/
def split? : Chain α → Option (Chain α × InfixOperator × Chain α)
  | .operand _ => none
  | .more a operator rest =>
    match rest.split? with
    | none => some (.operand a, operator, rest)
    | some (left, weakest, right) =>
      if weakest.precedence ≤ operator.precedence then
        some (.more a operator left, weakest, right)
      else some (.operand a, operator, rest)

@[simp] theorem operators_append (left right : Chain α)
    (operator : InfixOperator) :
    (left.append operator right).operators
      = left.operators ++ operator :: right.operators := by
  induction left with
  | operand a => rfl
  | more a next rest ih => rw [append, operators, operators, ih]; rfl

/-- The two sides of a chain make up the chain. -/
theorem eq_append_of_split? {c left right : Chain α}
    {operator : InfixOperator}
    (h : c.split? = some (left, operator, right)) :
    c = left.append operator right := by
  induction c generalizing left operator right with
  | operand a => cases h
  | more a next rest ih =>
      unfold split? at h
      split at h
      · cases h
        rfl
      · next l weakest r hrest =>
        split at h
        · cases h
          rw [ih hrest]
          rfl
        · cases h
          rfl

/-- The tree of a chain of expressions. -/
def grouped (c : Chain (Expression Unit)) : Expression Unit :=
  match _h : c.split? with
  | none => c.first
  | some (left, operator, right) =>
    operator.node left.grouped right.grouped ()
termination_by c.operators.length
decreasing_by
  all_goals
    rw [eq_append_of_split? _h, operators_append, List.length_append,
      List.length_cons]
    omega

/-- The tree groups the chain as strongly as its operators bind, and to
the left where they bind alike. -/
inductive Groups : Chain (Expression Unit) → Expression Unit → Prop where
  | operand (e : Expression Unit) : Groups (.operand e) e
  | node {left right : Chain (Expression Unit)} {l r : Expression Unit}
      {operator : InfixOperator} :
      Groups left l → Groups right r →
      (∀ o ∈ left.operators, operator.precedence ≤ o.precedence) →
      (∀ o ∈ right.operators, operator.precedence < o.precedence) →
      Groups (left.append operator right) (operator.node l r ())

end Chain

end ScriptTree
