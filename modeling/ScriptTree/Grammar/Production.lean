/-
How the productions of the grammar refer to one another.

# Tying the knot

A production that contains itself reaches itself through a record of the
productions one level further in. Each level is made from the one below
it, and the lowest has no production that does anything. A production
goes one level in only after it has consumed a token, so a text cannot
need more levels than it has tokens, and one more.
-/
import ScriptTree.Grammar.State

namespace ScriptTree

/-- What jumps may refer to at a place in the text. -/
structure Jumps where
  /-- Within the body of a function. -/
  inFunction : Bool
  /-- Within the body of a loop of that function. -/
  inLoop : Bool
  /-- The labels of the statements around, up to that function. -/
  labels : List String
  deriving DecidableEq, Repr

namespace Jumps

/-- At the top of a script. -/
def ofScript : Jumps := ⟨false, false, []⟩

/-- At the top of the body of a function: neither loops nor labels reach
into it from outside. -/
def ofFunction : Jumps := ⟨true, false, []⟩

/-- Within the body of a loop. -/
def loop (j : Jumps) : Jumps := { j with inLoop := true }

/-- Within a statement with the given label. -/
def label (j : Jumps) (name : String) : Jumps :=
  { j with labels := name :: j.labels }

end Jumps

/-- The productions that other productions refer to, one level further
in. -/
structure Productions where
  /-- The number of levels, which also bounds repetitions. -/
  depth : Nat
  assignment : Parse (Expression Span)
  unary : Parse (Expression Span)
  power : Parse (Expression Span)
  statement : Jumps → Parse (Statement Span)
  item : Jumps → Parse (Statement Span)

/-- The level that does nothing. -/
def Productions.none : Productions where
  depth := 0
  assignment := Parse.exhausted
  unary := Parse.exhausted
  power := Parse.exhausted
  statement := fun _ => Parse.exhausted
  item := fun _ => Parse.exhausted

end ScriptTree
