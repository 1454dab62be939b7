/-
Whole scripts, and the levels of productions that a script needs.
-/
import ScriptTree.Grammar.Statement

namespace ScriptTree

/-- The productions one level further out. -/
def Productions.next (inner : Productions) : Productions where
  depth := inner.depth + 1
  assignment := Parse.assignment inner
  unary := Parse.unary inner
  power := Parse.power inner
  statement := Parse.statement inner
  item := Parse.item inner

/-- The productions with the given number of levels. -/
def Productions.ofDepth : Nat → Productions
  | 0 => .none
  | depth + 1 => (ofDepth depth).next

/-- Productions know how deep they may go. -/
@[simp] theorem Productions.depth_ofDepth (n : Nat) :
    (Productions.ofDepth n).depth = n := by
  induction n with
  | zero => rfl
  | succ n ih => exact congrArg (· + 1) ih

/-- A script: statements and declarations up to the end of the text. -/
def Parse.script (productions : Productions) : Parse (Script Span) := do
  skip
  let first ← lookahead
  standAt first.span.stop
  let more : Parse Bool := do return !(← lookahead).isEnd
  let body ← collectWhile more (productions.item .ofScript)
    productions.depth
  let span ← close .script first.span.start
  return ⟨body, span⟩

/-- What became of parsing a text. -/
structure ParseOutcome where
  result : Except Failure (Script Span)
  /-- The state that the parse ended in, also where it failed. -/
  final : ParseState

/-- Parses a text. There is one level of productions for each character
and one more, since a level takes a token and a token a character. -/
def parseText [NameProperties]
    (tolerant : Bool) (text : List Char) : ParseOutcome :=
  let productions := Productions.ofDepth (text.length + 1)
  match Parse.script productions (.ofText text tolerant) with
  | .ok script s => ⟨.ok script, s⟩
  | .error failure s => ⟨.error failure, s⟩

end ScriptTree
