/-
How the productions of a parser refer to one another: through a record of
the productions one level further in, as those of the grammar do.
-/
import ScriptTree.Parser.State

namespace ScriptTree

/-- The productions that other productions of a parser refer to, one level
further in. -/
structure ParserProductions where
  /-- The number of levels, which also bounds repetitions. -/
  depth : Nat
  assignment : Parser (Expression Location)
  unary : Parser (Expression Location)
  power : Parser (Expression Location)
  statement : Parser (Statement Location)
  item : Parser (Statement Location)

/-- The level that does nothing. -/
def ParserProductions.none : ParserProductions where
  depth := 0
  assignment := Parser.exhausted
  unary := Parser.exhausted
  power := Parser.exhausted
  statement := Parser.exhausted
  item := Parser.exhausted

end ScriptTree
