/-
The token at a cursor. Its first character tells which form it has.
-/
import ScriptTree.Token.Name
import ScriptTree.Token.Numeral
import ScriptTree.Token.Punctuator
import ScriptTree.Token.Quoted

namespace ScriptTree

namespace Cursor

/-- The token that marks the end of the text. -/
def endToken (c : Cursor) : Token where
  kind := .endOfInput
  value := .text ""
  raw := ""
  span := ⟨c.position, c.position⟩

variable [NameProperties] [Arithmetic]

/-- Whether a numeral starts here: a digit, or a point before a digit. -/
def startsNumeral (c : Cursor) : Bool :=
  if c.peek = some '.' then c.peekNext.any isDecimalDigit
  else c.peek.any isDecimalDigit

/-- The token that starts here; nothing between tokens is passed over. -/
def token : Scan Token := fun c =>
  match c.peek with
  | none => .ok c.endToken c
  | some ch =>
    if isNameStart ch then nameToken c
    else if ch = '\'' || ch = '"' then quotedToken ch c
    else if c.startsNumeral then numeralToken c
    else punctuatorToken c

end Cursor

end ScriptTree
