/-
What it is to fill in a template at once.

A place is a percent sign and a digit, as long as there is a value with
that number. Values come in verbatim: what is in them is no place,
whatever it looks like.
-/
import ScriptTree.Diagnostic.Message
import ScriptTree.Source.Character

namespace ScriptTree

namespace Message

/-- The value that belongs to a digit, if it does. -/
def valueAt? (values : List String) (digit : Char) : Option String :=
  if isDecimalDigit digit then values[digitValue digit]? else none

/-- A text with all its places filled in, and all else as it is. -/
def fillAtOnce (values : List String) : List Char → List Char
  | '%' :: digit :: rest =>
    match valueAt? values digit with
    | some value => value.toList ++ fillAtOnce values rest
    | none => '%' :: fillAtOnce values (digit :: rest)
  | ch :: rest => ch :: fillAtOnce values rest
  | [] => []

/-- How often the place with the given number occurs in a text. -/
def placesOf (number : Nat) : List Char → Nat
  | [] => 0
  | ch :: rest =>
    let later := placesOf number rest
    if (place number).isPrefixOf (ch :: rest) then later + 1 else later

end Message

end ScriptTree
