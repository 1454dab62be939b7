/-
The wording of diagnostics: templates with numbered places, and the rule
that fills them in.

# One value after the other

Values are put in one at a time, the first everywhere before the second
is looked at. Text that an earlier value brought along is therefore still
searched for the places of the later ones.
-/
namespace ScriptTree

/-- Puts `value` in place of every occurrence of `pattern`, from the left
and without overlap, after `skip` characters that belong to the
occurrence before. -/
def replaceAll (pattern value : List Char) : Nat → List Char → List Char
  | _, [] => []
  | skip + 1, _ :: rest => replaceAll pattern value skip rest
  | 0, ch :: rest =>
    if pattern.isPrefixOf (ch :: rest) then
      value ++ replaceAll pattern value (pattern.length - 1) rest
    else ch :: replaceAll pattern value 0 rest

namespace Message

/-- The mark of the place with the given number: a percent sign and the
number in decimal. -/
def place (number : Nat) : List Char := '%' :: Nat.toDigits 10 number

/-- Puts the values into a text, the first at the places numbered
`number`, the next at those of the next number, and so on. -/
def fillFrom : Nat → List Char → List String → List Char
  | _, text, [] => text
  | number, text, value :: values =>
    fillFrom (number + 1)
      (replaceAll (place number) value.toList 0 text) values

/-- The template with its places filled in. -/
def fill (template : String) (values : List String) : String :=
  .ofList (fillFrom 0 template.toList values)

-- ================================================== the templates

/-- A token where none of its kind may stand. The place is for its text. -/
def unexpectedToken : String := "Unexpected token %0"

/-- Characters that begin no token, or a token that is cut off. -/
def illegalToken : String := "Unexpected token ILLEGAL"

/-- A number where none may stand. -/
def unexpectedNumber : String := "Unexpected number"

/-- A string where none may stand. -/
def unexpectedString : String := "Unexpected string"

/-- A name where none may stand. -/
def unexpectedIdentifier : String := "Unexpected identifier"

/-- A reserved word as a name. -/
def unexpectedReserved : String := "Unexpected reserved word"

/-- A text that ends too early. -/
def unexpectedEnd : String := "Unexpected end of input"

/-- A value assigned to what is no variable. -/
def invalidTarget : String := "Invalid left-hand side in assignment"

/-- A jump out of a loop where there is none. -/
def illegalBreak : String := "Illegal break statement"

/-- A jump to the next round of a loop where there is none. -/
def illegalContinue : String := "Illegal continue statement"

/-- A value returned from outside of all functions. -/
def illegalReturn : String := "Illegal return statement"

/-- A jump to a label that no statement around has. The place is for its
name. -/
def unknownLabel : String := "Undefined label '%0'"

/-- A label within a statement of the same label. The places are for what
is declared again, and for its name. -/
def redeclaration : String := "%0 '%1' has already been declared"

/-- A declaration without a value where one is asked for. The place is for
its kind. -/
def missingInitializer : String := "Missing initializer in %0 declaration"

/-- A line break in front of a value that is thrown. -/
def newlineAfterThrow : String := "Illegal newline after throw"

/-- The word `let` where `let` or `const` declares a name. -/
def letInBinding : String := "let is disallowed as a lexically bound name"

/-- A reserved word that is spelled with an escape. -/
def escapedReserved : String :=
  "Keyword must not contain escaped characters"

/-- An escape without as many hexadecimal digits as it calls for. -/
def invalidHexEscape : String := "Invalid hexadecimal escape sequence"

end Message

end ScriptTree
