/-
What a decimal text denotes: digits with a point anywhere or without one,
and a power of ten.

A text is first taken apart and then made a number of. Not every text is
one, and all of it has to be used.
-/
import ScriptTree.Number.Binary64
import ScriptTree.Source.Character

namespace ScriptTree

/-- The number that decimal digits denote. -/
def decimalValue (digits : List Char) : Nat :=
  digits.foldl (fun acc ch => acc * 10 + digitValue ch) 0

/-- The number that a text denotes, if it is made of digits. -/
def digitsValue? (text : List Char) : Option Int :=
  if text ≠ [] ∧ text.all isDecimalDigit = true then
    some (decimalValue text)
  else none

/-- The power of ten that a text stands for, if it is one. -/
def powerOf? : List Char → Option Int
  | [] => some 0
  | mark :: text =>
    if mark = 'e' || mark = 'E' then
      match text with
      | '+' :: digits => digitsValue? digits
      | '-' :: digits => (digitsValue? digits).map fun size => -size
      | digits => digitsValue? digits
    else none

/-- The digits after a point, if there is one, and what follows them. -/
def splitPlaces : List Char → List Char × List Char
  | '.' :: text =>
    (text.takeWhile isDecimalDigit, text.dropWhile isDecimalDigit)
  | text => ([], text)

/-- The double that a decimal text denotes: digits with a point anywhere
or without one, and a power of ten, if there is one. All of the text has
to be used. -/
def Binary64.ofDecimalText? (text : List Char) : Option Binary64 :=
  let whole := text.takeWhile isDecimalDigit
  let (places, power) := splitPlaces (text.dropWhile isDecimalDigit)
  if whole = [] ∧ places = [] then none
  else (powerOf? power).map fun power =>
    .ofDecimal (decimalValue (whole ++ places)) (power - places.length)

end ScriptTree
