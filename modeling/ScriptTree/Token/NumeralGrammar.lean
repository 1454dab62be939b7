/-
The grammar of numerals, as regular expressions.

A numeral is the longest text in front that is in the grammar. What a
decimal text denotes is said apart from that (`Binary64.ofDecimalText?`).
-/
import Mathlib.Computability.RegularExpressions
import ScriptTree.Token.Numeral

namespace ScriptTree

namespace NumeralGrammar

/-- One of the given characters. -/
def oneOf (chars : String) : RegularExpression Char :=
  (chars.toList.map .char).sum

/-- One or more times the same. -/
def oneOrMore (r : RegularExpression Char) : RegularExpression Char :=
  r * r.star

/-- Once or not at all. -/
def possibly (r : RegularExpression Char) : RegularExpression Char := 1 + r

/-- A whole number in the radix that one of the marks announces. -/
def announced (marks digits : String) : RegularExpression Char :=
  oneOf "0" * (oneOf marks * oneOrMore (oneOf digits))

/-- A hexadecimal numeral. -/
def hexadecimal : RegularExpression Char :=
  announced "xX" "0123456789abcdefABCDEF"

/-- An octal numeral. -/
def octal : RegularExpression Char := announced "oO" "01234567"

/-- A binary numeral. -/
def binary : RegularExpression Char := announced "bB" "01"

/-- A decimal digit. -/
def digit : RegularExpression Char := oneOf "0123456789"

/-- A fraction, which needs no digit after its point. -/
def fraction : RegularExpression Char := oneOf "." * digit.star

/-- Digits with a point or without one. -/
def mantissa : RegularExpression Char :=
  oneOrMore digit * possibly fraction + oneOf "." * oneOrMore digit

/-- A power of ten, which needs a digit after its sign. -/
def exponent : RegularExpression Char :=
  oneOf "eE" * (possibly (oneOf "+-") * oneOrMore digit)

/-- A decimal numeral. -/
def decimal : RegularExpression Char := mantissa * possibly exponent

/-- A numeral of any form. -/
def numeral : RegularExpression Char :=
  hexadecimal + octal + binary + decimal

/-- Whether what follows a numeral spoils it: the start of a name, or a
decimal digit after octal or binary ones. -/
def Spoiled [NameProperties] (front after : List Char) : Prop :=
  ∃ ch ∈ after.head?, isNameStart ch = true ∨
    isDecimalDigit ch = true ∧ front ∈ (octal + binary).matches'

end NumeralGrammar

/-- The longest text of a language that stands in front of a text. -/
structure IsLongest (language : Language Char) (front text : List Char) :
    Prop where
  mem : front ∈ language
  start : front <+: text
  longest : ∀ other ∈ language, other <+: text →
    other.length ≤ front.length

end ScriptTree
