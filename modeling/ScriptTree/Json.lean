/-
JSON values with their members in a fixed order, and their text. A number
is either a whole number or a double; doubles are written with the fewest
digits that read back, and infinity, which JSON lacks, as `null`.
-/
import ScriptTree.Number.Decimal

namespace ScriptTree

/-- A JSON value. -/
inductive Json where
  | null
  | bool (value : Bool)
  | whole (value : Int)
  | number (value : Binary64)
  | string (text : String)
  | array (elements : List Json)
  | object (members : List (String × Json))

namespace Json

/-- Text as a list of string values. -/
def strings (texts : List String) : Json := .array (texts.map .string)

/-- A natural number. -/
def nat (n : Nat) : Json := .whole n

/-- A value, or `null` in its absence. -/
def option {α : Type} (f : α → Json) : Option α → Json
  | none => .null
  | some a => f a

-- ===================================================== numbers

/-- Doubles from `1e-5` up to `1e16` are written in plain notation, with
a point in every case, and all others with an exponent. -/
def numberLayout : DecimalLayout where
  plain := some (-5, 15)
  wholePoint := true
  tie := .toEven

/-- The text of a double. -/
def numberText (x : Binary64) : String :=
  match x.reading with
  | .nan | .infinity _ => "null"
  | .finite negative mantissa exponent =>
    let sign := if negative then "-" else ""
    if mantissa = 0 then sign ++ "0.0"
    else sign ++ .ofList (numberLayout.text mantissa exponent)

-- ===================================================== strings

/-- A hexadecimal digit in lower case. -/
def hexDigit (n : Nat) : Char := Nat.digitChar (n % 16)

/-- A character within a string: quotes, backslashes and the control
characters below the space are escaped, and no other. -/
def escape (ch : Char) : List Char :=
  match ch with
  | '"' => ['\\', '"']
  | '\\' => ['\\', '\\']
  | '\x08' => ['\\', 'b']
  | '\t' => ['\\', 't']
  | '\n' => ['\\', 'n']
  | '\x0C' => ['\\', 'f']
  | '\r' => ['\\', 'r']
  | other =>
    if other < ' ' then
      ['\\', 'u', '0', '0', hexDigit (other.toNat / 16),
        hexDigit other.toNat]
    else [other]

/-- A string with its quotes. -/
def quote (text : String) : String :=
  .ofList ('"' :: text.toList.flatMap escape ++ ['"'])

-- ================================================ text on one line

mutual

/-- The value on one line, without any space. -/
def compact : Json → String
  | .null => "null"
  | .bool value => if value then "true" else "false"
  | .whole value => toString value
  | .number value => numberText value
  | .string text => quote text
  | .array elements =>
    "[" ++ ",".intercalate (compactAll elements) ++ "]"
  | .object members =>
    "\x7b" ++ ",".intercalate (compactMembers members) ++ "\x7d"

/-- Several values, each in compact form. -/
def compactAll : List Json → List String
  | [] => []
  | value :: rest => value.compact :: compactAll rest

/-- The members of an object in compact form, each with its name. -/
def compactMembers : List (String × Json) → List String
  | [] => []
  | (name, value) :: rest =>
    (quote name ++ ":" ++ value.compact) :: compactMembers rest

end

-- ============================================= text over many lines

/-- A new line that is indented to the given depth. -/
def newLine (depth : Nat) : String :=
  "\n" ++ .ofList (.replicate (2 * depth) ' ')

/-- Entries between brackets, one to a line, or just the brackets where
there are none. -/
def block (depth : Nat) (opening closing : String) :
    List String → String
  | [] => opening ++ closing
  | entries =>
    let entries := entries.map (newLine (depth + 1) ++ ·)
    opening ++ ",".intercalate entries ++ newLine depth ++ closing

mutual

/-- The value over many lines, with two spaces for each level below
`depth`. -/
def pretty (depth : Nat) : Json → String
  | .null => "null"
  | .bool value => if value then "true" else "false"
  | .whole value => toString value
  | .number value => numberText value
  | .string text => quote text
  | .array elements =>
    block depth "[" "]" (prettyAll (depth + 1) elements)
  | .object members =>
    block depth "\x7b" "\x7d" (prettyMembers (depth + 1) members)

/-- Several values, each at the given depth. -/
def prettyAll (depth : Nat) : List Json → List String
  | [] => []
  | value :: rest => value.pretty depth :: prettyAll depth rest

/-- The members of an object at the given depth, each with its name. -/
def prettyMembers (depth : Nat) : List (String × Json) → List String
  | [] => []
  | (name, value) :: rest =>
    (quote name ++ ": " ++ value.pretty depth)
      :: prettyMembers depth rest

end

end Json

end ScriptTree
