/-
Tokens: the words of a source text.
-/
import ScriptTree.Number.Decimal
import ScriptTree.Source.Position

namespace ScriptTree

/-- The kinds of token. -/
inductive TokenKind where
  | boolean
  /-- The end of the text, which counts as a token. -/
  | endOfInput
  | identifier
  | keyword
  | null
  | numeric
  | punctuator
  | string
  deriving DecidableEq, Repr

namespace TokenKind

/-- The name of the kind in token lists. -/
def name : TokenKind → String
  | .boolean => "Boolean"
  | .endOfInput => "<end>"
  | .identifier => "Identifier"
  | .keyword => "Keyword"
  | .null => "Null"
  | .numeric => "Numeric"
  | .punctuator => "Punctuator"
  | .string => "String"

/-- All kinds. -/
def all : List TokenKind :=
  [.boolean, .endOfInput, .identifier, .keyword, .null, .numeric,
    .punctuator, .string]

/-- The kind with the given name. -/
def ofName? (name : String) : Option TokenKind :=
  all.find? (·.name = name)

/-- Whether tokens of this kind are words that name nothing. -/
def isReserved : TokenKind → Bool
  | .boolean | .keyword | .null => true
  | _ => false

end TokenKind

/-- What a token stands for. -/
inductive TokenValue where
  /-- A name, a word, a punctuator, or the characters of a string, with
  all escapes decoded. -/
  | text (text : String)
  | number (number : Binary64)
  deriving DecidableEq, Repr

/-- A token. -/
structure Token where
  kind : TokenKind
  value : TokenValue
  /-- The token as it stands in the source text. -/
  raw : String
  span : Span
  deriving DecidableEq, Repr

-- ================================================= shown numbers

/-- In diagnostics numbers are written out in full. -/
def shownNumber : DecimalLayout where
  plain := none
  wholePoint := false
  tie := .up

/-- A number as diagnostics show it. A whole number below `10 ^ 21` is
first brought into the range of 64-bit integers, and has no negative
zero. -/
def Binary64.shown (x : Binary64) : String :=
  match x.reading with
  | .nan => "NaN"
  | .infinity negative => if negative then "-inf" else "inf"
  | .finite negative mantissa exponent =>
    let sign := if negative then "-" else ""
    match (wholeNumber? mantissa exponent).filter (· < Nat.pow 10 21) with
    | some 0 => "0"
    | some whole =>
      let most := if negative then Nat.pow 2 63 else Nat.pow 2 63 - 1
      sign ++ toString (min whole most)
    | none => sign ++ .ofList (shownNumber.text mantissa exponent)

namespace Token

/-- The text that the token stands for, unless it stands for a number. -/
def text? (t : Token) : Option String :=
  match t.value with
  | .text text => some text
  | .number _ => none

/-- The token as diagnostics show it. -/
def shown (t : Token) : String :=
  match t.value with
  | .text text => text
  | .number number => number.shown

/-- Whether the token is the punctuator with the given text. -/
def isPunctuator (t : Token) (text : String) : Bool :=
  t.kind = .punctuator && t.text? = some text

/-- Whether the token is the keyword with the given text. -/
def isKeyword (t : Token) (text : String) : Bool :=
  t.kind = .keyword && t.text? = some text

/-- Whether the token is the identifier with the given name. -/
def isIdentifier (t : Token) (name : String) : Bool :=
  t.kind = .identifier && t.text? = some name

/-- Whether the token marks the end of the text. -/
def isEnd (t : Token) : Bool := t.kind = .endOfInput

/-- Whether the token is a reserved word that is not spelled out plainly:
it takes another number of bytes in the source text than the word. -/
def isEscapedReserved (t : Token) : Bool :=
  t.kind.isReserved && t.shown.utf8ByteSize ≠ t.raw.utf8ByteSize

end Token

end ScriptTree
