/-
How a string is written, apart from how it is read.

# Pieces

Between the quotes of a string there is one piece after the other: a
character that stands for itself, an escape, or a line break behind a
backslash (`StringPiece`). A character may be written in several ways
(`Writes`), and a text in very many (`Spells`).

# Units

An escape by four digits is a unit of UTF-16, of which some characters
take two. Units are decoded one by one, apart from the two halves of a
pair next to each other. A half without the other stands for the
replacement character (`decodeUnits`).
-/
import ScriptTree.Token.Escape

namespace ScriptTree

/-- A number with one more hexadecimal digit. -/
def addHexDigit (number : Nat) (digit : Char) : Nat :=
  number * 16 + digitValue digit

/-- The number that hexadecimal digits denote. -/
def hexNumber (digits : List Char) : Nat := digits.foldl addHexDigit 0

/-- Hexadecimal digits, as many as are asked for. -/
def areHexDigits (count : Nat) (digits : List Char) : Bool :=
  digits.length = count && digits.all isHexDigit

/-- The code of a character, in hexadecimal digits of either case with any
number of zeros in front. -/
def IsCodeOf (digits : List Char) (ch : Char) : Prop :=
  digits ≠ [] ∧ digits.all isHexDigit = true ∧
    hexNumber digits = ch.toNat

-- ========================================================= units

/-- The units of UTF-16 that a character takes. -/
def utf16Units (ch : Char) : List Nat :=
  if ch.toNat < 0x10000 then [ch.toNat]
  else
    let beyond := ch.toNat - 0x10000
    [0xD800 + beyond / 0x400, 0xDC00 + beyond % 0x400]

/-- The character that two units make together, if they do. -/
def pairedUnits? (high low : Nat) : Option Char :=
  if 0xD800 ≤ high && high < 0xDC00 && 0xDC00 ≤ low && low < 0xE000 then
    some (.ofNat (0x10000 + (high - 0xD800) * 0x400 + (low - 0xDC00)))
  else none

/-- The character of a unit that stands alone. -/
def loneUnit (unit : Nat) : Char :=
  if unit.isValidChar then .ofNat unit else '\uFFFD'

/-- The characters that units stand for, whatever units they are. -/
def decodeUnits : List Nat → List Char
  | [] => []
  | [unit] => [loneUnit unit]
  | high :: low :: units =>
    match pairedUnits? high low with
    | some ch => ch :: decodeUnits units
    | none => loneUnit high :: decodeUnits (low :: units)

/-- Units by their digits, each in an escape. -/
def escapedUnits (units : List (List Char)) : List Char :=
  units.flatMap fun digits => '\\' :: 'u' :: digits

-- ======================================================== pieces

/-- The line terminators of a text. A carriage return and the line feed
after it are one. -/
def lineEnds : List (List Char) :=
  [['\n'], ['\r'], ['\r', '\n'], ['\u2028'], ['\u2029']]

/-- The letters that stand for other characters after a backslash. -/
def namedEscapes : List (Char × Char) :=
  [('n', '\n'), ('r', '\r'), ('t', '\t'), ('b', '\x08'), ('f', '\x0C'),
    ('v', '\x0B')]

/-- A piece of a string. -/
inductive StringPiece where
  /-- A character that stands for itself. -/
  | plain (ch : Char)
  /-- A character after a backslash. -/
  | letter (ch : Char)
  /-- An escape by two digits. -/
  | byte (digits : List Char)
  /-- An escape by four digits. -/
  | unit (digits : List Char)
  /-- An escape by digits in braces. -/
  | braced (digits : List Char)
  /-- A line that goes on behind a backslash. -/
  | lineBreak (terminator : List Char)
  deriving DecidableEq, Repr

namespace StringPiece

/-- The piece as it is written. -/
def text : StringPiece → List Char
  | plain ch => [ch]
  | letter ch => ['\\', ch]
  | byte digits => '\\' :: 'x' :: digits
  | unit digits => '\\' :: 'u' :: digits
  | braced digits => '\\' :: 'u' :: '\x7b' :: (digits ++ ['\x7d'])
  | lineBreak terminator => '\\' :: terminator

/-- Whether there may be such a piece in a string with the given quotes.
Digits in braces may be any number, but have to be the code of a
character. -/
def fits (quote : Char) : StringPiece → Bool
  | plain ch => ch ≠ quote && ch ≠ '\\' && !isLineTerminator ch
  | letter ch => ch ≠ 'u' && ch ≠ 'x' && !isLineTerminator ch
  | byte digits => areHexDigits 2 digits
  | unit digits => areHexDigits 4 digits
  | braced digits =>
    digits ≠ [] && digits.all isHexDigit && (hexNumber digits).isValidChar
  | lineBreak terminator => lineEnds.contains terminator

/-- The characters that the piece stands for by itself. -/
def chars : StringPiece → List Char
  | plain ch => [ch]
  | letter ch => [(namedEscapes.lookup ch).getD ch]
  | byte digits => [.ofNat (hexNumber digits)]
  | unit digits => [loneUnit (hexNumber digits)]
  | braced digits => [.ofNat (hexNumber digits)]
  | lineBreak _ => []

/-- Whether the line goes on behind the piece. -/
def isLineBreak : StringPiece → Bool
  | lineBreak _ => true
  | _ => false

/-- The text of pieces one after the other. -/
def written (pieces : List StringPiece) : List Char :=
  pieces.flatMap text

/-- The lines that pieces go on to. -/
def lines (pieces : List StringPiece) : Nat := pieces.countP isLineBreak

/-- The characters that pieces stand for. Units next to each other are
decoded together. -/
def decoded : List StringPiece → List Char
  | [] => []
  | unit high :: unit low :: pieces =>
    match pairedUnits? (hexNumber high) (hexNumber low) with
    | some ch => ch :: decoded pieces
    | none => loneUnit (hexNumber high) :: decoded (unit low :: pieces)
  | piece :: pieces => piece.chars ++ decoded pieces

end StringPiece

-- ===================================================== spellings

/-- The ways to write a character in a string with the given quotes. -/
inductive Writes (quote ch : Char) : List StringPiece → Prop where
  /-- As itself. -/
  | itself : ch ≠ quote → ch ≠ '\\' → isLineTerminator ch = false →
      Writes quote ch [.plain ch]
  /-- By its code, with any number of zeros in front. -/
  | braced {digits : List Char} : digits ≠ [] →
      digits.all isHexDigit = true → hexNumber digits = ch.toNat →
      Writes quote ch [.braced digits]
  /-- By its units of UTF-16. -/
  | units {units : List (List Char)} :
      (∀ digits ∈ units, areHexDigits 4 digits = true) →
      units.map hexNumber = utf16Units ch →
      Writes quote ch (units.map .unit)
  /-- By its code, if two digits are enough for it. -/
  | byte {digits : List Char} : areHexDigits 2 digits = true →
      hexNumber digits = ch.toNat → Writes quote ch [.byte digits]
  /-- By a letter that stands for it. -/
  | named {letter : Char} : (letter, ch) ∈ namedEscapes →
      Writes quote ch [.letter letter]
  /-- As itself after a backslash. -/
  | escaped : isLineTerminator ch = false →
      ch ∉ ['u', 'x', 'n', 'r', 't', 'b', 'f', 'v'] →
      Writes quote ch [.letter ch]

/-- Pieces that write some characters in their order, with lines that go
on anywhere between them. -/
inductive Spells (quote : Char) : List Char → List StringPiece → Prop where
  | nil : Spells quote [] []
  | lineBreak {terminator chars : List Char} {pieces : List StringPiece} :
      terminator ∈ lineEnds → Spells quote chars pieces →
      Spells quote chars (.lineBreak terminator :: pieces)
  | char {ch : Char} {chars : List Char} {first pieces : List StringPiece} :
      Writes quote ch first → Spells quote chars pieces →
      Spells quote (ch :: chars) (first ++ pieces)

-- ==================================================== unclosed text

open StringPiece (written)

variable (quote : Char) (text : List Char)

/-- Whether a text starts with the rest of a string, up to the quote that
closes it. -/
def ClosesString : Prop :=
  ∃ pieces rest, (∀ piece ∈ pieces, piece.fits quote = true) ∧
    text = written pieces ++ quote :: rest

/-- Whether a text starts with an escape by number that is none. -/
def StartsBrokenEscape : Prop :=
  (['\\', 'x'] <+: text ∨ ['\\', 'u'] <+: text) ∧
    ∀ piece : StringPiece, piece.fits quote = true → ¬piece.text <+: text

/-- Whether there is an escape by number that is none in a text, before
any quote or line terminator ends the string. -/
def BreaksEscape : Prop :=
  ∃ pieces rest, (∀ piece ∈ pieces, piece.fits quote = true) ∧
    text = written pieces ++ rest ∧ StartsBrokenEscape quote rest

end ScriptTree
