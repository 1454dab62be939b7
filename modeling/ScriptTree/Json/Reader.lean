/-
Reading JSON text. A reader takes what it asks for from the front of the
text, and blanks in front of that.

# Three ways to fail

A text may end too early, it may not be JSON, and it may be JSON of
another shape than what is asked for. The last is said as soon as it
shows: of a list or an object the opening bracket is enough, while any
other value is read first, and has to be JSON.

# Values that are passed over

A value that nobody asks for is passed over with less care than one that
is read. Its strings may hold codes that stand for no character, its
numbers may be of any size, and a number that breaks off is no JSON even
at the end of the text.
-/
import ScriptTree.Number.Binary64
import ScriptTree.Source.Character
import ScriptTree.Source.Position

namespace ScriptTree

/-- Why a JSON text is not taken. -/
inductive JsonFault where
  /-- The text ends where it should go on. -/
  | ended
  /-- The text is not JSON. -/
  | malformed
  /-- The text holds something else than what is asked for. -/
  | misshapen
  deriving DecidableEq, Repr

/-- A reader of a piece of JSON text. -/
abbrev JsonReader := EStateM JsonFault (List Char)

namespace JsonReader

/-- Fails. -/
def fail {α : Type} (fault : JsonFault) : JsonReader α :=
  fun rest => .error fault rest

/-- The next character, if there is one, which stays unread. -/
def peek : JsonReader (Option Char) := fun rest => .ok rest.head? rest

/-- Past the next character. -/
def advance : JsonReader Unit := fun rest => .ok () rest.tail

/-- The next character. There has to be one. -/
def next : JsonReader Char
  | [] => .error .ended []
  | ch :: rest => .ok ch rest

/-- The characters that may stand around values. -/
def isBlank (ch : Char) : Bool :=
  ch = ' ' || ch = '\t' || ch = '\n' || ch = '\r'

/-- The next character that is not blank, which stays unread. There has
to be one. -/
def ahead : JsonReader Char := fun rest =>
  match rest.dropWhile isBlank with
  | [] => .error .ended []
  | ch :: rest => .ok ch (ch :: rest)

/-- Reads the given characters. -/
def spell : List Char → JsonReader Unit
  | [] => pure ()
  | ch :: more => do
    if (← next) = ch then spell more else fail .malformed

-- ===================================================== strings

/-- Four hexadecimal digits. The text has to go on for four bytes before
any of them is looked at. -/
def hexCode : JsonReader Nat := fun rest =>
  let digits := rest.take 4
  if byteLength digits < 4 then .error .ended []
  else if digits.all (isDigitOf 16) then
    .ok (digits.foldl (· * 16 + digitValue ·) 0) (rest.drop 4)
  else .error .malformed rest

/-- The character with the code that comes next. One that is past the
first 65536 is written as two codes, of which the first is high and the
second low, and each has its own mark. -/
def codedCharacter : JsonReader Char := do
  let code ← hexCode
  if 0xDC00 ≤ code && code < 0xE000 then fail .malformed
  else if 0xD800 ≤ code && code < 0xDC00 then
    spell ['\\', 'u']
    let low ← hexCode
    if 0xDC00 ≤ low && low < 0xE000 then
      return .ofNat (0x10000 + (code - 0xD800) * 0x400 + (low - 0xDC00))
    else fail .malformed
  else return .ofNat code

/-- Passes over a code, which may be any. -/
def anyCode : JsonReader Char := do
  let _ ← hexCode
  return ' '

/-- The character that stands after a backslash. -/
def escaped (coded : JsonReader Char) : JsonReader Char := do
  match ← next with
  | '"' => return '"'
  | '\\' => return '\\'
  | '/' => return '/'
  | 'b' => return '\x08'
  | 'f' => return '\x0C'
  | 'n' => return '\n'
  | 'r' => return '\r'
  | 't' => return '\t'
  | 'u' => coded
  | _ => fail .malformed

/-- The characters up to the closing quote, `steps` at most. -/
def characters (coded : JsonReader Char) :
    Nat → JsonReader (List Char)
  | 0 => fail .ended
  | steps + 1 => do
    let ch ← next
    if ch = '"' then return []
    else if ch = '\\' then
      let ch ← escaped coded
      return ch :: (← characters coded steps)
    else if ch < ' ' then fail .malformed
    else return ch :: (← characters coded steps)

/-- A string, from its opening quote on. -/
def quoted (coded : JsonReader Char) : JsonReader String :=
  fun rest =>
    match characters coded rest.length rest.tail with
    | .ok chars rest => .ok (.ofList chars) rest
    | .error fault rest => .error fault rest

-- ===================================================== numbers

/-- Decimal digits. -/
def digits : JsonReader (List Nat) := fun rest =>
  .ok ((rest.takeWhile isDecimalDigit).map digitValue)
    (rest.dropWhile isDecimalDigit)

/-- One decimal digit or more. -/
def someDigits : JsonReader (List Nat) := do
  let first ← next
  if isDecimalDigit first then return digitValue first :: (← digits)
  else fail .malformed

/-- The digits before the point. A zero is followed by none. -/
def wholeDigits : JsonReader (List Nat) := do
  match ← someDigits with
  | 0 :: _ :: _ => fail .malformed
  | digits => return digits

/-- The point and the digits after it, if there is a point. -/
def fractionDigits : JsonReader (List Nat) := do
  if (← peek) = some '.' then
    advance
    someDigits
  else return []

/-- The exponent, which is zero if there is none. -/
def exponent : JsonReader Int := do
  if (← peek) = some 'e' || (← peek) = some 'E' then
    advance
    let sign ← peek
    if sign = some '+' || sign = some '-' then advance
    let size : Nat := (← someDigits).foldl (· * 10 + ·) 0
    return if sign = some '-' then -size else size
  else return 0

/-- Appends digits to a number as long as the result takes no more than
64 bits, and gives the result and the digits that are left. -/
def appendDigits : Nat → List Nat → Nat × List Nat
  | n, [] => (n, [])
  | n, d :: rest =>
    if n * 10 + d < Nat.pow 2 64 then appendDigits (n * 10 + d) rest
    else (n, d :: rest)

/-- Whether `n * 10 ^ exponent` is out of range, if both of its factors
are rounded before they are multiplied. Powers past `10 ^ 308` are out of
range themselves. -/
def isOutOfRange (n : Nat) (exponent : Int) : Bool :=
  if n = 0 || exponent < 0 then false
  else if 308 < exponent then true
  else
    Binary64.ofNat (roundTo53 n * roundTo53 (Nat.pow 10 exponent.toNat))
      = .infinity

/-- Passes over a number, if it is in range. Digits before the point that
do not fit into 64 bits count as zeros, and those after it are left
out. -/
def number : JsonReader Unit := do
  if (← peek) = some '-' then advance
  let whole ← wholeDigits
  let fraction ← fractionDigits
  let exponent ← exponent
  let (n, zeros) := appendDigits 0 whole
  let (n, omitted) := appendDigits n fraction
  let places := fraction.length - omitted.length
  if isOutOfRange n (exponent + zeros.length - places) then
    fail .malformed

/-- Passes over a number of any size. -/
def anyNumber : JsonReader Unit := do
  if (← peek) = some '-' then advance
  let _ ← wholeDigits
  let _ ← fractionDigits
  let _ ← exponent

/-- Does the same, but has the end of the text count as malformed. -/
def unlessEnded (reader : JsonReader Unit) : JsonReader Unit :=
  fun rest =>
    match reader rest with
    | .error .ended rest => .error .malformed rest
    | result => result

-- ====================================================== values

/-- Passes over a value without brackets, its codes and numbers by the
given readers. -/
def plainValue (coded : JsonReader Char) (number : JsonReader Unit) :
    JsonReader Unit := do
  let first ← ahead
  if first = 't' then spell ['t', 'r', 'u', 'e']
  else if first = 'f' then spell ['f', 'a', 'l', 's', 'e']
  else if first = 'n' then spell ['n', 'u', 'l', 'l']
  else if first = '"' then let _ ← quoted coded
  else if first = '-' || isDecimalDigit first then number
  else fail .malformed

/-- Refuses the next value for its shape. -/
def refuse {α : Type} : JsonReader α := do
  let first ← ahead
  unless first = '[' || first = '{' do
    plainValue codedCharacter number
  fail .misshapen

/-- A boolean. -/
def bool : JsonReader Bool := do
  let first ← ahead
  if first = 't' then
    spell ['t', 'r', 'u', 'e']
    return true
  else if first = 'f' then
    spell ['f', 'a', 'l', 's', 'e']
    return false
  else refuse

/-- A string, or nothing for `null`. -/
def string? : JsonReader (Option String) := do
  let first ← ahead
  if first = 'n' then
    spell ['n', 'u', 'l', 'l']
    return none
  else if first = '"' then return some (← quoted codedCharacter)
  else refuse

/-- The colon after the name of a member. -/
def colon : JsonReader Unit := do
  if (← ahead) = ':' then advance else fail .malformed

-- ============================================ passing over values

/-- What may enclose a value. -/
inductive Enclosure where
  | list
  | object
  deriving DecidableEq, Repr

/-- The bracket after the last value of an enclosure. -/
def Enclosure.closing : Enclosure → Char
  | .list => ']'
  | .object => '}'

/-- Passes over what stands in front of a value: its name in an
object. -/
def Enclosure.beforeValue : Enclosure → JsonReader Unit
  | .list => pure ()
  | .object => do
    if (← ahead) = '"' then
      let _ ← quoted anyCode
      colon
    else fail .malformed

/-- Passes over what stands between a value and the next one, and gives
the enclosures of that one, the innermost first. There is no next one
when all are closed. -/
def afterValue : List Enclosure → JsonReader (List Enclosure)
  | [] => return []
  | inner :: outer => do
    let ch ← ahead
    if ch = ',' then
      advance
      inner.beforeValue
      return inner :: outer
    else if ch = inner.closing then
      advance
      afterValue outer
    else fail .malformed

/-- Passes over an opening bracket, and over the closing one too if there
is nothing between them. -/
def enter (inner : Enclosure) (outer : List Enclosure) :
    JsonReader (List Enclosure) := do
  advance
  if (← ahead) = inner.closing then
    advance
    afterValue outer
  else
    inner.beforeValue
    return inner :: outer

/-- Passes over a value and all that follows it within its enclosures,
which is `steps` values at most. -/
def skipWithin : Nat → List Enclosure → JsonReader Unit
  | 0, _ => fail .ended
  | steps + 1, enclosures => do
    let first ← ahead
    let enclosures ←
      if first = '[' then enter .list enclosures
      else if first = '{' then enter .object enclosures
      else
        plainValue anyCode (unlessEnded anyNumber)
        afterValue enclosures
    unless enclosures.isEmpty do skipWithin steps enclosures

/-- Passes over a value. -/
def skipValue : JsonReader Unit := fun rest =>
  skipWithin (rest.length + 1) [] rest

end JsonReader

end ScriptTree
