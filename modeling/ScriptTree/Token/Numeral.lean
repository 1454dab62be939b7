/-
Numerals: whole numbers in radix two, eight and sixteen, and decimal
numbers with an optional fraction and an optional exponent. No name may
follow a numeral without something in between.

# One text, read twice

A decimal numeral is first passed over, part by part. The number is then
made of its text as a whole, for which there is a reader of its own.
-/
import ScriptTree.Number.DecimalText
import ScriptTree.Token.Scan

namespace ScriptTree

/-- The radix that the letter after a leading zero announces. -/
def radixOf? (mark : Char) : Option Nat :=
  if mark = 'x' || mark = 'X' then some 16
  else if mark = 'o' || mark = 'O' then some 8
  else if mark = 'b' || mark = 'B' then some 2
  else none

/-- Whether a character spoils the numeral in front of it: the start of a
name does, and so does a digit that is none of the radix. -/
def spoilsRadix [NameProperties] (radix : Nat) (ch : Char) : Bool :=
  if radix = 16 then isNameStart ch
  else isNameStart ch || isDecimalDigit ch

variable [NameProperties] [Arithmetic]

/-- A numeral in the given radix. It needs a digit, and neither a name
nor a digit of another radix may follow it. -/
def radixNumeral (radix : Nat) : Scan Token := fun start =>
  let first := start.move 2
  let stop := first.skipRun (isDigitOf radix) fun _ => 1
  let digits := first.textTo stop
  if digits.isEmpty || stop.peek.any (spoilsRadix radix) then
    Scan.fail .illegalToken stop
  else
    let value := Binary64.ofRadixDigits radix (digits.map digitValue)
    .ok (start.tokenTo stop .numeric (.number value)) stop

/-- Past decimal digits. -/
def skipDigits (c : Cursor) : Cursor := c.skipRun isDecimalDigit fun _ => 1

/-- Past the whole part, the first digit of which stands here, unless the
numeral starts with a point. -/
def pastWhole (c : Cursor) : Cursor :=
  if c.peek = some '.' then c else skipDigits (c.move 1)

/-- Past an optional fraction. A point without digits after it is a
fraction as well. -/
def pastFraction (c : Cursor) : Cursor :=
  if c.peek = some '.' then skipDigits (c.move 1) else c

/-- Past a sign, if there is one. -/
def pastSign (c : Cursor) : Cursor :=
  if c.peek = some '+' || c.peek = some '-' then c.move 1 else c

/-- Past an optional exponent. Once its letter is there, it needs a
digit. -/
def skipExponent : Scan Unit := fun c =>
  if c.peek = some 'e' || c.peek = some 'E' then
    let first := pastSign (c.move 1)
    if first.peek.any isDecimalDigit then .ok () (skipDigits first)
    else Scan.fail .illegalToken first
  else .ok () c

/-- A decimal numeral. -/
def decimalNumeral : Scan Token := fun start =>
  match skipExponent (pastFraction (pastWhole start)) with
  | .error d stop => .error d stop
  | .ok () stop =>
    if stop.peek.any isNameStart then Scan.fail .illegalToken stop
    else match Binary64.ofDecimalText? (start.textTo stop) with
      | some value =>
        .ok (start.tokenTo stop .numeric (.number value)) stop
      | none => Scan.fail .illegalToken stop

/-- The numeral that starts here. -/
def numeralToken : Scan Token := fun start =>
  if start.peek = some '0' then
    match (start.move 1).peek.bind radixOf? with
    | some radix => radixNumeral radix start
    | none => decimalNumeral start
  else decimalNumeral start

end ScriptTree
