/-
Escapes that stand for a character by its number: four hexadecimal
digits, or any number of them in braces.
-/
import ScriptTree.Token.Scan

namespace ScriptTree

/-- The character with the given code, unless the code is that of a
surrogate or out of range. -/
def scalar? (code : Nat) : Option Char :=
  if code.isValidChar then some (.ofNat code) else none

/-- A hexadecimal digit of either case. -/
def isHexDigit (ch : Char) : Bool := isDigitOf 16 ch

/-- The largest 32-bit number in place of all larger ones. -/
def saturate (code : Nat) : Nat := min code 0xFFFFFFFF

/-- One more digit of a code. The code stays at the largest 32-bit number
once it gets there: all numbers near that bound are out of range anyway. -/
def appendHexDigit (code : Nat) (ch : Char) : Nat :=
  saturate (saturate (code * 16) + digitValue ch)

variable [Arithmetic]

/-- Reads `count` hexadecimal digits that continue the number `code`.
Where one is missing the cursor stays after those that are there. -/
def hexDigits : Nat → Nat → Cursor → Option Nat × Cursor
  | 0, code, c => (some code, c)
  | count + 1, code, c =>
    match c.peek.bind hexValue? with
    | some digit =>
      hexDigits count
        (Arithmetic.word (Arithmetic.word (code * 16) + digit)) (c.move 1)
    | none => (none, c)

/-- Reads digits that continue the number `code`, and the first character
that is none. Tells the number, and whether that character is the closing
brace. -/
def bracedDigits : Nat → Nat → Cursor → Nat × Bool × Cursor
  | 0, code, c => (code, false, c)
  | steps + 1, code, c =>
    match c.peek with
    | none => (code, false, c)
    | some ch =>
      let next := c.move ch.utf8Size
      if isHexDigit ch then bracedDigits steps (appendHexDigit code ch) next
      else (code, ch = '}', next)

/-- The rest of an escape in braces, from its first digit on. The first
character that is no digit is read too, whether or not it is the closing
brace. -/
def bracedEscape : Scan Char := fun c =>
  if c.peek = some '}' then Scan.fail .illegalToken c
  else
    let (code, closed, stop) := bracedDigits c.rest.length 0 c
    match scalar? code with
    | some ch =>
      if closed && code ≤ 0x10FFFF then .ok ch stop
      else Scan.fail .illegalToken stop
    | none => Scan.fail .illegalToken stop

end ScriptTree
