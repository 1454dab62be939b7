/-
Names and words. Any character of one may be written as an escape, and
the name is the same as when it is written plainly.

# Two ways to read a name

A name is first taken to be written plainly, and then is what stands
between its ends. With the first backslash in it that is given up, and the
name is read once more, character by character.
-/
import ScriptTree.Token.Escape

namespace ScriptTree

/-- The words that have a meaning of their own. -/
def keywords : List String :=
  ["if", "do", "def", "end", "for", "let", "else", "while", "break",
    "const", "return", "default", "finally", "extends", "function",
    "continue", "debugger", "instanceof"]

/-- Whether a word is a keyword. -/
def isKeyword (word : String) : Bool := keywords.contains word

/-- The kind of token that a word is. A single character is a name. -/
def wordKind (word : String) : TokenKind :=
  if word.toList.length = 1 then .identifier
  else if isKeyword word then .keyword
  else if word = "null" then .null
  else if word = "true" || word = "false" then .boolean
  else .identifier

/-- Whether a name may have the character at its first or at a later
place. -/
def fitsName [NameProperties] (isFirst : Bool) (ch : Char) : Bool :=
  if isFirst then isNameStart ch else isNamePart ch

variable [NameProperties] [Arithmetic]

/-- An escape by four digits. -/
def fourDigitEscape : Scan Char := fun c =>
  match hexDigits 4 0 c with
  | (some code, stop) =>
    match scalar? code with
    | some ch => .ok ch stop
    | none => Scan.fail .illegalToken stop
  | (none, stop) => Scan.fail .illegalToken stop

/-- The escape after a backslash within a name. -/
def nameEscape : Scan Char := do
  if (← Scan.peek) ≠ some 'u' then Scan.fail .illegalToken
  else
    Scan.move 1
    if (← Scan.peek) = some '{' then
      Scan.move 1
      bracedEscape
    else fourDigitEscape

/-- The characters of a name from here on, `steps` at most. An escape
must stand for a character that fits, and not for a backslash. -/
def nameChars : Nat → Bool → Scan (List Char)
  | 0, _ => pure []
  | steps + 1, isFirst => do
    match ← Scan.peek with
    | none => return []
    | some ch =>
      if ch = '\\' then
        Scan.move 1
        let ch ← nameEscape
        if ch ≠ '\\' && fitsName isFirst ch then
          return ch :: (← nameChars steps false)
        else Scan.fail .illegalToken
      else if fitsName isFirst ch then
        Scan.move ch.utf8Size
        return ch :: (← nameChars steps false)
      else return []

/-- The end of a name that is written plainly. There is none if a
backslash comes first. -/
def plainNameEnd? : Nat → Cursor → Option Cursor
  | 0, c => some c
  | steps + 1, c =>
    match c.peek with
    | none => some c
    | some ch =>
      if ch = '\\' then none
      else if isNamePart ch then plainNameEnd? steps (c.move ch.utf8Size)
      else some c

/-- The characters of the name that starts here. -/
def name : Scan (List Char) := fun start =>
  let size := start.rest.length
  if start.peek = some '\\' then nameChars size true start
  else match plainNameEnd? size start with
    | some stop => .ok (start.textTo stop) stop
    | none => nameChars size true start

/-- The name or word that starts here. -/
def nameToken : Scan Token := fun start =>
  match name start with
  | .ok chars stop =>
    let word := String.ofList chars
    .ok (start.tokenTo stop (wordKind word) (.text word)) stop
  | .error d stop => .error d stop

end ScriptTree
