/-
Strings in single or double quotes. A string stands on one line, except
that a backslash at the end of a line continues it on the next.
-/
import ScriptTree.Token.Escape

namespace ScriptTree

/-- The mark for a character that cannot be given. -/
def replacementChar : Char := '\uFFFD'

/-- The character that two surrogates stand for together. -/
def combineSurrogates (high low : Nat) : Char :=
  .ofNat (0x10000 + (high - 0xD800) * 0x400 + (low - 0xDC00))

variable [Arithmetic]

/-- The code that two surrogates stand for together. -/
def pairedCode (high low : Nat) : Nat :=
  let above := Arithmetic.word (Arithmetic.minus high 0xD800 * 0x400)
  Arithmetic.word
    (Arithmetic.word (0x10000 + above) + Arithmetic.minus low 0xDC00)

/-- The character of a surrogate that was read by its number, at the
cursor after it. A high one takes a low one with it that follows at once
as an escape of its own; any other surrogate stands alone and is
replaced. -/
def surrogate (code : Nat) (c : Cursor) : Char × Cursor :=
  let alone := (replacementChar, c)
  if 0xD800 ≤ code && code < 0xDC00 && ['\\', 'u'].isPrefixOf c.rest then
    match hexDigits 4 0 (c.move 2) with
    | (some low, stop) =>
      if 0xDC00 ≤ low && low < 0xE000 then
        ((scalar? (pairedCode code low)).getD replacementChar, stop)
      else alone
    | (none, _) => alone
  else alone

/-- An escape by four digits, which may be those of a surrogate. -/
def unitEscape : Scan Char := fun c =>
  match hexDigits 4 0 c with
  | (some code, stop) =>
    match scalar? code with
    | some ch => .ok ch stop
    | none =>
      let (ch, stop) := surrogate code stop
      .ok ch stop
  | (none, stop) => Scan.fail .illegalToken stop

/-- The rest of an escape by number, after its letter. -/
def numberEscape : Scan Char := do
  if (← Scan.peek) = some '{' then
    Scan.move 1
    bracedEscape
  else unitEscape

/-- The rest of an escape by two digits, after its letter. -/
def byteEscape : Scan Char := fun c =>
  let (code, stop) := hexDigits 2 0 c
  match code.bind scalar? with
  | some ch => .ok ch stop
  | none => Scan.fail .invalidHexEscape stop

/-- The character that a letter stands for after a backslash: some stand
for a control character, and all others for themselves. -/
def letterEscape (ch : Char) : Char :=
  match ch with
  | 'n' => '\n'
  | 'r' => '\r'
  | 't' => '\t'
  | 'b' => '\x08'
  | 'f' => '\x0C'
  | 'v' => '\x0B'
  | other => other

/-- What a backslash in a string comes to. -/
inductive Escaped where
  /-- The text ends after the backslash. -/
  | endOfText
  /-- The string goes on in the next line. -/
  | lineBreak
  | char (ch : Char)
  deriving DecidableEq, Repr

/-- What follows a backslash. -/
def escaped : Scan Escaped := fun c =>
  match c.peek with
  | none => .ok .endOfText c
  | some ch =>
    let next := c.move ch.utf8Size
    if isLineTerminator ch then .ok .lineBreak (c.pastLineEnd ch)
    else if ch = 'u' then (.char <$> numberEscape) next
    else if ch = 'x' then (.char <$> byteEscape) next
    else .ok (.char (letterEscape ch)) next

/-- The characters of a string up to its closing quote, which is read
too; nothing where the text or the line ends before. At most `steps`
steps are taken, each of which reads a character. -/
def quotedChars (quote : Char) : Nat → Scan (Option (List Char))
  | 0 => pure none
  | steps + 1 => do
    match ← Scan.peek with
    | none => return none
    | some ch =>
      Scan.move ch.utf8Size
      if ch = quote then return some []
      else if isLineTerminator ch then return none
      else if ch = '\\' then
        match ← escaped with
        | .endOfText => return none
        | .lineBreak => quotedChars quote steps
        | .char ch =>
          return (← quotedChars quote steps).map (ch :: ·)
      else return (← quotedChars quote steps).map (ch :: ·)

/-- The string whose opening quote stands here. One that is not closed
fails at that quote, with nothing read. -/
def quotedToken (quote : Char) : Scan Token := fun start =>
  match quotedChars quote start.rest.length (start.move 1) with
  | .ok (some chars) stop =>
    .ok (start.tokenTo stop .string (.text (.ofList chars))) stop
  | .ok none _ => Scan.fail .illegalToken start
  | .error d stop => .error d stop

end ScriptTree
