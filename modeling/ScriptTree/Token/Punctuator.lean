/-
Punctuators. Of several that fit, the longest is meant.
-/
import ScriptTree.Token.Scan

namespace ScriptTree

/-- Punctuators that may be part of a longer one, the longer ones first. -/
def operators : List String :=
  [">>>=",
    ">>>", "<<=", ">>=", "**=",
    "&&", "||", "==", "!=", "+=", "-=", "*=", "/=", "++", "--", "<<",
    ">>", "&=", "|=", "^=", "%=", "<=", ">=", "=>", "**",
    "<", ">", "=", "!", "+", "-", "*", "%", "&", "|", "^", "/"]

/-- Punctuators of one character that no other one starts with, the braces
apart. -/
def singleMarks : List Char :=
  ['(', ')', '.', ';', ',', '[', ']', ':', '?', '~']

/-- All punctuators, the longer ones first. -/
def punctuators : List String :=
  operators ++ ["\x7b", "\x7d"] ++ singleMarks.map String.singleton

/-- The longest punctuator at the front of a text. -/
def punctuator? (text : List Char) : Option String :=
  punctuators.find? fun mark => mark.toList.isPrefixOf text

/-- The open braces after a punctuator. -/
def depthAfter (mark : String) (depth : Nat) : Nat :=
  if mark = "\x7b" then depth + 1
  else if mark = "\x7d" then depth - 1
  else depth

variable [Arithmetic]

/-- The punctuator that starts with `ch`, which stands here, and the
cursor after it. -/
def markAt (ch : Char) (start : Cursor) : Option (String × Cursor) :=
  if ch = '{' then
    let opened := { start with braceDepth := start.braceDepth + 1 }
    some ("\x7b", opened.move 1)
  else if ch = '}' then
    let closed := { start with braceDepth := start.braceDepth - 1 }
    some ("\x7d", closed.move 1)
  else if singleMarks.contains ch then
    let stop := start.move 1
    some (.ofList (start.textTo stop), stop)
  else
    let text := start.rest
    let found := operators.find? fun mark => mark.toList.isPrefixOf text
    found.map fun mark => (mark, start.move mark.utf8ByteSize)

/-- The punctuator that starts here. -/
def punctuatorToken : Scan Token := fun start =>
  match start.peek.bind (markAt · start) with
  | some (mark, stop) =>
    .ok (start.tokenTo stop .punctuator (.text mark)) stop
  | none => Scan.fail .illegalToken start

end ScriptTree
