/-
What stands between tokens: blanks, line terminators and comments. A
comment starts at two slashes and runs to the end of its line; there is
no other form.
-/
import ScriptTree.Source.Cursor

namespace ScriptTree

/-- A comment. -/
structure Comment where
  /-- The text after the two slashes, without the line terminator. -/
  text : String
  /-- From the first slash to the end of the text. -/
  span : Span
  deriving DecidableEq, Repr

namespace Cursor

variable [Arithmetic]

/-- The comment of whose mark so many bytes were just read, and the cursor
after it: on the next line, or at the end of the text. -/
def lineComment (c : Cursor) (mark : Nat) : Comment × Cursor :=
  let start : Position :=
    { c.position with offset := Arithmetic.minus c.position.offset mark }
  let stop := c.skipRun (fun ch => !isLineTerminator ch) Char.utf8Size
  let comment : Comment :=
    ⟨.ofList (c.textTo stop), ⟨start, stop.position⟩⟩
  match stop.peek with
  | some ch => (comment, stop.pastLineEnd ch)
  | none => (comment, stop)

/-- The comment that starts here, and the cursor after it. -/
def comment? (c : Cursor) : Option (Comment × Cursor) :=
  if c.peek = some '/' && c.peekNext = some '/' then
    some ((c.move 2).lineComment 2)
  else none

/-- Passes over what stands between tokens, in at most `steps` steps. -/
def skipTriviaWithin : Nat → Cursor → List Comment × Cursor
  | 0, c => ([], c)
  | steps + 1, c =>
    match c.peek with
    | none => ([], c)
    | some ch =>
      if isWhiteSpace ch then skipTriviaWithin steps (c.move ch.utf8Size)
      else match c.lineBreak? with
        | some next => skipTriviaWithin steps next
        | none =>
          match c.comment? with
          | some (comment, next) =>
            let (comments, stop) := skipTriviaWithin steps next
            (comment :: comments, stop)
          | none => ([], c)

/-- Passes over what stands before the next token, and gives the comments
among it. Each step reads a character, so the characters left bound the
steps. -/
def skipTrivia (c : Cursor) : List Comment × Cursor :=
  skipTriviaWithin c.rest.length c

end Cursor

end ScriptTree
