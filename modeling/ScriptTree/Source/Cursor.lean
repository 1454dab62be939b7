/-
A cursor into a source text: the text, where in it reading has come to,
and how many braces are open. Cursors are plain values. Keeping one is how
a reader returns to an earlier place.

# By bytes

A cursor holds an offset in bytes, and moves by adding to it. What it
sees is cut out of the text from that offset on, and is nothing where no
character starts. A move is by the width of the character that is seen,
or by so many bytes as the caller knows it to be.
-/
import ScriptTree.Source.Character
import ScriptTree.Source.Position

namespace ScriptTree

/-- A place in a text from which reading goes on. -/
structure Cursor where
  /-- The whole text. -/
  source : List Char
  /-- Where the text not yet read starts. -/
  position : Position
  /-- Open braces so far, never below zero. -/
  braceDepth : Nat
  deriving DecidableEq, Repr

namespace Cursor

/-- The cursor at the start of a text. -/
def ofText (text : List Char) : Cursor where
  source := text
  position := ⟨0, if text.isEmpty then 0 else 1, 0⟩
  braceDepth := 0

/-- Whether all text is read. -/
def atEnd (c : Cursor) : Bool := byteLength c.source ≤ c.position.offset

/-- So many bytes further on, in the same line. -/
def move (c : Cursor) (bytes : Nat) : Cursor :=
  { c with position := c.position.advance bytes }

variable [Arithmetic]

/-- The text not yet read. -/
def rest (c : Cursor) : List Char :=
  Arithmetic.textFrom c.position.offset c.source

/-- The next character, if there is one. -/
def peek (c : Cursor) : Option Char := c.rest.head?

/-- The character after the next one. -/
def peekNext (c : Cursor) : Option Char := c.rest.tail.head?

/-- The text from `c` up to the later cursor `d`. -/
def textTo (c d : Cursor) : List Char :=
  Arithmetic.textWithin c.position.offset d.position.offset c.source

/-- Past a run of characters that satisfy `p`, each of which is taken to
be `width` bytes wide, and not past more than `steps` of them. -/
def skipRunWithin (p : Char → Bool) (width : Char → Nat) :
    Nat → Cursor → Cursor
  | 0, c => c
  | steps + 1, c =>
    match c.peek with
    | some ch =>
      if p ch then skipRunWithin p width steps (c.move (width ch)) else c
    | none => c

/-- Past the longest run of characters that satisfy `p`. -/
def skipRun (p : Char → Bool) (width : Char → Nat) (c : Cursor) : Cursor :=
  skipRunWithin p width c.rest.length c

/-- Past the line terminator `ch`, at the start of the next line. A
carriage return and the line feed after it are one. -/
def pastLineEnd (c : Cursor) (ch : Char) : Cursor :=
  let next := c.move ch.utf8Size
  let next :=
    if ch = '\r' && next.peek = some '\n' then next.move 1 else next
  { next with position := next.position.startLine }

/-- The start of the next line, when the cursor stands at a line
terminator. -/
def lineBreak? (c : Cursor) : Option Cursor :=
  match c.peek with
  | some ch => if isLineTerminator ch then some (c.pastLineEnd ch) else none
  | none => none

end Cursor

end ScriptTree
