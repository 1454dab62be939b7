/-
Places in a source text. Offsets and columns count bytes of UTF-8, lines
count from one, and a text without any character has only line zero.

# Why a position keeps its line start

A position holds the offset at which its line starts instead of a
column. The column is then a difference that is read off when a report
needs it, and moving along a line changes one number only.
-/
import ScriptTree.Source.Arithmetic

namespace ScriptTree

/-- A place in the source text. -/
structure Position where
  /-- Bytes before this place. -/
  offset : Nat
  /-- The line: the first is one, and an empty text has line zero. -/
  line : Nat
  /-- The offset at which that line starts. -/
  lineStart : Nat
  deriving DecidableEq, Repr, Inhabited

namespace Position

/-- Bytes between the start of the line and this place. -/
def column [Arithmetic] (p : Position) : Nat :=
  Arithmetic.minus p.offset p.lineStart

theorem column_eq (p : Position) : p.column = p.offset - p.lineStart := rfl

/-- The place `width` bytes further along the same line. -/
def advance (p : Position) (width : Nat) : Position :=
  { p with offset := p.offset + width }

/-- The same place, taken as the start of the next line. -/
def startLine (p : Position) : Position :=
  { p with line := p.line + 1, lineStart := p.offset }

end Position

/-- A stretch of source text, from `start` up to but without `stop`. -/
structure Span where
  start : Position
  stop : Position
  deriving DecidableEq, Repr, Inhabited

-- ============================================= bytes of a text

/-- The bytes that a text takes in UTF-8. -/
def byteLength (text : List Char) : Nat :=
  text.foldr (fun ch length => ch.utf8Size + length) 0

/-- The characters at the front of a text that lie wholly within its
first `budget` bytes. -/
def takeBytes : Nat → List Char → List Char
  | _, [] => []
  | budget, ch :: rest =>
    if ch.utf8Size ≤ budget then
      ch :: takeBytes (budget - ch.utf8Size) rest
    else []

end ScriptTree
