/-
The lines of a text, and the places in it that its lines alone determine.

# Counting lines in the text itself

A reader counts lines as it goes on. Here they are counted in the text:
`lineStarts` lists where lines start, and the place at an offset
(`positionAt`) follows from that list. A carriage return and the line
feed after it end one line.
-/
import ScriptTree.Source.Character
import ScriptTree.Source.Position

namespace ScriptTree

/-- The offsets after the line terminators of a text that starts at the
given offset. -/
def lineStartsFrom : Nat → List Char → List Nat
  | offset, '\r' :: '\n' :: rest =>
    (offset + 2) :: lineStartsFrom (offset + 2) rest
  | offset, ch :: rest =>
    let next := offset + ch.utf8Size
    if isLineTerminator ch then next :: lineStartsFrom next rest
    else lineStartsFrom next rest
  | _, [] => []

/-- The offsets at which the lines of a text start. A text without any
character has no line. -/
def lineStarts (text : List Char) : List Nat :=
  if text.isEmpty then [] else 0 :: lineStartsFrom 0 text

/-- The place at an offset: its line is the last that starts there or
before. -/
def positionAt (text : List Char) (offset : Nat) : Position :=
  let starts := (lineStarts text).filter (· ≤ offset)
  ⟨offset, starts.length, starts.getLastD 0⟩

/-- The place at an offset, if lines start at the given offsets alone. -/
def positionOn (starts : List Nat) (offset : Nat) : Position :=
  let before := starts.filter (· ≤ offset)
  ⟨offset, before.length, before.getLastD 0⟩

/-- Whether an offset is between two characters of a text, or at an end
of it. -/
def IsBoundary (text : List Char) (offset : Nat) : Prop :=
  ∃ before after, text = before ++ after ∧ byteLength before = offset

/-- The text between two offsets. -/
def textBetween (text : List Char) (start stop : Nat) : List Char :=
  takeBytes (stop - start) (text.drop (takeBytes start text).length)

/-- Whether a text has a line terminator in it. -/
def breaksLine (text : List Char) : Bool := text.any isLineTerminator

end ScriptTree
