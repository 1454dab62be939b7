/-
What a report on a source text shows.
-/
import ScriptTree.Source.Position

namespace ScriptTree

/-- The options of a report. All are off unless they are asked for. -/
structure Options where
  /-- Show the bytes that each node covers. -/
  range : Bool := false
  /-- Show the lines and columns that each node covers. -/
  loc : Bool := false
  /-- The name of the text, shown with lines and columns. -/
  source : Option String := none
  /-- Show the tokens of a script. -/
  tokens : Bool := false
  /-- Show comments. -/
  comment : Bool := false
  /-- Record what can be tolerated instead of refusing the text. -/
  tolerant : Bool := false
  deriving DecidableEq, Repr

/-- The options with tolerance and nothing else. -/
def Options.tolerating : Options := { tolerant := true }

/-- A line and a column. -/
structure LineColumn where
  line : Nat
  column : Nat
  deriving DecidableEq, Repr

/-- The line and the column of a position. -/
def Position.lineColumn [Arithmetic] (p : Position) : LineColumn :=
  ⟨p.line, p.column⟩

/-- A stretch of text in lines and columns, with the name of the text if
it has one. -/
structure LineRange where
  start : LineColumn
  stop : LineColumn
  source : Option String
  deriving DecidableEq, Repr

/-- As much of a span as a report shows. -/
structure Location where
  range : Option (Nat × Nat)
  lines : Option LineRange
  deriving DecidableEq, Repr

/-- As much of a span as the options ask for. -/
def Options.locate [Arithmetic] (options : Options) (span : Span) :
    Location where
  range :=
    if options.range then some (span.start.offset, span.stop.offset)
    else none
  lines :=
    if options.loc then
      some ⟨span.start.lineColumn, span.stop.lineColumn, options.source⟩
    else none

end ScriptTree
