/-
Whole scripts: what a text is parsed to, and what is reported on the way.
-/
import ScriptTree.Parser.Statement

namespace ScriptTree

/-- The productions one level further out. -/
def ParserProductions.next [NameProperties] [Arithmetic]
    (inner : ParserProductions) :
    ParserProductions where
  depth := inner.depth + 1
  assignment := Parser.assignment inner
  unary := Parser.unary inner
  power := Parser.power inner
  statement := Parser.statement inner
  item := Parser.item inner

/-- The productions with the given number of levels. -/
def ParserProductions.ofDepth [NameProperties] [Arithmetic] :
    Nat → ParserProductions
  | 0 => .none
  | depth + 1 => (ofDepth depth).next

variable [NameProperties] [Arithmetic]

/-- A script: statements and declarations up to the end of the text. -/
def Parser.script (productions : ParserProductions) :
    Parser (Script Location) := do
  skip
  standHere
  let node ← start
  let more : Parser Bool := do return !(← lookahead).isEnd
  let body ← collectWhile more productions.item productions.depth
  return ⟨body, ← finish .script node⟩

/-- The report on a script, from the state in which its parser ended. -/
def ParserState.report (p : ParserState) (script : Script Location) :
    Report where
  script
  comments := optionally p.options.comment p.comments.toList
  tokens := optionally p.options.tokens p.tokens.toList
  errors := optionally p.options.tolerant p.reader.log.recorded

/-- Runs a parser over a text. There is one level of productions for each
character and one more, since a level takes a token and a token a
character. -/
def runParser (options : Options) (text : List Char) :
    EStateM.Result Failure ParserState (Script Location) :=
  Parser.script (.ofDepth (text.length + 1)) (.ofText options text)

/-- Parses a text, and reports on it. -/
def parse (options : Options) (text : List Char) : Except Failure Report :=
  match runParser options text with
  | .ok script p => .ok (p.report script)
  | .error failure _ => .error failure

/-- A text whose report shows something has a report. -/
theorem exists_report {options : Options} {text : List Char} {α : Type}
    {f : Report → α} {a : α}
    (h : (parse options text).toOption.map f = some a) :
    ∃ report, parse options text = .ok report ∧ f report = a :=
  exists_ok h

/-- What is reported while a text is parsed: nodes, each after those within
it, and comments where they are asked for. -/
def parseEvents (options : Options) (text : List Char) : List Event :=
  match runParser options text with
  | .ok _ p | .error _ p => p.events.toList

end ScriptTree
