/-
What a token list says of a text apart from places and trivia: what is
written of each entry, and after which of them the line is ended.
-/
import ScriptTree.Source.Line
import ScriptTree.TokenList

namespace ScriptTree

/-- What is written of an entry: its kind, if it is a token, and its
text. -/
def TokenEntry.written : TokenEntry → Option TokenKind × String
  | .token t => (some t.kind, t.raw)
  | .comment c => (none, c.text)

/-- For each of a series of spans, whether there is a line terminator
between it and the next one; for the last, between it and the end of the
text. -/
def breaksAfter (text : List Char) : List Span → List Bool
  | [] => []
  | [a] =>
    [breaksLine (textBetween text a.stop.offset (byteLength text))]
  | a :: b :: later =>
    breaksLine (textBetween text a.stop.offset b.start.offset)
      :: breaksAfter text (b :: later)

end ScriptTree
