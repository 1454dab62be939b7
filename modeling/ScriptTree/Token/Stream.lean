/-
The tokens of a whole text, up to its end or up to characters that form
no token. Where tokens begin and end does not depend on what they are
used for, so the stream can be had before anything is made of it, and
looking ahead is looking at the list.
-/
import ScriptTree.Source.Trivia
import ScriptTree.Token.Next

namespace ScriptTree

/-- The tokens of a text, each with the comments in front of it. -/
inductive TokenStream where
  | token (comments : List Comment) (token : Token) (rest : TokenStream)
  /-- The end of the text, as a token. -/
  | done (comments : List Comment) (token : Token)
  /-- Characters that form no token. -/
  | illegal (comments : List Comment) (diagnostic : Diagnostic)
  deriving DecidableEq, Repr

namespace TokenStream

/-- The tokens from a cursor on, `steps` at most. -/
def fromCursor [NameProperties] : Nat → Cursor → TokenStream
  | 0, c => .done [] c.endToken
  | steps + 1, c =>
    let (comments, start) := c.skipTrivia
    if start.rest.isEmpty then .done comments start.endToken
    else match Cursor.token start with
      | .ok t stop => .token comments t (fromCursor steps stop)
      | .error d _ => .illegal comments d

/-- The tokens of a text. Each takes a character, so the characters bound
their number. -/
def ofText [NameProperties] (text : List Char) : TokenStream :=
  fromCursor text.length (.ofText text)

/-- The comments in front of the next token, and that token with what
follows it. The end of the text is followed by itself. -/
def next : TokenStream →
    List Comment × Except Diagnostic (Token × TokenStream)
  | .token comments t rest => (comments, .ok (t, rest))
  | .done comments t => (comments, .ok (t, .done [] t))
  | .illegal comments d => (comments, .error d)

/-- All tokens, the end of the text apart. -/
def tokens : TokenStream → List Token
  | .token _ t rest => t :: rest.tokens
  | .done _ _ | .illegal _ _ => []

/-- All comments. -/
def comments : TokenStream → List Comment
  | .token comments _ rest => comments ++ rest.comments
  | .done comments _ | .illegal comments _ => comments

end TokenStream

end ScriptTree
