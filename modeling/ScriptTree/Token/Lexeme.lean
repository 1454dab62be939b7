/-
Texts that are one token each, and texts made of them.

# Reading alone

A text is a lexeme if a strict parse takes all of it for one token when
there is nothing else. Put next to each other, lexemes may run together;
with a space in between they do not.
-/
import ScriptTree.Token.Next

namespace ScriptTree

/-- The token that a text is to a strict parse, if it is one. -/
def Token.ofText? [NameProperties] (text : List Char) : Option Token :=
  match Cursor.token (.ofText text) with
  | .ok t stop =>
    if stop.rest.isEmpty && !t.isEnd && !t.isEscapedReserved then some t else none
  | .error _ _ => none

/-- A text that is one token. -/
structure Lexeme [NameProperties] where
  text : String
  token : Token
  alone : Token.ofText? text.toList = some token

/-- A text that is known to be one token. -/
def Lexeme.of [NameProperties] (text : String)
    (h : (Token.ofText? text.toList).isSome = true) : Lexeme where
  text
  token := (Token.ofText? text.toList).get h
  alone := (Option.some_get h).symm

/-- Whether the text goes on to another line. -/
def Lexeme.breaks [NameProperties] (l : Lexeme) : Bool :=
  l.token.span.start.line ≠ l.token.span.stop.line

/-- Texts with a space between each two. -/
def spaced (texts : List String) : List Char :=
  [' '].intercalate (texts.map String.toList)

/-- Lexemes with a space between each two. -/
def Lexeme.spaced [NameProperties] (lexemes : List Lexeme) : List Char :=
  ScriptTree.spaced (lexemes.map Lexeme.text)

end ScriptTree
