/-
Sessions with a reader: whatever is asked of it, one thing after another.

# Going back

A session keeps cursors on demand, and its reader can be sent back to any
of them, however often. Requests go on after a failure from where the
reader is then, which may be in the middle of a token or of a line.

# Soundness

What a session gives out can be relied on if nothing in it is out of
bounds: offsets are between characters of the text, a line starts before
what is on it, and what was cut out of the text has its ends in order.
-/
import ScriptTree.Source.Line
import ScriptTree.Token.Reader

namespace ScriptTree

/-- What may be asked of a reader. -/
inductive Request where
  /-- The token at the cursor. -/
  | token
  /-- The comments up to the next token, which are passed over. -/
  | trivia
  /-- To keep the cursor. -/
  | keep
  /-- To go back to a cursor that was kept, counted from the first. -/
  | goBack (slot : Nat)
  deriving DecidableEq, Repr

/-- What is answered. -/
inductive Reply where
  | token (t : Token)
  | failure (d : Diagnostic)
  | comments (passed : List Comment)
  | done
  deriving DecidableEq, Repr

/-- A reader, and the cursors that were kept of it. -/
structure Session where
  reader : TokenReader
  kept : List Cursor
  deriving DecidableEq, Repr

namespace Session

/-- The session at the start of a text. -/
def ofText (text : List Char) (tolerant keepsComments : Bool) :
    Session where
  reader := .ofText text tolerant keepsComments
  kept := []

variable [NameProperties] [Arithmetic]

/-- Answers a request. There is nothing to go back to in a slot that was
not filled. -/
def answer (s : Session) : Request → Reply × Session
  | .token =>
    match s.reader.token with
    | .ok t reader => (.token t, { s with reader })
    | .error d reader => (.failure d, { s with reader })
  | .trivia =>
    let (comments, reader) := s.reader.skipTrivia
    (.comments comments, { s with reader })
  | .keep => (.done, { s with kept := s.kept ++ [s.reader.cursor] })
  | .goBack slot =>
    match s.kept[slot]? with
    | some cursor =>
      (.done, { s with reader := { s.reader with cursor } })
    | none => (.done, s)

/-- Answers requests one by one. -/
def answers (s : Session) : List Request → List Reply × Session
  | [] => ([], s)
  | request :: requests =>
    let (reply, s) := s.answer request
    let (replies, s) := s.answers requests
    (reply :: replies, s)

end Session

-- ========================================================= soundness

variable (text : List Char)

/-- A place between two characters of a text, on a line that starts there
or before, between two characters as well. -/
structure Position.Sound (p : Position) : Prop where
  within : p.offset ≤ byteLength text
  boundary : IsBoundary text p.offset
  lineBoundary : IsBoundary text p.lineStart
  lineStart_le : p.lineStart ≤ p.offset

/-- A cursor in a text, which sees the text from its offset on. -/
structure Cursor.Sound (c : Cursor) : Prop where
  source : c.source = text
  position : c.position.Sound text
  rest : ∃ before, text = before ++ c.rest ∧
    c.position.offset = byteLength before

/-- A token that holds the text between its ends. -/
structure Token.Sound (t : Token) : Prop where
  start : t.span.start.Sound text
  stop : t.span.stop.Sound text
  ordered : t.span.start.offset ≤ t.span.stop.offset
  raw : t.raw = .ofList
    (textBetween text t.span.start.offset t.span.stop.offset)

/-- A comment that holds the text after its two slashes, all of it on one
line. -/
structure Comment.Sound (comment : Comment) : Prop where
  start : comment.span.start.Sound text
  stop : comment.span.stop.Sound text
  body : IsBoundary text (comment.span.start.offset + 2)
  ordered : comment.span.start.offset + 2 ≤ comment.span.stop.offset
  sameLine : comment.span.stop.lineStart = comment.span.start.lineStart
  text_eq : comment.text = .ofList (textBetween text
    (comment.span.start.offset + 2) comment.span.stop.offset)

/-- A diagnostic that is said of a place. -/
def Diagnostic.Sound (d : Diagnostic) : Prop :=
  ∃ p : Position, p.Sound text ∧ d = p.diagnose d.cause

/-- Everything in a reply is sound. -/
def Reply.Sound : Reply → Prop
  | .token t => t.Sound text
  | .failure d => d.Sound text
  | .comments passed => ∀ comment ∈ passed, comment.Sound text
  | .done => True

/-- Every cursor of a session is sound, and every diagnostic that it has
recorded. -/
structure Session.Sound (s : Session) : Prop where
  cursor : s.reader.cursor.Sound text
  kept : ∀ cursor ∈ s.kept, cursor.Sound text
  recorded : ∀ d ∈ s.reader.log.recorded, d.Sound text

end ScriptTree
