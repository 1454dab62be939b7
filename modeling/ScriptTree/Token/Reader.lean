/-
A reader of tokens: a cursor that moves through a text, and a log for
what can be tolerated on the way. Reading may go on after a failure, and
a reader may be sent back to an earlier cursor.
-/
import ScriptTree.Source.Trivia
import ScriptTree.Token.Next

namespace ScriptTree

/-- Takes note of a token. A reserved word that is spelled with escapes
is reported at its start. -/
def DiagnosticLog.accept [Arithmetic] (log : DiagnosticLog) (t : Token) :
    Except Diagnostic DiagnosticLog :=
  if t.isEscapedReserved then
    log.tolerate (t.span.start.diagnose .escapedReserved)
  else .ok log

/-- A reader of tokens. -/
structure TokenReader where
  cursor : Cursor
  log : DiagnosticLog
  /-- Whether the comments passed over are given out. -/
  keepsComments : Bool
  deriving DecidableEq, Repr

namespace TokenReader

/-- The reader at the start of a text. -/
def ofText (text : List Char) (tolerant keepsComments : Bool) :
    TokenReader where
  cursor := .ofText text
  log := ⟨tolerant, []⟩
  keepsComments := keepsComments

variable [NameProperties] [Arithmetic]

/-- Passes over what stands before the next token, and gives the comments
among it if the reader keeps comments. -/
def skipTrivia (r : TokenReader) : List Comment × TokenReader :=
  let (comments, cursor) := r.cursor.skipTrivia
  (if r.keepsComments then comments else [], { r with cursor })

/-- Reads the token that starts at the cursor. A token that the log does
not accept stays unread. -/
def token : EStateM Diagnostic TokenReader Token := fun r =>
  match Cursor.token r.cursor with
  | .error d cursor => .error d { r with cursor }
  | .ok t cursor =>
    match r.log.accept t with
    | .ok log => .ok t { r with cursor, log }
    | .error d => .error d r

end TokenReader

end ScriptTree
