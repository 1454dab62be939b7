/-
Looking ahead with a reader.

# Going back

To see what the next token is, a reader reads on as if for good. It is
then sent back to its cursor, and its log drops what was recorded since.
Nothing tells the two ways of reading apart until the reader goes back,
so a token may be looked at any number of times before it is read.
-/
import ScriptTree.Token.Reader

namespace ScriptTree

/-- The log with no more than so many records, the first ones. -/
def DiagnosticLog.rollBack (log : DiagnosticLog) (count : Nat) :
    DiagnosticLog :=
  { log with recorded := log.recorded.take count }

namespace TokenReader

variable [NameProperties] [Arithmetic]

/-- Reads the next token, after what stands before it. -/
def next : EStateM Diagnostic TokenReader Token := fun r =>
  r.skipTrivia.2.token

/-- The reader at the place and with as many records as before. -/
def backTo (ahead before : TokenReader) : TokenReader :=
  { ahead with
    cursor := before.cursor
    log := ahead.log.rollBack before.log.recorded.length }

/-- What reading the next token comes to, and the reader after it went
back from there. -/
def peek (r : TokenReader) : Except Diagnostic Token × TokenReader :=
  match r.next with
  | .ok t ahead => (.ok t, ahead.backTo r)
  | .error d ahead => (.error d, ahead.backTo r)

end TokenReader

end ScriptTree
