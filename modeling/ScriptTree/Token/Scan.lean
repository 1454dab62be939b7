/-
Reading one piece of a token. A scan starts at a cursor and either gives
a value and the cursor after it, or a diagnostic and the cursor where
reading stopped: a failure moves the cursor too, and whoever reads on
after one starts from there.
-/
import ScriptTree.Diagnostic
import ScriptTree.Source.Cursor
import ScriptTree.Token

namespace ScriptTree

/-- A reader of a piece of text. -/
abbrev Scan := EStateM Diagnostic Cursor

namespace Scan

/-- The next character, which stays unread. -/
def peek [Arithmetic] : Scan (Option Char) := fun c => .ok c.peek c

/-- So many bytes further on. -/
def move (bytes : Nat) : Scan Unit := fun c => .ok () (c.move bytes)

/-- Fails here. -/
def fail [Arithmetic] {α : Type} (cause : Cause) : Scan α :=
  fun c => .error (c.position.diagnose cause) c

end Scan

/-- The token between two cursors. -/
def Cursor.tokenTo [Arithmetic] (start stop : Cursor) (kind : TokenKind)
    (value : TokenValue) : Token where
  kind := kind
  value := value
  raw := .ofList (start.textTo stop)
  span := ⟨start.position, stop.position⟩

end ScriptTree
