/-
Diagnostics: what is wrong with a source text, and where. A log decides
what becomes of one. A strict log hands it back, which ends the work at
hand; a tolerant log records it and lets the work go on.
-/
import ScriptTree.Diagnostic.Message
import ScriptTree.Source.Position

namespace ScriptTree

/-- What can be wrong. -/
inductive Cause where
  /-- A token in the wrong place, with its text. -/
  | unexpectedToken (text : String)
  /-- Characters that form no token. -/
  | illegalToken
  | unexpectedNumber
  | unexpectedString
  | unexpectedIdentifier
  | unexpectedReserved
  | unexpectedEnd
  /-- An assignment to something that holds no value. -/
  | invalidTarget
  | illegalBreak
  | illegalContinue
  | illegalReturn
  | unknownLabel (label : String)
  | labelRedeclared (label : String)
  /-- A declaration of the given kind that has to give a value. -/
  | missingInitializer (kind : String)
  | newlineAfterThrow
  | letInBinding
  | escapedReserved
  | invalidHexEscape
  /-- Anything else, in the words of the one who reports it. -/
  | other (description : String)
  deriving DecidableEq, Repr

/-- The cause in words. -/
def Cause.description : Cause → String
  | .unexpectedToken text => Message.fill Message.unexpectedToken [text]
  | .illegalToken => Message.illegalToken
  | .unexpectedNumber => Message.unexpectedNumber
  | .unexpectedString => Message.unexpectedString
  | .unexpectedIdentifier => Message.unexpectedIdentifier
  | .unexpectedReserved => Message.unexpectedReserved
  | .unexpectedEnd => Message.unexpectedEnd
  | .invalidTarget => Message.invalidTarget
  | .illegalBreak => Message.illegalBreak
  | .illegalContinue => Message.illegalContinue
  | .illegalReturn => Message.illegalReturn
  | .unknownLabel label => Message.fill Message.unknownLabel [label]
  | .labelRedeclared label =>
    Message.fill Message.redeclaration ["Label", label]
  | .missingInitializer kind =>
    Message.fill Message.missingInitializer [kind]
  | .newlineAfterThrow => Message.newlineAfterThrow
  | .letInBinding => Message.letInBinding
  | .escapedReserved => Message.escapedReserved
  | .invalidHexEscape => Message.invalidHexEscape
  | .other description => description

/-- A cause with the place where it was found. -/
structure Diagnostic where
  /-- The offset in the text. -/
  index : Nat
  line : Nat
  /-- The column, the first one being one. -/
  column : Nat
  cause : Cause
  deriving DecidableEq, Repr

namespace Diagnostic

/-- What is wrong, in words. -/
def description (d : Diagnostic) : String := d.cause.description

/-- The description with its line in front. -/
def message (d : Diagnostic) : String :=
  "Line " ++ toString d.line ++ ": " ++ d.description

end Diagnostic

/-- A cause found at a position. -/
def Position.diagnose [Arithmetic] (p : Position) (cause : Cause) :
    Diagnostic :=
  ⟨p.offset, p.line, p.column + 1, cause⟩

-- ======================================================== the log

/-- The diagnostics recorded so far, and whether further ones may be. -/
structure DiagnosticLog where
  tolerant : Bool
  /-- In the order of recording. -/
  recorded : List Diagnostic := []
  deriving DecidableEq, Repr

namespace DiagnosticLog

/-- Records a diagnostic. -/
def record (log : DiagnosticLog) (d : Diagnostic) : DiagnosticLog :=
  { log with recorded := log.recorded ++ [d] }

/-- Records a diagnostic where the log is tolerant, and hands it back
where it is not. -/
def tolerate (log : DiagnosticLog) (d : Diagnostic) :
    Except Diagnostic DiagnosticLog :=
  if log.tolerant then .ok (log.record d) else .error d

end DiagnosticLog

end ScriptTree
