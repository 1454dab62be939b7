/-
The program: reads what a command is about, and prints its outcome.
-/
import ScriptTree.CommandLine

namespace ScriptTree

/-- The number of an error, which may be given with its sign turned. -/
def errorNumber (code : UInt32) : UInt32 :=
  if code < 0x80000000 then code else 0 - code

/-- What an error of the system comes to. -/
def ReadProblem.ofError (error : IO.Error) : ReadProblem :=
  match error with
  | .noFileOrDirectory _ _ _ => .missing
  | .permissionDenied _ _ _ => .forbidden
  | .inappropriateType _ code _ =>
    if errorNumber code = 20 then .withinFile else .folder
  | .invalidArgument _ code _ =>
    if errorNumber code = 36 then .nameTooLong
    else .other (toString error)
  | _ => .other (toString error)

/-- The bytes that a command is about. -/
def readBytes (file : Option String) : IO ByteArray := do
  match file with
  | some file => IO.FS.readBinFile file
  | none => (← IO.getStdin).readBinToEnd

/-- The text that a command is about. -/
def readText (command : Command) :
    IO (Except CommandFailure String) := do
  let file := command.file
  try
    match String.fromUTF8? (← readBytes file) with
    | some text => return .ok text
    | none => return .error (.unreadable file .notUtf8)
  catch error => return .error (.unreadable file (.ofError error))

end ScriptTree

/-- Runs the command with the given arguments. -/
def main (arguments : List String) : IO UInt32 := do
  let program ← IO.appPath
  let outcome ← ScriptTree.commandOutcome ScriptTree.readText arguments
    (some program.toString)
  IO.print outcome.output
  IO.eprint outcome.complaint
  return outcome.exitCode.toUInt32
