/-
The command line: a source text goes in, and its syntax tree or its
tokens come out as JSON.

# Which failure is told

Arguments are read from left to right, and the first that is wrong ends
the command before any text is read. Options given as JSON replace all
that were set before them, while flags add to what is there, so their
order matters. Of several files the last is read.
-/
import ScriptTree.Options.Reader
import ScriptTree.Source.NameRanges
import ScriptTree.Tree.Json

namespace ScriptTree

/-- What is asked for on a command line. -/
structure Command where
  options : Options := {}
  /-- Whether the tokens are wanted in place of the syntax tree. -/
  listsTokens : Bool := false
  /-- The file with the text. Without one the text is standard input. -/
  file : Option String := none
  deriving DecidableEq, Repr

/-- Why a text cannot be read. -/
inductive ReadProblem where
  /-- There is no such file. -/
  | missing
  | forbidden
  /-- The path goes on after the name of a file. -/
  | withinFile
  /-- The path leads to a folder. -/
  | folder
  | nameTooLong
  /-- What is read is not text. -/
  | notUtf8
  /-- Anything else, in the words of the system. -/
  | other (description : String)
  deriving DecidableEq, Repr

/-- Why a command ends without its output. -/
inductive CommandFailure where
  /-- Help is asked for. -/
  | help (program : String)
  /-- The last argument calls for one more. -/
  | missingOptions
  /-- Options cannot be read, for a reason in the words of their reader. -/
  | unusableOptions (description : String)
  | unknownFlag (argument : String)
  /-- The text cannot be read, from a file or otherwise. -/
  | unreadable (file : Option String) (problem : ReadProblem)
  /-- The text is not what it should be. -/
  | failed (failure : Failure)
  deriving DecidableEq, Repr

-- ======================================================= wording

/-- The name that a program goes by if it was started without one. -/
def programName : String := "rbparse"

/-- The forms of a command. -/
def usage (program : String) : String :=
  "Usage: " ++ program ++ " [--tolerant] [--range] [--loc] [--tokens]"
    ++ " [--comment] [--tokenize] [--options <json>] [FILE]"

/-- A failure in words. -/
def Failure.message : Failure → String
  | .refused diagnostic => diagnostic.message
  | .exhausted => "the text is nested too deeply"

/-- A problem in words. Those of the system come with its number for
them. -/
def ReadProblem.description : ReadProblem → String
  | .missing => "No such file or directory (os error 2)"
  | .forbidden => "Permission denied (os error 13)"
  | .withinFile => "Not a directory (os error 20)"
  | .folder => "Is a directory (os error 21)"
  | .nameTooLong => "File name too long (os error 36)"
  | .notUtf8 => "stream did not contain valid UTF-8"
  | .other description => description

/-- What is told about a failure. -/
def CommandFailure.message : CommandFailure → String
  | .help program => usage program
  | .missingOptions => "--options requires a value"
  | .unusableOptions description =>
    "--options must be a JSON object: " ++ description
  | .unknownFlag argument => "Unknown option: " ++ argument
  | .unreadable (some file) problem =>
    "Cannot read " ++ file ++ ": " ++ problem.description
  | .unreadable none problem => problem.description
  | .failed failure => failure.message

-- ===================================================== arguments

variable [OptionsReader]

namespace Command

/-- The command with one more flag, if the argument is one that stands by
itself. -/
def withFlag? (c : Command) (argument : String) : Option Command :=
  match argument with
  | "--tolerant" => some { c with options.tolerant := true }
  | "--range" => some { c with options.range := true }
  | "--loc" => some { c with options.loc := true }
  | "--tokens" => some { c with options.tokens := true }
  | "--comment" => some { c with options.comment := true }
  | "--tokenize" => some { c with listsTokens := true }
  | _ => none

/-- The command with an argument that is not a known flag, for a program
of the given name. -/
def withOther (c : Command) (program argument : String) :
    Except CommandFailure Command :=
  if argument = "-h" || argument = "--help" then .error (.help program)
  else if argument.toList.head? = some '-' then
    .error (.unknownFlag argument)
  else .ok { c with file := some argument }

/-- The command with further arguments. -/
def withArguments (c : Command) (program : String) :
    List String → Except CommandFailure Command
  | [] => .ok c
  | "--options" :: [] => .error .missingOptions
  | "--options" :: json :: rest =>
    match OptionsReader.read json.toList with
    | .ok options => { c with options }.withArguments program rest
    | .error description => .error (.unusableOptions description)
  | argument :: rest =>
    match c.withFlag? argument with
    | some c => c.withArguments program rest
    | none =>
      match c.withOther program argument with
      | .ok c => c.withArguments program rest
      | .error failure => .error failure

/-- Where lines and columns are wanted, a text without a name goes by
that of its file. -/
def named (c : Command) : Command :=
  if c.options.loc && c.options.source.isNone then
    { c with options.source := c.file }
  else c

/-- The command with the given arguments, for a program of the given
name. -/
def ofArguments (program : String) (arguments : List String) :
    Except CommandFailure Command :=
  (withArguments {} program arguments).map named

-- ======================================================== output

/-- What the command finds out about a text. -/
def run [NameProperties]
    (c : Command) (text : List Char) : Except CommandFailure Json :=
  if c.listsTokens then
    match tokenList c.options text with
    | .ok list => .ok (list.toJson c.options)
    | .error diagnostic => .error (.failed (.refused diagnostic))
  else
    match parse c.options text with
    | .ok report => .ok report.toJson
    | .error failure => .error (.failed failure)

end Command

/-- What a command leaves behind. -/
structure Outcome where
  output : String
  /-- What is told about a failure. -/
  complaint : String
  exitCode : Nat
  deriving DecidableEq, Repr

/-- The outcome of a command that ends with the given JSON value or
fails. -/
def Outcome.ofResult : Except CommandFailure Json → Outcome
  | .ok value => ⟨value.pretty 0 ++ "\n", "", 0⟩
  | .error failure => ⟨"", "Error: " ++ failure.message ++ "\n", 1⟩

/-- The outcome of a command with the given arguments, where `read` gives
the text that the command is about, and `program` is what the program was
started as. -/
def commandOutcome [NameProperties] {m : Type → Type} [Monad m]
    (read : Command → m (Except CommandFailure String))
    (arguments : List String) (program : Option String := none) :
    m Outcome := do
  match Command.ofArguments (program.getD programName) arguments with
  | .error failure => return .ofResult (.error failure)
  | .ok command =>
    let text ← read command
    return .ofResult (text.bind (command.run ·.toList))

end ScriptTree
