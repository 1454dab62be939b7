/-
The arguments of a command, and the flags among them.

An argument stands by itself, or is the value of the one before it. What
looks like a flag in the place of a value is none.
-/
import ScriptTree.CommandLine

namespace ScriptTree

/-- An argument, with its value if it takes one. -/
inductive Argument where
  /-- Options as JSON text. -/
  | options (json : String)
  /-- A flag, or the file. -/
  | word (text : String)
  deriving DecidableEq, Repr

/-- The arguments that the words of a command line make. -/
def Argument.ofWords : List String → List Argument
  | "--options" :: json :: rest => options json :: ofWords rest
  | text :: rest => word text :: ofWords rest
  | [] => []

/-- There is no JSON text among some arguments. -/
def WithoutJson (arguments : List Argument) : Prop :=
  ∀ json, .options json ∉ arguments

/-- What can be asked for by a word alone. -/
inductive CommandFlag where
  | tolerant
  | range
  | loc
  | tokens
  | comment
  | tokenize
  deriving DecidableEq, Repr

namespace CommandFlag

/-- The word that asks for it. -/
def text : CommandFlag → String
  | tolerant => "--tolerant"
  | range => "--range"
  | loc => "--loc"
  | tokens => "--tokens"
  | comment => "--comment"
  | tokenize => "--tokenize"

/-- Whether options ask for it. A list of tokens is no matter of
options. -/
def isIn (flag : CommandFlag) (options : Options) : Bool :=
  match flag with
  | tolerant => options.tolerant
  | range => options.range
  | loc => options.loc
  | tokens => options.tokens
  | comment => options.comment
  | tokenize => false

/-- Whether it is in effect. -/
def isOn (flag : CommandFlag) (c : Command) : Bool :=
  match flag with
  | tokenize => c.listsTokens
  | flag => flag.isIn c.options

/-- The flag stands among some arguments, and what would undo it does not
come later. -/
def IsGiven (flag : CommandFlag) (arguments : List Argument) : Prop :=
  ∃ after, .word flag.text :: after <:+ arguments ∧
    (flag = .tokenize ∨ WithoutJson after)

/-- The last JSON text among some arguments asks for the flag. -/
def IsRead [OptionsReader] (flag : CommandFlag)
    (arguments : List Argument) : Prop :=
  ∃ json after options, .options json :: after <:+ arguments ∧
    WithoutJson after ∧ OptionsReader.read json.toList = .ok options ∧
    flag.isIn options = true

end CommandFlag

end ScriptTree
