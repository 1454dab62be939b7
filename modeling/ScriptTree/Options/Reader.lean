/-
Options from JSON text: an object with the options by their names, or a
list of them in their order. What is left out is off.

# Other readers

Reading JSON text is no matter of this library, and any reader of options
will do for a command (`OptionsReader`). What is said of a command holds
with all of them. The reader of this file is one.
-/
import ScriptTree.Json.Reader
import ScriptTree.Options

namespace ScriptTree

/-- The options by themselves. -/
inductive OptionKey where
  | range
  | loc
  | source
  | tokens
  | comment
  | tolerant
  deriving DecidableEq, Repr

namespace OptionKey

/-- The name of an option in an object. -/
def name : OptionKey → String
  | .range => "range"
  | .loc => "loc"
  | .source => "source"
  | .tokens => "tokens"
  | .comment => "comment"
  | .tolerant => "tolerant"

/-- All options, in the order of a list of them. -/
def all : List OptionKey :=
  [.range, .loc, .source, .tokens, .comment, .tolerant]

/-- The option with the given name. -/
def ofName? (name : String) : Option OptionKey :=
  all.find? (·.name = name)

/-- Reads the value of an option, and sets the option to it. -/
def read (key : OptionKey) (options : Options) : JsonReader Options :=
  match key with
  | .range => do return { options with range := ← JsonReader.bool }
  | .loc => do return { options with loc := ← JsonReader.bool }
  | .source => do return { options with source := ← JsonReader.string? }
  | .tokens => do return { options with tokens := ← JsonReader.bool }
  | .comment => do return { options with comment := ← JsonReader.bool }
  | .tolerant => do
    return { options with tolerant := ← JsonReader.bool }

end OptionKey

namespace Options

open JsonReader

/-- The rest of an object from the name of a member on, of `steps`
members at most. An option may be given once, which its name alone
decides, and other members may have any names and values. -/
def readMembers : Nat → List OptionKey → Options → JsonReader Options
  | 0, _, _ => fail .ended
  | steps + 1, given, options => do
    let name ← quoted codedCharacter
    let key? := OptionKey.ofName? name
    if key?.any given.contains then fail .misshapen
    colon
    let options ← match key? with
      | some key => key.read options
      | none => do
        skipValue
        pure options
    let after ← ahead
    advance
    if after = '}' then return options
    else if after ≠ ',' then fail .malformed
    else if (← ahead) ≠ '"' then fail .malformed
    else readMembers steps (key?.toList ++ given) options

/-- An object, from its opening bracket on. -/
def readObject : JsonReader Options := do
  advance
  let first ← ahead
  if first = '}' then
    advance
    return {}
  else if first = '"' then fun rest => readMembers rest.length [] {} rest
  else fail .malformed

/-- The rest of a list that still may give the options in `keys`. -/
def readElements : List OptionKey → Options → JsonReader Options
  | [], options => do
    if (← ahead) = ']' then
      advance
      return options
    else fail .malformed
  | key :: keys, options => do
    let after ← ahead
    advance
    if after = ']' then return options
    else if after ≠ ',' then fail .malformed
    else if (← ahead) = ']' then fail .malformed
    else readElements keys (← key.read options)

/-- A list, from its opening bracket on. -/
def readList : JsonReader Options := do
  advance
  if (← ahead) = ']' then
    advance
    return {}
  else readElements OptionKey.all.tail (← OptionKey.range.read {})

/-- The options in a JSON text. -/
def ofJson (text : List Char) : Except JsonFault Options :=
  let reader : JsonReader Options := do
    let first ← ahead
    if first = '{' then readObject
    else if first = '[' then readList
    else refuse
  match reader text with
  | .error fault _ => .error fault
  | .ok options rest =>
    if rest.all isBlank then .ok options else .error .malformed

end Options

/-- A fault in words. -/
def JsonFault.description : JsonFault → String
  | .ended => "the text ends too early"
  | .malformed => "the text is not JSON"
  | .misshapen => "a value is not of the expected kind"

/-- How a command reads options from JSON text. -/
class OptionsReader where
  /-- The options in a text, or what is wrong with it in words. -/
  read : List Char → Except String Options
  /-- An object without members asks for nothing. -/
  read_empty : read "\x7b\x7d".toList = .ok {}

/-- The reader of this library. -/
instance : OptionsReader where
  read text := (Options.ofJson text).mapError JsonFault.description
  read_empty := rfl

end ScriptTree
