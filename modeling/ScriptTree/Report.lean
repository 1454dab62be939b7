/-
Reports: a parsed script with as much about it as the options ask for.
-/
import ScriptTree.Grammar.Script
import ScriptTree.Options
import ScriptTree.TokenList

namespace ScriptTree

/-- A token or comment with its location. -/
structure LocatedEntry where
  entry : TokenEntry
  location : Location
  deriving DecidableEq, Repr

/-- An entry located as the options ask for. -/
def Options.locateEntry (options : Options) (entry : TokenEntry) :
    LocatedEntry :=
  ⟨entry, options.locate entry.span⟩

/-- A report on a script. -/
structure Report where
  script : Script Location
  comments : Option (List LocatedEntry)
  tokens : Option (List LocatedEntry)
  /-- What was recorded, if anything could be. -/
  errors : Option (List Diagnostic)

/-- A value, if it is wanted. -/
def optionally {α : Type} (wanted : Bool) (a : α) : Option α :=
  if wanted then some a else none

/-- The report on a script, from the state in which its parse ended. -/
def Options.report (options : Options) (script : Script Span)
    (s : ParseState) : Report :=
  let comments := s.comments.toList.map (options.locateEntry <| .comment ·)
  let tokens := s.tokens.toList.map (options.locateEntry <| .token ·)
  { script := script.map options.locate
    comments := optionally options.comment comments
    tokens := optionally options.tokens tokens
    errors := optionally options.tolerant s.log.recorded }

/-- The script of a report is the one that was parsed, with other places.
-/
theorem Options.report_script {options : Options} {script : Script Span}
    {s : ParseState} :
    (options.report script s).script = script.map options.locate := rfl

/-- A result that shows something is there. -/
theorem exists_ok {ε α β : Type} {result : Except ε α} {f : α → β} {b : β}
    (h : result.toOption.map f = some b) :
    ∃ a, result = .ok a ∧ f a = b := by
  cases result with
  | error e => cases h
  | ok a => exact ⟨a, rfl, Option.some.inj h⟩

end ScriptTree
