/-
What is shown of a text makes no difference to its parse.

A parser asks for its options all the way: whether the reader keeps
comments, whether a token is kept, what is shown of a token, of a comment
and of every node. Of these only tolerance bears on the parse. Reports with
the same tolerance are on the same script, with the same errors, or have
failed in the same way, and the same nodes are reported while the text is
parsed (`parse_of_tolerant_eq`).

Both parses come to what the grammar comes to, which knows of no options
but tolerance (`parse_eq_report`). A parser finishes every node that it
makes, and what it shows of the node is what its options ask for; so the
report is the script of the grammar with each place mapped, and mapping
places maps the outline.
-/
import ScriptTree.Proofs.Places
import ScriptTree.Proofs.Postorder
import ScriptTree.Source.NameRanges

namespace ScriptTree

-- ============================================================ places

/-- What is shown of a place is what the options ask for. -/
structure Options.Shows (options : Options) (place : Location) : Prop where
  range : place.range.isSome = options.range
  lines : place.lines.isSome = options.loc
  named : (place.lines.bind LineRange.source).isSome
    = (options.loc && options.source.isSome)
  source : ∀ lines ∈ place.lines, lines.source = options.source

namespace Options

theorem shows_locate (options : Options) (span : Span) :
    options.Shows (options.locate span) where
  range := by
    unfold locate
    cases options.range <;> rfl
  lines := by
    unfold locate
    cases options.loc <;> rfl
  named := by
    unfold locate
    cases options.loc <;> rfl
  source := by
    intro lines hlines
    unfold locate at hlines
    by_cases hloc : options.loc = true
    · simp only [if_pos hloc, Option.mem_some_iff] at hlines
      rw [← hlines]
    · simp only [if_neg hloc] at hlines
      cases hlines

/-- Every node of a report, however deep, shows what the options ask for.
-/
theorem shows_of_report {options : Options} {script : Script Span}
    {s : ParseState} :
    ∀ node ∈ (options.report script s).script.outline.nodes,
      options.Shows node.2 := by
  intro node hnode
  rw [report_script, Script.nodes_map] at hnode
  obtain ⟨inner, -, rfl⟩ := List.mem_map.1 hnode
  exact options.shows_locate inner.2

end Options

-- =========================================================== reports

/-- A report without the places, and without tokens and comments. -/
def Report.unplaced (report : Report) :
    Script Unit × Option (List Diagnostic) :=
  (report.script.map fun _ => (), report.errors)

/-- What a report is on, and its errors, come from the grammar and from
tolerance. -/
theorem Options.unplaced_report (options : Options)
    (script : Script Span) (s : ParseState) :
    (options.report script s).unplaced
      = (script.map fun _ => (),
        optionally options.tolerant s.log.recorded) := by
  show ((script.map options.locate).map _, _) = _
  rw [Script.map_map]
  rfl

/-- What became of a parse, places apart. -/
theorem parse_unplaced [NameProperties]
    (options : Options) (text : List Char) :
    (parse options text).map Report.unplaced
      = (parseText options.tolerant text).result.map fun script =>
        (script.map fun _ => (), optionally options.tolerant
          (parseText options.tolerant text).final.log.recorded) := by
  rcases h : parseText options.tolerant text with ⟨failure | script, s⟩
  · rw [parse_of_parseText h]
    rfl
  · rw [parse_of_parseText h]
    exact congrArg Except.ok (options.unplaced_report script s)

/-- Options other than tolerance have no bearing on the parse: the same
failure, or the same script and the same errors, and the same nodes are
reported on the way. A node shows its range, its lines and the name of
the text where it was asked for, and only there. -/
theorem parse_of_tolerant_eq [NameProperties] (options options' : Options)
    (text : List Char) (h : options.tolerant = options'.tolerant) :
    (parse options text).map Report.unplaced
        = (parse options' text).map Report.unplaced ∧
      (parseEvents options text).filterMap Event.node?
        = (parseEvents options' text).filterMap Event.node? ∧
      ∀ report, parse options text = .ok report →
        ∀ node ∈ report.script.outline.nodes, options.Shows node.2 := by
  apply And.intro
  · rw [parse_unplaced, parse_unplaced, h]
  apply And.intro
  · rw [parseEvents_nodes, parseEvents_nodes, h]
  · intro report hreport
    obtain ⟨script, s, -, rfl⟩ := parse_ok.1 hreport
    exact Options.shows_of_report

/-- A fault that is tolerated, with everything shown and with nothing. -/
theorem parse_of_tolerant_eq_call :
    let bare := Options.tolerating
    let full : Options :=
      { range := true, loc := true, source := some "a.js", tokens := true,
        comment := true, tolerant := true }
    let text := "f(1 // a\n2)".toList
    ∃ report report', parse bare text = .ok report ∧
      parse full text = .ok report' ∧
      report.unplaced = report'.unplaced ∧
      report.errors.map List.length = some 1 ∧
      (parseEvents bare text).filterMap Event.node?
        = (parseEvents full text).filterMap Event.node? ∧
      (∀ node ∈ report.script.outline.nodes, bare.Shows node.2) ∧
      ∀ node ∈ report'.script.outline.nodes, full.Shows node.2 := by
  intro bare full text
  have hshown : (parse bare text).toOption.map
      (·.errors.map List.length) = some (some 1) := by
    decide +kernel
  obtain ⟨report, hreport, herrors⟩ := exists_report hshown
  obtain ⟨hsame, hnodes, hbare⟩ := parse_of_tolerant_eq bare full text rfl
  obtain ⟨-, -, hfull⟩ := parse_of_tolerant_eq full bare text rfl
  cases hreport' : parse full text with
  | error failure =>
      rw [hreport, hreport'] at hsame
      cases hsame
  | ok report' =>
      rw [hreport, hreport'] at hsame
      exact ⟨report, report', hreport, rfl, Except.ok.inj hsame, herrors,
        hnodes, hbare report hreport, hfull report' hreport'⟩

end ScriptTree
