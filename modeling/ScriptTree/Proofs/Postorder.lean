/-
What a parse reports: the nodes of its tree, each after those within it.

A node is reported when it is complete, and that is when the nodes within
it have been reported already. So a run reports the nodes of what it
builds in that order (`ParseState.Builds.nodes`), whichever way the tree
comes about: operands wait on a stack, a name becomes a label, a missing
body is filled in. A comment is reported when it is passed over, and is
kept at the same time (`ParseState.Reaches.reportsComments`).
-/
import ScriptTree.Proofs.Building.Statement
import ScriptTree.Proofs.Outline
import ScriptTree.Proofs.Tolerance
import ScriptTree.Source.NameRanges

namespace ScriptTree

-- ============================================================ events

/-- The node that is reported, if it is one. -/
def Event.node? : Event → Option (NodeKind × Span)
  | .node kind span => some (kind, span)
  | .comment _ => none

/-- The comment that is reported, if it is one. -/
def Event.comment? : Event → Option Comment
  | .node _ _ => none
  | .comment c => some c

namespace ParseState

variable {b : Bool} {s s' : ParseState} {forest : List (Outline Span)}

/-- The nodes reported so far. -/
def nodes (s : ParseState) : List (NodeKind × Span) :=
  s.events.toList.filterMap Event.node?

/-- What a shift reports are comments. -/
theorem nodes_of_shift {t : Token} (h : Parse.shift s = .ok t s') :
    s'.nodes = s.nodes := by
  obtain ⟨-, next, rest, log, -, -, rfl⟩ := Parse.shift_ok.1 h
  have hcomments (l : List Comment) :
      (l.map Event.comment).filterMap Event.node? = [] := by
    rw [List.filterMap_map]
    exact List.filterMap_eq_nil_iff.2 fun _ _ => rfl
  simp [nodes, consume, pass, hcomments]

theorem nodes_of_close {kind : NodeKind} {start : Position} {span : Span}
    (h : Parse.close kind start s = .ok span s') :
    s'.nodes = s.nodes ++ [(kind, span)] := by
  obtain ⟨rfl, rfl⟩ := Parse.close_ok.1 h
  simp [nodes, Event.node?]

/-- A run reports the nodes of what it builds. -/
theorem Builds.nodes (h : s.Builds b forest s') :
    s'.nodes = s.nodes ++ Outline.nodesAll forest := by
  induction h with
  | refl => exact (List.append_nil _).symm
  | weaken _ ih => exact ih
  | shift _ hshift ih => rw [nodes_of_shift hshift, ih]
  | tolerate _ _ htolerate ih =>
      obtain ⟨-, rfl⟩ := Parse.tolerate_ok.1 htolerate
      exact ih
  | extend _ ih => exact ih
  | close _ _ hclose ih ih' =>
      rw [nodes_of_close hclose, ih', ih, Outline.nodesAll_append,
        Outline.nodesAll_singleton, Outline.nodes, List.append_assoc,
        List.append_assoc]
  | missing _ _ hclose ih =>
      rw [nodes_of_close hclose, ih, Outline.nodesAll_append,
        List.append_assoc]
      rfl

/-- The comments reported are those that are kept. -/
def ReportsComments (s : ParseState) : Prop :=
  s.events.toList.filterMap Event.comment? = s.comments.toList

theorem ReportsComments.step (hs : s.ReportsComments) (h : s.Step s') :
    s'.ReportsComments := by
  unfold ReportsComments at hs ⊢
  cases h with
  | shift h =>
      obtain ⟨-, next, rest, log, -, -, rfl⟩ := Parse.shift_ok.1 h
      have hcomments (l : List Comment) :
          (l.map Event.comment).filterMap Event.comment? = l := by
        rw [List.filterMap_map]
        exact List.filterMap_some
      simp [consume, pass, hcomments, hs]
  | tolerate h =>
      obtain ⟨-, rfl⟩ := Parse.tolerate_ok.1 h
      exact hs
  | close h =>
      obtain ⟨-, rfl⟩ := Parse.close_ok.1 h
      simp [Event.comment?, hs]
  | standAt h =>
      cases h
      exact hs

theorem Reaches.reportsComments (h : s.Reaches s')
    (hs : s.ReportsComments) : s'.ReportsComments := by
  induction h with
  | refl => exact hs
  | tail _ hstep ih => exact ih.step hstep

end ParseState

-- =========================================================== scripts

namespace Parse.ScriptRun

variable {start first stop final : ParseState} {script : Script Span}

/-- The script is a node as well, and the last. -/
theorem nodes (run : ScriptRun start first stop final script) :
    final.nodes = start.nodes ++ script.outline.nodes := by
  have hfirst := ParseState.nodes_of_shift (skip_ok.1 run.begins)
  rw [ParseState.nodes_of_close run.closes, run.builds.nodes,
    Script.outline, Outline.nodes, Statement.outlineAll_eq,
    ← List.append_assoc, ← hfirst]
  rfl

end Parse.ScriptRun

-- =========================================================== reports

/-- All nodes are reported, whatever the options. -/
theorem parseEvents_nodes [NameProperties]
    {options : Options} {text : List Char} :
    (parseEvents options text).filterMap Event.node?
      = (parseText options.tolerant text).final.nodes := by
  rw [parseEvents_eq_filter ⟨_, Arithmetic.exact_plain⟩,
    ParseState.nodes, List.filterMap_filter]
  congr 1
  funext event
  cases event with
  | node => rfl
  | comment => simp [Event.node?]

/-- Comments are reported where they are asked for. -/
theorem parseEvents_comments [NameProperties]
    {options : Options} {text : List Char} :
    (parseEvents options text).filterMap Event.comment?
      = if options.comment then
          (parseText options.tolerant text).final.events.toList.filterMap
            Event.comment?
        else [] := by
  rw [parseEvents_eq_filter ⟨_, Arithmetic.exact_plain⟩,
    List.filterMap_filter]
  unfold Options.tells
  cases options.comment with
  | true =>
      congr 1
      funext event
      cases event <;> rfl
  | false =>
      refine List.filterMap_eq_nil_iff.2 fun event _ => ?_
      cases event <;> rfl

/-- What is reported last is the script. -/
theorem parseEvents_last [NameProperties]
    {options : Options} {text : List Char}
    {first stop : ParseState} {script : Script Span}
    (run : Parse.ScriptRun (.ofText text options.tolerant) first stop
      (parseText options.tolerant text).final script) :
    ∃ earlier, parseEvents options text
      = earlier ++ [.node .script script.place] := by
  obtain ⟨hplace, hfinal⟩ := Parse.close_ok.1 run.closes
  rw [parseEvents_eq_filter ⟨_, Arithmetic.exact_plain⟩, hfinal, hplace,
    Array.toList_push, List.filter_append]
  exact ⟨_, rfl⟩

/-- While a text is parsed, the nodes of its tree are reported, each once
and after those within it, and the script at last. What is reported of a
node are its kind and the places that a report shows of it. Comments are
reported where they are asked for, and those are the ones in the report.
-/
theorem events_of_parse [NameProperties] (options : Options) (text : List Char)
    (report : Report) (h : parse options text = .ok report) :
    ∃ (nodes : List (NodeKind × Span)) (comments : List Comment),
      (parseEvents options text).filterMap Event.node? = nodes ∧
      report.script.outline.nodes
        = nodes.map (fun node => (node.1, options.locate node.2)) ∧
      (∃ located, parse { options with range := true, loc := true } text
          = .ok located ∧
        located.script.outline.nodes = nodes.map fun node =>
          (node.1, {
            range := some (node.2.start.offset, node.2.stop.offset)
            lines := some ⟨node.2.start.lineColumn, node.2.stop.lineColumn,
              options.source⟩ })) ∧
      (∃ earlier span, parseEvents options text
        = earlier ++ [.node .script span]) ∧
      (options.comment = true →
        (parseEvents options text).filterMap Event.comment? = comments ∧
        report.comments = some (comments.map fun comment =>
          ⟨.comment comment, options.locate comment.span⟩)) ∧
      (options.comment = false →
        (parseEvents options text).filterMap Event.comment? = []) := by
  obtain ⟨script, s, hs, rfl⟩ := parse_ok.1 h
  obtain ⟨first, stop, run⟩ := Parse.script_builds hs
  have hfinal : (parseText options.tolerant text).final = s := by
    simp only [parseText, hs]
  have hnodes : s.nodes = script.outline.nodes := run.nodes
  have hcomments : s.ReportsComments :=
    ParseState.Reaches.reportsComments (runs_script _ hs) rfl
  refine ⟨s.nodes, s.comments.toList, ?_, ?_, ?_, ?_, ?_, ?_⟩
  · rw [parseEvents_nodes, hfinal]
  · rw [hnodes]
    exact script.nodes_map
  · refine ⟨_, parse_ok.2 ⟨script, s, hs, rfl⟩, ?_⟩
    rw [hnodes]
    exact script.nodes_map
  · rw [← hfinal] at run
    obtain ⟨earlier, hlast⟩ := parseEvents_last run
    exact ⟨earlier, script.place, hlast⟩
  · intro hwanted
    rw [parseEvents_comments, hfinal, if_pos hwanted]
    refine ⟨hcomments, ?_⟩
    simp only [Options.report, optionally, hwanted, if_true]
    rfl
  · intro hunwanted
    rw [parseEvents_comments, hunwanted]
    rfl

/-- A label that was read as an expression, a loop with its condition at
the end, and a comment. -/
theorem events_of_parse_label :
    let options : Options := { comment := true }
    let text := "a: do b(); // c\nwhile (d + e * f)".toList
    ∃ report nodes comments, parse options text = .ok report ∧
      (parseEvents options text).filterMap Event.node? = nodes ∧
      report.script.outline.nodes
        = nodes.map (fun node => (node.1, options.locate node.2)) ∧
      nodes.map Prod.fst
        = [.identifier, .identifier, .callExpression, .expressionStatement,
          .identifier, .identifier, .identifier, .binaryExpression,
          .binaryExpression, .doWhileStatement, .labeledStatement,
          .script] ∧
      (parseEvents options text).filterMap Event.comment? = comments ∧
      comments.map Comment.text = [" c"] := by
  intro options text
  have hshown : (parse options text).toOption.map (fun _ =>
      (((parseEvents options text).filterMap Event.node?).map Prod.fst,
        ((parseEvents options text).filterMap Event.comment?).map
          Comment.text))
      = some ([.identifier, .identifier, .callExpression,
          .expressionStatement, .identifier, .identifier, .identifier,
          .binaryExpression, .binaryExpression, .doWhileStatement,
          .labeledStatement, .script], [" c"]) := by
    decide +kernel
  obtain ⟨report, h, hshown⟩ := exists_report hshown
  obtain ⟨nodes, comments, hnodes, hreport, -, -, hcomments, -⟩ :=
    events_of_parse options text report h
  obtain ⟨hreported, -⟩ := hcomments rfl
  rw [hnodes, hreported, Prod.mk.injEq] at hshown
  exact ⟨report, nodes, comments, h, hnodes, hreport, hshown.1, hreported,
    hshown.2⟩

end ScriptTree
