/-
Where the nodes of a tolerant parse are.

# Statements without a body

A statement that has lost the parenthesis after its head gets an empty
statement for a body. The token that stands in place of the parenthesis
is passed over. The empty statement starts where the lookahead starts,
and it ends where the token that was passed over ends. So it ends before
it starts if there is a gap between the two.

# What is proved

Nothing else is out of place. If the start of every such statement is
taken back to its end, the nodes of a tolerant parse lie within each
other as those of a strict one (`Span.clampStart`, `Builds.clamped`).
What stands between the two is trivia (`Builds.forward`).
-/
import ScriptTree.Proofs.Gap
import ScriptTree.Proofs.Nesting
import ScriptTree.Source.NameRanges

namespace ScriptTree

/-- A range with its start no further than its end. -/
def clampStart (range : Nat × Nat) : Nat × Nat :=
  (min range.1 range.2, range.2)

/-- A node that does not end before it starts, unless it is an empty
statement with nothing but trivia from its end to its start. -/
def ForwardOrLostBody (source : List Char) (kind : NodeKind)
    (range : Nat × Nat) : Prop :=
  range.1 ≤ range.2 ∨
    kind = .emptyStatement ∧ OnlyTrivia source range.2 range.1

namespace Span

/-- A span with its start no further than its end. -/
def clampStart (span : Span) : Span :=
  if span.start.offset ≤ span.stop.offset then span
  else ⟨span.stop, span.stop⟩

theorem clampStart_of_le {span : Span}
    (h : span.start.offset ≤ span.stop.offset) :
    span.clampStart = span := if_pos h

theorem stop_clampStart (span : Span) :
    span.clampStart.stop = span.stop := by
  unfold clampStart
  split
  case isTrue => rfl
  case isFalse => rfl

theorem offsets_clampStart (span : Span) :
    span.clampStart.offsets = ScriptTree.clampStart span.offsets := by
  unfold clampStart ScriptTree.clampStart offsets
  split
  case isTrue h => simp [Nat.min_eq_left h]
  case isFalse h => simp [Nat.min_eq_right (Nat.le_of_not_le h)]

end Span

namespace ParseState

variable {source text : List Char} {b : Bool} {s s₁ s' : ParseState}
  {forest : List (Outline Span)} {kind : NodeKind}

-- ============================================================= order

/-- A node that stands for a missing body is where the last token
ended. -/
theorem Ordered.missing (h : Ordered source true s forest s')
    (hlast : s'.last.InText source) :
    Ordered source true s (forest ++ [.node kind
      (Span.clampStart ⟨s'.lookahead.span.start, s'.last⟩) []]) s' := by
  let span : Span := ⟨s'.lookahead.span.start, s'.last⟩
  have hfrom := h.from_last (.inl rfl)
  have hle : s'.last.offset ≤ s'.lookahead.span.start.offset :=
    h.last_le (.inl rfl)
  have hstop : span.clampStart.stop = s'.last := span.stop_clampStart
  have hstart : span.clampStart.start.offset = s'.last.offset := by
    unfold Span.clampStart
    split
    case isTrue hforward => exact Nat.le_antisymm hforward hle
    case isFalse => rfl
  have hnested : ((Outline.node kind span.clampStart []).map
      Span.offsets).Nested source := by
    refine .node ?_ ?_ ?_ ?_ (by simp) (by simp) .nil
    · exact Nat.le_of_eq (by rw [hstart, hstop])
    · rw [hstop]
      exact hlast.boundary.le_byteLength
    · rw [hstart]
      exact hlast.boundary
    · rw [hstop]
      exact hlast.boundary
  refine ⟨h.forward, fun _ => hfrom, fun _ => hle, ?_, ?_⟩
  · intro o ho
    rcases List.mem_append.1 ho with ho | ho
    · exact h.nested o ho
    · rw [List.mem_singleton.1 ho]
      exact ⟨hnested, hstart.symm ▸ hfrom, Nat.le_of_eq
        (congrArg Position.offset hstop)⟩
  · refine List.pairwise_append.2 ⟨h.ordered, .cons (by simp) .nil, ?_⟩
    intro o ho o' ho'
    rw [List.mem_singleton.1 ho']
    show o.place.stop.offset ≤ span.clampStart.start.offset
    rw [hstart]
    exact (h.nested o ho).2.2

/-- A tolerant run builds in order, but for the starts of nodes that
stand for missing bodies. -/
theorem Builds.clamped [NameProperties]
    (h : s.Builds b forest s') (hs : s.Sited source) :
    Ordered source b s (forest.map (Outline.map Span.clampStart)) s' := by
  induction h with
  | refl s => exact .refl s
  | weaken _ ih =>
      have hordered := ih hs
      exact ⟨hordered.forward, fun _ => hordered.from_last (.inl rfl),
        fun _ => hordered.last_le (.inl rfl), hordered.nested,
        hordered.ordered⟩
  | shift h hshift ih =>
      exact (ih hs).goOn ((h.inText hs).1.offset_of_shift hshift)
  | tolerate _ _ htolerate ih =>
      obtain ⟨-, rfl⟩ := Parse.tolerate_ok.1 htolerate
      exact (ih hs).of_eq rfl rfl
  | extend _ ih => exact (ih hs).goOn ⟨Nat.le_refl _, Nat.le_refl _⟩
  | close h hc hclose ih ih' =>
      obtain ⟨rfl, rfl⟩ := Parse.close_ok.1 hclose
      have hs₁ := (h.inText hs).1
      have hs₂ := (hc.inText hs₁).1
      have hordered := ih' hs₁
      rw [List.map_append, List.map_singleton, Outline.map,
        Outline.mapAll_eq,
        Span.clampStart_of_le (hordered.from_last (.inl rfl))]
      exact ((ih hs).close hordered _ hs₁.lookahead.start
        hs₂.last).of_eq rfl rfl
  | missing h _ hclose ih =>
      obtain ⟨rfl, rfl⟩ := Parse.close_ok.1 hclose
      rw [List.map_append, List.map_singleton, Outline.map,
        Outline.mapAll_eq]
      exact ((ih hs).missing (h.inText hs).1.last).of_eq rfl rfl

-- ============================================================ trivia

/-- What stands for a missing body runs forward, or back over trivia. -/
theorem Traced.lostBody [NameProperties] (h : s.Traced text) :
    ForwardOrLostBody text .emptyStatement
      (s.lookahead.span.start.offset, s.last.offset) := by
  cases h.trails with
  | atStart hlast => exact .inl (Nat.le_of_eq (by rw [hlast]))
  | atStop hlast =>
      left
      rw [hlast]
      exact h.sited.start_le_stop
  | after _ _ hgap => exact .inr ⟨rfl, hgap.only⟩

theorem Builds.forward [NameProperties]
    (h : s.Builds b forest s') (hs : s.Traced text) :
    s'.Traced text ∧ ∀ node ∈ Outline.nodesAll forest,
      ForwardOrLostBody text node.1 node.2.offsets := by
  induction h with
  | refl => exact ⟨hs, by simp [Outline.nodesAll]⟩
  | weaken _ ih => exact ih hs
  | shift _ hshift ih =>
      obtain ⟨hs₁, hnodes⟩ := ih hs
      exact ⟨hs₁.shift hshift, hnodes⟩
  | tolerate _ _ htolerate ih =>
      obtain ⟨-, rfl⟩ := Parse.tolerate_ok.1 htolerate
      obtain ⟨hs₁, hnodes⟩ := ih hs
      exact ⟨hs₁.of_eq rfl rfl rfl rfl rfl, hnodes⟩
  | extend _ ih =>
      obtain ⟨hs₁, hnodes⟩ := ih hs
      exact ⟨hs₁.extend, hnodes⟩
  | close _ hc hclose ih ih' =>
      obtain ⟨rfl, rfl⟩ := Parse.close_ok.1 hclose
      obtain ⟨hs₁, hnodes⟩ := ih hs
      obtain ⟨hs₂, hchildren⟩ := ih' hs₁
      refine ⟨hs₂.of_eq rfl rfl rfl rfl rfl, fun node hin => ?_⟩
      rcases Outline.mem_nodesAll_concat.1 hin with hin | hin | rfl
      · exact hnodes node hin
      · exact hchildren node hin
      · exact .inl ((hc.clamped hs₁.sited).from_last (.inl rfl))
  | missing _ _ hclose ih =>
      obtain ⟨rfl, rfl⟩ := Parse.close_ok.1 hclose
      obtain ⟨hs₁, hnodes⟩ := ih hs
      refine ⟨hs₁.of_eq rfl rfl rfl rfl rfl, fun node hin => ?_⟩
      rcases Outline.mem_nodesAll_concat.1 hin with hin | hin | rfl
      · exact hnodes node hin
      · cases hin
      · exact hs₁.lostBody

end ParseState

-- =========================================================== scripts

namespace Parse.ScriptRun

variable {text : List Char} {tolerant : Bool}
  {first stop final : ParseState} {script : Script Span}

/-- A script lies over all of its nodes, and they within each other, but
for the starts of nodes that stand for missing bodies. -/
theorem clamped [NameProperties]
    (run : ScriptRun (.ofText text tolerant) first stop final script) :
    ((script.outline.map Span.offsets).map clampStart).Nested text := by
  have hnested := run.node (run.builds.clamped run.sited)
  have hforward : script.place.start.offset
      ≤ script.place.stop.offset := by
    rw [Outline.map] at hnested
    cases hnested with
    | node hle => exact hle
  have hclamp : clampStart ∘ Span.offsets
      = Span.offsets ∘ Span.clampStart := by
    funext span
    exact span.offsets_clampStart.symm
  rw [Outline.map_map, hclamp, ← Outline.map_map, Script.outline,
    Statement.outlineAll_eq, Outline.map, Outline.mapAll_eq,
    Span.clampStart_of_le hforward]
  exact hnested

/-- All nodes of a script run forward, or back over trivia. -/
theorem forward [NameProperties]
    (run : ScriptRun (.ofText text tolerant) first stop final script) :
    ∀ node ∈ (script.outline.map Span.offsets).nodes,
      ForwardOrLostBody text node.1 node.2 := by
  have htraced := ParseState.Traced.of_skip run.begins
  obtain ⟨-, hbody⟩ := run.builds.forward htraced
  have hnested := run.node (run.builds.clamped run.sited)
  intro node hin
  rw [Outline.nodes_map] at hin
  obtain ⟨node, hnode, rfl⟩ := List.mem_map.1 hin
  rw [Script.outline, Statement.outlineAll_eq, Outline.nodes] at hnode
  rcases List.mem_append.1 hnode with hnode | hnode
  · exact hbody node hnode
  · rw [List.mem_singleton.1 hnode]
    rw [Outline.map] at hnested
    cases hnested with
    | node hle => exact .inl hle

end Parse.ScriptRun

/-- In a report that shows bytes, the nodes within a node are within its
bytes and come one after the other, once the start of every node is taken
to be no further than its end. Only an empty statement starts after its
end, with nothing but trivia in between. -/
theorem ranges_of_parse_tolerant [NameProperties]
    (options : Options) (text : List Char)
    (report : Report) (hrange : options.range = true)
    (h : parse options text = .ok report) :
    ∃ ranges : Outline (Nat × Nat),
      report.script.outline.map Location.range = ranges.map some ∧
      (ranges.map clampStart).Nested text ∧
      ∀ node ∈ ranges.nodes, ForwardOrLostBody text node.1 node.2 := by
  obtain ⟨script, s, hs, rfl⟩ := parse_ok.1 h
  obtain ⟨first, stop, run⟩ := Parse.script_builds hs
  exact ⟨script.outline.map Span.offsets,
    options.outline_range_report hrange script s, run.clamped, run.forward⟩

/-- A loop that has lost its body, in front of a blank. -/
theorem ranges_of_parse_lost_body :
    let options : Options := { tolerant := true, range := true }
    let text := "while (x; y;".toList
    ∃ report, parse options text = .ok report ∧
      (∃ ranges : Outline (Nat × Nat),
        report.script.outline.map Location.range = ranges.map some ∧
        (ranges.map clampStart).Nested text ∧
        ∀ node ∈ ranges.nodes, ForwardOrLostBody text node.1 node.2) ∧
      report.script.outline.nodes.map (·.2.range)
        = [some (7, 8), some (10, 9), some (0, 9), some (10, 11),
          some (10, 12), some (0, 12)] := by
  intro options text
  have hshown : (parse options text).toOption.map
      (·.script.outline.nodes.map (·.2.range))
      = some [some (7, 8), some (10, 9), some (0, 9), some (10, 11),
          some (10, 12), some (0, 12)] := by
    decide +kernel
  obtain ⟨report, h, hshown⟩ := exists_report hshown
  exact ⟨report, h, ranges_of_parse_tolerant options text report rfl h,
    hshown⟩

/-- The body that such a loop gets ends before it starts. -/
theorem range_of_lost_body :
    ¬∀ (options : Options) (text : List Char) (report : Report),
      options.tolerant = true → options.range = true →
      parse options text = .ok report →
      ∀ node ∈ report.script.outline.nodes, ∀ start stop,
        node.2.range = some (start, stop) → start ≤ stop := by
  intro hall
  let options : Options := { tolerant := true, range := true }
  have hshown : (parse options "while (x; y;".toList).toOption.map
      (·.script.outline.nodes.any (·.2.range = some (10, 9)))
      = some true := by
    decide +kernel
  obtain ⟨report, h, hshown⟩ := exists_report hshown
  obtain ⟨node, hin, hnode⟩ := List.any_eq_true.1 hshown
  have hle := hall options _ report rfl rfl h node hin 10 9
    (of_decide_eq_true hnode)
  omega

end ScriptTree
