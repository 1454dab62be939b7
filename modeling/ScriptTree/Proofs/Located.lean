/-
Whatever a report locates is located where the lines of the text say.

# Places that a parse takes

All places in a report were at some time those of a cursor: the start or
the end of the lookahead, or of a comment. The lines that a cursor has
counted are those of the text (`Cursor.StandsIn`), also after strings
over several lines and after looking ahead. The end of what was consumed
last is the one place that a parse holds on to; it is one of these places
at any time (`ParseState.Sited`).
-/
import ScriptTree.Proofs.Keeping
import ScriptTree.Proofs.LineBreak
import ScriptTree.Proofs.Outline
import ScriptTree.Proofs.Refinement.Script
import ScriptTree.Source.NameRanges

namespace ScriptTree

variable {source : List Char}

-- ============================================================ places

/-- A place between characters of a text, where its lines say. -/
structure Position.InText (source : List Char) (p : Position) : Prop where
  boundary : IsBoundary source p.offset
  eq : p = positionAt source p.offset

/-- A stretch between two such places. -/
structure Span.InText (source : List Char) (span : Span) : Prop where
  start : span.start.InText source
  stop : span.stop.InText source

theorem Cursor.StandsIn.inText {c : Cursor} (h : c.StandsIn source) :
    c.position.InText source where
  boundary := by
    obtain ⟨text, htext, hoffset⟩ := h.before
    exact ⟨text, c.rest, htext, hoffset.symm⟩
  eq := h.position_eq

/-- There is a line zero in the empty text only. -/
theorem positionAt_line_eq_zero {text : List Char} {offset : Nat} :
    (positionAt text offset).line = 0 ↔ text = [] := by
  cases text with
  | nil => simp [positionAt, lineStarts]
  | cons ch rest => simp [positionAt, lineStarts]

-- =========================================================== streams

theorem Cursor.comments_inText (steps : Nat) {c : Cursor}
    (h : c.StandsIn source) :
    ∀ comment ∈ (c.skipTriviaWithin steps).1,
      comment.span.InText source := by
  intro comment hin
  obtain ⟨start, stop, hstart, hstop, -, hspan⟩ :=
    walks_comments _ c hin
  rw [hspan]
  exact ⟨(h.walks hstart).inText, ((h.walks hstart).walks hstop).inText⟩

/-- All tokens and comments of a stream are in the text. -/
theorem TokenStream.inText_fromCursor [NameProperties]
    (steps : Nat) {c : Cursor} (h : c.StandsIn source) :
    (∀ t ∈ (fromCursor steps c).tokens, t.span.InText source) ∧
    ∀ comment ∈ (fromCursor steps c).comments,
      comment.span.InText source := by
  induction steps generalizing c with
  | zero => simp [fromCursor, tokens, comments]
  | succ steps ih =>
      have hstart := h.walks (Cursor.walks_skipTrivia c)
      have hcomments : ∀ comment ∈ c.skipTrivia.1,
          comment.span.InText source := Cursor.comments_inText _ h
      cases begins c with
      | done _ hstream | illegal _ _ hstream =>
          rw [hstream]
          exact ⟨by simp [tokens], hcomments⟩
      | @token t stop _ htoken _ hstream =>
          rw [hstream]
          have hstop := hstart.walks (token_walks htoken).1
          obtain ⟨htokens, hlater⟩ := ih hstop
          constructor
          · intro t' hin
            rcases List.mem_cons.1 hin with rfl | hin
            · rw [Cursor.token_span htoken]
              exact ⟨hstart.inText, hstop.inText⟩
            · exact htokens t' hin
          · intro comment hin
            rcases List.mem_append.1 hin with hin | hin
            · exact hcomments comment hin
            · exact hlater comment hin

-- ============================================================ states

namespace ParseState

variable {b : Bool} {s s' : ParseState} {forest : List (Outline Span)}

/-- The lookahead has its place in the text, and so has the end of what
was consumed last. -/
structure Sited [NameProperties]
    (source : List Char) (s : ParseState) : Prop where
  situated : ∃ start stop, s.Situated source start stop
  last : s.last.InText source

theorem Situated.inText [NameProperties] {start stop : Cursor}
    (h : s.Situated source start stop) :
    s.lookahead.span.InText source := by
  rw [h.span]
  exact ⟨h.stands.inText, (h.stands.walks h.walks).inText⟩

theorem Sited.lookahead [NameProperties] (h : s.Sited source) :
    s.lookahead.span.InText source := by
  obtain ⟨start, stop, hs⟩ := h.situated
  exact hs.inText

/-- A shift takes the end of the lookahead for the last place. -/
theorem sited_of_shift [NameProperties] {start stop : Cursor} {t : Token}
    (hs : s.Situated source start stop) (h : Parse.shift s = .ok t s') :
    s'.Sited source := by
  obtain ⟨start', stop', -, hs'⟩ := hs.shift h
  refine ⟨⟨start', stop', hs'⟩, ?_⟩
  obtain ⟨-, next, rest, log, -, -, rfl⟩ := Parse.shift_ok.1 h
  exact hs.inText.stop

theorem Sited.of_eq [NameProperties] (h : s.Sited source)
    (hlookahead : s'.lookahead = s.lookahead) (hrest : s'.rest = s.rest)
    (hlast : s'.last.InText source) : s'.Sited source := by
  obtain ⟨start, stop, hs⟩ := h.situated
  exact ⟨⟨start, stop, hs.of_eq hlookahead hrest⟩, hlast⟩

/-- The nodes that a run builds are in the text. -/
theorem Builds.inText [NameProperties]
    (h : s.Builds b forest s') (hs : s.Sited source) :
    s'.Sited source ∧
      ∀ node ∈ Outline.nodesAll forest, node.2.InText source := by
  induction h with
  | refl => exact ⟨hs, by simp [Outline.nodesAll]⟩
  | weaken _ ih => exact ih hs
  | shift _ hshift ih =>
      obtain ⟨hs₁, hnodes⟩ := ih hs
      obtain ⟨start, stop, hsit⟩ := hs₁.situated
      exact ⟨sited_of_shift hsit hshift, hnodes⟩
  | tolerate _ _ htolerate ih =>
      obtain ⟨-, rfl⟩ := Parse.tolerate_ok.1 htolerate
      obtain ⟨hs₁, hnodes⟩ := ih hs
      exact ⟨hs₁.of_eq rfl rfl hs₁.last, hnodes⟩
  | extend _ ih =>
      obtain ⟨hs₁, hnodes⟩ := ih hs
      exact ⟨hs₁.of_eq rfl rfl hs₁.lookahead.start, hnodes⟩
  | close _ _ hclose ih ih' =>
      obtain ⟨rfl, rfl⟩ := Parse.close_ok.1 hclose
      obtain ⟨hs₁, hnodes⟩ := ih hs
      obtain ⟨hs₂, hchildren⟩ := ih' hs₁
      refine ⟨hs₂.of_eq rfl rfl hs₂.last, fun node hin => ?_⟩
      rcases Outline.mem_nodesAll_concat.1 hin with hin | hin | rfl
      · exact hnodes node hin
      · exact hchildren node hin
      · exact ⟨hs₁.lookahead.start, hs₂.last⟩
  | missing _ _ hclose ih =>
      obtain ⟨rfl, rfl⟩ := Parse.close_ok.1 hclose
      obtain ⟨hs₁, hnodes⟩ := ih hs
      refine ⟨hs₁.of_eq rfl rfl hs₁.last, fun node hin => ?_⟩
      rcases Outline.mem_nodesAll_concat.1 hin with hin | hin | rfl
      · exact hnodes node hin
      · cases hin
      · exact ⟨hs₁.lookahead.start, hs₁.last⟩

end ParseState

-- =========================================================== reports

/-- All locations in a report. -/
def Report.locations (report : Report) : List Location :=
  report.script.outline.nodes.map Prod.snd
    ++ (report.tokens.getD []).map LocatedEntry.location
    ++ (report.comments.getD []).map LocatedEntry.location

/-- The lines and columns of a location are those that the text gives for
the offsets of its range. -/
def Location.Agrees (text : List Char) (location : Location) : Prop :=
  ∃ start stop lines, location.range = some (start, stop) ∧
    location.lines = some lines ∧
    IsBoundary text start ∧ IsBoundary text stop ∧
    lines.start = (positionAt text start).lineColumn ∧
    lines.stop = (positionAt text stop).lineColumn ∧
    (lines.start.line = 0 ↔ text = []) ∧ (lines.stop.line = 0 ↔ text = [])

theorem Options.agrees_locate (options : Options) {text : List Char}
    (hrange : options.range = true) (hloc : options.loc = true)
    {span : Span} (h : span.InText text) :
    (options.locate span).Agrees text := by
  refine ⟨span.start.offset, span.stop.offset, ⟨span.start.lineColumn,
    span.stop.lineColumn, options.source⟩, ?_, ?_, h.start.boundary,
    h.stop.boundary, ?_, ?_, ?_, ?_⟩
  · rw [locate, if_pos hrange]
  · simp only [locate, if_pos hloc]
  · exact congrArg Position.lineColumn h.start.eq
  · exact congrArg Position.lineColumn h.stop.eq
  · show span.start.line = 0 ↔ _
    rw [h.start.eq]
    exact positionAt_line_eq_zero
  · show span.stop.line = 0 ↔ _
    rw [h.stop.eq]
    exact positionAt_line_eq_zero

namespace Parse.ScriptRun

variable {text : List Char} {tolerant : Bool}
  {first stop final : ParseState} {script : Script Span}

/-- The body of a script is parsed from the end of its first token on. -/
theorem sited [NameProperties]
    (run : ScriptRun (.ofText text tolerant) first stop final script) :
    ParseState.Sited text
      { first with last := first.lookahead.span.stop } := by
  have hfirst := ParseState.sited_of_shift
    (ParseState.situated_ofText text tolerant)
    (Parse.skip_ok.1 run.begins)
  exact hfirst.of_eq rfl rfl hfirst.lookahead.stop

/-- All that a parsed script locates is in the text. -/
theorem inText [NameProperties]
    (run : ScriptRun (.ofText text tolerant) first stop final script) :
    ∀ node ∈ script.outline.nodes, node.2.InText text := by
  have hfirst := run.sited
  obtain ⟨hstop, hbody⟩ := run.builds.inText hfirst
  obtain ⟨hplace, -⟩ := Parse.close_ok.1 run.closes
  intro node hin
  rw [Script.outline, Outline.nodes, Statement.outlineAll_eq] at hin
  rcases List.mem_append.1 hin with hin | hin
  · exact hbody node hin
  · rw [List.mem_singleton.1 hin, hplace]
    exact ⟨hfirst.lookahead.start, hstop.last⟩

end Parse.ScriptRun

/-- What is located are nodes, tokens and comments. -/
theorem Options.mem_locations_report {options : Options}
    {script : Script Span} {s : ParseState} {location : Location}
    (h : location ∈ (options.report script s).locations) :
    ∃ span, location = options.locate span ∧
      ((∃ node ∈ script.outline.nodes, node.2 = span) ∨
        (∃ t ∈ s.tokens.toList, t.span = span) ∨
        ∃ comment ∈ s.comments.toList, comment.span = span) := by
  -- Entries that are shown, if they are.
  have hshown {α : Type} {wanted : Bool} {l : List α}
      {entry : α → TokenEntry}
      (h : location ∈ ((optionally wanted
        (l.map (options.locateEntry <| entry ·))).getD []).map
          LocatedEntry.location) :
      ∃ a ∈ l, location = options.locate (entry a).span := by
    cases wanted with
    | false => cases h
    | true =>
        obtain ⟨located, hlocated, rfl⟩ := List.mem_map.1 h
        obtain ⟨a, ha, rfl⟩ := List.mem_map.1 hlocated
        exact ⟨a, ha, rfl⟩
  rcases List.mem_append.1 h with h | h
  · rcases List.mem_append.1 h with h | h
    · obtain ⟨node, hnode, rfl⟩ := List.mem_map.1 h
      rw [report_script, Script.nodes_map] at hnode
      obtain ⟨node, hin, rfl⟩ := List.mem_map.1 hnode
      exact ⟨_, rfl, .inl ⟨node, hin, rfl⟩⟩
    · obtain ⟨t, ht, rfl⟩ := hshown h
      exact ⟨_, rfl, .inr (.inl ⟨t, ht, rfl⟩)⟩
  · obtain ⟨comment, hcomment, rfl⟩ := hshown h
    exact ⟨_, rfl, .inr (.inr ⟨comment, hcomment, rfl⟩)⟩

/-- Where a report shows bytes and lines, both say the same of every node,
token and comment: the lines and columns are those that the text gives
for the bytes. Line zero is shown of an empty text only. -/
theorem locations_of_parse [NameProperties]
    (options : Options) (text : List Char)
    (report : Report) (hrange : options.range = true)
    (hloc : options.loc = true) (h : parse options text = .ok report) :
    ∀ location ∈ report.locations, location.Agrees text := by
  obtain ⟨script, s, hs, rfl⟩ := parse_ok.1 h
  obtain ⟨first, stop, run⟩ := Parse.script_builds hs
  obtain ⟨-, hkept, hkeptComments, -⟩ := run.kept
  obtain ⟨htokens, hcomments⟩ := TokenStream.inText_fromCursor text.length
    (Cursor.standsIn_ofText text)
  intro location hin
  obtain ⟨span, rfl, hspan⟩ := Options.mem_locations_report hin
  refine options.agrees_locate hrange hloc ?_
  rcases hspan with ⟨node, hnode, rfl⟩ | ⟨t, ht, rfl⟩ |
    ⟨comment, hcomment, rfl⟩
  · exact run.inText node hnode
  · rw [hkept] at ht
    exact htokens t ht
  · rw [hkeptComments] at hcomment
    exact hcomments comment hcomment

/-- A string over two lines, and a comment that a line separator ends. -/
theorem locations_of_parse_lines :
    let options : Options := {
      range := true, loc := true, tokens := true, comment := true,
      tolerant := true }
    let text := "f('a\\\r\nb' c) // é\u2028g".toList
    ∃ report, parse options text = .ok report ∧
      (∀ location ∈ report.locations, location.Agrees text) ∧
      report.locations.length = 15 ∧
      ⟨some (10, 11), some ⟨⟨2, 3⟩, ⟨2, 4⟩, none⟩⟩ ∈ report.locations ∧
      ⟨some (21, 22), some ⟨⟨3, 0⟩, ⟨3, 1⟩, none⟩⟩
        ∈ report.locations := by
  intro options text
  have hshown : (parse options text).toOption.map (fun report =>
      (report.locations.length,
        report.locations.contains
          ⟨some (10, 11), some ⟨⟨2, 3⟩, ⟨2, 4⟩, none⟩⟩,
        report.locations.contains
          ⟨some (21, 22), some ⟨⟨3, 0⟩, ⟨3, 1⟩, none⟩⟩))
      = some (15, true, true) := by
    decide +kernel
  obtain ⟨report, h, hshown⟩ := exists_report hshown
  simp only [Prod.mk.injEq, List.contains_iff_mem] at hshown
  obtain ⟨hlength, hname, hlast⟩ := hshown
  exact ⟨report, h, locations_of_parse options text report rfl rfl h,
    hlength, hname, hlast⟩

end ScriptTree
