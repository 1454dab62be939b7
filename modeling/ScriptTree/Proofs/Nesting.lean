/-
How the nodes of a strict parse lie within each other.

# Where a node starts and ends

A node starts where the lookahead starts when it is begun, and ends where
the last token ended when it is completed. A statement without its
semicolon ends where the next token starts. Whatever was built before
ends no later than the lookahead starts, and whatever is built from then
on starts no earlier (`ParseState.Ordered`).

# Strict parses only

A tolerant parse gives a statement that has lost its body an empty one,
which starts at the lookahead and ends before it. A strict parse has none
of these.
-/
import ScriptTree.Proofs.Located
import ScriptTree.Proofs.Tolerance
import ScriptTree.Source.NameRanges

namespace ScriptTree

/-- The bytes that a span covers. -/
def Span.offsets (span : Span) : Nat × Nat :=
  (span.start.offset, span.stop.offset)

/-- An outline in bytes of a text: every node goes from one boundary
between characters to the same or a later one, the nodes within a node
are within its bytes, and they come one after the other. -/
inductive Outline.Nested (text : List Char) :
    Outline (Nat × Nat) → Prop where
  | node {kind : NodeKind} {start stop : Nat}
      {children : List (Outline (Nat × Nat))} :
      start ≤ stop → stop ≤ byteLength text →
      IsBoundary text start → IsBoundary text stop →
      (∀ child ∈ children, child.Nested text) →
      (∀ child ∈ children,
        start ≤ child.place.1 ∧ child.place.2 ≤ stop) →
      children.Pairwise (fun a b => a.place.2 ≤ b.place.1) →
        Nested text (.node kind (start, stop) children)

namespace ParseState

variable {source : List Char} {b : Bool} {s s₁ s' : ParseState}
  {forest children : List (Outline Span)}

/-- The offset at which the lookahead starts. -/
def offset (s : ParseState) : Nat := s.lookahead.span.start.offset

/-- What a run has built lies in order, from where its lookahead was to
where the last token ended. -/
structure Ordered (source : List Char) (b : Bool) (s : ParseState)
    (forest : List (Outline Span)) (s' : ParseState) : Prop where
  forward : s.offset ≤ s'.offset
  from_last : b = true ∨ forest ≠ [] ∨ s.offset ≤ s.last.offset →
    s.offset ≤ s'.last.offset
  last_le : b = true ∨ forest ≠ [] → s'.last.offset ≤ s'.offset
  nested : ∀ o ∈ forest, (o.map Span.offsets).Nested source ∧
    s.offset ≤ o.place.start.offset ∧
    o.place.stop.offset ≤ s'.last.offset
  ordered : forest.Pairwise fun o o' => o.place.Before o'.place

/-- A shift goes on from the start of a token to its end, and from there
to the next one. -/
theorem Situated.offset_of_shift [NameProperties]
    {start stop : Cursor} {t : Token}
    (hs : s.Situated source start stop) (h : Parse.shift s = .ok t s') :
    s.offset ≤ s.lookahead.span.stop.offset ∧
      s.lookahead.span.stop.offset ≤ s'.offset := by
  obtain ⟨start', stop', hgap, hs'⟩ := hs.shift h
  obtain ⟨word, lines, hword, -⟩ := hs.walks.reads
  obtain ⟨gap, lines', hgapReads, -⟩ := hgap.reads
  rw [offset, offset, hs.span, hs'.span]
  exact ⟨hword.offset ▸ Nat.le_add_right _ _,
    hgapReads.offset ▸ Nat.le_add_right _ _⟩

/-- A lookahead ends no earlier than it starts. -/
theorem Sited.start_le_stop [NameProperties] (hs : s.Sited source) :
    s.lookahead.span.start.offset ≤ s.lookahead.span.stop.offset := by
  obtain ⟨start, stop, hsit⟩ := hs.situated
  obtain ⟨word, lines, hword, -⟩ := hsit.walks.reads
  rw [hsit.span]
  exact hword.offset ▸ Nat.le_add_right _ _

/-- What was consumed last ends with the token. -/
theorem Sited.offset_of_shift [NameProperties]
    {t : Token} (hs : s.Sited source) (h : Parse.shift s = .ok t s') :
    s.offset ≤ s'.last.offset ∧ s'.last.offset ≤ s'.offset := by
  obtain ⟨start, stop, hsit⟩ := hs.situated
  have hlast : s'.last = s.lookahead.span.stop := by
    obtain ⟨-, next, rest, log, -, -, rfl⟩ := Parse.shift_ok.1 h
    rfl
  rw [hlast]
  exact hsit.offset_of_shift h

namespace Ordered

theorem refl (s : ParseState) : Ordered source false s [] s where
  forward := Nat.le_refl _
  from_last := by simp
  last_le := by simp
  nested := by simp
  ordered := .nil

/-- What was built stays where it was when a run goes on from there. -/
theorem goOn (h : Ordered source b s forest s₁) {c : Bool}
    (hlast : s₁.offset ≤ s'.last.offset ∧ s'.last.offset ≤ s'.offset) :
    Ordered source c s forest s' where
  forward :=
    Nat.le_trans h.forward (Nat.le_trans hlast.1 hlast.2)
  from_last _ := Nat.le_trans h.forward hlast.1
  last_le _ := hlast.2
  nested o ho := by
    obtain ⟨hnested, hstart, hstop⟩ := h.nested o ho
    have hle := h.last_le (.inr (List.ne_nil_of_mem ho))
    exact ⟨hnested, hstart,
      Nat.le_trans hstop (Nat.le_trans hle hlast.1)⟩
  ordered := h.ordered

/-- Only the lookahead and the last place count. -/
theorem of_eq (h : Ordered source b s forest s₁)
    (hoffset : s'.offset = s₁.offset) (hlast : s'.last = s₁.last) :
    Ordered source b s forest s' where
  forward := hoffset ▸ h.forward
  from_last := hlast ▸ h.from_last
  last_le := by
    rw [hoffset, hlast]
    exact h.last_le
  nested := hlast ▸ h.nested
  ordered := h.ordered

/-- A node over all that was built in a run. -/
theorem node (h : Ordered source b s children s') (kind : NodeKind)
    (hfrom : s.offset ≤ s'.last.offset)
    (hstart : s.lookahead.span.start.InText source)
    (hstop : s'.last.InText source) :
    ((Outline.node kind ⟨s.lookahead.span.start, s'.last⟩ children).map
      Span.offsets).Nested source := by
  rw [Outline.map, Outline.mapAll_eq]
  refine .node hfrom hstop.boundary.le_byteLength hstart.boundary
    hstop.boundary ?_ ?_ ?_
  · intro child hin
    obtain ⟨o, ho, rfl⟩ := List.mem_map.1 hin
    exact (h.nested o ho).1
  · intro child hin
    obtain ⟨o, ho, rfl⟩ := List.mem_map.1 hin
    rw [Outline.place_map]
    exact (h.nested o ho).2
  · refine List.pairwise_map.2 (h.ordered.imp fun hbefore => ?_)
    rw [Outline.place_map, Outline.place_map]
    exact hbefore

/-- A node is completed after others. -/
theorem close (h : Ordered source b s forest s₁)
    (hc : Ordered source true s₁ children s') (kind : NodeKind)
    (hstart : s₁.lookahead.span.start.InText source)
    (hstop : s'.last.InText source) :
    Ordered source true s
      (forest ++ [.node kind ⟨s₁.lookahead.span.start, s'.last⟩ children])
      s' := by
  have hfrom := hc.from_last (.inl rfl)
  have hlast : s.offset ≤ s'.last.offset :=
    Nat.le_trans h.forward hfrom
  -- What was built before ends where the node starts, or earlier.
  have hbefore : ∀ o ∈ forest,
      o.place.stop.offset ≤ s₁.lookahead.span.start.offset := by
    intro o ho
    exact Nat.le_trans (h.nested o ho).2.2
      (h.last_le (.inr (List.ne_nil_of_mem ho)))
  refine ⟨Nat.le_trans h.forward hc.forward, fun _ => hlast,
    fun _ => hc.last_le (.inl rfl), ?_, ?_⟩
  · intro o ho
    rcases List.mem_append.1 ho with ho | ho
    · obtain ⟨hnested, hle, -⟩ := h.nested o ho
      exact ⟨hnested, hle, Nat.le_trans (hbefore o ho) hfrom⟩
    · rw [List.mem_singleton.1 ho]
      exact ⟨hc.node kind hfrom hstart hstop, h.forward, Nat.le_refl _⟩
  · refine List.pairwise_append.2 ⟨h.ordered, .cons (by simp) .nil, ?_⟩
    intro o ho o' ho'
    rw [List.mem_singleton.1 ho']
    exact hbefore o ho

end Ordered

/-- A strict run builds in order. -/
theorem Builds.ordered [NameProperties]
    (h : s.Builds b forest s') (hs : s.Sited source)
    (hstrict : s.log.tolerant = false) :
    Ordered source b s forest s' := by
  induction h with
  | refl s => exact .refl s
  | weaken h ih =>
      have hordered := ih hs hstrict
      exact ⟨hordered.forward, fun _ => hordered.from_last (.inl rfl),
        fun _ => hordered.last_le (.inl rfl), hordered.nested,
        hordered.ordered⟩
  | shift h hshift ih =>
      exact (ih hs hstrict).goOn
        ((h.inText hs).1.offset_of_shift hshift)
  | tolerate h _ htolerate ih =>
      obtain ⟨-, rfl⟩ := Parse.tolerate_ok.1 htolerate
      exact (ih hs hstrict).of_eq rfl rfl
  | extend h ih =>
      exact (ih hs hstrict).goOn ⟨Nat.le_refl _, Nat.le_refl _⟩
  | close h hc hclose ih ih' =>
      obtain ⟨rfl, rfl⟩ := Parse.close_ok.1 hclose
      have hs₁ := (h.inText hs).1
      have hs₂ := (hc.inText hs₁).1
      have hstrict₁ := h.reaches.log.tolerant.trans hstrict
      exact ((ih hs hstrict).close (ih' hs₁ hstrict₁) _
        hs₁.lookahead.start hs₂.last).of_eq rfl rfl
  | missing h htolerant _ ih =>
      rw [h.reaches.log.tolerant, hstrict] at htolerant
      cases htolerant

end ParseState

-- =========================================================== scripts

namespace Parse.ScriptRun

variable {text : List Char} {tolerant : Bool}
  {first stop final : ParseState} {script : Script Span}

/-- A script lies over all that its body has built in order. It ends after
its first token, or where that is. -/
theorem node [NameProperties]
    (run : ScriptRun (.ofText text tolerant) first stop final script)
    {forest : List (Outline Span)}
    (hordered : ParseState.Ordered text false
      { first with last := first.lookahead.span.stop } forest stop) :
    ((Outline.node .script script.place forest).map
      Span.offsets).Nested text := by
  have hplaced := run.sited
  have hstop := (run.builds.inText hplaced).1
  have hfrom : first.lookahead.span.start.offset
      ≤ first.lookahead.span.stop.offset := hplaced.start_le_stop
  obtain ⟨hplace, -⟩ := Parse.close_ok.1 run.closes
  rw [hplace]
  exact hordered.node .script (hordered.from_last (.inr (.inr hfrom)))
    hplaced.lookahead.start hstop.last

/-- The nodes of a script lie within each other, and the script over all
of them. -/
theorem nested [NameProperties]
    (run : ScriptRun (.ofText text false) first stop final script) :
    (script.outline.map Span.offsets).Nested text := by
  have hstrict : first.log.tolerant = false :=
    (ParseState.Step.log (.shift (Parse.skip_ok.1 run.begins))).tolerant
  rw [Script.outline, Statement.outlineAll_eq]
  exact run.node (run.builds.ordered run.sited hstrict)

end Parse.ScriptRun

/-- A report that shows bytes shows those of the nodes. -/
theorem Options.outline_range_report (options : Options)
    (hrange : options.range = true) (script : Script Span)
    (s : ParseState) :
    (options.report script s).script.outline.map Location.range
      = (script.outline.map Span.offsets).map some := by
  have hrange : Location.range ∘ options.locate = some ∘ Span.offsets := by
    funext span
    simp only [Function.comp_apply, Options.locate, hrange, if_true]
    rfl
  rw [Options.report_script, script.outline_map, Outline.map_map,
    Outline.map_map, hrange]

/-- In a report on a strict parse that shows bytes, every node covers
bytes of the text from one boundary between characters to another, the
nodes within a node are within its bytes, and they come one after the
other. -/
theorem ranges_of_parse [NameProperties] (options : Options) (text : List Char)
    (report : Report) (hstrict : options.tolerant = false)
    (hrange : options.range = true)
    (h : parse options text = .ok report) :
    ∃ ranges : Outline (Nat × Nat), ranges.Nested text ∧
      report.script.outline.map Location.range = ranges.map some := by
  obtain ⟨script, s, hs, rfl⟩ := parse_ok.1 h
  rw [hstrict] at hs
  obtain ⟨first, stop, run⟩ := Parse.script_builds hs
  exact ⟨script.outline.map Span.offsets, run.nested,
    options.outline_range_report hrange script s⟩

/-- Operands in parentheses, and a statement that goes on to the brace
after it. -/
theorem ranges_of_parse_parentheses :
    let text := "{ (é)(b) + c }".toList
    ∃ report, parse { range := true } text = .ok report ∧
      (∃ ranges : Outline (Nat × Nat), ranges.Nested text ∧
        report.script.outline.map Location.range = ranges.map some) ∧
      report.script.outline.nodes.map (·.2.range)
        = [some (3, 5), some (7, 8), some (2, 9), some (12, 13),
          some (2, 13), some (2, 14), some (0, 15), some (0, 15)] := by
  intro text
  have hshown : (parse { range := true } text).toOption.map
      (·.script.outline.nodes.map (·.2.range))
      = some [some (3, 5), some (7, 8), some (2, 9), some (12, 13),
          some (2, 13), some (2, 14), some (0, 15), some (0, 15)] := by
    decide +kernel
  obtain ⟨report, h, hshown⟩ := exists_report hshown
  exact ⟨report, h, ranges_of_parse _ text report rfl rfl h, hshown⟩

end ScriptTree
