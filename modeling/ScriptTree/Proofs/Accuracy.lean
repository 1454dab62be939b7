/-
Where the diagnostics of a parse point.

# Three ways to a place

A failed scan points to where it has stopped. A production points to the
end of what was consumed last, or to the start of a name. All these are
places of the text (`Diagnostic.Accurate`), but for an escape that a line
terminator cuts off (`Diagnostic.CutsEscape`).

What is found at a token takes its offset and its line from the token,
and counts the column from the start of the line on which the last
consumed token ends. That is another line if there is a line break in
between (`Diagnostic.OffLine`).

# The guard

That nothing else is said, and nothing else recorded, is a matter of the
basic actions alone (`Guard.ofPlaces`).
-/
import ScriptTree.Proofs.Gap
import ScriptTree.Proofs.Keeping
import ScriptTree.Source.NameRanges

namespace ScriptTree

variable {text : List Char} {s s' : ParseState} {t : Token}
  {d : Diagnostic} {cause : Cause}

-- ======================================================= diagnostics

namespace Diagnostic

/-- The line and the column are those that the text gives for the
offset. -/
structure Accurate (text : List Char) (d : Diagnostic) : Prop where
  boundary : IsBoundary text d.index
  line : d.line = (positionAt text d.index).line
  column : d.column = d.index - (positionAt text d.index).lineStart + 1

/-- Found at a token, with the column counted from the start of another
line than the one on which the token starts: the line on which the token
itself ends, or the token before it. -/
structure OffLine [NameProperties]
    (text : List Char) (d : Diagnostic) : Prop where
  about : d.cause.isAboutToken = true
  boundary : IsBoundary text d.index
  line : d.line = (positionAt text d.index).line
  column : ∃ t ∈ (TokenStream.ofText text).tokens,
    d.column = d.index
      - (positionAt text t.span.stop.offset).lineStart + 1 ∧
    (t.span.start.offset = d.index ∧
        breaksLine (textBetween text d.index t.span.stop.offset) = true ∨
      OnlyTrivia text t.span.stop.offset d.index ∧
        breaksLine (textBetween text t.span.stop.offset d.index) = true)

/-- Found behind a line terminator that cuts off an escape in braces, and
counted as though the line went on. -/
def CutsEscape (text : List Char) (d : Diagnostic) : Prop :=
  ∃ before digits ch after,
    text = before ++ ['\\', 'u', '\x7b'] ++ digits ++ ch :: after ∧
    digits.all isHexDigit = true ∧ isLineTerminator ch = true ∧
    d = ((positionAt text (byteLength before)).advance
      (byteLength (['\\', 'u', '\x7b'] ++ digits ++ [ch]))).diagnose
        .illegalToken

/-- Where a diagnostic may point. -/
inductive Placed [NameProperties]
    (text : List Char) (d : Diagnostic) : Prop where
  | accurate : d.Accurate text → Placed text d
  | offLine : d.OffLine text → Placed text d
  | cutsEscape : d.CutsEscape text → Placed text d

theorem CutsEscape.boundary (h : d.CutsEscape text) :
    IsBoundary text d.index := by
  obtain ⟨before, digits, ch, after, htext, -, -, rfl⟩ := h
  refine ⟨before ++ (['\\', 'u', '\x7b'] ++ digits ++ [ch]), after, ?_,
    byteLength_append _ _⟩
  rw [htext]
  simp

theorem Placed.boundary [NameProperties]
    (h : d.Placed text) : IsBoundary text d.index := by
  cases h with
  | accurate h => exact h.boundary
  | offLine h => exact h.boundary
  | cutsEscape h => exact h.boundary

end Diagnostic

/-- A place in the text is what the text gives for its offset. -/
theorem Position.InText.accurate {p : Position} (h : p.InText text)
    (cause : Cause) : (p.diagnose cause).Accurate text where
  boundary := h.boundary
  line := congrArg Position.line h.eq
  column := by
    have hstart := congrArg Position.lineStart h.eq
    show p.offset - p.lineStart + 1 = _
    rw [hstart]
    rfl

theorem Position.InText.placed [NameProperties]
    {p : Position} (h : p.InText text)
    (cause : Cause) : (p.diagnose cause).Placed text :=
  .accurate (h.accurate cause)

/-- What is said of a failed scan. -/
theorem Cursor.Stops.placed [NameProperties] {c : Cursor} (h : c.Stops d)
    (hc : c.StandsIn text) : d.Placed text := by
  obtain ⟨mark, hmark, hd⟩ := h
  have hs := hc.walks hmark
  rcases hd with ⟨stop, cause, hstop, rfl⟩ |
    ⟨digits, ch, rest, hrest, hdigits, hch, rfl⟩
  · exact (hs.walks hstop).inText.placed cause
  · obtain ⟨before, htext, hoffset⟩ := hs.before
    refine .cutsEscape ⟨before, digits, ch, rest, ?_, hdigits, hch, ?_⟩
    · rw [htext, hrest]
      simp
    · rw [← hoffset, ← hs.position_eq]

-- ============================================================ tokens

namespace ParseState

/-- A column that is counted from the line start of the token is right. -/
theorem accurate_diagnoseToken (ht : t.span.start.InText text)
    (hline : t.span.start.lineStart = s.last.lineStart) (cause : Cause) :
    (s.diagnoseToken t cause).Accurate text := by
  have hsame : s.diagnoseToken t cause = t.span.start.diagnose cause := by
    unfold diagnoseToken Position.diagnose
    rw [Position.column_eq, hline]
  exact hsame ▸ ht.accurate cause

/-- What is said of a token while its end was consumed last. -/
theorem Situated.placed_own [NameProperties] {start stop : Cursor}
    (hs : s.Situated text start stop) (hseen : s.lookahead.Seen text)
    (hlast : s'.last = s.lookahead.span.stop)
    (hcause : cause.isAboutToken = true) :
    (s'.diagnoseToken s.lookahead cause).Placed text := by
  have hsite := hs.inText
  by_cases hkind : s.lookahead.kind = .string
  · have hmem : s.lookahead ∈ (TokenStream.ofText text).tokens :=
      hseen.mem (by simp [Token.isEnd, hkind])
    rcases hs.stands.line_of_walks hs.walks with hline | hbreak
    · refine .accurate (accurate_diagnoseToken hsite.start ?_ cause)
      rw [hlast, hs.span]
      exact hline.symm
    · refine .offLine ⟨hcause, hsite.start.boundary,
        congrArg Position.line hsite.start.eq, _, hmem, ?_, .inl ⟨rfl, ?_⟩⟩
      · show _ - s'.last.lineStart + 1 = _
        rw [hlast, congrArg Position.lineStart hsite.stop.eq]
        rfl
      · have hspan := hs.span
        show breaksLine (textBetween text s.lookahead.span.start.offset
          s.lookahead.span.stop.offset) = true
        rw [hspan]
        exact hbreak
  · refine .accurate (accurate_diagnoseToken hsite.start ?_ cause)
    rw [hlast, hs.span]
    exact (hs.withinLine hkind).lineStart_eq.symm

/-- What is said of the lookahead. -/
theorem Trails.placed [NameProperties] (h : s.Trails text)
    (hsit : ∃ start stop, s.Situated text start stop)
    (hseen : s.lookahead.Seen text) (hcause : cause.isAboutToken = true) :
    (s.diagnoseToken s.lookahead cause).Placed text := by
  obtain ⟨start, stop, hs⟩ := hsit
  have hstart := hs.inText.start
  cases h with
  | atStart hlast =>
      exact .accurate
        (accurate_diagnoseToken hstart (by rw [hlast]) cause)
  | atStop hlast => exact hs.placed_own hseen hlast hcause
  | @after t hin hlast hgap =>
      rcases hgap.line with hline | hbreak
      · exact .accurate (accurate_diagnoseToken hstart hline cause)
      · have hplace := ((TokenStream.inText_fromCursor text.length
          (Cursor.standsIn_ofText text)).1 t hin).stop
        rw [hlast] at hbreak
        have honly := hgap.only
        rw [hlast] at honly
        refine .offLine ⟨hcause, hstart.boundary,
          congrArg Position.line hstart.eq, t, hin, ?_,
          .inr ⟨honly, hbreak⟩⟩
        show _ - s.last.lineStart + 1 = _
        rw [hlast, congrArg Position.lineStart hplace.eq]
        rfl

-- ============================================================ states

/-- A token in escapes is recorded where it starts. -/
theorem recorded_of_shift [NameProperties]
    (hrecorded : ∀ d ∈ s.log.recorded, d.Placed text)
    (hnext : s'.lookahead.span.start.InText text)
    (h : Parse.shift s = .ok t s') :
    ∀ d ∈ s'.log.recorded, d.Placed text := by
  obtain ⟨-, next, rest, log, -, haccept, rfl⟩ := Parse.shift_ok.1 h
  intro d hin
  rcases Parse.mem_of_accept haccept hin with hin | rfl
  · exact hrecorded d hin
  · exact hnext.placed _

/-- What a shift is refused for is said where a scan stops, or where a
token in escapes starts. -/
theorem Situated.placed_of_refused [NameProperties] {start stop : Cursor}
    (hs : s.Situated text start stop)
    (h : Parse.shift s = .error (.refused d) s') : d.Placed text := by
  obtain ⟨steps, hrest, hsteps⟩ := hs.rest
  have hstop := hs.stands.walks hs.walks
  unfold Parse.shift at h
  rcases hn : s.rest.next with ⟨comments, found | ⟨next, rest⟩⟩
  · rw [hn] at h
    cases h
    have hnext : s.rest.next.2 = .error d := by rw [hn]
    rw [hrest] at hnext
    exact (TokenStream.stops_fromCursor hnext).placed hstop
  · rw [hn] at h
    dsimp only at h
    have hnext : s.rest.next.2 = .ok (next, rest) := by rw [hn]
    rw [hrest] at hnext
    obtain ⟨start', stop', -, hgap, -, -, hspan, -⟩ :=
      TokenStream.next_fromCursor hsteps hnext
    split at h
    case h_1 => cases h
    case h_2 haccept =>
      cases h
      rw [Parse.accept_error haccept, hspan]
      exact (hstop.walks hgap).inText.placed _

end ParseState

open ParseState

/-- The guard that knows where diagnostics point. -/
def Guard.ofPlaces [NameProperties] (text : List Char) : Guard where
  state s := s.Traced text ∧ ∀ d ∈ s.log.recorded, d.Placed text
  token t := t.span.start.InText text
  voices := Diagnostic.Placed text
  lookahead hs := hs.1.sited.lookahead.start
  shift hs h :=
    have hnext := hs.1.shift h
    ⟨hnext, recorded_of_shift hs.2 hnext.sited.lookahead.start h⟩
  refused hs h := by
    obtain ⟨start, stop, hsit⟩ := hs.1.underway.situated
    exact hsit.placed_of_refused h
  last cause hs := hs.1.last.placed cause
  ahead hs hcause :=
    hs.1.trails.placed hs.1.underway.situated hs.1.seen hcause
  behind hs h hcause := by
    obtain ⟨start, stop, hsit⟩ := hs.1.underway.situated
    obtain ⟨rfl, next, rest, log, -, -, rfl⟩ := Parse.shift_ok.1 h
    exact hsit.placed_own hs.1.seen rfl hcause
  start cause ht := ht.placed cause
  record hs hd _ := ⟨hs.1.of_eq rfl rfl rfl rfl rfl,
    List.forall_mem_append.2 ⟨hs.2, List.forall_mem_singleton.2 hd⟩⟩
  close hs := ⟨hs.1.of_eq rfl rfl rfl rfl rfl, hs.2⟩
  extend hs := ⟨hs.1.extend, hs.2⟩

-- =========================================================== reports

/-- All that a parse has to say of its text: what it recorded, or why it
refused the text. -/
def parseDiagnostics [NameProperties] (options : Options) (text : List Char) :
    List Diagnostic :=
  match parse options text with
  | .ok report => report.errors.getD []
  | .error (.refused d) => [d]
  | .error .exhausted => []

/-- How a parse of a text ends. -/
theorem Parse.places_of_script [NameProperties]
    (depth : Nat) (text : List Char) (tolerant : Bool) :
    (Guard.ofPlaces text).Allows
      (fun _ s => ∀ d ∈ s.log.recorded, d.Placed text)
      (Parse.script (.ofDepth depth) (.ofText text tolerant)) := by
  have hends := (Guard.ofPlaces text).allows_script id depth
    (s := .ofText text tolerant) ?_ ?_
  · exact hends.imp fun _ _ h => h.2.2
  · intro u hskip
    have htraced := Traced.of_skip hskip
    have hrecorded : ∀ d ∈ u.log.recorded, d.Placed text :=
      recorded_of_shift (List.forall_mem_nil _)
        htraced.sited.lookahead.start (Parse.skip_ok.1 hskip)
    exact ⟨htraced, hrecorded⟩
  · intro d u hrefused
    exact (situated_ofText text tolerant).placed_of_refused hrefused

/-- All diagnostics of a parse point into the text, between two of its
characters. The line and the column are those of the place, unless a line
break stands between what is objected to and the end of the last consumed
token, or has cut off an escape. -/
theorem diagnostics_of_parse [NameProperties]
    (options : Options) (text : List Char)
    (d : Diagnostic) (hin : d ∈ parseDiagnostics options text) :
    IsBoundary text d.index ∧ d.index ≤ byteLength text ∧
      (d.Accurate text ∨ d.OffLine text ∨ d.CutsEscape text) := by
  have hplaced : d.Placed text := by
    have hends := Parse.places_of_script (text.length + 1) text
      options.tolerant
    unfold parseDiagnostics at hin
    rw [parse_eq_report ⟨_, Arithmetic.exact_plain⟩] at hin
    unfold parseText at hin
    cases hend : Parse.script (.ofDepth (text.length + 1))
        (.ofText text options.tolerant) with
    | ok script s =>
        rw [hend] at hends
        cases hends with
        | ok hs =>
            simp only [hend, Except.map, Options.report, optionally] at hin
            split at hin
            · exact hs d hin
            · cases hin
    | error failure s =>
        rw [hend] at hends
        simp only [hend, Except.map] at hin
        cases hends with
        | refused hd =>
            rw [List.mem_singleton.1 hin]
            exact hd
        | exhausted => cases hin
  refine ⟨hplaced.boundary, hplaced.boundary.le_byteLength, ?_⟩
  cases hplaced with
  | accurate h => exact .inl h
  | offLine h => exact .inr (.inl h)
  | cutsEscape h => exact .inr (.inr h)

/-- An escape that a line feed cuts off is reported behind the line feed,
on the line in front of it. -/
example : parseDiagnostics {} "'\\u\x7b1\n'".toList
    = [⟨6, 1, 7, .illegalToken⟩] := by decide +kernel

/-- A token on a second line, after another one on that line. -/
theorem diagnostics_of_parse_second_line :
    let text := "x\n  y z".toList
    let d : Diagnostic := ⟨6, 2, 5, .unexpectedIdentifier⟩
    d ∈ parseDiagnostics {} text ∧ IsBoundary text d.index ∧
      d.index ≤ byteLength text ∧
      (d.Accurate text ∨ d.OffLine text ∨ d.CutsEscape text) := by
  intro text d
  have hsaid : parseDiagnostics {} text = [d] := by decide +kernel
  have hin : d ∈ parseDiagnostics {} text := by
    rw [hsaid]
    exact List.mem_cons_self
  exact ⟨hin, diagnostics_of_parse {} text d hin⟩

/-- The end of a text after a line break is reported with its offset and
its line, and with the column that it would have on the line before. -/
theorem diagnostic_off_line :
    ¬∀ (options : Options) (text : List Char) (d : Diagnostic),
      d ∈ parseDiagnostics options text → d.Accurate text := by
  intro hall
  have hsaid : parseDiagnostics {} "while (a)\n".toList
      = [⟨10, 2, 11, .unexpectedEnd⟩] := by decide +kernel
  have hin : ⟨10, 2, 11, .unexpectedEnd⟩
      ∈ parseDiagnostics {} "while (a)\n".toList := by
    rw [hsaid]
    exact List.mem_cons_self
  have hcolumn := (hall _ _ _ hin).column
  revert hcolumn
  decide

end ScriptTree
