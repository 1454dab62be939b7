/-
Where a line break ends a statement or an expression.

# Restricted productions

A value that is returned or thrown, the label of a jump and an operator
after a variable belong to what stands in front of them only on the same
line. Each of these places of the grammar looks at the line break that
was seen in front of the lookahead. What a guard knows of neighbors
(`Guard.ofNeighbors`) therefore holds of the parts that are made there,
at every depth of a tree (`sameLine_of_parse`).

# The exception

A string may follow the word `return` on a later line, and is returned
then (`returns_string_on_next_line`).
-/
import ScriptTree.Proofs.Adjacent
import ScriptTree.Source.NameRanges

namespace ScriptTree

variable {text : List Char}

/-- Where a part is made only on one line, there is no line terminator
between the token that it starts with, or the one in front of its
operator, and the next. That next token is the label of a jump, the
operator of an update, or the first token of a value; a string may be
returned from another line. -/
def Part.KeepsLine [NameProperties] (text : List Char) : Part Span → Prop
  | .expression (.update operator _ false place) =>
    ∃ t u : Token, t.Precedes text u ∧ t.OnLineOf text u ∧
      u.updateOperator? = some operator ∧ u.span.stop = place.stop
  | .statement (.breaking (some id) place)
  | .statement (.continuing (some id) place) =>
    ∃ t u : Token, t.Precedes text u ∧ t.OnLineOf text u ∧
      t.span.start = place.start ∧ u.span = id.place
  | .statement (.returning (some _) place) =>
    ∃ t u : Token, t.Precedes text u ∧
      (t.OnLineOf text u ∨ u.kind = .string) ∧ t.span.start = place.start
  | .statement (.throwing _ place) =>
    ∃ t u : Token, t.Precedes text u ∧ t.OnLineOf text u ∧
      t.span.start = place.start
  | _ => True

namespace Guard

/-- The guard that knows which tokens are neighbors, and which of them
are on one line. -/
def ofNeighbors [NameProperties] (text : List Char) : Guard where
  state := ParseState.Holds text
  token _ := True
  voices _ := True
  lookahead _ := trivial
  shift hs h := hs.shift h
  refused _ _ := trivial
  last _ _ := trivial
  ahead _ _ := trivial
  behind _ _ _ := trivial
  start _ _ := trivial
  record hs _ _ := hs.of_eq rfl rfl rfl rfl
  close hs := hs.of_eq rfl rfl rfl rfl
  extend hs := hs.of_eq rfl rfl rfl rfl
  follows t u newLine :=
    (u.isEnd = false → t.Precedes text u) ∧
      (newLine = false → t.OnLineOf text u)
  next hs h :=
    ⟨hs.precedes_of_shift h, hs.underway.sameLine_of_shift h⟩

theorem Labels.keepsLine [NameProperties]
    {label : Identifier Span} {place : Span}
    (h : (ofNeighbors text).Labels id label place) :
    ∃ t u : Token, t.Precedes text u ∧ t.OnLineOf text u ∧
      t.span.start = place.start ∧ u.span = label.place := by
  obtain ⟨t, u, ⟨⟨hnext, hline⟩, hopen, stop, rfl⟩, hlabel⟩ := h
  exact ⟨t, u, hnext hopen, hline rfl, rfl, hlabel.symm⟩

/-- What is made where line breaks are seen keeps its line. -/
theorem Made.keepsLine [NameProperties] {part : Part Span}
    (h : (ofNeighbors text).Made id part) :
    part.KeepsLine text := by
  cases part with
  | name _ | function _ | parameter _ | declaration _ => trivial
  | expression e =>
      cases e with
      | update operator argument before place =>
          cases before with
          | true => trivial
          | false =>
              obtain ⟨t, u, start, ⟨hnext, hline⟩, hoperator, rfl⟩ := h
              have hopen := Concord.not_isEnd_of_updateOperator? hoperator
              exact ⟨t, u, hnext hopen, hline rfl, hoperator, rfl⟩
      | _ => trivial
  | statement s =>
      cases s with
      | breaking label place | continuing label place =>
          cases label with
          | none => trivial
          | some id => exact Labels.keepsLine h
      | returning argument place =>
          cases argument with
          | none => trivial
          | some e =>
              obtain ⟨t, u, newLine, ⟨⟨hnext, hline⟩, hopen, stop, rfl⟩,
                hvalue⟩ := h
              exact ⟨t, u, hnext hopen, hvalue.imp_left hline, rfl⟩
      | throwing argument place =>
          obtain ⟨t, u, ⟨⟨hnext, hline⟩, hopen, stop, rfl⟩⟩ := h
          exact ⟨t, u, hnext hopen, hline rfl, rfl⟩
      | _ => trivial

end Guard

/-- In the tree of every text that parses, whatever is tolerated and at
every depth: no line terminator stands between `break` or `continue` and
a label, between `throw` and a value, between a variable and an operator
after it, or between `return` and a value that does not start with a
string. -/
theorem sameLine_of_parse [NameProperties]
    (options : Options) (text : List Char)
    (report : Report) (h : parse options text = .ok report) :
    ∃ script, (parseText options.tolerant text).result = .ok script ∧
      report.script = script.map options.locate ∧
      ∀ part ∈ script.parts, part.KeepsLine text := by
  obtain ⟨script, s, hs, rfl⟩ := parse_ok.1 h
  have hresult : (parseText options.tolerant text).result = .ok script := by
    simp only [parseText, hs]
  refine ⟨script, hresult, rfl, ?_⟩
  have hends := (Guard.ofNeighbors text).allows_script id (text.length + 1)
    (s := .ofText text options.tolerant) ?_ ?_
  · rw [hs] at hends
    cases hends with
    | ok hmade =>
        have hmade := hmade.1
        rw [Script.map_id] at hmade
        exact fun part hpart => (hmade part hpart).keepsLine
  · exact fun u hskip =>
      (ParseState.Holds.of_skip hskip).of_eq rfl rfl rfl rfl
  · exact fun _ _ _ => trivial

/-- A jump to a label, an update that is returned, and a value that is
thrown. -/
theorem sameLine_of_parse_nested :
    let text := ("def f() \x7ba: for (;;) \x7bbreak a\x7d\n" ++
      "return x++\x7d\nthrow f").toList
    ∃ report script, parse {} text = .ok report ∧
      (parseText false text).result = .ok script ∧
      (∀ part ∈ script.parts, part.KeepsLine text) ∧
      report.script.parts.length = 16 := by
  intro text
  have hshown : (parse {} text).toOption.map (·.script.parts.length)
      = some 16 := by
    decide +kernel
  obtain ⟨report, h, hlength⟩ := exists_report hshown
  obtain ⟨script, hscript, -, hkeeps⟩ := sameLine_of_parse {} text report h
  exact ⟨report, script, h, hscript, hkeeps, hlength⟩

-- ============================================================== strings

/-- The places of the statements that return a value. -/
def Script.returns {π : Type} (script : Script π) : List π :=
  script.parts.filterMap fun
    | .statement (.returning (some _) place) => some place
    | _ => none

theorem Script.mem_returns {π : Type} {script : Script π} {place : π}
    (h : place ∈ script.returns) :
    ∃ e, .statement (.returning (some e) place) ∈ script.parts := by
  obtain ⟨part, hpart, heq⟩ := List.mem_filterMap.1 h
  split at heq
  case h_1 e place' =>
    cases heq
    exact ⟨e, hpart⟩
  case h_2 => cases heq

/-- Neighbors on a list are met one after the other. -/
theorem mem_zip_tail_of_neighbors {α : Type} {a b : α} {l : List α}
    (h : [a, b] <:+: l) : (a, b) ∈ l.zip l.tail := by
  obtain ⟨front, back, rfl⟩ := h
  induction front with
  | nil => simp
  | cons c front ih =>
      cases front with
      | nil => simp
      | cons c' front => exact List.mem_cons_of_mem _ ih

/-- A string on the line after `return` is returned. -/
theorem returns_string_on_next_line :
    ¬∀ (options : Options) (text : List Char) (report : Report)
        (script : Script Span) (e : Expression Span) (place : Span),
      parse options text = .ok report →
      (parseText options.tolerant text).result = .ok script →
      .statement (.returning (some e) place) ∈ script.parts →
      ∃ t u : Token, t.Precedes text u ∧ t.OnLineOf text u ∧
        t.span.start = place.start := by
  intro hall
  let text := "def f() \x7b return\n'x' \x7d".toList
  have hparses : (parse {} text).toOption.map (fun _ => ()) = some () := by
    decide +kernel
  have hreturns : (parseText false text).result.toOption.map Script.returns
      = some [⟨⟨10, 1, 0⟩, ⟨21, 2, 17⟩⟩] := by
    decide +kernel
  obtain ⟨report, hreport, -⟩ := exists_report hparses
  obtain ⟨script, hscript, hplaces⟩ := exists_ok hreturns
  have hreturn : (⟨⟨10, 1, 0⟩, ⟨21, 2, 17⟩⟩ : Span) ∈ script.returns := by
    rw [hplaces]
    exact List.mem_singleton_self _
  obtain ⟨e, hin⟩ := Script.mem_returns hreturn
  obtain ⟨t, u, hnext, hline, hstart⟩ :=
    hall {} text report script e _ hreport hscript hin
  have hbreak : ∀ pair ∈ (TokenStream.ofText text).tokens.zip
        (TokenStream.ofText text).tokens.tail,
      pair.1.span.start = ⟨10, 1, 0⟩ → breaksLine (textBetween text
        pair.1.span.stop.offset pair.2.span.start.offset) = true := by
    decide +kernel
  have hbroken := hbreak _ (mem_zip_tail_of_neighbors hnext) hstart
  rw [Token.OnLineOf, hbroken] at hline
  cases hline

end ScriptTree
