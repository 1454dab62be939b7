/-
What stands between tokens does not matter to a parse, line breaks apart.

Texts with the same tokens, of which the same ones end their lines, have
the same words ahead (`wordsFrom_eq_of_tokenList`). From states with the
same words ahead runs of the grammar are in concord (`Concord.ofWords`):
nothing that they look at is different, but for places, and on these
nothing depends. So such texts are scripts that differ in places only, or
are refused for the same cause (`parse_of_same_tokens`).
-/
import ScriptTree.Proofs.Layout
import ScriptTree.Proofs.Presentation
import ScriptTree.Proofs.Underway
import ScriptTree.Source.NameRanges

namespace ScriptTree

-- ============================================================ tokens

/-- Places apart, tokens look the same if they are. -/
theorem Token.view_eq_of_bare {t t' : Token} (h : t'.bare = t.bare) :
    t'.view (fun _ => ()) = t.view fun _ => () := by
  unfold bare at h
  simp only [mk.injEq] at h
  obtain ⟨hkind, hvalue, hraw, -⟩ := h
  unfold view
  rw [hkind, hvalue, hraw]

open View in
theorem Token.startsBinding_eq {ω : Type} {observe : Position → ω}
    {t t' : Token} (h : t'.view observe = t.view observe) :
    t'.startsBinding = t.startsBinding := by
  unfold startsBinding
  rw [kind_eq h, isPunctuator_eq h, isPunctuator_eq h, isKeyword_eq h]

/-- There are as many words as tokens, and the end of the text. -/
theorem TokenStream.wordsFrom_length {stream : TokenStream}
    (h : stream.Readable) (line : Option Nat) :
    (stream.wordsFrom line).length = stream.tokens.length + 1 := by
  induction stream generalizing line with
  | token _ _ _ ih => exact congrArg (· + 1) (ih h.2 _)
  | done _ _ => rfl
  | illegal _ _ => exact absurd h id

-- ============================================================ states

namespace ParseState

variable {b : Bool} {s s' : ParseState}

/-- States with the same words ahead, in which the same causes were
recorded. With `true` their lookaheads are compared in whether they start
on new lines. -/
structure Resembles (b : Bool) (s s' : ParseState) : Prop where
  lookahead : s'.lookahead.bare = s.lookahead.bare
  words : s'.rest.wordsFrom (some s'.lookahead.span.start.line)
    = s.rest.wordsFrom (some s.lookahead.span.start.line)
  readable : s.rest.Readable
  readable' : s'.rest.Readable
  ends : s.Ends
  lineBreak : b = true → s'.lineBreak = s.lineBreak
  tolerant : s'.log.tolerant = s.log.tolerant
  causes : s'.log.recorded.map Diagnostic.cause
    = s.log.recorded.map Diagnostic.cause

/-- A shift from states with the same words ahead goes to such states. -/
theorem resembles_of_shift {line line' : Option Nat}
    (hread : s.rest.Readable) (hread' : s'.rest.Readable)
    (hwords : s'.rest.wordsFrom line' = s.rest.wordsFrom line)
    (htolerant : s'.log.tolerant = s.log.tolerant)
    (hcauses : s'.log.recorded.map Diagnostic.cause
      = s.log.recorded.map Diagnostic.cause) :
    ∃ u u', Parse.shift s = .ok s.lookahead u ∧
      Parse.shift s' = .ok s'.lookahead u' ∧ u.Resembles false u' ∧
      (line = some s.lookahead.span.start.line →
        line' = some s'.lookahead.span.start.line →
          u'.lineBreak = u.lineBreak) := by
  obtain ⟨t, t', rest, rest', hn, hn', hrest, hrest', hplain, hplain',
    hbare, hline, hmore⟩ := hread.next_eq hread' hwords
  obtain ⟨-, -, -, hends⟩ := hread.formed.next_parts hn
  refine ⟨_, _, shift_of_next hn hplain, shift_of_next hn' hplain',
    ⟨hbare, hmore, hrest, hrest', hends, fun hb => absurd hb Bool.false_ne_true,
      htolerant, hcauses⟩, ?_⟩
  rintro rfl rfl
  exact hline

theorem Resembles.shift (h : s.Resembles b s') :
    ∃ u u', Parse.shift s = .ok s.lookahead u ∧
      Parse.shift s' = .ok s'.lookahead u' ∧ u.Resembles true u' := by
  obtain ⟨u, u', hu, hu', hsame, hline⟩ := resembles_of_shift h.readable
    h.readable' h.words h.tolerant h.causes
  exact ⟨u, u', hu, hu', { hsame with lineBreak := fun _ => hline rfl rfl }⟩

/-- Nothing but places is different after the lookaheads. -/
theorem Resembles.bindingAhead (h : s.Resembles b s')
    (onSameLine : Bool) :
    ∃ c, Parse.bindingAhead onSameLine s = .ok c s ∧
      Parse.bindingAhead onSameLine s' = .ok c s' := by
  obtain ⟨t, t', rest, rest', hn, hn', -, -, hplain, hplain', hbare, hline,
    -⟩ := h.readable.next_eq h.readable' h.words
  have haccept {log : DiagnosticLog} {t : Token}
      (hplain : t.isEscapedReserved = false) : log.accept t = .ok log :=
    Parse.accept_ok.2 (by simp [hplain])
  have hstarts := Token.startsBinding_eq (Token.view_eq_of_bare hbare)
  have hsame : decide (t'.span.start.line = s'.lookahead.span.start.line)
      = decide (t.span.start.line = s.lookahead.span.start.line) := by
    rw [Option.any_some, Option.any_some, decide_eq_decide] at hline
    have hequal := Decidable.not_iff_not.1 hline
    exact decide_eq_decide.2 (eq_comm.trans (hequal.trans eq_comm))
  refine ⟨_, Parse.bindingAhead_ok.2 ⟨rfl, t, rest, _, hn, haccept hplain,
    rfl⟩, Parse.bindingAhead_ok.2 ⟨rfl, t', rest', _, hn',
      haccept hplain', ?_⟩⟩
  rw [hstarts, hsame]

/-- As many tokens are ahead in both. -/
theorem Resembles.ahead_eq (h : s.Resembles b s') : s'.ahead = s.ahead := by
  have hlength := congrArg List.length h.words
  rw [TokenStream.wordsFrom_length h.readable,
    TokenStream.wordsFrom_length h.readable'] at hlength
  unfold ahead
  rw [View.isEnd_eq (Token.view_eq_of_bare h.lookahead), hlength]

end ParseState

-- ============================================================ concord

/-- Runs from states with the same words ahead, compared in all but
places. -/
def Concord.ofWords : Concord Unit Unit Cause where
  observe _ := ()
  place _ := ()
  report := Diagnostic.cause
  place_eq _ _ := rfl
  start_of_place _ := rfl
  report_diagnose _ := rfl
  Related := ParseState.Resembles
  Failed _ _ := True
  forget h := { h with lineBreak := fun hb => absurd hb Bool.false_ne_true }
  failed _ := trivial
  lookahead h := Token.view_eq_of_bare h.lookahead
  lineBreak h := h.lineBreak rfl
  last _ := rfl
  tolerant h := h.tolerant
  report_diagnoseToken _ _ := rfl
  shift {b s s'} h := by
    obtain ⟨u, u', hu, hu', hsame⟩ := h.shift
    obtain ⟨hle, hlt⟩ :=
      ParseState.ahead_of_shift h.readable.formed h.ends hu
    exact .inl ⟨u, u', hu, hu', hsame, hle, hlt⟩
  bindingAhead {b s s' onSameLine} h := .inl (h.bindingAhead onSameLine)
  close h _ := ⟨h.lookahead, h.words, h.readable, h.readable', h.ends,
    h.lineBreak, h.tolerant, h.causes⟩
  record {b s s' d d'} h _ hd := by
    refine ⟨h.lookahead, h.words, h.readable, h.readable', h.ends,
      h.lineBreak, h.tolerant, ?_⟩
    show (_ ++ [d']).map _ = (_ ++ [d]).map _
    rw [List.map_append, List.map_append, h.causes, List.map_singleton,
      List.map_singleton, hd]
  extend h := ⟨h.lookahead, h.words, h.readable, h.readable', h.ends,
    h.lineBreak, h.tolerant, h.causes⟩

-- ============================================================ reports

/-- A report without places, and its errors in words. -/
def Report.worded (report : Report) :
    Script Unit × Option (List String) :=
  (report.script.map fun _ => (),
    report.errors.map (List.map Diagnostic.description))

theorem Options.worded_report (options : Options) (script : Script Span)
    (s : ParseState) :
    (options.report script s).worded
      = (script.map fun _ => (), optionally options.tolerant
          ((s.log.recorded.map Diagnostic.cause).map
            Cause.description)) := by
  have hunplaced := options.unplaced_report script s
  rw [Report.unplaced, Prod.mk.injEq] at hunplaced
  unfold Report.worded
  rw [hunplaced.1, hunplaced.2, List.map_map]
  unfold optionally
  cases options.tolerant with
  | true => rfl
  | false => rfl

/-- Two parses that come to the same end, places apart: scripts with the
same errors, or refusals in the same words. -/
def SameEnd (result result' : Except Failure Report) : Prop :=
  (∃ report report', result = .ok report ∧ result' = .ok report' ∧
    report'.worded = report.worded) ∨
  ∃ d d', result = .error (.refused d) ∧ result' = .error (.refused d') ∧
    d'.description = d.description

/-- Runs in concord are parses that come to the same end. -/
theorem sameEnd_of_alike [NameProperties]
    {options : Options} {text text' : List Char} {b o : Bool} {n : Nat}
    (h : Concord.ofWords.Alike (Concord.ofWords.At b o n)
      (Script.map fun _ => ())
      (Parse.script (.ofDepth (text.length + 1))
        (.ofText text options.tolerant))
      (Parse.script (.ofDepth (text'.length + 1))
        (.ofText text' options.tolerant))) :
    SameEnd (parse options text) (parse options text') := by
  rw [parse_eq_report ⟨_, Arithmetic.exact_plain⟩,
    parse_eq_report ⟨_, Arithmetic.exact_plain⟩]
  unfold parseText
  simp only
  revert h
  generalize Parse.script _ (.ofText text options.tolerant) = r
  generalize Parse.script _ (.ofText text' options.tolerant) = r'
  intro h
  cases h with
  | @ok script script' u u' hscript hu =>
      refine .inl ⟨_, _, rfl, rfl, ?_⟩
      rw [options.worded_report, options.worded_report, hscript,
        hu.related.causes]
  | @refused d d' u u' hcause _ =>
      exact .inr ⟨d, d', rfl, rfl, congrArg Cause.description hcause⟩

/-- Blanks and comments do not matter to a parse. Texts of which the
strict token lists are the same in kind and text, and in where there is a
line terminator after a token, come to the same end under all options. -/
theorem parse_of_same_tokens [NameProperties]
    (options : Options) (text text' : List Char)
    (list list' : TokenList) (h : tokenList {} text = .ok list)
    (h' : tokenList {} text' = .ok list')
    (hwritten : list'.entries.map TokenEntry.written
      = list.entries.map TokenEntry.written)
    (hbreaks : breaksAfter text' (list'.entries.map TokenEntry.span)
      = breaksAfter text (list.entries.map TokenEntry.span)) :
    SameEnd (parse options text) (parse options text') := by
  have hwords := wordsFrom_eq_of_tokenList h h' hwritten hbreaks
  obtain ⟨hread, -⟩ := tokenList_readable h
  obtain ⟨hread', -⟩ := tokenList_readable h'
  let start := ParseState.ofText text options.tolerant
  let start' := ParseState.ofText text' options.tolerant
  -- The line breaks in front of the first tokens may differ.
  obtain ⟨u, u', hu, hu', hsame, -⟩ :
      ∃ u u', Parse.shift start = .ok start.lookahead u ∧
        Parse.shift start' = .ok start'.lookahead u' ∧
        u.Resembles false u' ∧ _ :=
    ParseState.resembles_of_shift hread hread' hwords rfl rfl
  have hskip : Parse.skip start = .ok () u := Parse.skip_ok.2 hu
  have hskip' : Parse.skip start' = .ok () u' := Parse.skip_ok.2 hu'
  have hahead := (ParseState.underway_of_skip hskip).ahead_le
  have hahead' := (ParseState.underway_of_skip hskip').ahead_le
  rw [hsame.ahead_eq] at hahead'
  have hlevels := Concord.levels_ofDepth Concord.ofWords
    (Nat.succ_le_succ hahead) (Nat.succ_le_succ hahead')
  have hat : Concord.ofWords.At false false (u.ahead + 1)
      { u with last := u.lookahead.span.stop }
      { u' with last := u'.lookahead.span.stop } :=
    ⟨⟨hsame.lookahead, hsame.words, hsame.readable, hsame.readable',
      hsame.ends, hsame.lineBreak, hsame.tolerant, hsame.causes⟩,
      Nat.lt_succ_self _, fun ho => absurd ho Bool.false_ne_true⟩
  have hstart : Concord.ofWords.observe u'.lookahead.span.start
      = Concord.ofWords.observe u.lookahead.span.start := rfl
  apply sameEnd_of_alike
  rw [Parse.script_of_skip hskip, Parse.script_of_skip hskip']
  exact Concord.agrees_scriptBody hlevels hstart hat

/-- A fault in a call, which may be tolerated, and a statement that ends
with its line. -/
theorem parse_of_same_tokens_call :
    let text := "f(a b)\ng".toList
    let text' := "// c\n f ( a   b ) // d\n\n g //".toList
    ∃ list list', tokenList {} text = .ok list ∧
      tokenList {} text' = .ok list' ∧
      list'.entries.map TokenEntry.written
        = list.entries.map TokenEntry.written ∧
      breaksAfter text' (list'.entries.map TokenEntry.span)
        = breaksAfter text (list.entries.map TokenEntry.span) ∧
      SameEnd (parse .tolerating text) (parse .tolerating text') ∧
      SameEnd (parse {} text) (parse {} text') ∧
      ∃ report, parse .tolerating text = .ok report ∧
        report.worded.2 = some ["Unexpected token b"] := by
  intro text text'
  have hlength : (tokenList {} text).toOption.map (·.entries.length)
      = some 6 := by
    decide +kernel
  obtain ⟨list, hlist, -⟩ := exists_ok hlength
  have hsame : (tokenList {} text').toOption.map (fun list =>
        (list.entries.map TokenEntry.written,
          breaksAfter text' (list.entries.map TokenEntry.span)))
      = (tokenList {} text).toOption.map fun list =>
        (list.entries.map TokenEntry.written,
          breaksAfter text (list.entries.map TokenEntry.span)) := by
    decide +kernel
  rw [hlist] at hsame
  obtain ⟨list', hlist', hlayout⟩ := exists_ok hsame
  obtain ⟨hwritten, hbreaks⟩ := Prod.mk.inj hlayout
  have hends (options : Options) :=
    parse_of_same_tokens options text text' list list' hlist hlist'
      hwritten hbreaks
  have hreport : (parse .tolerating text).toOption.map (·.worded.2)
      = some (some ["Unexpected token b"]) := by
    decide +kernel
  exact ⟨list, list', hlist, hlist', hwritten, hbreaks, hends .tolerating,
    hends {}, exists_report hreport⟩

end ScriptTree
