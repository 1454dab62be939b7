/-
A tolerant parse that records nothing is a strict parse.

# Logs

If nothing is recorded at the end of a run, nothing was recorded anywhere
on the way (`DiagnosticLog.Extends`), and each step was one that a strict
log and a tolerant one take alike.

# Lock step

`otherTolerance` relates two states that differ in their tolerance alone
and have recorded nothing. Ends of interest are those with nothing
recorded. There are three places where the grammar branches on tolerance
or looks at a token that is not consumed: the separator of arguments,
the end of the head of a statement, and the look beyond the lookahead.
The last one is the delicate one, as it discards what it would record;
but a run that goes on to consume the lookahead meets the same token
again and records it then.
-/
import ScriptTree.Proofs.Log
import ScriptTree.Proofs.Refinement.Script
import ScriptTree.Proofs.Simulation.Statement
import ScriptTree.Source.NameRanges

namespace ScriptTree

variable {s s' t u : ParseState} {b : Bool}

namespace ParseState

/-- A run with nothing recorded in the end consumes no token that calls
for a record. -/
theorem Passes.not_escaped (h : s.Passes u) (hu : u.log.recorded = [])
    {next : Token} {rest : TokenStream}
    (hn : s.rest.next.2 = .ok (next, rest)) :
    next.isEscapedReserved = false := by
  obtain ⟨t, s₁, s₂, hstay, hshift, hr⟩ := h
  obtain ⟨-, next', rest', log, hn', hl, rfl⟩ := Parse.shift_ok.1 hshift
  rw [hstay.rest, hn] at hn'
  cases hn'
  have hlog : log.recorded = [] := hr.log.recorded_nil hu
  have hl := Parse.accept_ok.1 hl
  split at hl
  case isTrue =>
    obtain ⟨-, rfl⟩ := hl
    simp [DiagnosticLog.record] at hlog
  case isFalse he => simpa using he

end ParseState

-- ================================================== tolerant branches

namespace Parse

/-- Nothing is recorded at a comma alone. -/
theorem argumentSeparator_ok_of_recorded_nil
    (h : argumentSeparator s = .ok () u) (hu : u.log.recorded = []) :
    s.lookahead.isPunctuator "," = true ∧ skip s = .ok () u := by
  unfold argumentSeparator at h
  rw [isTolerant_bind] at h
  have hobject {p p' : ParseState} {t : Token} {cause : Cause}
      (ho : objectTo t cause p = .ok () p') : p'.log.recorded ≠ [] := by
    obtain ⟨-, rfl⟩ := tolerate_ok.1 ho
    simp [DiagnosticLog.record]
  split at h
  · rw [lookahead_bind] at h
    split at h
    case isTrue hcomma => exact ⟨hcomma, h⟩
    case isFalse =>
      split at h
      · obtain ⟨_, s₁, -, ho⟩ := bind_ok.1 h
        exact absurd hu (hobject ho)
      · exact absurd hu (hobject h)
  · exact expect_ok.1 h

/-- A comma is a separator for any log. -/
theorem argumentSeparator_of_comma
    (hcomma : s.lookahead.isPunctuator "," = true)
    (h : skip s = .ok () u) : argumentSeparator s = .ok () u := by
  unfold argumentSeparator
  rw [isTolerant_bind]
  split
  · rw [lookahead_bind, if_pos hcomma]
    exact h
  · exact expect_ok.2 ⟨hcomma, h⟩

/-- Nothing is recorded where the parenthesis is not missing, and
nothing is consumed there. -/
theorem missingParenthesis_ok_of_recorded_nil
    (h : missingParenthesis s = .ok b u) (hu : u.log.recorded = []) :
    b = false ∧ u = s := by
  unfold missingParenthesis at h
  rw [isAt_bind, isTolerant_bind] at h
  split at h
  · exact pure_ok.1 h
  · obtain ⟨t, s₁, -, h⟩ := bind_ok.1 h
    obtain ⟨_, s₂, ho, h⟩ := bind_ok.1 h
    obtain ⟨-, rfl⟩ := pure_ok.1 h
    obtain ⟨-, rfl⟩ := tolerate_ok.1 ho
    simp [DiagnosticLog.record] at hu

theorem missingParenthesis_of_parenthesis
    (h : s.lookahead.isPunctuator ")" = true) :
    missingParenthesis s = .ok false s := by
  unfold missingParenthesis
  rw [isAt_bind, isTolerant_bind, h]
  rfl

end Parse

-- ========================================================= lock step

/-- Two states of which one is tolerant where the other is not, and
nothing is recorded in either. -/
structure OtherTolerance (b : Bool) (s s' : ParseState) : Prop where
  log : s.log = ⟨b, []⟩
  other : s' = { s with log := ⟨!b, []⟩ }

namespace OtherTolerance

/-- A shift with nothing recorded meets no word in escapes. -/
theorem shift (h : OtherTolerance b s s')
    (hs : Parse.shift s = .ok s.lookahead u) (hu : u.log.recorded = []) :
    ∃ u', Parse.shift s' = .ok s'.lookahead u' ∧ OtherTolerance b u u' := by
  obtain ⟨-, next, rest, log, hn, hl, rfl⟩ := Parse.shift_ok.1 hs
  have hpass : s.Passes ({ s.pass s.rest.next.1 with log }.consume next
      rest) := Parse.advances_shift hs
  have he := hpass.not_escaped hu hn
  obtain rfl : log = s.log := by simpa [he] using Parse.accept_ok.1 hl
  obtain ⟨hlog, rfl⟩ := h
  refine ⟨_, Parse.shift_ok.2 ⟨rfl, next, rest, ⟨!b, []⟩, hn, ?_, rfl⟩,
    hlog, rfl⟩
  exact Parse.accept_ok.2 (by simp [he])

theorem skip (h : OtherTolerance b s s') (hs : Parse.skip s = .ok () u)
    (hu : u.log.recorded = []) :
    ∃ u', Parse.skip s' = .ok () u' ∧ OtherTolerance b u u' := by
  obtain ⟨u', hs', hu'⟩ := h.shift (Parse.skip_ok.1 hs) hu
  exact ⟨u', Parse.skip_ok.2 hs', hu'⟩

theorem bindingAhead (h : OtherTolerance b s s') {onSameLine c : Bool}
    (hb : Parse.bindingAhead onSameLine s = .ok c s) (hp : s.Passes u)
    (hu : u.log.recorded = []) :
    Parse.bindingAhead onSameLine s' = .ok c s' := by
  obtain ⟨-, next, rest, log, hn, -, hc⟩ := Parse.bindingAhead_ok.1 hb
  have he := hp.not_escaped hu hn
  obtain ⟨-, rfl⟩ := h
  refine Parse.bindingAhead_ok.2 ⟨rfl, next, rest, ⟨!b, []⟩, hn, ?_, hc⟩
  exact Parse.accept_ok.2 (by simp [he])

theorem argumentSeparator (h : OtherTolerance b s s')
    (hs : Parse.argumentSeparator s = .ok () u)
    (hu : u.log.recorded = []) :
    ∃ u', Parse.argumentSeparator s' = .ok () u' ∧
      OtherTolerance b u u' := by
  obtain ⟨hcomma, hskip⟩ :=
    Parse.argumentSeparator_ok_of_recorded_nil hs hu
  obtain ⟨u', hskip', hu'⟩ := h.skip hskip hu
  refine ⟨u', Parse.argumentSeparator_of_comma ?_ hskip', hu'⟩
  rw [h.other]
  exact hcomma

theorem missingParenthesis (h : OtherTolerance b s s') {c : Bool}
    (hs : Parse.missingParenthesis s = .ok c u)
    (hu : u.log.recorded = [])
    (hclose : c = false → u.lookahead.isPunctuator ")" = true) :
    ∃ u', Parse.missingParenthesis s' = .ok c u' ∧
      OtherTolerance b u u' := by
  obtain ⟨rfl, rfl⟩ := Parse.missingParenthesis_ok_of_recorded_nil hs hu
  refine ⟨s', Parse.missingParenthesis_of_parenthesis ?_, h⟩
  rw [h.other]
  exact hclose rfl

end OtherTolerance

/-- Runs of the grammar that differ in tolerance, as long as nothing is
recorded. -/
def otherTolerance (options : Options) (b : Bool) :
    Simulation Position Location where
  observe := id
  place := options.locate
  place_eq {p q} hstart hstop := by
    cases p
    cases q
    cases hstart
    cases hstop
    rfl
  Related := OtherTolerance b
  Fine u := u.log.recorded = []
  fine_of_reaches _ _ hu h := hu.log.recorded_nil h
  lookahead h := by rw [h.other]
  lineBreak h := by rw [h.other]
  last h := by rw [h.other]
  shift h hs hu := h.shift hs hu
  close {s s' kind start start'} h hstart := by
    obtain ⟨hlog, rfl⟩ := h
    obtain rfl : start' = start := hstart
    exact ⟨hlog, rfl⟩
  standAt {s s' p p'} h hp := by
    obtain ⟨hlog, rfl⟩ := h
    obtain rfl : p' = p := hp
    exact ⟨hlog, rfl⟩
  tolerate {s s' u d d'} h _ ht hu := by
    obtain ⟨-, rfl⟩ := Parse.tolerate_ok.1 ht
    simp [DiagnosticLog.record] at hu
  bindingAhead h hb hp hu := h.bindingAhead hb hp hu
  argumentSeparator h hs hu := h.argumentSeparator hs hu
  missingParenthesis h hs hu hclose := h.missingParenthesis hs hu hclose

-- ===================================================== whole scripts

/-- A script that parses with nothing recorded parses with the other
tolerance as well, to the same end. -/
theorem parseScript_otherTolerance [NameProperties]
    (options : Options) {text : List Char} {n : Nat} {script : Script Span}
    (h : Parse.script (.ofDepth n) (.ofText text b) = .ok script s)
    (hs : s.log.recorded = []) :
    ∃ script' s', Parse.script (.ofDepth n) (.ofText text !b)
        = .ok script' s' ∧
      script'.map options.locate = script.map options.locate ∧
      OtherTolerance b s s' := by
  have hstart : OtherTolerance b (.ofText text b) (.ofText text !b) :=
    ⟨rfl, rfl⟩
  have hsim := Simulation.advances_script
    (Simulation.levels_ofDepth (otherTolerance options b) (Nat.le_refl n))
  exact hsim.carries hstart h hs

theorem runs_script (n : Nat) : (Parse.script (.ofDepth n)).Runs :=
  (Simulation.advances_script (Simulation.levels_ofDepth
    (otherTolerance {} false) (Nat.le_refl n))).runs

/-- Reports on one script differ only in what they say of errors. -/
theorem Options.report_strict (options : Options)
    {script script' : Script Span}
    (h : script.map options.locate = script'.map options.locate)
    (htokens : s.tokens = s'.tokens) (hcomments : s.comments = s'.comments) :
    { options with tolerant := false }.report script s
      = { { options with tolerant := true }.report script' s' with
          errors := none } := by
  show Report.mk (script.map options.locate) _ _ none
    = Report.mk (script'.map options.locate) _ _ none
  rw [h]
  simp only [htokens, hcomments]
  rfl

/-- A strict parse and a tolerant parse that records nothing are the
same, except that the one says so. Whatever the text, a strict parse has
it, or a tolerant one refuses it as well or records why. -/
theorem parse_strict_iff_tolerant_silent [NameProperties] (options : Options)
    (text : List Char) :
    (∀ report, parse { options with tolerant := false } text = .ok report ↔
      ∃ report', parse { options with tolerant := true } text
          = .ok report' ∧
        report'.errors = some [] ∧
        report = { report' with errors := none }) ∧
    ((∃ report, parse { options with tolerant := false } text
        = .ok report) ∨
      (∃ failure, parse { options with tolerant := true } text
        = .error failure) ∨
      ∃ report' d ds, parse { options with tolerant := true } text
        = .ok report' ∧ report'.errors = some (d :: ds)) := by
  have hstrict (report : Report) :
      parse { options with tolerant := false } text = .ok report ↔
        ∃ report', parse { options with tolerant := true } text
            = .ok report' ∧
          report'.errors = some [] ∧
          report = { report' with errors := none } := by
    constructor
    · intro h
      obtain ⟨script, s, hs, rfl⟩ := parse_ok.1 h
      have hlog : s.log = ⟨false, []⟩ := (runs_script _ hs).log.strict rfl
      obtain ⟨script', s', hs', hscript, hother⟩ :=
        parseScript_otherTolerance options hs (by rw [hlog])
      obtain ⟨-, rfl⟩ := hother
      refine ⟨_, parse_ok.2 ⟨script', _, hs', rfl⟩, rfl, ?_⟩
      exact options.report_strict hscript.symm rfl rfl
    · rintro ⟨report', h, hr, rfl⟩
      obtain ⟨script, s, hs, rfl⟩ := parse_ok.1 h
      have hnil : s.log.recorded = [] := by
        simpa [Options.report, optionally] using hr
      obtain ⟨script', s', hs', hscript, hother⟩ :=
        parseScript_otherTolerance options hs hnil
      obtain ⟨-, rfl⟩ := hother
      refine parse_ok.2 ⟨script', _, hs', ?_⟩
      exact (options.report_strict hscript rfl rfl).symm
  refine ⟨hstrict, ?_⟩
  cases ht : parse { options with tolerant := true } text with
  | error failure => exact .inr (.inl ⟨failure, rfl⟩)
  | ok report' =>
      obtain ⟨script, s, hs, rfl⟩ := parse_ok.1 ht
      cases hr : s.log.recorded with
      | nil =>
          left
          refine ⟨_, (hstrict _).2 ⟨_, ht, ?_, rfl⟩⟩
          simp [Options.report, optionally, hr]
      | cons d ds =>
          right
          right
          exact ⟨_, d, ds, rfl, congrArg some hr⟩

example : ((parse .tolerating "f(1 2)".toList).toOption.bind
    (·.errors)).map List.length = some 1 := by decide +kernel

end ScriptTree
