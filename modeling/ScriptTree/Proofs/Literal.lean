/-
The value of a literal is that of its token.

# Reading alone

A literal keeps the text of its token, and its value was taken from that
token. What a token is does not depend on where it stands, so the text of
a literal may be read alone to see which value it has
(`Token.Lexed.alone`).

# Truth values

A truth value counts as true when it is spelled out. In escapes, which a
tolerant parse lets pass, it is false whatever word it comes to; `true`
in escapes is the one token whose literal has another value than the
token (`Token.Formed.literalValue_cases`, `literal_of_true_in_escapes`).
-/
import ScriptTree.Proofs.Regular
import ScriptTree.Proofs.Yield.Expression
import ScriptTree.Source.NameRanges

namespace ScriptTree

variable {text source : List Char} {π : Type}

-- ============================================================ values

/-- The value that a token stands for as a literal, if it does. -/
def Token.denoted? (t : Token) : Option LiteralValue :=
  match t.kind, t.value with
  | .numeric, .number number => some (.number number)
  | .string, .text text => some (.string text)
  | .null, .text _ => some .null
  | .boolean, .text text => some (.boolean (text = "true"))
  | _, _ => none

/-- Whether a token is `true`, but not spelled out. -/
def Token.isEscapedTrue (t : Token) : Bool :=
  t.isEscapedReserved && t.shown = "true"

/-- The literals of a script, each with its value, its text and its
place. -/
def Script.literals (script : Script π) :
    List (LiteralValue × String × π) :=
  script.parts.filterMap fun
    | .expression (.literal value raw place) => some (value, raw, place)
    | _ => none

theorem Script.mem_literals {script : Script π} {value : LiteralValue}
    {raw : String} {place : π} (h : (value, raw, place) ∈ script.literals) :
    .expression (.literal value raw place) ∈ script.parts := by
  obtain ⟨part, hpart, hliteral⟩ := List.mem_filterMap.1 h
  split at hliteral
  case h_2 => cases hliteral
  case h_1 =>
    cases hliteral
    exact hpart

/-- A truth value counts as true where `true` is spelled out. -/
theorem Token.literalValue_of_boolean {t : Token}
    {chars spelling : List Char} (hspelled : Spelled chars spelling)
    (hkind : t.kind = .boolean) (hvalue : t.value = .text (.ofList chars))
    (hraw : t.raw = .ofList spelling) :
    (t.isEscapedTrue = false → t.denoted? = some t.literalValue) ∧
      (t.isEscapedTrue = true → t.denoted? = some (.boolean true) ∧
        t.literalValue = .boolean false) := by
  have hshown : t.shown = .ofList chars := by rw [shown, hvalue]
  have hdenoted : t.denoted?
      = some (.boolean (decide (String.ofList chars = "true"))) := by
    simp [denoted?, hkind, hvalue]
  have hliteral : t.literalValue = .boolean (decide (t.raw = "true")) := by
    simp [literalValue, hkind]
  rw [hdenoted, hliteral, isEscapedTrue, isEscapedReserved, hkind, hraw,
    hshown, utf8ByteSize_ofList, utf8ByteSize_ofList]
  rcases hspelled with rfl | ⟨hslash, hlt⟩
  · simp
  · have hne : String.ofList spelling ≠ "true" := by
      intro htrue
      have hchars : spelling = "true".toList := by
        rw [← htrue, String.toList_ofList]
      rw [hchars] at hslash
      revert hslash
      decide
    have hsize : byteLength chars ≠ byteLength spelling :=
      Nat.ne_of_lt hlt
    simp [hne, hsize, TokenKind.isReserved]

/-- A literal has the value that its token stands for, unless that is
`true` in escapes. -/
theorem Token.Formed.literalValue_cases {t : Token} (h : t.Formed)
    (hkind : t.kind ∈ [.numeric, .string, .boolean, .null]) :
    (t.isEscapedTrue = false → t.denoted? = some t.literalValue) ∧
      (t.isEscapedTrue = true → t.denoted? = some (.boolean true) ∧
        t.literalValue = .boolean false) := by
  -- What is no word is not in escapes.
  have hplain (hvalue : t.denoted? = some t.literalValue)
      (hword : t.kind.isReserved = false) :
      (t.isEscapedTrue = false → t.denoted? = some t.literalValue) ∧
        (t.isEscapedTrue = true → t.denoted? = some (.boolean true) ∧
          t.literalValue = .boolean false) := by
    simp [isEscapedTrue, isEscapedReserved, hword, hvalue]
  cases h with
  | string _ hstring hvalue =>
      exact hplain (by simp [denoted?, literalValue, hstring, hvalue])
        (by simp [hstring, TokenKind.isReserved])
  | numeral _ hnumeral hvalue =>
      exact hplain (by simp [denoted?, literalValue, hnumeral, hvalue])
        (by simp [hnumeral, TokenKind.isReserved])
  | punctuator _ _ hmark => simp [hmark] at hkind
  | word chars spelling hspelled hword hvalue hraw =>
      obtain ⟨-, hnull, hnumeric, hstring⟩ :=
        @wordKind_eq (.ofList chars)
      simp only [List.mem_cons, List.not_mem_nil, or_false] at hkind
      rcases hkind with hk | hk | hk | hk
      · exact absurd (hword.symm.trans hk) hnumeric
      · exact absurd (hword.symm.trans hk) hstring
      · exact literalValue_of_boolean hspelled hk hvalue hraw
      · have hne : t.shown ≠ "true" := by
          rw [shown, hvalue]
          show String.ofList chars ≠ "true"
          rw [hnull (hword.symm.trans hk)]
          decide
        simp [isEscapedTrue, hne, denoted?, literalValue, hk, hvalue]

-- ============================================================ tokens

/-- A token of a stream is read where its cursor gets to. -/
theorem TokenStream.read_fromCursor [NameProperties]
    (steps : Nat) (c : Cursor) :
    ∀ t ∈ (fromCursor steps c).tokens, ∃ start stop : Cursor,
      c.Walks true start ∧ start.rest ≠ [] ∧
        Cursor.token start = .ok t stop := by
  induction steps generalizing c with
  | zero => simp [fromCursor, tokens]
  | succ steps ih =>
      have hgap := Cursor.walks_skipTrivia c
      cases begins c with
      | done _ hstream | illegal _ _ hstream => simp [hstream, tokens]
      | @token t stop hne htoken _ hstream =>
          rw [hstream, tokens]
          intro t' hin
          rcases List.mem_cons.1 hin with rfl | hin
          · exact ⟨_, stop, hgap, hne, htoken⟩
          · obtain ⟨start', stop', hwalk, hread⟩ := ih stop t' hin
            exact ⟨start', stop',
              (hgap.trans (token_walks htoken).1).trans hwalk, hread⟩

/-- A token of a text holds the text between its ends. -/
theorem TokenStream.raw_ofText [NameProperties] {t : Token}
    (hin : t ∈ (TokenStream.ofText text).tokens) :
    t.raw.toList
      = textBetween text t.span.start.offset t.span.stop.offset := by
  obtain ⟨start, stop, hwalk, hne, htoken⟩ := read_fromCursor _ _ t hin
  have hstart := (Cursor.standsIn_ofText text).walks hwalk
  obtain ⟨word, lines, -, hreads, hraw⟩ := Cursor.token_takes htoken hne
  rw [hraw, Cursor.token_span htoken, String.toList_ofList]
  exact (hstart.textBetween_eq hreads).symm

/-- A token is read once more where its text stands alone. -/
theorem Token.Lexed.alone [NameProperties] {t : Token} (h : t.Lexed) :
    ∃ place stop, Cursor.token (.ofText t.raw.toList)
        = .ok { t with span := place } stop ∧ stop.atEnd = true := by
  obtain ⟨c, d, hne, htoken⟩ := h
  obtain ⟨ch, rest, hrest⟩ := List.exists_cons_of_ne_nil hne
  obtain ⟨word, lines, -, -, -, hat⟩ := token_ok hrest htoken
  have halone : (Cursor.ofText word).rest = word ++ [] := by
    rw [Cursor.ofText_rest, List.append_nil]
  obtain ⟨stop, hread, hreads⟩ := hat.alike (clips_nil _) halone
  have hword : t.raw.toList = word := by
    rw [hat.raw, String.toList_ofList]
  refine ⟨_, stop, by rw [hword]; exact hread, ?_⟩
  exact (hreads.inStep (Cursor.inStep_ofText word)).atEnd_iff.2
    (hreads.rest_eq halone)

/-- A tolerant reader takes every token. -/
theorem TokenReader.token_of_tolerant [NameProperties]
    {r : TokenReader} {t : Token}
    {stop : Cursor} (htolerant : r.log.tolerant = true)
    (h : Cursor.token r.cursor = .ok t stop) :
    ∃ r', r.token = .ok t r' ∧ r'.cursor = stop := by
  have haccept : ∃ log, r.log.accept t = .ok log := by
    unfold DiagnosticLog.accept DiagnosticLog.tolerate
    rw [htolerant]
    cases t.isEscapedReserved with
    | true => exact ⟨_, rfl⟩
    | false => exact ⟨_, rfl⟩
  obtain ⟨log, hlog⟩ := haccept
  exact ⟨_, token_eq_ok.2 ⟨stop, log, h, hlog, rfl⟩, rfl⟩

/-- A strict parse takes no word in escapes. -/
theorem not_escaped_of_parse [NameProperties]
    {options : Options} {report : Report} (hstrict : options.tolerant = false)
    (h : parse options text = .ok report) :
    ∀ t ∈ (TokenStream.ofText text).tokens,
      t.isEscapedReserved = false := by
  obtain ⟨script, s, hs, -⟩ := parse_ok.1 h
  rw [hstrict] at hs
  obtain ⟨first, stop, run⟩ := Parse.script_builds hs
  obtain ⟨-, hkept, -, hescapes⟩ := run.kept
  have hfirst : (ParseState.ofText text false).log.Extends first.log :=
    (ParseState.Step.shift (Parse.skip_ok.1 run.begins)).log
  have hstop := hfirst.trans run.builds.reaches.log
  have hlog : s.log = ⟨false, []⟩ := by
    obtain ⟨-, rfl⟩ := Parse.close_ok.1 run.closes
    exact hstop.strict rfl
  unfold ParseState.RecordsEscapes escapesAmong at hescapes
  rw [hlog, hkept, List.filter_nil] at hescapes
  have hnone := List.map_eq_nil_iff.1 hescapes.symm
  intro t hin
  simpa using List.filter_eq_nil_iff.1 hnone t hin

-- ========================================================== literals

/-- A literal keeps the text of one token, at its place. Read alone by a
tolerant reader, the text is one token again, and the value of the
literal is what that token stands for; except that `true` in escapes,
which no strict parse accepts, has the value of `false`. -/
theorem literals_of_parse [NameProperties]
    (options : Options) (text : List Char)
    (report : Report) (h : parse options text = .ok report)
    (value : LiteralValue) (raw : String) (place : Location)
    (hin : (value, raw, place) ∈ report.script.literals) :
    ∃ t ∈ (TokenStream.ofText text).tokens,
      place = options.locate t.span ∧
      raw.toList
        = textBetween text t.span.start.offset t.span.stop.offset ∧
      ∃ alone rest, (TokenReader.ofText raw.toList true false).token
          = .ok alone rest ∧
        rest.cursor.atEnd = true ∧ alone.raw = raw ∧
        alone.kind = t.kind ∧
        (alone.isEscapedTrue = false → alone.denoted? = some value) ∧
        (alone.isEscapedTrue = true →
          alone.denoted? = some (.boolean true) ∧
            value = .boolean false) ∧
        (options.tolerant = false → alone.isEscapedTrue = false) := by
  obtain ⟨t, ht, hkind, rfl, rfl, rfl⟩ :=
    made_of_parse h _ (Script.mem_literals hin)
  have hmem : t ∈ (TokenStream.ofText text).tokens := by
    apply ht.mem
    rw [Token.isEnd, decide_eq_false_iff_not]
    intro hend
    simp [hend] at hkind
  have hlexed := TokenStream.lexed_ofText text t hmem
  obtain ⟨hvalue, hescaped⟩ := hlexed.formed.literalValue_cases hkind
  obtain ⟨span, stop, halone, hend⟩ := hlexed.alone
  let reader := TokenReader.ofText t.raw.toList true false
  obtain ⟨rest, hread, hrest⟩ :=
    reader.token_of_tolerant rfl halone
  refine ⟨t, hmem, rfl, TokenStream.raw_ofText hmem,
    { t with span }, rest, hread, hrest ▸ hend, rfl, rfl, hvalue, hescaped,
    fun hstrict => ?_⟩
  have hplain := not_escaped_of_parse hstrict h t hmem
  show (t.isEscapedReserved && decide (t.shown = "true")) = false
  rw [hplain, Bool.false_and]

/-- A string with an escape, between a number and a truth value. -/
theorem literals_of_parse_escape :
    let text := "(.5, 'a\\x41', false)".toList
    ∃ report, parse { range := true } text = .ok report ∧
      report.script.literals
        = [(.number (.ofDecimal 5 (-1)), ".5", ⟨some (1, 3), none⟩),
          (.string "aA", "'a\\x41'", ⟨some (5, 12), none⟩),
          (.boolean false, "false", ⟨some (14, 19), none⟩)] ∧
      ∃ alone rest,
        (TokenReader.ofText "'a\\x41'".toList true false).token
          = .ok alone rest ∧
        alone.denoted? = some (.string "aA") := by
  intro text
  have hshown : (parse { range := true } text).toOption.map
      (·.script.literals)
      = some [(.number (.ofDecimal 5 (-1)), ".5", ⟨some (1, 3), none⟩),
          (.string "aA", "'a\\x41'", ⟨some (5, 12), none⟩),
          (.boolean false, "false", ⟨some (14, 19), none⟩)] := by
    decide +kernel
  obtain ⟨report, h, hliterals⟩ := exists_report hshown
  have hin : (.string "aA", "'a\\x41'", ⟨some (5, 12), none⟩)
      ∈ report.script.literals := by
    rw [hliterals]
    simp
  obtain ⟨t, -, -, -, alone, rest, hread, -, -, -, hvalue, -, hstrict⟩ :=
    literals_of_parse _ text report h _ _ _ hin
  exact ⟨report, h, hliterals, alone, rest, hread, hvalue (hstrict rfl)⟩

/-- A tolerant parse takes `true` in escapes for a literal that is not
true. -/
theorem literal_of_true_in_escapes :
    ¬∀ (options : Options) (text : List Char) (report : Report)
        (value : LiteralValue) (raw : String) (place : Location)
        (alone : Token) (rest : TokenReader),
      parse options text = .ok report →
      (value, raw, place) ∈ report.script.literals →
      (TokenReader.ofText raw.toList true false).token
        = .ok alone rest →
      alone.denoted? = some value := by
  intro hall
  have hshown : (parse { tolerant := true } "tru\\u0065".toList).toOption.map
      (·.script.literals)
      = some [(.boolean false, "tru\\u0065", ⟨none, none⟩)] := by
    decide +kernel
  obtain ⟨report, h, hliterals⟩ := exists_report hshown
  let reader := TokenReader.ofText "tru\\u0065".toList true false
  have hread : (TokenReader.token.run' reader).bind Token.denoted?
      = some (.boolean true) := by
    decide +kernel
  unfold EStateM.run' EStateM.run at hread
  cases htoken : TokenReader.token reader with
  | error found rest =>
      rw [htoken] at hread
      cases hread
  | ok alone rest =>
      rw [htoken] at hread
      have hread : alone.denoted? = some (.boolean true) := hread
      have hvalue := hall _ _ report _ _ _ alone rest h
        (by rw [hliterals]; exact List.mem_cons_self) htoken
      rw [hvalue] at hread
      cases hread

end ScriptTree
