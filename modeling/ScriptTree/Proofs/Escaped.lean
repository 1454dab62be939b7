/-
Reserved words in escapes are noticed, each of them once.

# Bytes tell

Whether a word is spelled out is told by its bytes. An escape takes more
bytes than the character it stands for, so a word takes the bytes of its
spelling just if there is no backslash in it
(`Token.Formed.isEscapedReserved_eq`). A strict reader takes no other
reserved word.

# Once each

A tolerant reader takes them all, and comes to the tokens of the stream
(`TokenStream.Complete.accepted`). A parse records a word in escapes when
it becomes the lookahead, and looks beyond the lookahead without a record.
So its records are those of the tokens that the reader comes to, however
often the parse has looked at one of them before.
-/
import ScriptTree.Proofs.Feed
import ScriptTree.Proofs.Literal
import ScriptTree.Proofs.Located
import ScriptTree.Source.NameRanges

namespace ScriptTree

variable {r r' : TokenReader} {t : Token}

-- ============================================================= words

/-- No reserved word is spelled with a backslash. -/
theorem not_mem_of_isReserved {word : String}
    (h : (wordKind word).isReserved = true) : '\\' ∉ word.toList := by
  have hplain : ∀ word ∈ "null" :: "true" :: "false" :: keywords,
      '\\' ∉ word.toList := by
    decide
  apply hplain
  rcases wordKind_cases word with
    ⟨-, hin⟩ | ⟨-, rfl⟩ | ⟨-, rfl | rfl⟩ | hname
  · simp [hin]
  · simp
  · simp
  · simp
  · rw [hname] at h
    cases h

/-- A reserved word is in escapes just if there is a backslash in it. -/
theorem Token.Formed.isEscapedReserved_eq (h : t.Formed) :
    t.isEscapedReserved
      = (t.kind.isReserved && t.raw.toList.contains '\\') := by
  unfold isEscapedReserved
  cases hreserved : t.kind.isReserved with
  | false => rfl
  | true =>
    rw [Bool.true_and, Bool.true_and, Bool.eq_iff_iff,
      List.contains_iff_mem, decide_eq_true_eq]
    cases h with
    | word chars spelling hspelled hkind hvalue hraw =>
        rw [shown, hvalue, hraw, utf8ByteSize_ofList,
          utf8ByteSize_ofList, String.toList_ofList]
        rcases hspelled with rfl | ⟨hslash, hlt⟩
        · rw [hkind] at hreserved
          have hplain := not_mem_of_isReserved hreserved
          rw [String.toList_ofList] at hplain
          simp [hplain]
        · simp [hslash, Nat.ne_of_lt hlt]
    | string _ hkind | numeral _ hkind | punctuator _ _ hkind =>
        rw [hkind] at hreserved
        cases hreserved

-- ============================================================ readers

/-- A strict reader takes a reserved word only where it is spelled
out. -/
theorem TokenReader.value_of_strict [NameProperties]
    (hstrict : r.log.tolerant = false)
    (h : r.token = .ok t r') (hreserved : t.kind.isReserved = true) :
    t.value = .text t.raw := by
  obtain ⟨stop, log, htoken, haccept, -⟩ := token_eq_ok.1 h
  have hend : t.isEnd = false := by
    rw [Token.isEnd, decide_eq_false_iff_not]
    intro hkind
    rw [hkind] at hreserved
    cases hreserved
  have hplain : t.isEscapedReserved = false := by
    have haccept := Parse.accept_ok.1 haccept
    rw [Bool.eq_false_iff]
    intro hescaped
    rw [if_pos hescaped, hstrict] at haccept
    cases haccept.1
  exact Token.Plain.raw_eq
    ⟨(Token.Lexed.of_token htoken hend).formed, hplain⟩ hreserved

/-- A tolerant log accepts the tokens of a stream that goes on to the end
of the text. -/
theorem TokenStream.Complete.accepted {log : DiagnosticLog}
    (hlog : log.tolerant = true) :
    ∀ {stream : TokenStream}, stream.Complete → stream.Accepted log
  | .token _ t _, h => by
    obtain ⟨log', haccept, htolerant, -⟩ :=
      @DiagnosticLog.accept_of log t fun _ => hlog
    exact ⟨log', haccept, Complete.accepted (htolerant.trans hlog) h⟩
  | .done _ _, _ => trivial

-- ============================================================= parses

/-- What is to be said of words in escapes is said where the lines of the
text place them. -/
theorem escapesAmong_ofText [NameProperties] (text : List Char) :
    escapesAmong (TokenStream.ofText text).tokens
      = ((TokenStream.ofText text).tokens.filter fun t =>
          t.kind.isReserved && t.raw.toList.contains '\\').map fun t =>
        (positionAt text t.span.start.offset).diagnose
          .escapedReserved := by
  have hsame : ∀ t ∈ (TokenStream.ofText text).tokens,
      t.isEscapedReserved
        = (t.kind.isReserved && t.raw.toList.contains '\\') :=
    fun t hin =>
      (TokenStream.lexed_ofText text t hin).formed.isEscapedReserved_eq
  unfold escapesAmong
  rw [List.filter_congr hsame]
  apply List.map_congr_left
  intro t hin
  have hplace := (TokenStream.inText_fromCursor _
    (Cursor.standsIn_ofText text)).1 t (List.mem_filter.1 hin).1
  rw [← hplace.start.eq]

/-- A strict reader takes no reserved word in another spelling than its
own, wherever it stands. Where a text is tolerated, the errors of the
report that are about words in escapes are those of the reserved words
that hold a backslash, in the order in which a reader comes to them: one
for each, at the start of the word, and no other. -/
theorem escaped_words_recorded_once [NameProperties] :
    (∀ (r r' : TokenReader) (t : Token), r.log.tolerant = false →
      r.token = .ok t r' → t.kind ∈ [.keyword, .null, .boolean] →
      t.value = .text t.raw) ∧
    ∀ (options : Options) (text : List Char) (report : Report),
      options.tolerant = true → parse options text = .ok report →
      ∃ tokens errors,
        (TokenReader.ofText text true options.comment).Reads tokens ∧
        report.errors = some errors ∧
        (errors.filter fun d => d.description
          = "Keyword must not contain escaped characters")
          = (tokens.filter fun t =>
              t.kind ∈ [.keyword, .null, .boolean] ∧
                '\\' ∈ t.raw.toList).map fun t =>
            (positionAt text t.span.start.offset).diagnose
              .escapedReserved := by
  have hkinds (kind : TokenKind) :
      kind.isReserved = decide (kind ∈ [.keyword, .null, .boolean]) := by
    cases kind <;> decide
  constructor
  · intro r r' t hstrict h hkind
    exact TokenReader.value_of_strict hstrict h
      (by rw [hkinds]; exact decide_eq_true hkind)
  · intro options text report htolerant h
    obtain ⟨script, s, hs, rfl⟩ := parse_ok.1 h
    obtain ⟨first, stop, run⟩ := Parse.script_builds hs
    obtain ⟨hcomplete, hkept, -, hescapes⟩ := run.kept
    rw [ParseState.RecordsEscapes, hkept, escapesAmong_ofText] at hescapes
    refine ⟨(TokenStream.ofText text).tokens, s.log.recorded,
      TokenStream.reads_of_accepted
        (Nat.le_of_eq (Cursor.ofText_length text))
        (hcomplete.accepted rfl),
      if_pos htolerant, ?_⟩
    have hsame : ∀ t : Token,
        (t.kind.isReserved && t.raw.toList.contains '\\')
          = decide (t.kind ∈ [.keyword, .null, .boolean] ∧
              '\\' ∈ t.raw.toList) := by
      intro t
      rw [hkinds, Bool.decide_and]
      congr 1
      exact List.contains_eq_mem _ _
    rw [← List.filter_congr fun t _ => hsame t]
    exact hescapes

/-- A name in escapes that a declaration looks ahead at, an error of
another kind, and a truth value in escapes on the next line; and a word
that is spelled out. -/
theorem escaped_words_recorded_once_declaration :
    let text := "var l\\u0065t = f(x\\u0079 null)\n, b = tru\\u0065".toList
    let reader := TokenReader.ofText "null".toList false false
    (∃ t r', reader.token = .ok t r' ∧ t.value = .text t.raw) ∧
    ∃ report tokens errors, parse { tolerant := true } text = .ok report ∧
      (TokenReader.ofText text true false).Reads tokens ∧
      report.errors = some errors ∧
      errors = [⟨4, 1, 5, .escapedReserved⟩,
        ⟨25, 1, 26, .unexpectedToken "null"⟩,
        ⟨37, 2, 7, .escapedReserved⟩] ∧
      (errors.filter fun d => d.description
        = "Keyword must not contain escaped characters")
        = (tokens.filter fun t =>
            t.kind ∈ [.keyword, .null, .boolean] ∧
              '\\' ∈ t.raw.toList).map fun t =>
          (positionAt text t.span.start.offset).diagnose
            .escapedReserved := by
  intro text reader
  obtain ⟨hstrict, htolerant⟩ := escaped_words_recorded_once
  constructor
  · let null : Token := ⟨.null, .text "null", "null",
      ⟨⟨0, 1, 0⟩, ⟨4, 1, 0⟩⟩⟩
    have hread : reader.token = .ok null
        { reader with cursor := ⟨"null".toList, ⟨4, 1, 0⟩, 0⟩ } := by
      decide +kernel
    exact ⟨_, _, hread, hstrict _ _ _ rfl hread (by decide)⟩
  · have hshown : (parse { tolerant := true } text).toOption.map
        Report.errors
        = some (some [⟨4, 1, 5, .escapedReserved⟩,
          ⟨25, 1, 26, .unexpectedToken "null"⟩,
          ⟨37, 2, 7, .escapedReserved⟩]) := by
      decide +kernel
    obtain ⟨report, h, hshown⟩ := exists_report hshown
    obtain ⟨tokens, errors, hreads, herrors, hsame⟩ :=
      htolerant _ text report rfl h
    have hthree := Option.some.inj (herrors.symm.trans hshown)
    exact ⟨report, tokens, errors, h, hreads, herrors, hthree, hsame⟩

end ScriptTree
