/-
A report and a token list of the same text show the same entries.

The two come about in different ways. A parser reads a token when the one
before it is consumed, and keeps what it has read and passed over. A feed
reads a token when an entry is asked for, and gives everything in one list.
Both go over the same stream (`tokenList_of_complete`), from its start to
its end, and so every token and comment is in both, once and in order.
-/
import ScriptTree.Proofs.Feed
import ScriptTree.Proofs.Tolerance
import ScriptTree.Tree.Json
import ScriptTree.Source.NameRanges

namespace ScriptTree

-- =========================================================== entries

/-- Whether an entry is a token. -/
def TokenEntry.isToken : TokenEntry → Bool
  | .token _ => true
  | .comment _ => false

theorem TokenStream.entries_tokens (stream : TokenStream) :
    stream.entries.filter TokenEntry.isToken
      = stream.tokens.map TokenEntry.token := by
  have hcomments (l : List Comment) :
      (l.map TokenEntry.comment).filter TokenEntry.isToken = [] := by
    refine List.filter_eq_nil_iff.2 fun entry hentry => ?_
    obtain ⟨comment, -, rfl⟩ := List.mem_map.1 hentry
    exact Bool.false_ne_true
  induction stream with
  | token comments t rest ih =>
      rw [entries, List.filter_append, hcomments, List.nil_append,
        List.filter_cons_of_pos rfl, ih]
      rfl
  | done comments _ | illegal comments _ => exact hcomments comments

theorem TokenStream.entries_comments (stream : TokenStream) :
    stream.entries.filter (!·.isToken)
      = stream.comments.map TokenEntry.comment := by
  have hcomments (l : List Comment) :
      (l.map TokenEntry.comment).filter (!·.isToken)
        = l.map TokenEntry.comment := by
    refine List.filter_eq_self.2 fun entry hentry => ?_
    obtain ⟨comment, -, rfl⟩ := List.mem_map.1 hentry
    rfl
  induction stream with
  | token comments t rest ih =>
      rw [entries, List.filter_append, hcomments,
        List.filter_cons_of_neg (by simp [TokenEntry.isToken]), ih,
        TokenStream.comments, List.map_append]
  | done comments _ | illegal comments _ => exact hcomments comments

/-- The entry without the name of the text. -/
def LocatedEntry.unnamed (e : LocatedEntry) : LocatedEntry :=
  ⟨e.entry, {
    range := e.location.range
    lines := e.location.lines.map fun lines =>
      { lines with source := none } }⟩

theorem Options.locateEntry_unnamed (options : Options)
    (entry : TokenEntry) :
    (options.locateEntry entry).unnamed = options.listedEntry entry := by
  unfold listedEntry locateEntry LocatedEntry.unnamed locate
  cases options.loc <;> rfl

-- =========================================================== reports

/-- A report on a text shows the tokens and comments of its token list,
in the same order and with the same locations, but for the name of the
text. What a token list records is what the report says of words in
escapes. -/
theorem tokenList_of_parse [NameProperties]
    (options : Options) (text : List Char)
    (report : Report) (htokens : options.tokens = true)
    (hcomment : options.comment = true)
    (h : parse options text = .ok report) :
    ∃ list tokens comments, tokenList options text = .ok list ∧
      report.tokens = some tokens ∧ report.comments = some comments ∧
      tokens.map LocatedEntry.unnamed
        = (list.entries.filter TokenEntry.isToken).map
          options.listedEntry ∧
      comments.map LocatedEntry.unnamed
        = (list.entries.filter (!·.isToken)).map options.listedEntry ∧
      (options.tolerant = true → ∃ errors, report.errors = some errors ∧
        list.errors = some (errors.filter fun d =>
          d.description = "Keyword must not contain escaped characters")) ∧
      (options.tolerant = false →
        report.errors = none ∧ list.errors = none) := by
  obtain ⟨script, s, hs, rfl⟩ := parse_ok.1 h
  obtain ⟨first, stop, run⟩ := Parse.script_builds hs
  obtain ⟨hcomplete, hkept, hkeptComments, hescapes⟩ := run.kept
  rw [ParseState.RecordsEscapes, hkept] at hescapes
  -- A strict parse records nothing, so no word in escapes is there.
  have hlog : escapesAmong (TokenStream.ofText text).tokens ≠ [] →
      options.tolerant = true := by
    intro hne
    cases hstrict : options.tolerant with
    | true => rfl
    | false =>
        have hsame := (runs_script _ hs).log.strict hstrict
        rw [hsame] at hescapes
        exact absurd hescapes.symm hne
  refine ⟨_, s.tokens.toList.map (options.locateEntry <| .token ·),
    s.comments.toList.map (options.locateEntry <| .comment ·),
    tokenList_of_complete hcomplete hcomment hlog, ?_, ?_, ?_, ?_, ?_, ?_⟩
  · simp [Options.report, optionally, htokens]
  · simp [Options.report, optionally, hcomment]
  · rw [TokenStream.entries_tokens, hkept, List.map_map, List.map_map]
    exact List.map_congr_left fun t _ => options.locateEntry_unnamed _
  · rw [TokenStream.entries_comments, hkeptComments, List.map_map,
      List.map_map]
    exact List.map_congr_left fun c _ => options.locateEntry_unnamed _
  · intro htolerant
    refine ⟨s.log.recorded, ?_, ?_⟩
    · simp [Options.report, optionally, htolerant]
    · rw [htolerant, ← hescapes]
      rfl
  · intro hstrict
    simp [Options.report, optionally, hstrict]

/-- A word in escapes, an error of another kind, and a comment. -/
theorem tokenList_of_parse_escaped :
    let options : Options := {
      range := true, loc := true, source := some "it", tokens := true,
      comment := true, tolerant := true }
    let text := "f(a b); // c\nd\\u0065bugger".toList
    ∃ report list tokens errors, parse options text = .ok report ∧
      tokenList options text = .ok list ∧
      report.tokens = some tokens ∧ report.errors = some errors ∧
      tokens.map LocatedEntry.unnamed
        = (list.entries.filter TokenEntry.isToken).map
          options.listedEntry ∧
      list.errors = some (errors.filter fun d =>
        d.description = "Keyword must not contain escaped characters") ∧
      errors.map Diagnostic.description = ["Unexpected token b",
        "Keyword must not contain escaped characters"] := by
  intro options text
  have hshown : (parse options text).toOption.map (fun report =>
      report.errors.map (·.map Diagnostic.description))
      = some (some ["Unexpected token b",
        "Keyword must not contain escaped characters"]) := by
    decide +kernel
  obtain ⟨report, h, hshown⟩ := exists_report hshown
  obtain ⟨list, tokens, -, hlist, htokens, -, hentries, -, herrors, -⟩ :=
    tokenList_of_parse options text report rfl rfl h
  obtain ⟨errors, hreport, hrecorded⟩ := herrors rfl
  rw [hreport, Option.map_some, Option.some.injEq] at hshown
  exact ⟨report, list, tokens, errors, h, hlist, htokens, hreport,
    hentries, hrecorded, hshown⟩

end ScriptTree
