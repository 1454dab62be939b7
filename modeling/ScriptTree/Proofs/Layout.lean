/-
What a parse can tell of a text, as a token list shows it.

# Words to the end

The words of a stream are its tokens without their places, each with
whether it starts on a new line; here the end of the text is one of them
(`TokenStream.wordsFrom`). Streams with the same words go on alike
(`TokenStream.Readable.next_eq`).

# Token lists

Where a strict token list is given the stream can be read to its end, and
the list holds its tokens (`tokenList_readable`). The list fixes the
words: a token is known by its text, and it starts on a new line if there
is a line terminator in front of it or within the token before it
(`TokenStream.wordsFrom_ofText`).
-/
import ScriptTree.Proofs.LineBreak
import ScriptTree.Proofs.Steps
import ScriptTree.Token.Layout

namespace ScriptTree

-- ============================================================= words

namespace TokenStream

variable {stream stream' : TokenStream}

/-- The words of a stream, its end as the last one, after a token that
starts on the given line. -/
def wordsFrom : Option Nat → TokenStream → List Word
  | line, .token _ t rest =>
    ⟨t.bare, line.any (· ≠ t.span.start.line)⟩
      :: rest.wordsFrom (some t.span.start.line)
  | line, .done _ t => [⟨t.bare, line.any (· ≠ t.span.start.line)⟩]
  | _, .illegal _ _ => []

/-- What comes next is the first word, and then come the others; the end
of the text comes again. -/
theorem Formed.wordsFrom_next (h : stream.Formed) {t : Token}
    {rest : TokenStream} (hn : stream.next.2 = .ok (t, rest))
    (line : Option Nat) :
    ∃ more, stream.wordsFrom line
        = ⟨t.bare, line.any (· ≠ t.span.start.line)⟩ :: more ∧
      rest.wordsFrom (some t.span.start.line)
        = if t.isEnd then [⟨t.bare, false⟩] else more := by
  cases stream with
  | token _ _ _ =>
      cases hn
      refine ⟨_, rfl, ?_⟩
      rw [if_neg (by simp [h.1.not_end])]
  | done _ _ =>
      cases hn
      have hend : t.isEnd = true := h
      refine ⟨[], rfl, ?_⟩
      rw [if_pos hend]
      simp [wordsFrom]
  | illegal _ _ => cases hn

/-- Streams with the same words give tokens that differ in their places
only, and have the same words then. -/
theorem Readable.next_eq {line line' : Option Nat} (h : stream.Readable)
    (h' : stream'.Readable)
    (hwords : stream'.wordsFrom line' = stream.wordsFrom line) :
    ∃ t t' rest rest', stream.next.2 = .ok (t, rest) ∧
      stream'.next.2 = .ok (t', rest') ∧ rest.Readable ∧ rest'.Readable ∧
      t.isEscapedReserved = false ∧ t'.isEscapedReserved = false ∧
      t'.bare = t.bare ∧
      line'.any (· ≠ t'.span.start.line)
        = line.any (· ≠ t.span.start.line) ∧
      rest'.wordsFrom (some t'.span.start.line)
        = rest.wordsFrom (some t.span.start.line) := by
  obtain ⟨t, rest, hn, hrest, hplain⟩ := h.next
  obtain ⟨t', rest', hn', hrest', hplain'⟩ := h'.next
  obtain ⟨more, hfirst, hmore⟩ := h.formed.wordsFrom_next hn line
  obtain ⟨more', hfirst', hmore'⟩ := h'.formed.wordsFrom_next hn' line'
  rw [hfirst, hfirst', List.cons.injEq, Word.mk.injEq] at hwords
  obtain ⟨⟨hbare, hline⟩, rfl⟩ := hwords
  have hend : t'.isEnd = t.isEnd := by
    have hkind : t'.bare.kind = t.bare.kind := congrArg _ hbare
    exact congrArg (decide <| · = TokenKind.endOfInput) hkind
  refine ⟨t, t', rest, rest', hn, hn', hrest, hrest', hplain, hplain',
    hbare, hline, ?_⟩
  rw [hmore, hmore', hend, hbare]

end TokenStream

-- ====================================================== token lists

/-- A token is known by its text. -/
theorem Token.Lexed.bare_eq [NameProperties]
    {t t' : Token} (h : t.Lexed) (h' : t'.Lexed)
    (hraw : t'.raw = t.raw) : t'.bare = t.bare := by
  obtain ⟨c, d, hne, htoken⟩ := h
  obtain ⟨c', d', hne', htoken'⟩ := h'
  obtain ⟨ch, rest, hc⟩ := List.exists_cons_of_ne_nil hne
  obtain ⟨ch', rest', hc'⟩ := List.exists_cons_of_ne_nil hne'
  obtain ⟨hkind, hvalue⟩ := token_eq_of_raw hc hc' htoken htoken' hraw
  unfold bare
  rw [hkind, hvalue, hraw]

theorem Token.map_bare_eq [NameProperties] {tokens tokens' : List Token}
    (h : ∀ t ∈ tokens, t.Lexed) (h' : ∀ t ∈ tokens', t.Lexed)
    (hraw : tokens'.map Token.raw = tokens.map Token.raw) :
    tokens'.map Token.bare = tokens.map Token.bare := by
  induction tokens generalizing tokens' with
  | nil =>
      rw [List.map_nil, List.map_eq_nil_iff] at hraw
      rw [hraw]
  | cons t tokens ih =>
      cases tokens' with
      | nil => cases hraw
      | cons t' tokens' =>
          rw [List.map_cons, List.map_cons, List.cons.injEq] at hraw
          rw [List.forall_mem_cons] at h h'
          rw [List.map_cons, List.map_cons, h.1.bare_eq h'.1 hraw.1,
            ih h.2 h'.2 hraw.2]

namespace TokenFeed

variable {n steps : Nat} {r : TokenReader} {feed : TokenFeed}
  {entries : List TokenEntry}

/-- What a strict reader that keeps no comments gives next. -/
private theorem next_strict [NameProperties] (hlog : r.log = ⟨false, []⟩)
    (hkeeps : r.keepsComments = false) (hstep : r.cursor.InStep) :
    next ⟨r, []⟩ =
      if r.cursor.skipTrivia.2.rest = [] then
        (none, ⟨{ r with cursor := r.cursor.skipTrivia.2 }, []⟩)
      else match Cursor.token r.cursor.skipTrivia.2 with
        | .error d cursor => (some (.error d), ⟨{ r with cursor }, []⟩)
        | .ok t cursor =>
          if t.isEscapedReserved then
            (some (.error (t.span.start.diagnose .escapedReserved)),
              ⟨{ r with cursor := r.cursor.skipTrivia.2 }, []⟩)
          else (some (.ok (.token t)), ⟨{ r with cursor }, []⟩) := by
  have hskip : r.skipTrivia
      = ([], { r with cursor := r.cursor.skipTrivia.2 }) := by
    simp [TokenReader.skipTrivia, hkeeps]
  by_cases hend : r.cursor.skipTrivia.2.rest = []
  · have hatEnd : r.skipTrivia.2.cursor.atEnd = true :=
      (hstep.walks (Cursor.walks_skipTrivia _)).atEnd_iff.2 hend
    have hfill := fill_of_atEnd ⟨r, []⟩ hatEnd
    rw [passed, hskip] at hfill
    rw [if_pos hend, next_of_fill rfl hfill]
    rfl
  have hmore : r.skipTrivia.2.cursor.atEnd = false :=
    Cursor.atEnd_of_rest_ne_nil hend
  rw [if_neg hend]
  cases hscan : Cursor.token r.cursor.skipTrivia.2 with
  | error d cursor =>
      have htoken : r.skipTrivia.2.token = .error d { r with cursor } :=
        TokenReader.token_eq_error.2 (.inl ⟨cursor, hscan, rfl⟩)
      have hfill := fill_of_failure ⟨r, []⟩ hmore htoken
      rw [passed, hskip] at hfill
      exact next_of_failure rfl hfill
  | ok t cursor =>
      simp only
      split
      case isTrue hescaped =>
        have haccept : r.log.accept t
            = .error (t.span.start.diagnose .escapedReserved) := by
          rw [hlog, DiagnosticLog.accept, if_pos hescaped]
          rfl
        have htoken : r.skipTrivia.2.token
            = .error (t.span.start.diagnose .escapedReserved)
              { r with cursor := r.cursor.skipTrivia.2 } :=
          TokenReader.token_eq_error.2 (.inr ⟨t, cursor, hscan, haccept, rfl⟩)
        have hfill := fill_of_failure ⟨r, []⟩ hmore htoken
        rw [passed, hskip] at hfill
        exact next_of_failure rfl hfill
      case isFalse hescaped =>
        have haccept : r.log.accept t = .ok r.log :=
          Parse.accept_ok.2 (by rw [if_neg hescaped])
        have htoken : r.skipTrivia.2.token = .ok t { r with cursor } :=
          TokenReader.token_eq_ok.2 ⟨cursor, r.log, hscan, haccept, rfl⟩
        have hfill := fill_of_token ⟨r, []⟩ hmore htoken
        rw [passed, hskip] at hfill
        rw [next_of_fill rfl hfill]
        rfl

/-- A strict feed records nothing. If it gives no comments and fails
nowhere, it gives the tokens of a stream that can be read to its end. -/
theorem drain_tokens [NameProperties] {failure : Option Diagnostic}
    (hlog : r.log = ⟨false, []⟩) (hkeeps : r.keepsComments = false)
    (hstep : r.cursor.InStep) (hsteps : r.cursor.rest.length ≤ steps)
    (hn : r.cursor.rest.length < n)
    (h : drain n ⟨r, []⟩ = (entries, failure, feed)) :
    feed.reader.log = ⟨false, []⟩ ∧ (failure = none →
      (TokenStream.fromCursor steps r.cursor).Readable ∧
        entries = (TokenStream.fromCursor steps r.cursor).tokens.map
          .token) := by
  induction steps generalizing r n entries with
  | zero =>
      obtain ⟨n, rfl⟩ : ∃ k, n = k + 1 := ⟨n - 1, by omega⟩
      have hrest := List.length_eq_zero_iff.1 (Nat.le_zero.1 hsteps)
      have hend : r.cursor.skipTrivia.2.rest = [] := by
        rwa [Cursor.skipTrivia_of_rest_nil hrest]
      rw [drain, next_strict hlog hkeeps hstep, if_pos hend] at h
      cases h
      exact ⟨hlog, fun _ => ⟨rfl, rfl⟩⟩
  | succ steps ih =>
      obtain ⟨n, rfl⟩ : ∃ k, n = k + 1 := ⟨n - 1, by omega⟩
      rw [drain, next_strict hlog hkeeps hstep] at h
      cases TokenStream.begins r.cursor with
      | done hend hstream =>
          rw [if_pos hend] at h
          cases h
          rw [hstream]
          exact ⟨hlog, fun _ => ⟨rfl, rfl⟩⟩
      | illegal hne htoken _ =>
          rw [if_neg hne, htoken] at h
          cases h
          exact ⟨hlog, fun hnone => by cases hnone⟩
      | @token t stop hne htoken hlt hstream =>
          rw [if_neg hne, htoken] at h
          simp only at h
          by_cases hescaped : t.isEscapedReserved = true
          · rw [if_pos hescaped] at h
            cases h
            exact ⟨hlog, fun hnone => by cases hnone⟩
          rw [if_neg hescaped] at h
          simp only [Prod.mk.injEq] at h
          obtain ⟨rfl, rfl, rfl⟩ := h
          obtain ⟨hlog', hlater⟩ := @ih n { r with cursor := stop } _
            hlog hkeeps ((hstep.walks (Cursor.walks_skipTrivia _)).walks
              (token_walks htoken).1)
            (by simp only; omega) (by simp only; omega) rfl
          refine ⟨hlog', fun hnone => ?_⟩
          obtain ⟨hread, hentries⟩ := hlater hnone
          rw [hstream]
          exact ⟨⟨⟨Cursor.formed_token htoken hne, by simpa using hescaped⟩,
            hread⟩, congrArg (TokenEntry.token t :: ·) hentries⟩

end TokenFeed

/-- A strict token list without comments holds the tokens of a stream that
can be read to its end. -/
theorem tokenList_readable [NameProperties]
    {text : List Char} {list : TokenList} (h : tokenList {} text = .ok list) :
    (TokenStream.ofText text).Readable ∧
      list.entries = (TokenStream.ofText text).tokens.map .token := by
  unfold tokenList at h
  simp only at h
  rcases hdrain : (TokenFeed.ofText text {}).drain (text.length + 1) with
    ⟨entries, failure, feed⟩
  have hlength := Cursor.ofText_length text
  obtain ⟨hlog, hlist⟩ := TokenFeed.drain_tokens rfl rfl
    (Cursor.inStep_ofText text) (Nat.le_of_eq hlength)
    (Nat.lt_succ_of_le (Nat.le_of_eq hlength)) hdrain
  rw [hdrain] at h
  cases failure with
  | none =>
      cases h
      exact hlist rfl
  | some d =>
      simp only [hlog] at h
      cases h

-- ======================================================= line breaks

/-- For each of a series of tokens, whether what follows it starts on a new
line: there is a line terminator after it or within it. -/
def Token.endsLine (source : List Char) (tokens : List Token) :
    List Bool :=
  List.zipWith (· || ·) (tokens.map fun t => breaksLine t.raw.toList)
    (breaksAfter source (tokens.map Token.span))

namespace TokenStream

variable {source : List Char} {c p : Cursor} {steps : Nat} {t : Token}

/-- Tokens and the end of the text as words, of which it is known whether
they start on new lines. -/
def wordsOf (tokens : List Token) (newLines : List Bool) : List Word :=
  List.zipWith Word.mk
    (tokens.map Token.bare ++ [(Cursor.ofText []).endToken.bare]) newLines

/-- A token that starts where `p` stands is followed by what starts on
another line, if it ends its line. -/
private theorem line_ne_eq [NameProperties]
    {start : Cursor} (hp : p.StandsIn source)
    (hne : p.rest ≠ []) (ht : Cursor.token p = .ok t c)
    (hgap : c.Walks true start) :
    decide (t.span.start.line ≠ start.position.line)
      = (breaksLine t.raw.toList || breaksLine (textBetween source
          t.span.stop.offset start.position.offset)) := by
  obtain ⟨word, lines, -, hreads, hraw⟩ := Cursor.token_takes ht hne
  rw [Cursor.token_span ht, hraw, String.toList_ofList,
    hp.line_ne_eq (token_walks ht).1 hgap, hp.textBetween_eq hreads]

/-- The last word is the end of the text. -/
private theorem wordsFrom_done [NameProperties]
    {start : Cursor} (hp : p.StandsIn source)
    (hne : p.rest ≠ []) (ht : Cursor.token p = .ok t c)
    (hgap : c.Walks true start) (hend : start.rest = [])
    (comments : List Comment) :
    (done comments start.endToken).wordsFrom (some t.span.start.line)
      = wordsOf [] (Token.endsLine source [t]) := by
  have hline := line_ne_eq hp hne ht hgap
  have hstart := (hp.walks (token_walks ht).1).walks hgap
  rw [hstart.offset_of_rest_nil hend] at hline
  exact congrArg (fun newLine =>
    [Word.mk (Cursor.ofText []).endToken.bare newLine]) hline

/-- The words of a stream after a token. -/
theorem wordsFrom_fromCursor [NameProperties]
    (hp : p.StandsIn source) (hne : p.rest ≠ [])
    (ht : Cursor.token p = .ok t c) (hsteps : c.rest.length ≤ steps)
    (h : (fromCursor steps c).Readable) :
    (fromCursor steps c).wordsFrom (some t.span.start.line)
      = wordsOf (fromCursor steps c).tokens
        (Token.endsLine source (t :: (fromCursor steps c).tokens)) := by
  induction steps generalizing p c t with
  | zero =>
      have hrest := List.length_eq_zero_iff.1 (Nat.le_zero.1 hsteps)
      exact wordsFrom_done hp hne ht (.refl c) hrest []
  | succ steps ih =>
      have hgap := Cursor.walks_skipTrivia c
      cases begins c with
      | done hend hstream =>
          rw [hstream]
          exact wordsFrom_done hp hne ht hgap hend _
      | illegal _ _ hstream =>
          rw [hstream] at h
          exact absurd h id
      | @token t' stop hrest htoken hlt hstream =>
          rw [hstream] at h ⊢
          have hstart := (hp.walks (token_walks ht).1).walks hgap
          have hlater := ih hstart hrest htoken (by omega) h.2
          have hline := line_ne_eq hp hne ht hgap
          have hfirst : t'.span.start = c.skipTrivia.2.position := by
            rw [Cursor.token_span htoken]
          rw [← hfirst] at hline
          show Word.mk t'.bare (decide (t.span.start.line
            ≠ t'.span.start.line)) :: wordsFrom _ _ = _
          rw [hlater, hline]
          rfl

/-- The words of a text. Nothing is said of a line break in front of the
first token. -/
theorem wordsFrom_ofText [NameProperties] {text : List Char}
    (h : (ofText text).Readable) :
    (ofText text).wordsFrom none
      = wordsOf (ofText text).tokens
        (false :: Token.endsLine text (ofText text).tokens) := by
  have hstands := Cursor.standsIn_ofText text
  have hgap := Cursor.walks_skipTrivia (.ofText text)
  unfold ofText at h ⊢
  cases hlength : text.length with
  | zero => rfl
  | succ steps =>
      have hsteps : (Cursor.ofText text).rest.length = steps + 1 :=
        (Cursor.ofText_length text).trans hlength
      rw [hlength] at h
      cases begins (.ofText text) with
      | done _ hstream =>
          rw [hstream]
          rfl
      | illegal _ _ hstream =>
          rw [hstream] at h
          exact absurd h id
      | @token t stop hne htoken hlt hstream =>
          rw [hstream] at h ⊢
          have hlater := wordsFrom_fromCursor (hstands.walks hgap) hne
            htoken (show stop.rest.length ≤ steps by omega) h.2
          show Word.mk t.bare false :: wordsFrom _ _ = _
          rw [hlater]
          rfl

end TokenStream

-- ============================================================= texts

/-- Texts that have the same tokens, with the line ended after the same
ones, have the same words. -/
theorem wordsFrom_eq_of_tokenList [NameProperties] {text text' : List Char}
    {list list' : TokenList} (h : tokenList {} text = .ok list)
    (h' : tokenList {} text' = .ok list')
    (hwritten : list'.entries.map TokenEntry.written
      = list.entries.map TokenEntry.written)
    (hbreaks : breaksAfter text' (list'.entries.map TokenEntry.span)
      = breaksAfter text (list.entries.map TokenEntry.span)) :
    (TokenStream.ofText text').wordsFrom none
      = (TokenStream.ofText text).wordsFrom none := by
  obtain ⟨hread, hentries⟩ := tokenList_readable h
  obtain ⟨hread', hentries'⟩ := tokenList_readable h'
  rw [hentries, hentries', List.map_map, List.map_map] at hwritten hbreaks
  have hraw : (TokenStream.ofText text').tokens.map Token.raw
      = (TokenStream.ofText text).tokens.map Token.raw := by
    have hsnd := congrArg (List.map Prod.snd) hwritten
    rwa [List.map_map, List.map_map] at hsnd
  have hbare := Token.map_bare_eq (TokenStream.lexed_ofText text)
    (TokenStream.lexed_ofText text') hraw
  have hown : (TokenStream.ofText text').tokens.map
        (fun t => breaksLine t.raw.toList)
      = (TokenStream.ofText text).tokens.map
        fun t => breaksLine t.raw.toList := by
    have hmap := congrArg (List.map fun raw => breaksLine raw.toList) hraw
    rwa [List.map_map, List.map_map] at hmap
  have hends : Token.endsLine text' (TokenStream.ofText text').tokens
      = Token.endsLine text (TokenStream.ofText text).tokens := by
    unfold Token.endsLine
    rw [hown]
    exact congrArg _ hbreaks
  rw [TokenStream.wordsFrom_ofText hread,
    TokenStream.wordsFrom_ofText hread', hends]
  unfold TokenStream.wordsOf
  rw [hbare]

end ScriptTree
