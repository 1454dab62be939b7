/-
Texts that have a series of tokens in common.

A strict parse has the tokens of its text as words ahead, each with
whether it starts on a new line (`ParseState.ahead_ofText`). Where a
series of tokens stands in two texts, and the line is ended after the same
ones of them, the words that follow its first token are the same
(`Word.split_of_part`). Of the first token nothing is said but what it is:
what stands in front of it may end a line or not.
-/
import ScriptTree.Proofs.Extension
import ScriptTree.Proofs.Layout
import ScriptTree.Proofs.Forward
import ScriptTree.Proofs.Concord
import ScriptTree.Proofs.Yield.Expression

namespace ScriptTree

-- ============================================================ tokens

/-- A keyword without its place. -/
def Token.ofWord (word : String) : Token :=
  ⟨.keyword, .text word, word, default⟩

/-- What is written of a punctuator. -/
def writtenMark (mark : String) : Option TokenKind × String :=
  (some .punctuator, mark)

/-- What is written of a keyword. -/
def writtenWord (word : String) : Option TokenKind × String :=
  (some .keyword, word)

/-- A keyword or punctuator is its text. -/
theorem Token.Plain.bare_eq {t : Token} (h : t.Plain)
    (hkind : t.kind = .keyword ∨ t.kind = .punctuator) :
    t.bare = ⟨t.kind, .text t.raw, t.raw, default⟩ := by
  have hvalue : t.value = .text t.raw := by
    rcases hkind with hkind | hkind
    · exact h.raw_eq (by rw [hkind]; rfl)
    · cases h.formed with
      | punctuator mark _ _ hvalue hraw => rw [hvalue, hraw]
      | word chars text _ hword =>
          have hnot : t.kind ≠ .punctuator := by
            rcases wordKind_cases (.ofList chars) with
              ⟨h, -⟩ | ⟨h, -⟩ | ⟨h, -⟩ | h <;> simp [hword, h]
          exact absurd hkind hnot
      | string _ hother | numeral _ hother =>
          rw [hkind] at hother
          cases hother
  unfold bare
  rw [hvalue]

/-- It shows in what is written whether a token is a given keyword. -/
theorem Token.Plain.isKeyword_iff {t : Token} (h : t.Plain)
    (word : String) : t.isKeyword word = true ↔
      TokenEntry.written (.token t) = writtenWord word := by
  rw [Token.isKeyword_iff]
  constructor
  · rintro ⟨hkind, htext⟩
    have htext' : t.bare.text? = some word := htext
    rw [h.bare_eq (.inl hkind)] at htext'
    exact Prod.ext (congrArg some hkind) (Option.some.inj htext')
  · intro hwritten
    obtain ⟨hkind, hraw⟩ := Prod.mk.inj hwritten
    have hkind : t.kind = .keyword := Option.some.inj hkind
    refine ⟨hkind, ?_⟩
    show t.bare.text? = some word
    rw [h.bare_eq (.inl hkind)]
    exact congrArg some hraw

/-- Tokens of which it is known what is written. -/
theorem Token.map_bare_of_written {tokens : List Token}
    (parts : List (TokenKind × String)) (h : ∀ t ∈ tokens, t.Plain)
    (hparts : ∀ part ∈ parts,
      part.1 = .keyword ∨ part.1 = .punctuator)
    (hwritten : tokens.map (fun t => TokenEntry.written (.token t))
      = parts.map fun part => (some part.1, part.2)) :
    tokens.map Token.bare
      = parts.map fun part => ⟨part.1, .text part.2, part.2, default⟩ := by
  induction tokens generalizing parts with
  | nil =>
      rw [List.map_nil, eq_comm, List.map_eq_nil_iff] at hwritten
      rw [hwritten]
      rfl
  | cons t tokens ih =>
      obtain ⟨part, parts, rfl, hpart, hrest⟩ :=
        List.map_eq_cons_iff.1 hwritten.symm
      rw [List.forall_mem_cons] at h hparts
      obtain ⟨hkind, hraw⟩ := Prod.mk.inj hpart
      have hkind : part.1 = t.kind := Option.some.inj hkind
      rw [hkind] at hparts
      rw [List.map_cons, List.map_cons, ih _ h.2 hparts.2 hrest.symm,
        h.1.bare_eq hparts.1, hkind, hraw]

-- =========================================================== streams

namespace TokenStream

variable {stream : TokenStream}

theorem Readable.plain (h : stream.Readable) :
    ∀ t ∈ stream.tokens, t.Plain := by
  induction stream with
  | token _ _ _ ih => exact List.forall_mem_cons.2 ⟨h.1, ih h.2⟩
  | done _ _ => simp [tokens]
  | illegal _ _ => exact absurd h id

/-- The words of a stream with its end as the last one are its words and
one more. -/
theorem Readable.words_eq (h : stream.Readable) (line : Nat) :
    stream.words line
      = (stream.wordsFrom (some line)).take stream.tokens.length := by
  induction stream generalizing line with
  | token comments t rest ih =>
      rw [words, wordsFrom, tokens, List.length_cons, List.take_succ_cons,
        ih h.2]
      simp
  | done _ _ => rfl
  | illegal _ _ => exact absurd h id

theorem map_token_words (stream : TokenStream) (line : Nat) :
    (stream.words line).map Word.token
      = stream.tokens.map Token.bare := by
  induction stream generalizing line with
  | token _ _ _ ih => rw [words, tokens, List.map_cons, List.map_cons, ih]
  | done _ _ => rfl
  | illegal _ _ => rfl

theorem map_newLine_zipWith (tokens : List Token)
    (newLines : List Bool) :
    (List.zipWith Word.mk tokens newLines).map Word.newLine
      = newLines.take tokens.length := by
  induction tokens generalizing newLines with
  | nil => simp
  | cons t tokens ih =>
      cases newLines with
      | nil => rfl
      | cons newLine newLines =>
          rw [List.zipWith_cons_cons, List.map_cons, ih, List.length_cons,
            List.take_succ_cons]

/-- A word starts on a new line if the token before it ends its line.
Nothing is said of the first word. -/
theorem map_newLine_words [NameProperties] {text : List Char}
    (h : (ofText text).Readable) (line : Nat) :
    ((ofText text).words line).tail.map Word.newLine
      = (Token.endsLine text (ofText text).tokens).take
        ((ofText text).tokens.length - 1) := by
  have hwords := wordsFrom_ofText h
  cases hstream : ofText text with
  | illegal _ _ =>
      rw [hstream] at h
      exact absurd h id
  | done _ _ => rfl
  | token comments t rest =>
      rw [hstream] at h hwords
      have hrest : rest.wordsFrom (some t.span.start.line)
          = wordsOf rest.tokens
            (Token.endsLine text (t :: rest.tokens)) :=
        (List.cons.inj hwords).2
      rw [words, List.tail_cons, h.2.words_eq, hrest, wordsOf,
        List.map_take, map_newLine_zipWith, List.take_take, tokens,
        List.length_cons]
      congr 1
      simp

end TokenStream

/-- Whether lines are ended within or after the tokens of a part. -/
theorem Token.endsLine_part (source : List Char)
    (front part back : List Token) :
    ((endsLine source (front ++ part ++ back)).drop
        front.length).take part.length
      = List.zipWith (· || ·) (part.map fun t => breaksLine t.raw.toList)
        (((breaksAfter source ((front ++ part ++ back).map
          Token.span)).drop front.length).take part.length) := by
  unfold endsLine
  rw [List.drop_zipWith, List.take_zipWith, List.map_append,
    List.map_append, List.append_assoc,
    List.drop_left' (List.length_map _),
    List.take_left' (List.length_map _)]

/-- The same tokens end lines in two texts if the lines are ended after
the same ones. -/
theorem Token.endsLine_shared {source source' : List Char}
    {front part part' back back' : List Token}
    (hraw : part'.map Token.raw = part.map Token.raw)
    (hbreaks : ((breaksAfter source' ((front ++ part' ++ back').map
        Token.span)).drop front.length).take part.length
      = (breaksAfter source ((part ++ back).map
        Token.span)).take part.length) :
    ((endsLine source' (front ++ part' ++ back')).drop
        front.length).take part.length
      = (endsLine source (part ++ back)).take part.length := by
  have hlength : part'.length = part.length := by
    simpa using congrArg List.length hraw
  have hown := congrArg (List.map fun raw => breaksLine raw.toList) hraw
  rw [List.map_map, List.map_map] at hown
  have hpart := endsLine_part source [] part back
  have hpart' := endsLine_part source' front part' back'
  rw [hlength, hbreaks] at hpart'
  rw [hpart']
  exact (congrArg (List.zipWith _ · _) hown).trans hpart.symm

-- ============================================================= words

theorem Word.eq_of_map {ws ws' : List Word}
    (htoken : ws'.map Word.token = ws.map Word.token)
    (hnewLine : ws'.map Word.newLine = ws.map Word.newLine) :
    ws' = ws := by
  induction ws generalizing ws' with
  | nil => exact List.map_eq_nil_iff.1 htoken
  | cons w ws ih =>
      obtain ⟨w', ws', rfl, hw, hws⟩ := List.map_eq_cons_iff.1 htoken
      obtain ⟨hw', hws'⟩ := List.cons.inj hnewLine
      obtain ⟨token, newLine⟩ := w
      obtain ⟨token', newLine'⟩ := w'
      obtain rfl : token' = token := hw
      obtain rfl : newLine' = newLine := hw'
      rw [ih hws hws']

/-- The words of two texts, of which the second one has two more tokens in
front of the tokens of the first one, and others after them. -/
theorem Word.split_of_part {words words' : List Word}
    {first second third : Token} {later more : List Token}
    {lines lines' : List Bool}
    (htoken : words.map Word.token = third :: later)
    (htoken' : words'.map Word.token
      = first :: second :: third :: (later ++ more))
    (hline : words.tail.map Word.newLine = lines.take later.length)
    (hline' : words'.tail.map Word.newLine
      = lines'.take (2 + later.length + more.length))
    (hshared : (lines'.drop 2).take later.length
      = lines.take later.length) :
    ∃ w ws w₁ w₂ w' tail, words = w :: ws ∧
      words' = w₁ :: w₂ :: w' :: (ws ++ tail) ∧ w.token = third ∧
      w₁.token = first ∧ w₂.token = second ∧ w'.token = third ∧
      tail.map Word.token = more := by
  obtain ⟨w, ws, rfl, hw, hws⟩ := List.map_eq_cons_iff.1 htoken
  obtain ⟨w₁, _, rfl, hw₁, hmore⟩ := List.map_eq_cons_iff.1 htoken'
  obtain ⟨w₂, _, rfl, hw₂, hmore⟩ := List.map_eq_cons_iff.1 hmore
  obtain ⟨w', _, rfl, hw', hmore⟩ := List.map_eq_cons_iff.1 hmore
  obtain ⟨ws', tail, rfl, hws', htail⟩ := List.map_eq_append_iff.1 hmore
  refine ⟨w, ws, w₁, w₂, w', tail, rfl, ?_, hw, hw₁, hw₂, hw', htail⟩
  have hlength : ws'.length = later.length := by
    rw [← hws', List.length_map]
  have hsame : ws' = ws := by
    apply Word.eq_of_map (hws'.trans hws.symm)
    have hlines := congrArg
      (fun lines => (lines.drop 2).take later.length) hline'
    simp only [List.tail_cons, List.map_cons, List.drop_succ_cons,
      List.drop_zero, List.map_append] at hlines
    rw [List.take_left' (by rw [List.length_map, hlength])] at hlines
    rw [List.tail_cons] at hline
    rw [hlines, hline, ← hshared, List.drop_take, List.take_take]
    congr 1
    omega
  rw [hsame]

-- ============================================================ states

namespace ParseState

/-- As many tokens are ahead as words. -/
theorem ahead_eq_length (s : ParseState) : s.ahead = s.words.length := by
  unfold ahead words
  split
  case isTrue => rfl
  case isFalse =>
    have hlength := congrArg List.length
      (TokenStream.map_token_words s.rest s.lookahead.span.start.line)
    rw [List.length_map, List.length_map] at hlength
    rw [List.length_cons, hlength]

/-- A strict parse starts in front of the words of its text. -/
theorem ahead_ofText [NameProperties] {text : List Char}
    (h : (TokenStream.ofText text).Readable) :
    ∃ s line, Parse.skip (.ofText text false) = .ok () s ∧
      s.Ahead ((TokenStream.ofText text).words line) := by
  obtain ⟨s, hshift, hs, hr, hwords⟩ :=
    shift_of_readable (s := .ofText text false) rfl h
  exact ⟨s, _, Parse.skip_ok.2 hshift, hs, hr, hwords⟩

end ParseState

end ScriptTree
