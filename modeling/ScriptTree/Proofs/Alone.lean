/-
What a token is depends on its own text.

# Alone

The text of a token, taken out of the source and read by a new reader, is
one token of the same kind and value, whatever the scan of it looked at
beyond its end (`TokenReader.standsFor_raw`). Where the token is a word in
escapes, both readers have to be tolerant.

# Names

What a name or word comes to is spelled with characters that fit where
they are (`Cursor.token_names`). So it may be written without its escapes,
and is then the same word, which no reader finds fault with
(`Token.standsFor_name`).
-/
import ScriptTree.Proofs.Feed.Failure
import ScriptTree.Proofs.Literal
import ScriptTree.Proofs.Scanning.Name
import ScriptTree.Source.NameRanges

namespace ScriptTree

variable {r r' : TokenReader} {t : Token}

/-- A new reader of the text takes all of it for one token, of the kind
and with the value of the given one. -/
structure Token.StandsFor [NameProperties] (t : Token) (text : List Char)
    (tolerant keeps : Bool) (alone : Token) (stop : TokenReader) :
    Prop where
  read : (TokenReader.ofText text tolerant keeps).token = .ok alone stop
  kind : alone.kind = t.kind
  value : alone.value = t.value
  atEnd : stop.cursor.atEnd = true
  offsets : alone.span.start.offset = 0 ∧
    alone.span.stop.offset = byteLength text

-- ============================================================== words

/-- A token that is a word is read as one, and comes to a name without
escapes. -/
theorem Cursor.token_names [NameProperties]
    {c d : Cursor} (h : token c = .ok t d)
    (hkind : t.kind ∈ [.identifier, .keyword, .null, .boolean]) :
    ∃ chars, chars ≠ [] ∧ NamesPlainly true chars ∧
      t.kind = wordKind (.ofList chars) ∧
      t.value = .text (.ofList chars) := by
  cases c.opens with
  | nothing _ hsame =>
      rw [hsame] at h
      cases h
      exact absurd hkind (by simp [endToken])
  | name hc hname hsame =>
      rw [hsame] at h
      exact nameToken_names hc hname h
  | string hc hquote hsame =>
      rw [hsame] at h
      obtain ⟨-, -, -, -, hstring, -⟩ := quotedToken_ok hquote hc h
      simp [hstring] at hkind
  | numeral _ _ _ hstart hsame =>
      rw [hsame] at h
      obtain ⟨-, -, -, -, hnumeric, -⟩ := numeralToken_ok hstart h
      simp [hnumeric] at hkind
  | punctuator _ _ _ _ hsame =>
      rw [hsame] at h
      obtain ⟨mark, -, hmark, -⟩ := punctuatorToken_ok h
      simp [hmark] at hkind

/-- A name that is spelled out stands for the word, whatever its spelling
was. Nothing is recorded. -/
theorem Token.standsFor_name [NameProperties]
    {chars : List Char} (hne : chars ≠ []) (hplain : NamesPlainly true chars)
    (hkind : t.kind = wordKind (.ofList chars))
    (hvalue : t.value = .text (.ofList chars)) (tolerant keeps : Bool) :
    ∃ alone stop, t.StandsFor chars tolerant keeps alone stop ∧
      stop.log.recorded = [] := by
  have hrest := Cursor.ofText_rest chars
  have hseen : NamesPlainly true (Cursor.ofText chars).rest := by
    rwa [hrest]
  obtain ⟨stop, hreads, htoken⟩ := hseen.token_eq (by rwa [hrest])
  rw [hrest] at hreads htoken
  let alone : Token := ⟨wordKind (.ofList chars), .text (.ofList chars),
    .ofList chars, ⟨(Cursor.ofText chars).position, stop.position⟩⟩
  have hspelled : alone.isEscapedReserved = false := by
    simp [isEscapedReserved, shown, alone]
  have haccept : (DiagnosticLog.mk tolerant []).accept alone
      = .ok ⟨tolerant, []⟩ :=
    Parse.accept_ok.2 (by simp [hspelled])
  have hend : stop.rest = [] :=
    hreads.rest_eq (by rw [hrest, List.append_nil])
  refine ⟨alone, ⟨stop, ⟨tolerant, []⟩, keeps⟩, ⟨?_, ?_, ?_, ?_, ?_⟩, rfl⟩
  · exact TokenReader.token_eq_ok.2 ⟨stop, _, htoken, haccept, rfl⟩
  · exact hkind.symm
  · exact hvalue.symm
  · exact (hreads.inStep (Cursor.inStep_ofText chars)).atEnd_iff.2 hend
  · exact ⟨rfl, hreads.offset.trans (Nat.zero_add _)⟩

-- ============================================================= tokens

/-- The text of a token stands for it. -/
theorem TokenReader.standsFor_raw [NameProperties] (h : r.token = .ok t r')
    (hend : t.isEnd = false) (keeps : Bool) :
    ∃ alone stop,
      t.StandsFor t.raw.toList r.log.tolerant keeps alone stop := by
  obtain ⟨after, log, htoken, haccept, -⟩ := token_eq_ok.1 h
  obtain ⟨place, stop, halone, hatEnd⟩ :=
    (Token.Lexed.of_token htoken hend).alone
  -- Both logs are asked about the same word.
  have hsame : ({ t with span := place } : Token).isEscapedReserved
      = t.isEscapedReserved := rfl
  have hlog : escapesAmong [{ t with span := place }] ≠ [] →
      r.log.tolerant = true := by
    intro hescapes
    have hescaped : t.isEscapedReserved = true := by
      by_contra hplain
      exact hescapes (by simp [escapesAmong, hsame, hplain])
    have haccept := Parse.accept_ok.1 haccept
    rw [if_pos hescaped] at haccept
    exact haccept.1
  obtain ⟨log', haccept', -⟩ :=
    @DiagnosticLog.accept_of ⟨r.log.tolerant, []⟩ _ hlog
  refine ⟨{ t with span := place }, ⟨stop, log', keeps⟩,
    token_eq_ok.2 ⟨stop, log', halone, haccept', rfl⟩, rfl, rfl, hatEnd, ?_⟩
  rcases Cursor.token_ends halone with
    ⟨hnone, -⟩ | ⟨-, word, lines, -, hreads, hraw, rfl⟩
  · rw [Token.isEnd] at hend hnone
    rw [hend] at hnone
    cases hnone
  · have hword : t.raw.toList = word := by
      rw [show t.raw = .ofList word from hraw, String.toList_ofList]
    rw [hword]
    exact ⟨rfl, hreads.offset.trans (Nat.zero_add _)⟩

/-- Wherever in a source a token is read, a new reader of the same
tolerance takes the text between its ends for one token of the same kind
and value. If the token is a word, its name stands for it as well when it
is spelled out, for a reader of any tolerance, and nothing is recorded
then. -/
theorem token_stands_alone [NameProperties] {source before : List Char}
    (hsource : source = before ++ r.cursor.rest)
    (hoffset : r.cursor.position.offset = byteLength before)
    (h : r.token = .ok t r') (hend : t.isEnd = false) (keeps : Bool) :
    (∃ alone stop, t.StandsFor
      (textBetween source t.span.start.offset t.span.stop.offset)
      r.log.tolerant keeps alone stop) ∧
    (t.kind ∈ [.identifier, .keyword, .null, .boolean] →
      ∃ name, t.value = .text name ∧ ∀ tolerant, ∃ alone stop,
        t.StandsFor name.toList tolerant keeps alone stop ∧
        stop.log.recorded = []) := by
  obtain ⟨htoken, -⟩ := TokenReader.token_cursor h
  constructor
  · rcases Cursor.token_ends htoken with
      ⟨hatEnd, -⟩ | ⟨-, word, lines, -, hreads, hraw, hspan⟩
    · rw [hend] at hatEnd
      cases hatEnd
    · have hbetween := hreads.textBetween_eq hsource hoffset
      have halone := TokenReader.standsFor_raw h hend keeps
      rw [hraw, String.toList_ofList, ← hbetween] at halone
      rw [hspan]
      exact halone
  · intro hkind
    obtain ⟨chars, hne, hplain, hword, hvalue⟩ :=
      Cursor.token_names htoken hkind
    refine ⟨.ofList chars, hvalue, fun tolerant => ?_⟩
    rw [String.toList_ofList]
    exact Token.standsFor_name hne hplain hword hvalue tolerant keeps

/-- A truth value in escapes, after two characters of a source and in
front of a point. -/
theorem token_stands_alone_escape :
    let source := "[!tru\\u0065.a]".toList
    let r : TokenReader :=
      ⟨⟨source, ⟨2, 1, 0⟩, 0⟩, ⟨true, []⟩, false⟩
    let t : Token := ⟨.boolean, .text "true", "tru\\u0065",
      ⟨⟨2, 1, 0⟩, ⟨11, 1, 0⟩⟩⟩
    (∃ r', r.token = .ok t r') ∧
    (∃ alone stop, t.StandsFor
      (textBetween source t.span.start.offset t.span.stop.offset)
      true false alone stop) ∧
    ∃ name, t.value = .text name ∧ ∀ tolerant, ∃ alone stop,
      t.StandsFor name.toList tolerant false alone stop ∧
      stop.log.recorded = [] := by
  intro source r t
  have hread : r.token = .ok t ⟨⟨source, ⟨11, 1, 0⟩, 0⟩,
      ⟨true, [⟨2, 1, 3, .escapedReserved⟩]⟩, false⟩ := by
    decide +kernel
  have hsource : source = "[!".toList ++ r.cursor.rest := by
    decide +kernel
  obtain ⟨halone, hword⟩ :=
    token_stands_alone hsource rfl hread rfl false
  exact ⟨⟨_, hread⟩, halone, hword (by decide)⟩

end ScriptTree
