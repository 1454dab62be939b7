/-
Lexemes with spaces between them are read one by one.

A space ends any token before it, and no lexeme starts with what stands
between tokens. So the stream of such a text can be read to its end, and
its words are the tokens of the lexemes (`words_spaced`). A word starts on
a new line where the lexeme before it goes on to another line.
-/
import ScriptTree.Proofs.Ahead
import ScriptTree.Token.Lexeme
import Mathlib.Data.List.Basic
import Mathlib.Tactic.IntervalCases

namespace ScriptTree

-- ============================================== the start of a token

/-- The characters between tokens, comments apart. -/
def blanks : List Char :=
  [' ', '\t', '\x0B', '\x0C', '\u00A0', '\u1680', '\u2000', '\u2001',
    '\u2002', '\u2003', '\u2004', '\u2005', '\u2006', '\u2007', '\u2008',
    '\u2009', '\u200A', '\u202F', '\u205F', '\u3000', '\uFEFF', '\n', '\r',
    '\u2028', '\u2029']

theorem mem_blanks {ch : Char}
    (h : (isWhiteSpace ch || isLineTerminator ch) = true) :
    ch ∈ blanks := by
  simp only [isWhiteSpace, isLineTerminator, Bool.or_eq_true,
    Bool.and_eq_true, decide_eq_true_eq] at h
  by_cases hrange : '\u2000' ≤ ch ∧ ch ≤ '\u200A'
  · have hlow : 0x2000 ≤ ch.toNat := hrange.1
    have hhigh : ch.toNat ≤ 0x200A := hrange.2
    rw [← Char.ofNat_toNat ch]
    generalize ch.toNat = n at hlow hhigh
    interval_cases n <;> decide
  · simp only [hrange, or_false] at h
    simp only [blanks, List.mem_cons]
    grind

/-- No name starts with such a character. -/
theorem blank_starts_no_name [NameProperties] {ch : Char}
    (h : (isWhiteSpace ch || isLineTerminator ch) = true) :
    isNameStart ch = false := by
  have hxid : isXidStart ch = false := by
    rw [Bool.eq_false_iff]
    intro hstart
    have hpart := NameProperties.continue_of_start hstart
    rcases Bool.or_eq_true_iff.1 h with hblank | hend
    · rw [NameProperties.continue_blank hblank] at hpart
      cases hpart
    · rw [NameProperties.continue_terminator hend] at hpart
      cases hpart
  have hfew : blanks.all
      (fun ch => !(ch = '$' || ch = '_' || ch = '\\')) = true := by
    decide
  rw [isNameStart, hxid, Bool.or_false, ← Bool.not_eq_true']
  exact List.all_eq_true.1 hfew ch (mem_blanks h)

/-- No other form of token starts with such a character either. -/
theorem blank_starts_nothing : ∀ ch ∈ blanks, ¬(ch = '\'' ∨ ch = '"') ∧
    isDecimalDigit ch = false ∧ ch ≠ '.' ∧
    ∀ mark ∈ punctuators, mark.toList.head? ≠ some ch := by
  -- As a statement about all characters it would be decided as such.
  rw [← List.forall_iff_forall_mem]
  decide +kernel

theorem punctuator_no_comment : ∀ mark ∈ punctuators,
    ['/', '/'].isPrefixOf mark.toList = false := by
  decide

theorem startsNumeral_of_ne {c : Cursor} {ch : Char} {rest : List Char}
    (hc : c.rest = ch :: rest) (hdigit : isDecimalDigit ch = false)
    (hpoint : ch ≠ '.') : c.startsNumeral = false := by
  unfold Cursor.startsNumeral
  rw [Cursor.peek_cons hc, if_neg (by simpa using hpoint)]
  exact hdigit

/-- What starts as no other form does is a punctuator. -/
theorem token_eq_punctuator [NameProperties]
    {c : Cursor} {ch : Char} {rest : List Char}
    (hc : c.rest = ch :: rest) (hname : isNameStart ch = false)
    (hquote : ¬(ch = '\'' ∨ ch = '"'))
    (hdigit : isDecimalDigit ch = false) (hpoint : ch ≠ '.') :
    Cursor.token c = punctuatorToken c :=
  Cursor.token_of_mark hc hname hquote
    (startsNumeral_of_ne hc hdigit hpoint)

/-- The text of a token does not start with what stands between
tokens. -/
theorem token_starts [NameProperties]
    {c d : Cursor} {ch : Char} {rest : List Char}
    {t : Token} {text : List Char} {lines : Nat}
    (hc : c.rest = ch :: rest) (h : Cursor.token c = .ok t d)
    (hread : c.Reads text lines d) :
    isWhiteSpace ch = false ∧ isLineTerminator ch = false ∧
      ['/', '/'].isPrefixOf text = false := by
  have hmark (hp : Cursor.token c = punctuatorToken c) :
      text ∈ punctuators.map String.toList := by
    rw [hp] at h
    obtain ⟨mark, hin, -, -, ht⟩ := punctuatorToken_ok h
    rw [(ht.reads.unique hread).1]
    exact List.mem_map_of_mem hin
  have hblank : (isWhiteSpace ch || isLineTerminator ch) = false := by
    by_contra hne
    rw [Bool.not_eq_false] at hne
    obtain ⟨hquote, hdigit, hpoint, hmarks⟩ :=
      blank_starts_nothing ch (mem_blanks hne)
    obtain ⟨mark, hin, rfl⟩ := List.mem_map.1
      (hmark (token_eq_punctuator hc (blank_starts_no_name hne) hquote
        hdigit hpoint))
    have hrest := hread.rest
    rw [hc] at hrest
    have hne := (punctuator_chars mark hin).1
    obtain ⟨first, tail, hcons⟩ := List.exists_cons_of_ne_nil hne
    rw [hcons] at hrest
    cases hrest
    exact hmarks mark hin (by rw [hcons]; rfl)
  have hslash : ['/', '/'].isPrefixOf text = false := by
    by_contra hne
    rw [Bool.not_eq_false] at hne
    obtain ⟨tail, htext⟩ := List.isPrefixOf_iff_prefix.1 hne
    have hrest := hread.rest
    rw [hc, ← htext] at hrest
    cases hrest
    have hname : isNameStart '/' = false := by
      rw [isNameStart_ascii (by decide)]
      decide
    obtain ⟨mark, hin, hmark⟩ := List.mem_map.1
      (hmark (token_eq_punctuator hc hname (by decide) (by decide)
        (by decide)))
    rw [← hmark, punctuator_no_comment mark hin] at hne
    cases hne
  exact ⟨(Bool.or_eq_false_iff.1 hblank).1,
    (Bool.or_eq_false_iff.1 hblank).2, hslash⟩

-- ============================================================ lexemes

theorem Token.ofText?_eq_some [NameProperties] {text : List Char} {t : Token} :
    Token.ofText? text = some t ↔
      ∃ stop, Cursor.token (.ofText text) = .ok t stop ∧ stop.rest = [] ∧
        t.isEnd = false ∧ t.isEscapedReserved = false := by
  unfold Token.ofText?
  cases h : Cursor.token (.ofText text) with
  | error d stop => simp
  | ok t' stop =>
      simp only [Option.ite_none_right_eq_some, Bool.and_eq_true,
        Bool.not_eq_true', Option.some.injEq, EStateM.Result.ok.injEq,
        List.isEmpty_iff]
      constructor
      · rintro ⟨⟨⟨hrest, hend⟩, hesc⟩, rfl⟩
        exact ⟨stop, ⟨rfl, rfl⟩, hrest, hend, hesc⟩
      · rintro ⟨_, ⟨rfl, rfl⟩, hrest, hend, hesc⟩
        exact ⟨⟨⟨hrest, hend⟩, hesc⟩, rfl⟩

namespace Lexeme

theorem text_ne_nil [NameProperties] (l : Lexeme) : l.text.toList ≠ [] := by
  intro hnil
  obtain ⟨stop, htoken, -, hend, -⟩ := Token.ofText?_eq_some.1 l.alone
  rw [hnil] at htoken
  have hnone : Cursor.token (.ofText [])
      = .ok (Cursor.ofText []).endToken (.ofText []) := rfl
  rw [hnone, EStateM.Result.ok.injEq] at htoken
  rw [← htoken.1] at hend
  cases hend

/-- A lexeme is read for what it is in any place. -/
theorem reads [NameProperties]
    (l : Lexeme) : l.token.Plain ∧ l.token.raw = l.text ∧
    ∃ lines, l.breaks = decide (lines ≠ 0) ∧
      (l.token.kind ≠ .string → l.token.kind ≠ .numeric → lines = 0) ∧
      ∀ ⦃c : Cursor⦄ ⦃tail : List Char⦄, Quiet tail →
        c.rest = l.text.toList ++ tail →
        c.skipTrivia = ([], c) ∧
        ∃ d, Cursor.token c
            = .ok { l.token with span := ⟨c.position, d.position⟩ } d ∧
          c.Reads l.text.toList lines d := by
  obtain ⟨stop, htoken, hstop, hend, hesc⟩ :=
    Token.ofText?_eq_some.1 l.alone
  obtain ⟨ch, text, htext⟩ := List.exists_cons_of_ne_nil l.text_ne_nil
  have hwhole := Cursor.ofText_rest l.text.toList
  have hstart := hwhole.trans htext
  obtain ⟨text', lines, -, hformed, hname, hat⟩ := token_ok hstart htoken
  obtain rfl : text' = l.text.toList := by
    have hrest := hat.reads.rest
    rw [hstop, List.append_nil, hwhole] at hrest
    exact hrest.symm
  refine ⟨⟨hformed, hesc⟩, ?_, lines, ?_, hname, ?_⟩
  · rw [hat.raw, String.ofList_toList]
  · have hline := hat.reads.line
    unfold breaks
    rw [hat.span]
    simp only [hline]
    exact decide_eq_decide.2 (by omega)
  · intro c tail hquiet hc
    have hclips : Clips tail stop.rest := by
      rw [hstop]
      exact hquiet.clips []
    obtain ⟨d, hd, hread⟩ := hat.alike hclips hc
    refine ⟨?_, d, hd, hread⟩
    have hcons : c.rest = ch :: (text ++ tail) := by rw [hc, htext]; rfl
    obtain ⟨hwhite, hterm, hslash⟩ := token_starts hcons hd hread
    have hcomment : c.comment? = none := by
      apply Cursor.comment?_eq_none
      intro rest hrest
      have hclips := hquiet.clips l.text.toList
      rw [← hc, hrest] at hclips
      have hpre := hclips.prefix_of (by decide)
        (List.prefix_append ['/', '/'] rest)
      rw [List.isPrefixOf_iff_prefix.2 hpre] at hslash
      cases hslash
    unfold Cursor.skipTrivia
    rw [hcons, List.length_cons, Cursor.skipTriviaWithin,
      Cursor.peek_cons hcons]
    simp only [hwhite, (Cursor.lineBreak_eq_none hcons).2 hterm, hcomment,
      Bool.false_eq_true, if_false]

theorem plain [NameProperties] (l : Lexeme) : l.token.Plain := l.reads.1

theorem raw_eq [NameProperties]
    (l : Lexeme) : l.token.raw = l.text := l.reads.2.1

/-- A name, a word or a mark ends on the line on which it starts. -/
theorem not_breaks [NameProperties] {l : Lexeme}
    (hstring : l.token.kind ≠ .string)
    (hnumeric : l.token.kind ≠ .numeric) : l.breaks = false := by
  obtain ⟨-, -, lines, hbreaks, hline, -⟩ := l.reads
  rw [hbreaks, hline hstring hnumeric]
  rfl

-- ------------------------------------------------------------- spaced

/-- The text of lexemes that follow another one. -/
def trailing [NameProperties] (lexemes : List Lexeme) : List Char :=
  lexemes.flatMap fun l => ' ' :: l.text.toList

theorem quiet_trailing [NameProperties] :
    ∀ lexemes : List Lexeme, Quiet (trailing lexemes)
  | [] => .inl rfl
  | _ :: _ => .inr ⟨_, rfl⟩

theorem spaced_cons [NameProperties] (l : Lexeme) (rest : List Lexeme) :
    spaced (l :: rest) = l.text.toList ++ trailing rest := by
  induction rest generalizing l with
  | nil => simp [spaced, ScriptTree.spaced, trailing, List.intercalate]
  | cons next rest ih =>
      have hnext := ih next
      unfold spaced ScriptTree.spaced at hnext ⊢
      simp only [List.map_cons] at hnext ⊢
      rw [List.intercalate_cons_cons, hnext]
      simp [trailing]

theorem trailing_append [NameProperties] (lexemes rest : List Lexeme) :
    trailing (lexemes ++ rest) = trailing lexemes ++ trailing rest :=
  List.flatMap_append

/-- A lexeme takes a character, and a space in front of it. -/
theorem length_le_trailing [NameProperties] (lexemes : List Lexeme) :
    2 * lexemes.length ≤ (trailing lexemes).length := by
  induction lexemes with
  | nil => exact Nat.le_refl _
  | cons l rest ih =>
      have hl := List.length_pos_iff.2 l.text_ne_nil
      unfold trailing at ih ⊢
      rw [List.flatMap_cons, List.length_append, List.length_cons,
        List.length_cons]
      omega

/-- There is no space in front of the first lexeme. -/
theorem length_spaced [NameProperties] (lexemes : List Lexeme) :
    (spaced lexemes).length = (trailing lexemes).length - 1 := by
  cases lexemes with
  | nil => rfl
  | cons l rest =>
      have htrailing : trailing (l :: rest)
          = ' ' :: (l.text.toList ++ trailing rest) := rfl
      rw [spaced_cons, htrailing, List.length_cons]
      omega

theorem length_le_spaced [NameProperties] (lexemes : List Lexeme) :
    lexemes.length ≤ (spaced lexemes).length := by
  have hle := length_le_trailing lexemes
  rw [length_spaced]
  omega

theorem length_spaced_le [NameProperties]
    (before lexemes after : List Lexeme) :
    (spaced lexemes).length
      ≤ (spaced (before ++ lexemes ++ after)).length := by
  rw [length_spaced, length_spaced, trailing_append, trailing_append,
    List.length_append, List.length_append]
  omega

/-- The words of lexemes, the first of which may stand on a new line. -/
def words [NameProperties] : Bool → List Lexeme → List Word
  | _, [] => []
  | newLine, l :: rest => ⟨l.token.bare, newLine⟩ :: words l.breaks rest

@[simp] theorem words_token [NameProperties]
    (newLine : Bool) (lexemes : List Lexeme) :
    (words newLine lexemes).map Word.token
      = lexemes.map fun l => l.token.bare := by
  induction lexemes generalizing newLine with
  | nil => rfl
  | cons l rest ih => rw [words, List.map_cons, List.map_cons, ih]

/-- What stands before some lexemes tells of the first one only whether it
stands on a new line. -/
theorem words_append [NameProperties]
    (newLine : Bool) (lexemes : List Lexeme) :
    ∃ newLine', ∀ rest, words newLine (lexemes ++ rest)
      = words newLine lexemes ++ words newLine' rest := by
  induction lexemes generalizing newLine with
  | nil => exact ⟨newLine, fun _ => rfl⟩
  | cons l lexemes ih =>
      obtain ⟨newLine', h⟩ := ih l.breaks
      refine ⟨newLine', fun rest => ?_⟩
      rw [List.cons_append, words, words, h, List.cons_append]

end Lexeme

namespace TokenStream

/-- A lexeme that a cursor comes to is the next token of its stream. -/
theorem fromCursor_lexeme [NameProperties] {steps : Nat} {c start : Cursor}
    {tail : List Char} {line : Nat} (l : Lexeme) (hquiet : Quiet tail)
    (hskip : c.skipTrivia = ([], start))
    (hline : start.position.line = c.position.line)
    (hc : start.rest = l.text.toList ++ tail) :
    ∃ d : Cursor, d.rest = tail ∧
      d.rest.length < start.rest.length ∧
      ((fromCursor steps d).Readable →
        (fromCursor (steps + 1) c).Readable) ∧
      (fromCursor (steps + 1) c).words line
        = ⟨l.token.bare, line ≠ c.position.line⟩
          :: (fromCursor steps d).words c.position.line ∧
      decide (c.position.line ≠ d.position.line) = l.breaks := by
  obtain ⟨hplain, -, lines, hbreaks, -, hread⟩ := l.reads
  obtain ⟨-, d, hd, hreads⟩ := hread hquiet hc
  have hrest : d.rest = tail := hreads.rest_eq hc
  have hend : start.rest.isEmpty = false := by
    obtain ⟨ch, text, htext⟩ := List.exists_cons_of_ne_nil l.text_ne_nil
    rw [hc, htext]
    rfl
  have hstream : fromCursor (steps + 1) c
      = .token [] { l.token with span := ⟨start.position, d.position⟩ }
          (fromCursor steps d) := by
    rw [fromCursor, hskip]
    simp only [hend, Bool.false_eq_true, if_false, hd]
  refine ⟨d, hrest, hreads.length_lt l.text_ne_nil, ?_, ?_, ?_⟩
  · rw [hstream]
    intro h
    exact ⟨⟨hplain.formed.of_bare rfl, hplain.unescaped⟩, h⟩
  · rw [hstream, words]
    simp only [hline]
    rfl
  · rw [hbreaks, hreads.line, hline]
    exact decide_eq_decide.2 (by omega)

theorem words_trailing [NameProperties]
    (lexemes : List Lexeme) {steps : Nat} {c : Cursor}
    {line : Nat} (hc : c.rest = Lexeme.trailing lexemes)
    (hsteps : c.rest.length ≤ steps) :
    (fromCursor steps c).Readable ∧
      (fromCursor steps c).words line
        = Lexeme.words (line ≠ c.position.line) lexemes := by
  induction lexemes generalizing steps c line with
  | nil =>
      rw [fromCursor_of_rest_nil hc]
      exact ⟨rfl, rfl⟩
  | cons l rest ih =>
      have hcons : c.rest
          = ' ' :: (l.text.toList ++ Lexeme.trailing rest) := hc
      have hquiet := Lexeme.quiet_trailing rest
      have hnext : c.advance.rest
          = l.text.toList ++ Lexeme.trailing rest :=
        Cursor.advance_rest hcons
      have hskip : c.skipTrivia = ([], c.advance) := by
        obtain ⟨-, -, lines, -, -, hread⟩ := l.reads
        unfold Cursor.skipTrivia
        rw [hcons, List.length_cons, ← hnext, Cursor.skipTriviaWithin,
          Cursor.peek_cons hcons]
        simp only [show isWhiteSpace ' ' = true from rfl, if_true,
          ← Cursor.advance_eq hcons]
        exact (hread hquiet hnext).1
      have hline : c.advance.position.line = c.position.line :=
        (Cursor.reads_advance hcons).line
      cases steps with
      | zero =>
          rw [hcons] at hsteps
          cases hsteps
      | succ steps =>
          obtain ⟨d, hd, hlt, hreadable, hwords, hbreaks⟩ :=
            fromCursor_lexeme l hquiet hskip hline hnext
          have hlength : c.advance.rest.length + 1 = c.rest.length := by
            rw [hcons, List.length_cons, hnext]
          have hle : d.rest.length ≤ steps := by omega
          obtain ⟨hr, hw⟩ := ih hd hle
          refine ⟨hreadable hr, ?_⟩
          rw [hwords, hw, hbreaks]
          rfl

/-- The stream of lexemes with spaces between them is made of their
tokens. -/
theorem words_spaced [NameProperties] (lexemes : List Lexeme) {line : Nat}
    (hline : line = (Cursor.ofText (Lexeme.spaced lexemes)).position.line) :
    (ofText (Lexeme.spaced lexemes)).Readable ∧
      (ofText (Lexeme.spaced lexemes)).words line
        = Lexeme.words false lexemes := by
  cases lexemes with
  | nil => exact ⟨rfl, rfl⟩
  | cons l rest =>
      have hquiet := Lexeme.quiet_trailing rest
      have hc : (Cursor.ofText (Lexeme.spaced (l :: rest))).rest
          = l.text.toList ++ Lexeme.trailing rest := by
        rw [Cursor.ofText_rest]
        exact Lexeme.spaced_cons l rest
      obtain ⟨-, -, lines, -, -, hread⟩ := l.reads
      obtain ⟨steps, hsteps⟩ : ∃ steps,
          (Lexeme.spaced (l :: rest)).length = steps + 1 := by
        have hpos := List.length_pos_iff.2 l.text_ne_nil
        refine ⟨(Lexeme.spaced (l :: rest)).length - 1, ?_⟩
        rw [Lexeme.spaced_cons, List.length_append]
        omega
      obtain ⟨d, hd, hlt, hreadable, hwords, hbreaks⟩ :=
        fromCursor_lexeme l hquiet (hread hquiet hc).1 rfl hc
      have hlength : (Cursor.ofText (Lexeme.spaced (l :: rest))).rest.length
          = steps + 1 := by
        rw [Cursor.ofText_rest]
        exact hsteps
      have hle : d.rest.length ≤ steps := by omega
      obtain ⟨hr, hw⟩ := words_trailing rest hd hle
      unfold ofText
      rw [hsteps]
      refine ⟨hreadable hr, ?_⟩
      rw [hwords, hw, hbreaks, hline]
      simp [Lexeme.words]

end TokenStream

/-- A strict parse of lexemes with spaces between them has their tokens
ahead. -/
theorem Lexeme.skip_spaced [NameProperties] (lexemes : List Lexeme) :
    ∃ s, Parse.skip (.ofText (spaced lexemes) false) = .ok () s ∧
      s.Sound ∧ s.rest.Readable ∧ s.words = words false lexemes := by
  obtain ⟨hreadable, hwords⟩ := TokenStream.words_spaced lexemes rfl
  obtain ⟨s, hshift, hs, hr, hw⟩ := ParseState.shift_of_readable
    (s := .ofText (spaced lexemes) false) rfl hreadable
  exact ⟨s, Parse.skip_ok.2 hshift, hs, hr, hw.trans hwords⟩

end ScriptTree
