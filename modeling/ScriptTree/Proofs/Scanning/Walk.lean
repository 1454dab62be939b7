/-
How cursors move through the lines of a text.

# Walks

A cursor goes on character by character, and takes a line terminator as
a whole where it takes one (`Cursor.Walks`). Within a line there are
only characters. Every scan of a token walks, and only a string can
leave its line (`token_walks`); what stands between tokens may leave the
line too (`walks_skipTrivia`).

# Lines

What was read on a walk has a line terminator in it just if the line has
changed (`Cursor.Walks.reads`).
-/
import ScriptTree.Proofs.Scanning.Digits
import ScriptTree.Source.Line
import ScriptTree.Source.Trivia

namespace ScriptTree

variable {mayBreak : Bool} {c d e : Cursor}

-- ================================================= line terminators

/-- A class of characters without the line terminators. -/
def WithinLine (p : Char → Bool) : Prop :=
  p '\n' = false ∧ p '\r' = false ∧ p '\u2028' = false ∧ p '\u2029' = false

/-- Four characters decide it. -/
instance (p : Char → Bool) : Decidable (WithinLine p) :=
  inferInstanceAs (Decidable (_ ∧ _ ∧ _ ∧ _))

/-- What is in such a class ends no line. -/
theorem WithinLine.not_terminator {p : Char → Bool} (hp : WithinLine p)
    {ch : Char} (h : p ch = true) : isLineTerminator ch = false := by
  obtain ⟨hlf, hcr, hls, hps⟩ := hp
  rw [Bool.eq_false_iff]
  intro hch
  simp only [isLineTerminator, Bool.or_eq_true, decide_eq_true_eq] at hch
  rcases hch with ((rfl | rfl) | rfl) | rfl
  · rw [hlf] at h
    cases h
  · rw [hcr] at h
    cases h
  · rw [hls] at h
    cases h
  · rw [hps] at h
    cases h

theorem withinLine_whiteSpace : WithinLine isWhiteSpace := by decide

theorem withinLine_digitOf (radix : Nat) :
    WithinLine (isDigitOf radix) := ⟨rfl, rfl, rfl, rfl⟩

theorem withinLine_namePart [NameProperties] : WithinLine isNamePart := by
  have hnone {ch : Char} (h : isLineTerminator ch = true) :
      isXidContinue ch = false :=
    NameProperties.continue_terminator h
  refine ⟨?_, ?_, ?_, ?_⟩ <;> rw [isNamePart, hnone rfl] <;> rfl

theorem withinLine_nameStart [NameProperties] : WithinLine isNameStart := by
  have hnone {ch : Char} (h : isNamePart ch = false) :
      isNameStart ch = false :=
    Bool.eq_false_iff.2 fun hstart =>
      Bool.eq_false_iff.1 h (isNamePart_of_isNameStart hstart)
  obtain ⟨hlf, hcr, hls, hps⟩ := withinLine_namePart
  exact ⟨hnone hlf, hnone hcr, hnone hls, hnone hps⟩

theorem withinLine_fitsName [NameProperties] (isFirst : Bool) :
    WithinLine (fitsName isFirst) := by
  cases isFirst with
  | false => exact withinLine_namePart
  | true => exact withinLine_nameStart

theorem withinLine_hexValue : WithinLine fun ch => (hexValue? ch).isSome :=
  ⟨rfl, rfl, rfl, rfl⟩

theorem withinLine_radixOf : WithinLine fun ch => (radixOf? ch).isSome :=
  ⟨rfl, rfl, rfl, rfl⟩

-- ====================================================== the judgment

namespace Cursor

/-- From one cursor on to another, character by character, and over line
terminators where that is allowed. Braces do not matter. -/
inductive Walks (mayBreak : Bool) : Cursor → Cursor → Prop where
  | refl (c : Cursor) : Walks mayBreak c c
  | char {c d : Cursor} {ch : Char} {rest : List Char} :
      c.rest = ch :: rest → isLineTerminator ch = false →
        Walks mayBreak c.advance d → Walks mayBreak c d
  | lineBreak {c next d : Cursor} :
      mayBreak = true → c.lineBreak? = some next →
        Walks mayBreak next d → Walks mayBreak c d
  | braces {c d : Cursor} {depth : Nat} :
      Walks mayBreak { c with braceDepth := depth } d → Walks mayBreak c d

namespace Walks

/-- Two stretches of characters are one. -/
theorem trans (h : c.Walks mayBreak d) (h' : d.Walks mayBreak e) :
    c.Walks mayBreak e := by
  induction h with
  | refl => exact h'
  | char hrest hch _ ih => exact .char hrest hch (ih h')
  | lineBreak hmay hbreak _ ih => exact .lineBreak hmay hbreak (ih h')
  | braces _ ih => exact .braces (ih h')

/-- What stays in its line does so where leaving it is allowed. -/
theorem mayLeave (h : c.Walks false d) : c.Walks mayBreak d := by
  induction h with
  | refl => exact .refl _
  | char hrest hch _ ih => exact .char hrest hch ih
  | lineBreak hmay => cases hmay
  | braces _ ih => exact .braces ih

end Walks

/-- One character within a line is passed. -/
theorem walks_advance {ch : Char} {rest : List Char}
    (hrest : c.rest = ch :: rest) (hch : isLineTerminator ch = false) :
    c.Walks mayBreak c.advance := .char hrest hch (.refl _)

theorem walks_mark {ch : Char} (hpeek : c.peek = some ch)
    (hch : isLineTerminator ch = false) : c.Walks mayBreak c.advance := by
  obtain ⟨rest, hrest⟩ := peek_eq_some.1 hpeek
  exact walks_advance hrest hch

/-- A line break is passed and counted. -/
theorem walks_lineBreak (h : c.lineBreak? = some d) : c.Walks true d :=
  .lineBreak rfl h (.refl d)

/-- A text that stays in its line is walked over as it stands. -/
theorem walks_skip {count : Nat} : ∀ {c : Cursor} {text rest : List Char},
    c.rest = text ++ rest → text.length = count →
      breaksLine text = false → c.Walks mayBreak (c.skip count) := by
  induction count with
  | zero => exact fun _ _ _ => .refl _
  | succ count ih =>
      intro c text rest hrest hlen hline
      cases text with
      | nil => cases hlen
      | cons ch text =>
          rw [breaksLine, List.any_cons, Bool.or_eq_false_iff] at hline
          have hnext : c.rest = ch :: (text ++ rest) := hrest
          exact .char hnext hline.1
            (ih (advance_rest hnext) (Nat.succ.inj hlen) hline.2)

/-- Characters of a class without line terminators are passed. -/
theorem walks_skipWhile {p : Char → Bool}
    (hp : ∀ {ch}, p ch = true → isLineTerminator ch = false) (c : Cursor) :
    c.Walks mayBreak (c.skipWhile p) := by
  induction h : c.rest generalizing c with
  | nil =>
      rw [skipWhile_nil h]
      exact .refl c
  | cons ch rest ih =>
      rw [skipWhile_cons h]
      split
      case isTrue hch => exact .char h (hp hch) (ih _ (advance_rest h))
      case isFalse => exact .refl c

/-- What was read on a walk has a line terminator in it just if the line
has changed. -/
theorem Walks.reads (h : c.Walks mayBreak d) :
    ∃ text lines, c.Reads text lines d ∧
      (breaksLine text = true ↔ 0 < lines) ∧
      (mayBreak = false → lines = 0) := by
  induction h with
  | refl c => exact ⟨[], 0, .refl c, by simp [breaksLine], fun _ => rfl⟩
  | char hrest hch _ ih =>
      obtain ⟨text, lines, hr, hbreaks, hfalse⟩ := ih
      refine ⟨_, _, (reads_advance hrest).trans hr, ?_, ?_⟩
      · simpa [breaksLine, hch] using hbreaks
      · simpa using hfalse
  | @lineBreak c next d hmay hbreak _ ih =>
      obtain ⟨text, lines, hr, -, -⟩ := ih
      obtain ⟨mark, hmark, hr'⟩ : ∃ mark, breaksLine mark = true ∧
          c.Reads mark 1 next := by
        rcases lineBreak?_eq_some.1 hbreak with
          ⟨rest, hrest, rfl⟩ | ⟨ch, rest, hrest, hch, -, rfl⟩
        · exact ⟨['\r', '\n'], rfl, reads_startLine hrest⟩
        · have hone : c.rest = [ch] ++ rest := hrest
          exact ⟨[ch], by simp [breaksLine, hch], reads_startLine hone⟩
      refine ⟨_, _, hr'.trans hr, ?_, ?_⟩
      · rw [breaksLine] at hmark ⊢
        rw [List.any_append, hmark, Bool.true_or]
        exact ⟨fun _ => by omega, fun _ => rfl⟩
      · intro hfalse
        rw [hmay] at hfalse
        cases hfalse
  | braces _ ih =>
      obtain ⟨text, lines, hr, h⟩ := ih
      exact ⟨text, lines, ⟨hr.source, hr.rest, hr.offset, hr.line⟩, h⟩

/-- Who walks stays between characters. -/
theorem InStep.walks (h : c.InStep) (hw : c.Walks mayBreak d) :
    d.InStep := by
  obtain ⟨text, lines, hreads, -⟩ := hw.reads
  exact hreads.inStep h

end Cursor

-- ============================================================= scans

namespace Scan

variable {α β : Type}

/-- A success walks from the cursor on. -/
def WalksAt (mayBreak : Bool) (p : Scan α) (c : Cursor) : Prop :=
  ∀ ⦃a d⦄, p c = .ok a d → c.Walks mayBreak d

theorem walksAt_pure (a : α) : (pure a : Scan α).WalksAt mayBreak c := by
  intro b d h
  obtain ⟨-, rfl⟩ := pure_ok.1 h
  exact .refl d

theorem walksAt_fail (cause : Cause) :
    (Scan.fail cause : Scan α).WalksAt mayBreak c := by
  rintro a d ⟨⟩

/-- Two actions pass over what each of them does. -/
theorem WalksAt.bind {p : Scan α} {f : α → Scan β}
    (hp : p.WalksAt mayBreak c)
    (hf : ∀ a d, p c = .ok a d → (f a).WalksAt mayBreak d) :
    (p >>= f).WalksAt mayBreak c := by
  intro b e h
  obtain ⟨a, d, h₁, h₂⟩ := bind_ok.1 h
  exact (hp h₁).trans (hf a d h₁ h₂)

theorem WalksAt.map {p : Scan α} {f : α → β}
    (hp : p.WalksAt mayBreak c) : (f <$> p).WalksAt mayBreak c := by
  intro b d h
  obtain ⟨a, h₁, -⟩ := map_ok.1 h
  exact hp h₁

end Scan

open Scan (WalksAt walksAt_pure walksAt_fail)

-- =========================================================== escapes

/-- Digits are walked over, also where one is missing. -/
theorem walks_hexDigits {count code : Nat} {digits : Option Nat}
    (h : hexDigits count code c = (digits, d)) : c.Walks mayBreak d := by
  induction count generalizing code c with
  | zero =>
      cases h
      exact .refl _
  | succ count ih =>
      rcases hexDigits_cases count code c with
        ⟨ch, rest, digit, hrest, hvalue, hnext⟩ | hnone
      · rw [hnext] at h
        have hch := withinLine_hexValue.not_terminator
          (Option.isSome_of_eq_some hvalue)
        exact .char hrest hch (ih h)
      · rw [hnone] at h
        cases h
        exact .refl _

theorem walksAt_bracedEscape : bracedEscape.WalksAt mayBreak c := by
  intro ch d h
  obtain ⟨digits, rest, -, hdigits, hc, -, rfl⟩ := bracedEscape_eq_ok.1 h
  have hclose := (reads_braced hdigits hc).2.1
  exact (Cursor.walks_skipWhile
    (withinLine_digitOf 16).not_terminator c).trans
      (Cursor.walks_advance hclose rfl)

theorem walksAt_fourDigitEscape : fourDigitEscape.WalksAt mayBreak c := by
  intro ch d h
  obtain ⟨code, hdigits, -⟩ := fourDigitEscape_eq_ok.1 h
  exact walks_hexDigits hdigits

theorem walksAt_nameEscape : nameEscape.WalksAt mayBreak c := by
  intro ch d h
  rw [nameEscape_eq] at h
  split at h
  case isFalse => cases h
  case isTrue hu =>
    have hfirst : c.Walks mayBreak c.advance := Cursor.walks_mark hu rfl
    split at h
    case isTrue hbrace =>
      exact (hfirst.trans (Cursor.walks_mark hbrace rfl)).trans
        (walksAt_bracedEscape h)
    case isFalse => exact hfirst.trans (walksAt_fourDigitEscape h)

-- ============================================================= names

/-- A name passes over characters within a line. -/
theorem walksAt_nameChars [NameProperties] (steps : Nat) (isFirst : Bool) :
    (nameChars steps isFirst).WalksAt mayBreak c := by
  induction steps generalizing isFirst c with
  | zero => exact walksAt_pure _
  | succ steps ih =>
      -- A character and the rest of the name.
      have hmore (ch : Char) (c : Cursor) : WalksAt mayBreak
          (nameChars steps false >>= fun chars => pure (ch :: chars)) c :=
        .bind (ih false) fun _ _ _ => walksAt_pure _
      intro chars d h
      cases nameNext isFirst c with
      | ends _ hsame =>
          rw [hsame] at h
          cases h
          exact .refl _
      | escape hrest hsame =>
          rw [hsame] at h
          refine .char hrest rfl (WalksAt.bind walksAt_nameEscape ?_ h)
          intro ch stop _
          split
          · exact hmore ch stop
          · exact walksAt_fail _
      | plain hrest _ hfits hsame =>
          rw [hsame] at h
          have hch := (withinLine_fitsName isFirst).not_terminator hfits
          exact .char hrest hch (hmore _ _ h)

theorem walksAt_nameToken [NameProperties] {ch : Char} {rest : List Char}
    (hc : c.rest = ch :: rest) (hname : isNameStart ch = true) :
    nameToken.WalksAt mayBreak c := by
  intro t d h
  obtain ⟨chars, hchars, -⟩ := (nameToken_eq_ok hc hname).1 h
  exact walksAt_nameChars _ _ hchars

-- ========================================================== numerals

/-- The mark of a radix and the digits behind it are walked over. -/
theorem walks_radixDigits {mark : Char} {radix : Nat} {rest : List Char}
    (hrest : c.rest = '0' :: mark :: rest)
    (hradix : radixOf? mark = some radix) :
    c.Walks mayBreak (afterRadixDigits radix c) := by
  have hmark := withinLine_radixOf.not_terminator
    (Option.isSome_of_eq_some hradix)
  have hfront : c.rest = ['0', mark] ++ rest := hrest
  have hskip : c.Walks mayBreak (c.skip 2) :=
    Cursor.walks_skip hfront rfl (by
      rw [breaksLine, List.any_cons, List.any_cons, hmark]
      rfl)
  exact hskip.trans (Cursor.walks_skipWhile
    (withinLine_digitOf radix).not_terminator _)

theorem walks_fraction (c : Cursor) :
    c.Walks mayBreak (fraction c).2 := by
  unfold fraction
  split
  case isTrue hpoint =>
    exact (Cursor.walks_mark hpoint rfl).trans (Cursor.walks_skipWhile
      (withinLine_digitOf 10).not_terminator _)
  case isFalse => exact .refl c

/-- One of two characters is walked over that stand within their line. -/
theorem walks_peek_or {a b : Char} (ha : isLineTerminator a = false)
    (hb : isLineTerminator b = false)
    (h : (c.peek = some a || c.peek = some b) = true) :
    c.Walks mayBreak c.advance := by
  obtain ⟨ch, rest, hrest, rfl | rfl⟩ := Cursor.peek_or.1 h
  · exact Cursor.walks_advance hrest ha
  · exact Cursor.walks_advance hrest hb

theorem walks_afterSign (c : Cursor) : c.Walks mayBreak (afterSign c) := by
  unfold afterSign
  split
  case isTrue hsign => exact walks_peek_or rfl rfl hsign
  case isFalse => exact .refl c

/-- An exponent passes over characters within a line. -/
theorem walksAt_exponent : exponent.WalksAt mayBreak c := by
  intro power d h
  rw [exponent_eq] at h
  split at h
  case isFalse =>
    cases h
    exact .refl _
  case isTrue hletter =>
    obtain ⟨-, rfl, -⟩ := exponentDigits_eq_ok.1 h
    exact ((walks_peek_or rfl rfl hletter).trans
      (walks_afterSign _)).trans (Cursor.walks_skipWhile
        (withinLine_digitOf 10).not_terminator _)

/-- The digits of a decimal numeral are walked over up to its exponent. -/
theorem walks_places (c : Cursor) :
    c.Walks mayBreak (fraction (c.skipWhile isDecimalDigit)).2 :=
  (Cursor.walks_skipWhile (withinLine_digitOf 10).not_terminator c).trans
    (walks_fraction _)

/-- A decimal number passes over characters within a line. -/
theorem walksAt_decimalNumeral [NameProperties]
    (hstart : c.startsNumeral = true) : decimalNumeral.WalksAt mayBreak c := by
  intro t d h
  obtain ⟨power, hpower, -⟩ := (decimalNumeral_eq_ok hstart).1 h
  exact (walks_places c).trans (walksAt_exponent hpower)

/-- A number of any form passes over characters within a line. -/
theorem walksAt_numeralToken [NameProperties]
    (hstart : c.startsNumeral = true) : numeralToken.WalksAt mayBreak c := by
  intro t d h
  rcases numeralToken_cases c with
    ⟨mark, rest, radix, hrest, hradix, hsame⟩ | ⟨-, hsame⟩
  · rw [hsame] at h
    obtain ⟨-, rfl, -⟩ := (radixNumeral_eq_ok hrest hradix).1 h
    exact walks_radixDigits hrest hradix
  · rw [hsame] at h
    exact walksAt_decimalNumeral hstart h

-- =========================================================== strings

theorem walks_surrogate (code : Nat) (c : Cursor) :
    c.Walks mayBreak (surrogate code c).2 := by
  rw [surrogate_eq]
  split
  case isFalse => exact .refl c
  case isTrue hmark =>
    split
    case h_2 => exact .refl c
    case h_1 low stop hlow =>
      split
      case isFalse => exact .refl c
      case isTrue =>
        rw [Bool.and_eq_true] at hmark
        obtain ⟨rest, hrest⟩ := List.isPrefixOf_iff_prefix.1 hmark.2
        have hskip : c.Walks mayBreak (c.skip 2) :=
          Cursor.walks_skip hrest.symm rfl rfl
        exact hskip.trans (walks_hexDigits hlow)

theorem walksAt_unitEscape : unitEscape.WalksAt mayBreak c := by
  intro ch d h
  obtain ⟨code, stop, hdigits, ⟨-, rfl⟩ | ⟨-, hpair⟩⟩ :=
    unitEscape_eq_ok.1 h
  · exact walks_hexDigits hdigits
  · have hstop : stop.Walks mayBreak (surrogate code stop).2 :=
      walks_surrogate code stop
    rw [hpair] at hstop
    exact (walks_hexDigits hdigits).trans hstop

theorem walksAt_numberEscape : numberEscape.WalksAt mayBreak c := by
  intro ch d h
  rw [numberEscape_eq] at h
  split at h
  case isTrue hbrace =>
    exact (Cursor.walks_mark hbrace rfl).trans (walksAt_bracedEscape h)
  case isFalse => exact walksAt_unitEscape h

theorem walksAt_byteEscape : byteEscape.WalksAt mayBreak c := by
  intro ch d h
  obtain ⟨code, hdigits, -⟩ := byteEscape_eq_ok.1 h
  exact walks_hexDigits hdigits

theorem walksAt_afterLetter (ch : Char) :
    (afterLetter ch).WalksAt mayBreak c := by
  unfold afterLetter
  split
  · exact walksAt_numberEscape.map
  split
  · exact walksAt_byteEscape.map
  · exact walksAt_pure _

/-- What a backslash comes to may leave the line. -/
theorem walksAt_escaped : escaped.WalksAt true c := by
  intro r d h
  rcases escaped_cases c with
    ⟨-, hend⟩ | ⟨next, hbreak, hnext⟩ | ⟨ch, rest, hrest, hch, hletter⟩
  · rw [hend] at h
    cases h
    exact .refl _
  · rw [hnext] at h
    cases h
    exact Cursor.walks_lineBreak hbreak
  · rw [hletter] at h
    exact .char hrest hch (walksAt_afterLetter ch h)

/-- The characters of a string count the line breaks among them. -/
theorem walks_quotedChars {quote : Char} {steps : Nat} {chars : List Char}
    (hquote : isLineTerminator quote = false)
    (h : quotedChars quote steps c = .ok (some chars) d) :
    c.Walks true d := by
  induction steps generalizing chars c with
  | zero => cases h
  | succ steps ih =>
      have hmore {ch : Char} {c : Cursor}
          (h : andMore quote ch steps c = .ok (some chars) d) :
          c.Walks true d := by
        obtain ⟨found, stop, h₁, h₂⟩ := bind_ok.1 h
        obtain ⟨hfound, rfl⟩ := pure_ok.1 h₂
        obtain ⟨chars', rfl, -⟩ := Option.map_eq_some_iff.1 hfound.symm
        exact ih h₁
      cases stringNext quote c with
      | ends _ hsame | lineBreak _ _ hsame =>
          rw [hsame] at h
          cases h
      | quote hrest hsame =>
          rw [hsame] at h
          cases h
          exact Cursor.walks_advance hrest hquote
      | escape hrest _ hsame =>
          rw [hsame] at h
          obtain ⟨r, stop, hescaped, h⟩ := bind_ok.1 h
          have hstop : c.Walks true stop :=
            .char hrest rfl (walksAt_escaped hescaped)
          cases r with
          | endOfText => cases (pure_ok.1 h).1
          | lineBreak => exact hstop.trans (ih h)
          | char ch => exact hstop.trans (hmore h)
      | plain hrest _ _ hline hsame =>
          rw [hsame] at h
          exact .char hrest hline (hmore h)

/-- A string counts the line breaks in it. -/
theorem walksAt_quotedToken {quote : Char} {rest : List Char}
    (hquote : quote = '\'' ∨ quote = '"') (hc : c.rest = quote :: rest) :
    (quotedToken quote).WalksAt true c := by
  have hline := quote_withinLine hquote
  intro t d h
  obtain ⟨chars, hchars, -⟩ := (quotedToken_eq_ok hquote hc).1 h
  exact .char hc hline (walks_quotedChars hline hchars)

-- ======================================================= punctuators

/-- No punctuator has a line terminator in it. -/
theorem punctuators_withinLine :
    ∀ mark ∈ punctuators, breaksLine mark.toList = false := by
  decide

theorem walksAt_punctuatorToken :
    punctuatorToken.WalksAt mayBreak c := by
  intro t d h
  obtain ⟨mark, hmark, rfl, -⟩ := punctuatorToken_eq_ok.1 h
  obtain ⟨hin, rest, hrest⟩ := punctuator?_in_front hmark
  exact (Cursor.walks_skip hrest String.length_toList
    (punctuators_withinLine mark hin)).trans (.braces (.refl _))

-- ============================================================ tokens

/-- A token is walked over, and only a string may leave its line. -/
theorem token_walks [NameProperties]
    {t : Token} (h : Cursor.token c = .ok t d) :
    c.Walks true d ∧ (t.kind ≠ .string → c.Walks false d) := by
  have hline (h : c.Walks false d) :
      c.Walks true d ∧ (t.kind ≠ .string → c.Walks false d) :=
    ⟨h.mayLeave, fun _ => h⟩
  cases c.opens with
  | nothing _ hsame =>
      rw [hsame] at h
      cases h
      exact hline (.refl _)
  | name hc hname hsame =>
      rw [hsame] at h
      exact hline (walksAt_nameToken hc hname h)
  | string hc hquote hsame =>
      rw [hsame] at h
      refine ⟨walksAt_quotedToken hquote hc h, fun hkind => ?_⟩
      obtain ⟨chars, -, rfl⟩ := (quotedToken_eq_ok hquote hc).1 h
      exact absurd rfl hkind
  | numeral _ _ _ hstart hsame =>
      rw [hsame] at h
      exact hline (walksAt_numeralToken hstart h)
  | punctuator _ _ _ _ hsame =>
      rw [hsame] at h
      exact hline (walksAt_punctuatorToken h)

-- ============================================================ trivia

namespace Cursor

/-- Whether a character stands within its line. -/
def inLine (ch : Char) : Bool := !isLineTerminator ch

/-- Behind the characters within a line it ends, if the text does not. -/
theorem lineBreak?_after_line (c : Cursor) :
    (c.skipWhile inLine).lineBreak? =
      (c.skipWhile inLine).peek.map (c.skipWhile inLine).pastLineEnd := by
  unfold lineBreak?
  cases hpeek : (c.skipWhile inLine).peek with
  | none => rfl
  | some ch =>
      have hends : (c.skipWhile inLine).peek.any inLine = false := by
        rw [peek, skipWhile_rest]
        exact dropWhile_head_any _ _
      rw [hpeek, Option.any_some, inLine, Bool.not_eq_false'] at hends
      simp only [hends, if_true, Option.map_some]

/-- A comment is what is in its line behind the slashes, and reading goes
on in the next line. -/
theorem lineComment_eq {rest : List Char} (h : c.rest = '/' :: '/' :: rest) :
    (c.move 2).lineComment 2 =
      let stop := (c.skip 2).skipWhile inLine
      (⟨.ofList ((c.skip 2).rest.takeWhile inLine),
        c.position, stop.position⟩, stop.lineBreak?.getD stop) := by
  have hrun : ((c.skip 2).skipRun (fun ch => !isLineTerminator ch)
      Char.utf8Size) = (c.skip 2).skipWhile inLine :=
    skipRun_eq (fun _ _ => rfl) (c.skip 2)
  have hmove := move_two h rfl rfl
  have hstart : { (c.skip 2).position with
      offset := Arithmetic.minus (c.skip 2).position.offset 2 }
        = c.position := by
    rw [← hmove]
    rfl
  unfold lineComment
  rw [hmove]
  simp only [hrun, hstart, lineBreak?_after_line,
    (reads_skipWhile inLine (c.skip 2)).textTo_eq]
  cases ((c.skip 2).skipWhile inLine).peek with
  | none => rfl
  | some ch => rfl

/-- A comment takes the rest of its line; then there is a line break, or
the text ends. -/
theorem comment?_eq_some {comment : Comment}
    (h : c.comment? = some (comment, d)) :
    ∃ body stop, c.Reads ('/' :: '/' :: body) 0 stop ∧
      c.Walks false stop ∧ breaksLine body = false ∧
      comment = ⟨.ofList body, c.position, stop.position⟩ ∧
      (stop.lineBreak? = some d ∨ stop.rest = [] ∧ d = stop) := by
  unfold comment? at h
  split at h
  case isFalse => cases h
  case isTrue hfirst =>
    obtain ⟨rest, hrest⟩ := slashes_iff.1 hfirst
    rw [lineComment_eq hrest] at h
    simp only [Option.some.injEq, Prod.mk.injEq] at h
    obtain ⟨rfl, rfl⟩ := h
    have hslashes : c.rest = ['/', '/'] ++ rest := hrest
    have hmark := reads_skip hslashes rfl
    have hbody := reads_skipWhile inLine (c.skip 2)
    have hwalk : c.Walks false (c.skip 2) := walks_skip hslashes rfl rfl
    refine ⟨_, _, hmark.trans hbody,
      hwalk.trans (walks_skipWhile (by simp [inLine]) _), ?_, rfl, ?_⟩
    · show ((c.skip 2).rest.takeWhile inLine).any isLineTerminator = false
      rw [List.any_eq_false]
      intro ch hch
      have hin := List.all_eq_true.1 List.all_takeWhile ch hch
      simpa [inLine] using hin
    · cases hstop : ((c.skip 2).skipWhile inLine).rest with
      | nil =>
          right
          refine ⟨rfl, ?_⟩
          rw [lineBreak?_after_line, peek_nil hstop]
          rfl
      | cons ch rest =>
          left
          rw [lineBreak?_after_line, peek_cons hstop]
          rfl

/-- A comment counts the line break at its end. -/
theorem walks_comment {comment : Comment}
    (h : c.comment? = some (comment, d)) : c.Walks true d := by
  obtain ⟨body, stop, -, hwalk, -, -, hbreak | ⟨-, rfl⟩⟩ :=
    comment?_eq_some h
  · exact hwalk.mayLeave.trans (walks_lineBreak hbreak)
  · exact hwalk.mayLeave

/-- What is passed over first on the way to a token. -/
inductive Skips (c : Cursor) : Prop where
  | nothing : (∀ steps, c.skipTriviaWithin steps = ([], c)) → Skips c
  | blank {ch : Char} {rest : List Char} : c.rest = ch :: rest →
      isWhiteSpace ch = true →
      (∀ steps, c.skipTriviaWithin (steps + 1)
        = c.advance.skipTriviaWithin steps) → Skips c
  | lineBreak {next : Cursor} : c.lineBreak? = some next →
      (∀ steps, c.skipTriviaWithin (steps + 1)
        = next.skipTriviaWithin steps) → Skips c
  | comment {comment : Comment} {next : Cursor} :
      c.comment? = some (comment, next) →
      (∀ steps, c.skipTriviaWithin (steps + 1)
        = (comment :: (next.skipTriviaWithin steps).1,
          (next.skipTriviaWithin steps).2)) → Skips c

theorem skipTriviaWithin_nil (h : c.rest = []) (steps : Nat) :
    c.skipTriviaWithin steps = ([], c) := by
  cases steps with
  | zero => rfl
  | succ steps => rw [skipTriviaWithin, peek_nil h]

/-- What may be passed over before a token is passed over. -/
theorem skips (c : Cursor) : c.Skips := by
  cases hrest : c.rest with
  | nil => exact .nothing (skipTriviaWithin_nil hrest)
  | cons ch rest =>
      cases hblank : isWhiteSpace ch with
      | true =>
          refine .blank hrest hblank fun steps => ?_
          rw [skipTriviaWithin, peek_cons hrest]
          simp only [hblank, if_true, advance_eq hrest]
      | false =>
          cases hbreak : c.lineBreak? with
          | some next =>
              refine .lineBreak hbreak fun steps => ?_
              rw [skipTriviaWithin, peek_cons hrest]
              simp only [hblank, Bool.false_eq_true, if_false, hbreak]
          | none =>
              cases hcomment : c.comment? with
              | some found =>
                  refine .comment hcomment fun steps => ?_
                  rw [skipTriviaWithin, peek_cons hrest]
                  simp only [hblank, Bool.false_eq_true, if_false, hbreak,
                    hcomment]
              | none =>
                  refine .nothing fun steps => ?_
                  cases steps with
                  | zero => rfl
                  | succ steps =>
                      rw [skipTriviaWithin, peek_cons hrest]
                      simp only [hblank, Bool.false_eq_true, if_false,
                        hbreak, hcomment]

theorem walks_blank {ch : Char} {rest : List Char} (h : c.rest = ch :: rest)
    (hblank : isWhiteSpace ch = true) : c.Walks mayBreak c.advance :=
  walks_advance h (withinLine_whiteSpace.not_terminator hblank)

/-- Trivia are passed over, and their line breaks are counted. -/
theorem walks_skipTriviaWithin (steps : Nat) (c : Cursor) :
    c.Walks true (c.skipTriviaWithin steps).2 := by
  induction steps generalizing c with
  | zero => exact .refl c
  | succ steps ih =>
      cases skips c with
      | nothing hskip =>
          rw [hskip]
          exact .refl c
      | blank hrest hblank hskip =>
          rw [hskip]
          exact (walks_blank hrest hblank).trans (ih _)
      | lineBreak hbreak hskip =>
          rw [hskip]
          exact (walks_lineBreak hbreak).trans (ih _)
      | comment hcomment hskip =>
          rw [hskip]
          exact (walks_comment hcomment).trans (ih _)

/-- What stands between tokens is walked over. -/
theorem walks_skipTrivia (c : Cursor) : c.Walks true c.skipTrivia.2 :=
  walks_skipTriviaWithin _ c

/-- Each comment was found on the way to the next token. -/
theorem comment_found {comment : Comment} (steps : Nat) (c : Cursor)
    (hin : comment ∈ (c.skipTriviaWithin steps).1) :
    ∃ start next, c.Walks true start ∧
      start.comment? = some (comment, next) ∧
        next.Walks true (c.skipTriviaWithin steps).2 := by
  induction steps generalizing c with
  | zero => cases hin
  | succ steps ih =>
      -- It comes after what was passed over first.
      have hlater {next : Cursor} (hnext : c.Walks true next)
          (hin : comment ∈ (next.skipTriviaWithin steps).1) :
          ∃ start stop, c.Walks true start ∧
            start.comment? = some (comment, stop) ∧
              stop.Walks true (next.skipTriviaWithin steps).2 := by
        obtain ⟨start, stop, hstart, hfound⟩ := ih next hin
        exact ⟨start, stop, hnext.trans hstart, hfound⟩
      cases skips c with
      | nothing hskip =>
          rw [hskip] at hin
          cases hin
      | blank hrest hblank hskip =>
          rw [hskip] at hin ⊢
          exact hlater (walks_blank hrest hblank) hin
      | lineBreak hbreak hskip =>
          rw [hskip] at hin ⊢
          exact hlater (walks_lineBreak hbreak) hin
      | @comment first next hcomment hskip =>
          rw [hskip] at hin ⊢
          rcases List.mem_cons.1 hin with rfl | hin
          · exact ⟨c, next, .refl c, hcomment,
              walks_skipTriviaWithin steps next⟩
          · exact hlater (walks_comment hcomment) hin

/-- Both ends of a comment are walked to, on the way to the next token. -/
theorem walks_comments {comment : Comment} (steps : Nat) (c : Cursor)
    (hin : comment ∈ (c.skipTriviaWithin steps).1) :
    ∃ start stop, c.Walks true start ∧ start.Walks true stop ∧
      stop.Walks true (c.skipTriviaWithin steps).2 ∧
        comment.span = ⟨start.position, stop.position⟩ := by
  obtain ⟨start, next, hstart, hcomment, hlast⟩ := comment_found steps c hin
  obtain ⟨body, stop, -, hwalk, -, rfl, hend⟩ := comment?_eq_some hcomment
  have hnext : stop.Walks true next := by
    rcases hend with hbreak | ⟨-, rfl⟩
    · exact walks_lineBreak hbreak
    · exact .refl _
  exact ⟨start, stop, hstart, hwalk.mayLeave, hnext.trans hlast, rfl⟩

end Cursor

end ScriptTree
