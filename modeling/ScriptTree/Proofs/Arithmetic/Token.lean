/-
Any arithmetic that is right in range reads the same tokens.

# Codes in range

The digits of an escape are four at most, so the number grows to 16 bits
(`hexDigits_agrees`), and a pair of surrogates to 21
(`pairedCode_agrees`). The number of an escape in braces stops at its
bound before it could get out of range.

# Texts of tokens

A token is cut out of the text between the cursor it starts at and the
one it ends at, which is reached by walking (`Cursor.Walks`), so the cut
is in range as well.
-/
import ScriptTree.Proofs.Arithmetic

namespace ScriptTree

variable (m : Machine) {text : List Char} {c d : Cursor} {ch : Char}
  {rest : List Char}

/-- The token between a sound cursor and one that was walked to. -/
theorem Cursor.Sound.tokenTo_agrees {mayBreak : Bool} (h : c.Sound text)
    (hw : c.Walks mayBreak d) (kind : TokenKind) (value : TokenValue) :
    @Cursor.tokenTo m.arithmetic c d kind value
      = c.tokenTo d kind value := by
  obtain ⟨word, lines, hread, -⟩ := hw.reads
  unfold Cursor.tokenTo
  rw [h.textTo_agrees m hread]

-- =========================================================== escapes

/-- So many more digits make no number that is out of range. -/
theorem hexDigits_agrees {count code : Nat} (h : c.Sound text)
    (hcode : (code + 1) * Nat.pow 16 count ≤ 0x100000000) :
    @hexDigits m.arithmetic count code c = hexDigits count code c := by
  induction count generalizing code c with
  | zero => rfl
  | succ count ih =>
      unfold hexDigits
      rw [h.peek_agrees m]
      split
      case h_2 => rfl
      case h_1 digit hnext =>
        obtain ⟨ch, hpeek, hvalue⟩ := Option.bind_eq_some_iff.1 hnext
        obtain ⟨rest, hc⟩ := Cursor.peek_eq_some.1 hpeek
        have hdigit := hexValue?_lt hvalue
        have hmove : (c.move 1).Sound text :=
          h.move_one hc (utf8Size_of_digit (isHexDigit_of_hexValue hvalue))
        have hpow : (code + 1) * 16 * Nat.pow 16 count ≤ 0x100000000 := by
          rw [Nat.mul_assoc, Nat.mul_comm 16]
          exact hcode
        have hpos : 0 < Nat.pow 16 count := Nat.pow_pos (by decide)
        have hle := Nat.le_trans (Nat.le_mul_of_pos_right _ hpos) hpow
        have hlater : (code * 16 + digit + 1) * Nat.pow 16 count
            ≤ 0x100000000 :=
          Nat.le_trans (Nat.mul_le_mul_right _ (by omega)) hpow
        have hshifted : code * 16 < 0x100000000 := by omega
        have hnext : code * 16 + digit < 0x100000000 := by omega
        rw [m.exact.word hshifted, m.exact.word hnext, ih hmove hlater]
        rfl

theorem fourDigits_agree (h : c.Sound text) :
    @hexDigits m.arithmetic 4 0 c = hexDigits 4 0 c :=
  hexDigits_agrees m h (by decide)

/-- Behind the digits that there are a cursor is sound. -/
theorem Cursor.Sound.hexDigits {count code : Nat} {found : Option Nat}
    (h : c.Sound text) (hdigits : hexDigits count code c = (found, d)) :
    d.Sound text := by
  have hw : c.Walks true d := walks_hexDigits hdigits
  exact h.walks hw

theorem bracedDigits_agrees (steps code : Nat) (h : c.Sound text) :
    @bracedDigits m.arithmetic steps code c
      = bracedDigits steps code c := by
  induction steps generalizing code c with
  | zero => rfl
  | succ steps ih =>
      unfold bracedDigits
      rw [h.peek_agrees m]
      split
      case h_1 => rfl
      case h_2 ch hpeek =>
        obtain ⟨rest, hc⟩ := Cursor.peek_eq_some.1 hpeek
        simp only [ih _ (h.move hc)]

theorem bracedEscape_agrees (h : c.Sound text) :
    @bracedEscape m.arithmetic c = bracedEscape c := by
  have hdigits : c.Walks true (c.skipWhile isHexDigit) :=
    Cursor.walks_skipWhile (withinLine_digitOf 16).not_terminator c
  have hstop := (h.walks hdigits).advance
  unfold bracedEscape
  rw [h.peek_agrees m, h.rest_agrees m, bracedDigits_agrees m _ _ h,
    bracedDigits_eq (Nat.le_refl _)]
  simp only [Scan.fail_agrees m h, Scan.fail_agrees m hstop]

theorem fourDigitEscape_agrees (h : c.Sound text) :
    @fourDigitEscape m.arithmetic c = fourDigitEscape c := by
  unfold fourDigitEscape
  rw [fourDigits_agree m h]
  rcases hdigits : hexDigits 4 0 c with ⟨- | code, stop⟩
  · exact Scan.fail_agrees m (h.hexDigits hdigits) _
  · simp only [Scan.fail_agrees m (h.hexDigits hdigits)]

-- ============================================================= names

theorem nameEscape_agrees (h : c.Sound text) :
    @nameEscape m.arithmetic c = nameEscape c := by
  rw [@nameEscape_run m.arithmetic, nameEscape_run, h.peek_agrees m,
    Scan.fail_agrees m h]
  split
  case isFalse => rfl
  case isTrue hu =>
    obtain ⟨rest, hc⟩ := Cursor.peek_eq_some.1 hu
    have hmove := h.move_one hc rfl
    rw [hmove.peek_agrees m, fourDigitEscape_agrees m hmove]
    split
    case isFalse => rfl
    case isTrue hopen =>
      obtain ⟨rest, hc⟩ := Cursor.peek_eq_some.1 hopen
      exact bracedEscape_agrees m (hmove.move_one hc rfl)

theorem nameChars_agrees [NameProperties]
    (n : Nat) (isFirst : Bool) (h : c.Sound text) :
    @nameChars _ m.arithmetic n isFirst c = nameChars n isFirst c := by
  induction n generalizing isFirst c with
  | zero => rfl
  | succ n ih =>
      rw [@nameChars_succ _ m.arithmetic, nameChars_succ, h.peek_agrees m]
      split
      case h_1 => rfl
      case h_2 ch hpeek =>
        obtain ⟨rest, hc⟩ := Cursor.peek_eq_some.1 hpeek
        split
        case isTrue hslash =>
          have hmove := h.move_one hc (by rw [hslash]; rfl)
          refine Scan.bind_congr (nameEscape_agrees m hmove) ?_
          intro ch stop hescape
          have hw : (c.move 1).Walks true stop := walksAt_nameEscape hescape
          have hstop := hmove.walks hw
          split
          case isTrue =>
            exact Scan.bind_congr (ih _ hstop) fun _ _ _ => rfl
          case isFalse => exact Scan.fail_agrees m hstop _
        case isFalse =>
          split
          case isFalse => rfl
          case isTrue =>
            exact Scan.bind_congr (ih _ (h.move hc)) fun _ _ _ => rfl

theorem plainNameEnd?_agrees [NameProperties]
    (steps : Nat) (h : c.Sound text) :
    @plainNameEnd? _ m.arithmetic steps c = plainNameEnd? steps c := by
  induction steps generalizing c with
  | zero => rfl
  | succ steps ih =>
      unfold plainNameEnd?
      rw [h.peek_agrees m]
      split
      case h_1 => rfl
      case h_2 ch hpeek =>
        obtain ⟨rest, hc⟩ := Cursor.peek_eq_some.1 hpeek
        rw [ih (h.move hc)]

/-- A name is read alike, plain or with escapes. -/
theorem name_agrees [NameProperties] (h : c.Sound text) :
    @name _ m.arithmetic c = name c := by
  unfold name
  simp only [h.rest_agrees m, h.peek_agrees m, nameChars_agrees m _ _ h,
    plainNameEnd?_agrees m _ h]
  split
  case isTrue => rfl
  case isFalse =>
    split
    case h_2 => rfl
    case h_1 stop hstop =>
      obtain ⟨chars, hread, -⟩ :=
        nameChars_of_plainNameEnd (Nat.le_refl _) hstop
      rw [h.textTo_agrees m hread]

theorem nameToken_agrees [NameProperties]
    (h : c.Sound text) (hc : c.rest = ch :: rest)
    (hname : isNameStart ch = true) :
    @nameToken _ m.arithmetic c = nameToken c := by
  unfold nameToken
  rw [name_agrees m h, name_eq_nameChars hc hname]
  split
  case h_2 => rfl
  case h_1 chars stop hchars =>
    have hw : c.Walks true stop := walksAt_nameChars _ _ hchars
    simp only [h.tokenTo_agrees m hw]

-- ========================================================== numerals

theorem radixNumeral_agrees [NameProperties] {mark : Char} {radix : Nat}
    (h : c.Sound text) (hc : c.rest = '0' :: mark :: rest)
    (hradix : radixOf? mark = some radix) :
    @radixNumeral _ m.arithmetic radix c = radixNumeral radix c := by
  have hmark := width_of_radixOf hradix
  have hfirst : (c.move 2).Sound text := by
    have hnext : (c.move 1).rest = mark :: rest := by
      rw [Cursor.move_one hc rfl]
      exact Cursor.advance_rest hc
    have hmove := (h.move_one hc rfl).move_one hnext hmark
    rwa [Cursor.move_move] at hmove
  have hwidth (ch : Char) (hdigit : isDigitOf radix ch = true) :
      1 = ch.utf8Size := (utf8Size_of_digit hdigit).symm
  have hrun := Cursor.skipRun_digits radix (c.move 2)
  have hread := Cursor.reads_skipWhile (isDigitOf radix) (c.move 2)
  have hw : c.Walks true ((c.move 2).skipWhile (isDigitOf radix)) := by
    rw [Cursor.move_two hc rfl hmark]
    exact walks_radixDigits hc hradix
  have hstop := h.walks hw
  unfold radixNumeral
  simp only [hfirst.skipRun_agrees m hwidth, hrun,
    hfirst.textTo_agrees m hread, hstop.peek_agrees m,
    Scan.fail_agrees m hstop, h.tokenTo_agrees m hw]

theorem skipDigits_agrees (h : c.Sound text) :
    @skipDigits m.arithmetic c = skipDigits c :=
  h.skipRun_agrees m fun _ hdigit => (utf8Size_of_digit hdigit).symm

theorem pastWhole_agrees (h : c.Sound text)
    (hstart : c.startsNumeral = true) :
    @pastWhole m.arithmetic c = pastWhole c := by
  unfold pastWhole
  rw [h.peek_agrees m]
  split
  case isTrue => rfl
  case isFalse hpoint =>
    rcases startsNumeral_cases hstart with
      ⟨ch, rest, hc, hdigit⟩ | ⟨ch, rest, hc, -⟩
    · exact skipDigits_agrees m
        (h.move_one hc (utf8Size_of_digit hdigit))
    · exact absurd (Cursor.peek_cons hc) hpoint

theorem pastFraction_agrees (h : c.Sound text) :
    @pastFraction m.arithmetic c = pastFraction c := by
  unfold pastFraction
  rw [h.peek_agrees m]
  split
  case isFalse => rfl
  case isTrue hpoint =>
    obtain ⟨rest, hc⟩ := Cursor.peek_eq_some.1 hpoint
    exact skipDigits_agrees m (h.move_one hc rfl)

theorem pastSign_agrees (h : c.Sound text) :
    @pastSign m.arithmetic c = pastSign c := by
  unfold pastSign
  rw [h.peek_agrees m]

theorem skipExponent_agrees (h : c.Sound text) :
    @skipExponent m.arithmetic c = skipExponent c := by
  unfold skipExponent
  rw [h.peek_agrees m]
  split
  case isFalse => rfl
  case isTrue hletter =>
    obtain ⟨ch, rest, hc, hch⟩ := Cursor.peek_or.1 hletter
    have hmove : (c.move 1).Sound text := by
      rcases hch with rfl | rfl
      · exact h.move_one hc rfl
      · exact h.move_one hc rfl
    have hsign : (pastSign (c.move 1)).Sound text := by
      rw [pastSign_eq]
      have hw : (c.move 1).Walks true (afterSign (c.move 1)) :=
        walks_afterSign _
      exact hmove.walks hw
    simp only [pastSign_agrees m hmove, hsign.peek_agrees m,
      skipDigits_agrees m hsign, Scan.fail_agrees m hsign]

theorem decimalNumeral_agrees [NameProperties] (h : c.Sound text)
    (hstart : c.startsNumeral = true) :
    @decimalNumeral _ m.arithmetic c = decimalNumeral c := by
  have hwhole : c.Walks true (pastWhole c) := by
    rw [pastWhole_eq hstart]
    exact Cursor.walks_skipWhile (withinLine_digitOf 10).not_terminator c
  have hplaces : c.Walks true (pastFraction (pastWhole c)) := by
    rw [pastFraction_eq]
    exact hwhole.trans (walks_fraction _)
  unfold decimalNumeral
  rw [pastWhole_agrees m h hstart, pastFraction_agrees m (h.walks hwhole),
    skipExponent_agrees m (h.walks hplaces)]
  split
  case h_1 => rfl
  case h_2 stop hexponent =>
    have hw : c.Walks true stop := by
      rw [skipExponent_eq] at hexponent
      split at hexponent
      case h_2 => cases hexponent
      case h_1 power stop' hpower =>
        cases hexponent
        exact hplaces.trans (walksAt_exponent hpower)
    have hstop := h.walks hw
    obtain ⟨word, lines, hread, -⟩ := hw.reads
    simp only [hstop.peek_agrees m, Scan.fail_agrees m hstop,
      h.textTo_agrees m hread, h.tokenTo_agrees m hw]

/-- A number of any form is read alike. -/
theorem numeralToken_agrees [NameProperties] (h : c.Sound text)
    (hstart : c.startsNumeral = true) :
    @numeralToken _ m.arithmetic c = numeralToken c := by
  unfold numeralToken
  rw [h.peek_agrees m, decimalNumeral_agrees m h hstart]
  split
  case isFalse => rfl
  case isTrue hzero =>
    obtain ⟨rest, hc⟩ := Cursor.peek_eq_some.1 hzero
    rw [(h.move_one hc rfl).peek_agrees m]
    split
    case h_2 => rfl
    case h_1 radix hmark =>
      obtain ⟨mark, hnext, hradix⟩ := Option.bind_eq_some_iff.1 hmark
      obtain ⟨more, hmore⟩ := Cursor.peek_eq_some.1 hnext
      rw [Cursor.move_one hc rfl, Cursor.advance_rest hc] at hmore
      rw [hmore] at hc
      exact radixNumeral_agrees m h hc hradix

-- =========================================================== strings

/-- Two surrogates stay in range together. -/
theorem pairedCode_agrees {high low : Nat} (hhigh : 0xD800 ≤ high)
    (hhigh' : high < 0xDC00) (hlow : 0xDC00 ≤ low) (hlow' : low < 0xE000) :
    @pairedCode m.arithmetic high low = pairedCode high low := by
  have habove : (high - 0xD800) * 0x400 < 0x100000000 := by omega
  have hbase : 0x10000 + (high - 0xD800) * 0x400 < 0x100000000 := by omega
  have hcode : 0x10000 + (high - 0xD800) * 0x400 + (low - 0xDC00)
      < 0x100000000 := by omega
  unfold pairedCode
  simp only [m.exact.minus hhigh, m.exact.minus hlow, m.exact.word habove,
    m.exact.word hbase, m.exact.word hcode]
  rfl

theorem surrogate_agrees (code : Nat) (h : c.Sound text) :
    @surrogate m.arithmetic code c = surrogate code c := by
  unfold surrogate
  rw [h.rest_agrees m]
  simp only
  split
  case isFalse => rfl
  case isTrue hstarts =>
    obtain ⟨hcode, hmark⟩ := Bool.and_eq_true_iff.1 hstarts
    obtain ⟨hhigh, hhigh'⟩ := Bool.and_eq_true_iff.1 hcode
    obtain ⟨rest, hrest⟩ := List.isPrefixOf_iff_prefix.1 hmark
    have hmove : (c.move 2).Sound text :=
      h.of_reads (Cursor.reads_move hrest.symm) (.inl rfl)
    rw [fourDigits_agree m hmove]
    split
    case h_2 => rfl
    case h_1 low stop _ =>
      split
      case isFalse => rfl
      case isTrue hlow =>
        obtain ⟨hlow, hlow'⟩ := Bool.and_eq_true_iff.1 hlow
        rw [pairedCode_agrees m (of_decide_eq_true hhigh)
          (of_decide_eq_true hhigh') (of_decide_eq_true hlow)
          (of_decide_eq_true hlow')]

theorem unitEscape_agrees (h : c.Sound text) :
    @unitEscape m.arithmetic c = unitEscape c := by
  unfold unitEscape
  rw [fourDigits_agree m h]
  rcases hdigits : hexDigits 4 0 c with ⟨- | code, stop⟩
  · exact Scan.fail_agrees m (h.hexDigits hdigits) _
  · simp only [surrogate_agrees m _ (h.hexDigits hdigits)]

theorem numberEscape_agrees (h : c.Sound text) :
    @numberEscape m.arithmetic c = numberEscape c := by
  rw [@numberEscape_run m.arithmetic, numberEscape_run, h.peek_agrees m,
    unitEscape_agrees m h]
  split
  case isFalse => rfl
  case isTrue hopen =>
    obtain ⟨rest, hc⟩ := Cursor.peek_eq_some.1 hopen
    exact bracedEscape_agrees m (h.move_one hc rfl)

theorem byteEscape_agrees (h : c.Sound text) :
    @byteEscape m.arithmetic c = byteEscape c := by
  unfold byteEscape
  rw [hexDigits_agrees m h (by decide)]
  rcases hdigits : hexDigits 2 0 c with ⟨found, stop⟩
  simp only [Scan.fail_agrees m (h.hexDigits hdigits)]

theorem escaped_agrees (h : c.Sound text) :
    @escaped m.arithmetic c = escaped c := by
  unfold escaped
  rw [h.peek_agrees m]
  split
  case h_1 => rfl
  case h_2 ch hpeek =>
    obtain ⟨rest, hc⟩ := Cursor.peek_eq_some.1 hpeek
    have hmove := h.move hc
    simp only [h.pastLineEnd_agrees m hc,
      Scan.map_congr (numberEscape_agrees m hmove),
      Scan.map_congr (byteEscape_agrees m hmove)]

theorem quotedChars_agrees (quote : Char) (n : Nat) (h : c.Sound text) :
    @quotedChars m.arithmetic quote n c = quotedChars quote n c := by
  induction n generalizing c with
  | zero => rfl
  | succ n ih =>
      have hmore (ch : Char) {d : Cursor} (hd : d.Sound text) :
          @andMore m.arithmetic quote ch n d = andMore quote ch n d :=
        Scan.bind_congr (ih hd) fun _ _ _ => rfl
      rw [@quotedChars_succ m.arithmetic, quotedChars_succ,
        h.peek_agrees m]
      split
      case h_1 => rfl
      case h_2 ch hpeek =>
        obtain ⟨rest, hc⟩ := Cursor.peek_eq_some.1 hpeek
        have hmove := h.move hc
        split
        case isTrue => rfl
        split
        case isTrue => rfl
        split
        case isFalse => exact hmore ch hmove
        case isTrue =>
          refine Scan.bind_congr (escaped_agrees m hmove) ?_
          intro r stop hescaped
          have hstop := hmove.walks (walksAt_escaped hescaped)
          cases r with
          | endOfText => rfl
          | lineBreak => exact ih hstop
          | char ch => exact hmore ch hstop

/-- A string is read alike. -/
theorem quotedToken_agrees {quote : Char}
    (hquote : quote = '\'' ∨ quote = '"') (h : c.Sound text)
    (hc : c.rest = quote :: rest) :
    @quotedToken m.arithmetic quote c = quotedToken quote c := by
  have hopen := Cursor.move_one hc (quote_width hquote)
  have hmove := h.move_one hc (quote_width hquote)
  unfold quotedToken
  simp only [h.rest_agrees m, quotedChars_agrees m _ _ hmove,
    Scan.fail_agrees m h]
  split
  case h_2 => rfl
  case h_3 => rfl
  case h_1 chars stop hchars =>
    have hline := quote_withinLine hquote
    have hw : c.Walks true stop := by
      rw [hopen] at hchars
      exact (Cursor.walks_advance hc hline).trans
        (walks_quotedChars hline hchars)
    rw [h.tokenTo_agrees m hw]

-- ======================================================= punctuators

theorem markAt_agrees (h : c.Sound text) (hc : c.rest = ch :: rest) :
    @markAt m.arithmetic ch c = markAt ch c := by
  unfold markAt
  rw [h.rest_agrees m]
  split
  case isTrue => rfl
  split
  case isTrue => rfl
  split
  case isFalse => rfl
  case isTrue hsingle =>
    obtain ⟨hwidth, -⟩ :=
      singleMarks_plain (List.contains_iff_mem.1 hsingle)
    have hmove := Cursor.move_one hc hwidth
    have hread := Cursor.reads_advance hc
    rw [← hmove] at hread
    simp only [h.textTo_agrees m hread]

/-- A punctuator is read alike. -/
theorem punctuatorToken_agrees (h : c.Sound text) :
    @punctuatorToken m.arithmetic c = punctuatorToken c := by
  unfold punctuatorToken
  rw [h.peek_agrees m, Scan.fail_agrees m h]
  cases hpeek : c.peek with
  | none => rfl
  | some ch =>
      obtain ⟨rest, hc⟩ := Cursor.peek_eq_some.1 hpeek
      rw [Option.bind_some, Option.bind_some, markAt_agrees m h hc]
      split
      case h_2 => rfl
      case h_1 mark stop hmark =>
        have hread : punctuatorToken c
            = .ok (c.tokenTo stop .punctuator (.text mark)) stop := by
          unfold punctuatorToken
          rw [hpeek, Option.bind_some, hmark]
        have hw : c.Walks true stop := walksAt_punctuatorToken hread
        rw [h.tokenTo_agrees m hw]

-- ============================================================ tokens

namespace Cursor.Sound

theorem startsNumeral_agrees (h : c.Sound text) :
    @Cursor.startsNumeral m.arithmetic c = c.startsNumeral := by
  unfold Cursor.startsNumeral
  rw [h.peek_agrees m, h.peekNext_agrees m]

/-- The same token is read, or the same is said of what is none. -/
theorem token_agrees [NameProperties] (h : c.Sound text) :
    @Cursor.token _ m.arithmetic c = Cursor.token c := by
  unfold Cursor.token
  rw [h.peek_agrees m, h.startsNumeral_agrees m]
  split
  case h_1 => rfl
  case h_2 ch hpeek =>
    obtain ⟨rest, hc⟩ := peek_eq_some.1 hpeek
    split
    case isTrue hname => exact nameToken_agrees m h hc hname
    split
    case isTrue hquote =>
      rw [Bool.or_eq_true, decide_eq_true_eq, decide_eq_true_eq] at hquote
      exact quotedToken_agrees m hquote h hc
    split
    case isTrue hstart => exact numeralToken_agrees m h hstart
    case isFalse => exact punctuatorToken_agrees m h

end Cursor.Sound

end ScriptTree
