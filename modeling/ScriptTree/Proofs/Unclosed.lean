/-
Strings that are not closed.

# Escapes

What is read after a backslash are pieces of a string
(`pieces_of_escaped`). If that fails, there is an escape by number that is
none (`startsBrokenEscape_of_escaped`).

# Strings

So a string is read only if it is closed, and fails within only at an
escape that is broken (`accounts_quotedChars`). Where neither holds of the
text, the string fails at its opening quote (`token_of_unclosed`).
-/
import ScriptTree.Proofs.Spelling
import ScriptTree.Source.NameRanges

namespace ScriptTree

open StringPiece (written)

variable {c d : Cursor} {quote : Char} {text rest : List Char}
  {pieces : List StringPiece}

-- =========================================================== escapes

theorem written_one (piece : StringPiece) : written [piece] = piece.text :=
  List.append_nil _

theorem fits_nil : ∀ piece ∈ ([] : List StringPiece),
    piece.fits quote = true :=
  fun _ h => absurd h List.not_mem_nil

/-- After a unit nothing was read, or a unit that makes a pair with it. -/
theorem pieces_of_surrogate (quote : Char) (code : Nat) (c : Cursor) :
    ∃ later, (∀ piece ∈ later, piece.fits quote = true) ∧
      c.Reads (written later) 0 (surrogate code c).2 := by
  rw [surrogate_eq]
  split
  case isFalse => exact ⟨[], fits_nil, .refl c⟩
  case isTrue hstarts =>
    split
    case h_2 => exact ⟨[], fits_nil, .refl c⟩
    case h_1 low stop hlow =>
      split
      case isFalse => exact ⟨[], fits_nil, .refl c⟩
      case isTrue =>
        obtain ⟨digits, hdigits, hreads, -⟩ := digits_of_hexDigits hlow
        obtain ⟨-, hmark⟩ := Bool.and_eq_true_iff.1 hstarts
        obtain ⟨rest, hrest⟩ := List.isPrefixOf_iff_prefix.1 hmark
        have hskip : c.Reads ['\\', 'u'] 0 (c.skip 2) :=
          Cursor.reads_skip hrest.symm rfl
        refine ⟨[.unit digits], List.forall_mem_singleton.2 hdigits, ?_⟩
        rw [written_one]
        exact hskip.trans hreads

/-- What was read as an escape by four digits is one, or two if those are
a pair. -/
theorem pieces_of_unitEscape {ch : Char} (h : unitEscape c = .ok ch d) :
    ∃ digits later, areHexDigits 4 digits = true ∧
      (∀ piece ∈ later, piece.fits quote = true) ∧
      c.Reads (digits ++ written later) 0 d := by
  obtain ⟨code, stop, hcode, hread⟩ := unitEscape_eq_ok.1 h
  obtain ⟨digits, hdigits, hreads, -⟩ := digits_of_hexDigits hcode
  rcases hread with ⟨-, rfl⟩ | ⟨-, hpair⟩
  · refine ⟨digits, [], hdigits, fits_nil, ?_⟩
    rwa [show digits ++ written [] = digits from List.append_nil _]
  · obtain ⟨later, hlater, hmore⟩ := pieces_of_surrogate quote code stop
    rw [hpair] at hmore
    exact ⟨digits, later, hdigits, hlater, hreads.trans hmore⟩

/-- What was read as an escape by number are pieces, with the backslash
and the letter before it. -/
theorem pieces_of_numberEscape {ch : Char}
    (h : numberEscape c = .ok ch d) :
    ∃ pieces, (∀ piece ∈ pieces, piece.fits quote = true) ∧
      '\\' :: 'u' :: c.rest = written pieces ++ d.rest := by
  rw [numberEscape_eq] at h
  split at h
  case isTrue hbrace =>
    obtain ⟨more, hmore⟩ := Cursor.peek_eq_some.1 hbrace
    obtain ⟨digits, hne, hall, hvalid, -, hreads⟩ :=
      digits_of_bracedEscape h
    have hafter := hreads.rest
    rw [Cursor.advance_rest hmore] at hafter
    refine ⟨[.braced digits], List.forall_mem_singleton.2 ?_, ?_⟩
    · simp [StringPiece.fits, hne, hall, hvalid]
    · rw [written_one, hmore, hafter]
      rfl
  case isFalse =>
    obtain ⟨digits, later, hdigits, hlater, hreads⟩ :=
      pieces_of_unitEscape h
    refine ⟨.unit digits :: later,
      List.forall_mem_cons.2 ⟨hdigits, hlater⟩, ?_⟩
    rw [hreads.rest]
    rfl

/-- What was read after a backslash are pieces, unless the text ends. -/
theorem pieces_of_escaped {r : Escaped} (h : escaped c = .ok r d)
    (hr : r ≠ .endOfText) :
    ∃ pieces, (∀ piece ∈ pieces, piece.fits quote = true) ∧
      '\\' :: c.rest = written pieces ++ d.rest := by
  rcases escaped_cases c with
    ⟨-, hend⟩ | ⟨next, hbreak, hnext⟩ | ⟨ch, rest, hc, hline, hletter⟩
  · rw [hend] at h
    cases h
    exact absurd rfl hr
  · rw [hnext] at h
    cases h
    obtain ⟨terminator, hends, hreads⟩ := end_of_lineBreak hbreak
    refine ⟨[.lineBreak terminator], List.forall_mem_singleton.2
      (List.contains_iff_mem.2 hends), ?_⟩
    rw [hreads.rest, written_one]
    rfl
  · rw [hletter] at h
    have hrest := Cursor.advance_rest hc
    unfold afterLetter at h
    split at h
    case isTrue hu =>
      obtain ⟨char, h, -⟩ := map_ok.1 h
      rw [hc, hu, ← hrest]
      exact pieces_of_numberEscape h
    case isFalse hu =>
      split at h
      case isTrue hx =>
        obtain ⟨char, h, -⟩ := map_ok.1 h
        obtain ⟨digits, hdigits, hreads⟩ := digits_of_byteEscape h
        refine ⟨[.byte digits], List.forall_mem_singleton.2 hdigits, ?_⟩
        rw [hc, written_one, ← hrest, hreads.rest, hx]
        rfl
      case isFalse hx =>
        cases h
        refine ⟨[.letter ch], List.forall_mem_singleton.2 ?_, ?_⟩
        · simp [StringPiece.fits, hu, hx, hline]
        · rw [hc, written_one, hrest]
          rfl

/-- Where a piece starts with a backslash, that is an escape. -/
theorem escaped_of_piece {piece : StringPiece}
    (hfits : piece.fits quote = true)
    (hc : '\\' :: c.rest = piece.text ++ rest) :
    ∃ r d, escaped c = .ok r d := by
  cases piece with
  | plain ch =>
      obtain ⟨rfl, -⟩ := List.cons.inj hc
      simp [StringPiece.fits] at hfits
  | letter ch =>
      obtain ⟨d, hd, -⟩ := escaped_letter hfits (List.cons.inj hc).2
      exact ⟨_, d, hd⟩
  | byte digits =>
      obtain ⟨d, hd, -⟩ := escaped_byte hfits (List.cons.inj hc).2
      exact ⟨_, d, hd⟩
  | unit digits =>
      have hc : c.rest = 'u' :: (digits ++ rest) := (List.cons.inj hc).2
      have hrest := Cursor.advance_rest hc
      obtain ⟨ch, d, hd⟩ := unitEscape_of_digits hfits hrest
      refine ⟨.char ch, d, escaped_number hc ?_⟩
      rw [numberEscape_eq, if_neg (peek_ne_brace hfits hrest)]
      exact hd
  | braced digits =>
      have hc : c.rest
          = 'u' :: '\x7b' :: (digits ++ ['\x7d'] ++ rest) :=
        (List.cons.inj hc).2
      rw [List.append_assoc] at hc
      obtain ⟨d, hd, -⟩ := escaped_braced hfits hc
      exact ⟨_, d, hd⟩
  | lineBreak terminator =>
      have hc : c.rest = terminator ++ rest := (List.cons.inj hc).2
      obtain ⟨ch, more, hmore, hch⟩ : ∃ ch more,
          terminator = ch :: more ∧ isLineTerminator ch = true := by
        rcases mem_lineEnds.1 (List.contains_iff_mem.1 hfits) with
          ⟨ch, rfl, hch⟩ | rfl
        · exact ⟨ch, [], rfl, hch⟩
        · exact ⟨'\r', ['\n'], rfl, rfl⟩
      rw [hmore] at hc
      cases hbreak : c.lineBreak? with
      | some next => exact ⟨_, next, escaped_of_lineBreak hbreak⟩
      | none =>
          rw [(Cursor.lineBreak_eq_none hc).1 hbreak] at hch
          cases hch

/-- An escape fails only if it is one by number that is none. -/
theorem startsBrokenEscape_of_escaped {e : Diagnostic}
    (h : escaped c = .error e d) :
    StartsBrokenEscape quote ('\\' :: c.rest) := by
  constructor
  · rcases escaped_cases c with
      ⟨-, hend⟩ | ⟨next, -, hnext⟩ | ⟨ch, rest, hc, -, hletter⟩
    · rw [hend] at h
      cases h
    · rw [hnext] at h
      cases h
    · rw [hletter] at h
      unfold afterLetter at h
      split at h
      case isTrue hu => exact .inr ⟨rest, by rw [hc, hu]; rfl⟩
      case isFalse =>
        split at h
        case isTrue hx => exact .inl ⟨rest, by rw [hc, hx]; rfl⟩
        case isFalse => cases h
  · rintro piece hfits ⟨after, hafter⟩
    obtain ⟨r, d, hr⟩ := escaped_of_piece hfits hafter.symm
    rw [h] at hr
    cases hr

-- =========================================================== strings

section Behind

variable (hfits : ∀ piece ∈ pieces, piece.fits quote = true)
  (htext : text = written pieces ++ rest)

include hfits htext

theorem ClosesString.behind (h : ClosesString quote rest) :
    ClosesString quote text := by
  obtain ⟨more, after, hmore, rfl⟩ := h
  refine ⟨pieces ++ more, after,
    List.forall_mem_append.2 ⟨hfits, hmore⟩, ?_⟩
  rw [htext, written, written, written, List.flatMap_append,
    List.append_assoc]

theorem BreaksEscape.behind (h : BreaksEscape quote rest) :
    BreaksEscape quote text := by
  obtain ⟨more, after, hmore, rfl, hbroken⟩ := h
  refine ⟨pieces ++ more, after,
    List.forall_mem_append.2 ⟨hfits, hmore⟩, ?_, hbroken⟩
  rw [htext, written, written, written, List.flatMap_append,
    List.append_assoc]

end Behind

/-- What is said of a text by what was read for a string: that the string
is closed, or that an escape is broken. -/
def Accounts (quote : Char) (text : List Char) :
    EStateM.Result Diagnostic Cursor (Option (List Char)) → Prop
  | .ok (some _) _ => ClosesString quote text
  | .ok none _ => True
  | .error _ _ => BreaksEscape quote text

namespace Accounts

theorem behind {r : EStateM.Result Diagnostic Cursor (Option (List Char))}
    (hfits : ∀ piece ∈ pieces, piece.fits quote = true)
    (htext : text = written pieces ++ rest) (h : Accounts quote rest r) :
    Accounts quote text r := by
  match r, h with
  | .ok (some _) _, h => exact ClosesString.behind hfits htext h
  | .ok none _, _ => exact trivial
  | .error _ _, h => exact BreaksEscape.behind hfits htext h

/-- One more character in front makes no difference. -/
theorem cons {p : Scan (Option (List Char))} (ch : Char)
    (h : Accounts quote text (p c)) :
    Accounts quote text
      ((p >>= fun chars => pure (chars.map (ch :: ·))) c) := by
  cases hp : p c with
  | ok chars d =>
      rw [hp] at h
      rw [bind_of_ok hp]
      cases chars with
      | none => exact trivial
      | some chars => exact h
  | error e d =>
      rw [hp] at h
      rw [bind_of_error hp]
      exact h

end Accounts

/-- A string is read only if it is closed, and fails only at an escape
that is broken. -/
theorem accounts_quotedChars (quote : Char) (n : Nat) (c : Cursor) :
    Accounts quote c.rest (quotedChars quote n c) := by
  induction n generalizing c with
  | zero => exact trivial
  | succ n ih =>
      cases stringNext quote c with
      | ends _ hsame | lineBreak _ _ hsame =>
          rw [hsame]
          exact trivial
      | quote hc hsame =>
          rw [hsame, hc]
          exact ⟨[], _, fits_nil, rfl⟩
      | escape hc _ hsame =>
          rw [hsame, hc, ← Cursor.advance_rest hc]
          cases hescaped : escaped c.advance with
          | error e d =>
              rw [bind_of_error hescaped]
              exact ⟨[], _, fits_nil, rfl,
                startsBrokenEscape_of_escaped hescaped⟩
          | ok r d =>
              rw [bind_of_ok hescaped]
              cases r with
              | endOfText => exact trivial
              | lineBreak =>
                  obtain ⟨pieces, hfits, htext⟩ :=
                    pieces_of_escaped hescaped (by rintro ⟨⟩)
                  exact (ih d).behind hfits htext
              | char ch =>
                  obtain ⟨pieces, hfits, htext⟩ :=
                    pieces_of_escaped hescaped (by rintro ⟨⟩)
                  exact ((ih d).cons ch).behind hfits htext
      | @plain ch rest hc hquote hch hline hsame =>
          have hfits : (StringPiece.plain ch).fits quote = true := by
            simp [StringPiece.fits, hquote, hch, hline]
          rw [hsame]
          apply ((ih c.advance).cons ch).behind
            (List.forall_mem_singleton.2 hfits)
          rw [written_one, Cursor.advance_rest hc, hc]
          rfl

-- ============================================================ tokens

/-- A string that is not closed fails at its opening quote, and the
reader is as it was before. -/
theorem token_of_unclosed [NameProperties] {r : TokenReader}
    (hquote : quote = '\'' ∨ quote = '"')
    (hr : r.cursor.rest = quote :: text)
    (hclosed : ¬ClosesString quote text)
    (hescapes : ¬BreaksEscape quote text) :
    ∃ d, r.token = .error d r ∧
      d.description = "Unexpected token ILLEGAL" ∧
      d.index = r.cursor.position.offset ∧
      d.line = r.cursor.position.line ∧
      d.column = r.cursor.position.column + 1 := by
  refine ⟨r.cursor.position.diagnose .illegalToken, ?_, rfl, rfl, rfl, rfl⟩
  refine TokenReader.token_eq_error.2 (.inl ⟨r.cursor, ?_, rfl⟩)
  rw [Cursor.token_of_quote hquote hr]
  have hresult := accounts_quotedChars quote r.cursor.rest.length
    r.cursor.advance
  rw [Cursor.advance_rest hr] at hresult
  apply (quotedToken_eq_error hquote hr).2
  left
  cases hchars : quotedChars quote r.cursor.rest.length
      r.cursor.advance with
  | error d stop =>
      rw [hchars] at hresult
      exact absurd hresult hescapes
  | ok chars stop =>
      cases chars with
      | none => exact ⟨stop, rfl, rfl, rfl⟩
      | some chars =>
          rw [hchars] at hresult
          exact absurd hresult hclosed

/-- The text ends after a backslash, two lines below the quote. -/
theorem token_of_unclosed_lines :
    let text := ['a', '\\', '\'', '\\', '\r', '\n', '\\', 'x', '4', '1',
      '\\', '\r', '\\', 'u', '\x7b', '4', '1', '\x7d', '\\']
    let source := ['x', '\n', '\x7b', '\n', '\x7b', ' ', 'y', ' ', '=']
      ++ '\'' :: text
    let r : TokenReader :=
      ⟨⟨source, ⟨9, 3, 4⟩, 2⟩, ⟨true, [⟨2, 1, 3, .illegalReturn⟩]⟩, true⟩
    ¬ClosesString '\'' text ∧ ¬BreaksEscape '\'' text ∧
    ∃ d, r.token = .error d r ∧
      d.description = "Unexpected token ILLEGAL" ∧
      d.index = 9 ∧ d.line = 3 ∧ d.column = 6 := by
  intro text source r
  have hclosed : ¬ClosesString '\'' text := by
    rintro ⟨pieces, rest, hfits, htext⟩
    have hle : pieces.length ≤ text.length := by
      have hle := length_le_written pieces
      rw [htext, List.length_append]
      omega
    have hc : (Cursor.ofText text).rest
        = written pieces ++ '\'' :: rest :=
      (Cursor.ofText_rest text).trans htext
    obtain ⟨d, hd, -⟩ := readsPieces (by decide) rfl hfits hc hle
    -- All of the text is read, and no quote is left for the end.
    have hnone : quotedChars '\'' (text.length + 1) (.ofText text)
        = .ok none ⟨text, ⟨19, 3, 12⟩, 0⟩ := by
      decide +kernel
    rw [hnone] at hd
    cases hd
  have hescapes : ¬BreaksEscape '\'' text := by
    rintro ⟨pieces, rest, -, htext, hstarts, hnone⟩
    have hrest : text.drop (written pieces).length = rest := by
      rw [htext, List.drop_left]
    have hle : (written pieces).length ≤ text.length := by
      rw [htext, List.length_append]
      omega
    have hescape : ∀ k ≤ text.length,
        ['\\', 'x'] <+: text.drop k ∨ ['\\', 'u'] <+: text.drop k →
        (StringPiece.byte ['4', '1']).text <+: text.drop k ∨
          (StringPiece.braced ['4', '1']).text <+: text.drop k := by decide
    rw [← hrest] at hstarts hnone
    rcases hescape _ hle hstarts with hbyte | hbraced
    · exact hnone _ rfl hbyte
    · exact hnone _ rfl hbraced
  exact ⟨hclosed, hescapes,
    token_of_unclosed (.inl rfl) (by decide +kernel) hclosed hescapes⟩

end ScriptTree
