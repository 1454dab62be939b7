/-
What comes of each scanner.

A scanner of a token or of a piece of one is looked into here. It is said
when it succeeds, with what result and at which cursor (`…_eq_ok`), and
what it says and where it stops when it fails (`…_eq_error`). Where a
scanner only leaves the work to another, it is said to which
(`Cursor.opens`, `numeralToken_cases`, `escaped_cases`). Names and strings
are read step by step, and it is said what each step does (`nameNext`,
`stringNext`).
-/
import ScriptTree.Proofs.Scanning.Width

namespace ScriptTree

variable {c d : Cursor} {ch : Char} {rest : List Char} {t : Token}
  {found : Diagnostic}

/-- One of two characters stands here. -/
theorem Cursor.peek_or {a b : Char} :
    (c.peek = some a || c.peek = some b) = true ↔
      ∃ ch rest, c.rest = ch :: rest ∧ (ch = a ∨ ch = b) := by
  simp only [Bool.or_eq_true, decide_eq_true_eq, peek_eq_some]
  constructor
  · rintro (⟨rest, h⟩ | ⟨rest, h⟩)
    · exact ⟨a, rest, h, .inl rfl⟩
    · exact ⟨b, rest, h, .inr rfl⟩
  · rintro ⟨ch, rest, h, rfl | rfl⟩
    · exact .inl ⟨rest, h⟩
    · exact .inr ⟨rest, h⟩

-- =========================================================== escapes

/-- A digit is taken and the others are read behind it, or there is no
digit and nothing is taken. -/
theorem hexDigits_cases (count code : Nat) (c : Cursor) :
    (∃ ch rest digit, c.rest = ch :: rest ∧ hexValue? ch = some digit ∧
      hexDigits (count + 1) code c
        = hexDigits count (code * 16 + digit) c.advance) ∨
    hexDigits (count + 1) code c = (none, c) := by
  rw [hexDigits]
  split
  case h_1 digit hdigit =>
    obtain ⟨ch, hpeek, hvalue⟩ := Option.bind_eq_some_iff.1 hdigit
    obtain ⟨rest, hrest⟩ := Cursor.peek_eq_some.1 hpeek
    have hwidth := utf8Size_of_digit (isHexDigit_of_hexValue hvalue)
    rw [Cursor.move_one hrest hwidth]
    exact .inl ⟨ch, rest, digit, hrest, hvalue, rfl⟩
  case h_2 => exact .inr rfl

theorem hexDigits_cons {count code digit : Nat} (hc : c.rest = ch :: rest)
    (hdigit : hexValue? ch = some digit) :
    hexDigits (count + 1) code c
      = hexDigits count (code * 16 + digit) c.advance := by
  have hwidth := utf8Size_of_digit (isHexDigit_of_hexValue hdigit)
  rw [hexDigits, Cursor.peek_cons hc, Option.bind_some, hdigit]
  simp only [Cursor.move_one hc hwidth]
  rfl

/-- So many digits give a number of so many digits. -/
theorem hexDigits_lt {count code found : Nat}
    (h : hexDigits count code c = (some found, d)) :
    found < (code + 1) * Nat.pow 16 count := by
  induction count generalizing code c with
  | zero =>
      cases h
      show found < (found + 1) * 1
      omega
  | succ count ih =>
      rcases hexDigits_cases count code c with
        ⟨ch, rest, digit, -, hvalue, hnext⟩ | hnone
      · rw [hnext] at h
        have hlt := hexValue?_lt hvalue
        have hle : code * 16 + digit + 1 ≤ (code + 1) * 16 := by omega
        calc found
          _ < (code * 16 + digit + 1) * Nat.pow 16 count := ih h
          _ ≤ (code + 1) * 16 * Nat.pow 16 count :=
              Nat.mul_le_mul_right _ hle
          _ = (code + 1) * Nat.pow 16 (count + 1) := by
              rw [Nat.mul_assoc, Nat.mul_comm 16]
              rfl
      · rw [hnone] at h
        cases h

/-- A run of characters that ends in front of another one. -/
theorem takeWhile_of_ends {p : Char → Bool} {run : List Char}
    (hrun : run.all p = true) (hch : p ch = false) :
    (run ++ ch :: rest).takeWhile p = run := by
  rw [List.takeWhile_append_of_pos (by simpa using hrun),
    List.takeWhile_cons_of_neg (by simp [hch]), List.append_nil]

/-- Digits and the brace that closes them are read. -/
theorem reads_braced {digits : List Char}
    (hdigits : digits.all isHexDigit = true)
    (hc : c.rest = digits ++ '\x7d' :: rest) :
    c.rest.takeWhile isHexDigit = digits ∧
      (c.skipWhile isHexDigit).rest = '\x7d' :: rest ∧
      c.Reads (digits ++ ['\x7d']) 0 (c.skipWhile isHexDigit).advance := by
  have hrun : c.rest.takeWhile isHexDigit = digits :=
    hc ▸ takeWhile_of_ends hdigits (by decide)
  have hread := Cursor.reads_skipWhile isHexDigit c
  rw [hrun] at hread
  have hclose := hread.rest_eq hc
  exact ⟨hrun, hclose, hread.trans (Cursor.reads_advance hclose)⟩

/-- Digits that are read one by one make up a number together. What comes
behind them is read as well. -/
theorem bracedDigits_eq {steps code : Nat}
    (hsteps : c.rest.length ≤ steps) :
    bracedDigits steps code c =
      ((c.rest.takeWhile isHexDigit).foldl appendHexDigit code,
        decide ((c.skipWhile isHexDigit).peek = some '\x7d'),
        (c.skipWhile isHexDigit).advance) := by
  induction steps generalizing c code with
  | zero =>
      have hnil := List.length_eq_zero_iff.1 (Nat.le_zero.1 hsteps)
      rw [bracedDigits, Cursor.skipWhile_nil hnil, Cursor.advance_nil hnil,
        Cursor.peek_nil hnil, hnil]
      rfl
  | succ steps ih =>
      cases hc : c.rest with
      | nil =>
          rw [bracedDigits, Cursor.skipWhile_nil hc, Cursor.advance_nil hc,
            Cursor.peek_nil hc]
          rfl
      | cons ch rest =>
          rw [bracedDigits, Cursor.peek_cons hc]
          simp only [← Cursor.advance_eq hc]
          rw [Cursor.skipWhile_cons hc]
          by_cases hdigit : isHexDigit ch = true
          · have hle : c.advance.rest.length ≤ steps := by
              rw [hc, List.length_cons] at hsteps
              rw [Cursor.advance_rest hc]
              omega
            rw [if_pos hdigit, if_pos hdigit, ih hle,
              Cursor.advance_rest hc, List.takeWhile_cons_of_pos hdigit,
              List.foldl_cons]
          · rw [if_neg hdigit, if_neg hdigit,
              List.takeWhile_cons_of_neg hdigit, Cursor.peek_cons hc]
            simp only [List.foldl_nil, Option.some.injEq]

/-- The character of a code is not beyond the last one. -/
theorem le_of_scalar {code : Nat} (h : scalar? code = some ch) :
    code ≤ 0x10FFFF := by
  unfold scalar? at h
  split at h
  case isFalse => cases h
  case isTrue hvalid =>
    unfold Nat.isValidChar at hvalid
    omega

/-- An escape in braces is read where there are digits and the brace, and
the digits are the code of a character. -/
theorem bracedEscape_eq_ok :
    bracedEscape c = .ok ch d ↔ ∃ digits rest, digits ≠ [] ∧
      digits.all isHexDigit = true ∧ c.rest = digits ++ '\x7d' :: rest ∧
      scalar? (digits.foldl appendHexDigit 0) = some ch ∧
      d = (c.skipWhile isHexDigit).advance := by
  unfold bracedEscape
  rw [bracedDigits_eq (Nat.le_refl _)]
  simp only
  constructor
  · intro h
    split at h
    case isTrue => cases h
    case isFalse hfirst =>
      split at h
      case h_2 => cases h
      case h_1 hcode =>
        split at h
        case isFalse => cases h
        case isTrue hclosed =>
          cases h
          have hclose := of_decide_eq_true (Bool.and_eq_true_iff.1 hclosed).1
          obtain ⟨rest, hrest⟩ := Cursor.peek_eq_some.1 hclose
          have hread := (Cursor.reads_skipWhile isHexDigit c).rest
          rw [hrest] at hread
          refine ⟨_, rest, ?_, List.all_takeWhile, hread, hcode, rfl⟩
          intro hnil
          rw [hnil] at hread
          exact hfirst (Cursor.peek_cons hread)
  · rintro ⟨digits, rest, hne, hdigits, hc, hcode, rfl⟩
    obtain ⟨hrun, hclose, -⟩ := reads_braced hdigits hc
    have hfirst : ¬c.peek = some '\x7d' := by
      obtain ⟨ch, more, rfl⟩ := List.exists_cons_of_ne_nil hne
      rw [Cursor.peek_cons hc]
      rintro ⟨⟩
      exact absurd hdigits (by simp [show isHexDigit '\x7d' = false from rfl])
    simp only [hrun, if_neg hfirst, Cursor.peek_cons hclose, hcode,
      decide_true, decide_eq_true (le_of_scalar hcode), Bool.and_self,
      if_true]

/-- An escape in braces fails where it has no digit, or behind the
character that ends its digits. -/
theorem bracedEscape_eq_error (h : bracedEscape c = .error found d) :
    (d = c ∨ d = (c.skipWhile isHexDigit).advance) ∧
      found = d.position.diagnose .illegalToken := by
  unfold bracedEscape at h
  rw [bracedDigits_eq (Nat.le_refl _)] at h
  simp only at h
  split at h
  case isTrue =>
    cases h
    exact ⟨.inl rfl, rfl⟩
  case isFalse =>
    split at h
    case h_1 =>
      split at h
      case isTrue => cases h
      case isFalse =>
        cases h
        exact ⟨.inr rfl, rfl⟩
    case h_2 =>
      cases h
      exact ⟨.inr rfl, rfl⟩

theorem fourDigitEscape_eq_ok :
    fourDigitEscape c = .ok ch d ↔
      ∃ code, hexDigits 4 0 c = (some code, d) ∧
        scalar? code = some ch := by
  unfold fourDigitEscape
  constructor
  · intro h
    split at h
    case h_2 => cases h
    case h_1 code stop hdigits =>
      split at h
      case h_2 => cases h
      case h_1 hcode =>
        cases h
        exact ⟨code, hdigits, hcode⟩
  · rintro ⟨code, hdigits, hcode⟩
    simp only [hdigits, hcode]

/-- Four digits fail where one is missing, or behind them. -/
theorem fourDigitEscape_eq_error
    (h : fourDigitEscape c = .error found d) :
    (∃ code, hexDigits 4 0 c = (code, d)) ∧
      found = d.position.diagnose .illegalToken := by
  unfold fourDigitEscape at h
  split at h
  case h_2 stop hdigits =>
    cases h
    exact ⟨⟨_, hdigits⟩, rfl⟩
  case h_1 code stop hdigits =>
    split at h
    case h_1 => cases h
    case h_2 =>
      cases h
      exact ⟨⟨_, hdigits⟩, rfl⟩

/-- Four digits are the code of a character, or that of a surrogate, which
may take another one with it. -/
theorem unitEscape_eq_ok :
    unitEscape c = .ok ch d ↔
      ∃ code stop, hexDigits 4 0 c = (some code, stop) ∧
        (scalar? code = some ch ∧ d = stop ∨
          scalar? code = none ∧ surrogate code stop = (ch, d)) := by
  unfold unitEscape
  constructor
  · intro h
    split at h
    case h_2 => cases h
    case h_1 code stop hdigits =>
      split at h
      case h_1 hcode =>
        cases h
        exact ⟨code, _, hdigits, .inl ⟨hcode, rfl⟩⟩
      case h_2 hcode =>
        cases h
        exact ⟨code, stop, hdigits, .inr ⟨hcode, rfl⟩⟩
  · rintro ⟨code, stop, hdigits, ⟨hcode, rfl⟩ | ⟨hcode, hpair⟩⟩
    · simp only [hdigits, hcode]
    · simp only [hdigits, hcode, hpair]

/-- Two surrogates together are the code of a character. -/
theorem scalar?_pairedCode {high low : Nat} (hhigh : 0xD800 ≤ high)
    (hhigh' : high < 0xDC00) (hlow : 0xDC00 ≤ low) (hlow' : low < 0xE000) :
    scalar? (pairedCode high low) = some (combineSurrogates high low) := by
  have hcode : pairedCode high low
      = 0x10000 + (high - 0xD800) * 0x400 + (low - 0xDC00) := rfl
  have hvalid : (pairedCode high low).isValidChar := by
    rw [hcode]
    unfold Nat.isValidChar
    omega
  rw [scalar?, if_pos hvalid]
  rfl

/-- A high surrogate takes a low one with it that follows as an escape,
and the two are a character. -/
theorem surrogate_eq (code : Nat) (c : Cursor) :
    surrogate code c =
      if 0xD800 ≤ code && code < 0xDC00 && ['\\', 'u'].isPrefixOf c.rest then
        match hexDigits 4 0 (c.skip 2) with
        | (some low, stop) =>
          if 0xDC00 ≤ low && low < 0xE000 then
            (combineSurrogates code low, stop)
          else (replacementChar, c)
        | (none, _) => (replacementChar, c)
      else (replacementChar, c) := by
  unfold surrogate
  simp only
  split
  case isFalse => rfl
  case isTrue hstarts =>
    obtain ⟨hcode, hmark⟩ := Bool.and_eq_true_iff.1 hstarts
    obtain ⟨hhigh, hhigh'⟩ := Bool.and_eq_true_iff.1 hcode
    obtain ⟨rest, hrest⟩ := List.isPrefixOf_iff_prefix.1 hmark
    rw [Cursor.move_two hrest.symm rfl rfl]
    rcases hexDigits 4 0 (c.skip 2) with ⟨- | low, stop⟩
    · rfl
    · simp only
      split
      case isFalse => rfl
      case isTrue hlow =>
        obtain ⟨hlow, hlow'⟩ := Bool.and_eq_true_iff.1 hlow
        rw [scalar?_pairedCode (of_decide_eq_true hhigh)
          (of_decide_eq_true hhigh') (of_decide_eq_true hlow)
          (of_decide_eq_true hlow'), Option.getD_some]

theorem unitEscape_eq_error :
    unitEscape c = .error found d ↔
      hexDigits 4 0 c = (none, d) ∧
        found = d.position.diagnose .illegalToken := by
  unfold unitEscape
  constructor
  · intro h
    split at h
    case h_2 hdigits =>
      cases h
      exact ⟨hdigits, rfl⟩
    case h_1 =>
      split at h
      case h_1 => cases h
      case h_2 => cases h
  · rintro ⟨hdigits, rfl⟩
    simp only [hdigits]
    rfl

theorem numberEscape_run [Arithmetic] (c : Cursor) :
    numberEscape c =
      if c.peek = some '\x7b' then bracedEscape (c.move 1)
      else unitEscape c := by
  show (if c.peek = some '\x7b' then Scan.move 1 >>= fun _ => bracedEscape
    else unitEscape) c = _
  split <;> rfl

theorem numberEscape_eq (c : Cursor) :
    numberEscape c =
      if c.peek = some '{' then bracedEscape c.advance
      else unitEscape c := by
  rw [numberEscape_run]
  by_cases hopen : c.peek = some '{'
  · obtain ⟨rest, hrest⟩ := Cursor.peek_eq_some.1 hopen
    rw [if_pos hopen, if_pos hopen, Cursor.move_one hrest rfl]
  · rw [if_neg hopen, if_neg hopen]

/-- The number of two digits is the code of a character. -/
theorem scalar?_of_byte {code : Nat}
    (h : hexDigits 2 0 c = (some code, d)) :
    scalar? code = some (.ofNat code) := by
  have hlt := hexDigits_lt h
  have hsize : Nat.pow 16 2 = 0x100 := rfl
  have hvalid : code.isValidChar := by
    unfold Nat.isValidChar
    omega
  rw [scalar?, if_pos hvalid]

theorem byteEscape_eq_ok :
    byteEscape c = .ok ch d ↔
      ∃ code, hexDigits 2 0 c = (some code, d) ∧ ch = .ofNat code := by
  unfold byteEscape
  rcases hdigits : hexDigits 2 0 c with ⟨- | code, stop⟩
  · simp only [Option.bind_none]
    constructor
    · rintro ⟨⟩
    · rintro ⟨code, ⟨⟩, -⟩
  · simp only [Option.bind_some, scalar?_of_byte hdigits]
    constructor
    · rintro ⟨⟩
      exact ⟨code, rfl, rfl⟩
    · rintro ⟨_, ⟨⟩, rfl⟩
      rfl

theorem byteEscape_eq_error :
    byteEscape c = .error found d ↔
      hexDigits 2 0 c = (none, d) ∧
        found = d.position.diagnose .invalidHexEscape := by
  unfold byteEscape
  rcases hdigits : hexDigits 2 0 c with ⟨- | code, stop⟩
  · simp only [Option.bind_none]
    constructor
    · rintro ⟨⟩
      exact ⟨rfl, rfl⟩
    · rintro ⟨⟨⟩, rfl⟩
      rfl
  · simp only [Option.bind_some, scalar?_of_byte hdigits]
    constructor
    · rintro ⟨⟩
    · rintro ⟨⟨⟩, -⟩

theorem nameEscape_run [Arithmetic] (c : Cursor) :
    nameEscape c =
      if c.peek = some 'u' then
        if (c.move 1).peek = some '\x7b' then
          bracedEscape ((c.move 1).move 1)
        else fourDigitEscape (c.move 1)
      else Scan.fail .illegalToken c := by
  unfold nameEscape
  rw [Scan.peek_bind]
  by_cases hu : c.peek = some 'u'
  · rw [if_neg (not_not_intro hu), if_pos hu]
    show (Scan.peek >>= fun next => if next = some '\x7b' then
      Scan.move 1 >>= fun _ => bracedEscape else fourDigitEscape)
        (c.move 1) = _
    rw [Scan.peek_bind]
    split <;> rfl
  · rw [if_pos hu, if_neg hu]

/-- An escape in a name is one by number. -/
theorem nameEscape_eq (c : Cursor) :
    nameEscape c =
      if c.peek = some 'u' then
        if c.advance.peek = some '\x7b' then bracedEscape c.advance.advance
        else fourDigitEscape c.advance
      else Scan.fail .illegalToken c := by
  rw [nameEscape_run]
  by_cases hu : c.peek = some 'u'
  · obtain ⟨rest, hrest⟩ := Cursor.peek_eq_some.1 hu
    rw [if_pos hu, if_pos hu, Cursor.move_one hrest rfl]
    by_cases hopen : c.advance.peek = some '\x7b'
    · obtain ⟨more, hmore⟩ := Cursor.peek_eq_some.1 hopen
      rw [if_pos hopen, if_pos hopen, Cursor.move_one hmore rfl]
    · rw [if_neg hopen, if_neg hopen]
  · rw [if_neg hu, if_neg hu]

/-- What a backslash and a letter come to, from after the letter on. -/
def afterLetter (ch : Char) : Scan Escaped :=
  if ch = 'u' then .char <$> numberEscape
  else if ch = 'x' then .char <$> byteEscape
  else pure (.char (letterEscape ch))

theorem escaped_of_nil (hc : c.rest = []) :
    escaped c = .ok .endOfText c := by
  unfold escaped
  rw [Cursor.peek_nil hc]

theorem escaped_of_lineBreak (h : c.lineBreak? = some d) :
    escaped c = .ok .lineBreak d := by
  obtain ⟨text, hne, hreads, -⟩ := Cursor.reads_lineBreak h
  obtain ⟨ch, more, rfl⟩ := List.exists_cons_of_ne_nil hne
  have hpeek := Cursor.peek_cons hreads.rest
  unfold Cursor.lineBreak? at h
  unfold escaped
  rw [hpeek] at h ⊢
  simp only at h ⊢
  split at h
  case isFalse => cases h
  case isTrue hline =>
    cases h
    rw [if_pos hline]

theorem escaped_of_letter (hc : c.rest = ch :: rest)
    (hline : isLineTerminator ch = false) :
    escaped c = afterLetter ch c.advance := by
  unfold escaped afterLetter
  rw [Cursor.peek_cons hc, Cursor.advance_eq hc]
  simp only [hline, Bool.false_eq_true, if_false]
  by_cases hu : ch = 'u'
  · rw [if_pos hu, if_pos hu]
  · by_cases hx : ch = 'x'
    · rw [if_neg hu, if_neg hu, if_pos hx, if_pos hx]
    · rw [if_neg hu, if_neg hu, if_neg hx, if_neg hx]
      rfl

/-- Behind a backslash the text ends, or the line ends, or there is a
letter. -/
theorem escaped_cases (c : Cursor) :
    (c.rest = [] ∧ escaped c = .ok .endOfText c) ∨
    (∃ next, c.lineBreak? = some next ∧
      escaped c = .ok .lineBreak next) ∨
    ∃ ch rest, c.rest = ch :: rest ∧ isLineTerminator ch = false ∧
      escaped c = afterLetter ch c.advance := by
  cases hc : c.rest with
  | nil => exact .inl ⟨rfl, escaped_of_nil hc⟩
  | cons ch rest =>
      cases hbreak : c.lineBreak? with
      | some next =>
          exact .inr (.inl ⟨next, rfl, escaped_of_lineBreak hbreak⟩)
      | none =>
          have hline := (Cursor.lineBreak_eq_none hc).1 hbreak
          exact .inr (.inr ⟨ch, rest, rfl, hline,
            escaped_of_letter hc hline⟩)

-- ============================================================= names

section Names

variable {n : Nat} {isFirst : Bool}

/-- How a name goes on behind a backslash. -/
def afterBackslash [NameProperties] [Arithmetic] (isFirst : Bool) (n : Nat) :
    Scan (List Char) :=
  nameEscape >>= fun ch =>
    if ch ≠ '\\' && fitsName isFirst ch then
      nameChars n false >>= fun chars => pure (ch :: chars)
    else Scan.fail .illegalToken

theorem nameChars_succ [NameProperties] [Arithmetic] (n : Nat) (isFirst : Bool)
    (c : Cursor) :
    nameChars (n + 1) isFirst c = match c.peek with
      | none => .ok [] c
      | some ch =>
        if ch = '\\' then afterBackslash isFirst n (c.move 1)
        else if fitsName isFirst ch then (nameChars n false >>= fun chars =>
          pure (ch :: chars)) (c.move ch.utf8Size)
        else .ok [] c := by
  conv => lhs; unfold nameChars
  rw [Scan.peek_bind]
  cases c.peek with
  | none => rfl
  | some ch =>
      by_cases hch : ch = '\\'
      · subst hch
        rfl
      · simp only [if_neg hch]
        split <;> rfl

theorem nameChars_of_nil [NameProperties] (hc : c.rest = []) :
    nameChars n isFirst c = .ok [] c := by
  cases n with
  | zero => rfl
  | succ n => rw [nameChars_succ, Cursor.peek_nil hc]

theorem nameChars_of_slash [NameProperties] (hc : c.rest = '\\' :: rest) :
    nameChars (n + 1) isFirst c = afterBackslash isFirst n c.advance := by
  rw [nameChars_succ, Cursor.peek_cons hc, Cursor.move_one hc rfl]
  exact if_pos rfl

theorem nameChars_of_plain [NameProperties]
    (hc : c.rest = ch :: rest) (hch : ch ≠ '\\') :
    nameChars (n + 1) isFirst c =
      if fitsName isFirst ch then (nameChars n false >>= fun chars =>
        pure (ch :: chars)) c.advance
      else .ok [] c := by
  rw [nameChars_succ, Cursor.peek_cons hc, Cursor.advance_eq hc]
  exact if_neg hch

/-- How a name goes on, by what comes next. -/
inductive NameNext [NameProperties] (isFirst : Bool) (c : Cursor) : Prop where
  | ends : (∀ ch ∈ c.rest.head?, ch ≠ '\\' ∧ fitsName isFirst ch = false) →
      (∀ n, nameChars n isFirst c = .ok [] c) → NameNext isFirst c
  | escape {rest : List Char} : c.rest = '\\' :: rest →
      (∀ n, nameChars (n + 1) isFirst c
        = afterBackslash isFirst n c.advance) → NameNext isFirst c
  | plain {ch : Char} {rest : List Char} : c.rest = ch :: rest →
      ch ≠ '\\' → fitsName isFirst ch = true →
      (∀ n, nameChars (n + 1) isFirst c = (nameChars n false >>=
        fun chars => pure (ch :: chars)) c.advance) → NameNext isFirst c

theorem nameNext [NameProperties]
    (isFirst : Bool) (c : Cursor) : NameNext isFirst c := by
  cases hc : c.rest with
  | nil =>
      refine .ends ?_ fun _ => nameChars_of_nil hc
      rw [hc]
      rintro ch ⟨⟩
  | cons ch rest =>
      by_cases hch : ch = '\\'
      · subst hch
        exact .escape hc fun _ => nameChars_of_slash hc
      cases hfits : fitsName isFirst ch with
      | true =>
          refine .plain hc hch hfits fun _ => ?_
          rw [nameChars_of_plain hc hch, if_pos hfits]
      | false =>
          refine .ends ?_ fun n => ?_
          · rw [hc]
            rintro _ ⟨⟩
            exact ⟨hch, hfits⟩
          · cases n with
            | zero => rfl
            | succ n =>
                rw [nameChars_of_plain hc hch, hfits,
                  if_neg Bool.false_ne_true]

end Names

/-- A word is a keyword, or one of three literals, or a name. -/
theorem wordKind_cases (word : String) :
    (wordKind word = .keyword ∧ word ∈ keywords) ∨
    (wordKind word = .null ∧ word = "null") ∨
    (wordKind word = .boolean ∧ (word = "true" ∨ word = "false")) ∨
    wordKind word = .identifier := by
  unfold wordKind
  split
  case isTrue => exact .inr (.inr (.inr rfl))
  split
  case isTrue hkeyword =>
    exact .inl ⟨rfl, List.contains_iff_mem.1 hkeyword⟩
  case isFalse =>
    split
    case isTrue hnull => exact .inr (.inl ⟨rfl, hnull⟩)
    case isFalse =>
      split
      case isTrue hbool =>
        exact .inr (.inr (.inl ⟨rfl, by simpa using hbool⟩))
      case isFalse => exact .inr (.inr (.inr rfl))

/-- The end of a name that has no backslash is where its characters end
when they are read one by one. -/
theorem nameChars_of_plainNameEnd [NameProperties] {steps : Nat}
    (hsteps : c.rest.length ≤ steps) (h : plainNameEnd? steps c = some d) :
    ∃ chars, c.Reads chars 0 d ∧
      nameChars steps false c = .ok chars d := by
  induction steps generalizing c with
  | zero =>
      cases h
      have hnil := List.length_eq_zero_iff.1 (Nat.le_zero.1 hsteps)
      exact ⟨[], .refl _, nameChars_of_nil hnil⟩
  | succ steps ih =>
      cases hc : c.rest with
      | nil =>
          rw [plainNameEnd?, Cursor.peek_nil hc] at h
          cases h
          exact ⟨[], .refl _, nameChars_of_nil hc⟩
      | cons ch rest =>
          rw [plainNameEnd?, Cursor.peek_cons hc] at h
          simp only at h
          split at h
          case isTrue => cases h
          case isFalse hslash =>
            rw [nameChars_of_plain hc hslash]
            split at h
            case isTrue hpart =>
              rw [← Cursor.advance_eq hc] at h
              have hle : c.advance.rest.length ≤ steps := by
                rw [hc, List.length_cons] at hsteps
                rw [Cursor.advance_rest hc]
                omega
              obtain ⟨chars, hreads, hchars⟩ := ih hle h
              refine ⟨ch :: chars, (Cursor.reads_advance hc).trans hreads, ?_⟩
              rw [if_pos (show fitsName false ch = true from hpart)]
              exact bind_ok.2 ⟨chars, _, hchars, rfl⟩
            case isFalse hpart =>
              cases h
              refine ⟨[], .refl _, ?_⟩
              rw [if_neg (show ¬fitsName false ch = true from hpart)]

/-- A name that is taken to be written plainly at first comes to what it
is read as one character after the other. -/
theorem name_eq_nameChars [NameProperties]
    (hc : c.rest = ch :: rest) (hname : isNameStart ch = true) :
    name c = nameChars c.rest.length true c := by
  unfold name
  simp only
  split
  case isTrue => rfl
  case isFalse hslash =>
    have hplain : ch ≠ '\\' := by
      rintro rfl
      exact hslash (Cursor.peek_cons hc)
    rw [hc, List.length_cons]
    split
    case h_2 => rfl
    case h_1 stop hstop =>
      rw [plainNameEnd?, Cursor.peek_cons hc] at hstop
      simp only [if_neg hplain, isNamePart_of_isNameStart hname, if_true,
        ← Cursor.advance_eq hc] at hstop
      have hle : c.advance.rest.length ≤ rest.length :=
        Nat.le_of_eq (congrArg List.length (Cursor.advance_rest hc))
      obtain ⟨chars, hreads, hchars⟩ :=
        nameChars_of_plainNameEnd hle hstop
      have hall := (Cursor.reads_advance hc).trans hreads
      have hmore : (nameChars rest.length false >>=
          fun chars => pure (ch :: chars)) c.advance
            = .ok (ch :: chars) stop := bind_ok.2 ⟨chars, _, hchars, rfl⟩
      rw [hall.textTo_eq, nameChars_of_plain hc hplain,
        if_pos (show fitsName true ch = true from hname), hmore]
      rfl

theorem nameToken_eq_ok [NameProperties] (hc : c.rest = ch :: rest)
    (hname : isNameStart ch = true) :
    nameToken c = .ok t d ↔
      ∃ chars, nameChars c.rest.length true c = .ok chars d ∧
        t = c.tokenTo d (wordKind (.ofList chars))
          (.text (.ofList chars)) := by
  unfold nameToken
  rw [name_eq_nameChars hc hname]
  constructor
  · intro h
    split at h
    case h_2 => cases h
    case h_1 chars stop hchars =>
      cases h
      exact ⟨chars, hchars, rfl⟩
  · rintro ⟨chars, hchars, rfl⟩
    simp only [hchars]

theorem nameToken_eq_error [NameProperties] (hc : c.rest = ch :: rest)
    (hname : isNameStart ch = true) :
    nameToken c = .error found d ↔
      nameChars c.rest.length true c = .error found d := by
  unfold nameToken
  rw [name_eq_nameChars hc hname]
  cases nameChars c.rest.length true c with
  | ok chars stop => simp
  | error d stop => simp

-- =========================================================== strings

section Strings

variable {quote : Char} {n : Nat}

/-- A character of a string and more of it. -/
def andMore [Arithmetic] (quote ch : Char) (n : Nat) :
    Scan (Option (List Char)) :=
  quotedChars quote n >>= fun chars => pure (chars.map (ch :: ·))

/-- How a string goes on after an escape. -/
def afterEscape [Arithmetic] (quote : Char) (n : Nat) :
    Escaped → Scan (Option (List Char))
  | .endOfText => pure none
  | .lineBreak => quotedChars quote n
  | .char ch => andMore quote ch n

theorem quotedChars_succ [Arithmetic] (quote : Char) (n : Nat)
    (c : Cursor) :
    quotedChars quote (n + 1) c = match c.peek with
      | none => .ok none c
      | some ch => (if ch = quote then pure (some [])
          else if isLineTerminator ch then pure none
          else if ch = '\\' then escaped >>= afterEscape quote n
          else andMore quote ch n : Scan (Option (List Char)))
            (c.move ch.utf8Size) := by
  conv => lhs; unfold quotedChars
  rw [Scan.peek_bind]
  cases c.peek with
  | none => rfl
  | some ch => rfl

theorem quotedChars_of_nil (hc : c.rest = []) :
    quotedChars quote n c = .ok none c := by
  cases n with
  | zero => rfl
  | succ n => rw [quotedChars_succ, Cursor.peek_nil hc]

theorem quotedChars_of_cons (hc : c.rest = ch :: rest) :
    quotedChars quote (n + 1) c = (if ch = quote then pure (some [])
      else if isLineTerminator ch then pure none
      else if ch = '\\' then escaped >>= afterEscape quote n
      else andMore quote ch n : Scan (Option (List Char))) c.advance := by
  rw [quotedChars_succ, Cursor.peek_cons hc, Cursor.advance_eq hc]

theorem quotedChars_of_quote (hc : c.rest = quote :: rest) :
    quotedChars quote (n + 1) c = .ok (some []) c.advance := by
  rw [quotedChars_of_cons hc, if_pos rfl]
  rfl

theorem quotedChars_of_escape (hquote : '\\' ≠ quote)
    (hc : c.rest = '\\' :: rest) :
    quotedChars quote (n + 1) c
      = (escaped >>= afterEscape quote n) c.advance := by
  rw [quotedChars_of_cons hc, if_neg hquote, if_neg (by decide),
    if_pos rfl]

theorem quotedChars_of_plain (hquote : ch ≠ quote) (hch : ch ≠ '\\')
    (hline : isLineTerminator ch = false) (hc : c.rest = ch :: rest) :
    quotedChars quote (n + 1) c = andMore quote ch n c.advance := by
  rw [quotedChars_of_cons hc, if_neg hquote, hline,
    if_neg Bool.false_ne_true, if_neg hch]

/-- How a string goes on, by what comes next. -/
inductive StringNext (quote : Char) (c : Cursor) : Prop where
  | ends : c.rest = [] → (∀ n, quotedChars quote n c = .ok none c) →
      StringNext quote c
  | quote {rest : List Char} : c.rest = quote :: rest →
      (∀ n, quotedChars quote (n + 1) c = .ok (some []) c.advance) →
      StringNext quote c
  | lineBreak {ch : Char} {rest : List Char} : c.rest = ch :: rest →
      isLineTerminator ch = true →
      (∀ n, quotedChars quote (n + 1) c = .ok none c.advance) →
      StringNext quote c
  | escape {rest : List Char} : c.rest = '\\' :: rest → '\\' ≠ quote →
      (∀ n, quotedChars quote (n + 1) c
        = (escaped >>= afterEscape quote n) c.advance) →
      StringNext quote c
  | plain {ch : Char} {rest : List Char} : c.rest = ch :: rest →
      ch ≠ quote → ch ≠ '\\' → isLineTerminator ch = false →
      (∀ n, quotedChars quote (n + 1) c = andMore quote ch n c.advance) →
      StringNext quote c

theorem stringNext (quote : Char) (c : Cursor) : StringNext quote c := by
  cases hc : c.rest with
  | nil => exact .ends hc fun _ => quotedChars_of_nil hc
  | cons ch rest =>
      by_cases hquote : ch = quote
      · subst hquote
        exact .quote hc fun _ => quotedChars_of_quote hc
      cases hline : isLineTerminator ch with
      | true =>
          refine .lineBreak hc hline fun n => ?_
          rw [quotedChars_of_cons hc, if_neg hquote, hline, if_pos rfl]
          rfl
      | false =>
          by_cases hch : ch = '\\'
          · subst hch
            exact .escape hc hquote fun _ =>
              quotedChars_of_escape hquote hc
          · exact .plain hc hquote hch hline fun _ =>
              quotedChars_of_plain hquote hch hline hc

end Strings

/-- A quote stands within its line. -/
theorem quote_withinLine {quote : Char}
    (h : quote = '\'' ∨ quote = '"') : isLineTerminator quote = false := by
  rcases h with rfl | rfl <;> decide

/-- A quote takes one byte. -/
theorem quote_width {quote : Char} (h : quote = '\'' ∨ quote = '"') :
    quote.utf8Size = 1 := by
  rcases h with rfl | rfl <;> rfl

theorem quotedToken_eq_ok {quote : Char}
    (hquote : quote = '\'' ∨ quote = '"') (hc : c.rest = quote :: rest) :
    quotedToken quote c = .ok t d ↔
      ∃ chars, quotedChars quote c.rest.length c.advance
          = .ok (some chars) d ∧
        t = c.tokenTo d .string (.text (.ofList chars)) := by
  unfold quotedToken
  simp only [Cursor.move_one hc (quote_width hquote)]
  constructor
  · intro h
    split at h
    case h_2 => cases h
    case h_3 => cases h
    case h_1 chars stop hchars =>
      cases h
      exact ⟨chars, hchars, rfl⟩
  · rintro ⟨chars, hchars, rfl⟩
    simp only [hchars]

/-- A string that is not closed fails where it starts, with nothing
read. -/
theorem quotedToken_eq_error {quote : Char}
    (hquote : quote = '\'' ∨ quote = '"') (hc : c.rest = quote :: rest) :
    quotedToken quote c = .error found d ↔
      (∃ stop, quotedChars quote c.rest.length c.advance
          = .ok none stop ∧
        d = c ∧ found = c.position.diagnose .illegalToken) ∨
      quotedChars quote c.rest.length c.advance = .error found d := by
  unfold quotedToken
  simp only [Cursor.move_one hc (quote_width hquote)]
  constructor
  · intro h
    split at h
    case h_1 => cases h
    case h_2 stop hchars =>
      cases h
      exact .inl ⟨stop, hchars, rfl, rfl⟩
    case h_3 hchars =>
      cases h
      exact .inr hchars
  · rintro (⟨stop, hchars, rfl, rfl⟩ | hchars)
    · simp only [hchars]
      rfl
    · simp only [hchars]

-- ======================================================= punctuators

/-- The punctuator that is found is one, and stands in front. -/
theorem punctuator?_in_front {text : List Char} {mark : String}
    (h : punctuator? text = some mark) :
    mark ∈ punctuators ∧ ∃ rest, text = mark.toList ++ rest := by
  have hpre : mark.toList.isPrefixOf text = true := by
    unfold punctuator? at h
    simpa using List.find?_some h
  obtain ⟨rest, hrest⟩ := List.isPrefixOf_iff_prefix.1 hpre
  exact ⟨List.mem_of_find?_eq_some h, rest, hrest.symm⟩

/-- The cursor after a punctuator, which may be a brace. -/
def afterMark (mark : String) (c : Cursor) : Cursor :=
  { c.skip mark.length with
    braceDepth := depthAfter mark (c.skip mark.length).braceDepth }

/-- A punctuator of one character is found where that character stands, if
no operator starts with it. -/
theorem find_single {chars : List Char} {text : List Char}
    (hch : ch ∈ chars) :
    (chars.map String.singleton).find?
        (fun mark => mark.toList.isPrefixOf (ch :: text))
      = some (String.singleton ch) := by
  induction chars with
  | nil => cases hch
  | cons first chars ih =>
      rw [List.map_cons, List.find?_cons]
      by_cases hfirst : first = ch
      · subst hfirst
        simp [List.isPrefixOf]
      · have hnone : (String.singleton first).toList.isPrefixOf (ch :: text)
            = false := by
          simp [List.isPrefixOf, hfirst]
        rw [hnone]
        exact ih ((List.mem_cons.1 hch).resolve_left (Ne.symm hfirst))

theorem find_single_none {chars : List Char} {text : List Char}
    (hch : ch ∉ chars) :
    (chars.map String.singleton).find?
        (fun mark => mark.toList.isPrefixOf (ch :: text)) = none := by
  rw [List.find?_eq_none]
  intro mark hmark
  obtain ⟨first, hfirst, rfl⟩ := List.mem_map.1 hmark
  have hne : first ≠ ch := fun h => hch (h ▸ hfirst)
  simp [List.isPrefixOf, hne]

/-- No operator starts with a character that is a punctuator alone. -/
theorem operators_first {mark : String} (hmark : mark ∈ operators)
    (hch : mark.toList.head? = some ch) :
    ch ∉ '{' :: '}' :: singleMarks := by
  have hall : (operators.all fun mark => !(mark.toList.head?.any
      ('{' :: '}' :: singleMarks).contains)) = true := by
    decide
  have hnone := List.all_eq_true.1 hall mark hmark
  rw [hch, Option.any_some, Bool.not_eq_true'] at hnone
  intro hin
  rw [List.contains_iff_mem.2 hin] at hnone
  cases hnone

/-- A punctuator that stands alone is a character of one byte, and no
brace. -/
theorem singleMarks_plain (hch : ch ∈ singleMarks) :
    ch.utf8Size = 1 ∧ String.singleton ch ≠ "\x7b" ∧
      String.singleton ch ≠ "\x7d" := by
  have hall : (singleMarks.all fun ch => decide (ch.utf8Size = 1 ∧
      String.singleton ch ≠ "\x7b" ∧
      String.singleton ch ≠ "\x7d")) = true := by
    decide
  exact of_decide_eq_true (List.all_eq_true.1 hall ch hch)

theorem find_operator_none {text : List Char}
    (hch : ch ∈ '{' :: '}' :: singleMarks) :
    operators.find? (fun mark => mark.toList.isPrefixOf (ch :: text))
      = none := by
  rw [List.find?_eq_none]
  intro mark hmark hprefix
  obtain ⟨more, hmore⟩ := List.isPrefixOf_iff_prefix.1 hprefix
  cases htext : mark.toList with
  | nil =>
      have hall : ∀ mark ∈ operators, mark.toList ≠ [] := by decide
      exact hall mark hmark htext
  | cons first later =>
      rw [htext] at hmore
      cases hmore
      exact operators_first hmark (by rw [htext]; rfl) hch

/-- Which punctuator stands at a character. -/
theorem punctuator?_cons (ch : Char) (rest : List Char) :
    punctuator? (ch :: rest) =
      if ch = '{' then some "\x7b"
      else if ch = '}' then some "\x7d"
      else if ch ∈ singleMarks then some (String.singleton ch)
      else operators.find? fun mark => mark.toList.isPrefixOf (ch :: rest) := by
  have hsplit : punctuators = operators
      ++ ('{' :: '}' :: singleMarks).map String.singleton := by decide
  unfold punctuator?
  rw [hsplit, List.find?_append]
  by_cases hch : ch ∈ '{' :: '}' :: singleMarks
  · rw [find_operator_none hch, find_single hch, Option.none_or]
    simp only [List.mem_cons] at hch
    rcases hch with rfl | rfl | hch
    · rfl
    · rfl
    · have hopen : ch ≠ '{' := by
        rintro rfl
        exact absurd hch (by decide)
      have hclose : ch ≠ '}' := by
        rintro rfl
        exact absurd hch (by decide)
      rw [if_neg hopen, if_neg hclose, if_pos hch]
  · rw [find_single_none hch, Option.or_none]
    simp only [List.mem_cons, not_or] at hch
    rw [if_neg hch.1, if_neg hch.2.1, if_neg hch.2.2]

/-- A punctuator that stands at the cursor is passed. -/
theorem afterMark_eq {mark : String} (hc : c.rest = mark.toList ++ rest) :
    afterMark mark c = { c.move mark.utf8ByteSize with
      braceDepth := depthAfter mark c.braceDepth } := by
  have hskip := Cursor.skip_eq_move hc
  rw [String.length_toList, ← utf8ByteSize_ofList, String.ofList_toList]
    at hskip
  unfold afterMark
  rw [hskip]
  rfl

/-- Only a brace changes the number of open ones. -/
theorem depthAfter_eq {mark : String} (hopen : mark ≠ "\x7b")
    (hclose : mark ≠ "\x7d") (depth : Nat) :
    depthAfter mark depth = depth := by
  rw [depthAfter, if_neg hopen, if_neg hclose]

/-- What is found at a character is the longest punctuator that fits. -/
theorem markAt_eq (hc : c.rest = ch :: rest) :
    markAt ch c = (punctuator? (ch :: rest)).map
      fun mark => (mark, afterMark mark c) := by
  rw [punctuator?_cons]
  unfold markAt
  by_cases hopen : ch = '{'
  · subst hopen
    have hbrace : c.rest = "\x7b".toList ++ rest := hc
    rw [if_pos rfl, if_pos rfl, Option.map_some, afterMark_eq hbrace]
    rfl
  by_cases hclose : ch = '}'
  · subst hclose
    have hbrace : c.rest = "\x7d".toList ++ rest := hc
    rw [if_neg hopen, if_pos rfl, if_neg hopen, if_pos rfl,
      Option.map_some, afterMark_eq hbrace]
    rfl
  rw [if_neg hopen, if_neg hclose, if_neg hopen, if_neg hclose]
  by_cases hsingle : ch ∈ singleMarks
  · obtain ⟨hwidth, hnotOpen, hnotClose⟩ := singleMarks_plain hsingle
    have hmark : c.rest = (String.singleton ch).toList ++ rest := by
      rw [String.toList_singleton]
      exact hc
    have hreads := Cursor.reads_advance hc
    rw [← Cursor.move_one hc hwidth] at hreads
    rw [if_pos (List.contains_iff_mem.2 hsingle), if_pos hsingle,
      Option.map_some, afterMark_eq hmark, String.utf8ByteSize_singleton,
      hwidth, depthAfter_eq hnotOpen hnotClose]
    simp only [hreads.textTo_eq]
    rfl
  · rw [if_neg (fun h => hsingle (List.contains_iff_mem.1 h)),
      if_neg hsingle]
    simp only [hc]
    cases hfound : operators.find?
        fun mark => mark.toList.isPrefixOf (ch :: rest) with
    | none => rfl
    | some mark =>
        have hplain : ∀ mark ∈ operators, mark ≠ "\x7b" ∧ mark ≠ "\x7d" := by
          decide +kernel
        obtain ⟨hnotOpen, hnotClose⟩ :=
          hplain mark (List.mem_of_find?_eq_some hfound)
        have hprefix : mark.toList.isPrefixOf (ch :: rest) = true := by
          simpa using List.find?_some hfound
        obtain ⟨more, hmore⟩ := List.isPrefixOf_iff_prefix.1 hprefix
        have hmark : c.rest = mark.toList ++ more := hc.trans hmore.symm
        rw [Option.map_some, Option.map_some, afterMark_eq hmark,
          depthAfter_eq hnotOpen hnotClose]
        rfl

/-- The longest punctuator that fits is read. -/
theorem punctuatorToken_eq (c : Cursor) :
    punctuatorToken c = match punctuator? c.rest with
      | some mark =>
        .ok (c.tokenTo (afterMark mark c) .punctuator (.text mark))
          (afterMark mark c)
      | none => Scan.fail .illegalToken c := by
  unfold punctuatorToken
  cases hc : c.rest with
  | nil =>
      rw [Cursor.peek_nil hc, Option.bind_none]
      rfl
  | cons ch rest =>
      rw [Cursor.peek_cons hc, Option.bind_some, markAt_eq hc]
      cases punctuator? (ch :: rest) with
      | none => rfl
      | some mark => rfl

theorem punctuatorToken_eq_ok :
    punctuatorToken c = .ok t d ↔
      ∃ mark, punctuator? c.rest = some mark ∧ d = afterMark mark c ∧
        t = c.tokenTo d .punctuator (.text mark) := by
  rw [punctuatorToken_eq]
  constructor
  · intro h
    split at h
    case h_2 => cases h
    case h_1 mark hmark =>
      cases h
      exact ⟨mark, hmark, rfl, rfl⟩
  · rintro ⟨mark, hmark, rfl, rfl⟩
    simp only [hmark]

theorem punctuatorToken_eq_error :
    punctuatorToken c = .error found d ↔
      punctuator? c.rest = none ∧ d = c ∧
        found = c.position.diagnose .illegalToken := by
  rw [punctuatorToken_eq]
  constructor
  · intro h
    split at h
    case h_1 => cases h
    case h_2 hnone =>
      cases h
      exact ⟨hnone, rfl, rfl⟩
  · rintro ⟨hnone, rfl, rfl⟩
    simp only [hnone]
    rfl

-- ============================================================ tokens

namespace Cursor

theorem token_of_nil [NameProperties]
    (hc : c.rest = []) : token c = .ok c.endToken c := by
  unfold token
  rw [peek_nil hc]

theorem token_of_nameStart [NameProperties] (hc : c.rest = ch :: rest)
    (hname : isNameStart ch = true) : token c = nameToken c := by
  unfold token
  rw [peek_cons hc]
  simp only [hname, if_true]

theorem token_of_quote [NameProperties]
    {quote : Char} (hquote : quote = '\'' ∨ quote = '"')
    (hc : c.rest = quote :: rest) : token c = quotedToken quote c := by
  have hname : isNameStart quote = false := by
    rcases hquote with rfl | rfl <;> rw [isNameStart_ascii] <;> decide
  unfold token
  rw [peek_cons hc]
  simp only [hname, Bool.or_eq_true, decide_eq_true_eq, hquote,
    Bool.false_eq_true, if_false, if_true]

theorem token_of_numeral [NameProperties] (hc : c.rest = ch :: rest)
    (hname : isNameStart ch = false) (hquote : ¬(ch = '\'' ∨ ch = '"'))
    (hstart : c.startsNumeral = true) : token c = numeralToken c := by
  unfold token
  rw [peek_cons hc]
  simp only [hname, Bool.or_eq_true, decide_eq_true_eq, hquote, hstart,
    Bool.false_eq_true, if_false, if_true]

theorem token_of_mark [NameProperties] (hc : c.rest = ch :: rest)
    (hname : isNameStart ch = false) (hquote : ¬(ch = '\'' ∨ ch = '"'))
    (hstart : c.startsNumeral = false) : token c = punctuatorToken c := by
  unfold token
  rw [peek_cons hc]
  simp only [hname, Bool.or_eq_true, decide_eq_true_eq, hquote, hstart,
    Bool.false_eq_true, if_false]

/-- Which scanner a token is left to, by what stands at the cursor. -/
inductive Opens [NameProperties] (c : Cursor) : Prop where
  | nothing : c.rest = [] → token c = .ok c.endToken c → Opens c
  | name {ch : Char} {rest : List Char} : c.rest = ch :: rest →
      isNameStart ch = true → token c = nameToken c → Opens c
  | string {quote : Char} {rest : List Char} : c.rest = quote :: rest →
      quote = '\'' ∨ quote = '"' → token c = quotedToken quote c → Opens c
  | numeral {ch : Char} {rest : List Char} : c.rest = ch :: rest →
      isNameStart ch = false → ¬(ch = '\'' ∨ ch = '"') →
      c.startsNumeral = true → token c = numeralToken c → Opens c
  | punctuator {ch : Char} {rest : List Char} : c.rest = ch :: rest →
      isNameStart ch = false → ¬(ch = '\'' ∨ ch = '"') →
      c.startsNumeral = false → token c = punctuatorToken c → Opens c

theorem opens [NameProperties] (c : Cursor) : c.Opens := by
  cases hc : c.rest with
  | nil => exact .nothing hc (token_of_nil hc)
  | cons ch rest =>
      cases hname : isNameStart ch with
      | true => exact .name hc hname (token_of_nameStart hc hname)
      | false =>
          by_cases hquote : ch = '\'' ∨ ch = '"'
          · exact .string hc hquote (token_of_quote hquote hc)
          cases hstart : c.startsNumeral with
          | true =>
              exact .numeral hc hname hquote hstart
                (token_of_numeral hc hname hquote hstart)
          | false =>
              exact .punctuator hc hname hquote hstart
                (token_of_mark hc hname hquote hstart)

end Cursor

end ScriptTree
