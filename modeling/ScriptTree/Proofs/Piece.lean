/-
How the pieces of a string are read.

# Digits

As many digits as are asked for are read for the number that they denote
(`hexDigits_of_digits`), and nothing else is (`digits_of_hexDigits`). The
number of digits in braces stops at a bound (`foldl_appendHexDigit`). That
is no code of a character, so the escape is read for its number all the
same (`bracedEscape_of_digits`, `digits_of_bracedEscape`).

# Units

Only a unit looks at what comes after it. It is read together with the
other half of a pair (`unitEscape_paired`), and stands alone where the
text does not go on with that (`unitEscape_unpaired`).
-/
import ScriptTree.Proofs.Reading
import ScriptTree.Proofs.Sound
import ScriptTree.Token.Spelling

namespace ScriptTree

variable {c d : Cursor} {digits rest : List Char} {quote : Char}

-- ============================================================ digits

theorem areHexDigits_iff {count : Nat} :
    areHexDigits count digits = true ↔
      digits.length = count ∧ digits.all isHexDigit = true := by
  simp [areHexDigits]

theorem hexValue?_eq_some {ch : Char} {value : Nat} :
    hexValue? ch = some value ↔
      isHexDigit ch = true ∧ value = digitValue ch := by
  unfold isHexDigit isDigitOf digitValue
  cases h : hexValue? ch with
  | none => simp
  | some digit =>
      have hlt := hexValue?_lt h
      simp [hlt, eq_comm]

/-- So many digits are read for the number that they denote. -/
theorem hexDigits_of_digits {count : Nat} (code : Nat)
    (h : areHexDigits count digits = true)
    (hc : c.rest = digits ++ rest) :
    hexDigits count code c
      = (some (digits.foldl addHexDigit code), c.skip count) := by
  obtain ⟨rfl, hall⟩ := areHexDigits_iff.1 h
  clear h
  induction digits generalizing c code with
  | nil => rfl
  | cons ch digits ih =>
      rw [List.all_cons, Bool.and_eq_true] at hall
      have hvalue := hexValue?_eq_some.2 ⟨hall.1, rfl⟩
      rw [List.length_cons, hexDigits_cons hc hvalue]
      exact ih _ (Cursor.advance_rest hc) hall.2

/-- What was read for a number are so many digits. -/
theorem digits_of_hexDigits {count code value : Nat}
    (h : hexDigits count code c = (some value, d)) :
    ∃ digits, areHexDigits count digits = true ∧
      c.Reads digits 0 d ∧ value = digits.foldl addHexDigit code := by
  induction count generalizing c code with
  | zero =>
      cases h
      exact ⟨[], rfl, .refl _, rfl⟩
  | succ count ih =>
      rcases hexDigits_cases count code c with
        ⟨ch, rest, digit, hrest, hvalue, hnext⟩ | hnone
      · rw [hnext] at h
        obtain ⟨hhex, rfl⟩ := hexValue?_eq_some.1 hvalue
        obtain ⟨digits, hdigits, hreads, rfl⟩ := ih h
        obtain ⟨rfl, hall⟩ := areHexDigits_iff.1 hdigits
        refine ⟨ch :: digits, areHexDigits_iff.2 ⟨rfl, ?_⟩,
          (Cursor.reads_advance hrest).trans hreads, rfl⟩
        rw [List.all_cons, hhex, hall]
        rfl
      · rw [hnone] at h
        cases h

/-- Digits make a number no smaller. -/
theorem le_foldl_addHexDigit (digits : List Char) (code : Nat) :
    code ≤ digits.foldl addHexDigit code := by
  induction digits generalizing code with
  | nil => exact Nat.le_refl _
  | cons ch digits ih =>
      apply Nat.le_trans _ (ih _)
      unfold addHexDigit
      omega

/-- To stop at the bound after each digit is to stop there in the end. -/
theorem foldl_appendHexDigit (digits : List Char) {code : Nat}
    (h : code ≤ 0xFFFFFFFF) :
    digits.foldl appendHexDigit code
      = min (digits.foldl addHexDigit code) 0xFFFFFFFF := by
  induction digits generalizing code with
  | nil => exact (Nat.min_eq_left h).symm
  | cons ch digits ih =>
      have hstep : appendHexDigit code ch
          = min (addHexDigit code ch) 0xFFFFFFFF := by
        unfold appendHexDigit addHexDigit saturate
        omega
      rw [List.foldl_cons, List.foldl_cons, hstep,
        ih (Nat.min_le_right _ _)]
      rcases Nat.le_total (addHexDigit code ch) 0xFFFFFFFF with hle | hge
      · rw [Nat.min_eq_left hle]
      · -- Both are at the bound from here on.
        have hbound := le_foldl_addHexDigit digits 0xFFFFFFFF
        have hcode := le_foldl_addHexDigit digits (addHexDigit code ch)
        rw [Nat.min_eq_right hge, Nat.min_eq_right hbound,
          Nat.min_eq_right (Nat.le_trans hge hcode)]

/-- The code of a character is far below the bound. -/
theorem foldl_appendHexDigit_of_valid
    (h : (hexNumber digits).isValidChar) :
    digits.foldl appendHexDigit 0 = hexNumber digits := by
  rw [foldl_appendHexDigit digits (Nat.zero_le _)]
  apply Nat.min_eq_left
  unfold Nat.isValidChar at h
  unfold hexNumber at h
  omega

/-- Digits in braces are read for the character whose code they are. -/
theorem bracedEscape_of_digits (hne : digits ≠ [])
    (hall : digits.all isHexDigit = true)
    (hvalid : (hexNumber digits).isValidChar)
    (hc : c.rest = digits ++ '\x7d' :: rest) :
    ∃ d, bracedEscape c = .ok (.ofNat (hexNumber digits)) d ∧
      c.Reads (digits ++ ['\x7d']) 0 d := by
  have hcode : scalar? (digits.foldl appendHexDigit 0)
      = some (.ofNat (hexNumber digits)) := by
    rw [foldl_appendHexDigit_of_valid hvalid, scalar?, if_pos hvalid]
  exact ⟨_, bracedEscape_eq_ok.2 ⟨digits, rest, hne, hall, hc, hcode, rfl⟩,
    (reads_braced hall hc).2.2⟩

/-- What was read as an escape in braces is one. -/
theorem digits_of_bracedEscape {ch : Char} (h : bracedEscape c = .ok ch d) :
    ∃ digits, digits ≠ [] ∧ digits.all isHexDigit = true ∧
      (hexNumber digits).isValidChar ∧ ch = .ofNat (hexNumber digits) ∧
      c.Reads (digits ++ ['\x7d']) 0 d := by
  obtain ⟨digits, rest, hne, hall, hc, hcode, rfl⟩ :=
    bracedEscape_eq_ok.1 h
  have hnumber : digits.foldl appendHexDigit 0
      = min (hexNumber digits) 0xFFFFFFFF :=
    foldl_appendHexDigit _ (Nat.zero_le _)
  unfold scalar? at hcode
  split at hcode
  case isFalse => cases hcode
  case isTrue hvalid =>
    cases hcode
    -- The bound is no code, so it was not reached.
    have hexact : digits.foldl appendHexDigit 0 = hexNumber digits := by
      unfold Nat.isValidChar at hvalid
      omega
    rw [hexact] at hvalid ⊢
    exact ⟨digits, hne, hall, hvalid, rfl, (reads_braced hall hc).2.2⟩

theorem digits_of_byteEscape {ch : Char} (h : byteEscape c = .ok ch d) :
    ∃ digits, areHexDigits 2 digits = true ∧ c.Reads digits 0 d := by
  obtain ⟨code, hcode, -⟩ := byteEscape_eq_ok.1 h
  obtain ⟨digits, hdigits, hreads, -⟩ := digits_of_hexDigits hcode
  exact ⟨digits, hdigits, hreads⟩

-- ============================================================= units

theorem loneUnit_eq (unit : Nat) :
    loneUnit unit = (scalar? unit).getD replacementChar := by
  unfold loneUnit scalar?
  split <;> rfl

/-- The other half of a pair, as the text goes on with it, is taken. -/
theorem surrogate_paired {high : Nat} {low : List Char} {ch : Char}
    (hlow : areHexDigits 4 low = true)
    (hpair : pairedUnits? high (hexNumber low) = some ch)
    (hc : c.rest = '\\' :: 'u' :: (low ++ rest)) :
    ∃ d, surrogate high c = (ch, d) ∧
      c.Reads ('\\' :: 'u' :: low) 0 d := by
  unfold pairedUnits? at hpair
  split at hpair
  case isFalse => cases hpair
  case isTrue hrange =>
    obtain rfl := Option.some.inj hpair
    simp only [Bool.and_eq_true, decide_eq_true_eq] at hrange
    obtain ⟨⟨⟨hleast, hhigh⟩, hfrom⟩, hto⟩ := hrange
    have hmark : c.Reads ['\\', 'u'] 0 (c.skip 2) :=
      Cursor.reads_skip hc rfl
    have hdigits := hmark.rest_eq hc
    have hlength := (areHexDigits_iff.1 hlow).1
    refine ⟨_, ?_, hmark.trans (Cursor.reads_skip hdigits hlength)⟩
    have hstarts : (0xD800 ≤ high && high < 0xDC00
        && ['\\', 'u'].isPrefixOf c.rest) = true := by
      rw [hc, decide_eq_true hleast, decide_eq_true hhigh]
      rfl
    have hpaired : (0xDC00 ≤ hexNumber low && hexNumber low < 0xE000)
        = true := by
      rw [decide_eq_true hfrom, decide_eq_true hto]
      rfl
    have hread : hexDigits 4 0 (c.skip 2)
        = (some (hexNumber low), (c.skip 2).skip 4) :=
      hexDigits_of_digits 0 hlow hdigits
    rw [surrogate_eq, if_pos hstarts, hread]
    exact if_pos hpaired

/-- A half that the text does not go on with the other half of stands
alone. -/
theorem surrogate_alone {high : Nat} (hhigh : 0xD800 ≤ high)
    (h : ∀ low after, areHexDigits 4 low = true →
      c.rest = '\\' :: 'u' :: (low ++ after) →
      pairedUnits? high (hexNumber low) = none) :
    surrogate high c = (replacementChar, c) := by
  rw [surrogate_eq]
  by_cases hstarts : (0xD800 ≤ high && high < 0xDC00
    && ['\\', 'u'].isPrefixOf c.rest) = true
  case neg => rw [if_neg hstarts]
  rw [if_pos hstarts]
  split
  case h_2 => rfl
  case h_1 low stop hdigits =>
    rw [if_neg]
    intro hpaired
    obtain ⟨hcode, hmark⟩ := Bool.and_eq_true_iff.1 hstarts
    obtain ⟨-, hbelow⟩ := Bool.and_eq_true_iff.1 hcode
    obtain ⟨rest, hrest⟩ := List.isPrefixOf_iff_prefix.1 hmark
    have hskip : c.Reads ['\\', 'u'] 0 (c.skip 2) :=
      Cursor.reads_skip hrest.symm rfl
    obtain ⟨text, htext, hreads, hvalue⟩ := digits_of_hexDigits hdigits
    have hnone := h text stop.rest htext (hskip.trans hreads).rest
    rw [Bool.and_eq_true] at hpaired
    unfold pairedUnits? at hnone
    rw [if_pos] at hnone
    · cases hnone
    · have hnumber : hexNumber text = low := hvalue.symm
      rw [hnumber, hbelow, hpaired.1, hpaired.2, decide_eq_true hhigh]
      rfl

/-- A text does not go on with the other half of a unit. -/
def Unpaired (unit : Nat) (rest : List Char) : Prop :=
  ∀ low after, areHexDigits 4 low = true →
    rest = '\\' :: 'u' :: (low ++ after) →
    pairedUnits? unit (hexNumber low) = none

theorem unitEscape_unpaired (hdigits : areHexDigits 4 digits = true)
    (hc : c.rest = digits ++ rest)
    (halone : Unpaired (hexNumber digits) rest) :
    ∃ d, unitEscape c = .ok (loneUnit (hexNumber digits)) d ∧
      c.Reads digits 0 d := by
  have hread : hexDigits 4 0 c = (some (hexNumber digits), c.skip 4) :=
    hexDigits_of_digits 0 hdigits hc
  have hreads : c.Reads digits 0 (c.skip 4) :=
    Cursor.reads_skip hc (areHexDigits_iff.1 hdigits).1
  refine ⟨c.skip 4, unitEscape_eq_ok.2 ⟨_, _, hread, ?_⟩, hreads⟩
  rw [loneUnit_eq]
  cases hscalar : scalar? (hexNumber digits) with
  | some ch => exact .inl ⟨rfl, rfl⟩
  | none =>
      obtain ⟨hhigh, -⟩ := c.codesFit.surrogate _ _ hread hscalar
      have hrest := hreads.rest_eq hc
      have hsurrogate := surrogate_alone (c := c.skip 4) hhigh
        fun low after hlow hafter => halone low after hlow
          (hrest.symm.trans hafter)
      exact .inr ⟨rfl, hsurrogate⟩

theorem unitEscape_paired {low : List Char} {ch : Char}
    (hdigits : areHexDigits 4 digits = true)
    (hlow : areHexDigits 4 low = true)
    (hpair : pairedUnits? (hexNumber digits) (hexNumber low) = some ch)
    (hc : c.rest = digits ++ '\\' :: 'u' :: (low ++ rest)) :
    ∃ d, unitEscape c = .ok ch d ∧
      c.Reads (digits ++ '\\' :: 'u' :: low) 0 d := by
  have hread : hexDigits 4 0 c = (some (hexNumber digits), c.skip 4) :=
    hexDigits_of_digits 0 hdigits hc
  have hreads : c.Reads digits 0 (c.skip 4) :=
    Cursor.reads_skip hc (areHexDigits_iff.1 hdigits).1
  obtain ⟨d, hsurrogate, hlater⟩ :=
    surrogate_paired hlow hpair (hreads.rest_eq hc)
  have hscalar : scalar? (hexNumber digits) = none := by
    unfold pairedUnits? at hpair
    split at hpair
    case isFalse => cases hpair
    case isTrue hrange =>
      simp only [Bool.and_eq_true, decide_eq_true_eq] at hrange
      unfold scalar?
      rw [if_neg]
      unfold Nat.isValidChar
      omega
  exact ⟨d, unitEscape_eq_ok.2
    ⟨_, _, hread, .inr ⟨hscalar, hsurrogate⟩⟩, hreads.trans hlater⟩

/-- Four digits are read for some character. -/
theorem unitEscape_of_digits
    (hdigits : areHexDigits 4 digits = true)
    (hc : c.rest = digits ++ rest) :
    ∃ ch d, unitEscape c = .ok ch d := by
  have hread : hexDigits 4 0 c = (some (hexNumber digits), c.skip 4) :=
    hexDigits_of_digits 0 hdigits hc
  cases hscalar : scalar? (hexNumber digits) with
  | some ch =>
      exact ⟨ch, _, unitEscape_eq_ok.2
        ⟨_, _, hread, .inl ⟨hscalar, rfl⟩⟩⟩
  | none =>
      exact ⟨_, _, unitEscape_eq_ok.2
        ⟨_, _, hread, .inr ⟨hscalar, rfl⟩⟩⟩

-- =========================================================== escapes

/-- Four digits in front of a text are no brace. -/
theorem peek_ne_brace (hdigits : areHexDigits 4 digits = true)
    (hc : c.rest = digits ++ rest) : ¬c.peek = some '\x7b' := by
  obtain ⟨hlength, hall⟩ := areHexDigits_iff.1 hdigits
  have hne : digits ≠ [] := List.length_pos_iff.1 (by omega)
  obtain ⟨ch, more, rfl⟩ := List.exists_cons_of_ne_nil hne
  rw [Cursor.peek_cons hc]
  rintro ⟨⟩
  rw [List.all_cons, Bool.and_eq_true] at hall
  exact absurd hall.1 (by decide)

/-- What a letter stands for after a backslash is in the table. -/
theorem letterEscape_eq (ch : Char) :
    letterEscape ch = (namedEscapes.lookup ch).getD ch := by
  unfold letterEscape namedEscapes
  split
  case h_7 hn hr ht hb hf hv =>
    simp only [List.lookup_cons, List.lookup_nil, beq_eq_false_iff_ne.2 hn,
      beq_eq_false_iff_ne.2 hr, beq_eq_false_iff_ne.2 ht,
      beq_eq_false_iff_ne.2 hb, beq_eq_false_iff_ne.2 hf,
      beq_eq_false_iff_ne.2 hv]
    rfl
  all_goals rfl

/-- A letter after a backslash is read for what it stands for. -/
theorem escaped_letter {ch : Char}
    (hfits : (StringPiece.letter ch).fits quote = true)
    (hc : c.rest = ch :: rest) :
    ∃ d, escaped c = .ok (.char ((namedEscapes.lookup ch).getD ch)) d ∧
      c.Reads [ch] 0 d := by
  simp only [StringPiece.fits, Bool.and_eq_true, decide_eq_true_eq,
    Bool.not_eq_true'] at hfits
  obtain ⟨⟨hu, hx⟩, hline⟩ := hfits
  refine ⟨c.advance, ?_, Cursor.reads_advance hc⟩
  rw [escaped_of_letter hc hline, ← letterEscape_eq]
  unfold afterLetter
  rw [if_neg hu, if_neg hx]
  rfl

/-- So are two digits after their letter. -/
theorem escaped_byte (hdigits : areHexDigits 2 digits = true)
    (hc : c.rest = 'x' :: (digits ++ rest)) :
    ∃ d, escaped c = .ok (.char (.ofNat (hexNumber digits))) d ∧
      c.Reads ('x' :: digits) 0 d := by
  have hfirst := Cursor.reads_advance hc
  have hrest := hfirst.rest_eq hc
  have hread : hexDigits 2 0 c.advance
      = (some (hexNumber digits), c.advance.skip 2) :=
    hexDigits_of_digits 0 hdigits hrest
  refine ⟨_, ?_, hfirst.trans
    (Cursor.reads_skip hrest (areHexDigits_iff.1 hdigits).1)⟩
  rw [escaped_of_letter hc (by decide)]
  show (Escaped.char <$> byteEscape) c.advance = _
  exact map_ok.2 ⟨_, byteEscape_eq_ok.2 ⟨_, hread, rfl⟩, rfl⟩

/-- An escape by number is read for what its number is read for. -/
theorem escaped_number {ch : Char} (hc : c.rest = 'u' :: rest)
    (h : numberEscape c.advance = .ok ch d) :
    escaped c = .ok (.char ch) d := by
  rw [escaped_of_letter hc (by decide)]
  exact map_ok.2 ⟨ch, h, rfl⟩

theorem escaped_unpaired (hdigits : areHexDigits 4 digits = true)
    (hc : c.rest = 'u' :: (digits ++ rest))
    (halone : Unpaired (hexNumber digits) rest) :
    ∃ d, escaped c = .ok (.char (loneUnit (hexNumber digits))) d ∧
      c.Reads ('u' :: digits) 0 d := by
  have hfirst := Cursor.reads_advance hc
  have hrest := hfirst.rest_eq hc
  obtain ⟨d, hd, hreads⟩ := unitEscape_unpaired hdigits hrest halone
  refine ⟨d, escaped_number hc ?_, hfirst.trans hreads⟩
  rw [numberEscape_eq, if_neg (peek_ne_brace hdigits hrest)]
  exact hd

theorem escaped_paired {low : List Char} {ch : Char}
    (hdigits : areHexDigits 4 digits = true)
    (hlow : areHexDigits 4 low = true)
    (hpair : pairedUnits? (hexNumber digits) (hexNumber low) = some ch)
    (hc : c.rest = 'u' :: (digits ++ '\\' :: 'u' :: (low ++ rest))) :
    ∃ d, escaped c = .ok (.char ch) d ∧
      c.Reads ('u' :: (digits ++ '\\' :: 'u' :: low)) 0 d := by
  have hfirst := Cursor.reads_advance hc
  have hrest := hfirst.rest_eq hc
  obtain ⟨d, hd, hreads⟩ := unitEscape_paired hdigits hlow hpair hrest
  refine ⟨d, escaped_number hc ?_, hfirst.trans hreads⟩
  rw [numberEscape_eq, if_neg (peek_ne_brace hdigits hrest)]
  exact hd

theorem escaped_braced
    (hfits : (StringPiece.braced digits).fits quote = true)
    (hc : c.rest = 'u' :: '\x7b' :: (digits ++ '\x7d' :: rest)) :
    ∃ d, escaped c = .ok (.char (.ofNat (hexNumber digits))) d ∧
      c.Reads ('u' :: '\x7b' :: (digits ++ ['\x7d'])) 0 d := by
  simp only [StringPiece.fits, Bool.and_eq_true, decide_eq_true_eq] at hfits
  obtain ⟨⟨hne, hall⟩, hvalid⟩ := hfits
  have hfirst := Cursor.reads_advance hc
  have hbrace := hfirst.rest_eq hc
  have hsecond := Cursor.reads_advance hbrace
  obtain ⟨d, hd, hreads⟩ :=
    bracedEscape_of_digits hne hall hvalid (hsecond.rest_eq hbrace)
  refine ⟨d, escaped_number hc ?_, (hfirst.trans hsecond).trans hreads⟩
  rw [numberEscape_eq, if_pos (Cursor.peek_cons hbrace)]
  exact hd

-- ======================================================= line breaks

/-- A line ends with one character, or with a carriage return and a line
feed. -/
theorem mem_lineEnds {terminator : List Char} :
    terminator ∈ lineEnds ↔
      (∃ ch, terminator = [ch] ∧ isLineTerminator ch = true) ∨
        terminator = ['\r', '\n'] := by
  constructor
  · intro h
    simp only [lineEnds, List.mem_cons, List.not_mem_nil, or_false] at h
    rcases h with rfl | rfl | rfl | rfl | rfl
    case inr.inr.inl => exact .inr rfl
    all_goals exact .inl ⟨_, rfl, by decide⟩
  · rintro (⟨ch, rfl, hch⟩ | rfl)
    · simp only [isLineTerminator, Bool.or_eq_true, decide_eq_true_eq]
        at hch
      rcases hch with ((rfl | rfl) | rfl) | rfl <;> decide
    · decide

/-- A line terminator is read whole, unless a carriage return is cut off
from its line feed. -/
theorem lineBreak_of_end {terminator : List Char}
    (hends : terminator ∈ lineEnds)
    (hc : c.rest = terminator ++ rest) (hrest : rest.head? ≠ some '\n') :
    ∃ d, c.lineBreak? = some d ∧ c.Reads terminator 1 d := by
  rcases mem_lineEnds.1 hends with ⟨ch, rfl, hch⟩ | rfl
  · have hcrlf : ∀ more, c.rest ≠ '\r' :: '\n' :: more := by
      intro more hmore
      rw [hc] at hmore
      cases hmore
      exact hrest rfl
    exact ⟨_, Cursor.lineBreak?_eq_some.2
      (.inr ⟨ch, rest, hc, hch, hcrlf, rfl⟩), Cursor.reads_startLine hc⟩
  · exact ⟨_, Cursor.lineBreak?_eq_some.2 (.inl ⟨rest, hc, rfl⟩),
      Cursor.reads_startLine hc⟩

/-- What was read as the end of a line is one. -/
theorem end_of_lineBreak (h : c.lineBreak? = some d) :
    ∃ terminator ∈ lineEnds, c.Reads terminator 1 d := by
  rcases Cursor.lineBreak?_eq_some.1 h with
    ⟨rest, hrest, rfl⟩ | ⟨ch, rest, hrest, hch, -, rfl⟩
  · have hpair : c.rest = ['\r', '\n'] ++ rest := hrest
    exact ⟨['\r', '\n'], by decide, Cursor.reads_startLine hpair⟩
  · have hone : c.rest = [ch] ++ rest := hrest
    exact ⟨[ch], mem_lineEnds.2 (.inl ⟨ch, rfl, hch⟩),
      Cursor.reads_startLine hone⟩

end ScriptTree
