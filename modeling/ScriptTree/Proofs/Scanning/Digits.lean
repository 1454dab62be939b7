/-
What comes of a numeral.

# Two ways to read a decimal numeral

The scanner passes over a decimal numeral and then has the text of it
read. Here the parts are read as they are passed (`fraction`, `exponent`).
The text is made of the same parts (`mantissaText_of_start`,
`powerText_of_exponent`), so it has a number, and the scanner never fails
for want of one (`decimalNumeral_eq`).
-/
import Mathlib.Data.List.TakeWhile
import ScriptTree.Proofs.DecimalText
import ScriptTree.Proofs.Scanning.Outcome

namespace ScriptTree

variable {c d : Cursor} {ch : Char} {rest : List Char} {t : Token}
  {found : Diagnostic}

-- ========================================================== numerals

/-- The digits of a numeral in a radix. -/
def radixDigits (radix : Nat) (c : Cursor) : List Char :=
  (c.skip 2).rest.takeWhile (isDigitOf radix)

/-- The cursor after the digits of a numeral in a radix. -/
def afterRadixDigits (radix : Nat) (c : Cursor) : Cursor :=
  (c.skip 2).skipWhile (isDigitOf radix)

/-- The letter that announces a radix takes one byte. -/
theorem width_of_radixOf {mark : Char} {radix : Nat}
    (h : radixOf? mark = some radix) : mark.utf8Size = 1 := by
  unfold radixOf? at h
  simp only [Bool.or_eq_true, decide_eq_true_eq] at h
  split at h
  case isTrue hmark => rcases hmark with rfl | rfl <;> rfl
  split at h
  case isTrue hmark => rcases hmark with rfl | rfl <;> rfl
  split at h
  case isTrue hmark => rcases hmark with rfl | rfl <;> rfl
  cases h

/-- Behind the digits of a numeral no digit of its radix follows, so it
makes no difference whether decimal digits are asked for where they all
are of the radix. -/
theorem spoils_after_digits [NameProperties] (radix : Nat) (c : Cursor) :
    (c.skipWhile (isDigitOf radix)).peek.any (spoilsRadix radix)
      = (c.skipWhile (isDigitOf radix)).peek.any
          fun ch => isNameStart ch || isDecimalDigit ch := by
  have hends : (c.skipWhile (isDigitOf radix)).peek.any (isDigitOf radix)
      = false := by
    rw [Cursor.peek, Cursor.skipWhile_rest]
    exact dropWhile_head_any _ _
  cases hpeek : (c.skipWhile (isDigitOf radix)).peek with
  | none => rfl
  | some ch =>
      rw [hpeek, Option.any_some] at hends
      rw [Option.any_some, Option.any_some]
      unfold spoilsRadix
      split
      case isFalse => rfl
      case isTrue hsixteen =>
        subst hsixteen
        have hdecimal : isDecimalDigit ch = false := by
          rw [Bool.eq_false_iff] at hends ⊢
          intro hdigit
          obtain ⟨value, hvalue, hlt⟩ := (Option.any_eq_true _ _).1 hdigit
          exact hends (isHexDigit_of_hexValue hvalue)
        rw [hdecimal, Bool.or_false]

/-- A numeral in the radix that is announced by what stands at the
cursor. -/
theorem radixNumeral_eq [NameProperties] {mark : Char} {radix : Nat}
    (hc : c.rest = '0' :: mark :: rest)
    (hradix : radixOf? mark = some radix) :
    radixNumeral radix c =
      let stop := afterRadixDigits radix c
      if (radixDigits radix c).isEmpty || stop.peek.any
        (fun ch => isNameStart ch || isDecimalDigit ch) then
        Scan.fail .illegalToken stop
      else .ok (c.tokenTo stop .numeric (.number (.ofRadixDigits radix
        ((radixDigits radix c).map digitValue)))) stop := by
  have hmove := Cursor.move_two hc rfl (width_of_radixOf hradix)
  unfold radixNumeral radixDigits afterRadixDigits
  simp only [hmove, Cursor.skipRun_digits, spoils_after_digits,
    (Cursor.reads_skipWhile (isDigitOf radix) (c.skip 2)).textTo_eq]

theorem radixNumeral_eq_ok [NameProperties] {mark : Char} {radix : Nat}
    (hc : c.rest = '0' :: mark :: rest)
    (hradix : radixOf? mark = some radix) :
    radixNumeral radix c = .ok t d ↔
      radixDigits radix c ≠ [] ∧ d = afterRadixDigits radix c ∧
      d.peek.any (fun ch => isNameStart ch || isDecimalDigit ch) = false ∧
      t = c.tokenTo d .numeric (.number (.ofRadixDigits radix
        ((radixDigits radix c).map digitValue))) := by
  rw [radixNumeral_eq hc hradix]
  simp only
  split
  case isTrue hbad =>
    constructor
    · intro h
      cases h
    · rintro ⟨hne, rfl, hplain, -⟩
      simp [hne, hplain] at hbad
  case isFalse hok =>
    simp only [Bool.or_eq_true, List.isEmpty_iff, not_or,
      Bool.not_eq_true] at hok
    constructor
    · intro h
      cases h
      exact ⟨hok.1, rfl, hok.2, rfl⟩
    · rintro ⟨-, rfl, -, rfl⟩
      rfl

theorem radixNumeral_eq_error [NameProperties] {mark : Char} {radix : Nat}
    (hc : c.rest = '0' :: mark :: rest)
    (hradix : radixOf? mark = some radix) :
    radixNumeral radix c = .error found d ↔
      (radixDigits radix c = [] ∨
        d.peek.any (fun ch => isNameStart ch || isDecimalDigit ch)
          = true) ∧
      d = afterRadixDigits radix c ∧
      found = d.position.diagnose .illegalToken := by
  rw [radixNumeral_eq hc hradix]
  simp only
  split
  case isTrue hbad =>
    rw [Bool.or_eq_true, List.isEmpty_iff] at hbad
    constructor
    · intro h
      cases h
      exact ⟨hbad, rfl, rfl⟩
    · rintro ⟨-, rfl, rfl⟩
      rfl
  case isFalse hok =>
    constructor
    · intro h
      cases h
    · rintro ⟨hbad, rfl, -⟩
      simp only [Bool.or_eq_true, List.isEmpty_iff] at hok
      exact absurd hbad hok

/-- The digits of an optional fraction, and the cursor after it. A point
without digits after it is a fraction as well. -/
def fraction (c : Cursor) : List Char × Cursor :=
  if c.peek = some '.' then
    (c.advance.rest.takeWhile isDecimalDigit,
      c.advance.skipWhile isDecimalDigit)
  else ([], c)

/-- The cursor after the letter of an exponent and its sign, if it has
one. -/
def afterSign (c : Cursor) : Cursor :=
  if c.peek = some '+' || c.peek = some '-' then c.advance else c

/-- An exponent once its letter is there, from after the letter on. -/
def exponentDigits (c : Cursor) :
    EStateM.Result Diagnostic Cursor Int :=
  let first := afterSign c
  let digits := first.rest.takeWhile isDecimalDigit
  if digits.isEmpty then Scan.fail .illegalToken first
  else
    let size : Int := decimalValue digits
    .ok (if c.peek = some '-' then -size else size)
      (first.skipWhile isDecimalDigit)

/-- An optional exponent. Once its letter is there, it needs a digit. -/
def exponent : Scan Int := fun c =>
  if c.peek = some 'e' || c.peek = some 'E' then exponentDigits c.advance
  else .ok 0 c

/-- There is an exponent behind its letter only. -/
theorem exponent_eq (c : Cursor) :
    exponent c =
      if c.peek = some 'e' || c.peek = some 'E' then exponentDigits c.advance
      else .ok 0 c := rfl

theorem exponentDigits_eq_ok {power : Int} :
    exponentDigits c = .ok power d ↔
      (afterSign c).rest.takeWhile isDecimalDigit ≠ [] ∧
      d = (afterSign c).skipWhile isDecimalDigit ∧
      let size : Int :=
        decimalValue ((afterSign c).rest.takeWhile isDecimalDigit)
      power = if c.peek = some '-' then -size else size := by
  unfold exponentDigits
  simp only
  split
  case isTrue hempty =>
    rw [List.isEmpty_iff] at hempty
    constructor
    · intro h
      cases h
    · rintro ⟨hne, -⟩
      exact absurd hempty hne
  case isFalse hdigits =>
    rw [List.isEmpty_iff] at hdigits
    constructor
    · intro h
      cases h
      exact ⟨hdigits, rfl, rfl⟩
    · rintro ⟨-, rfl, rfl⟩
      rfl

theorem exponentDigits_eq_error :
    exponentDigits c = .error found d ↔
      (afterSign c).rest.takeWhile isDecimalDigit = [] ∧
      d = afterSign c ∧ found = d.position.diagnose .illegalToken := by
  unfold exponentDigits
  simp only
  split
  case isTrue hempty =>
    rw [List.isEmpty_iff] at hempty
    constructor
    · intro h
      cases h
      exact ⟨hempty, rfl, rfl⟩
    · rintro ⟨-, rfl, rfl⟩
      rfl
  case isFalse hdigits =>
    rw [List.isEmpty_iff] at hdigits
    constructor
    · intro h
      cases h
    · rintro ⟨hempty, -⟩
      exact absurd hempty hdigits

/-- A cursor at a numeral stands at a digit, or at a point with a digit
after it. -/
theorem startsNumeral_cases (h : c.startsNumeral = true) :
    (∃ ch rest, c.rest = ch :: rest ∧ isDecimalDigit ch = true) ∨
      ∃ ch rest, c.rest = '.' :: ch :: rest ∧ isDecimalDigit ch = true := by
  unfold Cursor.startsNumeral at h
  split at h
  case isTrue hpoint =>
    obtain ⟨rest, hrest⟩ := Cursor.peek_eq_some.1 hpoint
    obtain ⟨ch, hnext, hdigit⟩ := (Option.any_eq_true _ _).1 h
    rw [Cursor.peekNext, hrest, List.tail_cons] at hnext
    obtain ⟨more, rfl⟩ := List.head?_eq_some_iff.1 hnext
    exact .inr ⟨ch, more, hrest, hdigit⟩
  case isFalse =>
    obtain ⟨ch, hpeek, hdigit⟩ := (Option.any_eq_true _ _).1 h
    obtain ⟨rest, hrest⟩ := Cursor.peek_eq_some.1 hpeek
    exact .inl ⟨ch, rest, hrest, hdigit⟩

/-- The two ways to pass digits are one. -/
theorem skipDigits_eq (c : Cursor) :
    skipDigits c = c.skipWhile isDecimalDigit :=
  Cursor.skipRun_digits 10 c

/-- The whole part of a number is passed digit by digit. -/
theorem pastWhole_eq (hstart : c.startsNumeral = true) :
    pastWhole c = c.skipWhile isDecimalDigit := by
  unfold pastWhole
  rcases startsNumeral_cases hstart with
    ⟨ch, rest, hc, hdigit⟩ | ⟨ch, rest, hc, -⟩
  · have hpoint : ¬c.peek = some '.' := by
      rw [Cursor.peek_cons hc]
      rintro ⟨⟩
      cases hdigit
    rw [if_neg hpoint, Cursor.move_one hc (utf8Size_of_digit hdigit),
      skipDigits_eq, Cursor.skipWhile_cons hc, if_pos hdigit]
  · rw [if_pos (Cursor.peek_cons hc), Cursor.skipWhile_cons hc,
      if_neg (by decide)]

/-- The fraction is passed as it is read. -/
theorem pastFraction_eq (c : Cursor) :
    pastFraction c = (fraction c).2 := by
  unfold pastFraction fraction
  by_cases hpoint : c.peek = some '.'
  · obtain ⟨rest, hrest⟩ := Cursor.peek_eq_some.1 hpoint
    rw [if_pos hpoint, if_pos hpoint, Cursor.move_one hrest rfl,
      skipDigits_eq]
  · rw [if_neg hpoint, if_neg hpoint]

/-- The sign is passed as it is read. -/
theorem pastSign_eq (c : Cursor) : pastSign c = afterSign c := by
  unfold pastSign afterSign
  split
  case isFalse => rfl
  case isTrue hsign =>
    obtain ⟨ch, rest, hrest, rfl | rfl⟩ := Cursor.peek_or.1 hsign
    · exact Cursor.move_one hrest rfl
    · exact Cursor.move_one hrest rfl

/-- A run of digits is there just if a digit is. -/
theorem takeWhile_digits_isEmpty (c : Cursor) :
    (c.rest.takeWhile isDecimalDigit).isEmpty
      = !c.peek.any isDecimalDigit := by
  cases hc : c.rest with
  | nil => rw [Cursor.peek_nil hc]; rfl
  | cons ch rest =>
      rw [Cursor.peek_cons hc, Option.any_some]
      cases hdigit : isDecimalDigit ch with
      | false => rw [List.takeWhile_cons_of_neg (by simp [hdigit])]; rfl
      | true => rw [List.takeWhile_cons_of_pos hdigit]; rfl

/-- An exponent is passed where it can be read. -/
theorem skipExponent_eq (c : Cursor) :
    skipExponent c = match exponent c with
      | .ok _ stop => .ok () stop
      | .error d stop => .error d stop := by
  rw [exponent_eq]
  unfold skipExponent
  by_cases hletter : (c.peek = some 'e' || c.peek = some 'E') = true
  · obtain ⟨ch, rest, hrest, hch⟩ := Cursor.peek_or.1 hletter
    have hmove : c.move 1 = c.advance := by
      rcases hch with rfl | rfl
      · exact Cursor.move_one hrest rfl
      · exact Cursor.move_one hrest rfl
    rw [if_pos hletter, if_pos hletter]
    unfold exponentDigits
    simp only [hmove, pastSign_eq, skipDigits_eq, takeWhile_digits_isEmpty]
    cases (afterSign c.advance).peek.any isDecimalDigit with
    | true => rfl
    | false => rfl
  · rw [if_neg hletter, if_neg hletter]

/-- The number of a decimal numeral with the given power. -/
def decimalNumber (c : Cursor) (power : Int) : Binary64 :=
  let places := (fraction (c.skipWhile isDecimalDigit)).1
  .ofDecimal (decimalValue (c.rest.takeWhile isDecimalDigit ++ places))
    (power - places.length)

/-- The digits of a decimal numeral as they stand in the text. -/
theorem mantissaText_of_start (hstart : c.startsNumeral = true) :
    ∃ front, c.Reads front 0 (fraction (c.skipWhile isDecimalDigit)).2 ∧
      MantissaText (c.rest.takeWhile isDecimalDigit)
        (fraction (c.skipWhile isDecimalDigit)).1 front := by
  have hwhole := Cursor.reads_skipWhile isDecimalDigit c
  have hdigits : ∀ ch ∈ c.rest.takeWhile isDecimalDigit,
      isDecimalDigit ch = true := fun ch hin => List.mem_takeWhile_imp hin
  let stem := c.skipWhile isDecimalDigit
  have hfirst : stem.peek ≠ some '.' →
      c.rest.takeWhile isDecimalDigit ≠ [] := by
    intro hpoint
    rcases startsNumeral_cases hstart with
      ⟨ch, rest, hc, hch⟩ | ⟨ch, rest, hc, hch⟩
    · rw [hc, List.takeWhile_cons_of_pos hch]
      exact List.cons_ne_nil _ _
    · have hstem : stem.rest = '.' :: ch :: rest := by
        show (c.skipWhile isDecimalDigit).rest = _
        rw [Cursor.skipWhile_cons hc, if_neg (by decide)]
        exact hc
      exact absurd (Cursor.peek_cons hstem) hpoint
  unfold fraction
  by_cases hpoint : stem.peek = some '.'
  · obtain ⟨rest, hrest⟩ := Cursor.peek_eq_some.1 hpoint
    have hplaces : ∀ ch ∈ stem.advance.rest.takeWhile isDecimalDigit,
        isDecimalDigit ch = true := fun ch hin => List.mem_takeWhile_imp hin
    rw [if_pos hpoint]
    refine ⟨_, hwhole.trans ((Cursor.reads_advance hrest).trans
      (Cursor.reads_skipWhile isDecimalDigit stem.advance)),
      .point (List.forall_mem_append.2 ⟨hdigits, hplaces⟩) ?_⟩
    intro hnil
    obtain ⟨hwhole, hplaces⟩ := List.append_eq_nil_iff.1 hnil
    replace hplaces : stem.advance.rest.takeWhile isDecimalDigit = [] :=
      hplaces
    rcases startsNumeral_cases hstart with
      ⟨ch, rest, hc, hch⟩ | ⟨ch, rest, hc, hch⟩
    · rw [hc, List.takeWhile_cons_of_pos hch] at hwhole
      cases hwhole
    · have hstay : stem = c := by
        show c.skipWhile isDecimalDigit = c
        rw [Cursor.skipWhile_cons hc, if_neg (by decide)]
      rw [hstay, Cursor.advance_rest hc, List.takeWhile_cons_of_pos hch]
        at hplaces
      cases hplaces
  · rw [if_neg hpoint]
    exact ⟨_, hwhole, .plain hdigits (hfirst hpoint)⟩

/-- A sign as it stands in the text. -/
theorem reads_afterSign (c : Cursor) :
    ∃ sign, c.Reads sign 0 (afterSign c) ∧ sign ∈ [[], ['+'], ['-']] ∧
      (c.peek = some '-' ↔ sign = ['-']) := by
  unfold afterSign
  by_cases hsign : (c.peek = some '+' || c.peek = some '-') = true
  · rw [if_pos hsign]
    obtain ⟨ch, rest, hrest, hch⟩ := Cursor.peek_or.1 hsign
    refine ⟨[ch], Cursor.reads_advance hrest, ?_, ?_⟩
    · simpa using hch
    · simp [Cursor.peek_cons hrest]
  · rw [if_neg hsign]
    refine ⟨[], .refl c, by simp, ?_⟩
    simp only [Bool.or_eq_true, decide_eq_true_eq, not_or] at hsign
    simp [hsign.2]

/-- An exponent after its letter as it stands in the text. -/
theorem powerText_of_exponentDigits {power : Int}
    (h : exponentDigits c = .ok power d) :
    ∃ text, c.Reads text 0 d ∧ ∀ mark, IsExponentMark mark →
      powerOf? (mark :: text) = some power := by
  obtain ⟨hne, rfl, hpower⟩ := exponentDigits_eq_ok.1 h
  obtain ⟨sign, hreads, hsigns, hminus⟩ := reads_afterSign c
  refine ⟨_, hreads.trans
    (Cursor.reads_skipWhile isDecimalDigit (afterSign c)), ?_⟩
  intro mark hmark
  rw [powerOf?_eq hmark hsigns hne
    fun ch hin => List.mem_takeWhile_imp hin, hpower]
  simp only [hminus]

/-- An optional exponent as it stands in the text. -/
theorem powerText_of_exponent {power : Int}
    (h : exponent c = .ok power d) :
    ∃ text, c.Reads text 0 d ∧ PowerText power text := by
  rw [exponent_eq] at h
  split at h
  case isTrue hletter =>
    obtain ⟨mark, rest, hrest, hcase⟩ := Cursor.peek_or.1 hletter
    have hmark : IsExponentMark mark := by
      rcases hcase with rfl | rfl
      · exact List.mem_cons_self
      · exact List.mem_cons_of_mem _ List.mem_cons_self
    obtain ⟨text, hreads, hpower⟩ := powerText_of_exponentDigits h
    refine ⟨_, (Cursor.reads_advance hrest).trans hreads,
      hpower mark hmark, ?_⟩
    rintro ch ⟨⟩
    exact hmark
  case isFalse =>
    cases h
    exact ⟨[], .refl _, rfl, by simp⟩

/-- The text of a decimal numeral has a number, so there is no failure
behind it but for a name. -/
theorem decimalNumeral_eq [NameProperties] (hstart : c.startsNumeral = true) :
    decimalNumeral c =
      match exponent (fraction (c.skipWhile isDecimalDigit)).2 with
      | .error d stop => .error d stop
      | .ok power stop =>
        if stop.peek.any isNameStart then Scan.fail .illegalToken stop
        else .ok (c.tokenTo stop .numeric (.number (decimalNumber c power)))
          stop := by
  unfold decimalNumeral
  rw [pastWhole_eq hstart, pastFraction_eq, skipExponent_eq]
  rcases hpower : exponent (fraction (c.skipWhile isDecimalDigit)).2 with
    ⟨power, stop⟩ | ⟨found, stop⟩
  · obtain ⟨front, hreads, hfront⟩ := mantissaText_of_start hstart
    obtain ⟨text, hread, htext⟩ := powerText_of_exponent hpower
    have hall := hreads.trans hread
    simp only [hall.textTo_eq, ofDecimalText?_eq hfront htext]
    rfl
  · rfl

theorem decimalNumeral_eq_ok [NameProperties]
    (hstart : c.startsNumeral = true) :
    decimalNumeral c = .ok t d ↔
      ∃ power, exponent (fraction (c.skipWhile isDecimalDigit)).2
          = .ok power d ∧
        d.peek.any isNameStart = false ∧
        t = c.tokenTo d .numeric (.number (decimalNumber c power)) := by
  rw [decimalNumeral_eq hstart]
  constructor
  · intro h
    split at h
    case h_1 => cases h
    case h_2 power stop hpower =>
      split at h
      case isTrue => cases h
      case isFalse hplain =>
        cases h
        exact ⟨power, hpower, by simpa using hplain, rfl⟩
  · rintro ⟨power, hpower, hplain, rfl⟩
    simp only [hpower, hplain, Bool.false_eq_true, if_false]

theorem decimalNumeral_eq_error [NameProperties]
    (hstart : c.startsNumeral = true) :
    decimalNumeral c = .error found d ↔
      exponent (fraction (c.skipWhile isDecimalDigit)).2
        = .error found d ∨
      ∃ power, exponent (fraction (c.skipWhile isDecimalDigit)).2
          = .ok power d ∧
        d.peek.any isNameStart = true ∧
        found = d.position.diagnose .illegalToken := by
  rw [decimalNumeral_eq hstart]
  constructor
  · intro h
    split at h
    case h_1 hpower =>
      cases h
      exact .inl hpower
    case h_2 power stop hpower =>
      split at h
      case isFalse => cases h
      case isTrue hspoiled =>
        cases h
        exact .inr ⟨power, hpower, hspoiled, rfl⟩
  · rintro (hpower | ⟨power, hpower, hspoiled, rfl⟩)
    · simp only [hpower]
    · simp only [hpower, hspoiled, if_true]
      rfl

/-- Behind a letter that announces a radix a number is read in it. -/
theorem numeralToken_eq_radix [NameProperties] {mark : Char} {radix : Nat}
    (hc : c.rest = '0' :: mark :: rest)
    (hradix : radixOf? mark = some radix) :
    numeralToken c = radixNumeral radix c := by
  unfold numeralToken
  rw [if_pos (Cursor.peek_cons hc), Cursor.move_one hc rfl,
    Cursor.peek_cons (Cursor.advance_rest hc)]
  simp only [Option.bind_some, hradix]

/-- Where no radix is announced a numeral is a decimal one. -/
theorem numeralToken_eq_decimal [NameProperties]
    (h : ∀ mark rest, c.rest = '0' :: mark :: rest →
      radixOf? mark = none) : numeralToken c = decimalNumeral c := by
  unfold numeralToken
  split
  case isFalse => rfl
  case isTrue hzero =>
    obtain ⟨rest, hrest⟩ := Cursor.peek_eq_some.1 hzero
    have hnone : (c.move 1).peek.bind radixOf? = none := by
      rw [Cursor.move_one hrest rfl, Cursor.peek,
        Cursor.advance_rest hrest]
      cases rest with
      | nil => rfl
      | cons mark rest => exact h mark rest hrest
    simp only [hnone]

/-- A numeral is one in the radix that is announced, or a decimal one. -/
theorem numeralToken_cases [NameProperties] (c : Cursor) :
    (∃ mark rest radix, c.rest = '0' :: mark :: rest ∧
      radixOf? mark = some radix ∧
      numeralToken c = radixNumeral radix c) ∨
    ((∀ mark rest, c.rest = '0' :: mark :: rest →
        radixOf? mark = none) ∧
      numeralToken c = decimalNumeral c) := by
  by_cases hradix : ∃ mark rest radix, c.rest = '0' :: mark :: rest ∧
      radixOf? mark = some radix
  · obtain ⟨mark, rest, radix, hc, hmark⟩ := hradix
    exact .inl ⟨mark, rest, radix, hc, hmark,
      numeralToken_eq_radix hc hmark⟩
  · have hnone : ∀ mark rest, c.rest = '0' :: mark :: rest →
        radixOf? mark = none := by
      intro mark rest hc
      rw [Option.eq_none_iff_forall_ne_some]
      exact fun radix hmark => hradix ⟨mark, rest, radix, hc, hmark⟩
    exact .inr ⟨hnone, numeralToken_eq_decimal hnone⟩

end ScriptTree
