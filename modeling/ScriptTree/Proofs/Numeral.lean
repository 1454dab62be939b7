/-
Decimal numerals are read by their grammar.

# Digits

The digits that a scan asks for are those that the grammar lists
(`isDecimalDigit_iff`). Both have codes of seven bits, so there are few
characters to compare (`ascii_iff`).

# Parts

Each part of a decimal numeral is taken as far as it goes, and no part can
go on with what the next one starts with: a fraction starts with a point
and an exponent with its letter. Where that letter is not followed by an
exponent, the numeral ends in front of it, and the letter spoils it.

# Numbers

The scan makes the number from the parts that it has read. A reader of
whole texts finds the same parts again, as each of them stops at the first
character of the next (`ofDecimalText?_eq`).
-/
import Mathlib.Data.Bool.AllAny
import ScriptTree.Proofs.Longest
import ScriptTree.Proofs.Scanning.Numeral
import ScriptTree.Proofs.Scanning.Walk

namespace ScriptTree

open NumeralGrammar

variable {c : Cursor} {ch : Char} {rest text : List Char}

-- ============================================================== digits

/-- Two descriptions of a class of characters that have a code of seven
bits. -/
theorem ascii_iff {p : Char → Bool} {chars : String}
    (hlow : ∀ ch, p ch = true → ch.toNat < 128)
    (hchars : chars.toList.all p = true)
    (hall : ∀ code : Fin 128, p (.ofNat code) = true →
      Char.ofNat code ∈ chars.toList) :
    p ch = true ↔ ch ∈ chars.toList := by
  refine ⟨fun h => ?_, List.all_eq_true.1 hchars ch⟩
  have hin := hall ⟨ch.toNat, hlow ch h⟩
  rw [Char.ofNat_toNat] at hin
  exact hin h

theorem isDecimalDigit_iff :
    isDecimalDigit ch = true ↔ ch ∈ "0123456789".toList :=
  ascii_iff isDigitOf_low (by decide) (by decide)

-- ================================================= decimal numerals

theorem IsExponentMark.nameStart [NameProperties] (h : IsExponentMark ch) :
    isNameStart ch = true := by
  rcases h.cases with rfl | rfl
  · exact isNameStart_of_isAlpha (by decide)
  · exact isNameStart_of_isAlpha (by decide)

theorem takes_digits {follow : Char → Prop}
    (hfollow : ∀ ch, follow ch → isDecimalDigit ch = false)
    (hne : text.takeWhile isDecimalDigit ≠ []) :
    Takes (oneOrMore digit) follow (text.takeWhile isDecimalDigit)
      (text.dropWhile isDecimalDigit) :=
  takes_oneOrMore (fun _ => isDecimalDigit_iff) hfollow hne

/-- Where there is no digit there are no digits. -/
theorem takesNone_digits (h : ∀ ch ∈ text.head?, ¬isDecimalDigit ch = true) :
    TakesNone (oneOrMore digit) text :=
  takesNone_oneOf_mul fun ch hhead hin =>
    h ch hhead (isDecimalDigit_iff.2 hin)

theorem startsIn_digits :
    StartsIn (oneOrMore digit) (isDecimalDigit · = true) :=
  fun other hother ch hhead =>
    isDecimalDigit_iff.2 (startsIn_oneOf_mul other hother ch hhead)

theorem mem_point (h : ch ∈ ".".toList) : ch = '.' := by
  rwa [show ".".toList = ['.'] from rfl, List.mem_singleton] at h

/-- A fraction is taken as the scan reads it. -/
theorem fraction_takes (c : Cursor) :
    ∃ text, c.Reads text 0 (fraction c).2 ∧
      Takes (possibly NumeralGrammar.fraction) IsExponentMark text
        (fraction c).2.rest ∧
      (∀ ch ∈ (fraction c).1, isDecimalDigit ch = true) ∧
      (text = '.' :: (fraction c).1 ∨
        text = [] ∧ (fraction c).1 = [] ∧ c.peek ≠ some '.') := by
  unfold fraction
  by_cases hpoint : c.peek = some '.'
  · obtain ⟨rest, hrest⟩ := Cursor.peek_eq_some.1 hpoint
    have hdigits : Takes digit.star IsExponentMark
        (c.advance.rest.takeWhile isDecimalDigit)
        (c.advance.rest.dropWhile isDecimalDigit) :=
      takes_star (fun _ => isDecimalDigit_iff)
        (fun _ hch => hch.not_digit) _
    have hall : Takes (oneOf "." * digit.star) IsExponentMark ('.' :: _) _ :=
      hdigits.oneOf_mul (by decide)
    rw [← Cursor.skipWhile_rest] at hall
    rw [if_pos hpoint]
    refine ⟨_, (Cursor.reads_advance hrest).trans
      (Cursor.reads_skipWhile isDecimalDigit c.advance),
      hall.possible (List.cons_ne_nil _ _) ?_, ?_, .inl rfl⟩
    · intro other hother ch hhead hmark
      rw [mem_point (startsIn_oneOf_mul other hother ch hhead)] at hmark
      exact absurd hmark.cases (by decide)
    · exact fun ch hin => List.mem_takeWhile_imp hin
  · rw [if_neg hpoint]
    refine ⟨[], .refl c, (takes_one _ _).add_right ?_, by simp,
      .inr ⟨rfl, rfl, hpoint⟩⟩
    apply takesNone_oneOf_mul
    intro ch hhead hin
    exact hpoint (mem_point hin ▸ hhead)

/-- Digits, and a fraction where there is one. -/
theorem takes_whole_fraction {places : List Char}
    (hfirst : text.takeWhile isDecimalDigit ≠ [])
    (hrest : text.dropWhile isDecimalDigit = places ++ rest)
    (htakes : Takes (possibly NumeralGrammar.fraction) IsExponentMark
      places rest) :
    Takes mantissa IsExponentMark
      (text.takeWhile isDecimalDigit ++ places) rest := by
  have htaken : Takes (oneOrMore digit) (isDecimalDigit · = false)
      (text.takeWhile isDecimalDigit) (text.dropWhile isDecimalDigit) :=
    takes_digits (fun _ h => h) hfirst
  rw [hrest] at htaken
  refine (htaken.append htakes ?_ fun _ h => h.not_digit).add_right ?_
  · apply StartsIn.possible
    intro other hother ch hhead
    rw [mem_point (startsIn_oneOf_mul other hother ch hhead)]
    rfl
  · apply takesNone_oneOf_mul
    intro ch hhead hpoint
    obtain ⟨first, later, hcons⟩ := List.exists_cons_of_ne_nil hfirst
    have hdigit : isDecimalDigit first = true :=
      List.mem_takeWhile_imp (hcons ▸ List.mem_cons_self)
    rw [hcons] at hhead
    cases hhead
    rw [mem_point hpoint] at hdigit
    cases hdigit

/-- A point and the digits after it. -/
theorem takes_point_digits (hrest : c.rest = '.' :: ch :: rest)
    (hdigit : isDecimalDigit ch = true) :
    Takes mantissa IsExponentMark ('.' :: (fraction c).1)
      (fraction c).2.rest ∧ (fraction c).1 ≠ [] := by
  have hnext := Cursor.advance_rest hrest
  have hne : c.advance.rest.takeWhile isDecimalDigit ≠ [] := by
    rw [hnext, List.takeWhile_cons_of_pos hdigit]
    exact List.cons_ne_nil _ _
  have hdigits : Takes (oneOrMore digit) IsExponentMark
      (c.advance.rest.takeWhile isDecimalDigit)
      (c.advance.rest.dropWhile isDecimalDigit) :=
    takes_digits (fun _ h => h.not_digit) hne
  have hall : Takes (oneOf "." * oneOrMore digit) IsExponentMark
      ('.' :: _) _ := hdigits.oneOf_mul (by decide)
  rw [← Cursor.skipWhile_rest] at hall
  unfold fraction
  rw [if_pos (Cursor.peek_cons hrest)]
  refine ⟨hall.add_left ?_, hne⟩
  apply TakesNone.mul
  apply takesNone_digits
  intro ch' hhead
  cases hhead
  decide

/-- Digits with a point or without one are taken as the scan reads
them. -/
theorem mantissa_takes (hstart : c.startsNumeral = true) :
    ∃ front, c.Reads front 0 (fraction (c.skipWhile isDecimalDigit)).2 ∧
      Takes mantissa IsExponentMark front
        (fraction (c.skipWhile isDecimalDigit)).2.rest ∧
      MantissaText (c.rest.takeWhile isDecimalDigit)
        (fraction (c.skipWhile isDecimalDigit)).1 front := by
  have hwhole := Cursor.reads_skipWhile isDecimalDigit c
  have hdigits : ∀ ch ∈ c.rest.takeWhile isDecimalDigit,
      isDecimalDigit ch = true := fun ch hin => List.mem_takeWhile_imp hin
  obtain ⟨text, hreads, htakes, hplaces, htext⟩ :=
    fraction_takes (c.skipWhile isDecimalDigit)
  refine ⟨_, hwhole.trans hreads, ?_⟩
  rcases startsNumeral_cases hstart with
    ⟨ch, rest, hc, hch⟩ | ⟨ch, rest, hc, hch⟩
  · have hfirst : c.rest.takeWhile isDecimalDigit ≠ [] := by
      rw [hc, List.takeWhile_cons_of_pos hch]
      exact List.cons_ne_nil _ _
    have hrest := hreads.rest
    rw [Cursor.skipWhile_rest] at hrest
    refine ⟨takes_whole_fraction hfirst hrest htakes, ?_⟩
    rcases htext with rfl | ⟨rfl, hnone, -⟩
    · exact .point (List.forall_mem_append.2 ⟨hdigits, hplaces⟩)
        (List.append_ne_nil_of_left_ne_nil hfirst _)
    · rw [hnone, List.append_nil]
      exact .plain hdigits hfirst
  · have hnone : c.rest.takeWhile isDecimalDigit = [] := by
      rw [hc]
      exact List.takeWhile_cons_of_neg (by decide)
    have hstay : c.skipWhile isDecimalDigit = c := by
      rw [Cursor.skipWhile_cons hc, if_neg (by decide)]
    rw [hstay] at hplaces htext ⊢
    rw [hnone]
    obtain ⟨hpoint, hne⟩ := takes_point_digits hc hch
    rcases htext with rfl | ⟨-, -, hother⟩
    · exact ⟨hpoint, .point hplaces hne⟩
    · exact absurd (Cursor.peek_cons hc) hother

-- =========================================================== exponents

/-- A sign is taken where there is one. -/
theorem sign_takes (c : Cursor) :
    ∃ sign, c.Reads sign 0 (afterSign c) ∧
      Takes (possibly (oneOf "+-")) (isDecimalDigit · = true) sign
        (afterSign c).rest ∧
      sign ∈ [[], ['+'], ['-']] ∧ (c.peek = some '-' ↔ sign = ['-']) := by
  unfold afterSign
  by_cases hsign : (c.peek = some '+' || c.peek = some '-') = true
  · rw [if_pos hsign]
    obtain ⟨ch, rest, hrest, hch⟩ := Cursor.peek_or.1 hsign
    have hmark : ch ∈ "+-".toList := by
      rcases hch with rfl | rfl
      · decide
      · decide
    refine ⟨[ch], Cursor.reads_advance hrest,
      (takes_oneOf hmark _ _).possible (List.cons_ne_nil _ _) ?_, ?_, ?_⟩
    · intro other hother ch hhead hdigit
      have hplain : ∀ ch ∈ "+-".toList, isDecimalDigit ch = false :=
        List.all_iff_forall_prop.1 (by decide)
      rw [hplain ch (startsIn_oneOf other hother ch hhead)] at hdigit
      cases hdigit
    · simpa using hch
    · simp [Cursor.peek_cons hrest]
  · rw [if_neg hsign]
    refine ⟨[], .refl c, (takes_one _ _).add_right ?_, by simp, ?_⟩
    · apply takesNone_oneOf
      intro ch hhead hin
      apply hsign
      have hpeek : c.peek = some ch := hhead
      rw [hpeek]
      simpa using hin
    · simp only [Bool.or_eq_true, decide_eq_true_eq, not_or] at hsign
      simp [hsign.2]

/-- What is there of an exponent after its letter is taken as the scan
reads it, or else no exponent is there. -/
theorem exponentDigits_takes (c : Cursor) :
    (∃ power stop text, exponentDigits c = .ok power stop ∧
      c.Reads text 0 stop ∧
      Takes (possibly (oneOf "+-") * oneOrMore digit) (fun _ => False)
        text stop.rest ∧
      ∀ mark, IsExponentMark mark →
        powerOf? (mark :: text) = some power) ∨
    ∃ stop, exponentDigits c
        = .error (stop.position.diagnose .illegalToken) stop ∧
      TakesNone (possibly (oneOf "+-") * oneOrMore digit) c.rest := by
  obtain ⟨sign, hreads, hsign, hsigns, hminus⟩ := sign_takes c
  by_cases hempty : (afterSign c).rest.takeWhile isDecimalDigit = []
  · right
    refine ⟨afterSign c, exponentDigits_eq_error.2 ⟨hempty, rfl, rfl⟩, ?_⟩
    have hnone : TakesNone (oneOrMore digit) (afterSign c).rest := by
      apply takesNone_digits
      intro ch hhead hdigit
      obtain ⟨rest, hrest⟩ := Cursor.peek_eq_some.1 hhead
      rw [hrest, List.takeWhile_cons_of_pos hdigit] at hempty
      cases hempty
    have hall := hsign.mul_none hnone startsIn_digits
    rwa [← hreads.rest] at hall
  · left
    have hread := Cursor.reads_skipWhile isDecimalDigit (afterSign c)
    have hdigits : Takes (oneOrMore digit) (fun _ => False)
        ((afterSign c).rest.takeWhile isDecimalDigit)
        ((afterSign c).skipWhile isDecimalDigit).rest := by
      rw [Cursor.skipWhile_rest]
      exact takes_digits (fun _ => False.elim) hempty
    have hrest := hread.rest
    rw [hrest] at hsign
    refine ⟨_, _, _, exponentDigits_eq_ok.2 ⟨hempty, rfl, rfl⟩,
      hreads.trans hread,
      hsign.append hdigits startsIn_digits fun _ h => h.elim, ?_⟩
    intro mark hmark
    rw [powerOf?_eq hmark hsigns hempty
      fun ch hin => List.mem_takeWhile_imp hin]
    simp only [hminus]

/-- An exponent is taken as the scan reads it, or else the scan fails after
a letter that starts none. -/
theorem exponent_takes (c : Cursor) :
    (∃ power stop text, exponent c = .ok power stop ∧
      c.Reads text 0 stop ∧
      Takes (possibly NumeralGrammar.exponent) (fun _ => False) text
        stop.rest ∧
      PowerText power text) ∨
    ∃ mark stop, exponent c
        = .error (stop.position.diagnose .illegalToken) stop ∧
      mark ∈ c.rest.head? ∧ IsExponentMark mark ∧
      Takes (possibly NumeralGrammar.exponent) (fun _ => False) []
        c.rest := by
  rw [exponent_eq]
  by_cases hletter : (c.peek = some 'e' || c.peek = some 'E') = true
  · rw [if_pos hletter]
    obtain ⟨mark, rest, hrest, hcase⟩ := Cursor.peek_or.1 hletter
    have hpeek := Cursor.peek_cons hrest
    have hmark : mark ∈ "eE".toList := by
      rcases hcase with rfl | rfl
      · decide
      · decide
    have hnext := Cursor.advance_rest hrest
    rcases exponentDigits_takes c.advance with
      ⟨power, stop, text, hok, hreads, htakes, hpower⟩ |
      ⟨stop, herror, hnone⟩
    · left
      refine ⟨power, stop, mark :: text, hok,
        (Cursor.reads_advance hrest).trans hreads,
        (htakes.oneOf_mul hmark).possible (List.cons_ne_nil _ _)
          (fun _ _ _ _ => id),
        hpower mark hmark, ?_⟩
      intro ch hhead
      cases hhead
      exact hmark
    · right
      rw [hnext] at hnone
      refine ⟨mark, stop, herror, hpeek, hmark,
        (takes_one _ _).add_right ?_⟩
      rw [hrest]
      exact hnone.oneOf_mul hmark
  · rw [if_neg hletter]
    left
    refine ⟨0, c, [], rfl, .refl c, (takes_one _ _).add_right ?_,
      rfl, by simp⟩
    apply takesNone_oneOf_mul
    intro ch hhead hin
    apply hletter
    have hpeek : c.peek = some ch := hhead
    rw [hpeek]
    simpa using hin

-- ============================================================ numerals

/-- A scan reads the front of the text as a numeral, unless that is
spoiled. The number of a decimal text is what the text denotes. -/
structure Scan.ReadsNumeral (p : Scan Token) (c : Cursor)
    (front : List Char) (spoiled : Prop) : Prop where
  fails : spoiled → ∃ stop,
    p c = .error (stop.position.diagnose .illegalToken) stop
  gives : ¬spoiled → ∃ x stop,
    p c = .ok ⟨.numeric, .number x, .ofList front,
      ⟨c.position, stop.position⟩⟩ stop ∧
    c.Reads front 0 stop ∧
    (front ∈ decimal.matches' → Binary64.ofDecimalText? front = some x)

/-- A decimal numeral is the longest one in front, and is spoiled by the
start of a name. -/
theorem decimalNumeral_grammar [NameProperties]
    (hstart : c.startsNumeral = true) :
    ∃ front after, c.rest = front ++ after ∧
      Takes decimal (fun _ => False) front after ∧
      decimalNumeral.ReadsNumeral c front
        (∃ ch ∈ after.head?, isNameStart ch = true) := by
  obtain ⟨front, hreads, htakes, hfront⟩ := mantissa_takes hstart
  let stem := fraction (c.skipWhile isDecimalDigit)
  have hstarts : StartsIn (possibly NumeralGrammar.exponent)
      IsExponentMark := startsIn_oneOf_mul.possible
  rcases exponent_takes stem.2 with
    ⟨power, stop, text, hok, hread, hpower, htext⟩ |
    ⟨mark, stop, herror, hhead, hmark, hnone⟩
  · -- The exponent, if there is one, is read as well; then no name may
    -- start.
    have hall := hreads.trans hread
    rw [hread.rest] at htakes
    refine ⟨front ++ text, stop.rest, hall.rest,
      htakes.append hpower hstarts fun _ => False.elim, ?_, ?_⟩
    · rintro ⟨ch, hhead, hname⟩
      have hspoiled : stop.peek.any isNameStart = true := by
        rw [Cursor.peek, Option.mem_def.1 hhead]
        exact hname
      exact ⟨stop, (decimalNumeral_eq_error hstart).2
        (.inr ⟨power, hok, hspoiled, rfl⟩)⟩
    · intro hplain
      have hclear : stop.peek.any isNameStart = false := by
        rw [Bool.eq_false_iff]
        intro hname
        obtain ⟨ch, hhead, hname⟩ := (Option.any_eq_true _ _).1 hname
        exact hplain ⟨ch, hhead, hname⟩
      refine ⟨_, stop, ?_, hall, fun _ => ofDecimalText?_eq hfront htext⟩
      rw [(decimalNumeral_eq_ok hstart).2 ⟨power, hok, hclear, rfl⟩,
        hall.tokenTo_eq]
      rfl
  · -- The mark of an exponent with no digits: the numeral ends before it,
    -- and the mark starts a name.
    refine ⟨front ++ [], stem.2.rest, ?_,
      htakes.append hnone hstarts fun _ => False.elim, ?_, ?_⟩
    · rw [List.append_nil]
      exact hreads.rest
    · intro _
      exact ⟨stop, (decimalNumeral_eq_error hstart).2 (.inl herror)⟩
    · intro hplain
      exact absurd ⟨mark, hhead, hmark.nameStart⟩ hplain

end ScriptTree
