/-
Decimal texts that have a number.

A reader of whole texts finds the digits before a point, those after it
and the power again, as each of them stops at the first character of the
next (`ofDecimalText?_eq`).
-/
import ScriptTree.Number.DecimalText

namespace ScriptTree

variable {ch : Char} {text : List Char}

-- ============================================================= powers

/-- The letters of exponents. -/
def IsExponentMark (ch : Char) : Prop := ch ∈ "eE".toList

theorem IsExponentMark.cases (h : IsExponentMark ch) :
    ch = 'e' ∨ ch = 'E' := by
  simpa [IsExponentMark] using h

theorem IsExponentMark.not_digit (h : IsExponentMark ch) :
    isDecimalDigit ch = false := by
  rcases h.cases with rfl | rfl
  · rfl
  · rfl

theorem digitsValue?_eq (hne : text ≠ [])
    (hdigits : ∀ ch ∈ text, isDecimalDigit ch = true) :
    digitsValue? text = some (decimalValue text : Int) := by
  unfold digitsValue?
  rw [if_pos ⟨hne, List.all_eq_true.2 hdigits⟩]

/-- What a letter, a sign and digits stand for as a power. -/
theorem powerOf?_eq {mark : Char} {sign digits : List Char}
    (hmark : IsExponentMark mark) (hsign : sign ∈ [[], ['+'], ['-']])
    (hne : digits ≠ [])
    (hdigits : ∀ ch ∈ digits, isDecimalDigit ch = true) :
    powerOf? (mark :: (sign ++ digits))
      = some (if sign = ['-'] then -(decimalValue digits : Int)
          else decimalValue digits) := by
  have hvalue := digitsValue?_eq hne hdigits
  have hletter : (mark = 'e' || mark = 'E') = true := by
    simpa using hmark.cases
  unfold powerOf?
  simp only [if_pos hletter]
  simp only [List.mem_cons, List.not_mem_nil, or_false] at hsign
  rcases hsign with rfl | rfl | rfl
  · obtain ⟨first, later, rfl⟩ := List.exists_cons_of_ne_nil hne
    have hfirst := hdigits first List.mem_cons_self
    split
    case h_1 h =>
      cases h
      cases hfirst
    case h_2 h =>
      cases h
      cases hfirst
    case h_3 =>
      rw [List.nil_append, hvalue]
      rfl
  · simp [hvalue]
  · simp [hvalue]

/-- A text stands for a power, and starts as an exponent does. -/
structure PowerText (power : Int) (text : List Char) : Prop where
  value : powerOf? text = some power
  mark : ∀ ch ∈ text.head?, IsExponentMark ch

-- ============================================================ numerals

/-- How the digits before and after a point stand in a text. -/
inductive MantissaText (whole : List Char) :
    List Char → List Char → Prop where
  | point {places : List Char} :
      (∀ ch ∈ whole ++ places, isDecimalDigit ch = true) →
        whole ++ places ≠ [] →
        MantissaText whole places (whole ++ '.' :: places)
  | plain : (∀ ch ∈ whole, isDecimalDigit ch = true) → whole ≠ [] →
      MantissaText whole [] whole

/-- A decimal text is used to its end, and has a number. -/
theorem ofDecimalText?_eq {whole places front text : List Char}
    {power : Int} (hfront : MantissaText whole places front)
    (hpower : PowerText power text) :
    Binary64.ofDecimalText? (front ++ text)
      = some (.ofDecimal (decimalValue (whole ++ places))
          (power - places.length)) := by
  have hmark : ∀ ch ∈ text.head?, isDecimalDigit ch = false :=
    fun ch hhead => (hpower.mark ch hhead).not_digit
  -- Digits end where the power starts.
  have hrun {digits : List Char}
      (hdigits : ∀ ch ∈ digits, isDecimalDigit ch = true) :
      (digits ++ text).takeWhile isDecimalDigit = digits ∧
        (digits ++ text).dropWhile isDecimalDigit = text := by
    rw [List.takeWhile_append_of_pos hdigits,
      List.dropWhile_append_of_pos hdigits]
    cases text with
    | nil => simp
    | cons ch text => simp [hmark ch rfl]
  cases hfront with
  | @point places hdigits hne =>
      obtain ⟨hwhole, hplaces⟩ := List.forall_mem_append.1 hdigits
      have hpoint : ¬isDecimalDigit '.' = true := by decide
      obtain ⟨htake, hdrop⟩ := hrun hplaces
      have hsplit : splitPlaces ('.' :: (places ++ text))
          = (places, text) := by
        rw [splitPlaces, htake, hdrop]
      have hsome : ¬(whole = [] ∧ places = []) :=
        fun h => hne (List.append_eq_nil_iff.2 h)
      unfold Binary64.ofDecimalText?
      rw [List.append_assoc, List.cons_append,
        List.takeWhile_append_of_pos hwhole,
        List.takeWhile_cons_of_neg hpoint, List.append_nil,
        List.dropWhile_append_of_pos hwhole,
        List.dropWhile_cons_of_neg hpoint]
      simp only [hsplit, if_neg hsome, hpower.value, Option.map_some]
  | plain hdigits hne =>
      obtain ⟨htake, hdrop⟩ := hrun hdigits
      have hsplit : splitPlaces text = ([], text) := by
        unfold splitPlaces
        split
        case h_1 =>
          exact absurd (hpower.mark '.' rfl).cases (by decide)
        case h_2 => rfl
      unfold Binary64.ofDecimalText?
      rw [htake, hdrop]
      simp only [hsplit, hne, false_and, if_false, hpower.value,
        Option.map_some, List.append_nil]

end ScriptTree
