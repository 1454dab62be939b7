/-
Filling in values one after the other, against filling them in at once.

# Marked texts

A text in which some occurrences of a place are marked as such is a list
of characters and marks. To fill in the place is to put the value at the
marks, and at the occurrences without a mark as well: what is replaced are
the marks of the text with all occurrences marked (`replaceAll_unmark`).

# Strays

An occurrence that is not marked is a stray. It came in with a value that
was put in before, and the next value replaces it like the others. So the
text stays what it should be if there are no strays, or if the value looks
like the place itself and nothing is changed by it (`unmark_markAll`).
-/
import ScriptTree.Diagnostic.Filling
import ScriptTree.Proofs.Numeral

namespace ScriptTree

namespace Message

variable {digit : Char} {value text : List Char}
  {marked : List (Option Char)}

-- ====================================================== marked texts

/-- A text with something at the marks. -/
def unmark (value : List Char) : List (Option Char) → List Char
  | [] => []
  | none :: marked => value ++ unmark value marked
  | some ch :: marked => ch :: unmark value marked

/-- All occurrences of the place with the digit are marked. -/
def markAll (digit : Char) : List (Option Char) → List (Option Char)
  | some '%' :: some ch :: marked =>
    if ch = digit then none :: markAll digit marked
    else some '%' :: markAll digit (some ch :: marked)
  | first :: marked => first :: markAll digit marked
  | [] => []

theorem unmark_append (value : List Char)
    (marked marked' : List (Option Char)) :
    unmark value (marked ++ marked')
      = unmark value marked ++ unmark value marked' := by
  induction marked with
  | nil => rfl
  | cons first marked ih =>
      cases first with
      | none =>
          rw [List.cons_append, unmark, unmark, ih, List.append_assoc]
      | some ch =>
          rw [List.cons_append, unmark, unmark, ih, List.cons_append]

/-- With the place itself at the marks, it makes no difference which
occurrences are marked. -/
theorem unmark_markAll_place (digit : Char)
    (marked : List (Option Char)) :
    unmark ['%', digit] (markAll digit marked)
      = unmark ['%', digit] marked := by
  fun_induction markAll digit marked with
  | case1 marked ih =>
      simp only [unmark, ih, List.cons_append, List.nil_append]
  | case2 ch marked h ih => simp only [unmark, ih]
  | case3 first marked h ih => cases first <;> simp only [unmark, ih]
  | case4 => rfl

/-- What is not marked by marking all is no occurrence. -/
theorem not_place_of_unmarked (hdigit : digit ≠ '%') (ch : Char)
    (marked : List (Option Char))
    (h : ∀ next marked', some ch = some '%' →
      marked = some next :: marked' → next = digit → False) :
    ['%', digit].isPrefixOf (ch :: unmark ['%', digit] marked) = false := by
  by_cases hch : ch = '%'
  case neg => simp [List.isPrefixOf, Ne.symm hch]
  subst hch
  cases marked with
  | nil => rfl
  | cons first marked =>
      cases first with
      | none => simp [unmark, List.isPrefixOf, hdigit]
      | some next =>
          have hnext : digit ≠ next := fun hsame =>
            h next marked rfl rfl hsame.symm
          simp [unmark, List.isPrefixOf, hnext]

theorem replaceAll_place (value rest : List Char) :
    replaceAll ['%', digit] value 0 ('%' :: digit :: rest)
      = value ++ replaceAll ['%', digit] value 0 rest := by
  rw [replaceAll, if_pos (by simp [List.isPrefixOf])]
  rfl

theorem replaceAll_other {ch : Char} {rest : List Char}
    (h : ['%', digit].isPrefixOf (ch :: rest) = false) :
    replaceAll ['%', digit] value 0 (ch :: rest)
      = ch :: replaceAll ['%', digit] value 0 rest := by
  rw [replaceAll, h]
  rfl

/-- What a place is replaced at. -/
theorem replaceAll_unmark (hdigit : digit ≠ '%') (value : List Char)
    (marked : List (Option Char)) :
    replaceAll ['%', digit] value 0 (unmark ['%', digit] marked)
      = unmark value (markAll digit marked) := by
  fun_induction markAll digit marked with
  | case1 marked ih =>
      simp only [unmark, replaceAll_place, ih]
  | case2 ch marked h ih =>
      have hother := not_place_of_unmarked hdigit '%'
        (some ch :: marked) (by
          rintro next marked' - ⟨⟩
          exact h)
      rw [unmark, replaceAll_other hother, ih, unmark]
  | case3 first marked h ih =>
      cases first with
      | none =>
          simp only [unmark, List.cons_append, List.nil_append,
            replaceAll_place, ih]
      | some ch =>
          have hother := not_place_of_unmarked hdigit ch marked
            fun next marked' hch hmarked _ => h next marked' hch hmarked
          rw [unmark, replaceAll_other hother, ih, unmark]
  | case4 => rfl

-- ============================================================ strays

theorem count_le_markAll (digit : Char) (marked : List (Option Char)) :
    marked.count none ≤ (markAll digit marked).count none := by
  fun_induction markAll digit marked with
  | case1 marked ih =>
      simp
      omega
  | case2 ch marked h ih =>
      simp only [List.count_cons] at ih ⊢
      omega
  | case3 first marked h ih =>
      simp only [List.count_cons]
      omega
  | case4 => exact Nat.le_refl _

/-- Where all occurrences are marked, marking them all changes nothing. -/
theorem markAll_eq_self_iff (digit : Char)
    (marked : List (Option Char)) :
    markAll digit marked = marked ↔
      (markAll digit marked).count none = marked.count none := by
  refine ⟨fun h => by rw [h], fun h => ?_⟩
  fun_induction markAll digit marked with
  | case1 marked ih =>
      have hle := count_le_markAll digit marked
      simp at h
      omega
  | case2 ch marked h' ih =>
      rw [ih (by simpa [List.count_cons] using h)]
  | case3 first marked h' ih =>
      rw [ih (by simpa [List.count_cons] using h)]
  | case4 => rfl

/-- A place takes two characters, which the value takes the place of. -/
theorem length_unmark (value : List Char) (digit : Char)
    (marked : List (Option Char)) :
    (unmark value marked).length + 2 * marked.count none
      = (unmark ['%', digit] marked).length
        + value.length * marked.count none := by
  induction marked with
  | nil => rfl
  | cons first marked ih =>
      cases first with
      | none =>
          simp [unmark, Nat.mul_add]
          omega
      | some ch =>
          simp [unmark]
          omega

/-- Where strays make no difference, though there are some, the value is
as long as the place. -/
theorem length_of_unmark_markAll
    (h : unmark value (markAll digit marked) = unmark value marked)
    (hstray : markAll digit marked ≠ marked) : value.length = 2 := by
  have hlt : marked.count none < (markAll digit marked).count none :=
    Nat.lt_of_le_of_ne (count_le_markAll digit marked)
      (Ne.symm (mt (markAll_eq_self_iff digit marked).2 hstray))
  obtain ⟨more, hmore⟩ := Nat.exists_eq_add_of_lt hlt
  have hbefore := length_unmark value digit marked
  have hafter := length_unmark value digit (markAll digit marked)
  rw [h, unmark_markAll_place, hmore, Nat.add_assoc,
    Nat.mul_add value.length] at hafter
  have hfactor : value.length * (more + 1) = 2 * (more + 1) := by omega
  exact Nat.eq_of_mul_eq_mul_right (Nat.succ_pos more) hfactor

/-- If strays make no difference there are none, or the value looks like
the place. -/
theorem unmark_markAll :
    unmark value (markAll digit marked) = unmark value marked ↔
      markAll digit marked = marked ∨ value = ['%', digit] := by
  constructor
  · intro h
    by_cases hstray : markAll digit marked = marked
    · exact .inl hstray
    right
    have hlength := length_of_unmark_markAll h hstray
    -- The first stray shows the value.
    fun_induction markAll digit marked with
    | case1 marked ih =>
        have hfront : value ++ unmark value (markAll digit marked)
            = ['%', digit] ++ unmark value marked := h
        exact (List.append_inj hfront hlength).1
    | case2 ch marked h' ih =>
        exact ih (List.cons.inj h).2 fun hsame => hstray (by rw [hsame])
    | case3 first marked h' ih =>
        apply ih _ fun hsame => hstray (by rw [hsame])
        cases first with
        | none => exact List.append_cancel_left h
        | some ch => exact (List.cons.inj h).2
    | case4 => exact absurd rfl hstray
  · rintro (h | rfl)
    · rw [h]
    · exact unmark_markAll_place digit marked

-- ============================================================ places

variable {number : Nat}

/-- The places that one digit is enough for. -/
theorem place_eq (h : number < 10) :
    ∃ digit, place number = ['%', digit] ∧ digit ≠ '%' ∧
      ∀ ch, ch = digit ↔
        isDecimalDigit ch = true ∧ digitValue ch = number := by
  have hdigits : ∀ number : Fin 10,
      place number = ['%', Nat.digitChar number] ∧
      Nat.digitChar number ≠ '%' ∧
      isDecimalDigit (Nat.digitChar number) = true ∧
      digitValue (Nat.digitChar number) = number := by
    decide
  have hchars : "0123456789".toList.all
      (fun ch => Nat.digitChar (digitValue ch) = ch) = true := by
    decide
  obtain ⟨hplace, hne, hdigit, hvalue⟩ := hdigits ⟨number, h⟩
  refine ⟨_, hplace, hne, fun ch => ⟨?_, ?_⟩⟩
  · rintro rfl
    exact ⟨hdigit, hvalue⟩
  · rintro ⟨hch, rfl⟩
    exact (of_decide_eq_true
      (List.all_eq_true.1 hchars ch (isDecimalDigit_iff.1 hch))).symm

section Places

variable {values : List String} {rest : List Char}
  (hplace : place number = ['%', digit])
  (hdigit : digit ≠ '%')

include hplace in
theorem placesOf_place :
    placesOf number ('%' :: digit :: rest)
      = placesOf number (digit :: rest) + 1 := by
  rw [placesOf, hplace, if_pos (by simp [List.isPrefixOf])]

include hplace in
theorem placesOf_other {ch : Char}
    (h : ['%', digit].isPrefixOf (ch :: rest) = false) :
    placesOf number (ch :: rest) = placesOf number rest := by
  rw [placesOf, hplace, h]
  rfl

include hplace in
theorem placesOf_ne {ch : Char} (h : ch ≠ '%') :
    placesOf number (ch :: rest) = placesOf number rest :=
  placesOf_other hplace (by simp [List.isPrefixOf, Ne.symm h])

include hplace hdigit in
/-- The occurrences of a place are what is marked by marking all. -/
theorem placesOf_unmark (marked : List (Option Char)) :
    placesOf number (unmark ['%', digit] marked)
      = (markAll digit marked).count none := by
  fun_induction markAll digit marked with
  | case1 marked ih =>
      rw [unmark, unmark, placesOf_place hplace,
        placesOf_ne hplace hdigit, ih, List.count_cons_self]
  | case2 ch marked h ih =>
      have hother := not_place_of_unmarked hdigit '%'
        (some ch :: marked) (by
          rintro next marked' - ⟨⟩
          exact h)
      rw [unmark, placesOf_other hplace hother, ih]
      simp
  | case3 first marked h ih =>
      cases first with
      | none =>
          rw [unmark, List.cons_append, List.cons_append, List.nil_append,
            placesOf_place hplace, placesOf_ne hplace hdigit, ih,
            List.count_cons_self]
      | some ch =>
          have hother := not_place_of_unmarked hdigit ch marked
            fun next marked' hch hmarked _ => h next marked' hch hmarked
          rw [unmark, placesOf_other hplace hother, ih]
          simp
  | case4 => rfl

end Places

-- ============================================================ filling

/-- A text with some values put in at once, and the place with the digit
marked. -/
def fillMarked (values : List String) (digit : Char) :
    List Char → List (Option Char)
  | '%' :: next :: rest =>
    match valueAt? values next with
    | some value => value.toList.map some ++ fillMarked values digit rest
    | none =>
      if next = digit then none :: fillMarked values digit rest
      else some '%' :: fillMarked values digit (next :: rest)
  | ch :: rest => some ch :: fillMarked values digit rest
  | [] => []

theorem unmark_map_some (value text : List Char) :
    unmark value (text.map some) = text := by
  induction text with
  | nil => rfl
  | cons ch text ih => rw [List.map_cons, unmark, ih]

section Filling

variable {values : List String} {value : String}
  (hdigit : ∀ ch, ch = digit ↔
    isDecimalDigit ch = true ∧ digitValue ch = values.length)

include hdigit in
/-- The next digit belongs to no value yet. -/
theorem valueAt?_digit : valueAt? values digit = none := by
  obtain ⟨hdecimal, hvalue⟩ := (hdigit digit).1 rfl
  unfold valueAt?
  rw [if_pos hdecimal, hvalue]
  exact List.getElem?_eq_none (Nat.le_refl _)

include hdigit in
theorem valueAt?_append (value : String) (ch : Char) :
    valueAt? (values ++ [value]) ch
      = if ch = digit then some value else valueAt? values ch := by
  unfold valueAt?
  by_cases hdecimal : isDecimalDigit ch = true
  · rw [if_pos hdecimal, if_pos hdecimal]
    by_cases hch : ch = digit
    · rw [if_pos hch, ((hdigit ch).1 hch).2, List.getElem?_append_right
        (Nat.le_refl _)]
      simp
    · have hne : digitValue ch ≠ values.length :=
        fun h => hch ((hdigit ch).2 ⟨hdecimal, h⟩)
      rw [if_neg hch, List.getElem?_append]
      split
      case isTrue => rfl
      case isFalse hle =>
        rw [List.getElem?_eq_none (by simp; omega),
          List.getElem?_eq_none (by omega)]
  · have hch : ch ≠ digit := fun h => hdecimal ((hdigit ch).1 h).1
    rw [if_neg hdecimal, if_neg hdecimal, if_neg hch]

theorem fillAtOnce_of_ne {ch : Char} (h : ch ≠ '%')
    (values : List String) (rest : List Char) :
    fillAtOnce values (ch :: rest) = ch :: fillAtOnce values rest := by
  rw [fillAtOnce]
  exact fun _ _ hch => absurd hch h

include hdigit in
theorem digit_ne_percent : digit ≠ '%' := by
  rintro rfl
  exact absurd ((hdigit '%').1 rfl).1 (by decide)

include hdigit in
/-- With the place at the marks, its value has not been put in. -/
theorem unmark_fillMarked_place (text : List Char) :
    unmark ['%', digit] (fillMarked values digit text)
      = fillAtOnce values text := by
  fun_induction fillMarked values digit text with
  | case1 next rest value h ih =>
      rw [fillAtOnce, h, unmark_append, unmark_map_some, ih]
  | case2 rest h ih =>
      have hrest :=
        fillAtOnce_of_ne (digit_ne_percent hdigit) values rest
      rw [fillAtOnce, h, unmark, ih]
      exact congrArg ('%' :: ·) hrest.symm
  | case3 next rest h hnext ih =>
      rw [fillAtOnce, h, unmark, ih]
  | case4 ch rest h ih =>
      rw [unmark, ih, fillAtOnce]
      exact h
  | case5 => rfl

include hdigit in
/-- With the next value at the marks, it has been put in as well. -/
theorem unmark_fillMarked (value : String) (text : List Char) :
    unmark value.toList (fillMarked values digit text)
      = fillAtOnce (values ++ [value]) text := by
  fun_induction fillMarked values digit text with
  | case1 next rest earlier h ih =>
      have hnext : next ≠ digit := by
        rintro rfl
        rw [valueAt?_digit hdigit] at h
        cases h
      rw [fillAtOnce, valueAt?_append hdigit, if_neg hnext, h,
        unmark_append, unmark_map_some, ih]
  | case2 rest h ih =>
      rw [fillAtOnce, valueAt?_append hdigit, if_pos rfl, unmark, ih]
  | case3 next rest h hnext ih =>
      rw [fillAtOnce, valueAt?_append hdigit, if_neg hnext, h, unmark, ih]
  | case4 ch rest h ih =>
      rw [unmark, ih, fillAtOnce]
      exact h
  | case5 => rfl

include hdigit in
/-- As many marks as the text itself has places. -/
theorem count_fillMarked (hplace : place values.length = ['%', digit])
    (text : List Char) :
    (fillMarked values digit text).count none
      = placesOf values.length text := by
  have hpercent := digit_ne_percent hdigit
  fun_induction fillMarked values digit text with
  | case1 next rest value h ih =>
      have hother : digit ≠ next := by
        rintro rfl
        rw [valueAt?_digit hdigit] at h
        cases h
      have hnext : next ≠ '%' := by
        rintro rfl
        cases h
      rw [placesOf_other hplace (by simp [List.isPrefixOf, hother]),
        placesOf_ne hplace hnext, ← ih, List.count_append,
        List.count_eq_zero.2 (by simp), Nat.zero_add]
  | case2 rest h ih =>
      rw [placesOf_place hplace, placesOf_ne hplace hpercent, ← ih,
        List.count_cons_self]
  | case3 next rest h hnext ih =>
      rw [placesOf_other hplace
        (by simp [List.isPrefixOf, Ne.symm hnext]), ← ih]
      simp
  | case4 ch rest h ih =>
      have hother : ['%', digit].isPrefixOf (ch :: rest) = false := by
        cases rest with
        | nil => simp [List.isPrefixOf]
        | cons next rest =>
            have hch : ch ≠ '%' := fun hch => h next rest hch rfl
            simp [List.isPrefixOf, Ne.symm hch]
      rw [placesOf_other hplace hother, ← ih]
      simp
  | case5 => rfl

end Filling

/-- Without values nothing is filled in. -/
theorem fillAtOnce_nil (text : List Char) : fillAtOnce [] text = text := by
  fun_induction fillAtOnce [] text with
  | case1 digit rest value h ih => simp [valueAt?] at h
  | case2 digit rest h ih => rw [ih]
  | case3 ch rest h ih => rw [ih]
  | case4 => rfl

/-- One more value after some that were put in at once: it goes where it
belongs if the places it finds are those of the template, or if it looks
like the place. -/
theorem replaceAll_fillAtOnce (values : List String)
    (h : values.length < 10) (value : String) (text : List Char) :
    replaceAll (place values.length) value.toList 0
        (fillAtOnce values text)
      = fillAtOnce (values ++ [value]) text ↔
    placesOf values.length (fillAtOnce values text)
      = placesOf values.length text ∨
    value.toList = place values.length := by
  obtain ⟨digit, hplace, hpercent, hdigit⟩ := place_eq h
  have hmarks :=
    markAll_eq_self_iff digit (fillMarked values digit text)
  rw [count_fillMarked hdigit hplace, ← placesOf_unmark hplace hpercent,
    unmark_fillMarked_place hdigit] at hmarks
  rw [← hmarks, hplace, ← unmark_fillMarked hdigit,
    ← unmark_fillMarked_place hdigit, replaceAll_unmark hpercent,
    unmark_markAll]

theorem fillFrom_append (values : List String) (value : String) :
    ∀ (number : Nat) (text : List Char),
    fillFrom number text (values ++ [value])
      = replaceAll (place (number + values.length)) value.toList 0
          (fillFrom number text values) := by
  induction values with
  | nil => exact fun _ _ => rfl
  | cons first values ih =>
      intro number text
      rw [List.cons_append, fillFrom, ih, fillFrom, List.length_cons,
        Nat.add_right_comm, Nat.add_assoc]

/-- How one more value changes whether the text is what it should be. -/
theorem fill_take_succ {template : String} {values : List String}
    {number : Nat} (h : number < values.length) (hten : number < 10)
    (hfill : fill template (values.take number)
      = .ofList (fillAtOnce (values.take number) template.toList)) :
    fill template (values.take (number + 1))
      = .ofList (fillAtOnce (values.take (number + 1)) template.toList) ↔
    placesOf number (fillAtOnce (values.take number) template.toList)
      = placesOf number template.toList ∨
    values[number].toList = place number := by
  have hlength : (values.take number).length = number :=
    List.length_take_of_le (Nat.le_of_lt h)
  have hstep := replaceAll_fillAtOnce (values.take number)
    (by omega) values[number] template.toList
  rw [hlength] at hstep
  rw [← hstep, fill, ← List.take_concat_get' _ _ h, fillFrom_append,
    hlength, Nat.zero_add, String.ofList_inj, String.ofList_inj.1 hfill]

-- ======================================================== the result

/-- Whatever the template, up to ten values are put in as they would be
at once, each time with one more of them, if and only if no value brings
along a place of a later one. A later value that looks like its place may
stand there anyway. -/
theorem filled_at_once_iff (template : String) (values : List String)
    (h : values.length ≤ 10) :
    (∀ number ≤ values.length,
      fill template (values.take number)
        = .ofList (fillAtOnce (values.take number) template.toList)) ↔
    ∀ number (_ : number < values.length),
      placesOf number (fillAtOnce (values.take number) template.toList)
        = placesOf number template.toList ∨
      values[number].toList = place number := by
  constructor
  · intro hfill number hnumber
    exact (fill_take_succ hnumber (by omega)
      (hfill number (Nat.le_of_lt hnumber))).1 (hfill (number + 1) hnumber)
  · intro hplaces number hnumber
    induction number with
    | zero => rw [List.take_zero, fillAtOnce_nil, fill, fillFrom]
    | succ number ih =>
        exact (fill_take_succ hnumber (by omega)
          (ih (Nat.le_of_lt hnumber))).2 (hplaces number hnumber)

/-- A label that reads like places comes last, and stays as it is. -/
theorem filled_at_once_iff_redeclaration :
    ["Label", "%0%1"].length ≤ 10 ∧
    fill redeclaration ["Label", "%0%1"]
      = .ofList (fillAtOnce ["Label", "%0%1"] redeclaration.toList) :=
  ⟨by decide, (filled_at_once_iff redeclaration ["Label", "%0%1"]
    (by decide)).2 (by decide) 2 (by decide)⟩

/-- A value that reads like the place of a later one is lost. -/
theorem value_read_as_place :
    fill "%0 and %1" ["%1", "b"] = "b and b" ∧
    String.ofList (fillAtOnce ["%1", "b"] "%0 and %1".toList)
      = "%1 and b" := by
  decide

/-- A single value brings along no place of a later one. -/
theorem fill_singleton (template value : String) :
    fill template [value]
      = .ofList (fillAtOnce [value] template.toList) := by
  have hzero := replaceAll_fillAtOnce [] (by decide) value
    template.toList
  rw [fillAtOnce_nil] at hzero
  exact congrArg String.ofList (hzero.2 (.inl rfl))

/-- Nor does the word in front of a label. -/
theorem fill_redeclaration (label : String) :
    fill redeclaration ["Label", label]
      = .ofList (fillAtOnce ["Label", label] redeclaration.toList) := by
  have hword := fill_singleton redeclaration "Label"
  have hlabel := replaceAll_fillAtOnce ["Label"] (by decide)
    label redeclaration.toList
  rw [← String.ofList_inj.1 hword] at hlabel
  exact congrArg String.ofList (hlabel.2 (.inl (by decide)))

end Message

end ScriptTree
