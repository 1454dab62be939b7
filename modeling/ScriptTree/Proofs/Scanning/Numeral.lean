/-
Numerals. The digits of a numeral end where they are clipped, and so does
what may come after them.
-/
import ScriptTree.Proofs.Scanning.Digits

namespace ScriptTree

variable {c c' d : Cursor}

theorem hexValue?_space : hexValue? ' ' = none := by decide

theorem isDigitOf_space (radix : Nat) : isDigitOf radix ' ' = false := by
  unfold isDigitOf
  rw [hexValue?_space, Option.any_none]

theorem isDecimalDigit_space : isDecimalDigit ' ' = false :=
  isDigitOf_space 10

/-- A number in a radix depends on its own text alone. -/
theorem radixNumeral_ok [NameProperties] {radix : Nat} {mark : Char}
    {rest : List Char} {t : Token} (hc : c.rest = '0' :: mark :: rest)
    (hradix : radixOf? mark = some radix)
    (h : radixNumeral radix c = .ok t d) :
    ∃ text value, t.kind = .numeric ∧ t.value = .number value ∧
      (radixNumeral radix).TokenAt c t d (['0', mark] ++ text) 0 := by
  have hreads {c : Cursor} {rest : List Char}
      (hc : c.rest = '0' :: mark :: rest) :
      c.Reads ['0', mark] 0 (c.skip 2) := Cursor.reads_skip hc rfl
  obtain ⟨hne, rfl, hplain, rfl⟩ := (radixNumeral_eq_ok hc hradix).1 h
  refine ⟨_, _, rfl, rfl, .of_tokenTo
    ((hreads hc).trans (Cursor.reads_skipWhile _ _)) ?_⟩
  intro c' rest' hrest hc'
  rw [List.append_assoc] at hc'
  have hmarks := hreads hc'
  have hnext := hmarks.rest_eq hc'
  obtain ⟨hsame, hdigits⟩ := Cursor.skipWhile_clips
    (isDigitOf_space radix) hrest hnext
  have hsame' : radixDigits radix c' = radixDigits radix c := hsame
  refine ⟨_, (radixNumeral_eq_ok hc' hradix).2 ⟨?_, rfl, ?_, ?_⟩,
    hmarks.trans hdigits⟩
  · rw [hsame']
    exact hne
  · rw [Bool.eq_false_iff] at hplain ⊢
    intro hspoiled
    have hstop : (afterRadixDigits radix c').rest = rest' :=
      hdigits.rest_eq hnext
    have hspace : (isNameStart ' ' || isDecimalDigit ' ') = false := by
      rw [isNameStart_space, isDecimalDigit_space, Bool.or_false]
    rw [Cursor.peek, hstop] at hspoiled
    exact hplain (hrest.head_any hspace hspoiled)
  · rw [hsame']

-- ================================================= decimal numerals

/-- The text of a fraction, if there is one. -/
theorem fraction_reads (c : Cursor) :
    ∃ text, c.Reads text 0 (fraction c).2 ∧
      (∀ rest, c.rest = '.' :: rest →
        text = '.' :: rest.takeWhile isDecimalDigit) ∧
      ∀ ⦃c' : Cursor⦄ ⦃rest⦄, Clips rest (fraction c).2.rest →
        c'.rest = text ++ rest →
        (fraction c').1 = (fraction c).1 ∧
          c'.Reads text 0 (fraction c').2 := by
  unfold fraction
  by_cases hpoint : c.peek = some '.'
  case neg =>
    simp only [if_neg hpoint]
    refine ⟨[], .refl c,
      fun rest h => absurd (Cursor.peek_cons h) hpoint,
      fun c' rest hrest hc => ?_⟩
    obtain rfl : c'.rest = rest := hc
    have hpoint' : ¬c'.peek = some '.' :=
      fun h => hpoint (Cursor.peek_of_clips hrest (by decide) h)
    simp only [if_neg hpoint']
    exact ⟨trivial, .refl c'⟩
  case pos =>
    obtain ⟨rest, hrest⟩ := Cursor.peek_eq_some.1 hpoint
    have hfirst := Cursor.reads_advance hrest
    have hdigits := Cursor.reads_skipWhile isDecimalDigit c.advance
    simp only [if_pos hpoint]
    refine ⟨_, hfirst.trans hdigits, fun rest' h => ?_,
      fun c' rest hrest hc => ?_⟩
    · rw [Cursor.advance_rest h]
      rfl
    obtain ⟨hsame, hdigits'⟩ := Cursor.skipWhile_clips
      isDecimalDigit_space hrest (Cursor.advance_rest hc)
    simp only [if_pos (Cursor.peek_cons hc)]
    exact ⟨hsame, (Cursor.reads_advance hc).trans hdigits'⟩

private theorem afterSign_reads (c : Cursor) :
    ∃ sign, c.Reads sign 0 (afterSign c) ∧
      ∀ ⦃c' : Cursor⦄ ⦃rest⦄, c'.rest = sign ++ rest →
        c'.peek = c.peek → c'.Reads sign 0 (afterSign c') := by
  unfold afterSign
  by_cases hsign : (c.peek = some '+' || c.peek = some '-') = true
  case neg =>
    rw [if_neg hsign]
    refine ⟨[], .refl c, fun c' rest _ hpeek => ?_⟩
    rw [hpeek, if_neg hsign]
    exact .refl c'
  case pos =>
    rw [if_pos hsign]
    obtain ⟨ch, rest, hrest, -⟩ := Cursor.peek_or.1 hsign
    refine ⟨[ch], Cursor.reads_advance hrest, fun c' rest hc hpeek => ?_⟩
    rw [hpeek, if_pos hsign]
    exact Cursor.reads_advance hc

private theorem exponentDigits_local :
    Scan.LocalAt (exponentDigits : Scan Int) c := by
  intro size d h
  obtain ⟨sign, hsign, hsign'⟩ := afterSign_reads c
  obtain ⟨hne, rfl, rfl⟩ := exponentDigits_eq_ok.1 h
  have hread := Cursor.reads_skipWhile isDecimalDigit (afterSign c)
  refine ⟨_, 0, hsign.trans hread, fun c' rest hrest hc => ?_⟩
  have hpeek := (hsign.trans hread).peek_eq
    (List.append_ne_nil_of_right_ne_nil _ hne) hc
  rw [List.append_assoc] at hc
  have hnext := hsign' hc hpeek
  obtain ⟨hsame, hread'⟩ := Cursor.skipWhile_clips
    isDecimalDigit_space hrest (hnext.rest_eq hc)
  refine ⟨_, exponentDigits_eq_ok.2 ⟨?_, rfl, ?_⟩, hnext.trans hread'⟩
  · rw [hsame]
    exact hne
  · rw [hsame, hpeek]

/-- An exponent depends on its own text alone. -/
theorem localAt_exponent : exponent.LocalAt c := by
  intro size d h
  rw [exponent_eq] at h
  split at h
  case isFalse hno =>
    cases h
    refine ⟨[], 0, .refl c, fun c' rest hrest hc => ⟨c', ?_, .refl c'⟩⟩
    obtain rfl : c'.rest = rest := hc
    rw [exponent_eq, if_neg]
    intro hletter
    apply hno
    simp only [Bool.or_eq_true, decide_eq_true_eq] at hletter ⊢
    exact hletter.imp (Cursor.peek_of_clips hrest (by decide))
      (Cursor.peek_of_clips hrest (by decide))
  case isTrue hyes =>
    obtain ⟨ch, rest, hrest, -⟩ := Cursor.peek_or.1 hyes
    rw [Cursor.peek_cons hrest] at hyes
    apply exponentDigits_local.char hrest _ _
    · intro c rest hc
      rw [exponent_eq, Cursor.peek_cons hc, if_pos hyes]
    · rw [exponent_eq, Cursor.peek_cons hrest, if_pos hyes]
      exact h

-- ======================================================= numerals

theorem startsNumeral_of_digit {ch : Char} {rest : List Char}
    (hc : c.rest = ch :: rest) (hch : isDecimalDigit ch = true) :
    c.startsNumeral = true := by
  have hpoint : ¬some ch = some '.' := by
    rintro ⟨⟩
    cases hch
  unfold Cursor.startsNumeral
  rw [Cursor.peek_cons hc, if_neg hpoint]
  exact hch

theorem startsNumeral_of_point {ch : Char} {rest : List Char}
    (hc : c.rest = '.' :: ch :: rest) (hch : isDecimalDigit ch = true) :
    c.startsNumeral = true := by
  unfold Cursor.startsNumeral
  rw [if_pos (Cursor.peek_cons hc), Cursor.peekNext, hc]
  exact hch

/-- A text that starts a numeral does so whatever follows. -/
def OpensNumeral (text : List Char) : Prop :=
  ∀ ⦃c : Cursor⦄ ⦃rest⦄, c.rest = text ++ rest → c.startsNumeral = true

/-- A decimal numeral has a digit in front, or a point and a digit. -/
theorem decimalNumeral_ok [NameProperties]
    {t : Token} (hstart : c.startsNumeral = true)
    (h : decimalNumeral c = .ok t d) :
    ∃ text lines value, OpensNumeral text ∧ t.kind = .numeric ∧
      t.value = .number value ∧
      decimalNumeral.TokenAt c t d text lines := by
  have hwhole := Cursor.reads_skipWhile isDecimalDigit c
  obtain ⟨places, hplaces, hpoint, hplaces'⟩ :=
    fraction_reads (c.skipWhile isDecimalDigit)
  obtain ⟨power, hpower, hplain, rfl⟩ := (decimalNumeral_eq_ok hstart).1 h
  obtain ⟨size, lines, hsize, hsize'⟩ := localAt_exponent hpower
  have hopens : OpensNumeral
      (c.rest.takeWhile isDecimalDigit ++ (places ++ size)) := by
    intro c' rest hc'
    rcases startsNumeral_cases hstart with
      ⟨ch, more, hc, hch⟩ | ⟨ch, more, hc, hch⟩
    · rw [hc, List.takeWhile_cons_of_pos hch] at hc'
      exact startsNumeral_of_digit hc' hch
    · have hnone : c.rest.takeWhile isDecimalDigit = [] := by
        rw [hc]
        exact List.takeWhile_cons_of_neg (by decide)
      have hfirst := hwhole.rest
      rw [hnone, hc] at hfirst
      rw [hnone, hpoint _ hfirst.symm,
        List.takeWhile_cons_of_pos hch] at hc'
      exact startsNumeral_of_point hc' hch
  refine ⟨_, _, _, hopens, rfl, rfl,
    .of_tokenTo (hwhole.trans (hplaces.trans hsize)) ?_⟩
  intro c' rest hrest hc
  have hstart' := hopens hc
  rw [List.append_assoc, List.append_assoc] at hc
  have hafter := hrest.append size
  rw [← hsize.rest] at hafter
  have hafter' := hafter.append places
  rw [← hplaces.rest] at hafter'
  obtain ⟨hsame, hwhole'⟩ :=
    Cursor.skipWhile_clips isDecimalDigit_space hafter' hc
  have hnext := hwhole'.rest_eq hc
  obtain ⟨hdigits, hfraction⟩ := hplaces' hafter hnext
  have hnext' := hfraction.rest_eq hnext
  obtain ⟨d', hd', hrd⟩ := hsize' hrest hnext'
  refine ⟨d', (decimalNumeral_eq_ok hstart').2 ⟨power, hd', ?_, ?_⟩,
    hwhole'.trans (hfraction.trans hrd)⟩
  · rw [Bool.eq_false_iff] at hplain ⊢
    intro hname
    rw [Cursor.peek, hrd.rest_eq hnext'] at hname
    exact hplain (hrest.head_any isNameStart_space hname)
  · unfold decimalNumber
    rw [hsame, hdigits]

/-- A numeral is read whole. -/
theorem numeralToken_ok [NameProperties]
    {t : Token} (hstart : c.startsNumeral = true)
    (h : numeralToken c = .ok t d) :
    ∃ text lines value, OpensNumeral text ∧ t.kind = .numeric ∧
      t.value = .number value ∧
      numeralToken.TokenAt c t d text lines := by
  rcases numeralToken_cases c with
    ⟨mark, rest, radix, hc, hradix, hsame⟩ | ⟨hdecimal, hsame⟩
  · rw [hsame] at h
    obtain ⟨text, value, hkind, hvalue, ht⟩ := radixNumeral_ok hc hradix h
    refine ⟨_, 0, value, fun c' rest hc' => ?_, hkind, hvalue, ht.reads,
      ht.raw, ht.span, fun c' rest hrest hc' => ?_⟩
    · exact startsNumeral_of_digit hc' (by decide)
    · rw [numeralToken_eq_radix hc' hradix]
      exact ht.alike hrest hc'
  · rw [hsame] at h
    obtain ⟨text, lines, value, hopens, hkind, hvalue, ht⟩ :=
      decimalNumeral_ok hstart h
    refine ⟨text, lines, value, hopens, hkind, hvalue, ht.reads, ht.raw,
      ht.span, fun c' rest hrest hc' => ?_⟩
    rw [numeralToken_eq_decimal]
    · exact ht.alike hrest hc'
    intro mark more hmore
    by_cases hspace : mark = ' '
    · rw [hspace]
      rfl
    · -- A radix would have been announced before.
      have hclips := ht.reads.clips hrest hc'
      have hmark : ['0', mark] <+: c.rest :=
        hclips.prefix_of (by simp [Ne.symm hspace]) ⟨more, hmore.symm⟩
      obtain ⟨after, hafter⟩ := hmark
      exact hdecimal mark after hafter.symm

end ScriptTree
