/-
Escapes by the code of a character.

# No code is lost

The number of the digits so far stops at a bound, but that bound is far
beyond all codes. So an escape is read if and only if the digits in its
braces, as many as they are, denote the code of a character
(`bracedEscape_iff`), and what was read is that character.

# Names and strings

An escape in a name and one in a string come to the same reader behind
the opening brace (`nameEscape_of_brace`, `escaped_of_brace`).
-/
import ScriptTree.Proofs.Numeral
import ScriptTree.Proofs.Piece

namespace ScriptTree

variable {c stop : Cursor} {ch : Char} {digits rest text : List Char}

-- ============================================================ cursors

theorem byteLength_of_hexDigits (h : digits.all isHexDigit = true) :
    byteLength digits = digits.length := by
  induction digits with
  | nil => rfl
  | cons ch digits ih =>
      rw [List.all_cons, Bool.and_eq_true] at h
      have hlow := isDigitOf_low ch h.1
      have hone : ch.utf8Size = 1 := by
        rw [Char.utf8Size_eq_one_iff, UInt32.le_iff_toNat_le]
        exact Nat.le_of_lt_succ hlow
      rw [byteLength_cons, hone, ih h.2, List.length_cons]
      omega

/-- Past the digits and the closing brace. -/
theorem move_of_digits (hall : digits.all isHexDigit = true)
    (hc : c.rest = digits ++ '\x7d' :: rest) :
    (c.skipWhile isHexDigit).advance = c.move (digits.length + 1) ∧
      (c.move (digits.length + 1)).rest = rest := by
  obtain ⟨hrun, hclose, -⟩ := reads_braced hall hc
  have hmove : (c.skipWhile isHexDigit).advance
      = c.move (digits.length + 1) := by
    rw [Cursor.advance_eq hclose]
    unfold Cursor.skipWhile
    rw [hrun, byteLength_of_hexDigits hall, Cursor.move_move]
    rfl
  exact ⟨hmove, hmove ▸ Cursor.advance_rest hclose⟩

-- ============================================================ escapes

theorem bracedEscape_iff :
    bracedEscape c = .ok ch stop ↔ ∃ digits rest, IsCodeOf digits ch ∧
      c.rest = digits ++ '\x7d' :: rest ∧
      stop = c.move (digits.length + 1) ∧ stop.rest = rest := by
  constructor
  · intro h
    obtain ⟨digits, hne, hall, hvalid, hch, hreads⟩ :=
      digits_of_bracedEscape h
    have hrest : c.rest = digits ++ '\x7d' :: stop.rest := by
      rw [hreads.rest, List.append_assoc]
      rfl
    refine ⟨digits, stop.rest, ⟨hne, hall, ?_⟩, hrest, ?_, rfl⟩
    · rw [hch, Char.ofNat, dif_pos hvalid]
      rfl
    · obtain ⟨-, -, -, -, -, -, rfl⟩ := bracedEscape_eq_ok.1 h
      exact (move_of_digits hall hrest).1
  · rintro ⟨digits, rest, ⟨hne, hall, hnumber⟩, hc, rfl, -⟩
    have hvalid : (hexNumber digits).isValidChar := hnumber ▸ ch.valid
    obtain ⟨stop, h, -⟩ := bracedEscape_of_digits hne hall hvalid hc
    obtain ⟨-, -, -, -, -, -, hstop⟩ := bracedEscape_eq_ok.1 h
    rw [h, hstop, (move_of_digits hall hc).1, hnumber, Char.ofNat_toNat]

/-- What is no escape is refused where reading stopped. -/
theorem bracedEscape_fails (h : ∀ ch stop, bracedEscape c ≠ .ok ch stop) :
    ∃ stop, bracedEscape c
      = .error (stop.position.diagnose .illegalToken) stop := by
  cases hresult : bracedEscape c with
  | ok ch stop => exact absurd hresult (h ch stop)
  | error d stop =>
      obtain ⟨-, rfl⟩ := bracedEscape_eq_error hresult
      exact ⟨stop, rfl⟩

-- ================================================== names and strings

theorem nameEscape_of_brace (hc : c.rest = 'u' :: '\x7b' :: text) :
    nameEscape c = bracedEscape (c.skip 2) := by
  have hnext := Cursor.advance_rest hc
  rw [nameEscape_eq, if_pos (Cursor.peek_cons hc),
    if_pos (Cursor.peek_cons hnext)]
  rfl

theorem escaped_of_brace (hc : c.rest = 'u' :: '\x7b' :: text) :
    escaped c = (.char <$> bracedEscape) (c.skip 2) := by
  have hnext := Cursor.advance_rest hc
  have hsame : numberEscape c.advance = bracedEscape (c.skip 2) := by
    rw [numberEscape_eq, if_pos (Cursor.peek_cons hnext)]
    rfl
  rw [escaped_of_letter hc (by decide)]
  unfold afterLetter
  rw [if_pos rfl]
  show EStateM.map _ _ _ = EStateM.map _ _ _
  unfold EStateM.map
  rw [hsame]

-- ============================================================= result

/-- After a backslash, the letter and an opening brace an escape is read,
in names and in strings alike, if and only if digits and a closing brace
follow that denote the code of a character. Then that character is read,
and the cursor stands just after the brace. In all other cases the escape
is refused. -/
theorem braced_escape_exact (hc : c.rest = 'u' :: '\x7b' :: text) :
    (∀ ch stop, bracedEscape (c.skip 2) = .ok ch stop ↔
      ∃ digits rest, IsCodeOf digits ch ∧
        text = digits ++ '\x7d' :: rest ∧
        stop = c.move (digits.length + 3) ∧ stop.rest = rest) ∧
    ((∀ ch digits rest, IsCodeOf digits ch →
        text ≠ digits ++ '\x7d' :: rest) →
      ∃ stop, bracedEscape (c.skip 2)
        = .error (stop.position.diagnose .illegalToken) stop) ∧
    nameEscape c = bracedEscape (c.skip 2) ∧
    escaped c = (.char <$> bracedEscape) (c.skip 2) := by
  have hmark : c.rest = ['u', '\x7b'] ++ text := hc
  have hskip : c.skip 2 = c.move 2 := Cursor.skip_eq_move hmark
  have hnext : (c.skip 2).rest = text := by
    rw [hskip]
    exact Cursor.move_rest hmark
  have hbytes (count : Nat) :
      (c.skip 2).move (count + 1) = c.move (count + 3) := by
    rw [hskip, Cursor.move_move]
    congr 1
    omega
  refine ⟨fun ch stop => ?_, fun hnone => ?_, nameEscape_of_brace hc,
    escaped_of_brace hc⟩
  · rw [bracedEscape_iff]
    simp only [hnext, hbytes]
  · apply bracedEscape_fails
    intro ch stop h
    obtain ⟨digits, rest, hcode, htext, -, -⟩ := bracedEscape_iff.1 h
    exact hnone ch digits rest hcode (hnext.symm.trans htext)

/-- Zeros in front do no harm, and a number that is the code of a letter
but for a digit in front is refused. -/
theorem braced_escape_exact_zeros :
    let source := "\n\x7b\\u\x7b00000000041\x7d!".toList
    let source' := "\n\x7b\\u\x7b100000041\x7d!".toList
    let c : Cursor := ⟨source, ⟨3, 2, 1⟩, 1⟩
    let c' : Cursor := ⟨source', ⟨3, 2, 1⟩, 1⟩
    nameEscape c = .ok 'A' ⟨source, ⟨17, 2, 1⟩, 1⟩ ∧
      escaped c = .ok (.char 'A') ⟨source, ⟨17, 2, 1⟩, 1⟩ ∧
      ∃ stop, nameEscape c'
        = .error (stop.position.diagnose .illegalToken) stop := by
  intro source source' c c'
  have htext : c.rest = 'u' :: '\x7b' :: "00000000041\x7d!".toList := by
    decide +kernel
  have htext' : c'.rest = 'u' :: '\x7b' :: "100000041\x7d!".toList := by
    decide +kernel
  obtain ⟨hiff, -, hname, hstring⟩ := braced_escape_exact htext
  obtain ⟨-, hfails, hname', -⟩ := braced_escape_exact htext'
  have hcode : IsCodeOf "00000000041".toList 'A' := by
    unfold IsCodeOf
    decide +kernel
  have hread := (hiff 'A' ⟨source, ⟨17, 2, 1⟩, 1⟩).2
    ⟨"00000000041".toList, ['!'], hcode, by decide, rfl,
      by decide +kernel⟩
  refine ⟨hname.trans hread, ?_, ?_⟩
  · rw [hstring]
    exact map_ok.2 ⟨'A', hread, rfl⟩
  · rw [hname']
    apply hfails
    rintro ch digits rest ⟨-, hall, hnumber⟩ hdigits
    have hrun : digits = "100000041".toList := by
      have hsame := congrArg (List.takeWhile isHexDigit) hdigits
      rw [List.takeWhile_append_of_pos (by simpa using hall),
        List.takeWhile_cons_of_neg (by decide), List.append_nil] at hsame
      exact hsame.symm
    have hcode : ch.toNat = 0x100000041 := by
      rw [← hnumber, hrun]
      rfl
    have hvalid : ch.toNat.isValidChar := ch.valid
    unfold Nat.isValidChar at hvalid
    omega

end ScriptTree
