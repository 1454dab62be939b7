/-
Moves by a known width go past characters.

A scanner that knows what it sees knows how many bytes that takes. Digits,
and the marks and letters that it asks for by name, take one byte each
(`utf8Size_of_low`), and a move by one byte goes past one of them
(`Cursor.move_one`).
-/
import ScriptTree.Proofs.Scanning
import ScriptTree.Source.Trivia

namespace ScriptTree

variable {c d : Cursor} {ch : Char} {rest : List Char}

-- ========================================================== widths

/-- A character with a code of seven bits takes one byte. -/
theorem utf8Size_of_low (h : ch.toNat < 128) : ch.utf8Size = 1 := by
  have hbound : (127 : UInt32).toNat = 127 := rfl
  have hle : ch.val.toNat ≤ (127 : UInt32).toNat := by
    rw [hbound]
    exact Nat.le_of_lt_succ h
  exact Char.utf8Size_eq_one_iff.2 (UInt32.le_iff_toNat_le.2 hle)

/-- Digits of all radixes have codes of seven bits. -/
theorem isDigitOf_low {radix : Nat} :
    ∀ ch, isDigitOf radix ch = true → ch.toNat < 128 := by
  intro ch h
  unfold isDigitOf hexValue? at h
  by_cases hdecimal : ('0' ≤ ch && ch ≤ '9') = true
  · have hhigh : ch.toNat ≤ 57 :=
      of_decide_eq_true (Bool.and_eq_true_iff.1 hdecimal).2
    omega
  by_cases hlower : ('a' ≤ ch && ch ≤ 'f') = true
  · have hhigh : ch.toNat ≤ 102 :=
      of_decide_eq_true (Bool.and_eq_true_iff.1 hlower).2
    omega
  by_cases hupper : ('A' ≤ ch && ch ≤ 'F') = true
  · have hhigh : ch.toNat ≤ 70 :=
      of_decide_eq_true (Bool.and_eq_true_iff.1 hupper).2
    omega
  · rw [if_neg hdecimal, if_neg hlower, if_neg hupper] at h
    cases h

/-- A digit takes one byte. -/
theorem utf8Size_of_digit {radix : Nat} (h : isDigitOf radix ch = true) :
    ch.utf8Size = 1 :=
  utf8Size_of_low (isDigitOf_low ch h)

/-- A hexadecimal digit stands for less than sixteen. -/
theorem hexValue?_lt {ch : Char} {digit : Nat}
    (h : hexValue? ch = some digit) : digit < 16 := by
  unfold hexValue? at h
  simp only [Bool.and_eq_true, decide_eq_true_eq, Char.le_def,
    UInt32.le_iff_toNat_le] at h
  have hzero : ('0' : Char).val.toNat = 48 := rfl
  have hnine : ('9' : Char).val.toNat = 57 := rfl
  split at h
  case isTrue hch =>
    cases h
    show ch.val.toNat - 48 < 16
    omega
  case isFalse =>
    split at h
    case isTrue hch =>
      cases h
      have hsix : ch.val.toNat ≤ 102 := hch.2
      show ch.val.toNat - 97 + 10 < 16
      omega
    case isFalse =>
      split at h
      case isTrue hch =>
        cases h
        have hsix : ch.val.toNat ≤ 70 := hch.2
        show ch.val.toNat - 65 + 10 < 16
        omega
      case isFalse => cases h

theorem isHexDigit_of_hexValue {digit : Nat}
    (h : hexValue? ch = some digit) : isHexDigit ch = true := by
  rw [isHexDigit, isDigitOf, h, Option.any_some]
  exact decide_eq_true (hexValue?_lt h)

-- ========================================================== moves

namespace Cursor

/-- A move by one byte goes past a character of one byte. -/
theorem move_one (h : c.rest = ch :: rest) (hch : ch.utf8Size = 1) :
    c.move 1 = c.advance := by
  rw [advance_eq h, hch]

/-- Two characters of one byte each are two bytes. -/
theorem move_two {first second : Char}
    (h : c.rest = first :: second :: rest) (hfirst : first.utf8Size = 1)
    (hsecond : second.utf8Size = 1) : c.move 2 = c.skip 2 := by
  have hnext := advance_rest h
  rw [skip, skip, skip, ← move_one hnext hsecond, ← move_one h hfirst]
  rfl

/-- Digits are passed a byte at a time. -/
theorem skipRun_digits (radix : Nat) (c : Cursor) :
    (c.skipRun (isDigitOf radix) fun _ => 1)
      = c.skipWhile (isDigitOf radix) :=
  skipRun_eq (fun _ h => (utf8Size_of_digit h).symm) c

/-- A comment starts at two slashes. -/
theorem slashes_iff : (c.peek = some '/' && c.peekNext = some '/') = true ↔
    ∃ rest, c.rest = '/' :: '/' :: rest := by
  rw [Bool.and_eq_true, decide_eq_true_eq, decide_eq_true_eq, peek_eq_some,
    peekNext]
  constructor
  · rintro ⟨⟨rest, hrest⟩, hnext⟩
    rw [hrest, List.tail_cons] at hnext
    obtain ⟨rest, rfl⟩ := List.head?_eq_some_iff.1 hnext
    exact ⟨rest, hrest⟩
  · rintro ⟨rest, hrest⟩
    rw [hrest]
    exact ⟨⟨_, rfl⟩, rfl⟩

/-- There is a comment behind two slashes only. -/
theorem comment?_eq_none (h : ∀ rest, c.rest ≠ '/' :: '/' :: rest) :
    c.comment? = none := by
  unfold comment?
  rw [if_neg]
  intro hslashes
  obtain ⟨rest, hrest⟩ := slashes_iff.1 hslashes
  exact h rest hrest

end Cursor

end ScriptTree
