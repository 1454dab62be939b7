/-
Classes of characters: blanks, line terminators, and the characters that
start and continue a name.

# What Unicode decides

Which characters names are made of is for Unicode to say, and every
version says it anew. Here it is a parameter (`NameProperties`): two
properties, with what holds of them in every version. The tables of one
version instantiate it.
-/
namespace ScriptTree

/-- Blanks within a line: space, tab, vertical tab, form feed, the byte
order mark and the space separators of Unicode. -/
def isWhiteSpace (ch : Char) : Bool :=
  ch = ' ' || ch = '\t' || ch = '\x0B' || ch = '\x0C' || ch = '\u00A0'
    || ch = '\u1680' || ('\u2000' ≤ ch && ch ≤ '\u200A') || ch = '\u202F'
    || ch = '\u205F' || ch = '\u3000' || ch = '\uFEFF'

/-- Line feed, carriage return, line separator, paragraph separator. -/
def isLineTerminator (ch : Char) : Bool :=
  ch = '\n' || ch = '\r' || ch = '\u2028' || ch = '\u2029'

-- ========================================================== names

/-- The properties of characters that names go by, as a version of
Unicode has them. -/
class NameProperties where
  /-- The property `XID_Start`. -/
  isXidStart : Char → Bool
  /-- The property `XID_Continue`. -/
  isXidContinue : Char → Bool
  /-- What starts a name continues one. -/
  continue_of_start : ∀ {ch : Char},
    isXidStart ch = true → isXidContinue ch = true
  /-- Of the ASCII characters the letters start a name. -/
  start_ascii : ∀ {ch : Char}, ch.toNat < 128 → isXidStart ch = ch.isAlpha
  /-- No blank is part of a name. -/
  continue_blank : ∀ {ch : Char},
    isWhiteSpace ch = true → isXidContinue ch = false
  /-- No line terminator is part of a name. -/
  continue_terminator : ∀ {ch : Char},
    isLineTerminator ch = true → isXidContinue ch = false

export NameProperties (isXidStart isXidContinue)

/-- A character that may start a name. A backslash counts: it opens an
escape that stands for the character meant. -/
def isNameStart [NameProperties] (ch : Char) : Bool :=
  ch = '$' || ch = '_' || ch = '\\' || isXidStart ch

/-- Of the ASCII characters the letters start a name, and three more. -/
theorem isNameStart_ascii [NameProperties] {ch : Char}
    (h : ch.toNat < 128) :
    isNameStart ch = (ch = '$' || ch = '_' || ch = '\\' || ch.isAlpha) := by
  rw [isNameStart, NameProperties.start_ascii h]

/-- A letter of ASCII starts a name. -/
theorem isNameStart_of_isAlpha [NameProperties] {ch : Char}
    (h : ch.isAlpha = true) : isNameStart ch = true := by
  have hascii : ch.toNat < 128 := by
    obtain hupper | hlower : ch.isUpper = true ∨ ch.isLower = true := by
      rwa [← Bool.or_eq_true]
    · have hle : ch.toNat ≤ 90 := (of_decide_eq_true hupper).2
      omega
    · have hle : ch.toNat ≤ 122 :=
        of_decide_eq_true (Bool.and_eq_true_iff.1 hlower).2
      omega
  rw [isNameStart_ascii hascii, h, Bool.or_true]

/-- A character that may continue a name: what starts one, the two
joiners of zero width, and what Unicode adds for the later places. -/
def isNamePart [NameProperties] (ch : Char) : Bool :=
  ch = '$' || ch = '_' || ch = '\\' || ch = '\u200C' || ch = '\u200D'
    || isXidContinue ch

/-- What starts a name continues one. -/
theorem isNamePart_of_isNameStart [NameProperties] {ch : Char}
    (h : isNameStart ch = true) : isNamePart ch = true := by
  simp only [isNameStart, Bool.or_eq_true] at h
  simp only [isNamePart, Bool.or_eq_true]
  rcases h with h | h
  · exact .inl (.inl (.inl h))
  · exact .inr (NameProperties.continue_of_start h)

theorem isNamePart_backslash [NameProperties] :
    isNamePart '\\' = true := rfl

theorem isNamePart_space [NameProperties] : isNamePart ' ' = false := by
  rw [isNamePart, NameProperties.continue_blank rfl]
  rfl

theorem isNameStart_space [NameProperties] : isNameStart ' ' = false := by
  rw [isNameStart_ascii (by decide)]
  rfl

-- ======================================================= digits

/-- The value of a hexadecimal digit of either case. -/
def hexValue? (ch : Char) : Option Nat :=
  if '0' ≤ ch && ch ≤ '9' then some (ch.toNat - '0'.toNat)
  else if 'a' ≤ ch && ch ≤ 'f' then some (ch.toNat - 'a'.toNat + 10)
  else if 'A' ≤ ch && ch ≤ 'F' then some (ch.toNat - 'A'.toNat + 10)
  else none

/-- A digit of the given radix, sixteen at most. -/
def isDigitOf (radix : Nat) (ch : Char) : Bool :=
  (hexValue? ch).any (· < radix)

/-- A decimal digit. -/
def isDecimalDigit (ch : Char) : Bool := isDigitOf 10 ch

/-- The value of a digit in any radix up to sixteen; zero for a character
that is no digit. -/
def digitValue (ch : Char) : Nat := (hexValue? ch).getD 0

end ScriptTree
