/-
What it is to round a natural number once.

A number is rounded to some bits if it gives way to the nearest number of
that many bits, and between two that are equally near to the one that has
a bit to spare. Nothing is said about how that number is found.
-/
import Mathlib.Data.Nat.Digits.Defs
import Mathlib.Data.Nat.Dist
import ScriptTree.Number.Binary64

namespace ScriptTree

/-- Whether `n` is a number of at most so many bits with zeros behind
them. -/
def HasBits (bits n : Nat) : Prop :=
  ∃ mantissa exponent, mantissa < Nat.pow 2 bits ∧
    n = mantissa * Nat.pow 2 exponent

/-- A number rounded to so many bits, a tie to the even neighbour. -/
structure IsRounded (bits n rounded : Nat) : Prop where
  hasBits : HasBits bits rounded
  nearest : ∀ other, HasBits bits other →
    Nat.dist n rounded ≤ Nat.dist n other
  even : ∀ other, HasBits bits other → other ≠ rounded →
    Nat.dist n other = Nat.dist n rounded → HasBits (bits - 1) rounded

/-- Whether a double is the given number, or infinity where the number is
past the finite ones. -/
structure Binary64.StandsFor (x : Binary64) (n : Nat) : Prop where
  finite : n < Nat.pow 2 1024 → ∃ mantissa exponent,
    x.reading = .finite false mantissa exponent ∧
      wholeNumber? mantissa exponent = some n
  infinite : Nat.pow 2 1024 ≤ n → x.reading = .infinity false

-- ==================================================== radix literals

/-- The number that digits denote, the first one counting the most. -/
def radixNumber (radix : Nat) (digits : List Nat) : Nat :=
  Nat.ofDigits radix digits.reverse

/-- Whether a number of more than 53 bits stands halfway between two of 53
bits, the lower of which is even. -/
def HalfAboveEven (n : Nat) : Prop :=
  ∃ quarter exponent, Nat.pow 2 51 ≤ quarter ∧ quarter < Nat.pow 2 52 ∧
    n = (4 * quarter + 1) * Nat.pow 2 exponent

/-- Whether the digit that takes the number past 53 bits takes it just
halfway from an even number of 53 bits to the next, while the digits
behind it are not all zeros. -/
def PassesTie (radix : Nat) (digits : List Nat) : Prop :=
  ∃ head last tail, digits = head ++ last :: tail ∧
    radixNumber radix head < Nat.pow 2 53 ∧
    HalfAboveEven (radixNumber radix (head ++ [last])) ∧
    radixNumber radix tail ≠ 0

end ScriptTree
