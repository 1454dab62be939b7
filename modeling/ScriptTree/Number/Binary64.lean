/-
Double precision numbers as 64-bit patterns, and rounding to them from
exact quantities. All arithmetic is on natural numbers: a quantity is
held exactly and rounded once, to nearest, ties to the even neighbour.

# One formula for normal and subnormal results

A positive double is `m * 2 ^ q` with `q ≥ -1074`, and its pattern, read
as a number, is `m + (q + 1074) * 2 ^ 52`. For a subnormal result `q` is
`-1074` and the second term vanishes; for a normal one the implicit top
bit of `m` supplies the missing unit of the exponent field; and where
rounding carries `m` to `2 ^ 53`, the sum is the pattern of the next
power of two. So no case needs a correction after rounding.
-/
namespace ScriptTree

/-- A double precision number, given by its bits. -/
structure Binary64 where
  bits : UInt64
  deriving DecidableEq, Repr

/-- What a bit pattern stands for. -/
inductive Binary64.Reading where
  | nan
  | infinity (negative : Bool)
  /-- The number `mantissa * 2 ^ exponent`, with its sign. -/
  | finite (negative : Bool) (mantissa : Nat) (exponent : Int)
  deriving DecidableEq, Repr

-- ==================================================== rounding

/-- The quotient of two numbers rounded to nearest, a tie to the even
neighbour. -/
def roundQuotient (num den : Nat) : Nat :=
  let quotient := num / den
  let twice := 2 * (num % den)
  if twice < den then quotient
  else if den < twice then quotient + 1
  else quotient + quotient % 2

/-- A number rounded to 53 significant bits. -/
def roundTo53 (n : Nat) : Nat :=
  if n < Nat.pow 2 53 then n
  else
    let unit := Nat.pow 2 (n.log2 - 52)
    roundQuotient n unit * unit

namespace Binary64

/-- The number with no bit set. -/
def zero : Binary64 := ⟨0⟩

/-- The number beyond all finite ones. -/
def infinity : Binary64 := ⟨0x7FF0000000000000⟩

/-- The number with the given non-negative pattern, or infinity where the
pattern is past the finite ones. -/
def ofPattern (pattern : Nat) : Binary64 :=
  if pattern < 0x7FF0000000000000 then ⟨pattern.toUInt64⟩ else infinity

/-- The double nearest to `num / den`, a tie to the even neighbour, and
infinity past the finite range. -/
def ofRatio (num den : Nat) : Binary64 :=
  if num = 0 then zero
  else
    let estimate : Int := (num.log2 : Int) - den.log2
    let floorLog : Int :=
      if den * Nat.pow 2 estimate.toNat
          ≤ num * Nat.pow 2 (-estimate).toNat
      then estimate else estimate - 1
    let exponent : Int := max (floorLog - 52) (-1074)
    let mantissa := roundQuotient (num * Nat.pow 2 (-exponent).toNat)
      (den * Nat.pow 2 exponent.toNat)
    ofPattern (mantissa + (exponent + 1074).toNat * Nat.pow 2 52)

/-- The double nearest to a natural number. -/
def ofNat (n : Nat) : Binary64 := ofRatio n 1

/-- The double nearest to `digits * 10 ^ exponent`. Exponents so large or
so small that the result is settled by them alone are answered without
forming the power. -/
def ofDecimal (digits : Nat) (exponent : Int) : Binary64 :=
  if digits = 0 then zero
  else if 310 < exponent then infinity
  else if (digits.log2 : Int) + 3 * exponent < -1075 then zero
  else
    ofRatio (digits * Nat.pow 10 exponent.toNat)
      (Nat.pow 10 (-exponent).toNat)

-- ===================================================== reading

/-- What the bits stand for. -/
def reading (x : Binary64) : Reading :=
  let pattern := x.bits.toNat
  let negative := Nat.pow 2 63 ≤ pattern
  let field : Nat := pattern / Nat.pow 2 52 % 2048
  let fraction := pattern % Nat.pow 2 52
  if field = 2047 then
    if fraction = 0 then .infinity negative else .nan
  else if field = 0 then .finite negative fraction (-1074)
  else .finite negative (Nat.pow 2 52 + fraction) ((field : Int) - 1075)

end Binary64

/-- The natural number that `mantissa * 2 ^ exponent` is, if it is one. -/
def wholeNumber? (mantissa : Nat) (exponent : Int) : Option Nat :=
  let divisor := Nat.pow 2 (-exponent).toNat
  if mantissa % divisor = 0 then
    some (mantissa / divisor * Nat.pow 2 exponent.toNat)
  else none

-- ============================================== radix literals

/-- The double that the digits of a literal in radix two, eight or
sixteen denote, taken in one by one: each digit is appended to the value
so far and the sum rounded to 53 bits. -/
def Binary64.ofRadixDigits (radix : Nat) (digits : List Nat) : Binary64 :=
  .ofNat (digits.foldl (fun acc d => roundTo53 (acc * radix + d)) 0)

end ScriptTree
