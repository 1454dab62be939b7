/-
The decimal text of a double: which digits, and how they are laid out.

# Which digits

The reals that round to a positive double form an interval, from halfway
to the neighbour below to halfway to the neighbour above, its ends
included exactly when the mantissa is even. Among the decimals in it the
shortest are wanted, and of these the one closest to the double. On a
grid of powers of ten only the two neighbours of the double can be
closest, so the search tries these two, from the coarsest grid on.

# How they are laid out

A `DecimalLayout` holds the decisions of one printed form: where plain
notation ends, whether a whole number shows a point, and which of two
equally close decimals is taken.
-/
import ScriptTree.Number.Binary64

namespace ScriptTree

/-- The number `digits * 10 ^ exponent`. -/
structure Decimal where
  digits : Nat
  exponent : Int
  deriving DecidableEq, Repr

/-- The decimal digits of a number, most significant first. -/
def decimalDigits (n : Nat) : List Char := Nat.toDigits 10 n

-- ============================================= the interval test

/-- How `a * 10 ^ i` compares with `b * 2 ^ j`. -/
def compareScaled (a : Nat) (i : Int) (b : Nat) (j : Int) : Ordering :=
  compare (a * Nat.pow 10 i.toNat * Nat.pow 2 (-j).toNat)
    (b * Nat.pow 2 j.toNat * Nat.pow 10 (-i).toNat)

/-- Whether a decimal rounds to the double `mantissa * 2 ^ exponent`. The
neighbour below a power of two is half as far away as the one above,
unless the power is the least normal one. -/
def Decimal.roundsTo (d : Decimal) (mantissa : Nat) (exponent : Int) :
    Bool :=
  let low :=
    if mantissa = Nat.pow 2 52 && exponent ≠ -1074 then 4 * mantissa - 1
    else 4 * mantissa - 2
  let fromLow := compareScaled d.digits d.exponent low (exponent - 2)
  let fromHigh :=
    compareScaled d.digits d.exponent (4 * mantissa + 2) (exponent - 2)
  let closed := mantissa % 2 = 0
  (fromLow = .gt || closed && fromLow = .eq)
    && (fromHigh = .lt || closed && fromHigh = .eq)

-- ================================================== the search

/-- Which of two equally close decimals is taken. -/
inductive Tie where
  | toEven
  | up
  deriving DecidableEq, Repr

/-- An exponent `top` with `mantissa * 2 ^ exponent < 10 ^ top`, as small
as the integer part, or its reciprocal, shows. -/
def decimalTop (mantissa : Nat) (exponent : Int) : Int :=
  let num := mantissa * Nat.pow 2 exponent.toNat
  let den := Nat.pow 2 (-exponent).toNat
  if den ≤ num then (decimalDigits (num / den)).length
  else 1 - (decimalDigits (den / num)).length

/-- The closer of the two neighbours of a double on the grid of multiples
of `10 ^ unit`, among those that round to it. -/
def onGrid? (tie : Tie) (mantissa : Nat) (exponent unit : Int) :
    Option Decimal :=
  let num := mantissa * Nat.pow 2 exponent.toNat * Nat.pow 10 (-unit).toNat
  let den := Nat.pow 2 (-exponent).toNat * Nat.pow 10 unit.toNat
  let below : Decimal := ⟨num / den, unit⟩
  let above : Decimal := ⟨num / den + 1, unit⟩
  match below.roundsTo mantissa exponent,
      above.roundsTo mantissa exponent with
  | false, false => none
  | true, false => some below
  | false, true => some above
  | true, true =>
    match compare (2 * (num % den)) den with
    | .lt => some below
    | .gt => some above
    | .eq =>
      if tie = .toEven && below.digits % 2 = 0 then some below
      else some above

/-- The shortest decimal that rounds to `mantissa * 2 ^ exponent`, and of
these the closest. The coarsest grid has no digit below the power of ten
above the double, which is itself the answer just below such a power.
Seventeen digits are always enough; the exact value stands at the end of
the search all the same. -/
def shortestDecimal (tie : Tie) (mantissa : Nat) (exponent : Int) :
    Decimal :=
  let top := decimalTop mantissa exponent
  let grids := (List.range 18).map fun (n : Nat) => top - (n : Int)
  (grids.findSome? (onGrid? tie mantissa exponent)).getD
    ⟨mantissa * Nat.pow 2 exponent.toNat * Nat.pow 5 (-exponent).toNat,
      min exponent 0⟩

-- ================================================== the layout

/-- The decisions of one printed form of decimals. -/
structure DecimalLayout where
  /-- Exponents of the leading digit that are written in plain notation;
  all of them where there is no range. -/
  plain : Option (Int × Int)
  /-- Whether a whole number in plain notation ends in `.0`. -/
  wholePoint : Bool
  /-- Which of two equally close decimals is taken. -/
  tie : Tie
  deriving DecidableEq, Repr

namespace DecimalLayout

/-- Plain notation: the digits, with zeros up to the point or from it. -/
def plainText (layout : DecimalLayout) (digits : List Char)
    (exponent : Int) : List Char :=
  if 0 ≤ exponent then
    digits ++ .replicate exponent.toNat '0'
      ++ if layout.wholePoint then ['.', '0'] else []
  else
    let places := (-exponent).toNat
    let padded := .replicate (places + 1 - digits.length) '0' ++ digits
    let whole := padded.length - places
    padded.take whole ++ '.' :: padded.drop whole

/-- Exponent notation: one digit, the others after a point, and the
exponent of that first digit with its sign. -/
def exponentText (digits : List Char) (leading : Int) : List Char :=
  let fraction := digits.drop 1
  digits.take 1 ++ (if fraction.isEmpty then [] else '.' :: fraction)
    ++ 'e' :: (if leading < 0 then '-' else '+')
    :: decimalDigits leading.natAbs

/-- The text of the positive double `mantissa * 2 ^ exponent`. -/
def text (layout : DecimalLayout) (mantissa : Nat) (exponent : Int) :
    List Char :=
  let decimal := shortestDecimal layout.tie mantissa exponent
  let digits := decimalDigits decimal.digits
  let leading := decimal.exponent + digits.length - 1
  let isPlain := match layout.plain with
    | none => true
    | some (low, high) => low ≤ leading && leading ≤ high
  if isPlain then layout.plainText digits decimal.exponent
  else exponentText digits leading

end DecimalLayout

end ScriptTree
