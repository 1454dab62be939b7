/-
Bytes of a text: where characters start, and what is cut out of a text by
offsets.

# Out of range

An offset may fall into the middle of a character, the ends of a cut may
be the wrong way round, a difference may come out below zero, and a code
may take more than 32 bits. What a machine makes of that is left open: it
is given by an `Arithmetic`, of which nothing is known out of range
(`Arithmetic.Exact`). The programs here run on `Arithmetic.plain`, where
such a cut is empty. That it makes no difference on which `Machine` they
run is to say that nothing ever gets out of range.
-/
namespace ScriptTree

-- ================================================== cuts in range

/-- The text from an offset on, unless the offset is within a character or
beyond the end. -/
def textFrom? : Nat → List Char → Option (List Char)
  | 0, text => some text
  | _ + 1, [] => none
  | offset + 1, ch :: rest =>
    if ch.utf8Size ≤ offset + 1 then
      textFrom? (offset + 1 - ch.utf8Size) rest
    else none

/-- The first bytes of a text, unless the last of them is within a
character or there are not as many. -/
def textUpTo? : Nat → List Char → Option (List Char)
  | 0, _ => some []
  | _ + 1, [] => none
  | count + 1, ch :: rest =>
    if ch.utf8Size ≤ count + 1 then
      (ch :: ·) <$> textUpTo? (count + 1 - ch.utf8Size) rest
    else none

/-- The text between two offsets, if both are between characters and in
order. -/
def textWithin? (start stop : Nat) (text : List Char) :
    Option (List Char) :=
  if start ≤ stop then (textFrom? start text).bind (textUpTo? (stop - start))
  else none

-- ===================================================== arithmetic

/-- What a machine makes of offsets and codes. -/
class Arithmetic where
  /-- The text from an offset on. -/
  textFrom : Nat → List Char → List Char
  /-- The text between two offsets. -/
  textWithin : Nat → Nat → List Char → List Char
  /-- A difference of two offsets. -/
  minus : Nat → Nat → Nat
  /-- A number as a code. -/
  word : Nat → Nat

/-- The arithmetic is right as long as nothing is out of range. -/
structure Arithmetic.Exact (a : Arithmetic) : Prop where
  textFrom : ∀ {offset : Nat} {text rest : List Char},
    textFrom? offset text = some rest → a.textFrom offset text = rest
  textWithin : ∀ {start stop : Nat} {text cut : List Char},
    textWithin? start stop text = some cut →
      a.textWithin start stop text = cut
  minus : ∀ {m n : Nat}, n ≤ m → a.minus m n = m - n
  word : ∀ {n : Nat}, n < 0x100000000 → a.word n = n

/-- A machine, the arithmetic of which is right in range. -/
structure Machine where
  arithmetic : Arithmetic
  exact : arithmetic.Exact

/-- A cut out of range is empty, and numbers have no bounds but zero. -/
instance Arithmetic.plain : Arithmetic where
  textFrom offset text := (textFrom? offset text).getD []
  textWithin start stop text := (textWithin? start stop text).getD []
  minus m n := m - n
  word n := n

/-- The plain arithmetic is right in range. -/
theorem Arithmetic.exact_plain : Arithmetic.plain.Exact where
  textFrom h := congrArg (Option.getD · []) h
  textWithin h := congrArg (Option.getD · []) h
  minus _ := rfl
  word _ := rfl

end ScriptTree
