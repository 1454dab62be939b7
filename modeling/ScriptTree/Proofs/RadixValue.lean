/-
The double that a literal in radix two, eight or sixteen carries.

# More digits

Digits are taken in exactly until they pass 53 bits. The number is then
rounded, and from there on each digit only moves it up: what it counts
for is less than half the distance to the next number
(`roundTo53_digit`). So the number is rounded once, but too early, and
the digits behind could as well be zeros (`roundedEach_append`). Where the
number stands just between two others then, they are missing
(`isRounded_roundedEach`).
-/
import ScriptTree.Proofs.Numeral.Token
import ScriptTree.Proofs.Rounding
import ScriptTree.Proofs.Tiling
import ScriptTree.Source.NameRanges

namespace ScriptTree

variable {radix n : Nat} {digits head tail : List Nat}

-- ============================================================ digits

/-- One more digit multiplies what comes before by the radix. -/
theorem radixNumber_concat (radix : Nat) (digits : List Nat)
    (digit : Nat) :
    radixNumber radix (digits ++ [digit])
      = radixNumber radix digits * radix + digit := by
  unfold radixNumber
  rw [List.reverse_append, List.reverse_singleton, List.singleton_append,
    Nat.ofDigits_cons, Nat.add_comm, Nat.mul_comm]

/-- Digits on the left count as many times as those on the right allow. -/
theorem radixNumber_append (radix : Nat) (head tail : List Nat) :
    radixNumber radix (head ++ tail)
      = radixNumber radix head * Nat.pow radix tail.length
        + radixNumber radix tail := by
  unfold radixNumber
  rw [List.reverse_append, Nat.ofDigits_append, List.length_reverse,
    Nat.add_comm, Nat.mul_comm]
  rfl

/-- Digits make less than the radix to the power of their number. -/
theorem radixNumber_lt (hradix : 1 < radix)
    (h : ∀ digit ∈ digits, digit < radix) :
    radixNumber radix digits < Nat.pow radix digits.length := by
  have hlt := Nat.ofDigits_lt_base_pow_length hradix
    (l := digits.reverse) fun digit hdigit =>
      h digit (List.mem_reverse.1 hdigit)
  rwa [List.length_reverse] at hlt

/-- Digits that take a number past a bound have one that is the first
behind which it is past it. -/
theorem exists_passing {bound : Nat} (hbound : 0 < bound)
    (h : bound ≤ radixNumber radix digits) :
    ∃ head last tail, digits = head ++ last :: tail ∧
      radixNumber radix head < bound ∧
      bound ≤ radixNumber radix (head ++ [last]) := by
  induction digits using List.reverseRecOn with
  | nil => exact absurd h (Nat.not_le.2 hbound)
  | append_singleton digits digit ih =>
      obtain hlt | hle :=
        Nat.lt_or_ge (radixNumber radix digits) bound
      · exact ⟨digits, digit, [], rfl, hlt, h⟩
      · obtain ⟨head, last, tail, rfl, hhead⟩ := ih hle
        exact ⟨head, last, tail ++ [digit],
          List.append_assoc head (last :: tail) [digit], hhead⟩

-- ========================================= rounding after each digit

/-- The number after each digit of which it has been rounded. -/
def roundedEach (radix : Nat) (digits : List Nat) : Nat :=
  digits.foldl (fun acc digit => roundTo53 (acc * radix + digit)) 0

/-- One more digit is rounded once more. -/
theorem roundedEach_concat (radix : Nat) (digits : List Nat)
    (digit : Nat) :
    roundedEach radix (digits ++ [digit])
      = roundTo53 (roundedEach radix digits * radix + digit) :=
  List.foldl_concat _ 0 digit digits

/-- What is rounded after each digit has few bits. -/
theorem hasBits_roundedEach (radix : Nat) (digits : List Nat) :
    HasBits 53 (roundedEach radix digits) := by
  induction digits using List.reverseRecOn with
  | nil => exact hasBits_of_lt (two_pow_pos 53)
  | append_singleton digits digit ih =>
      rw [roundedEach_concat]
      exact hasBits_roundTo53 _

/-- What fits is not rounded. -/
theorem roundedEach_of_lt (hradix : 0 < radix)
    (h : radixNumber radix digits < Nat.pow 2 53) :
    roundedEach radix digits = radixNumber radix digits := by
  induction digits using List.reverseRecOn with
  | nil => rfl
  | append_singleton digits digit ih =>
      have hle : radixNumber radix digits
          ≤ radixNumber radix (digits ++ [digit]) := by
        rw [radixNumber_concat]
        exact Nat.le_add_right_of_le (Nat.le_mul_of_pos_right _ hradix)
      rw [roundedEach_concat, ih (Nat.lt_of_le_of_lt hle h),
        ← radixNumber_concat, roundTo53_of_hasBits (hasBits_of_lt h)]

/-- The digit that takes the number past 53 bits is taken in exactly. -/
theorem roundedEach_passing (hradix : 0 < radix)
    (h : radixNumber radix head < Nat.pow 2 53) (last : Nat) :
    roundedEach radix (head ++ [last])
      = roundTo53 (radixNumber radix (head ++ [last])) := by
  rw [roundedEach_concat, roundedEach_of_lt hradix h, radixNumber_concat]

/-- To a number that has been rounded a digit adds nothing. -/
theorem roundTo53_digit {count digit : Nat} (hbits : HasBits 53 n)
    (h : Nat.pow 2 53 ≤ n) (hdigit : digit < Nat.pow 2 count) :
    roundTo53 (n * Nat.pow 2 count + digit) = n * Nat.pow 2 count := by
  have htie : ¬HalfAboveEven n := by
    obtain ⟨lead, exponent, low, hfirst⟩ := FirstBits.exists_succ_of_le h
    rw [hfirst.halfAboveEven_iff, hfirst.low_eq_zero hbits]
    exact fun htie => Nat.ne_of_lt (two_pow_pos exponent) htie.2
  rw [← (roundTo53_extend h hdigit).2 fun hlost => htie hlost.1,
    roundTo53_of_hasBits hbits]

section

variable {width : Nat} (hradix : radix = Nat.pow 2 (width + 1))
  (hdigits : ∀ digit ∈ tail, digit < radix)

include hradix

theorem radix_pow (count : Nat) :
    Nat.pow radix count = Nat.pow 2 ((width + 1) * count) := by
  rw [hradix]
  exact (Nat.pow_mul 2 (width + 1) count).symm

theorem one_lt_radix : 1 < radix := by
  rw [hradix]
  exact Nat.one_lt_two_pow (Nat.succ_ne_zero width)

include hdigits

/-- Once the number is past 53 bits, digits only move it up. -/
theorem roundedEach_append (head : List Nat)
    (h : Nat.pow 2 53 ≤ roundedEach radix head) :
    roundedEach radix (head ++ tail)
      = roundedEach radix head * Nat.pow radix tail.length := by
  induction tail using List.reverseRecOn with
  | nil => rw [List.append_nil]; exact (Nat.mul_one _).symm
  | append_singleton tail digit ih =>
      have hbefore := ih fun digit' hdigit' =>
        hdigits digit' (List.mem_append_left _ hdigit')
      have hlast : digit < radix := hdigits digit (by simp)
      have hbits := hasBits_roundedEach radix (head ++ tail)
      have hle : Nat.pow 2 53 ≤ roundedEach radix (head ++ tail) := by
        rw [hbefore]
        exact Nat.le_trans h (Nat.le_mul_of_pos_right _
          (Nat.pow_pos (Nat.zero_lt_of_lt hlast)))
      rw [hradix] at hlast
      have hstep := roundTo53_digit hbits hle hlast
      rw [← hradix] at hstep
      rw [← List.append_assoc, roundedEach_concat, hstep, hbefore,
        Nat.mul_assoc, List.length_append, List.length_singleton]
      rfl

/-- The number is rounded once, at the digit that takes it past 53 bits. -/
theorem roundedEach_split {last : Nat}
    (hhead : radixNumber radix head < Nat.pow 2 53)
    (hlast : Nat.pow 2 53 ≤ radixNumber radix (head ++ [last])) :
    roundedEach radix (head ++ last :: tail)
      = roundTo53 (radixNumber radix (head ++ [last]))
        * Nat.pow radix tail.length := by
  have hpassing := roundedEach_passing
    (Nat.zero_lt_of_lt (one_lt_radix hradix)) hhead last
  have happend := roundedEach_append hradix hdigits (head ++ [last])
    (hpassing ▸ le_roundTo53
    ⟨1, 53, by decide, (Nat.one_mul _).symm⟩ hlast)
  rwa [hpassing, List.append_assoc] at happend

/-- The digits behind count as zeros. -/
theorem isRounded_split {last : Nat}
    (hhead : radixNumber radix head < Nat.pow 2 53)
    (hlast : Nat.pow 2 53 ≤ radixNumber radix (head ++ [last])) :
    IsRounded 53
      (radixNumber radix (head ++ [last]) * Nat.pow radix tail.length)
      (roundedEach radix (head ++ last :: tail)) := by
  rw [isRounded_iff, roundedEach_split hradix hdigits hhead hlast,
    radix_pow hradix]
  exact (roundTo53_extend hlast (two_pow_pos _)).2 fun hlost =>
    hlost.2 rfl

/-- They may as well be missing, unless they would have settled a tie. -/
theorem roundedEach_split_iff {last : Nat}
    (hhead : radixNumber radix head < Nat.pow 2 53)
    (hlast : Nat.pow 2 53 ≤ radixNumber radix (head ++ [last])) :
    roundedEach radix (head ++ last :: tail)
        = roundTo53 (radixNumber radix (head ++ last :: tail)) ↔
      ¬(HalfAboveEven (radixNumber radix (head ++ [last])) ∧
        radixNumber radix tail ≠ 0) := by
  have hnumber := radixNumber_append radix (head ++ [last]) tail
  rw [List.append_assoc, List.singleton_append, radix_pow hradix]
    at hnumber
  have hlow := radixNumber_lt (one_lt_radix hradix) hdigits
  rw [radix_pow hradix] at hlow
  rw [roundedEach_split hradix hdigits hhead hlast, hnumber,
    radix_pow hradix]
  exact roundTo53_extend hlast hlow

end

/-- Rounding after each digit is rounding once, unless a tie is passed. -/
theorem isRounded_roundedEach {width : Nat}
    (hradix : radix = Nat.pow 2 (width + 1))
    (hdigits : ∀ digit ∈ digits, digit < radix) :
    IsRounded 53 (radixNumber radix digits) (roundedEach radix digits) ↔
      ¬PassesTie radix digits := by
  rw [isRounded_iff]
  constructor
  · rintro hsame ⟨head, last, tail, rfl, hhead, htie, hmore⟩
    have htail : ∀ digit ∈ tail, digit < radix :=
      fun digit hdigit => hdigits digit (by simp [hdigit])
    exact (roundedEach_split_iff hradix htail hhead htie.le).1 hsame
      ⟨htie, hmore⟩
  · intro hnone
    obtain hlt | hle :=
      Nat.lt_or_ge (radixNumber radix digits) (Nat.pow 2 53)
    · rw [roundedEach_of_lt (Nat.zero_lt_of_lt (one_lt_radix hradix)) hlt,
        roundTo53_of_hasBits (hasBits_of_lt hlt)]
    · obtain ⟨head, last, tail, rfl, hhead, hlast⟩ :=
        exists_passing (two_pow_pos 53) hle
      have htail : ∀ digit ∈ tail, digit < radix :=
        fun digit hdigit => hdigits digit (by simp [hdigit])
      exact (roundedEach_split_iff hradix htail hhead hlast).2 fun hlost =>
        hnone ⟨head, last, tail, rfl, hhead, hlost⟩

-- ========================================================== doubles

theorem lt_two_pow_iff (hzero : n ≠ 0) (count : Nat) :
    n < Nat.pow 2 count ↔ n.log2 < count :=
  (Nat.log2_lt hzero).symm

theorem not_two_pow_le_zero (count : Nat) : ¬Nat.pow 2 count ≤ 0 :=
  Nat.not_le.2 (two_pow_pos count)

theorem two_pow_le_iff (hzero : n ≠ 0) (count : Nat) :
    Nat.pow 2 count ≤ n ↔ count ≤ n.log2 :=
  (Nat.le_log2 hzero).symm

/-- A whole number needs no rounding. -/
theorem roundQuotient_mul (n : Nat) {den : Nat} (h : 0 < den) :
    roundQuotient (n * den) den = n := by
  unfold roundQuotient
  rw [Nat.mul_div_cancel n h, Nat.mul_mod_left, Nat.mul_zero, if_pos h]

namespace Binary64

theorem toNat_ofPattern {pattern : Nat}
    (h : pattern < 0x7FF0000000000000) :
    (ofPattern pattern).bits.toNat = pattern := by
  rw [ofPattern, if_pos h, Nat.toUInt64, UInt64.toNat_ofNat']
  exact Nat.mod_eq_of_lt (Nat.lt_trans h (by decide))

/-- The pattern of a number with its 53 bits, the first of which is
counted with the field of the exponent. -/
theorem reading_ofPattern {mantissa field : Nat}
    (hlower : Nat.pow 2 52 ≤ mantissa) (hupper : mantissa < Nat.pow 2 53)
    (hfield : field < 2046) :
    (ofPattern (mantissa + field * Nat.pow 2 52)).reading
      = .finite false mantissa ((field : Int) - 1074) := by
  obtain ⟨fraction, rfl⟩ := Nat.exists_eq_add_of_le hlower
  have hfraction : fraction < Nat.pow 2 52 := by
    have hdouble : Nat.pow 2 53 = 2 * Nat.pow 2 52 := two_pow_succ 52
    omega
  have hpattern : Nat.pow 2 52 + fraction + field * Nat.pow 2 52
      = (field + 1) * Nat.pow 2 52 + fraction := by
    rw [Nat.succ_mul]
    omega
  have hfinite : (field + 1) * Nat.pow 2 52 + fraction
      < 0x7FF0000000000000 := by
    have hmost : (field + 1) * Nat.pow 2 52 ≤ 2046 * Nat.pow 2 52 :=
      Nat.mul_le_mul_right _ hfield
    have hend : 2046 * Nat.pow 2 52 + Nat.pow 2 52
        = 0x7FF0000000000000 := by decide
    omega
  have hsign : ¬Nat.pow 2 63 ≤ (field + 1) * Nat.pow 2 52 + fraction :=
    Nat.not_le.2 (Nat.lt_trans hfinite (by decide))
  have hexponent : field + 1 < 2048 := by omega
  rw [hpattern, reading, toNat_ofPattern hfinite, div_of_split hfraction,
    Nat.mul_add_mod_of_lt hfraction, Nat.mod_eq_of_lt hexponent,
    if_neg (by omega), if_neg (Nat.succ_ne_zero field),
    decide_eq_false hsign]
  congr 1
  omega

/-- Beyond all finite patterns is infinity. -/
theorem ofPattern_of_le {pattern : Nat}
    (h : 2047 * Nat.pow 2 52 ≤ pattern) : ofPattern pattern = infinity :=
  if_neg (Nat.not_lt.2 h)

/-- A number is scaled to 53 bits before it is rounded. -/
theorem ofNat_eq (hzero : n ≠ 0) :
    ofNat n = ofPattern
      (roundQuotient (n * Nat.pow 2 (52 - n.log2))
          (Nat.pow 2 (n.log2 - 52))
        + (n.log2 + 1022) * Nat.pow 2 52) := by
  have hestimate : (n.log2 : Int) - (Nat.log2 1 : Int) = n.log2 := by
    rw [show Nat.log2 1 = 0 by decide]
    exact Int.sub_zero _
  have hfloor : Nat.pow 2 (n.log2 : Int).toNat
      ≤ n * Nat.pow 2 (-(n.log2 : Int)).toNat := by
    rw [Int.toNat_natCast]
    exact Nat.le_trans (Nat.log2_self_le hzero)
      (Nat.le_mul_of_pos_right n (two_pow_pos _))
  have hexponent : max ((n.log2 : Int) - 52) (-1074) = n.log2 - 52 := by
    omega
  have hup : (-((n.log2 : Int) - 52)).toNat = 52 - n.log2 := by omega
  have hdown : ((n.log2 : Int) - 52).toNat = n.log2 - 52 := by omega
  have hfield : ((n.log2 : Int) - 52 + 1074).toNat = n.log2 + 1022 := by
    omega
  unfold ofNat ofRatio
  simp only [if_neg hzero, hestimate, if_pos hfloor, hexponent, hup, hdown,
    hfield, Nat.one_mul]

end Binary64

/-- The 53 bits that a number of no more is made of. -/
theorem HasBits.exists_mantissa (h : HasBits 53 n) (hzero : n ≠ 0) :
    ∃ mantissa, Nat.pow 2 52 ≤ mantissa ∧ mantissa < Nat.pow 2 53 ∧
      n * Nat.pow 2 (52 - n.log2) = mantissa * Nat.pow 2 (n.log2 - 52) := by
  obtain hlt | hle := Nat.lt_or_ge n (Nat.pow 2 52)
  · have hlog : n.log2 < 52 := (lt_two_pow_iff hzero 52).1 hlt
    have hfloor : Nat.pow 2 n.log2 ≤ n := Nat.log2_self_le hzero
    have hceil : n < Nat.pow 2 (n.log2 + 1) := Nat.lt_log2_self
    have hlower := Nat.mul_le_mul_right (Nat.pow 2 (52 - n.log2)) hfloor
    have hupper := Nat.mul_lt_mul_of_pos_right hceil
      (two_pow_pos (52 - n.log2))
    rw [← two_pow_add, Nat.add_sub_cancel' (Nat.le_of_lt hlog)] at hlower
    rw [← two_pow_add, Nat.add_right_comm,
      Nat.add_sub_cancel' (Nat.le_of_lt hlog)] at hupper
    refine ⟨_, hlower, hupper, ?_⟩
    rw [Nat.sub_eq_zero_of_le (Nat.le_of_lt hlog)]
    exact (Nat.mul_one _).symm
  · obtain ⟨lead, exponent, low, hfirst⟩ := FirstBits.exists_of_le hle
    refine ⟨lead, hfirst.lower, hfirst.upper, ?_⟩
    rw [hfirst.log2_eq, Nat.add_sub_cancel_left, Nat.sub_eq_zero_of_le
      (Nat.le_add_right 52 exponent), hfirst.eq, hfirst.low_eq_zero h]
    exact Nat.mul_one _

theorem wholeNumber?_eq {mantissa : Nat}
    (h : n * Nat.pow 2 (52 - n.log2)
      = mantissa * Nat.pow 2 (n.log2 - 52)) :
    wholeNumber? mantissa ((n.log2 : Int) - 52) = some n := by
  have hup : (-((n.log2 : Int) - 52)).toNat = 52 - n.log2 := by omega
  have hdown : ((n.log2 : Int) - 52).toNat = n.log2 - 52 := by omega
  unfold wholeNumber?
  simp only [hup, hdown]
  obtain hle | hle := Nat.le_total n.log2 52
  · rw [Nat.sub_eq_zero_of_le hle] at h ⊢
    have hmantissa : mantissa = n * Nat.pow 2 (52 - n.log2) :=
      (h.trans (Nat.mul_one _)).symm
    rw [hmantissa, Nat.mul_mod_left, if_pos rfl,
      Nat.mul_div_cancel _ (two_pow_pos _)]
    exact congrArg some (Nat.mul_one n)
  · rw [Nat.sub_eq_zero_of_le hle] at h ⊢
    have hone : Nat.pow 2 0 = 1 := rfl
    rw [hone, Nat.mod_one, if_pos rfl, Nat.div_one, ← h, hone,
      Nat.mul_one]

/-- A number of 53 bits is a double, unless it is past the finite ones. -/
theorem Binary64.standsFor_ofNat (h : HasBits 53 n) :
    (Binary64.ofNat n).StandsFor n := by
  by_cases hzero : n = 0
  case pos =>
    rw [hzero]
    exact ⟨fun _ => ⟨0, -1074, by decide +kernel, by decide +kernel⟩,
      fun hle => (not_two_pow_le_zero _ hle).elim⟩
  obtain ⟨mantissa, hlower, hupper, hscaled⟩ := h.exists_mantissa hzero
  have hpattern := ofNat_eq hzero
  rw [hscaled, roundQuotient_mul mantissa (two_pow_pos _)] at hpattern
  rw [hpattern]
  refine ⟨fun hlt => ?_, fun hle => ?_⟩
  · have hlog := (lt_two_pow_iff hzero _).1 hlt
    refine ⟨mantissa, (n.log2 : Int) - 52, ?_, wholeNumber?_eq hscaled⟩
    have hexponent : ((n.log2 + 1022 : Nat) : Int) - 1074
        = (n.log2 : Int) - 52 := by omega
    rw [reading_ofPattern hlower hupper (by omega), hexponent]
  · have hlog := (two_pow_le_iff hzero _).1 hle
    have hmost : 2046 * Nat.pow 2 52 ≤ (n.log2 + 1022) * Nat.pow 2 52 :=
      Nat.mul_le_mul_right _ (by omega)
    rw [ofPattern_of_le (by omega)]
    decide +kernel

-- =========================================================== literals

/-- A radix that a letter announces is a power of two. -/
theorem radix_width {mark : Char} (h : radixOf? mark = some radix) :
    ∃ width, radix = Nat.pow 2 (width + 1) := by
  obtain ⟨form, hin, rfl, -⟩ := RadixForm.radixOf?_iff.1 h
  simp only [RadixForm.all, List.mem_cons, List.not_mem_nil, or_false]
    at hin
  rcases hin with rfl | rfl | rfl
  · exact ⟨3, rfl⟩
  · exact ⟨2, rfl⟩
  · exact ⟨0, rfl⟩

theorem digitValue_lt {ch : Char} (h : isDigitOf radix ch = true) :
    digitValue ch < radix := by
  unfold isDigitOf at h
  unfold digitValue
  cases hvalue : hexValue? ch with
  | none => simp [hvalue] at h
  | some value => simpa [hvalue] using h

/-- A scan that reads a literal reads the digits in front. -/
theorem radixNumeral_value [NameProperties] {c d : Cursor} {t : Token}
    {mark : Char} {rest : List Char} (hc : c.rest = '0' :: mark :: rest)
    (hradix : radixOf? mark = some radix) (h : radixNumeral radix c = .ok t d) :
    ∃ digits, digits ≠ [] ∧ (∀ ch ∈ digits, isDigitOf radix ch = true) ∧
      t.kind = .numeric ∧ t.raw = .ofList ('0' :: mark :: digits) ∧
      t.value
        = .number (.ofRadixDigits radix (digits.map digitValue)) := by
  have hmarks : c.Reads ['0', mark] 0 (c.skip 2) :=
    Cursor.reads_skip hc rfl
  have hread := hmarks.trans
    (Cursor.reads_skipWhile (isDigitOf radix) (c.skip 2))
  obtain ⟨hne, rfl, -, rfl⟩ := (radixNumeral_eq_ok hc hradix).1 h
  refine ⟨radixDigits radix c, hne,
    fun ch hch => List.mem_takeWhile_imp hch, rfl, ?_, rfl⟩
  exact congrArg Token.raw (hread.tokenTo_eq _ _)

/-- The double that a literal carries. It is the number of the digits
rounded once, unless a tie is passed. In any case it is the number up to
the digit that takes it past 53 bits, rounded once, with zeros for the
digits behind. -/
theorem radix_literal_rounded [NameProperties] {r r' : TokenReader} {t : Token}
    {mark : Char} {digits : List Char} (h : r.token = .ok t r')
    (hraw : t.raw = .ofList ('0' :: mark :: digits))
    (hmark : radixOf? mark = some radix) :
    digits ≠ [] ∧ (∀ ch ∈ digits, isDigitOf radix ch = true) ∧
      t.kind = .numeric ∧
      ∃ x carried, t.value = .number x ∧ x.StandsFor carried ∧
        (IsRounded 53 (radixNumber radix (digits.map digitValue))
            carried ↔ ¬PassesTie radix (digits.map digitValue)) ∧
        ∀ head last tail,
          digits.map digitValue = head ++ last :: tail →
          radixNumber radix head < Nat.pow 2 53 →
          Nat.pow 2 53 ≤ radixNumber radix (head ++ [last]) →
          IsRounded 53 (radixNumber radix (head ++ [last])
            * Nat.pow radix tail.length) carried := by
  obtain ⟨htoken, -⟩ := TokenReader.token_cursor h
  obtain ⟨rest, hrest⟩ : ∃ rest,
      r.cursor.rest = '0' :: mark :: rest := by
    rcases Cursor.token_ends htoken with
      ⟨-, -, -, rfl⟩ | ⟨-, word, lines, -, hreads, hword, -⟩
    · have hempty := congrArg String.toList hraw
      rw [String.toList_ofList] at hempty
      cases hempty
    · rw [hraw, String.ofList_inj] at hword
      exact ⟨_, hword ▸ hreads.rest⟩
  rw [token_eq_numeral (startsNumeral_of_digit hrest (by decide)),
    numeralToken_eq_radix hrest hmark] at htoken
  obtain ⟨digits', hne, hall, hkind, hraw', hvalue⟩ :=
    radixNumeral_value hrest hmark htoken
  obtain rfl : digits = digits' := by
    rw [hraw, String.ofList_inj] at hraw'
    exact (List.cons.inj (List.cons.inj hraw').2).2
  obtain ⟨width, hradix⟩ := radix_width hmark
  have hdigits : ∀ digit ∈ digits.map digitValue, digit < radix := by
    simp only [List.mem_map]
    rintro digit ⟨ch, hch, rfl⟩
    exact digitValue_lt (hall ch hch)
  refine ⟨hne, hall, hkind, _, _, hvalue,
    Binary64.standsFor_ofNat (hasBits_roundedEach radix _),
    isRounded_roundedEach hradix hdigits, ?_⟩
  intro head last tail hsplit hhead hlast
  rw [hsplit] at hdigits ⊢
  exact isRounded_split hradix
    (fun digit hdigit => hdigits digit (by simp [hdigit])) hhead hlast

/-- The last digit is the one that takes this number past 53 bits. -/
theorem radix_literal_rounded_octal :
    let source := "x = 0o1000000000000000003;".toList
    let r : TokenReader := ⟨⟨source, ⟨4, 1, 0⟩, 0⟩, ⟨false, []⟩, false⟩
    ∃ t r' x, r.token = .ok t r' ∧ t.value = .number x ∧
      x.StandsFor 0x40000000000004 := by
  intro source r
  let digits := "1000000000000000003".toList
  have hread : r.token = .ok
      ⟨.numeric, .number (.ofRadixDigits 8 (digits.map digitValue)),
        "0o1000000000000000003", ⟨⟨4, 1, 0⟩, ⟨25, 1, 0⟩⟩⟩
      ⟨⟨source, ⟨25, 1, 0⟩, 0⟩, ⟨false, []⟩, false⟩ := by
    decide +kernel
  have hraw : "0o1000000000000000003" = .ofList ('0' :: 'o' :: digits) := by
    decide
  have hmark : radixOf? 'o' = some 8 := by decide
  obtain ⟨-, -, -, x, carried, hvalue, hstands, -, hsplit⟩ :=
    radix_literal_rounded hread hraw hmark
  have hround := hsplit ("100000000000000000".toList.map digitValue) 3 []
    (by decide) (by decide +kernel) (by decide +kernel)
  have hcarried : carried = 0x40000000000004 :=
    (isRounded_iff.1 hround).trans (by decide +kernel)
  exact ⟨_, _, x, hread, hvalue, hcarried ▸ hstands⟩

/-- The last digit but one takes this number to a tie, which the last one
settles. It is lost, though. -/
theorem hex_literal_passes_tie :
    let source := "0x200000000000011".toList
    let r : TokenReader := ⟨⟨source, ⟨0, 1, 0⟩, 0⟩, ⟨false, []⟩, false⟩
    let exact := radixNumber 16 ("200000000000011".toList.map digitValue)
    ∃ t r' x, r.token = .ok t r' ∧ t.raw = "0x200000000000011" ∧
      t.value = .number x ∧ x.StandsFor 0x200000000000000 ∧
      ¬IsRounded 53 exact 0x200000000000000 ∧
      IsRounded 53 exact 0x200000000000020 := by
  intro source r exact
  let digits := "200000000000011".toList.map digitValue
  have hread : r.token = .ok
      ⟨.numeric, .number (.ofRadixDigits 16 digits),
        "0x200000000000011", ⟨⟨0, 1, 0⟩, ⟨17, 1, 0⟩⟩⟩
      ⟨⟨source, ⟨17, 1, 0⟩, 0⟩, ⟨false, []⟩, false⟩ := by
    decide +kernel
  have hcarried : roundedEach 16 digits = 0x200000000000000 := by
    decide +kernel
  have hstands := Binary64.standsFor_ofNat (hasBits_roundedEach 16 digits)
  rw [hcarried] at hstands
  have hround : roundTo53 exact = 0x200000000000020 := by decide +kernel
  refine ⟨_, _, _, hread, rfl, rfl, ?_, ?_, ?_⟩
  · rw [Binary64.ofRadixDigits, ← roundedEach, hcarried]
    exact hstands
  · rw [isRounded_iff, hround]
    decide
  · rw [isRounded_iff, hround]

end ScriptTree
