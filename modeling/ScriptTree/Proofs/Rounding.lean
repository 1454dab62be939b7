/-
Rounding to 53 bits.

# Neighbours

A number that does not fit into 53 bits stands between two that do and
have none between them. What it is rounded to is one of the two
(`Neighbours.isRounded_iff`). They are one apart in the last bit, so just
one of them has that bit to spare, and there is one answer
(`FirstBits.isRounded_iff`).

# More digits

Where a number is known to its first digits only, it can be rounded
nevertheless: the digits that are missing change nothing, unless the known
ones end at a tie, which the others would have settled
(`roundTo53_extend`).
-/
import Mathlib.Data.Nat.Digits.Lemmas
import ScriptTree.Number.Rounding

namespace ScriptTree

variable {n rounded lead exponent low : Nat}

-- ======================================================= 53 bits

theorem two_pow_pos (count : Nat) : 0 < Nat.pow 2 count :=
  Nat.pow_pos (by decide)

theorem two_pow_add (count count' : Nat) :
    Nat.pow 2 (count + count') = Nat.pow 2 count * Nat.pow 2 count' :=
  Nat.pow_add 2 count count'

theorem two_pow_succ (count : Nat) :
    Nat.pow 2 (count + 1) = 2 * Nat.pow 2 count :=
  Nat.pow_succ'

theorem div_of_split {unit : Nat} (h : low < unit) :
    (lead * unit + low) / unit = lead := by
  rw [Nat.add_comm, Nat.add_mul_div_right _ _ (Nat.zero_lt_of_lt h),
    Nat.div_eq_of_lt h, Nat.zero_add]

/-- A small number has few bits. -/
theorem hasBits_of_lt {bits : Nat} (h : n < Nat.pow 2 bits) :
    HasBits bits n :=
  ⟨n, 0, h, (Nat.mul_one n).symm⟩

/-- What is one past the numbers of so many bits still has only one. -/
theorem hasBits_mul {bits mantissa : Nat} (hbits : 0 < bits)
    (h : mantissa ≤ Nat.pow 2 bits) (exponent : Nat) :
    HasBits bits (mantissa * Nat.pow 2 exponent) := by
  obtain hlt | rfl := Nat.lt_or_eq_of_le h
  · exact ⟨mantissa, exponent, hlt, rfl⟩
  · refine ⟨1, bits + exponent, Nat.one_lt_two_pow (by omega), ?_⟩
    rw [two_pow_add, Nat.one_mul]

/-- A large odd number has many bits. -/
theorem not_hasBits_of_odd {bits mantissa : Nat}
    (hodd : mantissa % 2 = 1) (h : Nat.pow 2 bits ≤ mantissa) :
    ¬HasBits bits (mantissa * Nat.pow 2 exponent) := by
  rintro ⟨mantissa', exponent', hlt, hsame⟩
  obtain hmore | hle := Nat.lt_or_ge exponent exponent'
  · obtain ⟨more, rfl⟩ := Nat.exists_eq_add_of_lt hmore
    rw [Nat.add_assoc, Nat.add_comm, two_pow_add, ← Nat.mul_assoc,
      two_pow_succ] at hsame
    have hmantissa :=
      Nat.eq_of_mul_eq_mul_right (two_pow_pos exponent) hsame
    rw [Nat.mul_left_comm] at hmantissa
    omega
  · obtain ⟨more, rfl⟩ := Nat.exists_eq_add_of_le' hle
    rw [two_pow_add, ← Nat.mul_assoc] at hsame
    have hmantissa :=
      Nat.eq_of_mul_eq_mul_right (two_pow_pos exponent') hsame
    have hpos := Nat.le_mul_of_pos_right mantissa (two_pow_pos more)
    omega

/-- Where the last bit counts for one of many, it is there to spare if it
is zero. -/
theorem hasBits_iff_even {bits mantissa : Nat} (hbits : 0 < bits)
    (hlower : Nat.pow 2 bits ≤ mantissa)
    (hupper : mantissa ≤ Nat.pow 2 (bits + 1)) :
    HasBits bits (mantissa * Nat.pow 2 exponent) ↔ mantissa % 2 = 0 := by
  constructor
  · intro h
    obtain heven | hodd := Nat.mod_two_eq_zero_or_one mantissa
    · exact heven
    · exact absurd h (not_hasBits_of_odd hodd hlower)
  · intro heven
    obtain ⟨half, rfl⟩ := Nat.dvd_of_mod_eq_zero heven
    rw [two_pow_succ] at hupper
    rw [Nat.mul_comm 2, Nat.mul_assoc, ← two_pow_succ]
    exact hasBits_mul hbits (by omega) _

-- ==================================================== neighbours

/-- A number of 53 bits or more: the first 53 of them, and what is below
them. -/
structure FirstBits (n lead exponent low : Nat) : Prop where
  lower : Nat.pow 2 52 ≤ lead
  upper : lead < Nat.pow 2 53
  low_lt : low < Nat.pow 2 exponent
  eq : n = lead * Nat.pow 2 exponent + low

/-- Two numbers of 53 bits with none between them, and a number from the
lower one on that does not reach the upper one. -/
structure Neighbours (n lower upper : Nat) : Prop where
  hasBits_lower : HasBits 53 lower
  hasBits_upper : HasBits 53 upper
  le : lower ≤ n
  lt : n < upper
  gap : ∀ other, HasBits 53 other → other ≤ lower ∨ upper ≤ other

/-- One of the neighbours is what the number is rounded to. -/
theorem Neighbours.isRounded_iff {lower upper : Nat}
    (h : Neighbours n lower upper) :
    IsRounded 53 n rounded ↔
      rounded = lower ∧ (n - lower < upper - n ∨
        n - lower = upper - n ∧ HasBits 52 lower) ∨
      rounded = upper ∧ (upper - n < n - lower ∨
        n - lower = upper - n ∧ HasBits 52 upper) := by
  have hle := h.le
  have hlt := h.lt
  constructor
  · intro hround
    have hlower := hround.nearest lower h.hasBits_lower
    have hupper := hround.nearest upper h.hasBits_upper
    unfold Nat.dist at hlower hupper
    rcases h.gap rounded hround.hasBits with hside | hside
    case inl =>
      obtain rfl : rounded = lower := by omega
      refine .inl ⟨rfl, ?_⟩
      obtain htie | hnear : n - rounded = upper - n ∨
          n - rounded < upper - n := by omega
      · refine .inr ⟨htie, hround.even upper h.hasBits_upper ?_ ?_⟩
        · omega
        · unfold Nat.dist
          omega
      · exact .inl hnear
    case inr =>
      obtain rfl : rounded = upper := by omega
      refine .inr ⟨rfl, ?_⟩
      obtain htie | hnear : n - lower = rounded - n ∨
          rounded - n < n - lower := by omega
      · refine .inr ⟨htie, hround.even lower h.hasBits_lower ?_ ?_⟩
        · omega
        · unfold Nat.dist
          omega
      · exact .inl hnear
  · intro hpick
    refine ⟨?_, fun other hother => ?_, fun other hother hne hdist => ?_⟩
    · rcases hpick with ⟨rfl, -⟩ | ⟨rfl, -⟩
      · exact h.hasBits_lower
      · exact h.hasBits_upper
    · have hgap := h.gap other hother
      unfold Nat.dist
      omega
    · have hgap := h.gap other hother
      unfold Nat.dist at hdist
      rcases hpick with ⟨rfl, hnear | ⟨-, heven⟩⟩
        | ⟨rfl, hnear | ⟨-, heven⟩⟩
      case inl.inr | inr.inr => exact heven
      all_goals omega

/-- A number with few bits is rounded to itself only. -/
theorem isRounded_of_hasBits {bits : Nat} (h : HasBits bits n) :
    IsRounded bits n rounded ↔ rounded = n := by
  constructor
  · intro hround
    have hnear := hround.nearest n h
    unfold Nat.dist at hnear
    omega
  · rintro rfl
    refine ⟨h, fun other _ => ?_, fun other _ hne hdist => ?_⟩
    · unfold Nat.dist
      omega
    · unfold Nat.dist at hdist
      omega

namespace FirstBits

/-- Every large number has first bits. -/
theorem exists_of_le (h : Nat.pow 2 52 ≤ n) :
    ∃ lead exponent low, FirstBits n lead exponent low := by
  have hzero : n ≠ 0 := fun hzero => absurd h (by rw [hzero]; decide)
  have hlog : 52 ≤ n.log2 := (Nat.le_log2 hzero).2 h
  obtain ⟨more, hmore⟩ := Nat.exists_eq_add_of_le' hlog
  have hle : Nat.pow 2 (52 + more) ≤ n :=
    Nat.add_comm more 52 ▸ hmore ▸ Nat.log2_self_le hzero
  have hlt : n < Nat.pow 2 (53 + more) := by
    have hnext := @Nat.lt_log2_self n
    rwa [hmore, Nat.add_right_comm, Nat.add_comm more,
      Nat.add_right_comm] at hnext
  rw [two_pow_add] at hle hlt
  exact ⟨n / Nat.pow 2 more, more, n % Nat.pow 2 more,
    (Nat.le_div_iff_mul_le (two_pow_pos more)).2 hle,
    (Nat.div_lt_iff_lt_mul (two_pow_pos more)).2 hlt,
    Nat.mod_lt n (two_pow_pos more), (Nat.div_add_mod' n _).symm⟩

section

variable (h : FirstBits n lead exponent low)

include h

theorem le : Nat.pow 2 (52 + exponent) ≤ n := by
  rw [h.eq, two_pow_add]
  exact Nat.le_add_right_of_le (Nat.mul_le_mul_right _ h.lower)

theorem lt : n < Nat.pow 2 (53 + exponent) := by
  have hnext := Nat.mul_le_mul_right (Nat.pow 2 exponent) h.upper
  have hlow := h.low_lt
  rw [Nat.succ_mul] at hnext
  rw [h.eq, two_pow_add]
  omega

theorem log2_eq : n.log2 = 52 + exponent := by
  have hzero : n ≠ 0 :=
    Nat.ne_of_gt (Nat.lt_of_lt_of_le (two_pow_pos _) h.le)
  have hlt := h.lt
  rw [Nat.add_right_comm 52 1 exponent] at hlt
  exact (Nat.log2_eq_iff hzero).2 ⟨h.le, hlt⟩

/-- A number lies between those with its first bits and with the next. -/
theorem neighbours :
    Neighbours n (lead * Nat.pow 2 exponent)
      ((lead + 1) * Nat.pow 2 exponent) := by
  have hlow := h.low_lt
  have hlower := h.lower
  refine ⟨hasBits_mul (by decide) (Nat.le_of_lt h.upper) exponent,
    hasBits_mul (by decide) h.upper exponent, ?_, ?_, ?_⟩
  · rw [h.eq]
    exact Nat.le_add_right _ _
  · rw [h.eq, Nat.succ_mul]
    omega
  · rintro other ⟨mantissa, exponent', hlt, rfl⟩
    obtain hfine | hcoarse := Nat.lt_or_ge exponent' exponent
    case inr =>
      -- A multiple of the last place.
      obtain ⟨more, rfl⟩ := Nat.exists_eq_add_of_le' hcoarse
      rw [two_pow_add, ← Nat.mul_assoc]
      obtain hside | hside :=
        Nat.lt_or_ge lead (mantissa * Nat.pow 2 more)
      · exact .inr (Nat.mul_le_mul_right _ hside)
      · exact .inl (Nat.mul_le_mul_right _ hside)
    case inl =>
      -- A number too small to reach the first bit.
      obtain ⟨more, rfl⟩ := Nat.exists_eq_add_of_lt hfine
      refine .inl ?_
      calc mantissa * Nat.pow 2 exponent'
        _ ≤ Nat.pow 2 53 * Nat.pow 2 exponent' :=
          Nat.mul_le_mul_right _ (Nat.le_of_lt hlt)
        _ = Nat.pow 2 52 * Nat.pow 2 (exponent' + 1) := by
          rw [← two_pow_add, ← two_pow_add, Nat.add_comm exponent',
            ← Nat.add_assoc]
        _ ≤ lead * Nat.pow 2 (exponent' + more + 1) :=
          Nat.mul_le_mul hlower
            (Nat.pow_le_pow_right (by decide) (by omega))

/-- A number is rounded in units of its last bit that is kept. -/
theorem roundTo53_eq :
    roundTo53 n = roundQuotient n (Nat.pow 2 exponent)
      * Nat.pow 2 exponent := by
  unfold roundTo53
  split
  case isTrue hlt =>
    have hle := Nat.lt_of_le_of_lt h.le hlt
    have hzero : exponent = 0 := by
      have hexponent := (Nat.pow_lt_pow_iff_right (by decide)).1 hle
      omega
    rw [hzero]
    simp [roundQuotient, Nat.mod_one]
  case isFalse =>
    rw [h.log2_eq, Nat.add_sub_cancel_left]

theorem div_eq : n / Nat.pow 2 exponent = lead := by
  rw [h.eq, div_of_split h.low_lt]

theorem mod_eq : n % Nat.pow 2 exponent = low := by
  rw [h.eq, Nat.mul_add_mod_of_lt h.low_lt]

/-- Below the middle a number is rounded down. -/
theorem roundTo53_below (hnear : 2 * low < Nat.pow 2 exponent) :
    roundTo53 n = lead * Nat.pow 2 exponent := by
  rw [h.roundTo53_eq, roundQuotient, h.div_eq, h.mod_eq, if_pos hnear]

/-- Above the middle a number is rounded up. -/
theorem roundTo53_above (hnear : Nat.pow 2 exponent < 2 * low) :
    roundTo53 n = (lead + 1) * Nat.pow 2 exponent := by
  rw [h.roundTo53_eq, roundQuotient, h.div_eq, h.mod_eq,
    if_neg (Nat.lt_asymm hnear), if_pos hnear]

/-- In the middle a number is rounded to an even one. -/
theorem roundTo53_tie (htie : 2 * low = Nat.pow 2 exponent) :
    roundTo53 n = (lead + lead % 2) * Nat.pow 2 exponent := by
  rw [h.roundTo53_eq, roundQuotient, h.div_eq, h.mod_eq, htie,
    if_neg (Nat.lt_irrefl _), if_neg (Nat.lt_irrefl _)]

/-- A number is rounded to the nearest, or of two to the even one. -/
theorem isRounded_iff : IsRounded 53 n rounded ↔ rounded = roundTo53 n := by
  have hlow := h.low_lt
  have hbelow : n - lead * Nat.pow 2 exponent = low := by
    rw [h.eq, Nat.add_sub_cancel_left]
  have habove : (lead + 1) * Nat.pow 2 exponent - n
      = Nat.pow 2 exponent - low := by
    rw [h.eq, Nat.succ_mul, Nat.add_sub_add_left]
  rw [h.neighbours.isRounded_iff, hbelow, habove,
    hasBits_iff_even (by decide) h.lower (Nat.le_of_lt h.upper),
    hasBits_iff_even (by decide) (Nat.le_succ_of_le h.lower) h.upper]
  rcases Nat.lt_trichotomy (2 * low) (Nat.pow 2 exponent)
    with hnear | htie | hnear
  · rw [h.roundTo53_below hnear]
    omega
  · rw [h.roundTo53_tie htie]
    obtain heven | hodd := Nat.mod_two_eq_zero_or_one lead
    · rw [heven, Nat.add_zero lead]
      omega
    · rw [hodd]
      omega
  · rw [h.roundTo53_above hnear]
    omega

end

end FirstBits

/-- A number rounded to 53 bits is what the rule of rounding says, and
nothing else is. -/
theorem isRounded_iff :
    IsRounded 53 n rounded ↔ rounded = roundTo53 n := by
  obtain hlt | hle := Nat.lt_or_ge n (Nat.pow 2 53)
  · rw [isRounded_of_hasBits (hasBits_of_lt hlt), roundTo53, if_pos hlt]
  · obtain ⟨lead, exponent, low, h⟩ :=
      FirstBits.exists_of_le (Nat.le_trans (by decide) hle)
    exact h.isRounded_iff

-- ======================================================= more digits

/-- A number with few bits is left as it is. -/
theorem roundTo53_of_hasBits (h : HasBits 53 n) : roundTo53 n = n :=
  (isRounded_of_hasBits h).1 (isRounded_iff.2 rfl)

/-- A rounded number has few bits. -/
theorem hasBits_roundTo53 (n : Nat) : HasBits 53 (roundTo53 n) :=
  (isRounded_iff.2 rfl).hasBits

/-- Rounding does not go past a number of 53 bits. -/
theorem le_roundTo53 {bound : Nat} (hbound : HasBits 53 bound)
    (h : bound ≤ n) : bound ≤ roundTo53 n := by
  have hnear := (isRounded_iff.2 rfl : IsRounded 53 n _).nearest bound
    hbound
  unfold Nat.dist at hnear
  omega

theorem HalfAboveEven.le (h : HalfAboveEven n) : Nat.pow 2 53 ≤ n := by
  obtain ⟨quarter, exponent, hlower, -, rfl⟩ := h
  have hmantissa : Nat.pow 2 53 ≤ 4 * quarter + 1 :=
    Nat.le_succ_of_le (Nat.mul_le_mul_left 4 hlower)
  exact Nat.le_trans hmantissa
    (Nat.le_mul_of_pos_right _ (two_pow_pos exponent))

namespace FirstBits

/-- A number has its first bits in one way. -/
theorem unique {lead' exponent' low' : Nat}
    (h : FirstBits n lead exponent low)
    (h' : FirstBits n lead' exponent' low') :
    lead = lead' ∧ exponent = exponent' ∧ low = low' := by
  obtain rfl : exponent = exponent' := by
    have hlog := h.log2_eq
    rw [h'.log2_eq] at hlog
    omega
  exact ⟨h.div_eq.symm.trans h'.div_eq, rfl,
    h.mod_eq.symm.trans h'.mod_eq⟩

/-- More digits are more of what is below. -/
theorem extend {count rest : Nat} (h : FirstBits n lead exponent low)
    (hrest : rest < Nat.pow 2 count) :
    FirstBits (n * Nat.pow 2 count + rest) lead (exponent + count)
      (low * Nat.pow 2 count + rest) := by
  have hlow := Nat.mul_le_mul_right (Nat.pow 2 count) h.low_lt
  refine ⟨h.lower, h.upper, ?_, ?_⟩
  · rw [two_pow_add]
    rw [Nat.succ_mul] at hlow
    omega
  · rw [h.eq, two_pow_add, Nat.add_mul, Nat.mul_assoc, Nat.add_assoc]

theorem exists_succ_of_le (h : Nat.pow 2 53 ≤ n) :
    ∃ lead exponent low, FirstBits n lead (exponent + 1) low := by
  obtain ⟨lead, exponent, low, hfirst⟩ :=
    exists_of_le (Nat.le_trans (by decide) h)
  cases exponent with
  | zero =>
      have hlow := hfirst.lt
      rw [Nat.add_zero] at hlow
      exact absurd h (Nat.not_le.2 hlow)
  | succ exponent => exact ⟨lead, exponent, low, hfirst⟩

theorem low_eq_zero (h : FirstBits n lead exponent low)
    (hbits : HasBits 53 n) : low = 0 := by
  have hgap := h.neighbours.gap n hbits
  have hlt := h.neighbours.lt
  have heq := h.eq
  omega

/-- Whether a number lies in the middle is told by its bits. -/
theorem halfAboveEven_iff (h : FirstBits n lead (exponent + 1) low) :
    HalfAboveEven n ↔ lead % 2 = 0 ∧ low = Nat.pow 2 exponent := by
  constructor
  · rintro ⟨quarter, exponent', hlower, hupper, heq⟩
    have hfirst :
        FirstBits n (2 * quarter) (exponent' + 1) (Nat.pow 2 exponent') := by
      refine ⟨Nat.mul_le_mul_left 2 hlower,
        Nat.mul_lt_mul_of_pos_left hupper (by decide), ?_, ?_⟩
      · rw [two_pow_succ]
        have hpos := two_pow_pos exponent'
        omega
      · rw [heq, two_pow_succ]
        ring
    obtain ⟨rfl, hexponent, rfl⟩ := h.unique hfirst
    exact ⟨Nat.mul_mod_right 2 quarter, by
      rw [Nat.succ.inj hexponent]⟩
  · rintro ⟨heven, rfl⟩
    obtain ⟨quarter, rfl⟩ := Nat.dvd_of_mod_eq_zero heven
    have hlower : 2 * Nat.pow 2 51 ≤ 2 * quarter := h.lower
    have hupper : 2 * quarter < 2 * Nat.pow 2 52 := h.upper
    refine ⟨quarter, exponent, by omega, by omega, ?_⟩
    rw [h.eq, two_pow_succ]
    ring

end FirstBits

/-- Rounding once and with fewer digits is the same, except where the
digits that are missing settle a tie. -/
theorem roundTo53_extend {count rest : Nat} (h : Nat.pow 2 53 ≤ n)
    (hrest : rest < Nat.pow 2 count) :
    roundTo53 n * Nat.pow 2 count
        = roundTo53 (n * Nat.pow 2 count + rest) ↔
      ¬(HalfAboveEven n ∧ rest ≠ 0) := by
  obtain ⟨lead, exponent, low, hfirst⟩ := FirstBits.exists_succ_of_le h
  have hmore := hfirst.extend hrest
  have hunit : Nat.pow 2 (exponent + 1 + count)
      = 2 * (Nat.pow 2 exponent * Nat.pow 2 count) := by
    rw [two_pow_add, two_pow_succ, Nat.mul_assoc]
  have hpos := two_pow_pos (exponent + 1 + count)
  rw [hfirst.halfAboveEven_iff]
  rcases Nat.lt_trichotomy low (Nat.pow 2 exponent)
    with hnear | rfl | hnear
  case inl =>
    have hmuch := Nat.mul_le_mul_right (Nat.pow 2 count) hnear
    rw [Nat.succ_mul] at hmuch
    rw [hfirst.roundTo53_below (by rw [two_pow_succ]; omega),
      hmore.roundTo53_below (by rw [hunit]; omega), Nat.mul_assoc,
      ← two_pow_add]
    exact iff_of_true rfl fun hsettled => by omega
  case inr.inr =>
    have hmuch := Nat.mul_le_mul_right (Nat.pow 2 count) hnear
    rw [Nat.succ_mul] at hmuch
    rw [hfirst.roundTo53_above (by rw [two_pow_succ]; omega),
      hmore.roundTo53_above (by rw [hunit]; omega), Nat.mul_assoc,
      ← two_pow_add]
    exact iff_of_true rfl fun hsettled => by omega
  case inr.inl =>
    rw [hfirst.roundTo53_tie (two_pow_succ exponent).symm, Nat.mul_assoc,
      ← two_pow_add]
    obtain rfl | hsettles := Nat.eq_zero_or_pos rest
    · rw [hmore.roundTo53_tie hunit.symm]
      exact iff_of_true rfl fun hsettled => hsettled.2 rfl
    · rw [hmore.roundTo53_above (by rw [hunit]; omega),
        Nat.mul_left_inj (Nat.ne_of_gt hpos)]
      omega

end ScriptTree
