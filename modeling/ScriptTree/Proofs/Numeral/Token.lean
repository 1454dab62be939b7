/-
Which numeral stands in front of a text, and what spoils it.

# Radices

A letter after a zero in front may announce a radix. With digits of that
radix after it the numeral is theirs, as no decimal numeral goes beyond
the zero then (`takes_zero`). Without them the zero is the numeral, and
the letter spoils it. Where no radix is announced the numeral is a decimal
one.

# Digits that spoil

The scan of a radix stops at any decimal digit that it does not take. Only
octal and binary numerals can meet one, for decimal digits are hexadecimal
ones as well.
-/
import ScriptTree.Proofs.Numeral
import ScriptTree.Proofs.Reading
import ScriptTree.Source.NameRanges

namespace ScriptTree

open NumeralGrammar

variable {c : Cursor} {mark ch : Char} {front rest text other : List Char}

-- ============================================================== radices

/-- A radix as the grammar has it. -/
structure RadixForm where
  radix : Nat
  marks : String
  digits : String
  deriving DecidableEq

variable {form : RadixForm}

namespace RadixForm

/-- The numerals of a form. -/
def grammar (form : RadixForm) : RegularExpression Char :=
  announced form.marks form.digits

/-- The three forms. -/
def all : List RadixForm :=
  [⟨16, "xX", "0123456789abcdefABCDEF"⟩, ⟨8, "oO", "01234567"⟩,
    ⟨2, "bB", "01"⟩]

theorem isDigitOf_iff (h : form ∈ all) :
    isDigitOf form.radix ch = true ↔ ch ∈ form.digits.toList := by
  have hforms : ∀ form ∈ all,
      form.digits.toList.all (isDigitOf form.radix) = true ∧
      ∀ code : Fin 128, isDigitOf form.radix (.ofNat code) = true →
        Char.ofNat code ∈ form.digits.toList := by
    decide
  exact ascii_iff isDigitOf_low (hforms form h).1 (hforms form h).2

theorem radixOf?_iff {radix : Nat} :
    radixOf? ch = some radix ↔
      ∃ form ∈ all, form.radix = radix ∧ ch ∈ form.marks.toList := by
  have hforms : ∀ form ∈ all, form.marks.toList.all
      (fun ch => radixOf? ch = some form.radix) = true := by
    decide
  constructor
  · intro h
    unfold radixOf? at h
    by_cases hx : (ch = 'x' || ch = 'X') = true
    · rw [if_pos hx] at h
      cases h
      exact ⟨_, List.mem_cons_self, rfl, by simpa using hx⟩
    by_cases ho : (ch = 'o' || ch = 'O') = true
    · rw [if_neg hx, if_pos ho] at h
      cases h
      exact ⟨_, List.mem_cons_of_mem _ List.mem_cons_self, rfl,
        by simpa using ho⟩
    by_cases hb : (ch = 'b' || ch = 'B') = true
    · rw [if_neg hx, if_neg ho, if_pos hb] at h
      cases h
      exact ⟨⟨2, "bB", "01"⟩, by decide, rfl, by simpa using hb⟩
    · rw [if_neg hx, if_neg ho, if_neg hb] at h
      cases h
  · rintro ⟨form, hin, rfl, hch⟩
    exact List.all_iff_forall_prop.1 (hforms form hin) ch hch

/-- What a text of a radix looks like. -/
theorem mem_grammar :
    other ∈ form.grammar.matches' ↔ ∃ mark digits,
      other = '0' :: mark :: digits ∧ mark ∈ form.marks.toList ∧
      digits ≠ [] ∧ ∀ ch ∈ digits, ch ∈ form.digits.toList := by
  unfold grammar announced
  rw [RegularExpression.matches'_mul, Language.mem_mul]
  constructor
  · rintro ⟨zero, hzero, later, hlater, rfl⟩
    rw [RegularExpression.matches'_mul, Language.mem_mul] at hlater
    obtain ⟨second, hsecond, digits, hdigits, rfl⟩ := hlater
    obtain ⟨ch, hch, rfl⟩ := mem_oneOf.1 hzero
    obtain ⟨mark, hmark, rfl⟩ := mem_oneOf.1 hsecond
    rw [show "0".toList = ['0'] from rfl, List.mem_singleton] at hch
    subst hch
    exact ⟨mark, digits, rfl, hmark, mem_oneOrMore_oneOf.1 hdigits⟩
  · rintro ⟨mark, digits, rfl, hmark, hdigits⟩
    refine ⟨['0'], mem_oneOf.2 ⟨'0', by decide, rfl⟩,
      mark :: digits, ?_, rfl⟩
    rw [RegularExpression.matches'_mul, Language.mem_mul]
    exact ⟨[mark], mem_oneOf.2 ⟨mark, hmark, rfl⟩, digits,
      mem_oneOrMore_oneOf.2 hdigits, rfl⟩

/-- A text in front that is of a radix goes no further than the digits
after its mark. -/
theorem front_le (hin : form ∈ all)
    (hother : other ∈ form.grammar.matches') (hstart : other <+: text) :
    ∃ mark rest, text = '0' :: mark :: rest ∧
      radixOf? mark = some form.radix ∧
      rest.takeWhile (isDigitOf form.radix) ≠ [] ∧
      other.length
        ≤ 2 + (rest.takeWhile (isDigitOf form.radix)).length := by
  obtain ⟨mark, digits, rfl, hmark, hne, hdigits⟩ := mem_grammar.1 hother
  obtain ⟨after, rfl⟩ := hstart
  have hrun : (digits ++ after).takeWhile (isDigitOf form.radix)
      = digits ++ after.takeWhile (isDigitOf form.radix) :=
    List.takeWhile_append_of_pos fun ch hch =>
      (isDigitOf_iff hin).2 (hdigits ch hch)
  refine ⟨mark, digits ++ after, rfl,
    radixOf?_iff.2 ⟨form, hin, rfl, hmark⟩, ?_, ?_⟩
  · rw [hrun]
    exact List.append_ne_nil_of_left_ne_nil hne _
  · rw [hrun, List.length_cons, List.length_cons, List.length_append]
    omega

end RadixForm

theorem mem_numeral :
    other ∈ numeral.matches' ↔
      (∃ form ∈ RadixForm.all, other ∈ form.grammar.matches') ∨
        other ∈ decimal.matches' := by
  have hforms : numeral.matches'
      = (⟨16, "xX", "0123456789abcdefABCDEF"⟩ : RadixForm).grammar.matches'
        + (⟨8, "oO", "01234567"⟩ : RadixForm).grammar.matches'
        + (⟨2, "bB", "01"⟩ : RadixForm).grammar.matches'
        + decimal.matches' := rfl
  rw [hforms, Language.mem_add, Language.mem_add, Language.mem_add]
  simp only [RadixForm.all, List.mem_cons, List.not_mem_nil, or_false,
    exists_eq_or_imp, exists_eq_left, or_assoc]

namespace RadixForm

theorem mark_facts (hin : form ∈ all) (hmark : mark ∈ form.marks.toList) :
    mark.isAlpha = true ∧ isDecimalDigit mark = false ∧ mark ≠ '.' ∧
      mark ∉ "eE".toList := by
  have hall : ∀ form ∈ all, form.marks.toList.all (fun mark =>
      mark.isAlpha = true ∧ isDecimalDigit mark = false ∧
        mark ≠ '.' ∧ mark ∉ "eE".toList) = true := by
    decide +kernel
  exact List.all_iff_forall_prop.1 (hall form hin) mark hmark

end RadixForm

/-- In front of the letter of a radix, the zero is all of the decimal
numeral. -/
theorem takes_zero (hin : form ∈ RadixForm.all)
    (hmark : mark ∈ form.marks.toList) (rest : List Char) :
    Takes decimal (fun _ => False) ['0'] (mark :: rest) := by
  obtain ⟨-, hdigit, hpoint, hletter⟩ := RadixForm.mark_facts hin hmark
  have hrun : ('0' :: mark :: rest).takeWhile isDecimalDigit = ['0'] := by
    rw [List.takeWhile_cons_of_pos (by decide),
      List.takeWhile_cons_of_neg (by simp [hdigit])]
  have hrest : ('0' :: mark :: rest).dropWhile isDecimalDigit
      = mark :: rest := by
    rw [List.dropWhile_cons_of_pos (by decide),
      List.dropWhile_cons_of_neg (by simp [hdigit])]
  have hfraction : TakesNone NumeralGrammar.fraction (mark :: rest) :=
    takesNone_oneOf_mul fun ch hhead hin => by
      cases hhead
      exact hpoint (mem_point hin)
  have hexponent : TakesNone NumeralGrammar.exponent (mark :: rest) :=
    takesNone_oneOf_mul fun ch hhead hin => by
      cases hhead
      exact hletter hin
  have hfirst : ('0' :: mark :: rest).takeWhile isDecimalDigit ≠ [] := by
    rw [hrun]
    exact List.cons_ne_nil _ _
  have hmantissa := takes_whole_fraction hfirst
    (hrest.trans (List.nil_append _).symm)
    ((takes_one _ _).add_right hfraction)
  rw [hrun] at hmantissa
  exact hmantissa.append ((takes_one _ _).add_right hexponent)
    startsIn_oneOf_mul.possible fun _ => False.elim

-- ============================================================= numerals

/-- Where no radix is announced with a digit of it, the numeral is a
decimal one. -/
theorem isLongest_of_decimal {follow : Char → Prop}
    (h : Takes decimal follow front rest)
    (hnone : ∀ mark later radix, front ++ rest = '0' :: mark :: later →
      radixOf? mark = some radix →
      later.takeWhile (isDigitOf radix) = []) :
    IsLongest numeral.matches' front (front ++ rest) ∧
      front ∉ (octal + binary).matches' := by
  have hradix : ∀ form ∈ RadixForm.all,
      TakesNone form.grammar (front ++ rest) := by
    intro form hin other hother hstart
    obtain ⟨mark, later, htext, hmark, hdigits, -⟩ :=
      RadixForm.front_le hin hother hstart
    exact hdigits (hnone mark later _ htext hmark)
  refine ⟨⟨mem_numeral.2 (.inr h.mem), List.prefix_append _ _, ?_⟩, ?_⟩
  · intro other hother hstart
    rcases mem_numeral.1 hother with ⟨form, hin, hother⟩ | hother
    · exact absurd hstart (hradix form hin other hother)
    · exact h.longest other hother hstart
  · have hfront := List.prefix_append front rest
    rintro (hoctal | hbinary)
    · exact hradix ⟨8, "oO", "01234567"⟩ (by decide) front hoctal hfront
    · exact hradix ⟨2, "bB", "01"⟩ (by decide) front hbinary hfront

/-- Where a radix is announced with digits of it, the numeral is theirs. -/
theorem isLongest_of_radix (hin : form ∈ RadixForm.all)
    (hmark : mark ∈ form.marks.toList)
    (hdigits : rest.takeWhile (isDigitOf form.radix) ≠ []) :
    IsLongest numeral.matches'
        ('0' :: mark :: rest.takeWhile (isDigitOf form.radix))
        ('0' :: mark :: rest) ∧
      '0' :: mark :: rest.takeWhile (isDigitOf form.radix)
        ∈ form.grammar.matches' ∧
      '0' :: mark :: rest.takeWhile (isDigitOf form.radix)
        ∉ decimal.matches' := by
  have hzero := takes_zero hin hmark rest
  have hmem : '0' :: mark :: rest.takeWhile (isDigitOf form.radix)
      ∈ form.grammar.matches' :=
    RadixForm.mem_grammar.2 ⟨mark, _, rfl, hmark, hdigits, fun ch hch =>
      (RadixForm.isDigitOf_iff hin).1 (List.mem_takeWhile_imp hch)⟩
  have hstart : '0' :: mark :: rest.takeWhile (isDigitOf form.radix)
      <+: '0' :: mark :: rest := by
    simp [List.cons_prefix_cons, List.takeWhile_prefix]
  refine ⟨⟨mem_numeral.2 (.inl ⟨form, hin, hmem⟩), hstart, ?_⟩, hmem, ?_⟩
  · intro other hother hother'
    rw [List.length_cons, List.length_cons]
    rcases mem_numeral.1 hother with ⟨form', hin', hother⟩ | hother
    · obtain ⟨mark', later, htext, hmark', -, hle⟩ :=
        RadixForm.front_le hin' hother hother'
      cases htext
      have hsame : form'.radix = form.radix := by
        have hradix := RadixForm.radixOf?_iff.2 ⟨form, hin, rfl, hmark⟩
        rw [hmark'] at hradix
        exact Option.some.inj hradix
      rw [hsame] at hle
      omega
    · have hle := hzero.longest other hother hother'
      rw [List.length_singleton] at hle
      omega
  · intro hdecimal
    have hle := hzero.longest _ hdecimal hstart
    rw [List.length_cons, List.length_cons, List.length_singleton] at hle
    omega

-- ============================================================== scans

/-- What a scan of a radix stops at spoils the numeral. Where decimal
digits are digits of the radix it stops at none. -/
theorem spoiled_of_radix [NameProperties] (hin : form ∈ RadixForm.all)
    (hfront : front ∈ form.grammar.matches') :
    (rest.dropWhile (isDigitOf form.radix)).head?.any
        (fun ch => isNameStart ch || isDecimalDigit ch) = true ↔
      Spoiled front (rest.dropWhile (isDigitOf form.radix)) := by
  constructor
  · intro h
    obtain ⟨ch, hhead, hch⟩ := (Option.any_eq_true _ _).1 h
    refine ⟨ch, hhead, ?_⟩
    rcases Bool.or_eq_true_iff.1 hch with hname | hdigit
    · exact .inl hname
    · right
      refine ⟨hdigit, ?_⟩
      simp only [RadixForm.all, List.mem_cons, List.not_mem_nil,
        or_false] at hin
      rcases hin with rfl | rfl | rfl
      · have hstop := dropWhile_head_any (isDigitOf 16) rest
        have hhex : isDigitOf 16 ch = true := by
          have hall : "0123456789".toList.all (isDigitOf 16) = true := by
            decide
          exact List.all_eq_true.1 hall ch (isDecimalDigit_iff.1 hdigit)
        rw [Option.mem_def.1 hhead, Option.any_some, hhex] at hstop
        cases hstop
      · exact .inl hfront
      · exact .inr hfront
  · rintro ⟨ch, hhead, hch⟩
    rw [Option.mem_def.1 hhead, Option.any_some, Bool.or_eq_true]
    exact hch.imp_right And.left

/-- A numeral with a radix is read as far as its digits go. -/
theorem radixNumeral_reads [NameProperties] (hin : form ∈ RadixForm.all)
    (hmark : mark ∈ form.marks.toList) (hc : c.rest = '0' :: mark :: rest)
    (hdigits : rest.takeWhile (isDigitOf form.radix) ≠ []) :
    Scan.ReadsNumeral (radixNumeral form.radix) c
      ('0' :: mark :: rest.takeWhile (isDigitOf form.radix))
      (Spoiled ('0' :: mark :: rest.takeWhile (isDigitOf form.radix))
        (rest.dropWhile (isDigitOf form.radix))) := by
  obtain ⟨-, hmem, hother⟩ := isLongest_of_radix hin hmark hdigits
  have hmarks : c.Reads ['0', mark] 0 (c.skip 2) :=
    Cursor.reads_skip hc rfl
  have hnext := hmarks.rest_eq hc
  have hall := hmarks.trans
    (Cursor.reads_skipWhile (isDigitOf form.radix) (c.skip 2))
  have hspoiled := @spoiled_of_radix _ rest form _ hin hmem
  have hrun : radixDigits form.radix c
      = rest.takeWhile (isDigitOf form.radix) :=
    congrArg (List.takeWhile _) hnext
  have hpeek : (afterRadixDigits form.radix c).peek
      = (rest.dropWhile (isDigitOf form.radix)).head? := by
    rw [← hnext, Cursor.peek, afterRadixDigits, Cursor.skipWhile_rest]
  have hradix : radixOf? mark = some form.radix :=
    RadixForm.radixOf?_iff.2 ⟨form, hin, rfl, hmark⟩
  rw [hnext] at hall
  constructor
  · intro h
    refine ⟨_, (radixNumeral_eq_error hc hradix).2 ⟨.inr ?_, rfl, rfl⟩⟩
    rw [hpeek]
    exact hspoiled.2 h
  · intro h
    refine ⟨Binary64.ofRadixDigits form.radix
        ((rest.takeWhile (isDigitOf form.radix)).map digitValue),
      afterRadixDigits form.radix c, ?_, hall,
      fun hdecimal => absurd hdecimal hother⟩
    have hplain : (afterRadixDigits form.radix c).peek.any
        (fun ch => isNameStart ch || isDecimalDigit ch) = false := by
      rw [hpeek, Bool.eq_false_iff]
      exact mt hspoiled.1 h
    rw [(radixNumeral_eq_ok hc hradix).2 ⟨hrun ▸ hdigits, rfl, hplain, rfl⟩,
      hrun]
    exact congrArg (EStateM.Result.ok · _) (hall.tokenTo_eq _ _)

/-- Where no digit of an announced radix is there, the scan fails. -/
theorem radixNumeral_fails [NameProperties] {radix : Nat}
    (hc : c.rest = '0' :: mark :: rest) (hradix : radixOf? mark = some radix)
    (hnone : rest.takeWhile (isDigitOf radix) = []) :
    ∃ stop, radixNumeral radix c
      = .error (stop.position.diagnose .illegalToken) stop := by
  have hmarks : c.Reads ['0', mark] 0 (c.skip 2) :=
    Cursor.reads_skip hc rfl
  have hempty : radixDigits radix c = [] := by
    rw [radixDigits, hmarks.rest_eq hc, hnone]
  exact ⟨_, (radixNumeral_eq_error hc hradix).2 ⟨.inl hempty, rfl, rfl⟩⟩

/-- A scan reads the longest text of the grammar that stands in front,
unless it is spoiled. -/
def Scan.ReadsLongest [NameProperties] (p : Scan Token) (c : Cursor) : Prop :=
  ∃ front after, c.rest = front ++ after ∧
    IsLongest numeral.matches' front c.rest ∧
    p.ReadsNumeral c front (Spoiled front after)

/-- Where a radix is announced, the numeral is in that radix, or a zero
that the mark spoils. -/
theorem radixNumeral_longest [NameProperties] {radix : Nat}
    (hc : c.rest = '0' :: mark :: rest)
    (hmark : radixOf? mark = some radix) :
    (radixNumeral radix).ReadsLongest c := by
  obtain ⟨form, hin, rfl, hmarks⟩ := RadixForm.radixOf?_iff.1 hmark
  by_cases hdigits : rest.takeWhile (isDigitOf form.radix) = []
  · obtain ⟨halpha, -⟩ := RadixForm.mark_facts hin hmarks
    have hname := isNameStart_of_isAlpha halpha
    obtain ⟨hlongest, -⟩ := isLongest_of_decimal
      (takes_zero hin hmarks rest) fun mark' later radix htext hmark' => by
        cases htext
        rw [hmark] at hmark'
        rw [← Option.some.inj hmark']
        exact hdigits
    have hspoiled : Spoiled ['0'] (mark :: rest) :=
      ⟨mark, rfl, .inl hname⟩
    exact ⟨['0'], mark :: rest, hc, hc ▸ hlongest,
      fun _ => radixNumeral_fails hc hmark hdigits,
      fun hplain => absurd hspoiled hplain⟩
  · obtain ⟨hlongest, -⟩ := isLongest_of_radix hin hmarks hdigits
    refine ⟨_, _, ?_, hc ▸ hlongest,
      radixNumeral_reads hin hmarks hc hdigits⟩
    rw [List.cons_append, List.cons_append,
      List.takeWhile_append_dropWhile]
    exact hc

/-- Where no radix is announced, the numeral is a decimal one. -/
theorem decimalNumeral_longest [NameProperties]
    (hstart : c.startsNumeral = true)
    (hdecimal : ∀ mark later radix, c.rest = '0' :: mark :: later →
      radixOf? mark ≠ some radix) :
    decimalNumeral.ReadsLongest c := by
  obtain ⟨front, after, hc, htakes, hreads⟩ :=
    decimalNumeral_grammar hstart
  obtain ⟨hlongest, hradixes⟩ := isLongest_of_decimal htakes
    fun mark later radix htext hmark =>
      absurd hmark (hdecimal mark later radix (hc.trans htext))
  have hspoiled : Spoiled front after ↔
      ∃ ch ∈ after.head?, isNameStart ch = true := by
    constructor
    · rintro ⟨ch, hhead, hname | ⟨-, hin⟩⟩
      · exact ⟨ch, hhead, hname⟩
      · exact absurd hin hradixes
    · rintro ⟨ch, hhead, hname⟩
      exact ⟨ch, hhead, .inl hname⟩
  exact ⟨front, after, hc, hc ▸ hlongest,
    fun h => hreads.fails (hspoiled.1 h),
    fun h => hreads.gives (mt hspoiled.2 h)⟩

theorem numeralToken_longest [NameProperties]
    (hstart : c.startsNumeral = true) : numeralToken.ReadsLongest c := by
  have hscan {p : Scan Token} (hsame : numeralToken c = p c)
      (h : p.ReadsLongest c) : numeralToken.ReadsLongest c := by
    obtain ⟨front, after, hc, hlongest, hreads⟩ := h
    exact ⟨front, after, hc, hlongest, hsame ▸ hreads.fails,
      hsame ▸ hreads.gives⟩
  rcases numeralToken_cases c with
    ⟨mark, later, radix, hc, hmark, hsame⟩ | ⟨hdecimal, hsame⟩
  · exact hscan hsame (radixNumeral_longest hc hmark)
  · apply hscan hsame (decimalNumeral_longest hstart _)
    intro mark later radix hc
    rw [hdecimal mark later hc]
    rintro ⟨⟩

-- ============================================================ readers

/-- What starts a numeral starts nothing else. -/
theorem token_eq_numeral [NameProperties] (hstart : c.startsNumeral = true) :
    Cursor.token c = numeralToken c := by
  have hfirst : ∀ ch ∈ ".0123456789".toList, ch.toNat < 128 ∧
      (ch = '$' || ch = '_' || ch = '\\' || ch.isAlpha) = false ∧
      ¬(ch = '\'' ∨ ch = '"') :=
    List.all_iff_forall_prop.1 (by decide +kernel)
  obtain ⟨ch, rest, hrest, hch⟩ : ∃ ch rest, c.rest = ch :: rest ∧
      ch ∈ ".0123456789".toList := by
    rcases startsNumeral_cases hstart with
      ⟨ch, rest, hrest, hdigit⟩ | ⟨ch, rest, hrest, -⟩
    · exact ⟨ch, rest, hrest,
        List.mem_cons_of_mem '.' (isDecimalDigit_iff.1 hdigit)⟩
    · exact ⟨'.', ch :: rest, hrest, List.mem_cons_self⟩
  obtain ⟨hascii, hname, hquote⟩ := hfirst ch hch
  rw [← isNameStart_ascii hascii] at hname
  exact Cursor.token_of_numeral hrest hname hquote hstart

/-- At a digit, or at a point in front of one, a reader comes to the
longest numeral of the grammar. Unless the next character spoils it, that
is a token, and ends there; its number is what a decimal text denotes,
which is always a number. Otherwise no token is there. -/
theorem numeral_read_by_grammar [NameProperties] {r : TokenReader}
    (hdigit : isDecimalDigit ch = true)
    (hrest : r.cursor.rest = ch :: rest ∨
      r.cursor.rest = '.' :: ch :: rest) :
    ∃ front after, r.cursor.rest = front ++ after ∧
      IsLongest numeral.matches' front r.cursor.rest ∧
      (¬Spoiled front after → ∃ t x stop,
        r.token = .ok t { r with cursor := stop } ∧
        t.kind = .numeric ∧ t.value = .number x ∧
        t.raw = .ofList front ∧ t.span.start = r.cursor.position ∧
        t.span.stop.offset
          = r.cursor.position.offset + byteLength front ∧
        stop.rest = after ∧
        (front ∈ decimal.matches' →
          Binary64.ofDecimalText? front = some x)) ∧
      (Spoiled front after → ∃ d stop, r.token = .error d stop ∧
        d.description = "Unexpected token ILLEGAL") := by
  have hstart : r.cursor.startsNumeral = true := by
    rcases hrest with hrest | hrest
    · exact startsNumeral_of_digit hrest hdigit
    · exact startsNumeral_of_point hrest hdigit
  obtain ⟨front, after, htext, hlongest, hreads⟩ :=
    numeralToken_longest hstart
  have hscan := token_eq_numeral hstart
  refine ⟨front, after, htext, hlongest, ?_, ?_⟩
  · intro hplain
    obtain ⟨x, stop, hok, hread, hnumber⟩ := hreads.gives hplain
    have haccept (t : Token) (hkind : t.kind = .numeric) :
        r.log.accept t = .ok r.log :=
      Parse.accept_ok.2 (by
        simp [Token.isEscapedReserved, hkind, TokenKind.isReserved])
    exact ⟨_, x, stop, TokenReader.token_eq_ok.2
        ⟨stop, r.log, hscan.trans hok, haccept _ rfl, rfl⟩,
      rfl, rfl, rfl, rfl, hread.offset, hread.rest_eq htext, hnumber⟩
  · intro hspoiled
    obtain ⟨stop, herror⟩ := hreads.fails hspoiled
    exact ⟨_, _, TokenReader.token_eq_error.2
      (.inl ⟨stop, hscan.trans herror, rfl⟩), rfl⟩

/-- A number with an empty fraction and an exponent in front of a point,
and a binary number that another digit spoils. -/
theorem numeral_read_by_grammar_spoiled :
    let r : TokenReader :=
      ⟨⟨"for(1.e1.x".toList, ⟨4, 1, 0⟩, 0⟩, ⟨false, []⟩, false⟩
    let r' : TokenReader :=
      ⟨⟨"for(0b102".toList, ⟨4, 1, 0⟩, 0⟩, ⟨true, []⟩, false⟩
    (IsLongest numeral.matches' "1.e1".toList r.cursor.rest ∧
      ∃ t stop, r.token = .ok t stop ∧ t.raw = "1.e1" ∧
        t.value = .number (.ofDecimal 1 1)) ∧
    ∃ front after, r'.cursor.rest = front ++ after ∧
      IsLongest numeral.matches' front r'.cursor.rest ∧
      Spoiled front after ∧ ∃ d stop, r'.token = .error d stop ∧
        d.description = "Unexpected token ILLEGAL" := by
  intro r r'
  constructor
  · have hread : r.token = .ok
        ⟨.numeric, .number (.ofDecimal 1 1), "1.e1",
          ⟨⟨4, 1, 0⟩, ⟨8, 1, 0⟩⟩⟩
        ⟨⟨"for(1.e1.x".toList, ⟨8, 1, 0⟩, 0⟩, ⟨false, []⟩, false⟩ := by
      decide +kernel
    have hrest : r.cursor.rest = '1' :: ".e1.x".toList := by decide +kernel
    have hdigit : isDecimalDigit '1' = true := by decide
    obtain ⟨front, after, -, hlongest, hgives, hfails⟩ :=
      numeral_read_by_grammar (r := r) hdigit (.inl hrest)
    have hplain : ¬Spoiled front after := by
      intro hspoiled
      obtain ⟨d, stop, herror, -⟩ := hfails hspoiled
      rw [hread] at herror
      cases herror
    obtain ⟨t, x, stop, hok, -, -, hraw, -⟩ := hgives hplain
    rw [hread] at hok
    cases hok
    have hfront : front = "1.e1".toList := by
      rw [← String.toList_ofList (l := front), ← hraw]
    exact ⟨hfront ▸ hlongest, _, _, hread, rfl, rfl⟩
  · have herror : r'.token = .error ⟨8, 1, 9, .illegalToken⟩
        ⟨⟨"for(0b102".toList, ⟨8, 1, 0⟩, 0⟩, ⟨true, []⟩, false⟩ := by
      decide +kernel
    have hrest : r'.cursor.rest = '0' :: "b102".toList := by decide +kernel
    have hdigit : isDecimalDigit '0' = true := by decide
    obtain ⟨front, after, htext, hlongest, hgives, hfails⟩ :=
      numeral_read_by_grammar (r := r') hdigit (.inl hrest)
    have hspoiled : Spoiled front after := by
      by_contra hplain
      obtain ⟨t, x, stop', hok, -⟩ := hgives hplain
      rw [herror] at hok
      cases hok
    exact ⟨front, after, htext, hlongest, hspoiled, hfails hspoiled⟩

end ScriptTree
