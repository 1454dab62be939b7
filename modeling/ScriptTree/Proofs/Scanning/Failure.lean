/-
Where a scan that fails has stopped.

# Where lines are right

What a failure says is said of the place where the scan has stopped. Most
scans stop at a place that they have walked to, and there the lines that
the cursor has counted are those of the text.

# Where they are not

The one exception is an escape in braces. It takes the character after
its digits whatever that is, and a line terminator there is taken without
the line being counted (`Cursor.Cuts`). So a scan stops where it has
walked to, or behind a line terminator that cuts such an escape off
(`failsAt_token`).

# Straying

In any case the cursor has gone on character by character
(`Cursor.Strays`): it is between two characters, and its line starts
between two characters before it. What a failure says is said of the place
where the cursor is left, so the column that it gives is counted from a
line start before it.
-/
import ScriptTree.Proofs.Scanning.Walk

namespace ScriptTree

variable {c c' : Cursor} {ch : Char} {front rest : List Char}
  {d : Diagnostic}

-- ============================================================ places

/-- Two steps within a line are one. -/
theorem Position.advance_advance (p : Position) (m n : Nat) :
    (p.advance m).advance n = p.advance (m + n) := by
  simp only [advance, Nat.add_assoc]

namespace Cursor

theorem advance_position (hrest : c.rest = ch :: rest) :
    c.advance.position = c.position.advance ch.utf8Size := by
  rw [advance_eq hrest]
  rfl

/-- What is said behind a line terminator that cuts off the escape which
starts with `front`, counted as though the line went on. -/
def Cuts (front : List Char) (c : Cursor) (d : Diagnostic) : Prop :=
  ∃ digits ch rest, c.rest = front ++ digits ++ ch :: rest ∧
    digits.all isHexDigit = true ∧ isLineTerminator ch = true ∧
    d = (c.position.advance
      (byteLength (front ++ digits ++ [ch]))).diagnose .illegalToken

/-- What is said of a place that was walked to. -/
def Halts (c : Cursor) (d : Diagnostic) : Prop :=
  ∃ stop cause, c.Walks true stop ∧ d = stop.position.diagnose cause

/-- What is said of a place that was walked to, or of an escape that is
cut off. -/
def Misses (front : List Char) (c : Cursor) (d : Diagnostic) : Prop :=
  c.Halts d ∨ c.Cuts front d

/-- What is said of a place on the way, or of an escape there. -/
def Stops (c : Cursor) (d : Diagnostic) : Prop :=
  ∃ mark, c.Walks true mark ∧ mark.Misses ['\\', 'u', '\x7b'] d

/-- What fails behind a stretch of characters halts there. -/
theorem halts_of_walks {cause : Cause} (h : c.Walks true c') :
    c.Halts (c'.position.diagnose cause) := ⟨c', cause, h, rfl⟩

/-- What fails at once halts at once. -/
theorem halts_here {cause : Cause} :
    c.Halts (c.position.diagnose cause) := halts_of_walks (.refl c)

/-- What is said further on is said on the way there. -/
theorem Halts.after (hwalk : c.Walks true c') (h : c'.Halts d) :
    c.Halts d := by
  obtain ⟨stop, cause, hstop, rfl⟩ := h
  exact halts_of_walks (hwalk.trans hstop)

/-- A character in front of an escape is part of its front. -/
theorem Misses.cons (hrest : c.rest = ch :: rest)
    (hch : isLineTerminator ch = false) (h : c.advance.Misses front d) :
    c.Misses (ch :: front) d := by
  rcases h with h | h
  · exact .inl (h.after (.char hrest hch (.refl _)))
  · obtain ⟨digits, last, later, hlater, hdigits, hlast, rfl⟩ := h
    rw [advance_rest hrest] at hlater
    refine .inr ⟨digits, last, later, ?_, hdigits, hlast, ?_⟩
    · rw [hrest, hlater]
      rfl
    · rw [advance_position hrest, Position.advance_advance]
      rfl

theorem Misses.stops (h : c.Misses ['\\', 'u', '\x7b'] d) : c.Stops d :=
  ⟨c, .refl c, h⟩

theorem Halts.stops (h : c.Halts d) : c.Stops d := Misses.stops (.inl h)

theorem Stops.after (hwalk : c.Walks true c') (h : c'.Stops d) :
    c.Stops d := by
  obtain ⟨mark, hmark, hd⟩ := h
  exact ⟨mark, hwalk.trans hmark, hd⟩

end Cursor

-- ========================================================== straying

namespace Cursor

/-- From one cursor on to another, character by character, or over a line
terminator as a whole. -/
inductive Strays : Cursor → Cursor → Prop where
  | refl (c : Cursor) : Strays c c
  | advance {c d : Cursor} : Strays c.advance d → Strays c d
  | lineBreak {c next d : Cursor} :
      c.lineBreak? = some next → Strays next d → Strays c d
  | braces {c d : Cursor} {depth : Nat} :
      Strays { c with braceDepth := depth } d → Strays c d

theorem Strays.trans {e : Cursor} (h : c.Strays c') (h' : c'.Strays e) :
    c.Strays e := by
  induction h with
  | refl => exact h'
  | advance _ ih => exact .advance (ih h')
  | lineBreak hbreak _ ih => exact .lineBreak hbreak (ih h')
  | braces _ ih => exact .braces (ih h')

theorem Walks.strays {mayBreak : Bool} (h : c.Walks mayBreak c') :
    c.Strays c' := by
  induction h with
  | refl => exact .refl _
  | char _ _ _ ih => exact .advance ih
  | lineBreak _ hbreak _ ih => exact .lineBreak hbreak ih
  | braces _ ih => exact .braces ih

/-- A failure that says what `P` holds of. The scan has strayed to where
it has stopped, and speaks of that place. -/
structure Fails (c : Cursor) (P : Diagnostic → Prop) (d : Diagnostic)
    (stop : Cursor) : Prop where
  found : P d
  strays : c.Strays stop
  said : d = stop.position.diagnose d.cause

/-- A failure at a place that was walked to. -/
theorem Walks.fails {P : Diagnostic → Prop} {cause : Cause}
    (h : c.Walks true c') (hd : c.Halts (c'.position.diagnose cause) →
      P (c'.position.diagnose cause)) :
    c.Fails P (c'.position.diagnose cause) c' :=
  ⟨hd (halts_of_walks h), h.strays, rfl⟩

end Cursor

open Cursor (halts_of_walks halts_here)

-- ============================================================= scans

namespace Scan

variable {α β : Type} {P Q : Diagnostic → Prop}

/-- Every failure from a cursor says what `P` holds of. -/
def FailsAt (p : Scan α) (c : Cursor) (P : Diagnostic → Prop) : Prop :=
  ∀ ⦃d stop⦄, p c = .error d stop → c.Fails P d stop

theorem failsAt_pure (a : α) : (pure a : Scan α).FailsAt c P := by
  rintro d stop ⟨⟩

theorem failsAt_fail {cause : Cause} (h : P (c.position.diagnose cause)) :
    (Scan.fail cause : Scan α).FailsAt c P := by
  rintro d stop ⟨⟩
  exact ⟨h, .refl c, rfl⟩

theorem FailsAt.imp {p : Scan α} (hp : p.FailsAt c P)
    (h : ∀ d, P d → Q d) : p.FailsAt c Q :=
  fun d _ hd => ⟨h d (hp hd).found, (hp hd).strays, (hp hd).said⟩

/-- What fails further on fails on the way there. -/
theorem FailsAt.after {p : Scan α} {stop : Cursor}
    (hp : p.FailsAt c' P) (hwalk : c.Walks true c')
    (h : p c' = .error d stop) : c.Fails P d stop :=
  ⟨(hp h).found, hwalk.strays.trans (hp h).strays, (hp h).said⟩

/-- Two actions fail as they should if each does. -/
theorem FailsAt.bind {p : Scan α} {f : α → Scan β} (hp : p.FailsAt c P)
    (hwalks : p.WalksAt true c)
    (hf : ∀ a stop, p c = .ok a stop → (f a).FailsAt stop P) :
    (p >>= f).FailsAt c P := by
  intro d stop h
  rcases bind_error.1 h with hfirst | ⟨a, c', hfirst, hlater⟩
  · exact hp hfirst
  · exact (hf a c' hfirst).after (hwalks hfirst) hlater

theorem FailsAt.map {p : Scan α} {f : α → β} (hp : p.FailsAt c P) :
    (f <$> p).FailsAt c P :=
  fun _ _ h => hp (map_error.1 h)

/-- A scan whose result is put into another form. -/
theorem FailsAt.bindPure {p : Scan α} {f : α → β} (hp : p.FailsAt c P) :
    (p >>= fun a => pure (f a)).FailsAt c P := by
  rw [bind_pure_comp]
  exact hp.map

end Scan

open Scan (FailsAt failsAt_pure failsAt_fail)

-- =========================================================== escapes

/-- What ends the digits is taken, and may be a line terminator. -/
theorem misses_of_digits (c : Cursor) :
    c.Misses [] ((c.skipWhile isHexDigit).advance.position.diagnose
      .illegalToken) := by
  have hdigits : c.Walks true (c.skipWhile isHexDigit) :=
    Cursor.walks_skipWhile (withinLine_digitOf 16).not_terminator c
  cases hrest : (c.skipWhile isHexDigit).rest with
  | nil =>
      have hstays : (c.skipWhile isHexDigit).advance
          = c.skipWhile isHexDigit := by
        unfold Cursor.advance
        rw [hrest]
      rw [hstays]
      exact .inl (halts_of_walks hdigits)
  | cons ch rest =>
      cases hch : isLineTerminator ch with
      | false =>
          exact .inl (halts_of_walks
            (hdigits.trans (Cursor.walks_advance hrest hch)))
      | true =>
          have hreads := Cursor.reads_skipWhile isHexDigit c
          refine .inr ⟨c.rest.takeWhile isHexDigit, ch, rest, ?_,
            List.all_takeWhile, hch, ?_⟩
          · rw [← hrest]
            exact hreads.rest
          · have hclose : (c.skipWhile isHexDigit).position
                = c.position.advance
                  (byteLength (c.rest.takeWhile isHexDigit)) := rfl
            rw [Cursor.advance_position hrest, hclose,
              Position.advance_advance, List.nil_append,
              byteLength_append]
            rfl

/-- An escape in braces fails behind its digits. -/
theorem failsAt_bracedEscape : bracedEscape.FailsAt c (c.Misses []) := by
  intro d stop h
  obtain ⟨rfl | rfl, rfl⟩ := bracedEscape_eq_error h
  · exact Cursor.Walks.fails (.refl _) .inl
  · have hdigits : c.Walks true (c.skipWhile isHexDigit) :=
      Cursor.walks_skipWhile (withinLine_digitOf 16).not_terminator c
    exact ⟨misses_of_digits c,
      hdigits.strays.trans (.advance (.refl _)), rfl⟩

/-- An escape of four digits halts where a digit is missing. -/
theorem failsAt_fourDigitEscape : fourDigitEscape.FailsAt c c.Halts := by
  intro d stop h
  obtain ⟨⟨code, hdigits⟩, rfl⟩ := fourDigitEscape_eq_error h
  exact (walks_hexDigits hdigits).fails id

/-- An escape in a name fails as its digits do. -/
theorem failsAt_nameEscape :
    nameEscape.FailsAt c (c.Misses ['u', '\x7b']) := by
  intro d stop h
  rw [nameEscape_eq] at h
  split at h
  case isFalse =>
    cases h
    exact Cursor.Walks.fails (.refl _) .inl
  case isTrue hu =>
    obtain ⟨rest, hrest⟩ := Cursor.peek_eq_some.1 hu
    have hfirst : c.Walks true c.advance := Cursor.walks_mark hu rfl
    split at h
    case isTrue hbrace =>
      obtain ⟨after, hafter⟩ := Cursor.peek_eq_some.1 hbrace
      have hsecond : c.Walks true c.advance.advance :=
        hfirst.trans (Cursor.walks_mark hbrace rfl)
      exact (failsAt_bracedEscape.imp fun _ hd =>
        (hd.cons hafter rfl).cons hrest rfl).after hsecond h
    case isFalse =>
      exact (failsAt_fourDigitEscape.imp fun _ hd =>
        .inl (hd.after hfirst)).after hfirst h

-- ============================================================= names

/-- The characters of a name fail as an escape among them does. -/
theorem failsAt_nameChars [NameProperties] (steps : Nat) (isFirst : Bool) :
    (nameChars steps isFirst).FailsAt c c.Stops := by
  induction steps generalizing isFirst c with
  | zero => exact failsAt_pure _
  | succ steps ih =>
      -- The rest of the name, from a place that was walked to.
      have hmore {c' : Cursor} (hwalk : c.Walks true c') (ch : Char) :
          FailsAt (nameChars steps false >>= fun chars =>
            pure (ch :: chars)) c' c.Stops :=
        ((ih false).imp fun _ => Cursor.Stops.after hwalk).bindPure
      intro d stop h
      cases nameNext isFirst c with
      | ends _ hsame =>
          rw [hsame] at h
          cases h
      | escape hrest hsame =>
          rw [hsame] at h
          have hwalk : c.Walks true c.advance :=
            Cursor.walks_advance hrest rfl
          have hescape : nameEscape.FailsAt c.advance c.Stops :=
            failsAt_nameEscape.imp fun _ hd => (hd.cons hrest rfl).stops
          refine (hescape.bind walksAt_nameEscape ?_).after hwalk h
          intro ch stop h
          have hstop : c.Walks true stop :=
            hwalk.trans (walksAt_nameEscape h)
          split
          · exact hmore hstop ch
          · exact failsAt_fail (halts_of_walks hstop).stops
      | plain hrest _ hfits hsame =>
          rw [hsame] at h
          have hch := (withinLine_fitsName isFirst).not_terminator hfits
          have hwalk : c.Walks true c.advance :=
            Cursor.walks_advance hrest hch
          exact (hmore hwalk _).after hwalk h

/-- A name fails as its characters do. -/
theorem failsAt_nameToken [NameProperties] (hc : c.rest = ch :: rest)
    (hname : isNameStart ch = true) : nameToken.FailsAt c c.Stops :=
  fun _ _ h => failsAt_nameChars _ _ ((nameToken_eq_error hc hname).1 h)

-- ========================================================== numerals

/-- An exponent fails where it has no digits. -/
theorem failsAt_exponent : exponent.FailsAt c c.Stops := by
  intro d stop h
  rw [exponent_eq] at h
  split at h
  case isFalse => cases h
  case isTrue hletter =>
    obtain ⟨-, rfl, rfl⟩ := exponentDigits_eq_error.1 h
    exact ((walks_peek_or rfl rfl hletter).trans
      (walks_afterSign _)).fails Cursor.Halts.stops

/-- A decimal number fails as its exponent does, or at what spoils it. -/
theorem failsAt_decimalNumeral [NameProperties]
    (hstart : c.startsNumeral = true) : decimalNumeral.FailsAt c c.Stops := by
  intro d stop h
  have hplaces : c.Walks true (fraction (c.skipWhile isDecimalDigit)).2 :=
    walks_places c
  rcases (decimalNumeral_eq_error hstart).1 h with
    hpower | ⟨power, hpower, -, rfl⟩
  · exact (failsAt_exponent.imp
      fun _ => Cursor.Stops.after hplaces).after hplaces hpower
  · exact (hplaces.trans (walksAt_exponent hpower)).fails Cursor.Halts.stops

/-- A number of any form fails within it. -/
theorem failsAt_numeralToken [NameProperties]
    (hstart : c.startsNumeral = true) : numeralToken.FailsAt c c.Stops := by
  intro d stop h
  rcases numeralToken_cases c with
    ⟨mark, rest, radix, hrest, hradix, hsame⟩ | ⟨-, hsame⟩
  · rw [hsame] at h
    obtain ⟨-, rfl, rfl⟩ := (radixNumeral_eq_error hrest hradix).1 h
    exact (walks_radixDigits hrest hradix).fails Cursor.Halts.stops
  · rw [hsame] at h
    exact failsAt_decimalNumeral hstart h

-- =========================================================== strings

/-- An escape of a unit halts where a digit is missing. -/
theorem failsAt_unitEscape : unitEscape.FailsAt c c.Halts := by
  intro d stop h
  obtain ⟨hdigits, rfl⟩ := unitEscape_eq_error.1 h
  exact (walks_hexDigits hdigits).fails id

/-- An escape of two digits halts where a digit is missing. -/
theorem failsAt_byteEscape : byteEscape.FailsAt c c.Halts := by
  intro d stop h
  obtain ⟨hdigits, rfl⟩ := byteEscape_eq_error.1 h
  exact (walks_hexDigits hdigits).fails id

/-- An escape of digits fails as its form does. -/
theorem failsAt_numberEscape :
    numberEscape.FailsAt c (c.Misses ['\x7b']) := by
  intro d stop h
  rw [numberEscape_eq] at h
  split at h
  case isFalse => exact (failsAt_unitEscape.imp fun _ => .inl) h
  case isTrue hbrace =>
    obtain ⟨rest, hrest⟩ := Cursor.peek_eq_some.1 hbrace
    exact (failsAt_bracedEscape.imp
      fun _ => Cursor.Misses.cons hrest rfl).after
        (Cursor.walks_mark hbrace rfl) h

/-- An escape fails as its letter says. -/
theorem failsAt_afterLetter (hrest : c.rest = ch :: rest)
    (hch : isLineTerminator ch = false) :
    (afterLetter ch).FailsAt c.advance (c.Misses ['u', '\x7b']) := by
  have hwalk : c.Walks true c.advance := Cursor.walks_advance hrest hch
  unfold afterLetter
  split
  case isTrue hu =>
    subst hu
    exact failsAt_numberEscape.map.imp fun _ => Cursor.Misses.cons hrest rfl
  split
  · exact failsAt_byteEscape.map.imp fun _ hd => .inl (hd.after hwalk)
  · exact failsAt_pure _

/-- What comes behind a backslash fails as an escape does. -/
theorem failsAt_escaped : escaped.FailsAt c (c.Misses ['u', '\x7b']) := by
  intro d stop h
  rcases escaped_cases c with
    ⟨-, hend⟩ | ⟨next, -, hnext⟩ | ⟨ch, rest, hrest, hch, hletter⟩
  · rw [hend] at h
    cases h
  · rw [hnext] at h
    cases h
  · rw [hletter] at h
    exact (failsAt_afterLetter hrest hch).after
      (Cursor.walks_advance hrest hch) h

/-- The characters of a string fail as an escape among them does. -/
theorem failsAt_quotedChars {quote : Char} (steps : Nat) :
    (quotedChars quote steps).FailsAt c c.Stops := by
  induction steps generalizing c with
  | zero => exact failsAt_pure _
  | succ steps ih =>
      -- The rest of the string, from a place that was walked to.
      have hrest {c' : Cursor} (hwalk : c.Walks true c') :
          (quotedChars quote steps).FailsAt c' c.Stops :=
        ih.imp fun _ => Cursor.Stops.after hwalk
      intro d stop h
      cases stringNext quote c with
      | ends _ hsame | quote _ hsame | lineBreak _ _ hsame =>
          rw [hsame] at h
          cases h
      | escape hslash _ hsame =>
          rw [hsame] at h
          have hwalk : c.Walks true c.advance :=
            Cursor.walks_advance hslash rfl
          have hescape : escaped.FailsAt c.advance c.Stops :=
            failsAt_escaped.imp fun _ hd => (hd.cons hslash rfl).stops
          refine (hescape.bind walksAt_escaped ?_).after hwalk h
          intro r stop h
          have hstop := hwalk.trans (walksAt_escaped h)
          cases r with
          | endOfText => exact failsAt_pure _
          | lineBreak => exact hrest hstop
          | char ch => exact (hrest hstop).bindPure
      | plain hfirst _ _ hline hsame =>
          rw [hsame] at h
          have hwalk : c.Walks true c.advance :=
            Cursor.walks_advance hfirst hline
          exact (hrest hwalk).bindPure.after hwalk h

/-- A string fails at its opening quote, or as an escape in it does. -/
theorem failsAt_quotedToken {quote : Char}
    (hquote : quote = '\'' ∨ quote = '"') (hc : c.rest = quote :: rest) :
    (quotedToken quote).FailsAt c c.Stops := by
  have hwalk : c.Walks true c.advance :=
    Cursor.walks_advance hc (quote_withinLine hquote)
  intro d stop h
  rcases (quotedToken_eq_error hquote hc).1 h with ⟨_, -, rfl, rfl⟩ | hchars
  · exact Cursor.Walks.fails (.refl _) Cursor.Halts.stops
  · exact ((failsAt_quotedChars _).imp
      fun _ => Cursor.Stops.after hwalk).after hwalk hchars

-- ============================================================ tokens

/-- A failure is said of a place that was walked to, or behind the line
terminator that cuts off an escape on the way. -/
theorem failsAt_token [NameProperties] : FailsAt Cursor.token c c.Stops := by
  intro d stop h
  cases c.opens with
  | nothing _ hsame =>
      rw [hsame] at h
      cases h
  | name hc hname hsame =>
      rw [hsame] at h
      exact failsAt_nameToken hc hname h
  | string hc hquote hsame =>
      rw [hsame] at h
      exact failsAt_quotedToken hquote hc h
  | numeral _ _ _ hstart hsame =>
      rw [hsame] at h
      exact failsAt_numeralToken hstart h
  | punctuator _ _ _ _ hsame =>
      rw [hsame] at h
      obtain ⟨-, rfl, rfl⟩ := punctuatorToken_eq_error.1 h
      exact Cursor.Walks.fails (.refl _) Cursor.Halts.stops

end ScriptTree
