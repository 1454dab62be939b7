/-
A cursor moves by bytes, and what it passes are characters.

# In step

The text from an offset on is there just if some characters in front of
it take that many bytes (`textFrom?_eq_some`), and a cut between two
offsets likewise (`textWithin?_eq_some`). So a cursor that moves by the
bytes of what it sees first sees what comes after that
(`Cursor.move_rest`).

# Steps

To say where a reader comes to, it is simpler to count characters than
bytes: `advance` passes one, `skip` so many, and `skipWhile` a run. A run
that is passed one by one is passed at once (`Cursor.skipRun_eq`).
-/
import ScriptTree.Source.Cursor

namespace ScriptTree

-- ========================================================== bytes

theorem byteLength_cons (ch : Char) (text : List Char) :
    byteLength (ch :: text) = ch.utf8Size + byteLength text := rfl

theorem byteLength_append (text text' : List Char) :
    byteLength (text ++ text') = byteLength text + byteLength text' := by
  induction text with
  | nil => simp [byteLength]
  | cons ch text ih =>
      rw [List.cons_append, byteLength_cons, byteLength_cons, ih]
      omega

/-- A character takes one byte at least. -/
theorem length_le_byteLength (text : List Char) :
    text.length ≤ byteLength text := by
  induction text with
  | nil => simp
  | cons ch text ih =>
      have hch := ch.utf8Size_pos
      rw [byteLength_cons, List.length_cons]
      omega

theorem utf8ByteSize_ofList (l : List Char) :
    (String.ofList l).utf8ByteSize = byteLength l := by
  induction l with
  | nil => rfl
  | cons ch l ih =>
      rw [String.ofList_cons, String.utf8ByteSize_append,
        String.utf8ByteSize_singleton, ih, byteLength_cons]

/-- The text from an offset on is what follows so many bytes of it. -/
theorem textFrom?_eq_some {offset : Nat} {text rest : List Char} :
    textFrom? offset text = some rest ↔
      ∃ before, text = before ++ rest ∧ byteLength before = offset := by
  induction text generalizing offset with
  | nil =>
      cases offset with
      | zero =>
          constructor
          · rintro ⟨⟩
            exact ⟨[], rfl, rfl⟩
          · rintro ⟨before, hnil, -⟩
            rw [(List.append_eq_nil_iff.1 hnil.symm).2]
            rfl
      | succ offset =>
          constructor
          · rintro ⟨⟩
          · rintro ⟨before, hnil, hlength⟩
            rw [(List.append_eq_nil_iff.1 hnil.symm).1] at hlength
            cases hlength
  | cons ch text ih =>
      have hpos := ch.utf8Size_pos
      cases offset with
      | zero =>
          constructor
          · rintro ⟨⟩
            exact ⟨[], rfl, rfl⟩
          · rintro ⟨before, htext, hlength⟩
            cases before with
            | nil => rw [htext, List.nil_append, textFrom?]
            | cons _ before =>
                rw [byteLength_cons] at hlength
                have := Char.utf8Size_pos ‹Char›
                omega
      | succ offset =>
          rw [textFrom?]
          constructor
          · intro h
            split at h
            case isFalse => cases h
            case isTrue hfits =>
              obtain ⟨before, rfl, hlength⟩ := ih.1 h
              refine ⟨ch :: before, rfl, ?_⟩
              rw [byteLength_cons, hlength]
              omega
          · rintro ⟨before, htext, hlength⟩
            cases before with
            | nil => cases hlength
            | cons _ before =>
                cases htext
                rw [byteLength_cons] at hlength
                rw [if_pos (by omega)]
                exact ih.2 ⟨before, rfl, by omega⟩

/-- The first bytes of a text are those of some characters in front. -/
theorem textUpTo?_eq_some {count : Nat} {text cut : List Char} :
    textUpTo? count text = some cut ↔
      ∃ rest, text = cut ++ rest ∧ byteLength cut = count := by
  induction text generalizing count cut with
  | nil =>
      cases count with
      | zero =>
          constructor
          · rintro ⟨⟩
            exact ⟨[], rfl, rfl⟩
          · rintro ⟨rest, hnil, -⟩
            rw [(List.append_eq_nil_iff.1 hnil.symm).1]
            rfl
      | succ count =>
          constructor
          · rintro ⟨⟩
          · rintro ⟨rest, hnil, hlength⟩
            rw [(List.append_eq_nil_iff.1 hnil.symm).1] at hlength
            cases hlength
  | cons ch text ih =>
      have hpos := ch.utf8Size_pos
      cases count with
      | zero =>
          constructor
          · rintro ⟨⟩
            exact ⟨ch :: text, rfl, rfl⟩
          · rintro ⟨rest, -, hlength⟩
            have hle := length_le_byteLength cut
            rw [hlength] at hle
            rw [List.length_eq_zero_iff.1 (Nat.le_zero.1 hle)]
            rfl
      | succ count =>
          rw [textUpTo?]
          constructor
          · intro h
            split at h
            case isFalse => cases h
            case isTrue hfits =>
              obtain ⟨cut, hcut, rfl⟩ := Option.map_eq_some_iff.1 h
              obtain ⟨rest, rfl, hlength⟩ := ih.1 hcut
              refine ⟨rest, rfl, ?_⟩
              rw [byteLength_cons, hlength]
              omega
          · rintro ⟨rest, htext, hlength⟩
            cases cut with
            | nil => cases hlength
            | cons _ cut =>
                cases htext
                rw [byteLength_cons] at hlength
                rw [if_pos (by omega), ih.2 ⟨rest, rfl, by omega⟩]
                rfl

/-- What stands between two offsets. -/
theorem textWithin?_eq_some {start stop : Nat} {text cut : List Char} :
    textWithin? start stop text = some cut ↔
      ∃ before after, text = before ++ cut ++ after ∧
        byteLength before = start ∧
        stop = start + byteLength cut := by
  unfold textWithin?
  constructor
  · intro h
    split at h
    case isFalse => cases h
    case isTrue hle =>
      obtain ⟨rest, hfrom, hupTo⟩ := Option.bind_eq_some_iff.1 h
      obtain ⟨before, rfl, hbefore⟩ := textFrom?_eq_some.1 hfrom
      obtain ⟨after, rfl, hcut⟩ := textUpTo?_eq_some.1 hupTo
      refine ⟨before, after, (List.append_assoc ..).symm, hbefore, ?_⟩
      omega
  · rintro ⟨before, after, rfl, rfl, rfl⟩
    rw [if_pos (Nat.le_add_right _ _), Nat.add_sub_cancel_left,
      List.append_assoc]
    exact Option.bind_eq_some_iff.2
      ⟨_, textFrom?_eq_some.2 ⟨before, rfl, rfl⟩,
        textUpTo?_eq_some.2 ⟨after, rfl, rfl⟩⟩

-- ========================================================= cursors

namespace Cursor

variable {c d : Cursor} {ch : Char} {text rest : List Char}

/-- A cursor that sees something stands between two characters. -/
theorem textFrom?_of_rest (hne : c.rest ≠ []) :
    textFrom? c.position.offset c.source = some c.rest := by
  have hrest : c.rest
      = (textFrom? c.position.offset c.source).getD [] := rfl
  cases hfrom : textFrom? c.position.offset c.source with
  | none =>
      rw [hfrom] at hrest
      exact absurd hrest hne
  | some text =>
      rw [hfrom] at hrest
      rw [hrest, Option.getD_some]

/-- At the start of a text all of it is seen. -/
theorem ofText_rest (text : List Char) : (ofText text).rest = text := by
  have hfrom : textFrom? 0 text = some text :=
    textFrom?_eq_some.2 ⟨[], rfl, rfl⟩
  show (textFrom? 0 text).getD [] = text
  rw [hfrom, Option.getD_some]

theorem ofText_length (text : List Char) :
    (ofText text).rest.length = text.length := by
  rw [ofText_rest]

/-- Two moves are one. -/
theorem move_move (c : Cursor) (m n : Nat) :
    (c.move m).move n = c.move (m + n) := by
  simp only [move, Position.advance, Nat.add_assoc]

/-- Behind the bytes of what is seen first, what follows is seen. -/
theorem move_rest (h : c.rest = text ++ rest) :
    (c.move (byteLength text)).rest = rest := by
  cases text with
  | nil => exact h
  | cons ch text =>
      have hne : c.rest ≠ [] := by
        rw [h]
        exact List.cons_ne_nil _ _
      have hfrom := textFrom?_of_rest hne
      rw [h] at hfrom
      obtain ⟨before, hsource, hbefore⟩ := textFrom?_eq_some.1 hfrom
      have hnext : textFrom?
          (c.position.offset + byteLength (ch :: text)) c.source
            = some rest := by
        refine textFrom?_eq_some.2 ⟨before ++ (ch :: text), ?_, ?_⟩
        · rw [hsource, List.append_assoc]
        · rw [byteLength_append, hbefore]
      show (textFrom? _ c.source).getD [] = rest
      rw [show (c.move (byteLength (ch :: text))).position.offset
        = c.position.offset + byteLength (ch :: text) from rfl, hnext,
        Option.getD_some]

/-- Behind the bytes of one character. -/
theorem move_rest_cons (h : c.rest = ch :: rest) :
    (c.move ch.utf8Size).rest = rest := by
  have hone : c.rest = [ch] ++ rest := h
  exact move_rest hone

/-- In a new line what follows its line terminator is seen. -/
theorem startLine_rest (h : c.rest = ch :: rest) :
    Cursor.rest { c with
      position := (c.position.advance ch.utf8Size).startLine } = rest :=
  move_rest_cons h

theorem startLine_rest_pair (h : c.rest = '\r' :: '\n' :: rest) :
    Cursor.rest { c with
      position := (c.position.advance 2).startLine } = rest := by
  have hpair : c.rest = ['\r', '\n'] ++ rest := h
  exact move_rest hpair

/-- What is cut out between a cursor and one that is so many bytes further
on. -/
theorem textTo_of_rest (h : c.rest = text ++ rest)
    (hoffset : d.position.offset = c.position.offset + byteLength text) :
    c.textTo d = text := by
  have hwithin : c.textTo d = (textWithin? c.position.offset
      (c.position.offset + byteLength text) c.source).getD [] := by
    rw [← hoffset]
    rfl
  rw [hwithin]
  by_cases hne : c.rest = []
  · -- Nothing is seen, and nothing is cut out.
    rw [hne] at h
    rw [(List.append_eq_nil_iff.1 h.symm).1]
    unfold textWithin?
    rw [if_pos (Nat.le_add_right _ _)]
    cases textFrom? c.position.offset c.source with
    | none => rfl
    | some text =>
        rw [Option.bind_some, byteLength, List.foldr_nil, Nat.add_zero,
          Nat.sub_self, textUpTo?]
        rfl
  · have hfrom := textFrom?_of_rest hne
    rw [h] at hfrom
    obtain ⟨before, hsource, hbefore⟩ := textFrom?_eq_some.1 hfrom
    have hcut : textWithin? c.position.offset
        (c.position.offset + byteLength text) c.source = some text := by
      refine textWithin?_eq_some.2 ⟨before, rest, ?_, hbefore, rfl⟩
      rw [hsource, List.append_assoc]
    rw [hcut, Option.getD_some]

/-- The cursor stands between two characters of its text. -/
def InStep (c : Cursor) : Prop :=
  textFrom? c.position.offset c.source = some c.rest

/-- At the start of a text nothing is out of step. -/
theorem inStep_ofText (text : List Char) : (ofText text).InStep := by
  unfold InStep
  rw [ofText_rest]
  exact textFrom?_eq_some.2 ⟨[], rfl, rfl⟩

/-- A cursor that sees something is not at the end. -/
theorem atEnd_of_rest_ne_nil (hne : c.rest ≠ []) : c.atEnd = false := by
  obtain ⟨before, hsource, hoffset⟩ :=
    textFrom?_eq_some.1 (textFrom?_of_rest hne)
  have hpos := List.length_pos_iff.2 hne
  have hlength := length_le_byteLength c.rest
  unfold atEnd
  rw [decide_eq_false_iff_not, hsource, byteLength_append]
  omega

/-- Between two characters a cursor is at the end just if it sees
nothing. -/
theorem InStep.atEnd_iff (h : c.InStep) : c.atEnd = true ↔ c.rest = [] := by
  constructor
  · intro hend
    by_cases hnil : c.rest = []
    · exact hnil
    · rw [atEnd_of_rest_ne_nil hnil] at hend
      cases hend
  · intro hnil
    obtain ⟨before, hsource, hoffset⟩ := textFrom?_eq_some.1 h
    rw [hnil, List.append_nil] at hsource
    have hsame := (congrArg byteLength hsource).trans hoffset
    exact decide_eq_true (Nat.le_of_eq hsame)

-- =========================================================== steps

/-- Past the next character, whatever it is: the line stays the same. -/
def advance (c : Cursor) : Cursor :=
  match c.rest with
  | [] => c
  | ch :: _ => c.move ch.utf8Size

/-- Past the next `count` characters. -/
def skip : Nat → Cursor → Cursor
  | 0, c => c
  | count + 1, c => skip count c.advance

/-- Past the longest run of characters that satisfy `p`. -/
def skipWhile (p : Char → Bool) (c : Cursor) : Cursor :=
  c.move (byteLength (c.rest.takeWhile p))

theorem peek_eq_some :
    c.peek = some ch ↔ ∃ rest, c.rest = ch :: rest := by
  unfold peek
  exact List.head?_eq_some_iff

theorem peek_cons (h : c.rest = ch :: rest) : c.peek = some ch := by
  rw [peek, h, List.head?_cons]

theorem peek_nil (h : c.rest = []) : c.peek = none := by
  rw [peek, h, List.head?_nil]

/-- To advance is to move by the size of the character. -/
theorem advance_eq (h : c.rest = ch :: rest) :
    c.advance = c.move ch.utf8Size := by
  unfold advance
  rw [h]

theorem advance_nil (h : c.rest = []) : c.advance = c := by
  unfold advance
  rw [h]

theorem advance_rest (h : c.rest = ch :: rest) : c.advance.rest = rest := by
  rw [advance_eq h]
  exact move_rest_cons h

/-- Characters that are seen first are passed by their bytes. -/
theorem skip_eq_move (h : c.rest = text ++ rest) :
    c.skip text.length = c.move (byteLength text) := by
  induction text generalizing c with
  | nil => rfl
  | cons ch text ih =>
      have hfirst : c.rest = ch :: (text ++ rest) := h
      rw [List.length_cons, skip, ih (advance_rest hfirst),
        advance_eq hfirst, move_move, byteLength_cons]

/-- What is skipped is dropped from the rest. -/
theorem skipWhile_rest (p : Char → Bool) (c : Cursor) :
    (c.skipWhile p).rest = c.rest.dropWhile p :=
  move_rest List.takeWhile_append_dropWhile.symm

theorem skipWhile_nil {p : Char → Bool} (h : c.rest = []) :
    c.skipWhile p = c := by
  unfold skipWhile
  rw [h]
  rfl

theorem skipWhile_cons {p : Char → Bool} (h : c.rest = ch :: rest) :
    c.skipWhile p = if p ch then c.advance.skipWhile p else c := by
  unfold skipWhile
  rw [advance_rest h, h, advance_eq h]
  cases hp : p ch with
  | false =>
      rw [List.takeWhile_cons_of_neg (by simp [hp])]
      rfl
  | true =>
      rw [List.takeWhile_cons_of_pos hp, byteLength_cons, if_pos rfl,
        move_move]

/-- A byte at a time goes past a character at a time, if that is what the
characters take. -/
theorem skipRunWithin_eq {p : Char → Bool} {width : Char → Nat}
    (hwidth : ∀ ch, p ch = true → width ch = ch.utf8Size) {steps : Nat}
    (hsteps : c.rest.length ≤ steps) :
    c.skipRunWithin p width steps = c.skipWhile p := by
  induction steps generalizing c with
  | zero =>
      have hnil := List.length_eq_zero_iff.1 (Nat.le_zero.1 hsteps)
      exact (skipWhile_nil hnil).symm
  | succ steps ih =>
      cases hc : c.rest with
      | nil => rw [skipRunWithin, peek_nil hc, skipWhile_nil hc]
      | cons ch rest =>
          rw [skipRunWithin, peek_cons hc, skipWhile_cons hc]
          simp only
          by_cases hp : p ch = true
          · have hle : c.advance.rest.length ≤ steps := by
              rw [hc, List.length_cons] at hsteps
              rw [advance_rest hc]
              omega
            rw [if_pos hp, if_pos hp, hwidth ch hp, ← advance_eq hc, ih hle]
          · rw [if_neg hp, if_neg hp]

/-- A run that is passed one character at a time is passed at once. -/
theorem skipRun_eq {p : Char → Bool} {width : Char → Nat}
    (hwidth : ∀ ch, p ch = true → width ch = ch.utf8Size) (c : Cursor) :
    c.skipRun p width = c.skipWhile p :=
  skipRunWithin_eq hwidth (Nat.le_refl _)

/-- A carriage return and the line feed after it are passed as one. -/
theorem pastLineEnd_of_pair (h : c.rest = '\r' :: '\n' :: rest) :
    c.pastLineEnd '\r'
      = { c with position := (c.position.advance 2).startLine } := by
  have hpeek : (c.move ('\r').utf8Size).peek = some '\n' :=
    peek_cons (move_rest_cons h)
  unfold pastLineEnd
  simp only [hpeek, decide_true, Bool.and_self, if_true]
  rfl

/-- Any other line terminator stands alone. -/
theorem pastLineEnd_alone (h : c.rest = ch :: rest)
    (hnot : ∀ rest', c.rest ≠ '\r' :: '\n' :: rest') :
    c.pastLineEnd ch = { c with
      position := (c.position.advance ch.utf8Size).startLine } := by
  have hpair : ¬(ch = '\r' && (c.move ch.utf8Size).peek = some '\n')
      = true := by
    rw [Bool.and_eq_true, decide_eq_true_eq, decide_eq_true_eq]
    rintro ⟨rfl, hpeek⟩
    obtain ⟨more, hmore⟩ := peek_eq_some.1 hpeek
    rw [move_rest_cons h] at hmore
    rw [hmore] at h
    exact hnot more h
  unfold pastLineEnd
  simp only [if_neg hpair]
  rfl

/-- A line break is two characters or one. -/
theorem lineBreak?_eq_some : c.lineBreak? = some d ↔
    (∃ rest, c.rest = '\r' :: '\n' :: rest ∧ d = { c with
      position := (c.position.advance 2).startLine }) ∨
    (∃ ch rest, c.rest = ch :: rest ∧ isLineTerminator ch = true ∧
      (∀ rest', c.rest ≠ '\r' :: '\n' :: rest') ∧ d = { c with
        position := (c.position.advance ch.utf8Size).startLine }) := by
  unfold lineBreak?
  constructor
  · intro h
    split at h
    case h_2 => cases h
    case h_1 ch hpeek =>
      obtain ⟨rest, hrest⟩ := peek_eq_some.1 hpeek
      split at h
      case isFalse => cases h
      case isTrue hline =>
        cases h
        by_cases hpair : ∃ more, c.rest = '\r' :: '\n' :: more
        · obtain ⟨more, hmore⟩ := hpair
          obtain ⟨rfl, -⟩ := List.cons.inj (hrest.symm.trans hmore)
          exact .inl ⟨more, hmore, pastLineEnd_of_pair hmore⟩
        · have hnot := not_exists.1 hpair
          exact .inr ⟨ch, rest, hrest, hline, hnot,
            pastLineEnd_alone hrest hnot⟩
  · rintro (⟨rest, hrest, rfl⟩ | ⟨ch, rest, hrest, hline, hnot, rfl⟩)
    · rw [peek_cons hrest]
      exact congrArg some (pastLineEnd_of_pair hrest)
    · rw [peek_cons hrest]
      simp only [hline, if_true, pastLineEnd_alone hrest hnot]

/-- There is a line break where the next character ends a line. -/
theorem lineBreak_eq_none (h : c.rest = ch :: rest) :
    c.lineBreak? = none ↔ isLineTerminator ch = false := by
  unfold lineBreak?
  rw [peek_cons h]
  cases hline : isLineTerminator ch with
  | false => simp [hline]
  | true => simp [hline]

end Cursor

end ScriptTree
