/-
The place that a cursor keeps is the one that the text determines.

A cursor stands in a text if the lines that start at or before it are as
many as it has counted, and the last of them starts where the cursor says
(`Cursor.StandsIn`). This is so at the start of the text, every walk
keeps it, and so the position of a cursor is the one at its offset
(`Cursor.StandsIn.position_eq`).

# Missed lines

A cursor may have missed lines. It counts the others (`Cursor.CountsIn`),
and goes on to do so: a walk misses no line. To stand in a text is to
have missed none.
-/
import ScriptTree.Proofs.Scanning.Walk

namespace ScriptTree

-- ======================================================= line starts

/-- A character within a line starts none. -/
theorem lineStartsFrom_of_char {offset : Nat} {ch : Char}
    {rest : List Char} (hch : isLineTerminator ch = false) :
    lineStartsFrom offset (ch :: rest)
      = lineStartsFrom (offset + ch.utf8Size) rest := by
  rw [lineStartsFrom.eq_def]
  split
  case h_1 hrest =>
    cases hrest
    cases hch
  case h_2 hrest =>
    cases hrest
    simp [hch]
  case h_3 hrest => cases hrest

/-- A line starts behind a line terminator. -/
theorem lineStartsFrom_of_terminator {offset : Nat} {ch : Char}
    {rest : List Char} (hch : isLineTerminator ch = true)
    (hcrlf : ∀ rest', ch :: rest ≠ '\r' :: '\n' :: rest') :
    lineStartsFrom offset (ch :: rest)
      = (offset + ch.utf8Size)
        :: lineStartsFrom (offset + ch.utf8Size) rest := by
  rw [lineStartsFrom.eq_def]
  split
  case h_1 rest' hrest => exact absurd hrest (hcrlf rest')
  case h_2 hrest =>
    cases hrest
    simp [hch]
  case h_3 hrest => cases hrest

/-- Between the two halves of a line break, the line is still to come. -/
theorem lineStartsFrom_of_half {offset : Nat} {rest : List Char} :
    lineStartsFrom offset ('\r' :: '\n' :: rest)
      = lineStartsFrom (offset + '\r'.utf8Size) ('\n' :: rest) := by
  have hsecond : lineStartsFrom (offset + 1) ('\n' :: rest)
      = (offset + 1 + 1) :: lineStartsFrom (offset + 1 + 1) rest :=
    lineStartsFrom_of_terminator rfl (by simp)
  exact hsecond.symm

/-- The lines to come start later. -/
theorem lt_of_mem_lineStartsFrom {offset start : Nat} {text : List Char}
    (h : start ∈ lineStartsFrom offset text) : offset < start := by
  fun_induction lineStartsFrom offset text with
  | case1 offset rest ih =>
      rcases List.mem_cons.1 h with rfl | h
      · omega
      · have hlt := ih h
        omega
  | case2 offset ch rest _ next hch ih =>
      have hsize := ch.utf8Size_pos
      rcases List.mem_cons.1 h with rfl | h
      · omega
      · have hlt := ih h
        omega
  | case3 offset ch rest _ next hch ih =>
      have hlt := ih h
      omega
  | case4 => cases h

-- ============================================================ places

/-- No place lies beyond the text. -/
theorem IsBoundary.le_byteLength {text : List Char} {offset : Nat}
    (h : IsBoundary text offset) : offset ≤ byteLength text := by
  obtain ⟨before, after, rfl, rfl⟩ := h
  rw [byteLength_append]
  exact Nat.le_add_right _ _

namespace Cursor

variable {source : List Char} {mayBreak : Bool} {c d e : Cursor}

/-- What is read of a text from a cursor on is the text between the two
offsets, however lines are counted. -/
theorem Reads.textBetween_eq {before text : List Char} {lines : Nat}
    (hr : c.Reads text lines d) (hsource : source = before ++ c.rest)
    (hoffset : c.position.offset = byteLength before) :
    textBetween source c.position.offset d.position.offset = text := by
  unfold textBetween
  rw [hr.offset, Nat.add_sub_cancel_left, hoffset, hsource,
    takeBytes_append, List.drop_left, hr.rest, takeBytes_append]

/-- A cursor within a text, at a place where the lines that it has
counted are those of the text. -/
structure StandsIn (source : List Char) (c : Cursor) : Prop where
  source_eq : c.source = source
  before : ∃ text, source = text ++ c.rest ∧
    c.position.offset = byteLength text
  lines : ∃ starts,
    lineStarts source = starts ++ lineStartsFrom c.position.offset c.rest ∧
      (∀ start ∈ starts, start ≤ c.position.offset) ∧
      c.position.line = starts.length ∧
      c.position.lineStart = starts.getLastD 0

/-- A cursor within a text which has counted all lines up to its place
but for those that start at the given offsets. -/
structure CountsIn (source : List Char) (missed : List Nat) (c : Cursor) :
    Prop where
  source_eq : c.source = source
  before : ∃ text, source = text ++ c.rest ∧
    c.position.offset = byteLength text
  lines : ∃ starts,
    lineStarts source = starts ++ lineStartsFrom c.position.offset c.rest ∧
      (∀ start ∈ starts, start ≤ c.position.offset) ∧
      c.position.line = (starts.filter (· ∉ missed)).length ∧
      c.position.lineStart = (starts.filter (· ∉ missed)).getLastD 0
  missed_le : ∀ start ∈ missed, start ≤ c.position.offset

namespace CountsIn

variable {missed : List Nat}

/-- A step after which the same lines are still to come. -/
theorem advance {ch : Char} {rest : List Char}
    (h : c.CountsIn source missed) (hrest : c.rest = ch :: rest)
    (hsame : lineStartsFrom c.position.offset (ch :: rest)
      = lineStartsFrom (c.position.offset + ch.utf8Size) rest) :
    c.advance.CountsIn source missed := by
  obtain ⟨hsource, ⟨text, htext, hoffset⟩,
    ⟨starts, hstarts, hle, hline, hlast⟩, hmissed⟩ := h
  have hr := reads_advance hrest
  have hnext : c.advance.position.offset
      = c.position.offset + ch.utf8Size := by
    rw [hr.offset, byteLength_cons]
    rfl
  have hforward : c.position.offset ≤ c.advance.position.offset := by
    omega
  refine ⟨hr.source.trans hsource, ⟨text ++ [ch], ?_, ?_⟩, ⟨starts, ?_, ?_, ?_, ?_⟩, ?_⟩
  · rw [htext, hr.rest, List.append_assoc]
  · rw [hr.offset, hoffset, byteLength_append]
  · rw [hstarts, hrest, hsame, hnext, advance_rest hrest]
  · exact fun start hstart => Nat.le_trans (hle start hstart) hforward
  · rw [hr.line, hline, Nat.add_zero]
  · rw [← hlast]
    unfold Cursor.advance
    rw [hrest]
    rfl
  · exact fun start hstart => Nat.le_trans (hmissed start hstart) hforward

/-- A step on the same line. -/
theorem char {ch : Char} {rest : List Char} (h : c.CountsIn source missed)
    (hrest : c.rest = ch :: rest) (hch : isLineTerminator ch = false) :
    c.advance.CountsIn source missed :=
  h.advance hrest (lineStartsFrom_of_char hch)

/-- A line terminator ends one line and starts another. -/
theorem lineBreak (h : c.CountsIn source missed)
    (hbreak : c.lineBreak? = some d) : d.CountsIn source missed := by
  obtain ⟨hsource, ⟨text, htext, hoffset⟩,
    ⟨starts, hstarts, hle, hline, hlast⟩, hmissed⟩ := h
  -- What both kinds of line break come to.
  have hnext (mark : List Char) (hmark : 0 < byteLength mark)
      (hr : c.Reads mark 1 d)
      (hstart : d.position.lineStart = d.position.offset)
      (hfrom : lineStartsFrom c.position.offset c.rest
        = d.position.offset :: lineStartsFrom d.position.offset d.rest) :
      d.CountsIn source missed := by
    have hforward : c.position.offset < d.position.offset := by
      have hoff := hr.offset
      omega
    have hcounted : d.position.offset ∉ missed := by
      intro hin
      have hbefore := hmissed _ hin
      omega
    refine ⟨hr.source.trans hsource, ⟨text ++ mark, ?_, ?_⟩,
      ⟨starts ++ [d.position.offset], ?_, ?_, ?_, ?_⟩, ?_⟩
    · rw [htext, hr.rest, List.append_assoc]
    · rw [hr.offset, hoffset, byteLength_append]
    · rw [hstarts, hfrom, List.append_assoc]
      rfl
    · intro start hin
      rcases List.mem_append.1 hin with hin | hin
      · exact Nat.le_of_lt (Nat.lt_of_le_of_lt (hle start hin) hforward)
      · exact Nat.le_of_eq (List.mem_singleton.1 hin)
    · rw [hr.line, hline]
      simp [hcounted]
    · rw [hstart]
      simp [hcounted]
    · intro start hin
      exact Nat.le_of_lt (Nat.lt_of_le_of_lt (hmissed start hin) hforward)
  rcases lineBreak?_eq_some.1 hbreak with
    ⟨rest, hrest, rfl⟩ | ⟨ch, rest, hrest, hch, hcrlf, rfl⟩
  · refine hnext ['\r', '\n'] (by decide) (reads_startLine hrest) rfl ?_
    rw [startLine_rest_pair hrest, hrest]
    rfl
  · have hone : c.rest = [ch] ++ rest := hrest
    refine hnext [ch] ch.utf8Size_pos (reads_startLine hone) rfl ?_
    rw [startLine_rest hrest, hrest]
    rw [hrest] at hcrlf
    exact lineStartsFrom_of_terminator hch hcrlf

/-- What is passed over is counted, or missed as before. -/
theorem walks (h : c.CountsIn source missed) (hw : c.Walks mayBreak d) :
    d.CountsIn source missed := by
  induction hw with
  | refl => exact h
  | char hrest hch _ ih => exact ih (h.char hrest hch)
  | lineBreak _ hbreak _ ih => exact ih (h.lineBreak hbreak)
  | braces _ ih => exact ih ⟨h.source_eq, h.before, h.lines, h.missed_le⟩

/-- The position is the one at its offset, by the lines that were not
missed. -/
theorem position_eq (h : c.CountsIn source missed) :
    c.position = positionOn ((lineStarts source).filter (· ∉ missed))
      c.position.offset := by
  obtain ⟨-, -, ⟨starts, hstarts, hle, hline, hlast⟩, -⟩ := h
  have hearlier : (starts.filter (· ∉ missed)).filter
      (· ≤ c.position.offset) = starts.filter (· ∉ missed) := by
    refine List.filter_eq_self.2 fun start hin => ?_
    simpa using hle start (List.mem_filter.1 hin).1
  have hlater : ((lineStartsFrom c.position.offset c.rest).filter
      (· ∉ missed)).filter (· ≤ c.position.offset) = [] := by
    refine List.filter_eq_nil_iff.2 fun start hin => ?_
    have hlt := lt_of_mem_lineStartsFrom (List.mem_filter.1 hin).1
    simpa using hlt
  simp only [positionOn]
  rw [hstarts, List.filter_append, List.filter_append, hearlier, hlater,
    List.append_nil, ← hline, ← hlast]

end CountsIn

/-- To stand in a text is to have missed no line. -/
theorem standsIn_iff_countsIn : c.StandsIn source ↔ c.CountsIn source [] := by
  have hall (starts : List Nat) : starts.filter (· ∉ []) = starts := by
    simp
  constructor
  · rintro ⟨hsource, hbefore, starts, hlines⟩
    exact ⟨hsource, hbefore, ⟨starts, by rwa [hall]⟩, by simp⟩
  · rintro ⟨hsource, hbefore, ⟨starts, hlines⟩, -⟩
    exact ⟨hsource, hbefore, starts, by rwa [hall] at hlines⟩

/-- At the start of a text a cursor stands in its first line. -/
theorem standsIn_ofText (source : List Char) :
    (ofText source).StandsIn source := by
  refine ⟨rfl, ⟨[], (ofText_rest source).symm, rfl⟩, ?_⟩
  rw [ofText_rest]
  cases source with
  | nil => exact ⟨[], rfl, by simp, rfl, rfl⟩
  | cons ch rest =>
      refine ⟨[0], rfl, ?_, rfl, rfl⟩
      intro start hstart
      rw [List.mem_singleton.1 hstart]
      exact Nat.zero_le _

namespace StandsIn

/-- A character within a line leaves the cursor in it. -/
theorem char {ch : Char} {rest : List Char} (h : c.StandsIn source)
    (hrest : c.rest = ch :: rest) (hch : isLineTerminator ch = false) :
    c.advance.StandsIn source :=
  standsIn_iff_countsIn.2 ((standsIn_iff_countsIn.1 h).char hrest hch)

/-- A line break leads to the start of the next line. -/
theorem lineBreak (h : c.StandsIn source) (hbreak : c.lineBreak? = some d) :
    d.StandsIn source :=
  standsIn_iff_countsIn.2 ((standsIn_iff_countsIn.1 h).lineBreak hbreak)

/-- Whatever is passed over, the cursor stands where the lines say. -/
theorem walks (h : c.StandsIn source) (hw : c.Walks mayBreak d) :
    d.StandsIn source :=
  standsIn_iff_countsIn.2 ((standsIn_iff_countsIn.1 h).walks hw)

/-- The position is the one at its offset. -/
theorem position_eq (h : c.StandsIn source) :
    c.position = positionAt source c.position.offset := by
  have hposition := (standsIn_iff_countsIn.1 h).position_eq
  rwa [List.filter_eq_self.2 (by simp)] at hposition

/-- The text between two cursors is the text between their offsets. -/
theorem textBetween_eq {text : List Char} {lines : Nat}
    (h : c.StandsIn source) (hr : c.Reads text lines d) :
    textBetween source c.position.offset d.position.offset = text := by
  obtain ⟨before, hsource, hoffset⟩ := h.before
  exact hr.textBetween_eq hsource hoffset

/-- The text between two cursors breaks a line where they stand on
different lines. -/
theorem breaksLine_eq (h : c.StandsIn source) (hw : c.Walks true d) :
    breaksLine (textBetween source c.position.offset d.position.offset)
        = decide (c.position.line ≠ d.position.line) ∧
      c.position.line ≤ d.position.line := by
  obtain ⟨text, lines, hreads, hbreaks, -⟩ := hw.reads
  rw [h.textBetween_eq hreads, hreads.line]
  refine ⟨?_, Nat.le_add_right _ _⟩
  rw [Bool.eq_iff_iff, hbreaks, decide_eq_true_eq]
  omega

/-- Over two stretches of text. -/
theorem line_ne_eq (h : c.StandsIn source) (hw : c.Walks true d)
    (hw' : d.Walks true e) :
    decide (c.position.line ≠ e.position.line)
      = (breaksLine (textBetween source c.position.offset
          d.position.offset)
        || breaksLine (textBetween source d.position.offset
          e.position.offset)) := by
  obtain ⟨hbreaks, hle⟩ := h.breaksLine_eq hw
  obtain ⟨hbreaks', hle'⟩ := (h.walks hw).breaksLine_eq hw'
  rw [hbreaks, hbreaks', Bool.eq_iff_iff]
  simp only [Bool.or_eq_true, decide_eq_true_eq]
  omega

end StandsIn

end Cursor

end ScriptTree
