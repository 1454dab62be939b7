/-
Lines that a reader misses.

# What is missed

An escape in braces takes the character after its digits whatever that
is, and fails. If that character ends a line, the reader goes on behind
it without having counted the line, and is a line short from there on.

# How this shows

A line that is missed shows in what is said of the failure: it is said of
the start of a line, but not of the first column
(`Diagnostic.missesLine`). No other failure is of this kind, but one at
the same place, before anything else was read. So the lines that a
reader counts are those of the text without the ones that its failures
show to be missed (`countedStarts`).

# Failures

A failed scan leads the cursor to where it has stopped, and what is said
of the failure shows what it has missed on the way
(`Cursor.CountsIn.leadsTo_of_stops`).
-/
import ScriptTree.Proofs.Accuracy
import ScriptTree.Proofs.Session

namespace ScriptTree

variable {text : List Char} {missed : List Nat} {c stop : Cursor}
  {d : Diagnostic} {p q : Position}

-- ============================================================ lines

/-- Said of the start of a line, with a column that says otherwise. -/
def Diagnostic.missesLine (text : List Char) (d : Diagnostic) : Bool :=
  d.index ∈ lineStarts text && d.column ≠ 1

/-- The starts of the lines that failures show to be missed. -/
def missedLines (text : List Char) (failures : List Diagnostic) :
    List Nat :=
  (failures.filter (·.missesLine text)).map (·.index)

/-- The starts of the other lines. -/
def countedStarts (text : List Char) (failures : List Diagnostic) :
    List Nat :=
  (lineStarts text).filter (· ∉ missedLines text failures)

/-- Behind a line terminator that cuts off the digits of an escape. -/
def StartsInEscape (text : List Char) (start : Nat) : Prop :=
  ∃ before digits ch after,
    text = before ++ ['\\', 'u', '\x7b'] ++ digits ++ ch :: after ∧
      digits.all isHexDigit = true ∧ isLineTerminator ch = true ∧
      start = byteLength (before ++ ['\\', 'u', '\x7b'] ++ digits ++ [ch])

theorem missedLines_append (failures later : List Diagnostic) :
    missedLines text (failures ++ later)
      = missedLines text failures ++ missedLines text later := by
  simp [missedLines]

theorem mem_missedLines_singleton {start : Nat} :
    start ∈ missedLines text [d] ↔
      d.missesLine text = true ∧ start = d.index := by
  cases h : d.missesLine text with
  | false => simp [missedLines, h]
  | true => simp [missedLines, h]

theorem missedLines_of_start (hstart : d.index ∈ lineStarts text)
    (hcolumn : d.column ≠ 1) : missedLines text [d] = [d.index] := by
  simp [missedLines, Diagnostic.missesLine, hstart, hcolumn]

theorem missedLines_of_not_start (h : d.index ∉ lineStarts text) :
    missedLines text [d] = [] := by
  simp [missedLines, Diagnostic.missesLine, h]

/-- Lines start one after the other. -/
theorem pairwise_lineStartsFrom (offset : Nat) (text : List Char) :
    (lineStartsFrom offset text).Pairwise (· < ·) := by
  fun_induction lineStartsFrom offset text with
  | case1 offset rest ih =>
      exact List.pairwise_cons.2 ⟨fun _ => lt_of_mem_lineStartsFrom, ih⟩
  | case2 offset ch rest _ next hch ih =>
      exact List.pairwise_cons.2 ⟨fun _ => lt_of_mem_lineStartsFrom, ih⟩
  | case3 offset ch rest _ next hch ih => exact ih
  | case4 => exact .nil

theorem pairwise_lineStarts (text : List Char) :
    (lineStarts text).Pairwise (· < ·) := by
  unfold lineStarts
  split
  case isTrue => exact .nil
  case isFalse =>
    exact List.pairwise_cons.2 ⟨fun _ => lt_of_mem_lineStartsFrom,
      pairwise_lineStartsFrom 0 text⟩

/-- The greatest of ascending numbers is the last of them. -/
theorem getLastD_of_pairwise {l : List Nat} {last : Nat}
    (hl : l.Pairwise (· < ·)) (hin : last ∈ l) (hle : ∀ n ∈ l, n ≤ last) :
    l.getLastD 0 = last := by
  obtain ⟨front, back, rfl⟩ := List.append_of_mem hin
  cases back with
  | nil => simp
  | cons n back =>
      have hlt : last < n :=
        (List.pairwise_cons.1 (List.pairwise_append.1 hl).2.1).1 n (by simp)
      have hge := hle n (by simp)
      omega

/-- Lines further on do not matter to a place. -/
theorem positionOn_congr {starts starts' : List Nat} {offset : Nat}
    (h : starts.filter (· ≤ offset) = starts'.filter (· ≤ offset)) :
    positionOn starts offset = positionOn starts' offset := by
  simp only [positionOn, h]

-- =========================================================== places

/-- A place is known from what is said of it. -/
theorem Position.eq_of_diagnose {cause cause' : Cause}
    (hp : p.lineStart ≤ p.offset) (hq : q.lineStart ≤ q.offset)
    (h : p.diagnose cause = q.diagnose cause') : p = q := by
  obtain ⟨offset, line, lineStart⟩ := p
  obtain ⟨offset', line', lineStart'⟩ := q
  simp only [Position.diagnose, Position.column_eq, Diagnostic.mk.injEq] at h
  obtain ⟨rfl, rfl, hcolumn, -⟩ := h
  have hstart : lineStart = lineStart' := by
    simp only at hp hq
    omega
  rw [hstart]

namespace Cursor

theorem offset_lt_advance {ch : Char} {rest : List Char}
    (hrest : c.rest = ch :: rest) :
    c.position.offset < c.advance.position.offset := by
  rw [advance_position hrest]
  exact Nat.lt_add_of_pos_right ch.utf8Size_pos

/-- Behind a character on the same line it is not the first column. -/
theorem Sound.column_advance {ch : Char} {rest : List Char}
    (h : c.Sound text) (hrest : c.rest = ch :: rest) :
    0 < c.advance.position.column := by
  have hle := h.position.lineStart_le
  have hlt := offset_lt_advance hrest
  have hsame : c.advance.position.lineStart = c.position.lineStart := by
    rw [advance_position hrest]
    rfl
  rw [Position.column_eq]
  omega

/-- Cursors at one offset have the same text before them. -/
theorem Sound.rest_eq (h : c.Sound text) (h' : stop.Sound text)
    (hoffset : c.position.offset = stop.position.offset) :
    c.rest = stop.rest := by
  obtain ⟨before, htext, hbefore⟩ := h.rest
  obtain ⟨before', htext', hbefore'⟩ := h'.rest
  have hsame : before = before' := by
    rw [← takeBytes_append before c.rest, ← htext, ← hbefore, hoffset,
      hbefore', htext', takeBytes_append]
  rw [hsame, htext'] at htext
  exact (List.append_cancel_left htext).symm

namespace CountsIn

theorem congr {missed' : List Nat} (h : c.CountsIn text missed)
    (hmissed : ∀ start, start ∈ missed' ↔ start ∈ missed) :
    c.CountsIn text missed' := by
  obtain ⟨hsource, hbefore, ⟨starts, hlines⟩, hle⟩ := h
  have hsame : starts.filter (· ∉ missed')
      = starts.filter (· ∉ missed) :=
    List.filter_congr fun start _ => by simp [hmissed]
  exact ⟨hsource, hbefore, ⟨starts, by rwa [hsame]⟩,
    fun start hin => hle start ((hmissed start).1 hin)⟩

theorem sound (h : c.CountsIn text missed) : c.Sound text where
  source := h.source_eq
  position := by
    obtain ⟨before, htext, hoffset⟩ := h.before
    rw [h.position_eq]
    exact sound_positionOn (fun _ hin => (List.mem_filter.1 hin).1)
      ⟨before, c.rest, htext, hoffset.symm⟩
  rest := h.before

/-- A cursor at the same place counts the same lines. -/
theorem of_position (h : c.CountsIn text missed) (hstop : stop.Sound text)
    (hposition : c.position = stop.position) :
    stop.CountsIn text missed := by
  have hrest := h.sound.rest_eq hstop (congrArg Position.offset hposition)
  exact ⟨hstop.source, hstop.rest, hposition ▸ hrest ▸ h.lines, hposition ▸ h.missed_le⟩

/-- Only where a line was missed is the start of a line not in the first
column. -/
theorem column_eq_zero (h : c.CountsIn text missed)
    (hstart : c.position.offset ∈ lineStarts text)
    (hcounted : c.position.offset ∉ missed) : c.position.column = 0 := by
  obtain ⟨-, -, ⟨starts, hstarts, hle, -, hlast⟩, -⟩ := h
  have hsorted := pairwise_lineStarts text
  rw [hstarts] at hstart hsorted
  have hin : c.position.offset ∈ starts := by
    rcases List.mem_append.1 hstart with hin | hin
    · exact hin
    · exact absurd (lt_of_mem_lineStartsFrom hin) (Nat.lt_irrefl _)
  have hline : c.position.lineStart = c.position.offset := by
    rw [hlast]
    refine getLastD_of_pairwise
      ((List.pairwise_append.1 hsorted).1.filter _)
      (List.mem_filter.2 ⟨hin, by simpa using hcounted⟩) ?_
    exact fun start hin => hle start (List.mem_filter.1 hin).1
  rw [Position.column_eq]
  omega

/-- The first half of a line break, taken like any other character: no
line is missed, since the second half is still to come. -/
theorem cut_half {rest : List Char} (h : c.CountsIn text missed)
    (hrest : c.rest = '\r' :: '\n' :: rest) :
    c.advance.position.offset ∉ lineStarts text ∧
      c.advance.CountsIn text missed := by
  refine ⟨fun hin => ?_, h.advance hrest lineStartsFrom_of_half⟩
  obtain ⟨-, -, ⟨starts, hstarts, hle, -⟩, -⟩ := h
  have hnext : c.advance.position.offset
      = c.position.offset + '\r'.utf8Size := (reads_advance hrest).offset
  rw [hstarts, hrest, lineStartsFrom_of_half, ← hnext] at hin
  rcases List.mem_append.1 hin with hin | hin
  · exact absurd (hle _ hin) (Nat.not_le_of_lt (offset_lt_advance hrest))
  · exact Nat.lt_irrefl _ (lt_of_mem_lineStartsFrom hin)

/-- Any other line terminator, taken like any other character: the line
that starts behind it is missed. -/
theorem cut_line {ch : Char} {rest : List Char} (h : c.CountsIn text missed)
    (hrest : c.rest = ch :: rest) (hch : isLineTerminator ch = true)
    (hcrlf : ∀ rest', ch :: rest ≠ '\r' :: '\n' :: rest') :
    c.advance.position.offset ∈ lineStarts text ∧
      c.advance.CountsIn text
        (missed ++ [c.advance.position.offset]) := by
  obtain ⟨hsource, ⟨before, htext, hoffset⟩,
    ⟨starts, hstarts, hle, hline, hlast⟩, hmissed⟩ := h
  have hr := reads_advance hrest
  have hnext : c.advance.position.offset
      = c.position.offset + ch.utf8Size := hr.offset
  have hforward := offset_lt_advance hrest
  have hstarts' : lineStarts text
      = (starts ++ [c.advance.position.offset])
        ++ lineStartsFrom c.advance.position.offset c.advance.rest := by
    rw [hstarts, hrest, lineStartsFrom_of_terminator hch hcrlf, ← hnext,
      advance_rest hrest, List.append_assoc]
    rfl
  have hcounted : (starts ++ [c.advance.position.offset]).filter
        (· ∉ missed ++ [c.advance.position.offset])
      = starts.filter (· ∉ missed) := by
    have hlast : [c.advance.position.offset].filter
        (· ∉ missed ++ [c.advance.position.offset]) = [] := by simp
    rw [List.filter_append, hlast, List.append_nil]
    refine List.filter_congr fun start hin => ?_
    have hne := Nat.ne_of_lt (Nat.lt_of_le_of_lt (hle start hin) hforward)
    simp [hne]
  -- Lines that start earlier, and the one that starts here.
  have hupTo {l : List Nat} (h : ∀ start ∈ l, start ≤ c.position.offset) :
      ∀ start ∈ l ++ [c.advance.position.offset],
        start ≤ c.advance.position.offset := by
    intro start hin
    rcases List.mem_append.1 hin with hin | hin
    · exact Nat.le_of_lt (Nat.lt_of_le_of_lt (h start hin) hforward)
    · exact Nat.le_of_eq (List.mem_singleton.1 hin)
  refine ⟨by simp [hstarts'], hr.source.trans hsource,
    ⟨before ++ [ch], ?_, ?_⟩, ⟨_, hstarts', hupTo hle, ?_, ?_⟩,
    hupTo hmissed⟩
  · rw [htext, hr.rest, List.append_assoc]
  · rw [hr.offset, hoffset, byteLength_append]
  · rw [hcounted, hr.line, hline, Nat.add_zero]
  · rw [hcounted, ← hlast, advance_position hrest]
    rfl

/-- What is said behind a line terminator that was taken like any other
character shows what is missed there. -/
theorem cut {ch : Char} {rest : List Char} (h : c.CountsIn text missed)
    (hrest : c.rest = ch :: rest) (hch : isLineTerminator ch = true)
    (cause : Cause) : c.advance.CountsIn text (missed
      ++ missedLines text [c.advance.position.diagnose cause]) := by
  by_cases hcrlf : ∃ rest', ch :: rest = '\r' :: '\n' :: rest'
  case pos =>
    obtain ⟨rest', hmark⟩ := hcrlf
    obtain ⟨hcounted, hnext⟩ := h.cut_half (hrest.trans hmark)
    rw [missedLines_of_not_start hcounted, List.append_nil]
    exact hnext
  case neg =>
    obtain ⟨hstart, hnext⟩ := h.cut_line hrest hch
      fun rest' hmark => hcrlf ⟨rest', hmark⟩
    have hcolumn : c.advance.position.column + 1 ≠ 1 :=
      Nat.succ_ne_succ_iff.2 (Nat.ne_of_gt (h.sound.column_advance hrest))
    rw [missedLines_of_start hstart hcolumn]
    exact hnext

end CountsIn

-- ============================================================= walks

/-- A walk goes forward. -/
theorem Walks.offset_le {mayBreak : Bool} (h : c.Walks mayBreak stop) :
    c.position.offset ≤ stop.position.offset := by
  obtain ⟨word, lines, hreads, -⟩ := h.reads
  rw [hreads.offset]
  exact Nat.le_add_right _ _

/-- What was read on one line leads along that line. -/
theorem Reads.position_eq {word : List Char} (h : c.Reads word 0 stop)
    (hwalk : c.Walks false stop) :
    stop.position = c.position.advance (byteLength word) := by
  have hoffset := h.offset
  have hline := h.line
  have hstart := hwalk.lineStart_eq
  rcases hp : stop.position with ⟨offset, line, lineStart⟩
  rw [hp] at hoffset hline hstart
  simp only at hoffset hline hstart
  rw [hoffset, hline, hstart]
  rfl

/-- The digits of an escape are walked over. -/
theorem walks_escape {digits rest : List Char}
    (hrest : c.rest = ['\\', 'u', '\x7b'] ++ digits ++ rest)
    (hdigits : digits.all isHexDigit = true) : ∃ cut,
      c.Walks false cut ∧
        c.Reads (['\\', 'u', '\x7b'] ++ digits) 0 cut := by
  have hline : breaksLine (['\\', 'u', '\x7b'] ++ digits) = false := by
    rw [breaksLine, List.any_append, Bool.or_eq_false_iff]
    refine ⟨rfl, List.any_eq_false.2 fun ch hin => ?_⟩
    rw [(withinLine_digitOf 16).not_terminator
      (List.all_eq_true.1 hdigits ch hin)]
    exact Bool.false_ne_true
  exact ⟨_, walks_skip hrest rfl hline, reads_skip hrest rfl⟩

-- ========================================================== failures

/-- How a cursor that counts all lines but the missed ones goes on to
another, while what is said of a failure shows what it misses in
between. -/
structure LeadsTo (text : List Char) (missed : List Nat) (c : Cursor)
    (more : List Nat) (stop : Cursor) : Prop where
  counts : stop.CountsIn text (missed ++ more)
  forward : c.position.offset ≤ stop.position.offset
  more : ∀ start ∈ more, start ∈ missed ∨
    c.position.offset < start ∧ StartsInEscape text start

/-- What a place that was walked to misses was missed before. -/
theorem CountsIn.leadsTo_of_halts (h : c.CountsIn text missed)
    (hhalts : c.Halts d) : ∃ stop,
      LeadsTo text missed c (missedLines text [d]) stop ∧
        d = stop.position.diagnose d.cause := by
  obtain ⟨stop, cause, hwalk, rfl⟩ := hhalts
  have hstop := h.walks hwalk
  have hbefore (start : Nat)
      (hin : start ∈ missedLines text [stop.position.diagnose cause]) :
      start ∈ missed := by
    obtain ⟨hmisses, rfl⟩ := mem_missedLines_singleton.1 hin
    simp only [Diagnostic.missesLine, Bool.and_eq_true,
      decide_eq_true_eq] at hmisses
    obtain ⟨hstart, hcolumn⟩ := hmisses
    refine Decidable.byContradiction fun hcounted => hcolumn ?_
    show stop.position.column + 1 = 1
    rw [hstop.column_eq_zero hstart hcounted]
  refine ⟨stop, ⟨hstop.congr fun start => ?_, hwalk.offset_le,
    fun start hin => .inl (hbefore start hin)⟩, rfl⟩
  rw [List.mem_append]
  exact ⟨fun hin => hin.elim id (hbefore start), .inl⟩

/-- Behind an escape that is cut off a line is missed, or is still to
come. -/
theorem CountsIn.leadsTo_of_cuts (h : c.CountsIn text missed)
    (hcuts : c.Cuts ['\\', 'u', '\x7b'] d) : ∃ stop,
      LeadsTo text missed c (missedLines text [d]) stop ∧
        d = stop.position.diagnose d.cause := by
  obtain ⟨digits, ch, rest, hrest, hdigits, hch, rfl⟩ := hcuts
  obtain ⟨cut, hwalk, hreads⟩ := walks_escape hrest hdigits
  have hcut : cut.rest = ch :: rest :=
    List.append_cancel_left (hreads.rest.symm.trans hrest)
  have hstop : cut.advance.position = c.position.advance
      (byteLength (['\\', 'u', '\x7b'] ++ digits ++ [ch])) := by
    rw [advance_position hcut, byteLength_append,
      ← Position.advance_advance, ← hreads.position_eq hwalk]
    rfl
  rw [← hstop]
  have hforward : c.position.offset < cut.advance.position.offset :=
    Nat.lt_of_le_of_lt hwalk.offset_le (offset_lt_advance hcut)
  refine ⟨cut.advance, ⟨(h.walks hwalk).cut hcut hch _,
    Nat.le_of_lt hforward, fun start hin => .inr ?_⟩, rfl⟩
  obtain ⟨-, rfl⟩ := mem_missedLines_singleton.1 hin
  obtain ⟨before, htext, hoffset⟩ := h.before
  refine ⟨hforward, before, digits, ch, rest, ?_, hdigits, hch, ?_⟩
  · rw [htext, hrest]
    simp
  · show cut.advance.position.offset = _
    rw [hstop]
    simp [Position.advance, hoffset, byteLength_append]

/-- A failed scan leads to where it has stopped. -/
theorem CountsIn.leadsTo_of_stops (h : c.CountsIn text missed)
    (hstops : c.Stops d) (hstop : stop.Sound text)
    (hd : d = stop.position.diagnose d.cause) :
    LeadsTo text missed c (missedLines text [d]) stop := by
  obtain ⟨mark, hwalk, hmisses⟩ := hstops
  have hmark := h.walks hwalk
  have hleads : ∃ stop', LeadsTo text missed mark
      (missedLines text [d]) stop' ∧ d = stop'.position.diagnose d.cause :=
    hmisses.elim hmark.leadsTo_of_halts hmark.leadsTo_of_cuts
  obtain ⟨stop', ⟨hcounts, hforward, hmore⟩, hd'⟩ := hleads
  have hposition : stop'.position = stop.position :=
    Position.eq_of_diagnose hcounts.sound.position.lineStart_le
      hstop.position.lineStart_le (hd'.symm.trans hd)
  have hreach := hwalk.offset_le
  refine ⟨hcounts.of_position hstop hposition, ?_, fun start hin => ?_⟩
  · rw [← hposition]
    exact Nat.le_trans hreach hforward
  · exact (hmore start hin).imp_right
      fun hnew => ⟨Nat.lt_of_le_of_lt hreach hnew.1, hnew.2⟩

end Cursor

end ScriptTree
