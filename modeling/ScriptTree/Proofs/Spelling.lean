/-
Strings are read as they are written.

# Steps

Each piece of a string is a step of its scan, and so are the two halves
of a pair (`StringStep`). So a string is read piece by piece up to the
quote that closes it, for the characters that its pieces stand for
(`readsPieces`).

# Spellings

The pieces that spell a text stand for that text, whichever of its
spellings they are (`Spells.decoded_eq`). Units stand for what they are
decoded to (`decoded_units`).
-/
import ScriptTree.Proofs.Piece
import ScriptTree.Source.NameRanges

namespace ScriptTree

open StringPiece (written decoded lines)

variable {c d : Cursor} {digits rest : List Char} {quote : Char}

-- ============================================================= steps

/-- A string that goes on as a cursor does, with some characters before
it and the text of them. -/
structure StringStep (quote : Char) (c : Cursor) (chars text : List Char)
    (lines : Nat) (d : Cursor) : Prop where
  reads : c.Reads text lines d
  goes_on : ∀ ⦃n more e⦄, quotedChars quote n d = .ok (some more) e →
    quotedChars quote (n + 1) c = .ok (some (chars ++ more)) e

namespace StringStep

variable {chars text : List Char} {count : Nat}

theorem whole {more text' : List Char} {count' n : Nat}
    (h : StringStep quote c chars text count d)
    (hmore : ∃ e, quotedChars quote n d = .ok (some more) e ∧
      d.Reads text' count' e) :
    ∃ e, quotedChars quote (n + 1) c = .ok (some (chars ++ more)) e ∧
      c.Reads (text ++ text') (count + count') e := by
  obtain ⟨e, he, hreads⟩ := hmore
  exact ⟨e, h.goes_on he, h.reads.trans hreads⟩

theorem plain {ch : Char}
    (hfits : (StringPiece.plain ch).fits quote = true)
    (hc : c.rest = ch :: rest) :
    StringStep quote c [ch] [ch] 0 c.advance where
  reads := Cursor.reads_advance hc
  goes_on n more e h := by
    simp only [StringPiece.fits, Bool.and_eq_true, decide_eq_true_eq,
      Bool.not_eq_true'] at hfits
    obtain ⟨⟨hquote, hslash⟩, hline⟩ := hfits
    rw [quotedChars_of_plain hquote hslash hline hc]
    exact bind_ok.2 ⟨some more, e, h, rfl⟩

theorem escape {ch : Char} {text : List Char} (hslash : quote ≠ '\\')
    (hc : c.rest = '\\' :: rest)
    (h : ∃ d, escaped c.advance = .ok (.char ch) d ∧
      c.advance.Reads text 0 d) :
    ∃ d, StringStep quote c [ch] ('\\' :: text) 0 d := by
  obtain ⟨d, hd, hreads⟩ := h
  refine ⟨d, (Cursor.reads_advance hc).trans hreads, fun n more e h => ?_⟩
  rw [quotedChars_of_escape hslash.symm hc]
  exact bind_ok.2 ⟨_, d, hd, bind_ok.2 ⟨some more, e, h, rfl⟩⟩

theorem lineBreak {terminator : List Char} (hslash : quote ≠ '\\')
    (hends : terminator ∈ lineEnds)
    (hc : c.rest = '\\' :: (terminator ++ rest))
    (hrest : rest.head? ≠ some '\n') :
    ∃ d, StringStep quote c [] ('\\' :: terminator) 1 d := by
  have hafter := Cursor.advance_rest hc
  obtain ⟨d, hd, hreads⟩ := lineBreak_of_end hends hafter hrest
  refine ⟨d, ?_, fun n more e h => ?_⟩
  · have htext := (Cursor.reads_advance hc).trans hreads
    rwa [Nat.zero_add] at htext
  rw [quotedChars_of_escape hslash.symm hc]
  exact bind_ok.2 ⟨_, d, escaped_of_lineBreak hd, h⟩

end StringStep

-- =========================================================== strings

variable {pieces : List StringPiece} {unit : Nat}

theorem written_cons (piece : StringPiece) :
    written (piece :: pieces) ++ quote :: rest
      = piece.text ++ (written pieces ++ quote :: rest) :=
  List.append_assoc ..

/-- Each piece has a character at least. -/
theorem length_le_written (pieces : List StringPiece) :
    pieces.length ≤ (written pieces).length := by
  induction pieces with
  | nil => exact Nat.le_refl _
  | cons piece pieces ih =>
      have hpos : 0 < piece.text.length := by
        cases piece <;> exact Nat.succ_pos _
      have hlength : (written (piece :: pieces)).length
          = piece.text.length + (written pieces).length :=
        List.length_append
      rw [List.length_cons, hlength]
      omega

theorem lines_cons (piece : StringPiece) :
    lines (piece :: pieces) = lines [piece] + lines pieces := by
  unfold lines
  rw [← List.countP_append]
  rfl

/-- What comes next in a string is no line terminator. -/
theorem head_written (hline : isLineTerminator quote = false)
    (hfits : ∀ piece ∈ pieces, piece.fits quote = true) :
    (written pieces ++ quote :: rest).head? ≠ some '\n' := by
  cases pieces with
  | nil =>
      rintro ⟨⟩
      cases hline
  | cons piece pieces =>
      have hfirst := hfits piece (List.mem_cons_self ..)
      cases piece with
      | plain ch =>
          rintro ⟨⟩
          simp [StringPiece.fits, isLineTerminator] at hfirst
      | letter | byte | unit | braced | lineBreak => rintro ⟨⟩

/-- A unit is not followed by the other half of a pair unless the next
piece is that. -/
theorem unpaired_written (hslash : quote ≠ '\\')
    (hfits : ∀ piece ∈ pieces, piece.fits quote = true)
    (hnext : ∀ low more, pieces = .unit low :: more →
      pairedUnits? unit (hexNumber low) = none) :
    Unpaired unit (written pieces ++ quote :: rest) := by
  intro low after hlow h
  cases pieces with
  | nil =>
      cases h
      exact absurd rfl hslash
  | cons piece pieces =>
      have hfirst := hfits piece (List.mem_cons_self ..)
      obtain ⟨hlength, hall⟩ := areHexDigits_iff.1 hlow
      rw [written_cons] at h
      cases piece with
      | plain ch =>
          obtain ⟨rfl, -⟩ := List.cons.inj h
          simp [StringPiece.fits] at hfirst
      | letter ch =>
          obtain ⟨-, h⟩ := List.cons.inj h
          obtain ⟨rfl, -⟩ := List.cons.inj h
          simp [StringPiece.fits] at hfirst
      | byte digits => cases (List.cons.inj (List.cons.inj h).2).1
      | unit digits =>
          have hdigits := (List.cons.inj (List.cons.inj h).2).2
          obtain ⟨rfl, -⟩ := List.append_inj hdigits
            ((areHexDigits_iff.1 hfirst).1.trans hlength.symm)
          exact hnext _ pieces rfl
      | braced digits =>
          have hdigits := (List.cons.inj (List.cons.inj h).2).2
          obtain ⟨ch, more, rfl⟩ := List.exists_cons_of_ne_nil
            (List.length_pos_iff.1 (by omega : 0 < low.length))
          obtain ⟨rfl, -⟩ := List.cons.inj hdigits
          rw [List.all_cons, Bool.and_eq_true] at hall
          exact absurd hall.1 (by decide)
      | lineBreak terminator =>
          have hmark := (List.cons.inj h).2
          rcases mem_lineEnds.1 (List.contains_iff_mem.1 hfirst) with
            ⟨ch, rfl, hch⟩ | rfl
          · obtain ⟨rfl, -⟩ := List.cons.inj hmark
            cases hch
          · cases (List.cons.inj hmark).1

/-- Any piece is a step, where a unit does not go together with what
comes after it. -/
theorem StringStep.of_piece {piece : StringPiece} (hslash : quote ≠ '\\')
    (hfits : piece.fits quote = true)
    (hc : c.rest = piece.text ++ rest) (hbreak : rest.head? ≠ some '\n')
    (halone : ∀ digits, piece = .unit digits →
      Unpaired (hexNumber digits) rest) :
    ∃ d, StringStep quote c piece.chars piece.text (lines [piece]) d := by
  cases piece with
  | plain ch => exact ⟨_, .plain hfits hc⟩
  | letter ch =>
      exact StringStep.escape hslash hc
        (escaped_letter hfits (Cursor.advance_rest hc))
  | byte digits =>
      exact StringStep.escape hslash hc
        (escaped_byte hfits (Cursor.advance_rest hc))
  | unit digits =>
      exact StringStep.escape hslash hc (escaped_unpaired hfits
        (Cursor.advance_rest hc) (halone digits rfl))
  | braced digits =>
      have hrest : c.advance.rest
          = 'u' :: '\x7b' :: (digits ++ ['\x7d'] ++ rest) :=
        Cursor.advance_rest hc
      rw [List.append_assoc] at hrest
      exact StringStep.escape hslash hc (escaped_braced hfits hrest)
  | lineBreak terminator =>
      exact StringStep.lineBreak hslash (List.contains_iff_mem.1 hfits) hc hbreak

/-- A string up to its closing quote that is read for the characters of
its pieces. -/
def ReadsPieces (quote : Char) (c : Cursor) (pieces : List StringPiece)
    (n : Nat) : Prop :=
  ∃ d, quotedChars quote n c = .ok (some (decoded pieces)) d ∧
    c.Reads (written pieces ++ [quote]) (lines pieces) d

/-- A piece in front of others that are read, if it stands for itself. -/
theorem ReadsPieces.cons {piece : StringPiece} {n : Nat}
    (hslash : quote ≠ '\\') (hline : isLineTerminator quote = false)
    (hfits : ∀ piece' ∈ piece :: pieces, piece'.fits quote = true)
    (hc : c.rest = written (piece :: pieces) ++ quote :: rest)
    (hnext : ∀ high low more, piece = .unit high →
      pieces = .unit low :: more →
      pairedUnits? (hexNumber high) (hexNumber low) = none)
    (hdecoded : decoded (piece :: pieces) = piece.chars ++ decoded pieces)
    (hmore : ∀ ⦃d : Cursor⦄, d.rest = written pieces ++ quote :: rest →
      ReadsPieces quote d pieces n) :
    ReadsPieces quote c (piece :: pieces) (n + 1) := by
  obtain ⟨hfirst, hfits⟩ := List.forall_mem_cons.1 hfits
  rw [written_cons] at hc
  obtain ⟨d, hstep⟩ := StringStep.of_piece hslash hfirst hc
    (head_written hline hfits) fun digits hpiece =>
      unpaired_written hslash hfits fun low more => hnext _ low more hpiece
  obtain ⟨e, he, hreads⟩ := hstep.whole (hmore (hstep.reads.rest_eq hc))
  refine ⟨e, by rw [hdecoded, he], ?_⟩
  rw [written_cons, lines_cons]
  exact hreads

/-- The two halves of a pair in front of pieces that are read. -/
theorem ReadsPieces.pair {high low : List Char} {ch : Char} {n : Nat}
    (hslash : quote ≠ '\\') (hhigh : areHexDigits 4 high = true)
    (hlow : areHexDigits 4 low = true)
    (hpair : pairedUnits? (hexNumber high) (hexNumber low) = some ch)
    (hc : c.rest
      = written (.unit high :: .unit low :: pieces) ++ quote :: rest)
    (hmore : ∀ ⦃d : Cursor⦄, d.rest = written pieces ++ quote :: rest →
      ReadsPieces quote d pieces n) :
    ReadsPieces quote c (.unit high :: .unit low :: pieces) (n + 1) := by
  have htext (rest : List Char) :
      written (.unit high :: .unit low :: pieces) ++ quote :: rest
        = ('\\' :: 'u' :: (high ++ '\\' :: 'u' :: low))
          ++ (written pieces ++ quote :: rest) := by
    rw [written_cons, written_cons]
    simp only [StringPiece.text, List.cons_append, List.append_assoc]
  rw [htext] at hc
  have hrest : c.advance.rest = 'u' :: (high ++ '\\' :: 'u' ::
      (low ++ (written pieces ++ quote :: rest))) := by
    rw [Cursor.advance_rest hc]
    simp only [List.append_eq, List.cons_append, List.append_assoc]
  obtain ⟨d, hstep⟩ := StringStep.escape hslash hc
    (escaped_paired hhigh hlow hpair hrest)
  obtain ⟨e, he, hreads⟩ := hstep.whole (hmore (hstep.reads.rest_eq hc))
  have hlines : lines (.unit high :: .unit low :: pieces)
      = 0 + lines pieces := by
    rw [lines_cons, lines_cons]
    rfl
  refine ⟨e, ?_, ?_⟩
  · rw [he, decoded, hpair]
    rfl
  · rw [htext, hlines]
    exact hreads

/-- A string is read piece by piece, up to its closing quote. There are
enough steps if there is one for each piece. -/
theorem readsPieces (hslash : quote ≠ '\\')
    (hline : isLineTerminator quote = false) {n : Nat}
    (hfits : ∀ piece ∈ pieces, piece.fits quote = true)
    (hc : c.rest = written pieces ++ quote :: rest)
    (hn : pieces.length ≤ n) : ReadsPieces quote c pieces (n + 1) := by
  induction pieces using StringPiece.decoded.induct generalizing c n with
  | case1 =>
      have hc : c.rest = quote :: rest := hc
      exact ⟨c.advance, quotedChars_of_quote hc, Cursor.reads_advance hc⟩
  | case2 high low pieces ch hpair ih =>
      obtain ⟨n, rfl⟩ := Nat.exists_eq_add_of_le' hn
      obtain ⟨hhigh, hlow, hlater⟩ : areHexDigits 4 high = true ∧
          areHexDigits 4 low = true ∧
            ∀ piece ∈ pieces, piece.fits quote = true := by
        simpa [StringPiece.fits] using hfits
      exact .pair hslash hhigh hlow hpair hc fun d hd =>
        ih hlater hd (Nat.le_add_left_of_le (Nat.le_add_right _ _))
  | case3 high low pieces hnone ih =>
      obtain ⟨n, rfl⟩ := Nat.exists_eq_add_of_le' hn
      refine .cons hslash hline hfits hc ?_ ?_ fun d hd =>
        ih (List.forall_mem_cons.1 hfits).2 hd (Nat.le_add_left _ _)
      · rintro _ _ _ ⟨⟩ ⟨⟩
        exact hnone
      · rw [decoded, hnone]
        rfl
  | case4 piece pieces hnot ih =>
      obtain ⟨n, rfl⟩ := Nat.exists_eq_add_of_le' hn
      refine .cons hslash hline hfits hc ?_ ?_ fun d hd =>
        ih (List.forall_mem_cons.1 hfits).2 hd (Nat.le_add_left _ _)
      · intro high low more hpiece hpieces
        exact (hnot high low more hpiece hpieces).elim
      · rw [decoded]
        exact hnot

-- ========================================================= spellings

/-- The code of a character is no half of a pair. -/
theorem pairedUnits?_of_valid {high : Nat} (h : high.isValidChar)
    (low : Nat) : pairedUnits? high low = none := by
  unfold pairedUnits?
  rw [if_neg]
  simp only [Bool.and_eq_true, decide_eq_true_eq]
  unfold Nat.isValidChar at h
  omega

/-- The two units of a character are a pair. -/
theorem pairedUnits?_of_char {ch : Char} (h : ¬ch.toNat < 0x10000) :
    pairedUnits? (0xD800 + (ch.toNat - 0x10000) / 0x400)
      (0xDC00 + (ch.toNat - 0x10000) % 0x400) = some ch := by
  have hvalid : ch.toNat.isValidChar := ch.valid
  have hrange : ch.toNat < 0x110000 := by
    unfold Nat.isValidChar at hvalid
    omega
  unfold pairedUnits?
  have hcode : 0x10000 + (0xD800 + (ch.toNat - 0x10000) / 0x400 - 0xD800)
      * 0x400 + (0xDC00 + (ch.toNat - 0x10000) % 0x400 - 0xDC00)
      = ch.toNat := by omega
  rw [if_pos, hcode, Char.ofNat_toNat]
  simp only [Bool.and_eq_true, decide_eq_true_eq]
  omega

theorem decoded_cons {piece : StringPiece}
    (h : ∀ digits, piece = .unit digits → (hexNumber digits).isValidChar) :
    decoded (piece :: pieces) = piece.chars ++ decoded pieces := by
  rw [StringPiece.decoded.eq_def]
  split
  case h_1 hnil => cases hnil
  case h_2 high low pieces' heq =>
    cases heq
    rw [pairedUnits?_of_valid (h high rfl)]
    rfl
  case h_3 heq =>
    cases heq
    rfl

/-- A piece that stands for one character. -/
theorem decoded_one {piece : StringPiece} {ch : Char}
    (h : ∀ digits, piece = .unit digits → (hexNumber digits).isValidChar)
    (hchars : piece.chars = [ch]) :
    decoded ([piece] ++ pieces) = ch :: decoded pieces := by
  rw [List.singleton_append, decoded_cons h, hchars]
  rfl

/-- The units of a character stand for it, whatever comes after them. -/
theorem decoded_utf16Units {units : List (List Char)} {ch : Char}
    (h : units.map hexNumber = utf16Units ch) :
    decoded (units.map .unit ++ pieces) = ch :: decoded pieces := by
  unfold utf16Units at h
  split at h
  case isTrue =>
    obtain ⟨digits, rfl, hnumber⟩ :
        ∃ digits, units = [digits] ∧ hexNumber digits = ch.toNat := by
      simpa [List.map_eq_cons_iff] using h
    have hvalid : (hexNumber digits).isValidChar := hnumber ▸ ch.valid
    refine decoded_one (by rintro _ ⟨⟩; exact hvalid) ?_
    rw [StringPiece.chars, loneUnit, if_pos hvalid, hnumber,
      Char.ofNat_toNat]
  case isFalse hbeyond =>
    obtain ⟨high, low, rfl, hhigh, hlow⟩ : ∃ high low,
        units = [high, low] ∧
          hexNumber high = 0xD800 + (ch.toNat - 0x10000) / 0x400 ∧
          hexNumber low = 0xDC00 + (ch.toNat - 0x10000) % 0x400 := by
      simp only [List.map_eq_cons_iff, List.map_eq_nil_iff] at h
      obtain ⟨high, _, rfl, hhigh, low, _, rfl, hlow, rfl⟩ := h
      exact ⟨high, low, rfl, hhigh, hlow⟩
    have hpair := pairedUnits?_of_char hbeyond
    rw [← hhigh, ← hlow] at hpair
    show decoded (.unit high :: .unit low :: pieces) = _
    rw [decoded, hpair]

namespace Writes

variable {ch : Char} {first : List StringPiece}

theorem fits (h : Writes quote ch first) :
    ∀ piece ∈ first, piece.fits quote = true := by
  cases h with
  | itself hquote hslash hline => simp [StringPiece.fits, *]
  | braced hne hall hnumber =>
      have hvalid : ch.toNat.isValidChar := ch.valid
      simp [StringPiece.fits, *]
  | units hdigits hnumbers =>
      intro piece hpiece
      obtain ⟨digits, hmem, rfl⟩ := List.mem_map.1 hpiece
      exact hdigits digits hmem
  | byte hdigits hnumber => simp [StringPiece.fits, hdigits]
  | named hmem =>
      simp only [namedEscapes, List.mem_cons, List.not_mem_nil, or_false,
        Prod.mk.injEq] at hmem
      rcases hmem with ⟨rfl, -⟩ | ⟨rfl, -⟩ | ⟨rfl, -⟩ | ⟨rfl, -⟩ |
        ⟨rfl, -⟩ | ⟨rfl, -⟩ <;>
        exact List.forall_mem_singleton.2 rfl
  | escaped hline hnot =>
      simp only [List.mem_cons, not_or] at hnot
      simp [StringPiece.fits, hline, hnot.1, hnot.2.1]

theorem decoded_append (h : Writes quote ch first)
    (pieces : List StringPiece) :
    decoded (first ++ pieces) = ch :: decoded pieces := by
  cases h with
  | itself => exact decoded_one (by rintro _ ⟨⟩) rfl
  | braced _ _ hnumber =>
      refine decoded_one (by rintro _ ⟨⟩) ?_
      rw [StringPiece.chars, hnumber, Char.ofNat_toNat]
  | units _ hnumbers => exact decoded_utf16Units hnumbers
  | byte _ hnumber =>
      refine decoded_one (by rintro _ ⟨⟩) ?_
      rw [StringPiece.chars, hnumber, Char.ofNat_toNat]
  | @named letter hmem =>
      have hlookup : namedEscapes.lookup letter = some ch := by
        simp only [namedEscapes, List.mem_cons, List.not_mem_nil, or_false,
          Prod.mk.injEq] at hmem
        rcases hmem with ⟨rfl, rfl⟩ | ⟨rfl, rfl⟩ | ⟨rfl, rfl⟩ |
          ⟨rfl, rfl⟩ | ⟨rfl, rfl⟩ | ⟨rfl, rfl⟩ <;> rfl
      refine decoded_one (by rintro _ ⟨⟩) ?_
      rw [StringPiece.chars, hlookup]
      rfl
  | escaped _ hnot =>
      have hlookup : namedEscapes.lookup ch = none := by
        simp only [List.mem_cons, List.not_mem_nil, or_false, not_or] at hnot
        simp [namedEscapes, List.lookup_eq_none_iff, hnot]
      refine decoded_one (by rintro _ ⟨⟩) ?_
      rw [StringPiece.chars, hlookup]
      rfl

end Writes

namespace Spells

variable {chars : List Char}

theorem fits (h : Spells quote chars pieces) :
    ∀ piece ∈ pieces, piece.fits quote = true := by
  induction h with
  | nil => exact fun _ h => absurd h List.not_mem_nil
  | lineBreak hends _ ih =>
      exact List.forall_mem_cons.2 ⟨List.contains_iff_mem.2 hends, ih⟩
  | char hfirst _ ih =>
      exact List.forall_mem_append.2 ⟨hfirst.fits, ih⟩

/-- A text is decoded from any way to spell it. -/
theorem decoded_eq (h : Spells quote chars pieces) :
    decoded pieces = chars := by
  induction h with
  | nil => rfl
  | lineBreak _ _ ih =>
      rw [decoded_cons (fun _ h => by cases h), ih]
      rfl
  | char hfirst _ ih => rw [hfirst.decoded_append, ih]

end Spells

-- ============================================================ tokens

/-- A string of pieces is read as one token that covers it, and lines are
counted on the way. -/
theorem token_of_pieces [NameProperties] {r : TokenReader}
    (hquote : quote = '\'' ∨ quote = '"')
    (hfits : ∀ piece ∈ pieces, piece.fits quote = true)
    (hr : r.cursor.rest = quote :: (written pieces ++ quote :: rest)) :
    ∃ stop, r.token = .ok
        ⟨.string, .text (.ofList (decoded pieces)),
          .ofList (quote :: (written pieces ++ [quote])),
          ⟨r.cursor.position, stop.position⟩⟩
        { r with cursor := stop } ∧
      r.cursor.Reads (quote :: (written pieces ++ [quote])) (lines pieces)
        stop := by
  have hslash : quote ≠ '\\' := by rcases hquote with rfl | rfl <;> decide
  have hline := quote_withinLine hquote
  have hopen := Cursor.reads_advance hr
  have hcount : pieces.length + 1 ≤ r.cursor.rest.length := by
    have hle := length_le_written pieces
    rw [hr, List.length_cons, List.length_append]
    omega
  obtain ⟨n, hn⟩ := Nat.exists_eq_add_of_le' hcount
  obtain ⟨stop, hstop, hreads⟩ := readsPieces hslash hline hfits
    (hopen.rest_eq hr) (Nat.le_add_left pieces.length n)
  have hwhole := hopen.trans hreads
  rw [Nat.zero_add] at hwhole
  refine ⟨stop, TokenReader.token_eq_ok.2
    ⟨stop, r.log, ?_, Parse.accept_ok.2 rfl, rfl⟩, hwhole⟩
  rw [Nat.add_assoc, ← hn] at hstop
  rw [Cursor.token_of_quote hquote hr]
  exact (quotedToken_eq_ok hquote hr).2
    ⟨_, hstop, (hwhole.tokenTo_eq _ _).symm⟩

/-- Every spelling of a text is read as the text, in one token that covers
it. The lines that go on are counted, and nothing else has changed. -/
theorem token_of_spelling [NameProperties]
    {chars after : List Char} {r : TokenReader}
    (hquote : quote = '\'' ∨ quote = '"')
    (hspells : Spells quote chars pieces)
    (hr : r.cursor.rest = quote :: (written pieces ++ quote :: after)) :
    let literal := quote :: (written pieces ++ [quote])
    ∃ stop, r.token = .ok
        ⟨.string, .text (.ofList chars), .ofList literal,
          ⟨r.cursor.position, stop.position⟩⟩
        { r with cursor := stop } ∧
      stop.rest = after ∧
      stop.position.offset
        = r.cursor.position.offset + byteLength literal ∧
      stop.position.line = r.cursor.position.line + lines pieces := by
  obtain ⟨stop, htoken, hreads⟩ := token_of_pieces hquote hspells.fits hr
  rw [hspells.decoded_eq] at htoken
  have hafter : stop.rest = after := by
    apply hreads.rest_eq
    rw [hr, List.cons_append, List.append_assoc]
    rfl
  exact ⟨stop, htoken, hafter, hreads.offset, hreads.line⟩

/-- Six characters in as many ways, and two lines that go on. -/
theorem token_of_spelling_mixed :
    let chars := ['a', 'é', '😀', '\n', '"', 'A']
    let pieces : List StringPiece :=
      [.plain 'a', .byte ['e', '9'], .unit ['D', '8', '3', 'd'],
        .unit ['d', 'E', '0', '0'], .lineBreak ['\r', '\n'], .letter 'n',
        .lineBreak ['\r'], .letter '"', .braced ['0', '0', '4', '1']]
    let literal := ("\"a\\xe9\\uD83d\\udE00\\\r\n\\n\\\r\\\""
      ++ "\\u\x7b0041\x7d\"").toList
    let r := TokenReader.ofText (literal ++ [';']) false false
    Spells '"' chars pieces ∧ ∃ stop,
      r.token = .ok
        ⟨.string, .text (.ofList chars), .ofList literal,
          ⟨r.cursor.position, stop.position⟩⟩
        { r with cursor := stop } ∧
      stop.rest = [';'] ∧
      stop.position.offset = r.cursor.position.offset + byteLength literal ∧
      stop.position.line = 3 := by
  intro chars pieces literal r
  have hspells : Spells '"' chars pieces := by
    refine .char (.itself (by decide) (by decide) (by decide)) ?_
    refine .char (.byte (by decide) (by decide)) ?_
    have hunits : Writes '"' '😀' ([['D', '8', '3', 'd'],
        ['d', 'E', '0', '0']].map .unit) := .units (by decide) (by decide)
    refine .char hunits (.lineBreak (by decide) ?_)
    refine .char (.named (by decide)) (.lineBreak (by decide) ?_)
    refine .char (.escaped (by decide) (by decide)) ?_
    exact .char (.braced (by decide) (by decide) (by decide)) .nil
  exact ⟨hspells, token_of_spelling (.inr rfl) hspells rfl⟩

-- ============================================================= units

theorem written_units (units : List (List Char)) :
    written (units.map .unit) = escapedUnits units :=
  List.flatMap_map ..

theorem decoded_units : ∀ units : List (List Char),
    decoded (units.map .unit) = decodeUnits (units.map hexNumber)
  | [] => rfl
  | [_] => rfl
  | high :: low :: units => by
      have hlater := decoded_units units
      have hnext := decoded_units (low :: units)
      simp only [List.map_cons, decoded, decodeUnits] at hnext ⊢
      cases pairedUnits? (hexNumber high) (hexNumber low) with
      | none => rw [hnext]
      | some ch => rw [hlater]

/-- Units one after the other are read as the text that they stand for,
whether or not they are halves of pairs. -/
theorem token_of_units [NameProperties]
    {units : List Nat} {digits : List (List Char)}
    {after : List Char} {r : TokenReader}
    (hquote : quote = '\'' ∨ quote = '"')
    (hdigits : ∀ unit ∈ digits, areHexDigits 4 unit = true)
    (hunits : digits.map hexNumber = units)
    (hr : r.cursor.rest
      = quote :: (escapedUnits digits ++ quote :: after)) :
    ∃ stop, r.token = .ok
        ⟨.string, .text (.ofList (decodeUnits units)),
          .ofList (quote :: (escapedUnits digits ++ [quote])),
          ⟨r.cursor.position, stop.position⟩⟩
        { r with cursor := stop } ∧
      stop.rest = after := by
  have hfits : ∀ piece ∈ digits.map StringPiece.unit,
      piece.fits quote = true := by
    intro piece hpiece
    obtain ⟨unit, hunit, rfl⟩ := List.mem_map.1 hpiece
    exact hdigits unit hunit
  rw [← written_units] at hr ⊢
  obtain ⟨stop, htoken, hreads⟩ := token_of_pieces hquote hfits hr
  rw [decoded_units, hunits] at htoken
  refine ⟨stop, htoken, hreads.rest_eq ?_⟩
  rw [hr, List.cons_append, List.append_assoc]
  rfl

/-- Of two first halves in a row the first stands alone, and so do a
second half and a first half at the end. -/
theorem token_of_units_alone :
    let units := [0xD83D, 0xD83D, 0xDE00, 0x41, 0xDE00, 0xD83D]
    let digits := [['D', '8', '3', 'D'], ['d', '8', '3', 'd'],
      ['D', 'E', '0', '0'], ['0', '0', '4', '1'], ['d', 'e', '0', '0'],
      ['D', '8', '3', 'D']]
    let literal :=
      "'\\uD83D\\ud83d\\uDE00\\u0041\\ude00\\uD83D'".toList
    let r := TokenReader.ofText literal false false
    decodeUnits units = ['\uFFFD', '😀', 'A', '\uFFFD', '\uFFFD'] ∧
    (∀ unit ∈ digits, areHexDigits 4 unit = true) ∧
    digits.map hexNumber = units ∧ ∃ stop,
      r.token = .ok
        ⟨.string, .text (.ofList (decodeUnits units)), .ofList literal,
          ⟨r.cursor.position, stop.position⟩⟩
        { r with cursor := stop } ∧
      stop.rest = [] := by
  intro units digits literal r
  have hdigits : ∀ unit ∈ digits, areHexDigits 4 unit = true := by decide
  have hunits : digits.map hexNumber = units := by decide
  exact ⟨by decide, hdigits, hunits,
    token_of_units (.inl rfl) hdigits hunits rfl⟩

end ScriptTree
