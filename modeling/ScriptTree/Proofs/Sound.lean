/-
Nothing that a session with a reader gives out is out of bounds.

# Cursors

A cursor that strays from a sound one is sound (`Cursor.Sound.strays`),
so every scan keeps the cursor sound, also one that fails. Going back is
going to a cursor that was sound when it was kept. So all cursors of a
session are sound, and what is answered is cut out between two of them
(`Session.Sound.answers`).

# Codes

The code of an escape has four digits at most, or stays at a bound of its
own, or comes from two surrogates (`Cursor.codesFit`). In each case 32
bits are enough.
-/
import ScriptTree.Proofs.Action
import ScriptTree.Proofs.Scanning.Failure
import ScriptTree.Proofs.Tiling
import ScriptTree.Token.Session

namespace ScriptTree

variable {text : List Char} {c d : Cursor}

-- =========================================================== cursors

namespace Cursor

theorem sound_ofText (text : List Char) : (ofText text).Sound text where
  source := rfl
  position := by
    have hzero : IsBoundary text 0 := ⟨[], text, rfl, rfl⟩
    exact ⟨Nat.zero_le _, hzero, hzero, Nat.le_refl _⟩
  rest := ⟨[], (ofText_rest text).symm, rfl⟩

namespace Sound

/-- What was read leads from a sound cursor to a sound one, if that is on
the same line or starts one. -/
theorem of_reads {word : List Char} {lines : Nat} (h : c.Sound text)
    (hr : c.Reads word lines d)
    (hline : d.position.lineStart = c.position.lineStart ∨
      d.position.lineStart = d.position.offset) : d.Sound text := by
  obtain ⟨before, htext, hoffset⟩ := h.rest
  have hbefore : text = before ++ word ++ d.rest := by
    rw [List.append_assoc, ← hr.rest]
    exact htext
  have hnext : d.position.offset = byteLength (before ++ word) := by
    rw [byteLength_append, ← hoffset]
    exact hr.offset
  have hboundary : IsBoundary text d.position.offset :=
    ⟨before ++ word, d.rest, hbefore, hnext.symm⟩
  refine ⟨hr.source.trans h.source,
    ⟨hboundary.le_byteLength, hboundary, ?_, ?_⟩,
    before ++ word, hbefore, hnext⟩
  · rcases hline with hsame | hstart
    · rw [hsame]
      exact h.position.lineBoundary
    · rw [hstart]
      exact hboundary
  · rcases hline with hsame | hstart
    · have hle := h.position.lineStart_le
      have hforward := hr.offset
      omega
    · exact Nat.le_of_eq hstart

/-- A sound cursor stands between two characters. -/
theorem inStep (h : c.Sound text) : c.InStep := by
  obtain ⟨before, htext, hoffset⟩ := h.rest
  exact textFrom?_eq_some.2 ⟨before, h.source.trans htext, hoffset.symm⟩

theorem advance (h : c.Sound text) : c.advance.Sound text := by
  cases hrest : c.rest with
  | nil => rwa [advance_nil hrest]
  | cons ch rest =>
      have hsame : c.advance.position.lineStart = c.position.lineStart := by
        rw [advance_eq hrest]
        rfl
      exact h.of_reads (reads_advance hrest) (.inl hsame)

theorem lineBreak (h : c.Sound text) (hbreak : c.lineBreak? = some d) :
    d.Sound text := by
  rcases lineBreak?_eq_some.1 hbreak with
    ⟨rest, hrest, rfl⟩ | ⟨ch, rest, hrest, -, -, rfl⟩
  · have hpair : c.rest = ['\r', '\n'] ++ rest := hrest
    exact h.of_reads (reads_startLine hpair) (.inr rfl)
  · have hone : c.rest = [ch] ++ rest := hrest
    exact h.of_reads (reads_startLine hone) (.inr rfl)

theorem strays (h : c.Sound text) (hd : c.Strays d) : d.Sound text := by
  induction hd with
  | refl => exact h
  | advance _ ih => exact ih h.advance
  | lineBreak hbreak _ ih => exact ih (h.lineBreak hbreak)
  | braces _ ih => exact ih ⟨h.source, h.position, h.rest⟩

/-- The text between two sound cursors. -/
theorem textBetween_eq {word : List Char} {lines : Nat}
    (h : c.Sound text) (hr : c.Reads word lines d) :
    textBetween text c.position.offset d.position.offset = word := by
  obtain ⟨before, htext, hoffset⟩ := h.rest
  exact hr.textBetween_eq htext hoffset

end Sound

/-- What is left of a text when the front of it was read. -/
theorem Reads.after {front word : List Char} {e : Cursor}
    (h : c.Reads front 0 d) (h' : c.Reads (front ++ word) 0 e) :
    d.Reads word 0 e where
  source := h'.source.trans h.source.symm
  rest := by
    have hrest := h.rest.symm.trans h'.rest
    rw [List.append_assoc] at hrest
    exact List.append_cancel_left hrest
  offset := by
    rw [h'.offset, h.offset, byteLength_append, Nat.add_assoc]
  line := by rw [h'.line, h.line]

/-- A walk within a line stays on that line. -/
theorem Walks.lineStart_eq (h : c.Walks false d) :
    d.position.lineStart = c.position.lineStart := by
  induction h with
  | refl => rfl
  | @char c d ch rest hrest _ _ ih =>
      rw [ih, advance_eq hrest]
      rfl
  | lineBreak hmay => cases hmay
  | braces _ ih => exact ih

end Cursor

-- ================================================ tokens and comments

/-- A failure where a sound cursor has stopped. -/
theorem Position.Sound.diagnose {p : Position} (h : p.Sound text)
    (cause : Cause) : (p.diagnose cause).Sound text := ⟨p, h, rfl⟩

namespace Cursor.Sound

theorem token [NameProperties] {t : Token} (h : c.Sound text)
    (htoken : Cursor.token c = .ok t d) :
    d.Sound text ∧ t.Sound text ∧ t.span.start = c.position := by
  have hd := h.strays (token_walks htoken).1.strays
  apply And.intro hd
  rcases Cursor.token_ends htoken with
    ⟨-, -, -, rfl⟩ | ⟨-, word, lines, -, hreads, hraw, hspan⟩
  · have hempty := h.textBetween_eq (Cursor.Reads.refl c)
    refine ⟨⟨h.position, h.position, Nat.le_refl _, ?_⟩, rfl⟩
    exact congrArg String.ofList hempty.symm
  · have hle := hreads.offset
    rw [hspan]
    refine ⟨⟨?_, ?_, ?_, ?_⟩, rfl⟩
    · rw [hspan]
      exact h.position
    · rw [hspan]
      exact hd.position
    · rw [hspan]
      show c.position.offset ≤ d.position.offset
      omega
    · rw [hspan, hraw]
      exact congrArg String.ofList (h.textBetween_eq hreads).symm

/-- A failure leaves the cursor in bounds, and is said of its place. -/
theorem token_fails [NameProperties] {found : Diagnostic} (h : c.Sound text)
    (htoken : Cursor.token c = .error found d) :
    d.Sound text ∧ found.Sound text := by
  have hfails := failsAt_token htoken
  have hd := h.strays hfails.strays
  exact ⟨hd, d.position, hd.position, hfails.said⟩

/-- A comment starts with its two slashes, and stays on its line. -/
theorem comment {comment : Comment} (h : c.Sound text)
    (hcomment : c.comment? = some (comment, d)) :
    comment.Sound text := by
  obtain ⟨body, stop, hreads, hwalk, -, rfl, -⟩ :=
    Cursor.comment?_eq_some hcomment
  have hskip : c.Reads ['/', '/'] 0 (c.skip 2) :=
    Cursor.reads_skip hreads.rest rfl
  have hread : (c.skip 2).Reads body 0 stop := hskip.after hreads
  have hslashes : c.Walks true (c.skip 2) :=
    Cursor.walks_skip hskip.rest rfl rfl
  have hbody := h.strays hslashes.strays
  have hoffset : (c.skip 2).position.offset = c.position.offset + 2 :=
    hskip.offset
  have hcut := hbody.textBetween_eq hread
  rw [hoffset] at hcut
  have hle : c.position.offset + 2 ≤ stop.position.offset := by
    rw [hread.offset, hoffset]
    exact Nat.le_add_right _ _
  exact ⟨h.position, (h.strays hwalk.strays).position,
    hoffset ▸ hbody.position.boundary, hle, hwalk.lineStart_eq,
    congrArg String.ofList hcut.symm⟩

/-- So does each comment that is passed over. -/
theorem skipTriviaWithin (steps : Nat) (h : c.Sound text) :
    ∀ comment ∈ (c.skipTriviaWithin steps).1, comment.Sound text := by
  intro comment hin
  obtain ⟨start, next, hstart, hcomment, -⟩ :=
    Cursor.comment_found steps c hin
  exact (h.strays hstart.strays).comment hcomment

end Cursor.Sound

-- ========================================================== sessions

namespace Session

theorem sound_ofText (text : List Char) (tolerant keepsComments : Bool) :
    (ofText text tolerant keepsComments).Sound text where
  cursor := Cursor.sound_ofText text
  kept := by simp [ofText]
  recorded := by simp [ofText, TokenReader.ofText]

namespace Sound

variable {s : Session}

/-- Only an escape in a reserved word is recorded, at the token. -/
theorem accept {log log' : DiagnosticLog} {t : Token}
    (h : ∀ d ∈ log.recorded, d.Sound text) (ht : t.span.start.Sound text)
    (haccept : log.accept t = .ok log') :
    ∀ d ∈ log'.recorded, d.Sound text := by
  intro d hin
  rcases Parse.mem_of_accept haccept hin with hin | rfl
  · exact h d hin
  · exact ht.diagnose _

/-- A token that the log does not accept is reported where it starts. -/
theorem accept_fails {log : DiagnosticLog} {t : Token} {found : Diagnostic}
    (ht : t.span.start.Sound text)
    (haccept : log.accept t = .error found) : found.Sound text := by
  rw [Parse.accept_error haccept]
  exact ht.diagnose _

theorem token [NameProperties] (h : s.Sound text) :
    (s.answer .token).1.Sound text ∧ (s.answer .token).2.Sound text := by
  unfold answer
  cases htoken : s.reader.token with
  | ok t reader =>
      obtain ⟨stop, log, hscan, haccept, rfl⟩ :=
        TokenReader.token_eq_ok.1 htoken
      obtain ⟨hd, ht, -⟩ := h.cursor.token hscan
      exact ⟨ht, hd, h.kept, accept h.recorded ht.start haccept⟩
  | error found reader =>
      rcases TokenReader.token_eq_error.1 htoken with
        ⟨stop, hscan, rfl⟩ | ⟨t, stop, hscan, haccept, rfl⟩
      · obtain ⟨hd, hfound⟩ := h.cursor.token_fails hscan
        exact ⟨hfound, hd, h.kept, h.recorded⟩
      · obtain ⟨-, ht, -⟩ := h.cursor.token hscan
        exact ⟨accept_fails ht.start haccept, h⟩

theorem trivia [NameProperties] (h : s.Sound text) :
    (s.answer .trivia).1.Sound text ∧
      (s.answer .trivia).2.Sound text := by
  have hcomments := h.cursor.skipTriviaWithin s.reader.cursor.rest.length
  have hcursor := h.cursor.strays
    (Cursor.walks_skipTrivia s.reader.cursor).strays
  exact ⟨fun comment hin =>
    hcomments comment (TokenReader.mem_skipTrivia hin), hcursor, h.kept,
    h.recorded⟩

theorem keep [NameProperties]
    (h : s.Sound text) : (s.answer .keep).2.Sound text where
  cursor := h.cursor
  kept cursor hin := by
    rcases List.mem_append.1 hin with hin | hin
    · exact h.kept cursor hin
    · rw [List.mem_singleton.1 hin]
      exact h.cursor
  recorded := h.recorded

theorem goBack [NameProperties] (h : s.Sound text) (slot : Nat) :
    (s.answer (.goBack slot)).1.Sound text ∧
      (s.answer (.goBack slot)).2.Sound text := by
  cases hslot : s.kept[slot]? with
  | none =>
      simp only [Session.answer, hslot]
      exact ⟨True.intro, h⟩
  | some cursor =>
      have hcursor := h.kept cursor (List.mem_of_getElem? hslot)
      simp only [Session.answer, hslot]
      exact ⟨True.intro, hcursor, h.kept, h.recorded⟩

/-- What one request keeps. -/
theorem answer [NameProperties] (h : s.Sound text) (request : Request) :
    (s.answer request).1.Sound text ∧
      (s.answer request).2.Sound text := by
  cases request with
  | token => exact h.token
  | trivia => exact h.trivia
  | keep => exact ⟨True.intro, h.keep⟩
  | goBack slot => exact h.goBack slot

/-- Whatever is asked of a sound session, what it answers is sound, and it
is sound afterwards. -/
theorem answers [NameProperties] (h : s.Sound text) (requests : List Request) :
    (∀ reply ∈ (s.answers requests).1, reply.Sound text) ∧
      (s.answers requests).2.Sound text := by
  induction requests generalizing s with
  | nil => exact ⟨by simp [Session.answers], h⟩
  | cons request requests ih =>
      obtain ⟨hreply, hnext⟩ := h.answer request
      obtain ⟨hreplies, hlast⟩ := ih hnext
      refine ⟨?_, hlast⟩
      intro reply hin
      rcases List.mem_cons.1 hin with rfl | hin
      · exact hreply
      · exact hreplies reply hin

end Sound

end Session

-- ============================================================= codes

/-- The numbers that the escapes at a cursor come to on the way fit in 32
bits. -/
structure Cursor.CodesFit (c : Cursor) : Prop where
  /-- Four digits leave room for one more. -/
  digits : ∀ (count code : Nat) (d : Cursor), count ≤ 4 →
    hexDigits count 0 c = (some code, d) → code * 16 + 15 < 0x100000000
  /-- Digits in braces stop at the bound. -/
  braces : ∀ digits, digits <+: c.rest.takeWhile isHexDigit →
    digits.foldl appendHexDigit 0 < 0x100000000
  /-- A number of four digits that is no character is a surrogate. -/
  surrogate : ∀ (code : Nat) (d : Cursor),
    hexDigits 4 0 c = (some code, d) → scalar? code = none →
      0xD800 ≤ code ∧ code < 0xE000
  /-- Two surrogates together are a character. -/
  pair : ∀ high low, 0xD800 ≤ high → high < 0xDC00 → 0xDC00 ≤ low →
    low < 0xE000 →
      (combineSurrogates high low).toNat
        = 0x10000 + (high - 0xD800) * 0x400 + (low - 0xDC00) ∧
      0x10000 + (high - 0xD800) * 0x400 + (low - 0xDC00) < 0x110000

theorem Cursor.codesFit (c : Cursor) : c.CodesFit where
  digits count code d hcount h := by
    have hlt := hexDigits_lt h
    have hpow : Nat.pow 16 count ≤ Nat.pow 16 4 :=
      Nat.pow_le_pow_right (by decide) hcount
    have hsize : Nat.pow 16 4 = 0x10000 := rfl
    omega
  braces digits _ := by
    have hstep : ∀ (digits : List Char) (code : Nat), code ≤ 0xFFFFFFFF →
        digits.foldl appendHexDigit code ≤ 0xFFFFFFFF := by
      intro digits
      induction digits with
      | nil => exact fun _ h => h
      | cons ch digits ih =>
          intro code _
          exact ih _ (Nat.min_le_right _ _)
    have hle := hstep digits 0 (Nat.zero_le _)
    omega
  surrogate code d h hscalar := by
    have hlt := hexDigits_lt h
    have hsize : Nat.pow 16 4 = 0x10000 := rfl
    have hinvalid : ¬code.isValidChar := by
      intro hvalid
      rw [scalar?, if_pos hvalid] at hscalar
      cases hscalar
    unfold Nat.isValidChar at hinvalid
    omega
  pair high low hhigh hhigh' hlow hlow' := by
    have hcode : 0x10000 + (high - 0xD800) * 0x400 + (low - 0xDC00)
        < 0x110000 := by
      omega
    refine ⟨?_, hcode⟩
    have hvalid : (0x10000 + (high - 0xD800) * 0x400
        + (low - 0xDC00)).isValidChar := by
      unfold Nat.isValidChar
      omega
    unfold combineSurrogates Char.ofNat
    rw [dif_pos hvalid]
    rfl

end ScriptTree
