/-
What a strict parse has ahead of it.

# Words

A word is a token without its place, and whether it starts on a new
line. The words that lie ahead of a state are all that the grammar can
tell of the text from there (`ParseState.words`).

# Sound states

In a sound state nothing was recorded and nothing can be, and the tokens
ahead are such as a text has (`ParseState.Sound`). A shift takes the
first word away, and leaves a sound state sound. It succeeds if the
stream ahead can be read to its end (`TokenStream.Readable`); and
whatever parse gets to the end has read all of it.
-/
import ScriptTree.Proofs.Action
import ScriptTree.Proofs.Scanning.Token

namespace ScriptTree

-- ============================================================ tokens

/-- The token without its place. -/
def Token.bare (t : Token) : Token := { t with span := default }

/-- A token without its place, and whether it starts on another line than
the token before it. -/
structure Word where
  token : Token
  newLine : Bool

/-- A token as a strict parse meets it. -/
structure Token.Plain (t : Token) : Prop where
  formed : t.Formed
  unescaped : t.isEscapedReserved = false

theorem Token.Formed.not_end {t : Token} (h : t.Formed) :
    t.isEnd = false := by
  have hkind : t.kind ≠ .endOfInput := by
    cases h with
    | word chars text _ hkind =>
        rcases wordKind_cases (.ofList chars) with
          ⟨h, -⟩ | ⟨h, -⟩ | ⟨h, -⟩ | h <;> simp [hkind, h]
    | string _ hkind | numeral _ hkind | punctuator _ _ hkind =>
        rw [hkind]
        simp
  simp [Token.isEnd, hkind]

/-- The place of a token says nothing of its form. -/
theorem Token.Formed.of_bare {t t' : Token} (h : t.Formed)
    (ht : t'.bare = t.bare) : t'.Formed := by
  cases t
  cases t'
  cases ht
  cases h with
  | word chars text hsp hk hv hr => exact .word chars text hsp hk hv hr
  | string chars hk hv => exact .string chars hk hv
  | numeral value hk hv => exact .numeral value hk hv
  | punctuator mark hin hk hv hr => exact .punctuator mark hin hk hv hr

theorem Token.Plain.not_end {t : Token} (h : t.Plain) :
    t.isEnd = false := h.formed.not_end

/-- The end of the text is not a word. -/
theorem Token.not_escapedReserved_of_isEnd {t : Token}
    (h : t.isEnd = true) : t.isEscapedReserved = false := by
  have hkind : t.kind = .endOfInput := by simpa [isEnd] using h
  rw [isEscapedReserved, hkind]
  rfl

-- =========================================================== streams

/-- There is nothing to pass over at the end of the text. -/
theorem Cursor.skipTrivia_of_rest_nil {c : Cursor} (h : c.rest = []) :
    c.skipTrivia = ([], c) := by
  rw [skipTrivia, h]
  rfl

namespace TokenStream

/-- At the end of the text a stream ends, whatever the steps. -/
theorem fromCursor_of_rest_nil [NameProperties] {c : Cursor} (h : c.rest = [])
    (steps : Nat) : fromCursor steps c = .done [] c.endToken := by
  cases steps with
  | zero => rfl
  | succ steps =>
      have hend : c.rest.isEmpty = true := List.isEmpty_iff.2 h
      simp only [fromCursor, Cursor.skipTrivia_of_rest_nil h, hend, if_true]

/-- A stream of such tokens as a text has. -/
def Formed : TokenStream → Prop
  | .token _ t rest => t.Formed ∧ rest.Formed
  | .done _ t => t.isEnd = true
  | .illegal _ _ => True

/-- A stream that a strict parse can read to its end. -/
def Readable : TokenStream → Prop
  | .token _ t rest => t.Plain ∧ rest.Readable
  | .done _ t => t.isEnd = true
  | .illegal _ _ => False

/-- The words of a stream after a token that starts on the given line. -/
def words : Nat → TokenStream → List Word
  | line, .token _ t rest =>
    ⟨t.bare, line ≠ t.span.start.line⟩ :: rest.words t.span.start.line
  | _, .done _ _ | _, .illegal _ _ => []

theorem Readable.formed : ∀ {stream : TokenStream}, stream.Readable →
    stream.Formed
  | .token _ _ _, h => ⟨h.1.formed, h.2.formed⟩
  | .done _ _, h => h

/-- In a readable stream something comes next that a strict parse
accepts. -/
theorem Readable.next {stream : TokenStream} (h : stream.Readable) :
    ∃ t rest, stream.next.2 = .ok (t, rest) ∧ rest.Readable ∧
      t.isEscapedReserved = false := by
  cases stream with
  | token comments t rest => exact ⟨t, rest, rfl, h.2, h.1.unescaped⟩
  | done comments t =>
      exact ⟨t, .done [] t, rfl, h, Token.not_escapedReserved_of_isEnd h⟩
  | illegal comments d => exact absurd h id

/-- The token that comes next is one of a text, or its end. -/
theorem Formed.next {stream : TokenStream} (h : stream.Formed)
    {t : Token} {rest : TokenStream} (hn : stream.next.2 = .ok (t, rest)) :
    rest.Formed ∧
      (t.Formed ∨ t.isEnd = true ∧ ∃ comments, rest = .done comments t) := by
  cases stream with
  | token _ _ _ =>
      cases hn
      exact ⟨h.2, .inl h.1⟩
  | done _ _ =>
      cases hn
      exact ⟨h, .inr ⟨h, [], rfl⟩⟩
  | illegal _ _ => cases hn

/-- What comes next is the first word. -/
theorem Formed.words_next {stream : TokenStream} (h : stream.Formed)
    {t : Token} {rest : TokenStream} (hn : stream.next.2 = .ok (t, rest))
    (line : Nat) :
    stream.words line = if t.isEnd then []
      else ⟨t.bare, line ≠ t.span.start.line⟩
        :: rest.words t.span.start.line := by
  cases stream with
  | token _ _ _ =>
      cases hn
      rw [if_neg (by simp [h.1.not_end])]
      rfl
  | done _ _ =>
      cases hn
      have hend : t.isEnd = true := h
      rw [if_pos hend]
      rfl
  | illegal _ _ => cases hn

end TokenStream

-- ============================================================ states

namespace ParseState

variable {s s' : ParseState}

/-- The words that are not consumed yet. -/
def words (s : ParseState) : List Word :=
  if s.lookahead.isEnd then []
  else ⟨s.lookahead.bare, s.lineBreak⟩
    :: s.rest.words s.lookahead.span.start.line

/-- A state of a strict parse. At the end of the text there is nothing
more. -/
structure Sound (s : ParseState) : Prop where
  log : s.log = ⟨false, []⟩
  rest : s.rest.Formed
  lookahead : s.lookahead.Plain ∨
    s.lookahead.isEnd = true ∧
      ∃ comments, s.rest = .done comments s.lookahead

theorem words_of_end (h : s.lookahead.isEnd = true) : s.words = [] :=
  if_pos h

theorem words_of_not_end (h : s.lookahead.isEnd = false) :
    s.words = ⟨s.lookahead.bare, s.lineBreak⟩
      :: s.rest.words s.lookahead.span.start.line := by
  rw [words, if_neg (by simp [h])]

theorem isEnd_of_words_nil (h : s.words = []) :
    s.lookahead.isEnd = true := by
  cases he : s.lookahead.isEnd with
  | true => rfl
  | false =>
      rw [words_of_not_end he] at h
      cases h

/-- The lookahead is the first word. -/
theorem words_cons {w : Word} {ws : List Word} (h : s.words = w :: ws) :
    s.lookahead.isEnd = false ∧ s.lookahead.bare = w.token ∧
      s.lineBreak = w.newLine := by
  cases he : s.lookahead.isEnd with
  | true =>
      rw [words_of_end he] at h
      cases h
  | false =>
      rw [words_of_not_end he] at h
      cases h
      exact ⟨rfl, rfl, rfl⟩

/-- A shift of a strict parse meets a plain token or the end. -/
theorem sound_of_shift {t : Token} (hlog : s.log = ⟨false, []⟩)
    (hrest : s.rest.Formed) (h : Parse.shift s = .ok t s') :
    s'.Sound ∧ s'.words = s.rest.words s.lookahead.span.start.line := by
  obtain ⟨-, next, rest, log, hn, hl, rfl⟩ := Parse.shift_ok.1 h
  have haccept := Parse.accept_ok.1 hl
  rw [hlog] at haccept
  have hplain : next.isEscapedReserved = false ∧ log = ⟨false, []⟩ := by
    split at haccept
    case isTrue => cases haccept.1
    case isFalse he => exact ⟨by simpa using he, haccept⟩
  obtain ⟨hformed, hnext⟩ := hrest.next hn
  refine ⟨⟨hplain.2, hformed, ?_⟩, ?_⟩
  · rcases hnext with hnext | hend
    · exact .inl ⟨hnext, hplain.1⟩
    · exact .inr hend
  · rw [hrest.words_next hn]
    rfl

/-- A shift takes the first word away; at the end there is none. -/
theorem Sound.shift {t : Token} (hs : s.Sound)
    (h : Parse.shift s = .ok t s') :
    s'.Sound ∧ s'.words = s.words.tail := by
  obtain ⟨hs', hwords⟩ := sound_of_shift hs.log hs.rest h
  refine ⟨hs', ?_⟩
  rw [hwords]
  rcases hs.lookahead with hplain | ⟨hend, comments, hrest⟩
  · rw [words_of_not_end hplain.not_end]
    rfl
  · rw [words_of_end hend, hrest]
    rfl

theorem Sound.skip (hs : s.Sound) (h : Parse.skip s = .ok () s') :
    s'.Sound ∧ s'.words = s.words.tail := hs.shift (Parse.skip_ok.1 h)

theorem Step.sound (h : s.Step s') (hs : s.Sound) : s'.Sound := by
  cases h with
  | shift h => exact (hs.shift h).1
  | tolerate h =>
      have ht := (Parse.tolerate_ok.1 h).1
      rw [hs.log] at ht
      cases ht
  | close h =>
      obtain ⟨-, rfl⟩ := Parse.close_ok.1 h
      exact ⟨hs.log, hs.rest, hs.lookahead⟩
  | standAt h =>
      cases h
      exact ⟨hs.log, hs.rest, hs.lookahead⟩

theorem Reaches.sound (h : s.Reaches s') (hs : s.Sound) : s'.Sound := by
  induction h with
  | refl => exact hs
  | tail _ hstep ih => exact hstep.sound ih

/-- A step takes the first word away or none. -/
theorem Step.words_suffix (h : s.Step s') (hs : s.Sound) :
    s'.words <:+ s.words := by
  cases h with
  | shift h =>
      rw [(hs.shift h).2]
      exact List.tail_suffix _
  | tolerate h =>
      have ht := (Parse.tolerate_ok.1 h).1
      rw [hs.log] at ht
      cases ht
  | close h =>
      obtain ⟨-, rfl⟩ := Parse.close_ok.1 h
      exact List.suffix_refl _
  | standAt h =>
      cases h
      exact List.suffix_refl _

theorem Reaches.words_suffix (h : s.Reaches s') (hs : s.Sound) :
    s'.words <:+ s.words := by
  induction h with
  | refl => exact List.suffix_refl _
  | tail hr hstep ih =>
      exact (hstep.words_suffix (Reaches.sound hr hs)).trans ih

/-- No run comes back from the end of the text. -/
theorem Reaches.words_nil (h : s.Reaches s') (hs : s.Sound)
    (hw : s.words = []) : s'.words = [] := by
  have hsuffix := Reaches.words_suffix h hs
  rw [hw] at hsuffix
  exact List.suffix_nil.1 hsuffix

-- ------------------------------------------------ readable streams

/-- A strict parse has read what it has passed over. -/
theorem readable_of_shift {t : Token} (hlog : s.log = ⟨false, []⟩)
    (hrest : s.rest.Formed) (h : Parse.shift s = .ok t s')
    (hr : s'.rest.Readable) : s.rest.Readable := by
  have hs' := (sound_of_shift hlog hrest h).1
  obtain ⟨-, next, rest, log, hn, hl, rfl⟩ := Parse.shift_ok.1 h
  cases hstream : s.rest with
  | token comments t rest' =>
      rw [hstream] at hn hrest
      cases hn
      rcases hs'.lookahead with hplain | ⟨hend, -⟩
      · exact ⟨hplain, hr⟩
      · rw [show (consume _ next rest).lookahead = next from rfl,
          hrest.1.not_end] at hend
        cases hend
  | done comments t =>
      rw [hstream] at hrest
      exact hrest
  | illegal comments d =>
      rw [hstream] at hn
      cases hn

theorem Step.readable (h : s.Step s') (hs : s.Sound)
    (hr : s'.rest.Readable) : s.rest.Readable := by
  cases h with
  | shift h => exact readable_of_shift hs.log hs.rest h hr
  | tolerate h =>
      have ht := (Parse.tolerate_ok.1 h).1
      rw [hs.log] at ht
      cases ht
  | close h =>
      obtain ⟨-, rfl⟩ := Parse.close_ok.1 h
      exact hr
  | standAt h =>
      cases h
      exact hr

theorem Reaches.readable (h : s.Reaches s') (hs : s.Sound)
    (hr : s'.rest.Readable) : s.rest.Readable := by
  induction h with
  | refl => exact hr
  | tail hreach hstep ih =>
      exact ih (hstep.readable (Reaches.sound hreach hs) hr)

/-- At the end of the text the stream is read. -/
theorem Sound.readable_of_words_nil (hs : s.Sound) (hw : s.words = []) :
    s.rest.Readable := by
  have hend := isEnd_of_words_nil hw
  rcases hs.lookahead with hplain | ⟨-, comments, hrest⟩
  · rw [hplain.not_end] at hend
    cases hend
  · rw [hrest]
    exact hend

/-- A shift succeeds where the next token is accepted. -/
theorem shift_of_next {next : Token} {rest : TokenStream}
    (hn : s.rest.next.2 = .ok (next, rest))
    (hplain : next.isEscapedReserved = false) :
    Parse.shift s = .ok s.lookahead
      ((s.pass s.rest.next.1).consume next rest) := by
  refine Parse.shift_ok.2 ⟨rfl, next, rest, s.log, hn, ?_, rfl⟩
  exact Parse.accept_ok.2 (by simp [hplain])

/-- In front of a readable stream a strict parse can go on. -/
theorem shift_of_readable (hlog : s.log = ⟨false, []⟩)
    (hr : s.rest.Readable) :
    ∃ s', Parse.shift s = .ok s.lookahead s' ∧ s'.Sound ∧
      s'.rest.Readable ∧
      s'.words = s.rest.words s.lookahead.span.start.line := by
  obtain ⟨next, rest, hn, hrest, hplain⟩ := hr.next
  have hshift := shift_of_next hn hplain
  obtain ⟨hs', hwords⟩ := sound_of_shift hlog hr.formed hshift
  exact ⟨_, hshift, hs', hrest, hwords⟩

theorem Sound.skip_of_readable (hs : s.Sound) (hr : s.rest.Readable) :
    ∃ s', Parse.skip s = .ok () s' ∧ s'.Sound ∧ s'.rest.Readable ∧
      s'.words = s.words.tail := by
  obtain ⟨s', hshift, hs', hr', -⟩ := shift_of_readable hs.log hr
  exact ⟨s', Parse.skip_ok.2 hshift, hs', hr', (hs.shift hshift).2⟩

end ParseState

end ScriptTree
