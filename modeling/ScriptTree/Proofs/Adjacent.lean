/-
Tokens that are consumed one after the other.

A parse keeps the tokens that it looks at, so the last one that it has
kept is its lookahead (`ParseState.Holds`). Where a token is consumed,
that token and the new lookahead are neighbors among the tokens of the
text (`Holds.precedes_of_shift`). If the parse sees no line break then,
there is none between the two (`Underway.sameLine_of_shift`).
-/
import ScriptTree.Proofs.Guard.Script

namespace ScriptTree

variable {text : List Char} {t u : Token}

/-- One token of a text comes right after another. -/
def Token.Precedes [NameProperties] (text : List Char) (t u : Token) : Prop :=
  [t, u] <:+: (TokenStream.ofText text).tokens

/-- No line terminator stands between one token and another. -/
def Token.OnLineOf (text : List Char) (t u : Token) : Prop :=
  breaksLine (textBetween text t.span.stop.offset u.span.start.offset)
    = false

namespace ParseState

variable {s s' : ParseState}

/-- The lookahead is the last token that was kept. -/
structure Holds [NameProperties]
    (text : List Char) (s : ParseState) : Prop where
  underway : s.Underway text
  last : s.lookahead.isEnd = false →
    ∃ earlier, s.tokens.toList = earlier ++ [s.lookahead]

/-- A new lookahead is kept. -/
theorem tokens_of_shift (h : Parse.shift s = .ok t s')
    (hopen : s'.lookahead.isEnd = false) :
    s'.tokens.toList = s.tokens.toList ++ [s'.lookahead] := by
  obtain ⟨-, next, rest, log, -, -, rfl⟩ := Parse.shift_ok.1 h
  have hopen : next.isEnd = false := hopen
  show (if next.isEnd then s.tokens else s.tokens.push next).toList = _
  rw [hopen]
  exact Array.toList_push

/-- The end of the text is followed by itself. -/
theorem Underway.open_of_shift [NameProperties] (hs : s.Underway text)
    (h : Parse.shift s = .ok t s')
    (hopen : s'.lookahead.isEnd = false) : s.lookahead.isEnd = false := by
  obtain ⟨-, next, rest, log, hnext, -, rfl⟩ := Parse.shift_ok.1 h
  cases hend : s.lookahead.isEnd with
  | false => rfl
  | true =>
      rw [hs.ends hend] at hnext
      cases hnext
      exact hend.symm.trans hopen

/-- A parse sees every line break between two tokens. -/
theorem Underway.sameLine_of_shift [NameProperties] (hs : s.Underway text)
    (h : Parse.shift s = .ok t s') (hline : s'.lineBreak = false) :
    t.OnLineOf text s'.lookahead := by
  obtain ⟨start, stop, hsit⟩ := hs.situated
  obtain ⟨start', stop', hgap, hsit'⟩ := hsit.shift h
  obtain ⟨rfl, hbreak⟩ := Parse.shift_lineBreak h
  rw [hline, hsit.span, hsit'.span,
    hsit.stands.line_ne_eq hsit.walks hgap] at hbreak
  unfold Token.OnLineOf
  rw [hsit.span, hsit'.span]
  exact (Bool.or_eq_false_iff.1 hbreak.symm).2

namespace Holds

theorem shift [NameProperties]
    (hs : s.Holds text) (h : Parse.shift s = .ok t s') : s'.Holds text :=
  ⟨hs.underway.shift h, fun hopen => ⟨_, tokens_of_shift h hopen⟩⟩

/-- What was reported does not count, nor what was recorded. -/
theorem of_eq [NameProperties]
    (hs : s.Holds text) (hlookahead : s'.lookahead = s.lookahead)
    (hrest : s'.rest = s.rest) (htokens : s'.tokens = s.tokens)
    (hcomments : s'.comments = s.comments) : s'.Holds text where
  underway := hs.underway.of_eq hlookahead hrest htokens hcomments
  last := by
    rw [hlookahead, htokens]
    exact hs.last

theorem of_skip [NameProperties] {tolerant : Bool}
    (h : Parse.skip (ofText text tolerant) = .ok () s) : s.Holds text :=
  ⟨underway_of_skip h,
    fun hopen => ⟨_, tokens_of_shift (Parse.skip_ok.1 h) hopen⟩⟩

/-- What is consumed comes right before the new lookahead. -/
theorem precedes_of_shift [NameProperties] (hs : s.Holds text)
    (h : Parse.shift s = .ok t s')
    (hopen : s'.lookahead.isEnd = false) :
    t.Precedes text s'.lookahead := by
  obtain ⟨earlier, hearlier⟩ :=
    hs.last (hs.underway.open_of_shift h hopen)
  have hkept := (hs.shift h).underway.keeps.tokens
  rw [tokens_of_shift h hopen, hearlier, ← (Parse.shift_ok.1 h).1] at hkept
  refine ⟨earlier, s'.rest.tokens, ?_⟩
  rw [← hkept]
  simp

end Holds

end ParseState

end ScriptTree
