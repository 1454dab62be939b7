/-
The states that a parse comes to, from its first token on.

They have a place in their text, and have kept the tokens of it up to that
place (`ParseState.Underway`). This is so once the first token is looked
at, and every step keeps it. So there are no more tokens ahead than the
text has characters.

Offsets grow along the way. No step goes back, and a run that consumes a
token has its lookahead start later, since a token takes some text and the
end of the text is not consumed.
-/
import ScriptTree.Proofs.Concord.Single
import ScriptTree.Proofs.LineBreak
import ScriptTree.Proofs.Nesting

namespace ScriptTree

variable {text : List Char} {tolerant : Bool} {s s' : ParseState}

-- =========================================================== streams

/-- A token that is read takes some text. -/
theorem Token.Lexed.proper [NameProperties]
    {t : Token} (h : t.Lexed) : t.span.Proper := by
  obtain ⟨c, d, hne, htoken⟩ := h
  obtain ⟨word, lines, hword, hreads, -⟩ := Cursor.token_takes htoken hne
  have hpos := byteLength_pos hword
  rw [Cursor.token_span htoken]
  show c.position.offset < d.position.offset
  rw [hreads.offset]
  omega

-- ============================================================ states

namespace ParseState

/-- The states of a parse from its first token on. -/
def Reachable [NameProperties]
    (text : List Char) (tolerant : Bool) (s : ParseState) : Prop :=
  ∃ first, Parse.skip (ofText text tolerant) = .ok () first ∧
    first.Reaches s

/-- The lookahead has its place in the text, the tokens of the text up to
it were kept, and it takes some text unless it is the end. -/
structure Underway [NameProperties]
    (text : List Char) (s : ParseState) : Prop where
  situated : ∃ start stop, s.Situated text start stop
  keeps : s.Keeps (.ofText text)
  ends : s.Ends
  proper : s.lookahead.isEnd = false → s.lookahead.span.Proper
  kept : s.lookahead.isEnd = false → s.tokens.toList ≠ []

/-- What was reported does not count, nor what was recorded. -/
theorem Underway.of_eq [NameProperties] (hs : s.Underway text)
    (hlookahead : s'.lookahead = s.lookahead) (hrest : s'.rest = s.rest)
    (htokens : s'.tokens = s.tokens) (hcomments : s'.comments = s.comments) :
    s'.Underway text where
  situated := by
    obtain ⟨start, stop, hsit⟩ := hs.situated
    exact ⟨start, stop, hsit.of_eq hlookahead hrest⟩
  keeps := by
    obtain ⟨hformed, hkept, hcomment, hcomplete⟩ := hs.keeps
    exact ⟨hrest ▸ hformed, by rw [htokens, hrest, hkept],
      by rw [hcomments, hrest, hcomment], hrest ▸ hcomplete⟩
  ends := by
    unfold Ends
    rw [hlookahead, hrest]
    exact hs.ends
  proper := by
    rw [hlookahead]
    exact hs.proper
  kept := by
    rw [hlookahead, htokens]
    exact hs.kept

/-- A shift sets out from any state with a place and the tokens before
it. -/
theorem underway_of_shift [NameProperties] {start stop : Cursor} {t : Token}
    (hsit : s.Situated text start stop) (hkeeps : s.Keeps (.ofText text))
    (h : Parse.shift s = .ok t s') : s'.Underway text := by
  obtain ⟨start', stop', -, hsit'⟩ := hsit.shift h
  obtain ⟨hkeeps', hends'⟩ := hkeeps.shift h
  obtain ⟨-, next, rest, log, hn, -, rfl⟩ := Parse.shift_ok.1 h
  obtain ⟨htokens, -, -, -⟩ := hkeeps.formed.next_parts hn
  refine ⟨⟨start', stop', hsit'⟩, hkeeps', hends', fun hnext => ?_,
    fun hnext => ?_⟩
  · have hnext : next.isEnd = false := hnext
    rw [hnext] at htokens
    have hin : next ∈ s.tokens.toList ++ s.rest.tokens := by
      rw [htokens]
      simp
    rw [hkeeps.tokens] at hin
    exact (TokenStream.lexed_ofText text next hin).proper
  · have hnext : next.isEnd = false := hnext
    show (if next.isEnd then s.tokens else s.tokens.push next).toList ≠ []
    rw [hnext]
    simp

theorem Underway.shift [NameProperties] {t : Token} (hs : s.Underway text)
    (h : Parse.shift s = .ok t s') : s'.Underway text := by
  obtain ⟨start, stop, hsit⟩ := hs.situated
  exact underway_of_shift hsit hs.keeps h

theorem Underway.step [NameProperties] (hs : s.Underway text) (h : s.Step s') :
    s'.Underway text := by
  cases h with
  | shift h => exact hs.shift h
  | tolerate h =>
      obtain ⟨-, rfl⟩ := Parse.tolerate_ok.1 h
      exact hs.of_eq rfl rfl rfl rfl
  | close h =>
      obtain ⟨-, rfl⟩ := Parse.close_ok.1 h
      exact hs.of_eq rfl rfl rfl rfl
  | standAt h =>
      cases h
      exact hs.of_eq rfl rfl rfl rfl

theorem Underway.reaches [NameProperties]
    (hs : s.Underway text) (h : s.Reaches s') : s'.Underway text := by
  induction h with
  | refl => exact hs
  | tail _ hstep ih => exact ih.step hstep

/-- A parse is underway once its first token is looked at. -/
theorem underway_of_skip [NameProperties]
    (h : Parse.skip (ofText text tolerant) = .ok () s) : s.Underway text :=
  underway_of_shift (situated_ofText text tolerant)
    (keeps_ofText text tolerant) (Parse.skip_ok.1 h)

theorem Reachable.underway [NameProperties] (h : s.Reachable text tolerant) :
    s.Underway text := by
  obtain ⟨first, hfirst, hreaches⟩ := h
  exact (underway_of_skip hfirst).reaches hreaches

/-- There are no more tokens ahead than characters in the text. -/
theorem Underway.ahead_le [NameProperties] (hs : s.Underway text) :
    s.ahead ≤ text.length := by
  unfold ahead
  by_cases hend : s.lookahead.isEnd = true
  · rw [if_pos hend]
    exact Nat.zero_le _
  · rw [if_neg hend]
    have hkept := List.length_pos_iff.2 (hs.kept (by simpa using hend))
    have htokens := congrArg List.length hs.keeps.tokens
    have hle := TokenStream.tokens_length_le text.length (.ofText text)
    rw [List.length_append] at htokens
    show _ ≤ text.length
    rw [show (TokenStream.ofText text).tokens.length
      = (TokenStream.fromCursor text.length (.ofText text)).tokens.length
      from rfl] at htokens
    omega

/-- A run may be compared with itself in the states of a parse. -/
theorem invariant_underway [NameProperties] (text : List Char) :
    Invariant (Underway text) fun _ => True where
  formed hs := hs.keeps.formed
  ends hs := hs.ends
  shift hs h := hs.shift h
  record hs _ := hs.of_eq rfl rfl rfl rfl
  close hs := hs.of_eq rfl rfl rfl rfl
  extend hs := hs.of_eq rfl rfl rfl rfl
  failed _ := trivial
  passed _ := trivial

-- --------------------------------------------------------------- offsets

theorem Underway.offset_le [NameProperties]
    (hs : s.Underway text) (h : s.Reaches s') : s.offset ≤ s'.offset := by
  induction h with
  | refl => exact Nat.le_refl _
  | @tail u u' hreaches hstep ih =>
      apply Nat.le_trans ih
      cases hstep with
      | shift h =>
          obtain ⟨start, stop, hsit⟩ := (hs.reaches hreaches).situated
          obtain ⟨hword, hgap⟩ := hsit.offset_of_shift h
          exact Nat.le_trans hword hgap
      | tolerate h =>
          obtain ⟨-, rfl⟩ := Parse.tolerate_ok.1 h
          exact Nat.le_refl _
      | close h =>
          obtain ⟨-, rfl⟩ := Parse.close_ok.1 h
          exact Nat.le_refl _
      | standAt h =>
          cases h
          exact Nat.le_refl _

/-- A run that consumes a token has its lookahead start later. -/
theorem Underway.offset_lt [NameProperties] (hs : s.Underway text)
    (hopen : s.lookahead.isEnd = false) (h : s.Passes s') :
    s.offset < s'.offset := by
  obtain ⟨t, s₁, s₂, hstays, hshift, hreaches⟩ := h
  have hs₁ := hs.reaches hstays.reaches
  obtain ⟨start, stop, hsit⟩ := hs₁.situated
  have hproper : s.offset < s.lookahead.span.stop.offset :=
    hs.proper hopen
  have hnext := (hsit.offset_of_shift hshift).2
  rw [hstays.lookahead] at hnext
  have hlater := (hs₁.shift hshift).offset_le hreaches
  omega

end ParseState

end ScriptTree
