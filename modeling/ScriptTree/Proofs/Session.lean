/-
No offset, line start or code goes out of bounds, in sessions and parses.

A session may be asked for anything in any order; that is settled for
cursors (`Session.Sound.answers`). A parse reads one token after another,
and holds on to one place of its own, the end of what was consumed last.
In every state that it comes to, also where it is refused, that place and
the lookahead have sound places in the text (`ParseState.Attained.sound`).
-/
import ScriptTree.Proofs.Located
import ScriptTree.Proofs.Arithmetic.Reader
import ScriptTree.Proofs.Underway
import ScriptTree.Source.NameRanges

namespace ScriptTree

variable {text : List Char} {tolerant : Bool} {s s' : ParseState}

-- ============================================================ places

/-- Lines start between characters. -/
theorem isBoundary_of_mem_lineStartsFrom {offset start : Nat}
    {rest : List Char} : ∀ {before : List Char},
      offset = byteLength before → start ∈ lineStartsFrom offset rest →
        IsBoundary (before ++ rest) start := by
  fun_induction lineStartsFrom offset rest
  case case1 offset rest ih =>
    intro before hoffset h
    have hnext : offset + 2 = byteLength (before ++ ['\r', '\n']) := by
      rw [byteLength_append, hoffset]
      rfl
    have htext : before ++ '\r' :: '\n' :: rest
        = before ++ ['\r', '\n'] ++ rest := by
      rw [List.append_assoc]
      rfl
    rw [htext]
    rcases List.mem_cons.1 h with rfl | h
    · exact ⟨before ++ ['\r', '\n'], rest, rfl, hnext.symm⟩
    · exact ih hnext h
  case case2 offset ch rest _ next hch ih =>
    intro before hoffset h
    have hnext : next = byteLength (before ++ [ch]) := by
      rw [byteLength_append, ← hoffset]
      rfl
    rw [List.append_cons]
    rcases List.mem_cons.1 h with rfl | h
    · exact ⟨before ++ [ch], rest, rfl, hnext.symm⟩
    · exact ih hnext h
  case case3 offset ch rest _ next hch ih =>
    intro before hoffset h
    have hnext : next = byteLength (before ++ [ch]) := by
      rw [byteLength_append, ← hoffset]
      rfl
    rw [List.append_cons]
    exact ih hnext h
  case case4 =>
    intro before hoffset h
    cases h

theorem isBoundary_of_mem_lineStarts {start : Nat}
    (h : start ∈ lineStarts text) : IsBoundary text start := by
  unfold lineStarts at h
  split at h
  case isTrue => cases h
  case isFalse =>
    rcases List.mem_cons.1 h with rfl | h
    · exact ⟨[], text, rfl, rfl⟩
    · exact @isBoundary_of_mem_lineStartsFrom _ _ text [] rfl h

/-- The place that some of the lines of a text determine for an offset is
sound. -/
theorem sound_positionOn {starts : List Nat} {offset : Nat}
    (hstarts : starts ⊆ lineStarts text) (h : IsBoundary text offset) :
    (positionOn starts offset).Sound text := by
  suffices hline : IsBoundary text (positionOn starts offset).lineStart ∧
      (positionOn starts offset).lineStart ≤ offset from
    ⟨h.le_byteLength, h, hline.1, hline.2⟩
  have hlast : (positionOn starts offset).lineStart
      ∈ 0 :: starts.filter (· ≤ offset) := List.getLastD_mem_cons
  rcases List.mem_cons.1 hlast with hzero | hin
  · rw [hzero]
    exact ⟨⟨[], text, rfl, rfl⟩, Nat.zero_le _⟩
  · obtain ⟨hmem, hle⟩ := List.mem_filter.1 hin
    exact ⟨isBoundary_of_mem_lineStarts (hstarts hmem), by simpa using hle⟩

/-- The place that a text determines for an offset is sound. -/
theorem Position.InText.sound {p : Position} (h : p.InText text) :
    p.Sound text := by
  rw [h.eq]
  exact sound_positionOn (List.Subset.refl _) h.boundary

-- ============================================================ states

namespace ParseState

/-- The states that a parse comes to, whatever becomes of it. -/
inductive Attained [NameProperties] (text : List Char) (tolerant : Bool) :
    ParseState → Prop where
  | start : Attained text tolerant (.ofText text tolerant)
  | shift {s s' : ParseState} {t : Token} : Attained text tolerant s →
      Parse.shift s = .ok t s' → Attained text tolerant s'
  /-- Comments were passed over, but there is no token after them. -/
  | pass {s : ParseState} {comments : List Comment} :
      Attained text tolerant s → Attained text tolerant (s.pass comments)
  | tolerate {s s' : ParseState} {d : Diagnostic} :
      Attained text tolerant s → Parse.tolerate d s = .ok () s' →
        Attained text tolerant s'
  | close {s s' : ParseState} {kind : NodeKind} {start : Position}
      {span : Span} : Attained text tolerant s →
      Parse.close kind start s = .ok span s' → Attained text tolerant s'
  /-- What is missing is taken to end where the lookahead starts. -/
  | extend {s : ParseState} : Attained text tolerant s →
      Attained text tolerant { s with last := s.lookahead.span.start }
  /-- A script starts with its first token consumed. -/
  | enter {s : ParseState} : Attained text tolerant s →
      Attained text tolerant { s with last := s.lookahead.span.stop }

/-- The places that a parse has to do with are sound, and the start of the
line can be had from a column. -/
structure InBounds (text : List Char) (s : ParseState) : Prop where
  last : s.last.Sound text
  lineStart : s.last.offset - s.last.column = s.last.lineStart
  start : s.lookahead.span.start.Sound text
  stop : s.lookahead.span.stop.Sound text

theorem sited_ofText [NameProperties] (text : List Char) (tolerant : Bool) :
    (ofText text tolerant).Sited text :=
  ⟨⟨_, _, situated_ofText text tolerant⟩,
    (Cursor.standsIn_ofText text).inText⟩

namespace Attained

theorem sited [NameProperties]
    (h : s.Attained text tolerant) : s.Sited text := by
  induction h with
  | start => exact sited_ofText text tolerant
  | shift _ hshift ih =>
      obtain ⟨start, stop, hsit⟩ := ih.situated
      exact sited_of_shift hsit hshift
  | pass _ ih => exact ih.of_eq rfl rfl ih.last
  | tolerate _ htolerate ih =>
      obtain ⟨-, rfl⟩ := Parse.tolerate_ok.1 htolerate
      exact ih.of_eq rfl rfl ih.last
  | close _ hclose ih =>
      obtain ⟨-, rfl⟩ := Parse.close_ok.1 hclose
      exact ih.of_eq rfl rfl ih.last
  | extend _ ih => exact ih.of_eq rfl rfl ih.lookahead.start
  | enter _ ih => exact ih.of_eq rfl rfl ih.lookahead.stop

theorem inBounds [NameProperties]
    (h : s.Attained text tolerant) : s.InBounds text := by
  have hlast := h.sited.last.sound
  have hle := hlast.lineStart_le
  refine ⟨hlast, ?_, h.sited.lookahead.start.sound,
    h.sited.lookahead.stop.sound⟩
  rw [Position.column_eq]
  omega

end Attained

/-- A run from a state that was attained attains all its states. -/
theorem invariant_attained [NameProperties]
    (text : List Char) (tolerant : Bool) :
    Invariant (fun s => Underway text s ∧ Attained text tolerant s)
      (Attained text tolerant) where
  formed hs := hs.1.keeps.formed
  ends hs := hs.1.ends
  shift hs h := ⟨hs.1.shift h, hs.2.shift h⟩
  record hs htolerant :=
    ⟨hs.1.of_eq rfl rfl rfl rfl,
      hs.2.tolerate (Parse.tolerate_ok.2 ⟨htolerant, rfl⟩)⟩
  close hs := ⟨hs.1.of_eq rfl rfl rfl rfl, hs.2.close rfl⟩
  extend hs := ⟨hs.1.of_eq rfl rfl rfl rfl, hs.2.extend⟩
  failed hs := hs.2
  passed hs := hs.2.pass

/-- A parse ends in a state that was attained, also where it is refused. -/
theorem attained_final [NameProperties] (text : List Char) (tolerant : Bool) :
    (parseText tolerant text).final.Attained text tolerant := by
  unfold parseText
  rcases Parse.shift_cases (ofText text tolerant) with ⟨u, hu⟩ | ⟨d, hd⟩
  · have hskip : Parse.skip (ofText text tolerant) = .ok () u :=
      Parse.skip_ok.2 hu
    have hunderway :
        Underway text { u with last := u.lookahead.span.stop } :=
      (underway_of_skip hskip).of_eq rfl rfl rfl rfl
    have hattained : Attained text tolerant
        { u with last := u.lookahead.span.stop } := .enter (.shift .start hu)
    have hahead := Nat.lt_succ_of_le hunderway.ahead_le
    obtain ⟨-, hends⟩ := (invariant_attained text tolerant).scriptBody
      ⟨hunderway, hattained⟩ hahead hahead u.lookahead.span.start
    simp only [Parse.script_of_skip hskip]
    rcases hends with ⟨script, u', hok, -, hlast⟩ | ⟨d, u', hrefused, hlast⟩
    · rw [hok]
      exact hlast
    · rw [hrefused]
      exact hlast
  · simp only [Parse.script_of_refused hd]
    exact .pass .start

end ParseState

-- ========================================================== sessions

/-- Whatever is asked of a reader, also after failures and after going
back, is answered within bounds, and all its cursors stay there. What a
machine makes of offsets and codes out of range makes no difference to the
answers, nor to what a parse comes to and what it reports. The places of a
parse stay within bounds as well, up to the state in which it ends. The
codes of escapes fit in 32 bits. -/
theorem answers_in_bounds [NameProperties] (text : List Char)
    (tolerant keepsComments : Bool) (requests : List Request) :
    (∀ reply ∈ ((Session.ofText text tolerant keepsComments).answers
        requests).1, reply.Sound text) ∧
      ((Session.ofText text tolerant keepsComments).answers
        requests).2.Sound text ∧
      (∀ m : Machine, @Session.answers _ m.arithmetic
          (.ofText text tolerant keepsComments) requests
        = (Session.ofText text tolerant keepsComments).answers
          requests) ∧
      (∀ (m : Machine) (options : Options),
        @parse _ m.arithmetic options text = parse options text ∧
          @parseEvents _ m.arithmetic options text
            = parseEvents options text) ∧
      (∀ s : ParseState, s.Attained text tolerant → s.InBounds text) ∧
      (parseText tolerant text).final.Attained text tolerant ∧
      ∀ c : Cursor, c.CodesFit := by
  have hstart := Session.sound_ofText text tolerant keepsComments
  obtain ⟨hreplies, hlast⟩ := hstart.answers requests
  exact ⟨hreplies, hlast, fun m => hstart.answers_agree m requests,
    fun m options => ⟨parse_agrees m options text,
      parseEvents_agrees m options text⟩, fun s hs => hs.inBounds,
    ParseState.attained_final text tolerant, Cursor.codesFit⟩

/-- A string with an escape that fails in its middle, where a name is
found; then the string once more. A parse is refused there. -/
theorem answers_in_bounds_escape :
    let text := "a '\\u12é".toList
    let requests : List Request :=
      [.token, .trivia, .keep, .token, .token, .goBack 0, .token]
    let ends := (Session.ofText text false true).answers requests
    let final := (parseText false text).final
    let failure : Diagnostic := ⟨7, 1, 8, .illegalToken⟩
    ends.1 = [.token ⟨.identifier, .text "a", "a", ⟨0, 1, 0⟩, ⟨1, 1, 0⟩⟩,
        .comments [], .done, .failure failure,
        .token ⟨.identifier, .text "é", "é", ⟨7, 1, 0⟩, ⟨9, 1, 0⟩⟩,
        .done, .failure failure] ∧
      (∀ reply ∈ ends.1, reply.Sound text) ∧ ends.2.Sound text ∧
      final.InBounds text ∧ final.last = ⟨1, 1, 0⟩ := by
  intro text requests ends final failure
  obtain ⟨hreplies, hlast, -, -, hstates, hfinal, -⟩ :=
    answers_in_bounds text false true requests
  exact ⟨by decide +kernel, hreplies, hlast, hstates final hfinal,
    by decide +kernel⟩

end ScriptTree
