/-
What a parse keeps of its text.

# Tokens and comments

What is kept and what the stream still has ahead make up the text at any
time (`ParseState.Keeps`). A parse that comes to the end of the text has
therefore kept all of it (`Parse.ScriptRun.kept`), whichever productions
it went through. To look beyond the lookahead is no step, and keeps
nothing.

# Words in escapes

A reserved word in escapes is recorded when it becomes the lookahead,
which is when it is kept. Nothing else that is recorded reads like that
(`ParseState.Builds.tolerate`), so these records and the words among the
tokens correspond one to one (`ParseState.Builds.escapes`).
-/
import ScriptTree.Proofs.Ahead
import ScriptTree.Proofs.Building.Statement
import ScriptTree.Proofs.Reading

namespace ScriptTree

-- =========================================================== streams

namespace TokenStream

/-- A stream that goes on to the end of the text. -/
def Complete : TokenStream → Prop
  | .token _ _ rest => rest.Complete
  | .done _ _ => True
  | .illegal _ _ => False

/-- What comes next and what follows it make up a stream. -/
theorem Formed.next_parts {stream : TokenStream} (h : stream.Formed)
    {t : Token} {rest : TokenStream} (hn : stream.next.2 = .ok (t, rest)) :
    stream.tokens = (if t.isEnd then [] else [t]) ++ rest.tokens ∧
      stream.comments = stream.next.1 ++ rest.comments ∧
      (rest.Complete → stream.Complete) ∧
      (t.isEnd = true → rest = .done [] t) := by
  cases stream with
  | token comments _ _ =>
      cases hn
      have hend := h.1.not_end
      rw [hend]
      exact ⟨rfl, rfl, id, by simp⟩
  | done comments _ =>
      cases hn
      rw [show t.isEnd = true from h]
      exact ⟨rfl, (List.append_nil _).symm, id, fun _ => rfl⟩
  | illegal _ _ => cases hn

end TokenStream

-- ============================================================ states

namespace ParseState

variable {s s' : ParseState} {stream : TokenStream}

/-- What is kept and what is ahead make up the stream. -/
structure Keeps (stream : TokenStream) (s : ParseState) : Prop where
  formed : s.rest.Formed
  tokens : s.tokens.toList ++ s.rest.tokens = stream.tokens
  comments : s.comments.toList ++ s.rest.comments = stream.comments
  complete : s.rest.Complete → stream.Complete

/-- Where the end of the text is the lookahead, nothing is ahead. -/
def Ends (s : ParseState) : Prop :=
  s.lookahead.isEnd = true → s.rest = .done [] s.lookahead

theorem keeps_ofText [NameProperties] (text : List Char) (tolerant : Bool) :
    (ofText text tolerant).Keeps (.ofText text) where
  formed := TokenStream.formed_ofText text
  tokens := rfl
  comments := rfl
  complete := id

theorem Keeps.shift {t : Token} (hs : s.Keeps stream)
    (h : Parse.shift s = .ok t s') : s'.Keeps stream ∧ s'.Ends := by
  obtain ⟨-, next, rest, log, hn, -, rfl⟩ := Parse.shift_ok.1 h
  obtain ⟨htokens, hcomments, hcomplete, hend⟩ := hs.formed.next_parts hn
  refine ⟨⟨(hs.formed.next hn).1, ?_, ?_, hs.complete ∘ hcomplete⟩, hend⟩
  · rw [← hs.tokens, htokens, ← List.append_assoc]
    show (if next.isEnd then s.tokens else s.tokens.push next).toList
      ++ rest.tokens = _
    split
    · rw [List.append_nil]
    · rw [Array.toList_push]
  · rw [← hs.comments, hcomments, ← List.append_assoc]
    simp [consume, pass]

theorem Keeps.step (hs : s.Keeps stream) (he : s.Ends) (h : s.Step s') :
    s'.Keeps stream ∧ s'.Ends := by
  cases h with
  | shift h => exact hs.shift h
  | tolerate h =>
      obtain ⟨-, rfl⟩ := Parse.tolerate_ok.1 h
      exact ⟨⟨hs.formed, hs.tokens, hs.comments, hs.complete⟩, he⟩
  | close h =>
      obtain ⟨-, rfl⟩ := Parse.close_ok.1 h
      exact ⟨⟨hs.formed, hs.tokens, hs.comments, hs.complete⟩, he⟩
  | standAt h =>
      cases h
      exact ⟨⟨hs.formed, hs.tokens, hs.comments, hs.complete⟩, he⟩

theorem Reaches.keeps (h : s.Reaches s') (hs : s.Keeps stream)
    (he : s.Ends) : s'.Keeps stream ∧ s'.Ends := by
  induction h with
  | refl => exact ⟨hs, he⟩
  | tail _ hstep ih => exact ih.1.step ih.2 hstep

end ParseState

-- ================================================== words in escapes

/-- Whether a diagnostic is about a word in escapes. -/
def Diagnostic.isAboutEscapes (d : Diagnostic) : Bool :=
  d.description = Message.escapedReserved

/-- What is to be said of the words in escapes among tokens. -/
def escapesAmong (tokens : List Token) : List Diagnostic :=
  (tokens.filter Token.isEscapedReserved).map fun t =>
    t.span.start.diagnose .escapedReserved

theorem escapesAmong_append (tokens tokens' : List Token) :
    escapesAmong (tokens ++ tokens')
      = escapesAmong tokens ++ escapesAmong tokens' := by
  simp [escapesAmong]

/-- What a log that accepts a token has recorded. -/
theorem DiagnosticLog.recorded_of_accept {log log' : DiagnosticLog}
    {t : Token} (h : log.accept t = .ok log') :
    log' = { log with recorded := log.recorded ++ escapesAmong [t] } := by
  have h := Parse.accept_ok.1 h
  unfold escapesAmong
  split at h
  case isTrue hescaped =>
    obtain ⟨-, rfl⟩ := h
    rw [List.filter_cons_of_pos hescaped]
    rfl
  case isFalse hescaped =>
    subst h
    rw [List.filter_cons_of_neg hescaped]
    simp

theorem isAboutEscapes_of_mem {tokens : List Token} :
    ∀ d ∈ escapesAmong tokens, d.isAboutEscapes = true := by
  intro d hd
  obtain ⟨t, -, rfl⟩ := List.mem_map.1 hd
  rfl

namespace ParseState

variable {b : Bool} {s s' : ParseState} {forest : List (Outline Span)}

/-- What is recorded about words in escapes are those among the tokens. -/
def RecordsEscapes (s : ParseState) : Prop :=
  s.log.recorded.filter Diagnostic.isAboutEscapes
    = escapesAmong s.tokens.toList

theorem RecordsEscapes.shift {t : Token} (hs : s.RecordsEscapes)
    (h : Parse.shift s = .ok t s') : s'.RecordsEscapes := by
  obtain ⟨-, next, rest, log, -, hl, rfl⟩ := Parse.shift_ok.1 h
  have hlog := DiagnosticLog.recorded_of_accept hl
  have hnew : (escapesAmong [next]).filter Diagnostic.isAboutEscapes
      = escapesAmong [next] :=
    List.filter_eq_self.2 isAboutEscapes_of_mem
  show log.recorded.filter _ = escapesAmong
    (if next.isEnd then s.tokens else s.tokens.push next).toList
  rw [hlog, List.filter_append, hs, hnew, ← escapesAmong_append]
  split
  case isTrue hend =>
    have hnone : escapesAmong [next] = [] := by
      simp [escapesAmong, Token.not_escapedReserved_of_isEnd hend]
    rw [escapesAmong_append, hnone, List.append_nil]
  case isFalse => rw [Array.toList_push]

theorem Builds.escapes (h : s.Builds b forest s')
    (hs : s.RecordsEscapes) : s'.RecordsEscapes := by
  induction h with
  | refl => exact hs
  | weaken _ ih => exact ih hs
  | shift _ hshift ih => exact (ih hs).shift hshift
  | @tolerate _ _ _ _ _ d _ hd htolerate ih =>
      obtain ⟨-, rfl⟩ := Parse.tolerate_ok.1 htolerate
      have hother : ¬d.isAboutEscapes = true := by
        simpa [Diagnostic.isAboutEscapes] using hd
      have hs' := ih hs
      unfold RecordsEscapes at hs' ⊢
      rw [← hs']
      show (_ ++ [d]).filter _ = _
      rw [List.filter_append, List.filter_cons_of_neg hother,
        List.filter_nil, List.append_nil]
  | extend _ ih => exact ih hs
  | close _ _ hclose ih ih' =>
      obtain ⟨-, rfl⟩ := Parse.close_ok.1 hclose
      exact ih' (ih hs)
  | missing _ _ hclose ih =>
      obtain ⟨-, rfl⟩ := Parse.close_ok.1 hclose
      exact ih hs

end ParseState

-- =========================================================== scripts

/-- A script that is parsed has kept all of its text, and has recorded
the words in escapes. -/
theorem Parse.ScriptRun.kept [NameProperties]
    {text : List Char} {tolerant : Bool}
    {first stop final : ParseState} {script : Script Span}
    (run : Parse.ScriptRun (.ofText text tolerant) first stop final
      script) :
    (TokenStream.ofText text).Complete ∧
      final.tokens.toList = (TokenStream.ofText text).tokens ∧
      final.comments.toList = (TokenStream.ofText text).comments ∧
      final.RecordsEscapes := by
  have hshift := Parse.skip_ok.1 run.begins
  obtain ⟨hfirst, hends⟩ :=
    (ParseState.keeps_ofText text tolerant).shift hshift
  obtain ⟨hstop, hends⟩ := run.builds.reaches.keeps
    ⟨hfirst.formed, hfirst.tokens, hfirst.comments, hfirst.complete⟩ hends
  have hnone : (ParseState.ofText text tolerant).RecordsEscapes := rfl
  have hfirstEscapes := hnone.shift hshift
  have hescapes := run.builds.escapes hfirstEscapes
  obtain ⟨-, hfinal⟩ := Parse.close_ok.1 run.closes
  have hrest := hends run.ends
  have htokens := hstop.tokens
  have hcomments := hstop.comments
  rw [hrest] at htokens hcomments
  subst hfinal
  exact ⟨hstop.complete (hrest ▸ trivial),
    (List.append_nil _).symm.trans htokens,
    (List.append_nil _).symm.trans hcomments, hescapes⟩

end ScriptTree
