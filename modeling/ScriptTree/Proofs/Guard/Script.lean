/-
The parts of a parsed script, and the tokens of the text they are made of.

The tokens that a parse looks at are those of its text, and the end of it
(`Token.Seen`). A guard that watches over no more than this
(`Guard.ofTokens`) has the tree of every report made of tokens of the
text.
-/
import ScriptTree.Proofs.Guard.Statement
import ScriptTree.Proofs.Underway
import ScriptTree.Report

namespace ScriptTree

variable {text : List Char} {s s' : ParseState} {t : Token}

/-- A token of a text, or the end of it. -/
def Token.Seen [NameProperties] (text : List Char) (t : Token) : Prop :=
  t.isEnd = true ∨ t ∈ (TokenStream.ofText text).tokens

/-- What is not the end of the text is a token of it. -/
theorem Token.Seen.mem [NameProperties]
    (h : t.Seen text) (hend : t.isEnd = false) :
    t ∈ (TokenStream.ofText text).tokens := by
  rcases h with h | h
  · rw [hend] at h
    cases h
  · exact h

/-- What a shift looks at next is a token of the text. -/
theorem ParseState.Keeps.seen_of_shift [NameProperties]
    (hs : s.Keeps (.ofText text))
    (h : Parse.shift s = .ok t s') : s'.lookahead.Seen text := by
  obtain ⟨-, next, rest, log, hn, -, rfl⟩ := Parse.shift_ok.1 h
  obtain ⟨htokens, -, -, -⟩ := hs.formed.next_parts hn
  show next.Seen text
  cases hend : next.isEnd with
  | true => exact .inl hend
  | false =>
      rw [hend] at htokens
      right
      rw [← hs.tokens, htokens]
      simp

/-- The guard that knows the tokens of a text. -/
def Guard.ofTokens [NameProperties] (text : List Char) : Guard where
  state s := s.Underway text ∧ s.lookahead.Seen text
  token := Token.Seen text
  voices _ := True
  lookahead hs := hs.2
  shift hs h := ⟨hs.1.shift h, hs.1.keeps.seen_of_shift h⟩
  refused _ _ := trivial
  last _ _ := trivial
  ahead _ _ := trivial
  behind _ _ _ := trivial
  start _ _ := trivial
  record hs _ _ := ⟨hs.1.of_eq rfl rfl rfl rfl, hs.2⟩
  close hs := ⟨hs.1.of_eq rfl rfl rfl rfl, hs.2⟩
  extend hs := ⟨hs.1.of_eq rfl rfl rfl rfl, hs.2⟩

/-- A guard that answers for the first token answers for the script. -/
theorem Guard.allows_script (g : Guard) {π : Type} (place : Span → π)
    (depth : Nat) {s : ParseState}
    (hfirst : ∀ u, Parse.skip s = .ok () u →
      g.state { u with last := u.lookahead.span.stop })
    (hrefused : ∀ d u, Parse.shift s = .error (.refused d) u →
      g.voices d) :
    g.Allows
      (fun script u => g.AllMade place (script.map place).parts ∧ g.state u)
      (Parse.script (.ofDepth depth) s) := by
  rcases Parse.shift_cases s with ⟨u, hu⟩ | ⟨d, hd⟩
  · have hskip : Parse.skip s = .ok () u := Parse.skip_ok.2 hu
    rw [Parse.script_of_skip hskip]
    exact g.gives_scriptBody place depth _ (hfirst u hskip)
  · rw [Parse.script_of_refused hd]
    exact .refused (hrefused d _ hd)

/-- All parts of a parsed script are made of tokens of the text. -/
theorem made_of_parse [NameProperties] {options : Options} {report : Report}
    (h : parse options text = .ok report) :
    (Guard.ofTokens text).AllMade options.locate report.script.parts := by
  obtain ⟨script, s, hs, rfl⟩ := parse_ok.1 h
  have hends := (Guard.ofTokens text).allows_script options.locate
    (text.length + 1) (s := .ofText text options.tolerant) ?_ ?_
  · rw [hs] at hends
    cases hends with
    | ok hmade => exact hmade.1
  · intro u hskip
    have hseen : u.lookahead.Seen text :=
      (ParseState.keeps_ofText text options.tolerant).seen_of_shift
        (Parse.skip_ok.1 hskip)
    exact ⟨(ParseState.underway_of_skip hskip).of_eq rfl rfl rfl rfl, hseen⟩
  · exact fun _ _ _ => trivial

end ScriptTree
