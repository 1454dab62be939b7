/-
A reader that goes over a text token by token reads the stream of it.

To read a text is to pass over what stands in front of a token, read the
token, and go on, up to the end of the text (`TokenReader.Reads`). A
reader gets there where its log accepts the tokens of the stream, and has
then read them (`reads_of_accepted`). Any log accepts those of a stream
that is readable (`Readable.accepted`).
-/
import ScriptTree.Proofs.Ahead
import ScriptTree.Proofs.Scanning.Walk
import ScriptTree.Token.Reader

namespace ScriptTree

namespace TokenReader

variable {r r' : TokenReader} {t : Token} {d : Diagnostic}

/-- A token is read if the log accepts it. -/
theorem token_eq_ok [NameProperties] :
    r.token = .ok t r' ↔ ∃ stop log,
      Cursor.token r.cursor = .ok t stop ∧ r.log.accept t = .ok log ∧
      r' = { r with cursor := stop, log } := by
  unfold token
  cases Cursor.token r.cursor with
  | error d stop => simp
  | ok t' stop =>
      constructor
      · intro h
        simp only at h
        split at h
        case h_1 log haccept =>
          cases h
          exact ⟨stop, log, rfl, haccept, rfl⟩
        case h_2 => cases h
      · rintro ⟨_, log, ⟨⟩, haccept, rfl⟩
        simp only [haccept]

/-- No token is read where characters form none, or where the log does
not accept it. -/
theorem token_eq_error [NameProperties] :
    r.token = .error d r' ↔
      (∃ stop, Cursor.token r.cursor = .error d stop ∧
        r' = { r with cursor := stop }) ∨
      ∃ t stop, Cursor.token r.cursor = .ok t stop ∧
        r.log.accept t = .error d ∧ r' = r := by
  unfold token
  cases Cursor.token r.cursor with
  | error d' stop =>
      constructor
      · rintro ⟨⟩
        exact .inl ⟨stop, rfl, rfl⟩
      · rintro (⟨_, ⟨⟩, rfl⟩ | ⟨_, _, ⟨⟩, -⟩)
        rfl
  | ok t stop =>
      constructor
      · intro h
        simp only at h
        split at h
        case h_1 => cases h
        case h_2 d' haccept =>
          cases h
          exact .inr ⟨t, stop, rfl, haccept, rfl⟩
      · rintro (⟨_, ⟨⟩, -⟩ | ⟨_, _, ⟨⟩, haccept, rfl⟩)
        simp only [haccept]

end TokenReader

/-- The tokens that a reader comes to, up to the end of the text. Each
time it passes over what is between tokens first. -/
inductive TokenReader.Reads [NameProperties] :
    TokenReader → List Token → Prop where
  | done {r r' : TokenReader} {t : Token} :
      r.skipTrivia.2.token = .ok t r' → t.isEnd = true → Reads r []
  | token {r r' : TokenReader} {t : Token} {tokens : List Token} :
      r.skipTrivia.2.token = .ok t r' → t.isEnd = false →
        Reads r' tokens → Reads r (t :: tokens)

/-- There is one way to read a text. -/
theorem TokenReader.Reads.unique [NameProperties] {r : TokenReader}
    {tokens tokens' : List Token} (h : r.Reads tokens)
    (h' : r.Reads tokens') : tokens' = tokens := by
  induction h generalizing tokens' with
  | done hr hend =>
      cases h' with
      | done => rfl
      | token hr' hend' =>
          rw [hr] at hr'
          cases hr'
          rw [hend] at hend'
          cases hend'
  | token hr hend _ ih =>
      cases h' with
      | done hr' hend' =>
          rw [hr] at hr'
          cases hr'
          rw [hend] at hend'
          cases hend'
      | token hr' _ hrest =>
          rw [hr] at hr'
          cases hr'
          rw [ih hrest]

-- ============================================================ trivia

namespace Cursor

variable {c d : Cursor}

theorem advance_length_lt {ch : Char} {rest : List Char}
    (h : c.rest = ch :: rest) : c.advance.rest.length < c.rest.length := by
  rw [advance_rest h, h]
  exact Nat.lt_succ_self _

theorem lineBreak_length_lt (h : c.lineBreak? = some d) :
    d.rest.length < c.rest.length := by
  obtain ⟨text, hne, hreads, -⟩ := reads_lineBreak h
  exact hreads.length_lt hne

theorem comment_length_lt {comment : Comment}
    (h : c.comment? = some (comment, d)) :
    d.rest.length < c.rest.length := by
  obtain ⟨body, stop, hreads, -, -, -, hend⟩ := comment?_eq_some h
  have hlt := hreads.length_lt (List.cons_ne_nil _ _)
  rcases hend with hbreak | ⟨-, rfl⟩
  · exact Nat.lt_trans (lineBreak_length_lt hbreak) hlt
  · exact hlt

/-- Each comment that is passed over takes a character. -/
theorem comments_length_le (steps : Nat) (c : Cursor) :
    (c.skipTriviaWithin steps).1.length
      + (c.skipTriviaWithin steps).2.rest.length ≤ c.rest.length := by
  induction steps generalizing c with
  | zero => exact Nat.le_of_eq (Nat.zero_add _)
  | succ steps ih =>
      cases skips c with
      | nothing hskip =>
          rw [hskip]
          exact Nat.le_of_eq (Nat.zero_add _)
      | blank hrest _ hskip =>
          have hlt := advance_length_lt hrest
          rw [hskip]
          exact Nat.le_trans (ih _) (Nat.le_of_lt hlt)
      | lineBreak hbreak hskip =>
          have hlt := lineBreak_length_lt hbreak
          rw [hskip]
          exact Nat.le_trans (ih _) (Nat.le_of_lt hlt)
      | @comment _ next hcomment hskip =>
          have hlt := comment_length_lt hcomment
          have hle := ih next
          rw [hskip]
          simp only [List.length_cons]
          omega

theorem skipTrivia_length_le (c : Cursor) :
    c.skipTrivia.2.rest.length ≤ c.rest.length :=
  Nat.le_trans (Nat.le_add_left _ _) (comments_length_le _ c)

/-- A token takes a character. -/
theorem token_length_lt [NameProperties] {t : Token} (h : token c = .ok t d)
    (hne : c.rest ≠ []) : d.rest.length < c.rest.length := by
  obtain ⟨ch, rest, hrest⟩ := List.exists_cons_of_ne_nil hne
  obtain ⟨text, lines, htext, -, -, hat⟩ := token_ok hrest h
  exact hat.reads.length_lt htext

/-- Only the end is read at the end. -/
theorem rest_ne_nil_of_token [NameProperties]
    {t : Token} (h : token c = .ok t d)
    (hend : t.isEnd = false) : c.rest ≠ [] := by
  intro hnil
  rw [token_of_nil hnil] at h
  cases h
  cases hend

/-- A token that is read in front of the end is one of a text. -/
theorem formed_token [NameProperties] {t : Token} (h : token c = .ok t d)
    (hne : c.rest ≠ []) : t.Formed := by
  obtain ⟨ch, rest, hrest⟩ := List.exists_cons_of_ne_nil hne
  obtain ⟨-, -, -, hformed, -, -⟩ := token_ok hrest h
  exact hformed

end Cursor

-- =========================================================== streams

/-- A token that is read somewhere, where the text is not at its end. -/
def Token.Lexed [NameProperties] (t : Token) : Prop :=
  ∃ c d, c.rest ≠ [] ∧ Cursor.token c = .ok t d

theorem Token.Lexed.of_token [NameProperties] {t : Token} {c d : Cursor}
    (h : Cursor.token c = .ok t d) (hend : t.isEnd = false) : t.Lexed :=
  ⟨c, d, Cursor.rest_ne_nil_of_token h hend, h⟩

namespace TokenStream

/-- What a stream begins with behind its comments: the end of the text, a
token, which takes some of what is ahead, or characters that form none.
This is all that `fromCursor` does in a step. -/
inductive Begins [NameProperties] (c : Cursor) : Prop where
  | done : c.skipTrivia.2.rest = [] →
      (∀ steps, fromCursor (steps + 1) c
        = .done c.skipTrivia.1 c.skipTrivia.2.endToken) → Begins c
  | token {t : Token} {stop : Cursor} : c.skipTrivia.2.rest ≠ [] →
      Cursor.token c.skipTrivia.2 = .ok t stop →
      stop.rest.length < c.rest.length →
      (∀ steps, fromCursor (steps + 1) c
        = .token c.skipTrivia.1 t (fromCursor steps stop)) → Begins c
  | illegal {d : Diagnostic} {stop : Cursor} : c.skipTrivia.2.rest ≠ [] →
      Cursor.token c.skipTrivia.2 = .error d stop →
      (∀ steps, fromCursor (steps + 1) c
        = .illegal c.skipTrivia.1 d) → Begins c

theorem begins [NameProperties] (c : Cursor) : Begins c := by
  by_cases hend : c.skipTrivia.2.rest = []
  · refine .done hend fun steps => ?_
    simp only [fromCursor, List.isEmpty_iff, hend, if_true]
  · cases htoken : Cursor.token c.skipTrivia.2 with
    | ok t stop =>
        have hlt := Nat.lt_of_lt_of_le (Cursor.token_length_lt htoken hend)
          c.skipTrivia_length_le
        refine .token hend htoken hlt fun steps => ?_
        simp only [fromCursor, List.isEmpty_iff, hend,
          if_false, htoken]
    | error d stop =>
        refine .illegal hend htoken fun steps => ?_
        simp only [fromCursor, List.isEmpty_iff, hend,
          if_false, htoken]

theorem formed_fromCursor [NameProperties] (steps : Nat) (c : Cursor) :
    (fromCursor steps c).Formed := by
  induction steps generalizing c with
  | zero => rfl
  | succ steps ih =>
      cases begins c with
      | done _ hstream =>
          rw [hstream]
          rfl
      | @token t stop hne htoken _ hstream =>
          rw [hstream]
          exact ⟨Cursor.formed_token htoken hne, ih stop⟩
      | illegal _ _ hstream =>
          rw [hstream]
          trivial

theorem formed_ofText [NameProperties]
    (text : List Char) : (ofText text).Formed :=
  formed_fromCursor _ _

theorem lexed_fromCursor [NameProperties] (steps : Nat) (c : Cursor) :
    ∀ t ∈ (fromCursor steps c).tokens, t.Lexed := by
  induction steps generalizing c with
  | zero => simp [fromCursor, tokens]
  | succ steps ih =>
      cases begins c with
      | done _ hstream | illegal _ _ hstream => simp [hstream, tokens]
      | @token t stop hne htoken _ hstream =>
          rw [hstream, tokens]
          intro t' hin
          rcases List.mem_cons.1 hin with rfl | hin
          · exact ⟨_, stop, hne, htoken⟩
          · exact ih stop t' hin

theorem lexed_ofText [NameProperties] (text : List Char) :
    ∀ t ∈ (ofText text).tokens, t.Lexed :=
  lexed_fromCursor _ _

/-- There are no more tokens than there are steps to read them. -/
theorem tokens_length_le [NameProperties] (steps : Nat) (c : Cursor) :
    (fromCursor steps c).tokens.length ≤ steps := by
  induction steps generalizing c with
  | zero => exact Nat.le_refl _
  | succ steps ih =>
      cases begins c with
      | done _ hstream | illegal _ _ hstream =>
          rw [hstream]
          exact Nat.zero_le _
      | @token t stop _ _ _ hstream =>
          rw [hstream]
          exact Nat.succ_le_succ (ih stop)

theorem reads_nil [NameProperties] {r : TokenReader}
    (h : r.cursor.skipTrivia.2.rest = []) : r.Reads [] := by
  have hread : r.skipTrivia.2.token
      = .ok r.skipTrivia.2.cursor.endToken r.skipTrivia.2 :=
    TokenReader.token_eq_ok.2
      ⟨_, r.log, Cursor.token_of_nil h, Parse.accept_ok.2 rfl, rfl⟩
  exact .done hread rfl

/-- A stream that goes on to the end of the text, of tokens that a log
accepts one after the other. -/
def Accepted : DiagnosticLog → TokenStream → Prop
  | log, .token _ t rest =>
    ∃ log', log.accept t = .ok log' ∧ rest.Accepted log'
  | _, .done _ _ => True
  | _, .illegal _ _ => False

/-- A reader reads a stream to its end if its log accepts the tokens.
There are enough steps, as every token takes a character. -/
theorem reads_of_accepted [NameProperties] {steps : Nat} {r : TokenReader}
    (hsteps : r.cursor.rest.length ≤ steps)
    (h : (fromCursor steps r.cursor).Accepted r.log) :
    r.Reads (fromCursor steps r.cursor).tokens := by
  induction steps generalizing r with
  | zero =>
      have hle := r.cursor.skipTrivia_length_le
      exact reads_nil (List.length_eq_zero_iff.1 (by omega))
  | succ steps ih =>
      cases begins r.cursor with
      | done hend hstream =>
          rw [hstream]
          exact reads_nil hend
      | illegal _ _ hstream =>
          rw [hstream] at h
          exact absurd h id
      | @token t stop hne htoken hlt hstream =>
          rw [hstream] at h ⊢
          obtain ⟨log, haccept, hlater⟩ := h
          have hread : r.skipTrivia.2.token
              = .ok t { r with cursor := stop, log } :=
            TokenReader.token_eq_ok.2 ⟨stop, log, htoken, haccept, rfl⟩
          have hrest := @ih { r with cursor := stop, log }
            (by simp only; omega) hlater
          exact .token hread (Cursor.formed_token htoken hne).not_end hrest

/-- What can be read without fault is accepted by every log. -/
theorem Readable.accepted {log : DiagnosticLog} :
    ∀ {stream : TokenStream}, stream.Readable → stream.Accepted log
  | .token _ _ _, h =>
    ⟨log, Parse.accept_ok.2 (by simp [h.1.unescaped]), h.2.accepted⟩
  | .done _ _, _ => trivial

/-- A strict reader reads a text whose stream is readable. -/
theorem reads_of_readable [NameProperties] {text : List Char}
    (h : (ofText text).Readable) (keepsComments : Bool) :
    (TokenReader.ofText text false keepsComments).Reads
      (ofText text).tokens :=
  reads_of_accepted (Nat.le_of_eq (Cursor.ofText_length text)) h.accepted

end TokenStream

end ScriptTree
