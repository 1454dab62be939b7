/-
The token that an expression ends with.

An expression ends with a name, a literal, an operator after a variable, a
closing parenthesis or a closing brace. So a semicolon after an expression
is never a part of it (`Parse.finishes_expression`). Semicolons within an
expression are those of statements, which a function has in braces.

- `Finishes`: a success has consumed something, and no stop last.
- `MayFinish`: the same, or a success has consumed nothing.
-/
import ScriptTree.Proofs.Simulation.Statement
import ScriptTree.Proofs.Extension
import ScriptTree.Proofs.Yield.Script

namespace ScriptTree

-- ============================================================ tokens

/-- A semicolon, or the end of the text. -/
def Token.isStop (t : Token) : Bool := t.isEnd || t.isPunctuator ";"

/-- A token is one punctuator only. -/
theorem Token.isStop_of_mark {t : Token} {mark : String}
    (hmark : mark ≠ ";") (h : t.isPunctuator mark = true) :
    t.isStop = false := by
  obtain ⟨hkind, htext⟩ := isPunctuator_iff.1 h
  simp [isStop, isEnd, isPunctuator, hkind, htext, hmark]

/-- Only a punctuator or the end of the text is a stop. -/
theorem Token.isStop_of_kind {t : Token} (hend : t.kind ≠ .endOfInput)
    (h : t.kind ≠ .punctuator) : t.isStop = false := by
  simp [isStop, isEnd, isPunctuator, hend, h]

/-- The operator of an update is no stop. -/
theorem Token.isStop_of_update {t : Token} {operator : UpdateOperator}
    (h : t.updateOperator? = some operator) : t.isStop = false := by
  unfold updateOperator? punctuator? at h
  split at h
  case isFalse => cases h
  case isTrue hkind =>
    have hmark : t.text? ≠ some ";" := by
      intro htext
      have hnone : UpdateOperator.ofText? ";" = none := by decide
      rw [htext, Option.bind_some, hnone] at h
      cases h
    simp [isStop, isEnd, isPunctuator, hkind, hmark]

-- ============================================================ states

namespace ParseState

variable {s s₁ u u₁ : ParseState}

/-- A run on which the last token that is consumed is no stop. -/
def Finished (s u : ParseState) : Prop :=
  ∃ s₁ s₂ t, s.Reaches s₁ ∧ Parse.shift s₁ = .ok t s₂ ∧ s₂.Stays u ∧
    t.isStop = false

namespace Finished

/-- What is read before does not matter. -/
theorem after (h : s.Reaches s₁) (h' : s₁.Finished u) : s.Finished u := by
  obtain ⟨v, w, t, hr, hshift, hstay, ht⟩ := h'
  exact ⟨v, w, t, h.trans hr, hshift, hstay, ht⟩

/-- What only looks ahead afterwards does not matter. -/
theorem stay (h : s.Finished u₁) (h' : u₁.Stays u) : s.Finished u := by
  obtain ⟨v, w, t, hr, hshift, hstay, ht⟩ := h
  exact ⟨v, w, t, hr, hshift, hstay.trans h', ht⟩

/-- What finishes reaches its end. -/
theorem reaches (h : s.Finished u) : s.Reaches u := by
  obtain ⟨v, w, t, hr, hshift, hstay, -⟩ := h
  exact (hr.tail (.shift hshift)).trans hstay.reaches

/-- Words that end with a semicolon are not all consumed. -/
theorem words_ne_nil {ws : List Word} {w : Word} (h : s.Finished u)
    (hs : s.Ahead (ws ++ [w])) (hw : w.token.isStop = true) :
    u.words ≠ [] := by
  obtain ⟨s₁, s₂, t, hreach, hshift, hstay, ht⟩ := h
  obtain rfl := (Parse.shift_ok.1 hshift).1
  have hs₁ := hreach.sound hs.sound
  have hsuffix := hreach.words_suffix hs.sound
  have htail := (hs₁.shift hshift).2
  intro hnil
  rw [hs.words] at hsuffix
  have hend := isEnd_of_words_nil hnil
  rw [hstay.lookahead] at hend
  rw [words_of_end hend] at htail
  cases hwords : s₁.words with
  | nil =>
      have hend₁ := isEnd_of_words_nil hwords
      simp [Token.isStop, hend₁] at ht
  | cons w₁ more =>
      rw [hwords] at htail hsuffix
      obtain rfl : more = [] := htail.symm
      obtain ⟨front, hfront⟩ := hsuffix
      obtain ⟨-, hlast⟩ := List.append_inj' hfront rfl
      obtain rfl : w₁ = w := (List.cons.inj hlast).1
      have hstop : s₁.lookahead.bare.isStop = true := by
        rw [(words_cons hwords).2.1]
        exact hw
      have hplain : s₁.lookahead.bare.isStop = false := ht
      rw [hplain] at hstop
      cases hstop

end Finished

end ParseState

namespace Parse

variable {α β : Type} {p q : Parse α} {f : α → Parse β}

/-- A success consumes something, and a token last that is no stop. -/
def Finishes (p : Parse α) : Prop :=
  ∀ ⦃s a u⦄, p s = .ok a u → s.Finished u

/-- A success does so, or consumes nothing. -/
def MayFinish (p : Parse α) : Prop :=
  ∀ ⦃s a u⦄, p s = .ok a u → s.Stays u ∨ s.Finished u

-- ========================================================= sequences

/-- What finishes may finish. -/
theorem Finishes.may (hp : p.Finishes) : p.MayFinish :=
  fun _ _ _ h => .inr (hp h)

/-- What consumes nothing may finish. -/
theorem Waits.mayFinish (hp : p.Waits) : p.MayFinish :=
  fun _ _ _ h => .inl (hp h)

theorem Finishes.runs (hp : p.Finishes) : p.Runs :=
  fun _ _ _ h => (hp h).reaches

theorem MayFinish.runs (hp : p.MayFinish) : p.Runs := by
  intro s a u h
  rcases hp h with hstay | hfinished
  · exact hstay.reaches
  · exact hfinished.reaches

/-- What comes last decides what a sequence ends with. -/
theorem Finishes.last (hp : p.Runs) (hf : ∀ a, (f a).Finishes) :
    (p >>= f).Finishes := by
  intro s b u h
  obtain ⟨a, s₁, h₁, h₂⟩ := bind_ok.1 h
  exact .after (hp h₁) (hf a h₂)

/-- What finishes does so if what comes next may. -/
theorem Finishes.bind (hp : p.Finishes) (hf : ∀ a, (f a).MayFinish) :
    (p >>= f).Finishes := by
  intro s b u h
  obtain ⟨a, s₁, h₁, h₂⟩ := bind_ok.1 h
  rcases hf a h₂ with hstay | hfinished
  · exact (hp h₁).stay hstay
  · exact .after (hp h₁).reaches hfinished

/-- Two actions may finish if both may. -/
theorem MayFinish.bind (hp : p.MayFinish) (hf : ∀ a, (f a).MayFinish) :
    (p >>= f).MayFinish := by
  intro s b u h
  obtain ⟨a, s₁, h₁, h₂⟩ := bind_ok.1 h
  rcases hp h₁ with hfirst | hfirst
  · rcases hf a h₂ with hstay | hfinished
    · exact .inl (hfirst.trans hstay)
    · exact .inr (.after hfirst.reaches hfinished)
  · rcases hf a h₂ with hstay | hfinished
    · exact .inr (hfirst.stay hstay)
    · exact .inr (.after hfirst.reaches hfinished)

/-- Either of two actions. -/
theorem Finishes.ite {c : Prop} [Decidable c] (hp : c → p.Finishes)
    (hq : ¬c → q.Finishes) : (if c then p else q).Finishes := by
  split
  case isTrue hc => exact hp hc
  case isFalse hc => exact hq hc

/-- Either of two actions. -/
theorem MayFinish.ite {c : Prop} [Decidable c] (hp : c → p.MayFinish)
    (hq : ¬c → q.MayFinish) : (if c then p else q).MayFinish := by
  split
  case isTrue hc => exact hp hc
  case isFalse hc => exact hq hc

/-- An action that never succeeds finishes. -/
theorem finishes_of_fails (h : ∀ s a u, ¬p s = .ok a u) : p.Finishes :=
  fun s a u hp => absurd hp (h s a u)

-- ====================================================== basic actions

/-- A mark that is asked for comes last, and is no stop but for a
semicolon. -/
theorem finishes_expect {mark : String} (hmark : mark ≠ ";") :
    (expect mark).Finishes := by
  intro s _ u h
  obtain ⟨hat, hskip⟩ := expect_ok.1 h
  exact ⟨s, u, _, .refl, skip_ok.1 hskip, .refl u,
    Token.isStop_of_mark hmark hat⟩

/-- A token that is refused leaves nothing to show. -/
theorem finishes_unexpected :
    (shift >>= fun t => (unexpected t : Parse α)).Finishes := by
  refine finishes_of_fails fun s a u h => ?_
  obtain ⟨_, _, -, h⟩ := bind_ok.1 h
  exact unexpected_ok h

/-- A node is completed without a token of its own. -/
theorem mayFinish_close (kind : NodeKind) (start : Position)
    (g : Span → α) :
    (close kind start >>= fun span => pure (g span)).MayFinish :=
  ((waits_close kind start).bind fun _ => waits_pure _).mayFinish

/-- The lookahead is consumed, which is known not to be a stop. -/
theorem finished_of_skip {f : Unit → Parse β} {s u : ParseState} {b : β}
    (ht : s.lookahead.isStop = false) (hf : (f ()).MayFinish)
    (h : (skip >>= f) s = .ok b u) : s.Finished u := by
  obtain ⟨_, s₁, hskip, h⟩ := bind_ok.1 h
  have hfirst : s.Finished s₁ :=
    ⟨s, s₁, _, .refl, skip_ok.1 hskip, .refl s₁, ht⟩
  rcases hf h with hstay | hfinished
  · exact hfirst.stay hstay
  · exact .after hfirst.reaches hfinished

/-- An action repeated finishes, or is not taken at all. -/
theorem mayFinish_collectWhile {more : Parse Bool} (hm : more.Waits)
    (hp : p.Finishes) (steps : Nat) :
    (collectWhile more p steps).MayFinish := by
  induction steps with
  | zero => exact (finishes_of_fails fun _ _ _ => exhausted_ok).may
  | succ steps ih =>
      refine hm.mayFinish.bind fun _ => .ite (fun _ => ?_)
        fun _ => (waits_pure _).mayFinish
      refine hp.may.bind fun first => ih.bind fun later => ?_
      exact (waits_pure _).mayFinish

/-- A closing parenthesis comes last. -/
theorem finishes_parenthesized {item : Parse α} {separator : Parse Unit}
    {steps : Nat} (h : (upToParenthesis item separator steps).Runs) :
    (parenthesized item separator steps).Finishes := by
  refine .last (advances_expect _).runs fun _ => ?_
  refine .last h fun _ => ?_
  exact (finishes_expect (by decide)).bind fun _ =>
    (waits_pure _).mayFinish

/-- A sequence is made of items that are there, and consumes nothing more.
-/
theorem waits_sequenceOf (start : Position) (first : Expression Span)
    (further : List (Expression Span)) :
    (sequenceOf start first further).Waits := by
  unfold sequenceOf
  split
  · exact waits_pure _
  · exact (waits_close _ _).bind fun _ => waits_pure _

-- ======================================================= productions

/-- Productions whose runs are known, of which expressions end with no
semicolon. -/
structure FinishingLevels (inner : Productions) : Prop where
  levels : (extension []).Levels inner inner
  assignment : inner.assignment.Finishes
  unary : inner.unary.Finishes
  power : inner.power.Finishes

section Productions

variable {inner : Productions}

/-- The last token of the further items of a sequence is no stop, if there
is one. -/
theorem mayFinish_furtherItems {item : Parse (Expression Span)}
    (h : item.Finishes) : (furtherItems inner item).MayFinish :=
  mayFinish_collectWhile (waits_isAt _)
    (.last advances_skip.runs fun _ => h) _

variable (h : FinishingLevels inner)

include h

/-- The last token of the body of a function is no stop. -/
theorem finishes_functionBody : (functionBody inner).Finishes := by
  refine .last waits_lookahead.runs fun _ => ?_
  refine .last (advances_expect _).runs fun _ => ?_
  refine .last ?_ fun _ => ?_
  · refine runs_collectWhile ?_ (h.levels.item .ofFunction).runs
    exact (waits_lookahead.bind fun _ => (waits_isAt _).bind fun _ =>
      waits_pure _).runs
  · exact (finishes_expect (by decide)).bind fun _ =>
      mayFinish_close _ _ _

/-- The last token of a function as an expression is no stop. -/
theorem finishes_functionExpression :
    (functionExpression inner).Finishes := by
  have hstar := Simulation.simulates_generatorStar (M := extension [])
  have hname := Simulation.simulates_optionalName (M := extension [])
  refine .last waits_lookahead.runs fun _ => ?_
  refine .last advances_skip.runs fun _ => ?_
  refine .last hstar.runs fun _ => .last hname.runs fun _ => ?_
  refine .last (Simulation.advances_parameters h.levels).runs fun _ => ?_
  exact (finishes_functionBody h).bind fun _ => mayFinish_close _ _ _

/-- The last token of an expression in parentheses is no stop. -/
theorem finishes_group : (group inner).Finishes := by
  refine .last (advances_expect _).runs fun _ => ?_
  refine .last waits_lookahead.runs fun _ => ?_
  refine .ite (fun _ => finishes_unexpected) fun _ => ?_
  refine .last h.assignment.runs fun _ => ?_
  refine .last (mayFinish_furtherItems h.assignment).runs fun _ => ?_
  refine .last (waits_sequenceOf _ _ _).runs fun _ => ?_
  exact (finishes_expect (by decide)).bind fun _ =>
    (waits_pure _).mayFinish

/-- The last token of a name, a literal, a group or a function is no stop.
-/
theorem finishes_primary : (primary inner).Finishes := by
  intro s e u hrun
  unfold primary at hrun
  rw [lookahead_bind] at hrun
  cases hkind : s.lookahead.kind <;> simp only [hkind] at hrun
  case identifier | numeric | string | boolean | null =>
    have hstop := Token.isStop_of_kind (t := s.lookahead) (by simp [hkind])
      (by simp [hkind])
    exact finished_of_skip hstop (mayFinish_close _ _ _) hrun
  case punctuator =>
    exact Finishes.ite (fun _ => finishes_group h)
      (fun _ => finishes_unexpected) hrun
  case endOfInput => exact finishes_unexpected hrun
  case keyword =>
    have hstop := Token.isStop_of_kind (t := s.lookahead) (by simp [hkind])
      (by simp [hkind])
    split at hrun
    case isTrue =>
      obtain ⟨f, u', hf, hp⟩ := bind_ok.1 hrun
      obtain ⟨-, rfl⟩ := pure_ok.1 hp
      exact finishes_functionExpression h hf
    case isFalse =>
      split at hrun
      case isTrue =>
        exact finished_of_skip hstop (mayFinish_close _ _ _) hrun
      case isFalse => exact finishes_unexpected hrun

/-- The last token of the arguments of a call is no stop. -/
theorem finishes_arguments : (arguments inner).Finishes :=
  finishes_parenthesized (Simulation.simulates_upToParenthesis
    h.levels.assignment.toSimulates
    Simulation.simulates_argumentSeparator le_rfl).runs

/-- The last token of the calls of a value is no stop, if there is one. -/
theorem mayFinish_callsOf (start : Position) (steps : Nat)
    (callee : Expression Span) :
    (callsOf inner start steps callee).MayFinish := by
  induction steps generalizing callee with
  | zero => exact (finishes_of_fails fun _ _ _ => exhausted_ok).may
  | succ steps ih =>
      refine (waits_isAt _).mayFinish.bind fun _ => .ite (fun _ => ?_)
        fun _ => (waits_pure _).mayFinish
      refine (finishes_arguments h).may.bind fun _ => ?_
      exact (waits_close _ _).mayFinish.bind fun _ => ih _

/-- The last token of a value with its calls is no stop. -/
theorem finishes_call : (call inner).Finishes :=
  .last waits_lookahead.runs fun _ => (finishes_primary h).bind fun _ =>
    mayFinish_callsOf h _ _ _

/-- The last token of an operand with its update is no stop. -/
theorem finishes_update : (update inner).Finishes := by
  refine .last waits_lookahead.runs fun first => ?_
  split
  · refine .last advances_skip.runs fun _ => ?_
    refine h.unary.bind fun _ => ?_
    exact (waits_requireAssignable _).mayFinish.bind fun _ =>
      mayFinish_close _ _ _
  · refine (finishes_call h).bind fun argument => ?_
    intro s e u hrun
    rw [lookahead_bind, afterLineBreak_bind] at hrun
    cases hoperator : s.lookahead.updateOperator? with
    | none =>
        rw [hoperator] at hrun
        exact .inl (waits_pure _ hrun)
    | some operator =>
        rw [hoperator] at hrun
        cases hbreak : s.lineBreak with
        | true =>
            rw [hbreak] at hrun
            exact .inl (waits_pure _ hrun)
        | false =>
            rw [hbreak] at hrun
            obtain ⟨_, s₁, hrequire, hrun⟩ := bind_ok.1 hrun
            have hstay := waits_requireAssignable _ hrequire
            have hstop : s₁.lookahead.isStop = false := by
              rw [hstay.lookahead]
              exact Token.isStop_of_update hoperator
            exact .inr (.after hstay.reaches
              (finished_of_skip hstop (mayFinish_close _ _ _) hrun))

/-- The last token of an operand with the operators before it is no stop.
-/
theorem finishes_unary : (unary inner).Finishes := by
  refine .last waits_lookahead.runs fun first => ?_
  split
  · refine .last advances_skip.runs fun _ => ?_
    exact h.unary.bind fun _ => mayFinish_close _ _ _
  · exact finishes_update h

/-- The last token of a power is no stop. -/
theorem finishes_power : (power inner).Finishes := by
  refine .last waits_lookahead.runs fun first => ?_
  refine (finishes_unary h).bind fun base => ?_
  refine .ite (fun _ => (waits_pure _).mayFinish) fun _ => ?_
  refine (waits_isAt _).mayFinish.bind fun _ => .ite (fun _ => ?_)
    fun _ => (waits_pure _).mayFinish
  refine Finishes.may (.last advances_skip.runs fun _ => ?_)
  exact h.power.bind fun _ => mayFinish_close _ _ _

/-- The last token of a chain of operations is no stop, if there is one. -/
theorem mayFinish_operations (steps : Nat) (stack : List Pending)
    (start : Position) (e : Expression Span) :
    (operations inner steps stack start e).MayFinish := by
  induction steps generalizing stack start e with
  | zero => exact (finishes_of_fails fun _ _ _ => exhausted_ok).may
  | succ steps ih =>
      refine waits_lookahead.mayFinish.bind fun t => ?_
      split
      · exact ((waits_reduce _ _ _ _).bind fun _ => waits_pure _).mayFinish
      · refine (waits_reduce _ _ _ _).mayFinish.bind fun _ => ?_
        refine Finishes.may (.last advances_skip.runs fun _ => ?_)
        refine .last waits_lookahead.runs fun _ => ?_
        exact (finishes_power h).bind fun _ => ih _ _ _

/-- The last token of operands with the operators between them is no stop.
-/
theorem finishes_binary : (binary inner).Finishes :=
  .last waits_lookahead.runs fun _ => (finishes_power h).bind fun _ =>
    mayFinish_operations h _ _ _ _

/-- The last token of a choice between two values is no stop. -/
theorem finishes_conditional : (conditional inner).Finishes := by
  refine .last waits_lookahead.runs fun _ => ?_
  refine (finishes_binary h).bind fun _ => ?_
  refine (waits_isAt _).mayFinish.bind fun _ => .ite (fun _ => ?_)
    fun _ => (waits_pure _).mayFinish
  refine Finishes.may (.last advances_skip.runs fun _ => ?_)
  refine .last h.assignment.runs fun _ => ?_
  refine .last (advances_expect _).runs fun _ => ?_
  exact h.assignment.bind fun _ => mayFinish_close _ _ _

/-- The last token of an assignment is no stop. -/
theorem finishes_assignment : (assignment inner).Finishes := by
  refine .last waits_lookahead.runs fun _ => ?_
  refine (finishes_conditional h).bind fun _ => ?_
  refine waits_lookahead.mayFinish.bind fun _ => ?_
  split
  · refine (waits_requireAssignable _).mayFinish.bind fun _ => ?_
    refine Finishes.may (.last advances_skip.runs fun _ => ?_)
    exact h.assignment.bind fun _ => mayFinish_close _ _ _
  · exact (waits_pure _).mayFinish

/-- No expression ends with a semicolon. -/
theorem finishes_expression : (expression inner).Finishes := by
  refine .last waits_lookahead.runs fun _ => ?_
  refine (finishes_assignment h).bind fun _ => ?_
  exact (mayFinish_furtherItems (finishes_assignment h)).bind fun _ =>
    (waits_sequenceOf _ _ _).mayFinish

end Productions

/-- All productions finish, by induction on the depth. -/
theorem finishingLevels_ofDepth (n : Nat) :
    FinishingLevels (.ofDepth n) := by
  induction n with
  | zero =>
      have hnone : (exhausted : Parse (Expression Span)).Finishes :=
        finishes_of_fails fun _ _ _ => exhausted_ok
      exact ⟨Simulation.levels_ofDepth _ le_rfl, hnone, hnone, hnone⟩
  | succ n ih =>
      exact ⟨Simulation.levels_ofDepth _ le_rfl, finishes_assignment ih,
        finishes_unary ih, finishes_power ih⟩

end Parse

end ScriptTree
