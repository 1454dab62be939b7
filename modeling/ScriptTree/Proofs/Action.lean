/-
How an action that succeeds comes apart, and what any action can do.

# Taking a success apart

A success of a basic action says all about the states before and after
it. What only looks at the state comes out as an equation, so that a
production falls into the actions that consume.

# Steps

Whatever an action does to the state, it does in four ways: it shifts,
it records a diagnostic, it completes a node, or it takes a place for the
end of what was consumed. `Step` lists them, and `Reaches` is any number
of them. Facts about a run follow from facts about a step.

- `Runs`: a success is a number of steps.
- `Waits`: a success consumes nothing.
- `Advances`: a success consumes the lookahead, before all else.
-/
import Mathlib.Logic.Relation
import ScriptTree.Grammar.Statement
import ScriptTree.Proofs.Outcome

namespace ScriptTree

namespace Parse

variable {α β : Type} {s s' : ParseState}

-- ========================================================= successes

/-- What follows a look at the state starts from the same state. -/
theorem lookahead_bind {f : Token → Parse β} :
    (lookahead >>= f) s = f s.lookahead s := rfl

theorem isAt_bind {text : String} {f : Bool → Parse β} :
    (isAt text >>= f) s = f (s.lookahead.isPunctuator text) s := rfl

theorem isAtWord_bind {text : String} {f : Bool → Parse β} :
    (isAtWord text >>= f) s = f (s.lookahead.isKeyword text) s := rfl

theorem afterLineBreak_bind {f : Bool → Parse β} :
    (afterLineBreak >>= f) s = f s.lineBreak s := rfl

theorem isTolerant_bind {f : Bool → Parse β} :
    (isTolerant >>= f) s = f s.log.tolerant s := rfl

/-- A text that is refused is no success. -/
theorem reject_ok {cause : Cause} {a : α} :
    ¬(reject cause : Parse α) s = .ok a s' := by
  simp [reject, refuse]

/-- A token that is refused is no success. -/
theorem unexpected_ok {t : Token} {a : α} :
    ¬(unexpected t : Parse α) s = .ok a s' := by
  simp [unexpected, refuse]

/-- A text that is nested too deeply is no success. -/
theorem exhausted_ok {a : α} :
    ¬(exhausted : Parse α) s = .ok a s' := by
  simp [exhausted]

/-- A node is completed at the end of what was consumed last. -/
theorem close_ok {kind : NodeKind} {start : Position} {span : Span} :
    close kind start s = .ok span s' ↔
      span = ⟨start, s.last⟩ ∧
        s' = { s with events := s.events.push (.node kind ⟨start, s.last⟩) } := by
  unfold close
  rw [EStateM.Result.ok.injEq]
  exact and_congr eq_comm eq_comm

/-- A shift gives the lookahead, and looks at what the stream gives next. -/
theorem shift_ok {t : Token} :
    shift s = .ok t s' ↔
      t = s.lookahead ∧ ∃ next rest log,
        s.rest.next.2 = .ok (next, rest) ∧
        s.log.accept next = .ok log ∧
        s' = { s.pass s.rest.next.1 with log }.consume next rest := by
  unfold shift
  rcases hn : s.rest.next with ⟨comments, d | ⟨next, rest⟩⟩
  · simp
  · have hlog : (s.pass comments).log = s.log := rfl
    dsimp only
    rw [hlog]
    cases hl : s.log.accept next with
    | error d =>
        constructor
        · rintro ⟨⟩
        · rintro ⟨-, _, _, log, h, hl', -⟩
          cases h
          rw [hl] at hl'
          cases hl'
    | ok log =>
        constructor
        · rintro ⟨⟩
          exact ⟨rfl, next, rest, log, rfl, hl, rfl⟩
        · rintro ⟨rfl, _, _, log', h, hl', rfl⟩
          cases h
          rw [hl] at hl'
          cases hl'
          rfl

/-- To skip a token is to shift it. -/
theorem skip_ok {u : Unit} :
    skip s = .ok u s' ↔ shift s = .ok s.lookahead s' := by
  constructor
  · intro h
    obtain ⟨t, s₁, hs, hp⟩ := bind_ok.1 h
    obtain ⟨-, rfl⟩ := pure_ok.1 hp
    obtain rfl := (shift_ok.1 hs).1
    exact hs
  · intro h
    exact bind_ok.2 ⟨_, _, h, rfl⟩

/-- A shift that checks what it gives has checked the lookahead. -/
private theorem shift_if_ok {q : Token → Bool} {u : Unit} :
    (shift >>= fun t => if q t then pure () else unexpected t) s
        = .ok u s' ↔
      q s.lookahead = true ∧ skip s = .ok () s' := by
  rw [skip_ok]
  constructor
  · intro h
    obtain ⟨t, s₁, hs, h⟩ := bind_ok.1 h
    obtain rfl := (shift_ok.1 hs).1
    split at h
    case isTrue ht =>
      obtain ⟨-, rfl⟩ := pure_ok.1 h
      exact ⟨ht, hs⟩
    case isFalse => exact absurd h unexpected_ok
  · rintro ⟨ht, hs⟩
    refine bind_ok.2 ⟨_, _, hs, ?_⟩
    rw [if_pos ht]
    rfl

/-- The punctuator that is expected is the lookahead. -/
theorem expect_ok {text : String} {u : Unit} :
    expect text s = .ok u s' ↔
      s.lookahead.isPunctuator text = true ∧ skip s = .ok () s' :=
  shift_if_ok

/-- The keyword that is expected is the lookahead. -/
theorem expectWord_ok {text : String} {u : Unit} :
    expectWord text s = .ok u s' ↔
      s.lookahead.isKeyword text = true ∧ skip s = .ok () s' :=
  shift_if_ok

/-- An error is recorded where it is tolerated. -/
theorem tolerate_ok {d : Diagnostic} {u : Unit} :
    tolerate d s = .ok u s' ↔
      s.log.tolerant = true ∧ s' = { s with log := s.log.record d } := by
  unfold tolerate DiagnosticLog.tolerate
  cases s.log.tolerant with
  | false => simp
  | true => simp [eq_comm]

/-- A token is noted without more ado unless it is a word in escapes,
which only a tolerant log accepts. -/
theorem accept_ok {log log' : DiagnosticLog} {t : Token} :
    log.accept t = .ok log' ↔
      if t.isEscapedReserved then
        log.tolerant = true ∧
          log' = log.record (t.span.start.diagnose .escapedReserved)
      else log' = log := by
  unfold DiagnosticLog.accept DiagnosticLog.tolerate
  cases t.isEscapedReserved with
  | false => simp [eq_comm]
  | true =>
      cases log.tolerant with
      | false => simp
      | true => simp [eq_comm]

/-- What a log holds after a token, it held before or says of the token. -/
theorem mem_of_accept {log log' : DiagnosticLog} {t : Token}
    {d : Diagnostic} (h : log.accept t = .ok log')
    (hd : d ∈ log'.recorded) : d ∈ log.recorded ∨
      d = t.span.start.diagnose .escapedReserved := by
  have hlog := accept_ok.1 h
  split at hlog
  case isFalse => exact .inl (hlog ▸ hd)
  case isTrue =>
    obtain ⟨-, rfl⟩ := hlog
    exact (List.mem_append.1 hd).imp_right List.mem_singleton.1

/-- What is not accepted is a word in escapes. -/
theorem accept_error {log : DiagnosticLog} {t : Token} {d : Diagnostic}
    (h : log.accept t = .error d) :
    d = t.span.start.diagnose .escapedReserved := by
  unfold DiagnosticLog.accept DiagnosticLog.tolerate at h
  split at h
  case isFalse => cases h
  case isTrue =>
    split at h
    case isTrue => cases h
    case isFalse =>
      cases h
      rfl

/-- Looking at the token after the lookahead changes nothing. -/
theorem bindingAhead_ok {onSameLine b : Bool} :
    bindingAhead onSameLine s = .ok b s' ↔
      s' = s ∧ ∃ next rest log,
        s.rest.next.2 = .ok (next, rest) ∧ s.log.accept next = .ok log ∧
        b = ((!onSameLine ||
          decide (next.span.start.line = s.lookahead.span.start.line))
            && next.startsBinding) := by
  unfold bindingAhead
  rcases hn : s.rest.next with ⟨comments, d | ⟨next, rest⟩⟩
  · simp
  · cases hl : s.log.accept next with
    | error d =>
        constructor
        · intro h
          simp [hl] at h
        · rintro ⟨-, _, _, log, h, hl', -⟩
          cases h
          rw [hl] at hl'
          cases hl'
    | ok log =>
        constructor
        · intro h
          simp only [hl] at h
          cases h
          exact ⟨rfl, next, rest, log, rfl, hl, rfl⟩
        · rintro ⟨rfl, _, _, log', h, -, rfl⟩
          cases h
          simp only [hl]

end Parse

-- ============================================================= steps

namespace ParseState

/-- What an action does to the state at a time. -/
inductive Step : ParseState → ParseState → Prop where
  | shift {t : Token} {s s' : ParseState} :
      Parse.shift s = .ok t s' → Step s s'
  | tolerate {d : Diagnostic} {s s' : ParseState} :
      Parse.tolerate d s = .ok () s' → Step s s'
  | close {kind : NodeKind} {start : Position} {span : Span}
      {s s' : ParseState} :
      Parse.close kind start s = .ok span s' → Step s s'
  | standAt {place : Position} {s s' : ParseState} :
      Parse.standAt place s = .ok () s' → Step s s'

/-- Any number of steps. -/
abbrev Reaches : ParseState → ParseState → Prop :=
  Relation.ReflTransGen Step

/-- The same place in the text, reached without consuming anything. -/
structure Stays (s s' : ParseState) : Prop where
  reaches : s.Reaches s'
  lookahead : s'.lookahead = s.lookahead
  rest : s'.rest = s.rest

/-- A run that shifts out the lookahead before all else. -/
def Passes (s s' : ParseState) : Prop :=
  ∃ t s₁ s₂, s.Stays s₁ ∧ Parse.shift s₁ = .ok t s₂ ∧ s₂.Reaches s'

/-- Nothing is consumed where nothing is done. -/
theorem Stays.refl (s : ParseState) : s.Stays s := ⟨.refl, rfl, rfl⟩

/-- Twice nothing is nothing. -/
theorem Stays.trans {s s₁ s' : ParseState} (h : s.Stays s₁)
    (h' : s₁.Stays s') : s.Stays s' where
  reaches := h.reaches.trans h'.reaches
  lookahead := h'.lookahead.trans h.lookahead
  rest := h'.rest.trans h.rest

/-- A token is passed also after looking ahead. -/
theorem Passes.after {s s₁ s' : ParseState} (h : s.Stays s₁)
    (h' : s₁.Passes s') : s.Passes s' := by
  obtain ⟨t, s₂, s₃, hs, hshift, hr⟩ := h'
  exact ⟨t, s₂, s₃, h.trans hs, hshift, hr⟩

/-- An action that is followed by another. -/
theorem Passes.andThen {s s₁ s' : ParseState} (h : s.Passes s₁)
    (h' : s₁.Reaches s') : s.Passes s' := by
  obtain ⟨t, s₂, s₃, hs, hshift, hr⟩ := h
  exact ⟨t, s₂, s₃, hs, hshift, hr.trans h'⟩

/-- What passes a token reaches the state behind it. -/
theorem Passes.reaches {s s' : ParseState} (h : s.Passes s') :
    s.Reaches s' := by
  obtain ⟨t, s₁, s₂, hs, hshift, hr⟩ := h
  exact (hs.reaches.tail (.shift hshift)).trans hr

end ParseState

namespace Parse

variable {α β : Type}

/-- A success is a number of steps. -/
def Runs (p : Parse α) : Prop :=
  ∀ ⦃s a s'⦄, p s = .ok a s' → s.Reaches s'

/-- A success consumes nothing. -/
def Waits (p : Parse α) : Prop :=
  ∀ ⦃s a s'⦄, p s = .ok a s' → s.Stays s'

/-- A success consumes the lookahead. -/
def Advances (p : Parse α) : Prop :=
  ∀ ⦃s a s'⦄, p s = .ok a s' → s.Passes s'

theorem Waits.runs {p : Parse α} (h : p.Waits) : p.Runs :=
  fun _ _ _ hs => (h hs).reaches

theorem Advances.runs {p : Parse α} (h : p.Advances) : p.Runs :=
  fun _ _ _ hs => (h hs).reaches

-- ----------------------------------------------------------- sequences

/-- One action after another. -/
theorem Runs.bind {p : Parse α} {f : α → Parse β} (hp : p.Runs)
    (hf : ∀ a, (f a).Runs) : (p >>= f).Runs := by
  intro s b s' h
  obtain ⟨a, s₁, h₁, h₂⟩ := bind_ok.1 h
  exact (hp h₁).trans (hf a h₂)

/-- An action with its result changed. -/
theorem Runs.map {p : Parse α} {f : α → β} (hp : p.Runs) :
    (f <$> p).Runs := by
  intro s b s' h
  obtain ⟨a, h₁, -⟩ := map_ok.1 h
  exact hp h₁

/-- One action after another. -/
theorem Waits.bind {p : Parse α} {f : α → Parse β} (hp : p.Waits)
    (hf : ∀ a, (f a).Waits) : (p >>= f).Waits := by
  intro s b s' h
  obtain ⟨a, s₁, h₁, h₂⟩ := bind_ok.1 h
  exact (hp h₁).trans (hf a h₂)

/-- The first action consumes the lookahead. -/
theorem Advances.bind {p : Parse α} {f : α → Parse β} (hp : p.Advances)
    (hf : ∀ a, (f a).Runs) : (p >>= f).Advances := by
  intro s b s' h
  obtain ⟨a, s₁, h₁, h₂⟩ := bind_ok.1 h
  exact (hp h₁).andThen (hf a h₂)

/-- The second action consumes the lookahead, which the first leaves. -/
theorem Waits.andAdvances {p : Parse α} {f : α → Parse β} (hp : p.Waits)
    (hf : ∀ a, (f a).Advances) : (p >>= f).Advances := by
  intro s b s' h
  obtain ⟨a, s₁, h₁, h₂⟩ := bind_ok.1 h
  exact (hf a h₂).after (hp h₁)

/-- An action with its result changed. -/
theorem Advances.map {p : Parse α} {f : α → β} (hp : p.Advances) :
    (f <$> p).Advances := by
  intro s b s' h
  obtain ⟨a, h₁, -⟩ := map_ok.1 h
  exact hp h₁

-- ------------------------------------------------------- basic actions

/-- Nothing is consumed by a result without an action. -/
theorem waits_pure (a : α) : (pure a : Parse α).Waits := by
  intro s b s' h
  obtain ⟨-, rfl⟩ := pure_ok.1 h
  exact .refl _

/-- Nothing is consumed by a look at the next token. -/
theorem waits_lookahead : lookahead.Waits := by
  rintro s _ _ ⟨⟩
  exact .refl _

/-- Nothing is consumed by the look for a mark. -/
theorem waits_isAt (text : String) : (isAt text).Waits := by
  rintro s _ _ ⟨⟩
  exact .refl _

/-- Nothing is consumed by the look for a word. -/
theorem waits_isAtWord (text : String) : (isAtWord text).Waits := by
  rintro s _ _ ⟨⟩
  exact .refl _

/-- Nothing is consumed by the look for a line break. -/
theorem waits_afterLineBreak : afterLineBreak.Waits := by
  rintro s _ _ ⟨⟩
  exact .refl _

/-- Nothing is consumed by the question whether errors are tolerated. -/
theorem waits_isTolerant : isTolerant.Waits := by
  rintro s _ _ ⟨⟩
  exact .refl _

/-- Nothing is consumed by the look for a bound name behind the next token.
-/
theorem waits_bindingAhead (onSameLine : Bool) :
    (bindingAhead onSameLine).Waits := by
  intro s b s' h
  obtain ⟨rfl, -⟩ := bindingAhead_ok.1 h
  exact .refl _

/-- Nothing is consumed by a node that is completed. -/
theorem waits_close (kind : NodeKind) (start : Position) :
    (close kind start).Waits := by
  intro s span s' h
  obtain ⟨-, rfl⟩ := close_ok.1 h
  exact ⟨.single (.close h), rfl, rfl⟩

/-- Nothing is consumed by a place that is marked. -/
theorem waits_standAt (place : Position) : (standAt place).Waits := by
  rintro s _ _ ⟨⟩
  exact ⟨.single (.standAt rfl), rfl, rfl⟩

/-- Nothing is consumed by a node that is extended to the next token. -/
theorem waits_extendToLookahead : extendToLookahead.Waits :=
  waits_lookahead.bind fun _ => waits_standAt _

/-- Nothing is consumed by an error that may be tolerated. -/
theorem waits_tolerate (d : Diagnostic) : (tolerate d).Waits := by
  intro s u s' h
  obtain ⟨-, rfl⟩ := tolerate_ok.1 h
  exact ⟨.single (.tolerate h), rfl, rfl⟩

/-- Nothing is consumed by an objection to what was read. -/
theorem waits_object (cause : Cause) : (object cause).Waits :=
  fun _ _ _ h => waits_tolerate _ h

/-- Nothing is consumed by an objection to a token. -/
theorem waits_objectTo (t : Token) (cause : Cause) :
    (objectTo t cause).Waits :=
  fun _ _ _ h => waits_tolerate _ h

/-- To object is not to consume. -/
theorem waits_requireAssignable (e : Expression Span) :
    (requireAssignable e).Waits := by
  unfold requireAssignable
  split
  · exact waits_pure _
  · exact waits_object _

/-- To refuse `let` consumes nothing. -/
theorem waits_refuseLet (kind : DeclarationKind) :
    (refuseLet kind).Waits := by
  refine waits_lookahead.bind fun t => ?_
  split
  · exact waits_objectTo _ _
  · exact waits_pure _

/-- The test of a return consumes nothing. -/
theorem waits_requireFunction (jumps : Jumps) :
    (requireFunction jumps).Waits := by
  unfold requireFunction
  split
  · exact waits_pure _
  · exact waits_object _

/-- The test of a label consumes nothing. -/
theorem waits_requireLabel (jumps : Jumps) (id : Identifier Span) :
    (requireLabel jumps id).Waits := by
  unfold requireLabel
  split
  · exact waits_pure _
  · exact waits_tolerate _

/-- The look for `var` consumes nothing. -/
theorem waits_isAtVar : isAtVar.Waits := by
  refine waits_lookahead.bind fun t => ?_
  split
  · exact waits_bindingAhead _
  · exact waits_pure _

/-- The look for a declaration consumes nothing. -/
theorem waits_forKind : forKind.Waits := by
  refine (waits_isAtWord _).bind fun b => ?_
  split
  · exact waits_pure _
  refine (waits_isAtWord _).bind fun b => ?_
  split
  · exact waits_pure _
  refine waits_isAtVar.bind fun b => ?_
  split
  · exact waits_pure _
  · exact waits_pure _

/-- Neither is to close operations. -/
theorem waits_operation (pending : Pending) (right : Expression Span) :
    (operation pending right).Waits := by
  unfold operation
  split
  · exact (waits_close _ _).bind fun _ => waits_pure _
  · exact (waits_close _ _).bind fun _ => waits_pure _

/-- Operations are closed without a token more. -/
theorem waits_reduce (precedence : Nat) (stack : List Pending)
    (start : Position) (e : Expression Span) :
    (reduce precedence stack start e).Waits := by
  induction stack generalizing start e with
  | nil => exact waits_pure _
  | cons pending stack ih =>
      unfold reduce
      split
      · exact (waits_operation _ _).bind fun e' => ih _ e'
      · exact waits_pure _

/-- An action that never succeeds may be said to do anything. -/
theorem advances_of_fails {p : Parse α}
    (h : ∀ s a s', ¬p s = .ok a s') : p.Advances :=
  fun s a s' hs => absurd hs (h s a s')

/-- A shift consumes a token. -/
theorem advances_shift : shift.Advances := by
  intro s t s' h
  exact ⟨t, s, s', .refl s, h, .refl⟩

/-- To skip a token consumes it. -/
theorem advances_skip : skip.Advances :=
  advances_shift.bind fun _ => (waits_pure ()).runs

/-- A mark that is asked for is consumed. -/
theorem advances_expect (text : String) : (expect text).Advances := by
  intro s u s' h
  exact advances_skip (expect_ok.1 h).2

/-- A repetition is a number of steps, if its condition and its items are.
-/
theorem runs_collectWhile {α : Type} {more : Parse Bool}
    (hmore : more.Runs) {p : Parse α} (hp : p.Runs) {steps : Nat} :
    (collectWhile more p steps).Runs := by
  induction steps with
  | zero => exact (advances_of_fails fun _ _ _ => exhausted_ok).runs
  | succ steps ih =>
      refine hmore.bind fun b => ?_
      split
      · exact hp.bind fun a => ih.bind fun l => (waits_pure _).runs
      · exact (waits_pure _).runs

end Parse

end ScriptTree
