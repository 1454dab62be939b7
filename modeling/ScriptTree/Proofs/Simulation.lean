/-
Comparing runs of the grammar from two different states.

# What a simulation is

The grammar looks at tokens, consumes them, and makes spans of their
places; it does nothing else with a state. Two states that agree on what
it looks at are therefore run through alike, however else they differ.
A `Simulation` is a relation of states with the laws that make this
precise: related states show the same lookahead, and what one of the
basic actions does from the left state it also does from the right one,
so that the states it ends in are related again.

# One direction, and only some ends

`Simulates` carries successes from left to right: where the left action
succeeds, so does the right one, with a result that is the same up to
what the simulation observes of positions. Only runs on the left that
end in a state of interest count (`Fine`). Interest is inherited
backwards along a run, so a sequence of actions whose last state is of
interest passes only through such states.

The right action may differ from the left one in its bound on the work,
which may be higher there.

# What is proved here

`Simulates` for pure results, sequences, the basic actions and the
repetitions of the grammar. The productions follow in the modules below
this one, each from the productions it is made of.
-/
import ScriptTree.Grammar.Statement
import ScriptTree.Proofs.Action
import ScriptTree.Proofs.Places

namespace ScriptTree

/-- A token as far as the grammar goes, its place given by `observe`. -/
def Token.view {ω : Type} (observe : Position → ω) (t : Token) :
    TokenKind × TokenValue × String × ω × ω :=
  (t.kind, t.value, t.raw, observe t.span.start, observe t.span.stop)

-- ======================================================= looks

namespace View

variable {ω : Type} {observe : Position → ω} {t t' : Token}

/-- Tokens of one view are of the same kind. -/
theorem kind_eq (h : t'.view observe = t.view observe) :
    t'.kind = t.kind := congrArg (·.1) h

/-- Tokens of one view stand for the same. -/
theorem value_eq (h : t'.view observe = t.view observe) :
    t'.value = t.value := congrArg (·.2.1) h

/-- Tokens of one view have the same text. -/
theorem raw_eq (h : t'.view observe = t.view observe) :
    t'.raw = t.raw := congrArg (·.2.2.1) h

/-- Tokens of one view start at places that look the same. -/
theorem start_eq (h : t'.view observe = t.view observe) :
    observe t'.span.start = observe t.span.start :=
  congrArg (·.2.2.2.1) h

/-- Tokens of one view stop at places that look the same. -/
theorem stop_eq (h : t'.view observe = t.view observe) :
    observe t'.span.stop = observe t.span.stop :=
  congrArg (·.2.2.2.2) h

/-- Tokens of one view come to the same text. -/
theorem text?_eq (h : t'.view observe = t.view observe) :
    t'.text? = t.text? := by
  unfold Token.text?
  rw [value_eq h]

/-- Tokens of one view are shown the same way. -/
theorem shown_eq (h : t'.view observe = t.view observe) :
    t'.shown = t.shown := by
  unfold Token.shown
  rw [value_eq h]

/-- Tokens of one view are the same marks. -/
theorem isPunctuator_eq (h : t'.view observe = t.view observe)
    (text : String) : t'.isPunctuator text = t.isPunctuator text := by
  unfold Token.isPunctuator
  rw [kind_eq h, text?_eq h]

/-- Tokens of one view are the same keywords. -/
theorem isKeyword_eq (h : t'.view observe = t.view observe)
    (text : String) : t'.isKeyword text = t.isKeyword text := by
  unfold Token.isKeyword
  rw [kind_eq h, text?_eq h]

/-- Tokens of one view are the same names. -/
theorem isIdentifier_eq (h : t'.view observe = t.view observe)
    (name : String) : t'.isIdentifier name = t.isIdentifier name := by
  unfold Token.isIdentifier
  rw [kind_eq h, text?_eq h]

/-- Tokens of one view are at the end together. -/
theorem isEnd_eq (h : t'.view observe = t.view observe) :
    t'.isEnd = t.isEnd := by
  unfold Token.isEnd
  rw [kind_eq h]

end View

-- ================================================= simulations

/-- A relation of states from which the grammar runs alike. -/
structure Simulation (ω ρ : Type) where
  /-- What is compared of a position. -/
  observe : Position → ω
  /-- What is compared of the place of a node. -/
  place : Span → ρ
  place_eq {p q : Span} : observe q.start = observe p.start →
    observe q.stop = observe p.stop → place q = place p
  Related : ParseState → ParseState → Prop
  /-- The ends of runs on the left that are of interest. -/
  Fine : ParseState → Prop
  fine_of_reaches {s s' t u : ParseState} : Related s s' →
    s.Reaches t → t.Reaches u → Fine u → Fine t
  lookahead {s s' : ParseState} : Related s s' →
    s'.lookahead.view observe = s.lookahead.view observe
  lineBreak {s s' : ParseState} : Related s s' →
    s'.lineBreak = s.lineBreak
  last {s s' : ParseState} : Related s s' →
    observe s'.last = observe s.last
  shift {s s' u : ParseState} : Related s s' →
    Parse.shift s = .ok s.lookahead u → Fine u →
    ∃ u', Parse.shift s' = .ok s'.lookahead u' ∧ Related u u'
  close {s s' : ParseState} {kind : NodeKind} {start start' : Position} :
    Related s s' → observe start' = observe start →
    Related
      { s with events := s.events.push (.node kind ⟨start, s.last⟩) }
      { s' with events := s'.events.push (.node kind ⟨start', s'.last⟩) }
  standAt {s s' : ParseState} {p p' : Position} : Related s s' →
    observe p' = observe p →
    Related { s with last := p } { s' with last := p' }
  tolerate {s s' u : ParseState} {d d' : Diagnostic} : Related s s' →
    d'.cause = d.cause → Parse.tolerate d s = .ok () u → Fine u →
    ∃ u', Parse.tolerate d' s' = .ok () u' ∧ Related u u'
  /-- A look at the token after the lookahead, by a run that goes on to
  consume the lookahead. -/
  bindingAhead {s s' u : ParseState} {onSameLine b : Bool} :
    Related s s' → Parse.bindingAhead onSameLine s = .ok b s →
    s.Passes u → Fine u → Parse.bindingAhead onSameLine s' = .ok b s'
  argumentSeparator {s s' u : ParseState} : Related s s' →
    Parse.argumentSeparator s = .ok () u → Fine u →
    ∃ u', Parse.argumentSeparator s' = .ok () u' ∧ Related u u'
  /-- The end of the head of a statement, by a run that goes on to
  consume the closing parenthesis where it is not missing. -/
  missingParenthesis {s s' u : ParseState} {b : Bool} : Related s s' →
    Parse.missingParenthesis s = .ok b u → Fine u →
    (b = false → u.lookahead.isPunctuator ")" = true) →
    ∃ u', Parse.missingParenthesis s' = .ok b u' ∧ Related u u'

namespace Simulation

open View

variable {ω ρ : Type} (M : Simulation ω ρ) {α β γ δ : Type}

/-- Where `p` succeeds from a state, with an end of interest, `q` succeeds
from every related state, and the results look the same through `v`. -/
structure Simulates (v : α → γ) (p q : Parse α) : Prop where
  runs : p.Runs
  carries {s s' u : ParseState} {a : α} : M.Related s s' →
    p s = .ok a u → M.Fine u →
    ∃ b u', q s' = .ok b u' ∧ v b = v a ∧ M.Related u u'

/-- The same of an action that consumes the lookahead. -/
structure Advances (v : α → γ) (p q : Parse α) : Prop
    extends M.Simulates v p q where
  advances : p.Advances

variable {M} {v : α → γ} {w : β → δ} {p q : Parse α}

-- ========================================================= sequences

/-- A result without an action. -/
theorem Simulates.pure {a b : α} (h : v b = v a) :
    M.Simulates v (pure a) (pure b) where
  runs := (Parse.waits_pure a).runs
  carries {s s' u c} hr hp _ := by
    obtain ⟨rfl, rfl⟩ := pure_ok.1 hp
    exact ⟨b, s', rfl, h, hr⟩

/-- One action after another. -/
theorem Simulates.bind {f g : α → Parse β} (hp : M.Simulates v p q)
    (hf : ∀ a b, v b = v a → M.Simulates w (f a) (g b)) :
    M.Simulates w (p >>= f) (q >>= g) where
  runs := hp.runs.bind fun a => (hf a a rfl).runs
  carries {s s' u c} hr h hu := by
    obtain ⟨a, t, h₁, h₂⟩ := bind_ok.1 h
    have ht : M.Fine t :=
      M.fine_of_reaches hr (hp.runs h₁) ((hf a a rfl).runs h₂) hu
    obtain ⟨b, t', hq, hv, hr'⟩ := hp.carries hr h₁ ht
    obtain ⟨d, u', hg, hw, hr''⟩ := (hf a b hv).carries hr' h₂ hu
    exact ⟨d, u', bind_ok.2 ⟨b, t', hq, hg⟩, hw, hr''⟩

/-- A sequence whose first action gives nothing. -/
theorem Simulates.andThen {p q : Parse Unit} {f g : Unit → Parse β}
    (hp : M.Simulates id p q) (hf : M.Simulates w (f ()) (g ())) :
    M.Simulates w (p >>= f) (q >>= g) :=
  hp.bind fun _ _ _ => hf

/-- An action with its result changed. -/
theorem Simulates.map {f : α → β} (hp : M.Simulates v p q)
    (hf : ∀ a b, v b = v a → w (f b) = w (f a)) :
    M.Simulates w (f <$> p) (f <$> q) where
  runs := hp.runs.map
  carries {s s' u c} hr h hu := by
    obtain ⟨a, h₁, rfl⟩ := map_ok.1 h
    obtain ⟨b, u', hq, hv, hr'⟩ := hp.carries hr h₁ hu
    exact ⟨f b, u', map_ok.2 ⟨b, hq, rfl⟩, hf a b hv, hr'⟩

/-- An action that never succeeds is simulated by any other. -/
theorem Simulates.of_fails (h : ∀ s a s', ¬p s = .ok a s') :
    M.Simulates v p q where
  runs := (Parse.advances_of_fails h).runs
  carries {s _ u a} _ hp _ := absurd hp (h s a u)

/-- Either of two actions. -/
theorem Simulates.ite {c c' : Bool} (hc : c' = c) {p' q' : Parse α}
    (ht : M.Simulates v p q) (hf : M.Simulates v p' q') :
    M.Simulates v (if c then p else p') (if c' then q else q') := by
  subst hc
  cases c' with
  | true => exact ht
  | false => exact hf

/-- The first action of a sequence consumes the lookahead. -/
theorem Advances.bind {f g : α → Parse β} (hp : M.Advances v p q)
    (hf : ∀ a b, v b = v a → M.Simulates w (f a) (g b)) :
    M.Advances w (p >>= f) (q >>= g) where
  toSimulates := hp.toSimulates.bind hf
  advances := hp.advances.bind fun a => (hf a a rfl).runs

/-- An action that is followed by another. -/
theorem Advances.andThen {p q : Parse Unit} {f g : Unit → Parse β}
    (hp : M.Advances id p q) (hf : M.Simulates w (f ()) (g ())) :
    M.Advances w (p >>= f) (q >>= g) :=
  hp.bind fun _ _ _ => hf

/-- The second action of a sequence consumes the lookahead. -/
theorem Simulates.bindAdvances {f g : α → Parse β}
    (hp : M.Simulates v p q) (hw : p.Waits)
    (hf : ∀ a b, v b = v a → M.Advances w (f a) (g b)) :
    M.Advances w (p >>= f) (q >>= g) where
  toSimulates := hp.bind fun a b h => (hf a b h).toSimulates
  advances := hw.andAdvances fun a => (hf a a rfl).advances

/-- An action with its result changed. -/
theorem Advances.map {f : α → β} (hp : M.Advances v p q)
    (hf : ∀ a b, v b = v a → w (f b) = w (f a)) :
    M.Advances w (f <$> p) (f <$> q) where
  toSimulates := hp.toSimulates.map hf
  advances := hp.advances.map

/-- An action that never succeeds. -/
theorem Advances.of_fails (h : ∀ s a s', ¬p s = .ok a s') :
    M.Advances v p q where
  toSimulates := .of_fails h
  advances := Parse.advances_of_fails h

/-- Either of two actions. -/
theorem Advances.ite {c c' : Bool} (hc : c' = c) {p' q' : Parse α}
    (ht : M.Advances v p q) (hf : M.Advances v p' q') :
    M.Advances v (if c then p else p') (if c' then q else q') := by
  subst hc
  cases c' with
  | true => exact ht
  | false => exact hf

-- ====================================================== basic actions

/-- Both runs go alike over a text that is nested too deeply, and advance.
-/
theorem advances_exhausted : M.Advances v Parse.exhausted q :=
  .of_fails fun _ _ _ => Parse.exhausted_ok

/-- Both runs go alike over a text that is refused, and advance. -/
theorem advances_reject {cause : Cause} :
    M.Advances v (Parse.reject cause) q :=
  .of_fails fun _ _ _ => Parse.reject_ok

/-- Both runs go alike over a token that is refused, and advance. -/
theorem advances_unexpected {t : Token} :
    M.Advances v (Parse.unexpected t) q :=
  .of_fails fun _ _ _ => Parse.unexpected_ok

/-- Both runs go alike over a look at the next token. -/
theorem simulates_lookahead :
    M.Simulates (Token.view M.observe) Parse.lookahead Parse.lookahead where
  runs := Parse.waits_lookahead.runs
  carries {s s' u t} hr h _ := by
    cases h
    exact ⟨s'.lookahead, s', rfl, M.lookahead hr, hr⟩

/-- Both runs go alike over the look for a line break. -/
theorem simulates_afterLineBreak :
    M.Simulates id Parse.afterLineBreak Parse.afterLineBreak where
  runs := Parse.waits_afterLineBreak.runs
  carries {s s' u b} hr h _ := by
    cases h
    exact ⟨s'.lineBreak, s', rfl, M.lineBreak hr, hr⟩

/-- Both runs go alike over a step to the next token, and advance. -/
theorem advances_shift :
    M.Advances (Token.view M.observe) Parse.shift Parse.shift where
  runs := Parse.advances_shift.runs
  advances := Parse.advances_shift
  carries {s s' u t} hr h hu := by
    obtain rfl := (Parse.shift_ok.1 h).1
    obtain ⟨u', h', hr'⟩ := M.shift hr h hu
    exact ⟨s'.lookahead, u', h', M.lookahead hr, hr'⟩

/-- Both runs go alike over a token that is passed over, and advance. -/
theorem advances_skip : M.Advances id Parse.skip Parse.skip :=
  advances_shift.bind fun _ _ _ => .pure rfl

/-- Both runs go alike over a token that is passed over. -/
theorem simulates_skip : M.Simulates id Parse.skip Parse.skip :=
  advances_skip.toSimulates

/-- Both runs go alike over a node that is completed. -/
theorem simulates_close {kind : NodeKind} {start start' : Position}
    (h : M.observe start' = M.observe start) :
    M.Simulates M.place (Parse.close kind start)
      (Parse.close kind start') where
  runs := (Parse.waits_close kind start).runs
  carries {s s' u span} hr hc _ := by
    obtain ⟨rfl, rfl⟩ := Parse.close_ok.1 hc
    exact ⟨_, _, rfl, M.place_eq h (M.last hr), M.close hr h⟩

/-- Both runs go alike over a place that is marked. -/
theorem simulates_standAt {p p' : Position}
    (h : M.observe p' = M.observe p) :
    M.Simulates id (Parse.standAt p) (Parse.standAt p') where
  runs := (Parse.waits_standAt p).runs
  carries {s s' u a} hr hp _ := by
    cases hp
    exact ⟨(), _, rfl, rfl, M.standAt hr h⟩

/-- Both runs go alike over an error that may be tolerated. -/
theorem simulates_tolerate {d d' : Diagnostic} (h : d'.cause = d.cause) :
    M.Simulates id (Parse.tolerate d) (Parse.tolerate d') where
  runs := (Parse.waits_tolerate d).runs
  carries {s s' u a} hr ht hu := by
    obtain ⟨u', h', hr'⟩ := M.tolerate hr h ht hu
    exact ⟨(), u', h', rfl, hr'⟩

/-- Both runs go alike over an objection to what was read. -/
theorem simulates_object {cause : Cause} :
    M.Simulates id (Parse.object cause) (Parse.object cause) where
  runs := (Parse.waits_object cause).runs
  carries {s s' u a} hr ho hu := by
    have ht : Parse.tolerate (s.last.diagnose cause) s = .ok () u := ho
    have hc : (s'.last.diagnose cause).cause
        = (s.last.diagnose cause).cause := rfl
    obtain ⟨u', h', hr'⟩ := M.tolerate hr hc ht hu
    exact ⟨(), u', h', rfl, hr'⟩

/-- Both runs go alike over an objection to a token. -/
theorem simulates_objectTo {t t' : Token} {cause : Cause} :
    M.Simulates id (Parse.objectTo t cause) (Parse.objectTo t' cause) where
  runs := (Parse.waits_objectTo t cause).runs
  carries {s s' u a} hr ho hu := by
    have ht : Parse.tolerate (s.diagnoseToken t cause) s = .ok () u := ho
    have hc : (s'.diagnoseToken t' cause).cause
        = (s.diagnoseToken t cause).cause := rfl
    obtain ⟨u', h', hr'⟩ := M.tolerate hr hc ht hu
    exact ⟨(), u', h', rfl, hr'⟩

/-- Both runs go alike over what stands between two arguments. -/
theorem simulates_argumentSeparator :
    M.Simulates id Parse.argumentSeparator Parse.argumentSeparator where
  runs := by
    refine Parse.waits_isTolerant.runs.bind fun b => ?_
    split
    · refine Parse.waits_lookahead.runs.bind fun t => ?_
      split
      · exact Parse.advances_skip.runs
      · split
        · exact Parse.advances_skip.runs.bind fun _ =>
            (Parse.waits_objectTo _ _).runs
        · exact (Parse.waits_objectTo _ _).runs
    · exact (Parse.advances_expect ",").runs
  carries {s s' u a} hr h hu := by
    obtain ⟨u', h', hr'⟩ := M.argumentSeparator hr h hu
    exact ⟨(), u', h', rfl, hr'⟩

-- ============================================ reading the lookahead

/-- Both runs go alike over a node that is extended to the next token. -/
theorem simulates_extendToLookahead :
    M.Simulates id Parse.extendToLookahead Parse.extendToLookahead :=
  simulates_lookahead.bind fun _ _ h => simulates_standAt (start_eq h)

/-- Both runs go alike over the look for a mark. -/
theorem simulates_isAt {text : String} :
    M.Simulates id (Parse.isAt text) (Parse.isAt text) where
  runs := (Parse.waits_isAt text).runs
  carries {s s' u b} hr h _ := by
    cases h
    exact ⟨_, s', rfl, isPunctuator_eq (M.lookahead hr) text, hr⟩

/-- Both runs go alike over the look for a word. -/
theorem simulates_isAtWord {text : String} :
    M.Simulates id (Parse.isAtWord text) (Parse.isAtWord text) where
  runs := (Parse.waits_isAtWord text).runs
  carries {s s' u b} hr h _ := by
    cases h
    exact ⟨_, s', rfl, isKeyword_eq (M.lookahead hr) text, hr⟩

/-- Both runs go alike over a mark that is asked for, and advance. -/
theorem advances_expect {text : String} :
    M.Advances id (Parse.expect text) (Parse.expect text) :=
  advances_shift.bind fun _ _ h =>
    .ite (isPunctuator_eq h text) (.pure rfl)
      advances_unexpected.toSimulates

/-- Both runs go alike over a mark that is asked for. -/
theorem simulates_expect {text : String} :
    M.Simulates id (Parse.expect text) (Parse.expect text) :=
  advances_expect.toSimulates

/-- Both runs go alike over a word that is asked for, and advance. -/
theorem advances_expectWord {text : String} :
    M.Advances id (Parse.expectWord text) (Parse.expectWord text) :=
  advances_shift.bind fun _ _ h =>
    .ite (isKeyword_eq h text) (.pure rfl)
      advances_unexpected.toSimulates

/-- A production that looks at its first token and then consumes it. -/
theorem Advances.ofLookahead {f g : Token → Parse β}
    (hf : ∀ t t', t'.view M.observe = t.view M.observe →
      M.Advances w (f t) (g t')) :
    M.Advances w (Parse.lookahead >>= f) (Parse.lookahead >>= g) :=
  simulates_lookahead.bindAdvances Parse.waits_lookahead hf

/-- What depends on a mark. -/
theorem Advances.ofIsAt {text : String} {f g : Bool → Parse β}
    (hf : ∀ b, M.Advances w (f b) (g b)) :
    M.Advances w (Parse.isAt text >>= f) (Parse.isAt text >>= g) :=
  simulates_isAt.bindAdvances (Parse.waits_isAt text)
    fun b b' h => by
      obtain rfl : b' = b := h
      exact hf b'

/-- What depends on a word. -/
theorem Advances.ofIsAtWord {text : String} {f g : Bool → Parse β}
    (hf : ∀ b, M.Advances w (f b) (g b)) :
    M.Advances w (Parse.isAtWord text >>= f)
      (Parse.isAtWord text >>= g) :=
  simulates_isAtWord.bindAdvances (Parse.waits_isAtWord text)
    fun b b' h => by
      obtain rfl : b' = b := h
      exact hf b'

/-- A branch on the look at the token after the lookahead. Whichever way
it goes, the lookahead is consumed; that is what makes the look safe to
compare. -/
theorem Advances.ofBindingAhead {onSameLine : Bool} {f g : Bool → Parse β}
    (hf : ∀ b, M.Advances w (f b) (g b)) :
    M.Advances w (Parse.bindingAhead onSameLine >>= f)
      (Parse.bindingAhead onSameLine >>= g) where
  runs := (Parse.waits_bindingAhead _).runs.bind fun b => (hf b).runs
  advances :=
    (Parse.waits_bindingAhead _).andAdvances fun b => (hf b).advances
  carries {s s' u c} hr h hu := by
    obtain ⟨b, t, h₁, h₂⟩ := bind_ok.1 h
    obtain rfl := (Parse.bindingAhead_ok.1 h₁).1
    have h' := M.bindingAhead hr h₁ ((hf b).advances h₂) hu
    obtain ⟨d, u', hg, hw, hr'⟩ := (hf b).carries hr h₂ hu
    exact ⟨d, u', bind_ok.2 ⟨b, s', h', hg⟩, hw, hr'⟩

/-- The run of a parenthesis that is missing. -/
theorem runs_missingParenthesis : Parse.missingParenthesis.Runs := by
  refine (Parse.waits_isAt _).runs.bind fun b => ?_
  refine Parse.waits_isTolerant.runs.bind fun c => ?_
  split
  · exact (Parse.waits_pure _).runs
  · refine Parse.advances_shift.runs.bind fun t => ?_
    exact (Parse.waits_objectTo _ _).runs.bind fun _ =>
      (Parse.waits_pure _).runs

/-- The end of the head of a statement: either the closing parenthesis is
missing, or it is consumed at once. -/
theorem simulates_missingParenthesis {missing missing' : Parse β}
    {f g : Unit → Parse β} (hm : M.Simulates w missing missing')
    (hf : M.Simulates w (f ()) (g ())) :
    M.Simulates w
      (Parse.missingParenthesis >>= fun b =>
        if b then missing else Parse.expect ")" >>= f)
      (Parse.missingParenthesis >>= fun b =>
        if b then missing' else Parse.expect ")" >>= g) where
  runs := by
    refine runs_missingParenthesis.bind fun b => ?_
    split
    · exact hm.runs
    · exact (Parse.advances_expect ")").runs.bind fun _ => hf.runs
  carries {s s' u c} hr h hu := by
    obtain ⟨b, t, h₁, h₂⟩ := bind_ok.1 h
    have hmiss := runs_missingParenthesis h₁
    cases b with
    | true =>
        have ht := M.fine_of_reaches hr hmiss (hm.runs h₂) hu
        obtain ⟨t', h', hr'⟩ := M.missingParenthesis hr h₁ ht (by simp)
        obtain ⟨d, u', hd, hw, hr''⟩ := hm.carries hr' h₂ hu
        exact ⟨d, u', bind_ok.2 ⟨true, t', h', hd⟩, hw, hr''⟩
    | false =>
        have hclose : M.Simulates w (Parse.expect ")" >>= f)
            (Parse.expect ")" >>= g) :=
          simulates_expect.andThen hf
        have hparen : t.lookahead.isPunctuator ")" = true := by
          obtain ⟨_, t₁, he, -⟩ := bind_ok.1 h₂
          exact (Parse.expect_ok.1 he).1
        have ht := M.fine_of_reaches hr hmiss (hclose.runs h₂) hu
        obtain ⟨t', h', hr'⟩ :=
          M.missingParenthesis hr h₁ ht fun _ => hparen
        obtain ⟨d, u', hd, hw, hr''⟩ := hclose.carries hr' h₂ hu
        exact ⟨d, u', bind_ok.2 ⟨false, t', h', hd⟩, hw, hr''⟩

-- ======================================================== repetition

/-- Both runs go alike over an action that is repeated. -/
theorem simulates_collectWhile {more more' : Parse Bool}
    (hm : M.Simulates id more more') (hi : M.Simulates v p q) :
    ∀ {n m : Nat}, n ≤ m →
      M.Simulates (List.map v) (Parse.collectWhile more p n)
        (Parse.collectWhile more' q m) := by
  intro n
  induction n with
  | zero =>
      intro m _
      exact advances_exhausted.toSimulates
  | succ n ih =>
      intro m hnm
      obtain ⟨m, rfl⟩ : ∃ k, m = k + 1 := ⟨m - 1, by omega⟩
      refine hm.bind fun b b' hb => .ite hb ?_ (.pure rfl)
      refine hi.bind fun a a' ha => ?_
      refine (ih (by omega)).bind fun l l' hl => .pure ?_
      rw [List.map_cons, List.map_cons, ha, hl]

/-- Both runs go alike over items with separators between them. -/
theorem simulates_separated {sep sep' : Parse Unit}
    (hi : M.Simulates v p q) (hs : M.Simulates id sep sep') :
    ∀ {n m : Nat}, n ≤ m →
      M.Simulates (List.map v) (Parse.separated p sep n)
        (Parse.separated q sep' m) := by
  intro n
  induction n with
  | zero =>
      intro m _
      exact advances_exhausted.toSimulates
  | succ n ih =>
      intro m hnm
      obtain ⟨m, rfl⟩ : ∃ k, m = k + 1 := ⟨m - 1, by omega⟩
      refine hi.bind fun a a' ha => ?_
      have hlast : [a'].map v = [a].map v := by
        rw [List.map_singleton, List.map_singleton, ha]
      refine simulates_isAt.bind fun b b' hb => .ite hb (.pure hlast) ?_
      refine hs.andThen ?_
      refine simulates_isAt.bind fun c c' hc => .ite hc (.pure hlast) ?_
      refine (ih (by omega)).bind fun l l' hl => .pure ?_
      rw [List.map_cons, List.map_cons, ha, hl]

/-- Both runs go alike over items up to a parenthesis. -/
theorem simulates_upToParenthesis {sep sep' : Parse Unit}
    (hi : M.Simulates v p q) (hs : M.Simulates id sep sep') {n m : Nat}
    (hnm : n ≤ m) :
    M.Simulates (List.map v) (Parse.upToParenthesis p sep n)
      (Parse.upToParenthesis q sep' m) :=
  simulates_isAt.bind fun _ _ hb =>
    .ite hb (.pure rfl) (simulates_separated hi hs hnm)

/-- Both runs go alike over items in parentheses, and advance. -/
theorem advances_parenthesized {sep sep' : Parse Unit}
    (hi : M.Simulates v p q) (hs : M.Simulates id sep sep') {n m : Nat}
    (hnm : n ≤ m) :
    M.Advances (List.map v) (Parse.parenthesized p sep n)
      (Parse.parenthesized q sep' m) := by
  refine advances_expect.andThen ?_
  refine (simulates_upToParenthesis hi hs hnm).bind fun l l' hl => ?_
  exact simulates_expect.andThen (.pure hl)

end Simulation

end ScriptTree
