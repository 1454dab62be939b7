/-
What a run of the grammar keeps to, whatever becomes of it.

# Guards

A guard watches over a run. It says which states, tokens and diagnostics
there may be, and answers for what each basic action does to a state,
also where it is refused (`Guard`). The productions only combine these
actions, so they are followed through once for all guards, in the modules
below this one. What a guard comes to is then a matter of its own.

# Judgments

`g.Leads P p Q` says of the action `p`, from a state that `P` holds of: a
success ends in a state that `Q` holds of, with its result, and a refusal
says what may be said. Most actions start and end in any state that is
watched over (`g.Gives`). In between it may be known which token is the
lookahead (`Facing`), or was just consumed (`Passed`); of such a token
the state may speak. An action that consumes its tokens to the last ends
after one of them (`g.Ends`), and what the guard knows of neighbors is
known of it and of the lookahead (`After`).

# Parts

The second thing that is watched over is the tree. A name, a literal or
a declaration is made in one place of the grammar, and what is known
there of it is kept for the whole tree (`Guard.Made`). The places of the
tree are those that a report shows, so they are given by a function.
-/
import ScriptTree.Grammar.Script
import ScriptTree.Proofs.Concord.Single
import ScriptTree.Proofs.Places
import ScriptTree.Tree.Part

namespace ScriptTree

/-- Whether a cause is found at a token, and not after one. -/
def Cause.isAboutToken : Cause → Bool
  | .unexpectedToken _ | .unexpectedNumber | .unexpectedString
  | .unexpectedIdentifier | .unexpectedReserved | .unexpectedEnd
  | .letInBinding => true
  | _ => false

/-- An unexpected token is told about by a cause about tokens. -/
theorem Token.isAboutToken_unexpected (t : Token) :
    t.unexpected.isAboutToken = true := by
  unfold Token.unexpected
  cases t.kind <;> rfl

/-- To look at the token after the lookahead is refused as it is to shift
to it. -/
theorem Parse.shift_of_bindingAhead {onSameLine : Bool} {f : Failure}
    {s s' : ParseState} (h : bindingAhead onSameLine s = .error f s') :
    ∃ s'', shift s = .error f s'' := by
  unfold bindingAhead at h
  unfold shift
  rcases hn : s.rest.next with ⟨comments, d | ⟨next, rest⟩⟩
  · rw [hn] at h
    cases h
    exact ⟨_, rfl⟩
  · have hlog : (s.pass comments).log = s.log := rfl
    rw [hn] at h
    dsimp only at h ⊢
    rw [hlog]
    cases haccept : s.log.accept next with
    | ok log =>
        rw [haccept] at h
        cases h
    | error d =>
        rw [haccept] at h
        cases h
        exact ⟨_, rfl⟩

-- ============================================================ guards

/-- What a run keeps to. -/
structure Guard where
  /-- The states that there may be. -/
  state : ParseState → Prop
  /-- The tokens that there may be. -/
  token : Token → Prop
  /-- What may be said. -/
  voices : Diagnostic → Prop
  lookahead {s : ParseState} : state s → token s.lookahead
  shift {s s' : ParseState} {t : Token} : state s →
    Parse.shift s = .ok t s' → state s'
  refused {s s' : ParseState} {d : Diagnostic} : state s →
    Parse.shift s = .error (.refused d) s' → voices d
  /-- What is said after the last consumed token. -/
  last {s : ParseState} (cause : Cause) : state s →
    voices (s.last.diagnose cause)
  /-- What is said of the lookahead. -/
  ahead {s : ParseState} {cause : Cause} : state s →
    cause.isAboutToken = true →
      voices (s.diagnoseToken s.lookahead cause)
  /-- What is said of the token that was just consumed. -/
  behind {s s' : ParseState} {t : Token} {cause : Cause} : state s →
    Parse.shift s = .ok t s' → cause.isAboutToken = true →
      voices (s'.diagnoseToken t cause)
  /-- What is said of a name where it starts. -/
  start {t : Token} (cause : Cause) : token t →
    voices (t.span.start.diagnose cause)
  record {s : ParseState} {d : Diagnostic} : state s → voices d →
    s.log.tolerant = true → state { s with log := s.log.record d }
  close {s : ParseState} {kind : NodeKind} {start : Position} : state s →
    state { s with events := s.events.push (.node kind ⟨start, s.last⟩) }
  extend {s : ParseState} : state s →
    state { s with last := s.lookahead.span.start }
  /-- What is known of a token that is consumed, of the lookahead after
  it, and of whether a line break is seen between them. -/
  follows : Token → Token → Bool → Prop := fun _ _ _ => True
  next {s s' : ParseState} {t : Token} : state s →
    Parse.shift s = .ok t s' → follows t s'.lookahead s'.lineBreak := by
      intros
      trivial

namespace Guard

variable (g : Guard) {α β : Type}

/-- What may become of an action: a success that `Q` holds of, or a
refusal that says what may be said. -/
inductive Allows (Q : α → ParseState → Prop) :
    EStateM.Result Failure ParseState α → Prop where
  | ok {a : α} {s : ParseState} : Q a s → Allows Q (.ok a s)
  | refused {d : Diagnostic} {s : ParseState} : g.voices d →
      Allows Q (.error (.refused d) s)
  | exhausted {s : ParseState} : Allows Q (.error .exhausted s)

/-- From a state that `P` holds of, an action comes to one that `Q` holds
of, with its result, or says what may be said. -/
def Leads (P : ParseState → Prop) (p : Parse α)
    (Q : α → ParseState → Prop) : Prop :=
  ∀ ⦃s : ParseState⦄, P s → g.Allows Q (p s)

/-- From a state that there may be, an action comes to another, with a
result that `V` holds of. -/
def Gives (p : Parse α) (V : α → Prop) : Prop :=
  g.Leads g.state p fun a s => V a ∧ g.state s

/-- A state with a token in front of the lookahead that was consumed. -/
structure After (s : ParseState) : Prop where
  state : g.state s
  next : ∃ t, g.follows t s.lookahead s.lineBreak

/-- From a state that there may be, an action comes to one after a token,
with a result that `V` holds of. -/
def Ends (p : Parse α) (V : α → Prop) : Prop :=
  g.Leads g.state p fun a s => V a ∧ g.After s

/-- What is found at a token may be said in a state. -/
def Speaks (t : Token) (s : ParseState) : Prop :=
  ∀ {cause : Cause}, cause.isAboutToken = true →
    g.voices (s.diagnoseToken t cause)

/-- A state whose lookahead is known. -/
structure Facing (t : Token) (s : ParseState) : Prop where
  state : g.state s
  lookahead : s.lookahead = t

/-- A state whose lookahead is known, and whether a line break is seen in
front of it. -/
structure Meets (t : Token) (newLine : Bool) (s : ParseState) : Prop
    extends Facing g t s where
  lineBreak : s.lineBreak = newLine

/-- A state in which a token was just consumed. -/
structure Passed (t : Token) (s : ParseState) : Prop where
  state : g.state s
  token : g.token t
  last : s.last = t.span.stop
  speaks : g.Speaks t s
  next : g.follows t s.lookahead s.lineBreak

variable {g} {P P' : ParseState → Prop} {p p' : Parse α} {f : α → Parse β}
  {Q Q' : α → ParseState → Prop} {R : β → ParseState → Prop}
  {V : α → Prop} {W : β → Prop} {t u : Token} {newLine : Bool}
  {cause : Cause}

/-- After a token that is passed, the state is after a token. -/
theorem Passed.after {s : ParseState} (h : g.Passed t s) : g.After s :=
  ⟨h.state, t, h.next⟩

/-- A token that is faced may be told about. -/
theorem Facing.speaks {s : ParseState} (h : g.Facing t s) :
    g.Speaks t s := by
  intro cause hcause
  obtain ⟨hs, rfl⟩ := h
  exact g.ahead hs hcause

-- ========================================================= sequences

/-- What is allowed may be widened. -/
theorem Allows.imp {r : EStateM.Result Failure ParseState α}
    (h : g.Allows Q r) (hQ : ∀ a s, Q a s → Q' a s) : g.Allows Q' r := by
  cases h with
  | ok hq => exact .ok (hQ _ _ hq)
  | refused hd => exact .refused hd
  | exhausted => exact .exhausted

namespace Leads

/-- An action leads from fewer states, and to more. -/
theorem weaken (h : g.Leads P p Q) (hP : ∀ s, P' s → P s)
    (hQ : ∀ a s, Q a s → Q' a s) : g.Leads P' p Q' :=
  fun s hs => (h (hP s hs)).imp hQ

/-- A result without an action. -/
theorem pure {a : α} (h : ∀ s, P s → Q a s) :
    g.Leads P (Pure.pure a) Q := fun s hs => .ok (h s hs)

/-- One action after another. -/
theorem bind (hp : g.Leads P p Q) (hf : ∀ a, g.Leads (Q a) (f a) R) :
    g.Leads P (p >>= f) R := by
  intro s hs
  have hends := hp hs
  cases hend : p s with
  | ok a s' =>
      rw [hend] at hends
      rw [bind_of_ok hend]
      cases hends with
      | ok hq => exact hf a hq
  | error failure s' =>
      rw [hend] at hends
      rw [bind_of_error hend]
      cases hends with
      | refused hd => exact .refused hd
      | exhausted => exact .exhausted

/-- Either of two actions. -/
theorem ite {c : Prop} [Decidable c] (hp : c → g.Leads P p Q)
    (hp' : ¬c → g.Leads P p' Q) :
    g.Leads P (if c then p else p') Q := by
  split
  case isTrue hc => exact hp hc
  case isFalse hc => exact hp' hc

/-- What else a success shows. -/
theorem shows (hp : g.Leads P p Q)
    (h : ∀ s a s', P s → p s = .ok a s' → Q a s' → Q' a s') :
    g.Leads P p Q' := by
  intro s hs
  have hends := hp hs
  cases hend : p s with
  | ok a s' =>
      rw [hend] at hends
      cases hends with
      | ok hq => exact .ok (h s a s' hs hend hq)
  | error failure s' =>
      rw [hend] at hends
      cases hends with
      | refused hd => exact .refused hd
      | exhausted => exact .exhausted

/-- The lookahead is known from here on. -/
theorem facing {f : Token → Parse β}
    (hf : ∀ t, g.Leads (g.Facing t) (f t) R) :
    g.Leads g.state (Parse.lookahead >>= f) R :=
  fun s hs => hf s.lookahead ⟨hs, rfl⟩

/-- What follows the token that was just consumed is known from here on. -/
theorem meets (h : ∀ u newLine, g.follows t u newLine →
    g.Leads (g.Meets u newLine) p Q) : g.Leads (g.Passed t) p Q :=
  fun _ hs => h _ _ hs.next ⟨⟨hs.state, rfl⟩, rfl⟩

/-- What follows some token is known from here on. -/
theorem after (h : ∀ t u newLine, g.follows t u newLine →
    g.Leads (g.Meets u newLine) p Q) : g.Leads g.After p Q := by
  rintro s ⟨hs, t, hnext⟩
  exact h t _ _ hnext ⟨⟨hs, rfl⟩, rfl⟩

/-- A look at the next token. -/
theorem lookahead {f : Token → Parse β}
    (hf : g.Leads (g.Meets u newLine) (f u) R) :
    g.Leads (g.Meets u newLine) (Parse.lookahead >>= f) R := by
  intro s hs
  show g.Allows R (f s.lookahead s)
  rw [hs.lookahead]
  exact hf hs

/-- The look for a line break. -/
theorem afterLineBreak {f : Bool → Parse β}
    (hf : g.Leads (g.Meets u newLine) (f newLine) R) :
    g.Leads (g.Meets u newLine) (Parse.afterLineBreak >>= f) R := by
  intro s hs
  show g.Allows R (f s.lineBreak s)
  rw [hs.lineBreak]
  exact hf hs

/-- What does not depend on the state may be taken out of it. -/
theorem known {c : Prop} (h : c → g.Leads P p Q) :
    g.Leads (fun s => c ∧ P s) p Q := fun _ hs => h hs.1 hs.2

end Leads

namespace Gives

/-- A result without an action. -/
theorem pure {a : α} (h : V a) : g.Gives (Pure.pure a) V :=
  Leads.pure fun _ hs => ⟨h, hs⟩

/-- One action after another. -/
theorem bind (hp : g.Gives p V) (hf : ∀ a, V a → g.Gives (f a) W) :
    g.Gives (p >>= f) W :=
  Leads.bind hp fun a _ hs => hf a hs.1 hs.2

/-- An action with its result changed. -/
theorem map {h : α → β} (hp : g.Gives p V)
    (hh : ∀ a, V a → W (h a)) : g.Gives (h <$> p) W :=
  hp.bind fun a ha => .pure (hh a ha)

/-- Either of two actions. -/
theorem ite {c : Prop} [Decidable c] (hp : c → g.Gives p V)
    (hp' : ¬c → g.Gives p' V) : g.Gives (if c then p else p') V :=
  Leads.ite hp hp'

/-- What is said of any state holds where the lookahead is known. -/
theorem facing (h : g.Gives p V) :
    g.Leads (g.Facing t) p fun a s => V a ∧ g.state s :=
  h.weaken (fun _ hs => hs.state) fun _ _ hs => hs

/-- What may come from any state may come from one where a token is met. -/
theorem meets (h : g.Gives p V) :
    g.Leads (g.Meets t newLine) p fun a s => V a ∧ g.state s :=
  h.weaken (fun _ hs => hs.state) fun _ _ hs => hs

end Gives

namespace Ends

/-- An action that ends after a token gives its result. -/
theorem gives (h : g.Ends p V) : g.Gives p V :=
  h.weaken (fun _ hs => hs) fun _ _ hs => ⟨hs.1, hs.2.state⟩

/-- What comes last decides what a sequence ends after. -/
theorem last (hp : g.Gives p V) (hf : ∀ a, V a → g.Ends (f a) W) :
    g.Ends (p >>= f) W :=
  Leads.bind hp fun a _ hs => hf a hs.1 hs.2

/-- One action after another. -/
theorem bind (hp : g.Ends p V)
    (hf : ∀ a, V a → g.Leads g.After (f a) fun b s => W b ∧ g.After s) :
    g.Ends (p >>= f) W :=
  Leads.bind hp fun a _ hs => hf a hs.1 hs.2

/-- Either of two actions. -/
theorem ite {c : Prop} [Decidable c] (hp : c → g.Ends p V)
    (hp' : ¬c → g.Ends p' V) : g.Ends (if c then p else p') V :=
  Leads.ite hp hp'

/-- An action that ends after a token does so from a token that is faced.
-/
theorem facing (h : g.Ends p V) :
    g.Leads (g.Facing t) p fun a s => V a ∧ g.After s :=
  h.weaken (fun _ hs => hs.state) fun _ _ hs => hs

end Ends

-- ================================================ looks at the state

/-- What there may be after a look at the next token. -/
theorem gives_lookahead : g.Gives Parse.lookahead g.token :=
  fun _ hs => .ok ⟨g.lookahead hs, hs⟩

/-- Where the look for a line break leads. -/
theorem leads_afterLineBreak :
    g.Leads P Parse.afterLineBreak fun _ => P := fun _ hs => .ok hs

/-- Where the look for a mark leads. -/
theorem leads_isAt {text : String} :
    g.Leads P (Parse.isAt text) fun _ => P := fun _ hs => .ok hs

/-- What there may be after the look for a mark. -/
theorem gives_isAt {text : String} :
    g.Gives (Parse.isAt text) fun _ => True := fun _ hs => .ok ⟨trivial, hs⟩

/-- What there may be after the look for a word. -/
theorem gives_isAtWord {text : String} :
    g.Gives (Parse.isAtWord text) fun _ => True :=
  fun _ hs => .ok ⟨trivial, hs⟩

/-- What there may be after the question whether errors are tolerated. -/
theorem gives_isTolerant : g.Gives Parse.isTolerant fun _ => True :=
  fun _ hs => .ok ⟨trivial, hs⟩

/-- What there may be after the look for a bound name behind the next
token. -/
theorem gives_bindingAhead {onSameLine : Bool} :
    g.Gives (Parse.bindingAhead onSameLine) fun _ => True := by
  intro s hs
  rcases Parse.bindingAhead_cases onSameLine s with ⟨b, h⟩ | ⟨d, h⟩
  · rw [h]
    exact .ok ⟨trivial, hs⟩
  · obtain ⟨s', hshift⟩ := Parse.shift_of_bindingAhead h
    rw [h]
    exact .refused (g.refused hs hshift)

-- ======================================================= diagnostics

/-- What there may be after a text that is nested too deeply. -/
theorem gives_exhausted : g.Gives (Parse.exhausted : Parse α) V :=
  fun _ _ => .exhausted

/-- What there may be after a text that is refused. -/
theorem gives_reject : g.Gives (Parse.reject cause : Parse α) V :=
  fun _ hs => .refused (g.last cause hs)

/-- Where a token that is refused leads. -/
theorem leads_unexpected (h : ∀ s, P s → g.Speaks t s) :
    g.Leads P (Parse.unexpected t) Q :=
  fun s hs => .refused (h s hs t.isAboutToken_unexpected)

/-- What is allowed after an error that may be tolerated. -/
theorem allows_tolerate {s : ParseState} {d : Diagnostic}
    (hs : g.state s) (hd : g.voices d) :
    g.Allows (fun _ s => True ∧ g.state s) (Parse.tolerate d s) := by
  unfold Parse.tolerate DiagnosticLog.tolerate
  cases htolerant : s.log.tolerant with
  | true => exact .ok ⟨trivial, g.record hs hd htolerant⟩
  | false => exact .refused hd

/-- What there may be after an error that may be tolerated. -/
theorem gives_tolerate {d : Diagnostic} (hd : g.voices d) :
    g.Gives (Parse.tolerate d) fun _ => True :=
  fun _ hs => allows_tolerate hs hd

/-- What there may be after an objection to what was read. -/
theorem gives_object : g.Gives (Parse.object cause) fun _ => True :=
  fun _ hs => allows_tolerate hs (g.last cause hs)

/-- Where an objection to a token leads. -/
theorem leads_objectTo (hcause : cause.isAboutToken = true)
    (h : ∀ s, P s → g.state s ∧ g.Speaks t s) :
    g.Leads P (Parse.objectTo t cause) fun _ s => True ∧ g.state s :=
  fun s hs => allows_tolerate (h s hs).1 ((h s hs).2 hcause)

-- ============================================================ tokens

/-- A known lookahead is passed. -/
theorem leads_shiftFacing :
    g.Leads (g.Facing t) Parse.shift fun t' s => t' = t ∧ g.Passed t s := by
  rintro s ⟨hs, rfl⟩
  rcases Parse.shift_cases s with ⟨u, hu⟩ | ⟨d, hd⟩
  · rw [hu]
    refine .ok ⟨rfl, g.shift hs hu, g.lookahead hs, ?_, g.behind hs hu,
      g.next hs hu⟩
    obtain ⟨-, next, rest, log, -, -, rfl⟩ := Parse.shift_ok.1 hu
    rfl
  · rw [hd]
    exact .refused (g.refused hs hd)

/-- Where a step to the next token leads. -/
theorem leads_shift : g.Leads g.state Parse.shift g.Passed := by
  intro s hs
  apply (leads_shiftFacing ⟨hs, rfl⟩).imp
  rintro t s' ⟨rfl, hpassed⟩
  exact hpassed

/-- Where a token that is passed over leads. -/
theorem leads_skip :
    g.Leads (g.Facing t) Parse.skip fun _ => g.Passed t :=
  leads_shiftFacing.bind fun _ => .pure fun _ hs => hs.2

/-- What there may be after a token that is passed over. -/
theorem gives_skip : g.Gives Parse.skip fun _ => True :=
  leads_shift.bind fun _ => .pure fun _ hs => ⟨trivial, hs.state⟩

/-- A token that is not the one expected, whatever it is. -/
theorem ends_unexpectedNext :
    g.Ends (Parse.shift >>= fun t => (Parse.unexpected t : Parse α)) V :=
  leads_shift.bind fun _ => leads_unexpected fun _ hs => hs.speaks

/-- The end of a mark that is asked for. -/
theorem ends_expect {text : String} :
    g.Ends (Parse.expect text) fun _ => True :=
  leads_shift.bind fun _ => .ite
    (fun _ => .pure fun _ hs => ⟨trivial, hs.after⟩)
    fun _ => leads_unexpected fun _ hs => hs.speaks

/-- What there may be after a mark that is asked for. -/
theorem gives_expect {text : String} :
    g.Gives (Parse.expect text) fun _ => True := ends_expect.gives

/-- What there may be after a word that is asked for. -/
theorem gives_expectWord {text : String} :
    g.Gives (Parse.expectWord text) fun _ => True :=
  leads_shift.bind fun _ => .ite
    (fun _ => .pure fun _ hs => ⟨trivial, hs.state⟩)
    fun _ => leads_unexpected fun _ hs => hs.speaks

-- ============================================================= nodes

/-- What there may be after a node that is completed. -/
theorem gives_close {kind : NodeKind} {start : Position} :
    g.Gives (Parse.close kind start) fun span => span.start = start :=
  fun _ hs => .ok ⟨rfl, g.close hs⟩

/-- A node that is one token has the place of the token. -/
theorem leads_close {kind : NodeKind} :
    g.Leads (g.Passed t) (Parse.close kind t.span.start) fun span s =>
      (span = t.span ∧ g.token t) ∧ g.After s := by
  intro s hs
  have hspan : (⟨t.span.start, s.last⟩ : Span) = t.span := by
    rw [hs.last]
  exact .ok ⟨⟨hspan, hs.token⟩, g.close hs.state, t, hs.next⟩

/-- A node that ends with a token has its end. -/
theorem leads_closePassed {kind : NodeKind} {start : Position} :
    g.Leads (g.Passed t) (Parse.close kind start) fun span s =>
      span = ⟨start, t.span.stop⟩ ∧ g.state s := by
  intro s hs
  rw [← hs.last]
  exact .ok ⟨rfl, g.close hs.state⟩

/-- To complete a node is to stay after the token that it ends with. -/
theorem leads_closeAfter {kind : NodeKind} {start : Position} :
    g.Leads g.After (Parse.close kind start) fun span s =>
      span.start = start ∧ g.After s :=
  fun _ hs => .ok ⟨rfl, g.close hs.state, hs.next⟩

/-- What there may be after a node that is extended to the next token. -/
theorem gives_extendToLookahead :
    g.Gives Parse.extendToLookahead fun _ => True :=
  fun _ hs => .ok ⟨trivial, g.extend hs⟩

-- ======================================================== repetition

/-- What there may be after an action that is repeated. -/
theorem gives_collectWhile {more : Parse Bool}
    (hm : g.Gives more fun _ => True) (hp : g.Gives p V) (steps : Nat) :
    g.Gives (Parse.collectWhile more p steps)
      fun l => ∀ a ∈ l, V a := by
  induction steps with
  | zero => exact gives_exhausted
  | succ steps ih =>
      refine .bind hm fun _ _ => .ite (fun _ => ?_) fun _ => .pure (by simp)
      refine .bind hp fun first hfirst => .bind ih fun later hlater =>
        .pure ?_
      exact List.forall_mem_cons.2 ⟨hfirst, hlater⟩

/-- What there may be after items with separators between them. -/
theorem gives_separated {separator : Parse Unit} (hp : g.Gives p V)
    (hs : g.Gives separator fun _ => True) (steps : Nat) :
    g.Gives (Parse.separated p separator steps)
      fun l => ∀ a ∈ l, V a := by
  induction steps with
  | zero => exact gives_exhausted
  | succ steps ih =>
      refine .bind hp fun first hfirst => ?_
      have hone : ∀ a ∈ [first], V a := by simpa using hfirst
      refine .bind gives_isAt fun _ _ => .ite (fun _ => .pure hone)
        fun _ => ?_
      refine .bind hs fun _ _ => .bind gives_isAt fun _ _ => .ite
        (fun _ => .pure hone) fun _ => .bind ih fun later hlater => .pure ?_
      exact List.forall_mem_cons.2 ⟨hfirst, hlater⟩

/-- The end of items in parentheses. -/
theorem ends_parenthesized {separator : Parse Unit} (hp : g.Gives p V)
    (hs : g.Gives separator fun _ => True) (steps : Nat) :
    g.Ends (Parse.parenthesized p separator steps)
      fun l => ∀ a ∈ l, V a := by
  have hitems : g.Gives (Parse.upToParenthesis p separator steps)
      fun l => ∀ a ∈ l, V a :=
    .bind gives_isAt fun _ _ => .ite (fun _ => .pure (by simp))
      fun _ => gives_separated hp hs steps
  exact .last gives_expect fun _ _ => .last hitems fun _ hitems =>
    .bind ends_expect fun _ _ => .pure fun _ hs => ⟨hitems, hs⟩

-- ============================================================= parts

section Parts

variable (g) {π : Type} (place : Span → π)

/-- A node that starts with a token and goes on with the next one. -/
structure Opens (t u : Token) (newLine : Bool) (shown : π) : Prop where
  follows : g.follows t u newLine
  goesOn : u.isEnd = false
  begins : ∃ stop, shown = place ⟨t.span.start, stop⟩

/-- A name that is spelled by an identifier. -/
def Named (name : String) : Prop :=
  ∃ t, g.token t ∧ t.kind = .identifier ∧ name = t.shown

/-- A jump with its label as the next token. -/
def Labels (id : Identifier π) (shown : π) : Prop :=
  ∃ t u, g.Opens place t u false shown ∧ id.place = place u.span

/-- What is known of a part from the place where it is made. -/
@[simp] def Made : Part π → Prop
  | .name id => g.Named id.name ∨ id.name = "let"
  | .expression (.literal value raw shown) =>
    ∃ t, g.token t ∧ t.kind ∈ [.numeric, .string, .boolean, .null] ∧
      value = t.literalValue ∧ raw = t.raw ∧ shown = place t.span
  | .expression (.sequence items _) => 2 ≤ items.length
  | .expression (.unary _ _ before _) => before = true
  | .expression (.update operator _ false shown) =>
    ∃ t u start, g.follows t u false ∧
      u.updateOperator? = some operator ∧
      shown = place ⟨start, u.span.stop⟩
  | .function fn => ∀ id ∈ fn.id?, g.Named id.name
  | .parameter p => g.Named p.id.name
  | .declaration (.mk kind declarators _) =>
    declarators ≠ [] ∧ ∀ d ∈ declarators,
      (kind = .const → d.init?.isSome = true) ∧
        (kind ≠ .var → g.Named d.id.name)
  | .statement (.function fn) => fn.id?.isSome = true
  | .statement (.breaking (some id) shown)
  | .statement (.continuing (some id) shown) => g.Labels place id shown
  | .statement (.returning (some _) shown) =>
    ∃ t u newLine, g.Opens place t u newLine shown ∧
      (newLine = false ∨ u.kind = .string)
  | .statement (.throwing _ shown) =>
    ∃ t u, g.Opens place t u false shown
  | .expression _ | .statement _ => True

/-- What is known of all parts on a list. -/
def AllMade (parts : List (Part π)) : Prop :=
  ∀ part ∈ parts, g.Made place part

variable {g place} {parts parts' : List (Part π)}

@[simp] theorem allMade_nil : g.AllMade place ([] : List (Part π)) := by
  simp [AllMade]

/-- All parts are made if the first is and the others are. -/
@[simp] theorem allMade_cons {part : Part π} :
    g.AllMade place (part :: parts) ↔
      g.Made place part ∧ g.AllMade place parts :=
  List.forall_mem_cons

/-- All parts of two lists are made if those of both are. -/
@[simp] theorem allMade_append :
    g.AllMade place (parts ++ parts') ↔
      g.AllMade place parts ∧ g.AllMade place parts' :=
  List.forall_mem_append

/-- All parts of many things are made if those of each are. -/
@[simp] theorem allMade_flatMap {l : List α} {h : α → List (Part π)} :
    g.AllMade place (l.flatMap h) ↔ ∀ a ∈ l, g.AllMade place (h a) := by
  unfold AllMade
  constructor
  · intro hall a ha part hpart
    exact hall part (List.mem_flatMap.2 ⟨a, ha, hpart⟩)
  · intro hall part hpart
    obtain ⟨a, ha, hpart⟩ := List.mem_flatMap.1 hpart
    exact hall a ha part hpart

end Parts

end Guard

end ScriptTree
