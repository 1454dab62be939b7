/-
Two runs of the grammar that come to the same end.

# Both outcomes

A `Simulation` carries successes from one run to another. Here two runs
are compared whatever becomes of them: both succeed, with results that
look the same, or both are refused, with reports that look the same
(`Concord.Alike`). Neither runs out of its bound on the work.

# Tokens ahead

That no bound runs out is a matter of counting. A production goes one
level in, and a repetition goes on, only after a token was consumed. So
as many levels and steps are enough as there are tokens ahead
(`ParseState.ahead`), and one more at the end of the text.

# Judgments

A judgment relates the states before and after two actions. States are
compared with their line breaks or without (`Related`), with a bound on
the tokens ahead, and with or without the promise that the lookahead is
not the end of the text (`Concord.At`).

- `Consumes n`: from `n` tokens ahead, or fewer, to less than `n`.
- `Opens n`: the same, where the lookahead is a token.
- `Goes n`: less than `n` tokens are ahead, before and after.

With no bound left over there are no states to speak of, and so an action
that consumes goes on within any bound (`Goes.of_consumes`). The line
break in front of the first token of a text is not looked at, and need
not be the same. After a token was consumed line breaks are compared.
-/
import ScriptTree.Proofs.Keeping
import ScriptTree.Proofs.Simulation

namespace ScriptTree

-- ====================================================== tokens ahead

namespace ParseState

/-- The tokens that are still to be consumed. -/
def ahead (s : ParseState) : Nat :=
  if s.lookahead.isEnd then 0 else s.rest.tokens.length + 1

/-- A shift takes a token away, unless it stays at the end of the text. -/
theorem ahead_of_shift {s s' : ParseState} {t : Token}
    (hformed : s.rest.Formed) (hends : s.Ends)
    (h : Parse.shift s = .ok t s') :
    s'.ahead ≤ s.ahead ∧
      (s.lookahead.isEnd = false → s'.ahead < s.ahead) := by
  obtain ⟨-, next, rest, log, hn, -, rfl⟩ := Parse.shift_ok.1 h
  obtain ⟨htokens, -, -, -⟩ := hformed.next_parts hn
  show (if next.isEnd then 0 else rest.tokens.length + 1) ≤ s.ahead ∧ (_ →
    (if next.isEnd then 0 else rest.tokens.length + 1) < s.ahead)
  unfold ahead
  by_cases hend : s.lookahead.isEnd = true
  · rw [hends hend] at hn
    cases hn
    simp [hend]
  · rw [if_neg hend, htokens, List.length_append]
    by_cases hnext : next.isEnd = true
    · simp [hnext]
    · simp only [if_neg hnext, List.length_singleton]
      omega

end ParseState

-- ========================================================== concords

/-- A relation of states from which runs of the grammar come to the same
end. -/
structure Concord (ω ρ δ : Type) where
  /-- What is compared of a position. -/
  observe : Position → ω
  /-- What is compared of the place of a node. -/
  place : Span → ρ
  /-- What is compared of a diagnostic. -/
  report : Diagnostic → δ
  place_eq {p q : Span} : observe q.start = observe p.start →
    observe q.stop = observe p.stop → place q = place p
  start_of_place {p q : Span} : place q = place p →
    observe q.start = observe p.start
  report_diagnose {p q : Position} {cause : Cause} :
    observe q = observe p →
      report (q.diagnose cause) = report (p.diagnose cause)
  /-- States to start from. With `true` the line breaks in front of the
  lookaheads are the same. -/
  Related : Bool → ParseState → ParseState → Prop
  /-- States in which two runs are refused. -/
  Failed : ParseState → ParseState → Prop
  forget {b : Bool} {s s' : ParseState} : Related b s s' →
    Related false s s'
  failed {b : Bool} {s s' : ParseState} : Related b s s' → Failed s s'
  lookahead {b : Bool} {s s' : ParseState} : Related b s s' →
    s'.lookahead.view observe = s.lookahead.view observe
  lineBreak {s s' : ParseState} : Related true s s' →
    s'.lineBreak = s.lineBreak
  last {b : Bool} {s s' : ParseState} : Related b s s' →
    observe s'.last = observe s.last
  tolerant {b : Bool} {s s' : ParseState} : Related b s s' →
    s'.log.tolerant = s.log.tolerant
  report_diagnoseToken {b : Bool} {s s' : ParseState} {t t' : Token}
    {cause : Cause} : Related b s s' →
    t'.view observe = t.view observe →
    report (s'.diagnoseToken t' cause) = report (s.diagnoseToken t cause)
  /-- Both shifts succeed, or both are refused. -/
  shift {b : Bool} {s s' : ParseState} : Related b s s' →
    (∃ u u', Parse.shift s = .ok s.lookahead u ∧
      Parse.shift s' = .ok s'.lookahead u' ∧ Related true u u' ∧
      u.ahead ≤ s.ahead ∧
      (s.lookahead.isEnd = false → u.ahead < s.ahead)) ∨
    ∃ d d' u u', Parse.shift s = .error (.refused d) u ∧
      Parse.shift s' = .error (.refused d') u' ∧
      report d' = report d ∧ Failed u u'
  /-- Both looks at the token after the lookahead show the same, or both
  are refused. -/
  bindingAhead {b : Bool} {s s' : ParseState} {onSameLine : Bool} :
    Related b s s' →
    (∃ c, Parse.bindingAhead onSameLine s = .ok c s ∧
      Parse.bindingAhead onSameLine s' = .ok c s') ∨
    ∃ d d', Parse.bindingAhead onSameLine s = .error (.refused d) s ∧
      Parse.bindingAhead onSameLine s' = .error (.refused d') s' ∧
      report d' = report d
  close {b : Bool} {s s' : ParseState} {kind : NodeKind}
    {start start' : Position} : Related b s s' →
    observe start' = observe start →
    Related b
      { s with events := s.events.push (.node kind ⟨start, s.last⟩) }
      { s' with events := s'.events.push (.node kind ⟨start', s'.last⟩) }
  record {b : Bool} {s s' : ParseState} {d d' : Diagnostic} :
    Related b s s' → s.log.tolerant = true → report d' = report d →
    Related b { s with log := s.log.record d }
      { s' with log := s'.log.record d' }
  extend {b : Bool} {s s' : ParseState} : Related b s s' →
    Related b { s with last := s.lookahead.span.start }
      { s' with last := s'.lookahead.span.start }

namespace Concord

open View

variable {ω ρ δ : Type} (M : Concord ω ρ δ) {α β γ ζ : Type}

/-- Two runs come to the same end: both succeed, in states that `Q` holds
of and with results that look the same through `v`, or both are refused.
-/
inductive Alike (Q : ParseState → ParseState → Prop) (v : α → γ) :
    EStateM.Result Failure ParseState α →
      EStateM.Result Failure ParseState α → Prop where
  | ok {a b : α} {u u' : ParseState} : v b = v a → Q u u' →
      Alike Q v (.ok a u) (.ok b u')
  | refused {d d' : Diagnostic} {u u' : ParseState} :
      M.report d' = M.report d → M.Failed u u' →
        Alike Q v (.error (.refused d) u) (.error (.refused d') u')

/-- From states that `P` holds of, two actions come to the same end. -/
def Agrees (P Q : ParseState → ParseState → Prop) (v : α → γ)
    (p q : Parse α) : Prop :=
  ∀ ⦃s s' : ParseState⦄, P s s' → M.Alike Q v (p s) (q s')

/-- Related states with less than `n` tokens ahead, of which the lookahead
is one where `o` says so. -/
structure At (b o : Bool) (n : Nat) (s s' : ParseState) : Prop where
  related : M.Related b s s'
  ahead : s.ahead < n
  opened : o = true → s.lookahead.isEnd = false

/-- Both actions go on with less than `n` tokens ahead. -/
abbrev Goes (n : Nat) (v : α → γ) (p q : Parse α) : Prop :=
  M.Agrees (M.At true false n) (M.At true false n) v p q

/-- Both actions consume a token, of which there are `n` at most. -/
abbrev Consumes (n : Nat) (v : α → γ) (p q : Parse α) : Prop :=
  M.Agrees (M.At false false (n + 1)) (M.At true false n) v p q

/-- Both actions consume a token, where there is one. -/
abbrev Opens (n : Nat) (v : α → γ) (p q : Parse α) : Prop :=
  M.Agrees (M.At false true (n + 1)) (M.At true false n) v p q

variable {M} {P P' Q Q' R : ParseState → ParseState → Prop} {v : α → γ}
  {w : β → ζ} {p q : Parse α} {b o : Bool} {n m : Nat}

-- ============================================================= states

namespace At

variable {s s' : ParseState}

/-- In concord, the next tokens are of one view. -/
theorem view (h : M.At b o n s s') :
    s'.lookahead.view M.observe = s.lookahead.view M.observe :=
  M.lookahead h.related

/-- Less may be known of two states. -/
theorem weaken (h : M.At b o n s s') (hnm : n ≤ m) :
    M.At b false m s s' :=
  ⟨h.related, Nat.lt_of_lt_of_le h.ahead hnm, nofun⟩

/-- It may be left open whether there is a token. -/
theorem forget (h : M.At b o n s s') : M.At false o n s s' :=
  ⟨M.forget h.related, h.ahead, h.opened⟩

/-- What is known to have moved may be left open. -/
theorem of_true (h : M.At true o n s s') : M.At b o n s s' := by
  cases b with
  | true => exact h
  | false => exact h.forget

end At

-- ========================================================== sequences

/-- Two actions agree from fewer states, and on more. -/
theorem Agrees.weaken (h : M.Agrees P Q v p q)
    (hP : ∀ s s', P' s s' → P s s') (hQ : ∀ s s', Q s s' → Q' s s') :
    M.Agrees P' Q' v p q := by
  intro s s' hs
  have hends := h (hP s s' hs)
  revert hends
  generalize p s = r
  generalize q s' = r'
  intro hends
  cases hends with
  | ok hv hq => exact .ok hv (hQ _ _ hq)
  | refused hd hu => exact .refused hd hu

/-- A result without an action. -/
theorem Agrees.pure {a b : α} (h : v b = v a) :
    M.Agrees P P v (pure a) (pure b) :=
  fun _ _ hs => .ok h hs

/-- One action after another. -/
theorem Agrees.bind {f g : α → Parse β} (hp : M.Agrees P Q v p q)
    (hf : ∀ a b, v b = v a → M.Agrees Q R w (f a) (g b)) :
    M.Agrees P R w (p >>= f) (q >>= g) := by
  intro s s' hs
  have hends := hp hs
  generalize hr : p s = r at hends
  generalize hr' : q s' = r' at hends
  cases hends with
  | ok hv hu =>
      rw [bind_of_ok hr, bind_of_ok hr']
      exact hf _ _ hv hu
  | refused hd hu =>
      rw [bind_of_error hr, bind_of_error hr']
      exact .refused hd hu

/-- A sequence whose first action gives nothing. -/
theorem Agrees.andThen {p q : Parse Unit} {f g : Unit → Parse β}
    (hp : M.Agrees P Q id p q) (hf : M.Agrees Q R w (f ()) (g ())) :
    M.Agrees P R w (p >>= f) (q >>= g) :=
  hp.bind fun _ _ _ => hf

/-- An action with its result changed. -/
theorem Agrees.map {f : α → β} (hp : M.Agrees P Q v p q)
    (hf : ∀ a b, v b = v a → w (f b) = w (f a)) :
    M.Agrees P Q w (f <$> p) (f <$> q) :=
  hp.bind fun a b h => .pure (hf a b h)

/-- Either of two actions. -/
theorem Agrees.ite {c c' : Bool} (hc : c' = c) {p' q' : Parse α}
    (ht : M.Agrees P Q v p q) (hf : M.Agrees P Q v p' q') :
    M.Agrees P Q v (if c then p else p') (if c' then q else q') := by
  subst hc
  cases c' with
  | true => exact ht
  | false => exact hf

-- ============================================================= bounds

/-- With a token it consumes, an action opens. -/
theorem Agrees.opens (h : M.Consumes n v p q) : M.Opens n v p q := by
  apply h.weaken
  · exact fun s s' hs => hs.weaken (Nat.le_refl _)
  · exact fun s s' hs => hs

/-- An action that consumes does so wherever it is, and line breaks are
compared after it. -/
theorem Agrees.runs (h : M.Consumes n v p q) :
    M.Agrees (M.At b false (n + 1)) (M.At b false n) v p q := by
  apply h.weaken
  · exact fun s s' hs => hs.forget
  · exact fun s s' hs => hs.of_true

/-- An action that consumes goes on within any bound, as there is none
without a state. -/
theorem Goes.of_consumes (h : ∀ m < n, M.Consumes m v p q) :
    M.Goes n v p q := by
  cases n with
  | zero => exact fun s s' hs => absurd hs.ahead (Nat.not_lt_zero _)
  | succ n =>
      apply (h n (Nat.lt_succ_self n)).runs.weaken
      · exact fun s s' hs => hs
      · exact fun s s' hs => hs.weaken (Nat.le_succ n)

/-- A state with a token ahead is left for one with fewer. -/
theorem Agrees.zero {o : Bool} : M.Agrees (M.At b o 0) Q v p q :=
  fun _ _ hs => absurd hs.ahead (Nat.not_lt_zero _)

-- =============================================== looks at the state

/-- Both agree about a look at the next token. -/
theorem agrees_lookahead :
    M.Agrees (M.At b o n) (M.At b o n) (Token.view M.observe)
      Parse.lookahead Parse.lookahead :=
  fun _ _ hs => .ok hs.view hs

/-- A look that tells whether there is a token to consume. -/
theorem Agrees.facing {f g : Token → Parse β}
    (hf : ∀ t t', t'.view M.observe = t.view M.observe →
      M.Agrees (M.At b (!t.isEnd) n) Q w (f t) (g t')) :
    M.Agrees (M.At b o n) Q w (Parse.lookahead >>= f)
      (Parse.lookahead >>= g) := by
  intro s s' hs
  apply hf s.lookahead s'.lookahead hs.view
  exact ⟨hs.related, hs.ahead, by simp⟩

/-- What a token is called for in its place may be the end of the text. -/
theorem Agrees.unopened {o : Bool} (h : M.Agrees (M.At b false n) Q v p q) :
    M.Agrees (M.At b o n) Q v p q :=
  fun _ _ hs => h (hs.weaken (Nat.le_refl _))

/-- Both agree about the look for a mark. -/
theorem agrees_isAt {text : String} :
    M.Agrees (M.At b o n) (M.At b o n) id (Parse.isAt text)
      (Parse.isAt text) :=
  fun _ _ hs => .ok (isPunctuator_eq hs.view text) hs

/-- A keyword is a token. -/
theorem Agrees.atWord {text : String} {f g : Bool → Parse β}
    (ht : M.Agrees (M.At b true n) Q w (f true) (g true))
    (hf : M.Agrees (M.At b o n) Q w (f false) (g false)) :
    M.Agrees (M.At b o n) Q w (Parse.isAtWord text >>= f)
      (Parse.isAtWord text >>= g) := by
  intro s s' hs
  have hword := isKeyword_eq hs.view text
  show M.Alike Q w (f (s.lookahead.isKeyword text) s)
    (g (s'.lookahead.isKeyword text) s')
  rw [hword]
  cases hkey : s.lookahead.isKeyword text with
  | false => exact hf hs
  | true =>
      apply ht
      refine ⟨hs.related, hs.ahead, fun _ => ?_⟩
      unfold Token.isKeyword at hkey
      have hkind : s.lookahead.kind = .keyword := by
        simp only [Bool.and_eq_true, decide_eq_true_eq] at hkey
        exact hkey.1
      simp [Token.isEnd, hkind]

/-- Both agree about the look for a word. -/
theorem agrees_isAtWord {text : String} :
    M.Agrees (M.At b o n) (M.At b o n) id (Parse.isAtWord text)
      (Parse.isAtWord text) :=
  fun _ _ hs => .ok (isKeyword_eq hs.view text) hs

/-- Both go on alike over the look for a line break. -/
theorem goes_afterLineBreak :
    M.Goes n id Parse.afterLineBreak Parse.afterLineBreak :=
  fun _ _ hs => .ok (M.lineBreak hs.related) hs

/-- Both agree about the question whether errors are tolerated. -/
theorem agrees_isTolerant :
    M.Agrees (M.At b o n) (M.At b o n) id Parse.isTolerant
      Parse.isTolerant :=
  fun _ _ hs => .ok (M.tolerant hs.related) hs

/-- Both agree about the look for a bound name behind the next token. -/
theorem agrees_bindingAhead {onSameLine : Bool} :
    M.Agrees (M.At b o n) (M.At b o n) id
      (Parse.bindingAhead onSameLine)
      (Parse.bindingAhead onSameLine) := by
  intro s s' hs
  have hlook := @M.bindingAhead b s s' onSameLine hs.related
  rcases hlook with ⟨c, h, h'⟩ | ⟨d, d', h, h', hd⟩
  · rw [h, h']
    exact .ok rfl hs
  · rw [h, h']
    exact .refused hd (M.failed hs.related)

-- ========================================================= diagnostics

/-- Both agree about a text that is refused. -/
theorem agrees_reject {cause : Cause} :
    M.Agrees (M.At b o n) Q v (Parse.reject cause)
      (Parse.reject cause) :=
  fun _ _ hs => .refused (M.report_diagnose (M.last hs.related))
    (M.failed hs.related)

/-- Both agree about a token that is refused. -/
theorem agrees_unexpected {t t' : Token}
    (ht : t'.view M.observe = t.view M.observe) :
    M.Agrees (M.At b o n) Q v (Parse.unexpected t)
      (Parse.unexpected t') := by
  intro s s' hs
  have hcause : t'.unexpected = t.unexpected := by
    unfold Token.unexpected
    rw [kind_eq ht, shown_eq ht]
  show M.Alike Q v (.error (.refused (s.diagnoseToken t t.unexpected)) s)
    (.error (.refused (s'.diagnoseToken t' t'.unexpected)) s')
  rw [hcause]
  exact .refused (M.report_diagnoseToken hs.related ht)
    (M.failed hs.related)

/-- A diagnostic is recorded by both, or by neither. -/
theorem Alike.tolerate {s s' : ParseState} {d d' : Diagnostic}
    (hs : M.At b o n s s') (hd : M.report d' = M.report d) :
    M.Alike (M.At b o n) id (Parse.tolerate d s)
      (Parse.tolerate d' s') := by
  have htolerant := M.tolerant hs.related
  unfold Parse.tolerate DiagnosticLog.tolerate
  rw [htolerant]
  cases hmay : s.log.tolerant with
  | true =>
      exact .ok rfl ⟨M.record hs.related hmay hd, hs.ahead, hs.opened⟩
  | false => exact .refused hd (M.failed hs.related)

/-- Both agree about an error that may be tolerated. -/
theorem agrees_tolerate {d d' : Diagnostic}
    (hd : M.report d' = M.report d) :
    M.Agrees (M.At b o n) (M.At b o n) id (Parse.tolerate d)
      (Parse.tolerate d') :=
  fun _ _ hs => .tolerate hs hd

/-- Both agree about an objection to what was read. -/
theorem agrees_object {cause : Cause} :
    M.Agrees (M.At b o n) (M.At b o n) id (Parse.object cause)
      (Parse.object cause) :=
  fun _ _ hs => .tolerate hs (M.report_diagnose (M.last hs.related))

/-- Both agree about an objection to a token. -/
theorem agrees_objectTo {t t' : Token} {cause : Cause}
    (ht : t'.view M.observe = t.view M.observe) :
    M.Agrees (M.At b o n) (M.At b o n) id (Parse.objectTo t cause)
      (Parse.objectTo t' cause) :=
  fun _ _ hs => .tolerate hs (M.report_diagnoseToken hs.related ht)

-- ============================================================= tokens

/-- A shift takes a token, or stays at the end of the text. -/
theorem agrees_shift :
    M.Agrees (M.At b o n) (M.At true false n) (Token.view M.observe)
      Parse.shift Parse.shift := by
  intro s s' hs
  rcases M.shift hs.related with
    ⟨u, u', h, h', hu, hle, -⟩ | ⟨d, d', u, u', h, h', hd, hu⟩
  · rw [h, h']
    exact .ok hs.view ⟨hu, Nat.lt_of_le_of_lt hle hs.ahead, nofun⟩
  · rw [h, h']
    exact .refused hd hu

/-- A shift that is known to take a token. -/
theorem opens_shift :
    M.Agrees (M.At b true (n + 1)) (M.At true false n)
      (Token.view M.observe) Parse.shift Parse.shift := by
  intro s s' hs
  rcases M.shift hs.related with
    ⟨u, u', h, h', hu, -, hlt⟩ | ⟨d, d', u, u', h, h', hd, hu⟩
  · rw [h, h']
    have hahead := hlt (hs.opened rfl)
    have hbound := hs.ahead
    exact .ok hs.view ⟨hu, by omega, nofun⟩
  · rw [h, h']
    exact .refused hd hu

/-- A shift whose token is looked at afterwards. -/
theorem Agrees.shifted {f g : Token → Parse β}
    (hf : ∀ t t', t'.view M.observe = t.view M.observe →
      t.isEnd = false → M.Agrees (M.At true false n) Q w (f t) (g t'))
    (he : ∀ t t', t'.view M.observe = t.view M.observe →
      t.isEnd = true →
        M.Agrees (M.At true false (n + 1)) Q w (f t) (g t')) :
    M.Agrees (M.At b o (n + 1)) Q w (Parse.shift >>= f)
      (Parse.shift >>= g) := by
  intro s s' hs
  rcases M.shift hs.related with
    ⟨u, u', h, h', hu, hle, hlt⟩ | ⟨d, d', u, u', h, h', hd, hu⟩
  · rw [bind_of_ok h, bind_of_ok h']
    have hbound := hs.ahead
    cases hend : s.lookahead.isEnd with
    | true => exact he _ _ hs.view hend ⟨hu, by omega, nofun⟩
    | false =>
        have hahead := hlt hend
        exact hf _ _ hs.view hend ⟨hu, by omega, nofun⟩
  · rw [bind_of_error h, bind_of_error h']
    exact .refused hd hu

/-- Both go on alike over a token that is passed over. -/
theorem goes_skip : M.Goes n id Parse.skip Parse.skip :=
  agrees_shift.bind fun _ _ _ => .pure rfl

/-- Both open a token that is passed over alike. -/
theorem opens_skip : M.Opens n id Parse.skip Parse.skip :=
  opens_shift.bind fun _ _ _ => .pure rfl

/-- The end of the text is neither a punctuator nor a word. -/
theorem not_isPunctuator_of_isEnd {t : Token} (h : t.isEnd = true)
    (text : String) : t.isPunctuator text = false := by
  have hkind : t.kind = .endOfInput := by simpa [Token.isEnd] using h
  rw [Token.isPunctuator, hkind]
  rfl

/-- The end of the text is no keyword. -/
theorem not_isKeyword_of_isEnd {t : Token} (h : t.isEnd = true)
    (text : String) : t.isKeyword text = false := by
  have hkind : t.kind = .endOfInput := by simpa [Token.isEnd] using h
  rw [Token.isKeyword, hkind]
  rfl

/-- Both consume a mark that is asked for alike. -/
theorem consumes_expect {text : String} :
    M.Consumes n id (Parse.expect text) (Parse.expect text) := by
  apply Agrees.shifted
  · intro t t' ht _
    exact .ite (isPunctuator_eq ht text) (.pure rfl) (agrees_unexpected ht)
  · intro t t' ht hend
    rw [isPunctuator_eq ht, not_isPunctuator_of_isEnd hend]
    exact agrees_unexpected ht

/-- Both go on alike over a mark that is asked for. -/
theorem goes_expect {text : String} :
    M.Goes n id (Parse.expect text) (Parse.expect text) :=
  .of_consumes fun _ _ => consumes_expect

/-- Both go on alike over a word that is asked for. -/
theorem goes_expectWord {text : String} :
    M.Goes n id (Parse.expectWord text) (Parse.expectWord text) :=
  agrees_shift.bind fun _ _ ht =>
    .ite (isKeyword_eq ht text) (.pure rfl) (agrees_unexpected ht)

-- ============================================================== nodes

/-- Both agree about a node that is completed. -/
theorem agrees_close {kind : NodeKind} {start start' : Position}
    (h : M.observe start' = M.observe start) :
    M.Agrees (M.At b o n) (M.At b o n) M.place (Parse.close kind start)
      (Parse.close kind start') := by
  intro s s' hs
  apply Alike.ok
  · exact M.place_eq h (M.last hs.related)
  · exact ⟨M.close hs.related h, hs.ahead, hs.opened⟩

/-- Both agree about a node that is extended to the next token. -/
theorem agrees_extendToLookahead :
    M.Agrees (M.At b o n) (M.At b o n) id Parse.extendToLookahead
      Parse.extendToLookahead :=
  fun _ _ hs => .ok rfl ⟨M.extend hs.related, hs.ahead, hs.opened⟩

-- ========================================================= separators

/-- A tolerant parse may go on without a separator. -/
theorem goes_argumentSeparator :
    M.Goes n id Parse.argumentSeparator Parse.argumentSeparator := by
  apply agrees_isTolerant.bind
  intro c c' hc
  apply Agrees.ite hc
  · apply agrees_lookahead.bind
    intro t t' ht
    apply Agrees.ite (isPunctuator_eq ht ",") goes_skip
    have hcause : t'.unexpected = t.unexpected := by
      unfold Token.unexpected
      rw [kind_eq ht, shown_eq ht]
    rw [hcause, shown_eq ht]
    apply Agrees.ite (isPunctuator_eq ht ";")
    · exact goes_skip.andThen (agrees_objectTo ht)
    · exact agrees_objectTo ht
  · exact goes_expect

/-- Both go on alike over a parenthesis that is missing. -/
theorem goes_missingParenthesis :
    M.Goes n id Parse.missingParenthesis Parse.missingParenthesis := by
  apply agrees_isAt.bind
  intro c c' hc
  apply agrees_isTolerant.bind
  intro d d' hd
  obtain rfl : c' = c := hc
  obtain rfl : d' = d := hd
  apply Agrees.ite rfl (.pure rfl)
  apply agrees_shift.bind
  intro t t' ht
  have hcause : t'.unexpected = t.unexpected := by
    unfold Token.unexpected
    rw [kind_eq ht, shown_eq ht]
  rw [hcause]
  exact (agrees_objectTo ht).andThen (.pure rfl)

-- ========================================================= repetition

/-- As many steps are enough as there are tokens ahead, and one more. -/
theorem agrees_collectWhile {more more' : Parse Bool}
    (hm : ∀ n, M.Agrees (M.At b false n) (M.At b false n) id more more')
    (hi : ∀ m < n, M.Agrees (M.At b false (m + 1)) (M.At b false m) v p q) :
    ∀ {steps steps' : Nat}, n ≤ steps → n ≤ steps' →
      M.Agrees (M.At b false n) (M.At b false n) (List.map v)
        (Parse.collectWhile more p steps)
        (Parse.collectWhile more' q steps') := by
  induction n with
  | zero => exact fun _ _ => .zero
  | succ n ih =>
      intro steps steps' hsteps hsteps'
      obtain ⟨steps, rfl⟩ : ∃ k, steps = k + 1 := ⟨steps - 1, by omega⟩
      obtain ⟨steps', rfl⟩ : ∃ k, steps' = k + 1 := ⟨steps' - 1, by omega⟩
      apply (hm (n + 1)).bind
      intro c c' hc
      apply Agrees.ite hc
      case hf => exact .pure rfl
      apply (hi n (Nat.lt_succ_self n)).bind
      intro a a' ha
      have hlater := @ih (fun m hm => hi m (Nat.lt_succ_of_lt hm)) steps
        steps' (by omega) (by omega)
      apply (hlater.weaken (fun _ _ hs => hs)
        (fun _ _ hs => hs.weaken (Nat.le_succ n))).bind
      intro l l' hl
      apply Agrees.pure
      rw [List.map_cons, List.map_cons, ha, hl]

/-- Both go on alike over items with separators between them. -/
theorem goes_separated {sep sep' : Parse Unit}
    (hi : ∀ m < n, M.Consumes m v p q)
    (hs : ∀ n, M.Goes n id sep sep') :
    ∀ {steps steps' : Nat}, n ≤ steps → n ≤ steps' →
      M.Goes n (List.map v) (Parse.separated p sep steps)
        (Parse.separated q sep' steps') := by
  induction n with
  | zero => exact fun _ _ => .zero
  | succ n ih =>
      intro steps steps' hsteps hsteps'
      obtain ⟨steps, rfl⟩ : ∃ k, steps = k + 1 := ⟨steps - 1, by omega⟩
      obtain ⟨steps', rfl⟩ : ∃ k, steps' = k + 1 := ⟨steps' - 1, by omega⟩
      have hless {p q : Parse (List α)} (h : M.Goes n (List.map v) p q) :
          M.Agrees (M.At true false n) (M.At true false (n + 1))
            (List.map v) p q :=
        h.weaken (fun _ _ hs => hs) fun _ _ hs => hs.weaken (Nat.le_succ n)
      apply (hi n (Nat.lt_succ_self n)).runs.bind
      intro a a' ha
      have hlast : [a'].map v = [a].map v := by
        rw [List.map_singleton, List.map_singleton, ha]
      apply hless
      apply agrees_isAt.bind
      intro c c' hc
      apply Agrees.ite hc (.pure hlast)
      apply (hs n).andThen
      apply agrees_isAt.bind
      intro d d' hd
      apply Agrees.ite hd (.pure hlast)
      apply (ih (fun m hm => hi m (Nat.lt_succ_of_lt hm)) (by omega)
        (by omega)).bind
      intro l l' hl
      apply Agrees.pure
      rw [List.map_cons, List.map_cons, ha, hl]

/-- Both go on alike over items up to a parenthesis. -/
theorem goes_upToParenthesis {sep sep' : Parse Unit}
    (hi : ∀ m < n, M.Consumes m v p q)
    (hs : ∀ n, M.Goes n id sep sep') {steps steps' : Nat}
    (hsteps : n ≤ steps) (hsteps' : n ≤ steps') :
    M.Goes n (List.map v) (Parse.upToParenthesis p sep steps)
      (Parse.upToParenthesis q sep' steps') := by
  apply agrees_isAt.bind
  intro c c' hc
  exact .ite hc (.pure rfl) (goes_separated hi hs hsteps hsteps')

/-- Both consume items in parentheses alike. -/
theorem consumes_parenthesized {sep sep' : Parse Unit}
    (hi : ∀ m < n, M.Consumes m v p q)
    (hs : ∀ n, M.Goes n id sep sep') {steps steps' : Nat}
    (hsteps : n ≤ steps) (hsteps' : n ≤ steps') :
    M.Consumes n (List.map v) (Parse.parenthesized p sep steps)
      (Parse.parenthesized q sep' steps') := by
  apply consumes_expect.andThen
  apply (goes_upToParenthesis hi hs hsteps hsteps').bind
  intro l l' hl
  exact goes_expect.andThen (.pure hl)

end Concord

end ScriptTree
