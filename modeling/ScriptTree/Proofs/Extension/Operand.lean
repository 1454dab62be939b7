/-
An operand is read alike whatever follows, unless that goes on with it.

# Up to the end

A run that reads an operand alone comes to the end of its words. What
still follows there is to complete nodes, and to look for a token that
goes on; and there is none, neither at the end nor in front of the words
that follow.

- `Needs`: a success starts with words ahead.
- `Stretches`: from a state with words ahead the action does the same with
  more after them.
- `Lasts`: it does so from any state, also at the end.
- `Closes`: it needs words, and stretches. Up to its last token it can be
  followed by the simulation.
-/
import ScriptTree.Proofs.Extension

namespace ScriptTree

open ParseState

variable {α β γ δ : Type} {tail : List Word} {v : α → γ} {w : β → δ}
  {p q : Parse α} {f g : α → Parse β}

-- ============================================================= needing

/-- A success of a strict parse starts with words ahead. -/
def Parse.Needs (p : Parse α) : Prop :=
  ∀ ⦃s a u⦄, s.Sound → p s = .ok a u → s.words ≠ []

theorem Parse.Needs.bind (hp : p.Needs) : (p >>= f).Needs := by
  intro s b u hs h
  obtain ⟨a, s₁, h₁, -⟩ := bind_ok.1 h
  exact hp hs h₁

/-- No run comes back from the end. -/
theorem Parse.Runs.needs (hp : p.Runs) (hf : ∀ a, (f a).Needs) :
    (p >>= f).Needs := by
  intro s b u hs h hnil
  obtain ⟨a, s₁, h₁, h₂⟩ := bind_ok.1 h
  have hreach := hp h₁
  exact hf a (Reaches.sound hreach hs) h₂
    (Reaches.words_nil hreach hs hnil)

theorem Parse.needs_expect (text : String) : (expect text).Needs := by
  intro s _ u hs h hnil
  have hmark := (expect_ok.1 h).1
  have hend : s.lookahead.kind = .endOfInput := by
    simpa [Token.isEnd] using isEnd_of_words_nil hnil
  simp [Token.isPunctuator, hend] at hmark

-- ========================================================== three kinds

/-- What succeeds in front of some words succeeds alike if there are more
after them. -/
def Stretches (tail : List Word) (v : α → γ) (p q : Parse α) : Prop :=
  ∀ ⦃s s' a u⦄, ExtendedInside tail s s' → p s = .ok a u →
    ∃ b u', q s' = .ok b u' ∧ v b = v a ∧ Extended tail u u'

/-- The same, also if there are no words to begin with. -/
def Lasts (tail : List Word) (v : α → γ) (p q : Parse α) : Prop :=
  ∀ ⦃s s' a u⦄, Extended tail s s' → p s = .ok a u →
    ∃ b u', q s' = .ok b u' ∧ v b = v a ∧ Extended tail u u'

/-- The same of an action that needs words. -/
structure Closes (tail : List Word) (v : α → γ) (p q : Parse α) :
    Prop where
  needs : p.Needs
  stretches : Stretches tail v p q

theorem Stretches.bind (hp : Stretches tail v p q)
    (hf : ∀ a b, v b = v a → Lasts tail w (f a) (g b)) :
    Stretches tail w (p >>= f) (q >>= g) := by
  intro s s' c u h hr
  obtain ⟨a, s₁, h₁, h₂⟩ := bind_ok.1 hr
  obtain ⟨b, s₁', hq, hv, hs₁⟩ := hp h h₁
  obtain ⟨d, u', hg, hw, hu⟩ := hf a b hv hs₁ h₂
  exact ⟨d, u', bind_ok.2 ⟨b, s₁', hq, hg⟩, hw, hu⟩

/-- What consumes nothing does not come to the end. -/
theorem Stretches.stay (hp : (extension tail).Simulates v p q)
    (hwait : p.Waits)
    (hf : ∀ a b, v b = v a → Stretches tail w (f a) (g b)) :
    Stretches tail w (p >>= f) (q >>= g) := by
  intro s s' c u h hr
  obtain ⟨a, s₁, h₁, h₂⟩ := bind_ok.1 hr
  have hfine : s₁.words ≠ [] := by
    intro hnil
    apply h.words_ne_nil
    apply words_of_end
    rw [← (hwait h₁).lookahead]
    exact isEnd_of_words_nil hnil
  obtain ⟨b, s₁', hq, hv, hs₁⟩ := hp.carries h h₁ hfine
  obtain ⟨d, u', hg, hw, hu⟩ := hf a b hv hs₁ h₂
  exact ⟨d, u', bind_ok.2 ⟨b, s₁', hq, hg⟩, hw, hu⟩

theorem Stretches.skip {f g : Unit → Parse β}
    (hf : Lasts tail w (f ()) (g ())) :
    Stretches tail w (Parse.skip >>= f) (Parse.skip >>= g) := by
  have hskip : Stretches tail id Parse.skip Parse.skip := by
    intro s s' a u h hs
    obtain ⟨u', hs', hu'⟩ := h.skip hs
    exact ⟨(), u', hs', rfl, hu'⟩
  exact hskip.bind fun _ _ _ => hf

theorem Stretches.of_fails (h : ∀ s a u, ¬p s = .ok a u) :
    Stretches tail v p q := fun s _ a u _ hp => absurd hp (h s a u)

theorem Stretches.ite {c c' : Bool} (hc : c' = c) {p' q' : Parse α}
    (ht : Stretches tail v p q) (hf : Stretches tail v p' q') :
    Stretches tail v (if c then p else p') (if c' then q else q') := by
  subst hc
  cases c' with
  | true => exact ht
  | false => exact hf

theorem Lasts.pure {a b : α} (h : v b = v a) :
    Lasts tail v (pure a) (pure b) := by
  intro s s' c u hs hp
  obtain ⟨rfl, rfl⟩ := pure_ok.1 hp
  exact ⟨b, s', rfl, h, hs⟩

/-- A strict parse that goes on has not objected. -/
theorem Parse.requireAssignable_ok {e : Expression Span}
    {s u : ParseState} {a : Unit} (hs : s.Sound)
    (h : requireAssignable e s = .ok a u) :
    e.isAssignable = true ∧ u = s := by
  unfold requireAssignable at h
  split at h
  case isTrue he => exact ⟨he, (pure_ok.1 h).2⟩
  case isFalse =>
    have htolerate : tolerate (s.last.diagnose .invalidTarget) s
        = .ok () u := h
    have htolerant := (tolerate_ok.1 htolerate).1
    rw [hs.log] at htolerant
    cases htolerant

theorem Lasts.require {e e' : Expression Span} (he : e'.shape = e.shape)
    {f g : Unit → Parse β} (hf : Lasts tail w (f ()) (g ())) :
    Lasts tail w (Parse.requireAssignable e >>= f)
      (Parse.requireAssignable e' >>= g) := by
  intro s s' c u h hr
  obtain ⟨_, s₁, h₁, h₂⟩ := bind_ok.1 hr
  obtain ⟨hassignable, rfl⟩ := Parse.requireAssignable_ok h.sound h₁
  obtain ⟨d, u', hg, hw, hu⟩ := hf h h₂
  have hassignable' : e'.isAssignable = true := by
    rw [← Expression.isAssignable_map (fun _ => ()) e']
    rw [← Expression.isAssignable_map (fun _ => ()) e] at hassignable
    rw [show e'.map (fun _ => ()) = e.map fun _ => () from he, hassignable]
  refine ⟨d, u', bind_ok.2 ⟨(), s', ?_, hg⟩, hw, hu⟩
  unfold Parse.requireAssignable
  rw [if_pos hassignable']
  rfl

theorem Lasts.ite {c c' : Bool} (hc : c' = c) {p' q' : Parse α}
    (ht : Lasts tail v p q) (hf : Lasts tail v p' q') :
    Lasts tail v (if c then p else p') (if c' then q else q') := by
  subst hc
  cases c' with
  | true => exact ht
  | false => exact hf

/-- Places do not count. -/
theorem Lasts.close {kind : NodeKind} {start start' : Position}
    {f g : Span → Parse β}
    (hf : ∀ span span', Lasts tail w (f span) (g span')) :
    Lasts tail w (Parse.close kind start >>= f)
      (Parse.close kind start' >>= g) := by
  intro s s' c u h hr
  obtain ⟨span, s₁, h₁, h₂⟩ := bind_ok.1 hr
  obtain ⟨span', s₁', h₁'⟩ : ∃ span' s₁',
      Parse.close kind start' s' = .ok span' s₁' := ⟨_, _, rfl⟩
  obtain ⟨ws, hs, hs'⟩ := h
  have hs₁ : Extended tail s₁ s₁' := ⟨ws, hs.of_close h₁, hs'.of_close h₁'⟩
  obtain ⟨d, u', hg, hw, hu⟩ := hf span span' hs₁ h₂
  exact ⟨d, u', bind_ok.2 ⟨span', s₁', h₁', hg⟩, hw, hu⟩

/-- What needs words does not start at the end. -/
theorem Closes.lasts (h : Closes tail v p q) : Lasts tail v p q := by
  intro s s' a u hs hp
  exact h.stretches (hs.inside (h.needs hs.sound hp)) hp

theorem Closes.of_fails (h : ∀ s a u, ¬p s = .ok a u) :
    Closes tail v p q where
  needs s a u _ hp := absurd hp (h s a u)
  stretches := .of_fails h

theorem Closes.bind (hp : Closes tail v p q)
    (hf : ∀ a b, v b = v a → Lasts tail w (f a) (g b)) :
    Closes tail w (p >>= f) (q >>= g) where
  needs := hp.needs.bind
  stretches := hp.stretches.bind hf

/-- Before an action that needs words the simulation applies. -/
theorem Closes.before (hp : (extension tail).Simulates v p q)
    (hf : ∀ a b, v b = v a → Closes tail w (f a) (g b)) :
    Closes tail w (p >>= f) (q >>= g) where
  needs := hp.runs.needs fun a => (hf a a rfl).needs
  stretches s s' c u h hr := by
    obtain ⟨a, s₁, h₁, h₂⟩ := bind_ok.1 hr
    have hs₁ := Reaches.sound (hp.runs h₁) h.sound
    have hfine := (hf a a rfl).needs hs₁ h₂
    obtain ⟨b, s₁', hq, hv, hin⟩ := hp.carries h h₁ hfine
    obtain ⟨d, u', hg, hw, hu⟩ := (hf a b hv).stretches hin h₂
    exact ⟨d, u', bind_ok.2 ⟨b, s₁', hq, hg⟩, hw, hu⟩

theorem Closes.ite {c c' : Bool} (hc : c' = c) {p' q' : Parse α}
    (ht : Closes tail v p q) (hf : Closes tail v p' q') :
    Closes tail v (if c then p else p') (if c' then q else q') := by
  subst hc
  cases c' with
  | true => exact ht
  | false => exact hf

theorem Closes.expect {text : String} {f g : Unit → Parse β}
    (hf : Lasts tail w (f ()) (g ())) :
    Closes tail w (Parse.expect text >>= f) (Parse.expect text >>= g) := by
  have hexpect : Closes tail id (Parse.expect text)
      (Parse.expect text) := by
    refine ⟨Parse.needs_expect text, ?_⟩
    intro s s' a u h hs
    obtain ⟨hmark, hskip⟩ := Parse.expect_ok.1 hs
    obtain ⟨u', hskip', hu'⟩ := h.skip hskip
    refine ⟨(), u', Parse.expect_ok.2 ⟨?_, hskip'⟩, rfl, hu'⟩
    rw [h.isPunctuator_eq, hmark]
  exact hexpect.bind fun _ _ _ => hf

-- ============================================== up to the last token

/-- A token that no production takes. -/
theorem Parse.shift_unexpected_ok {s u : ParseState} {a : α} :
    ¬(shift >>= unexpected : Parse α) s = .ok a u := by
  intro h
  obtain ⟨_, _, -, h⟩ := bind_ok.1 h
  exact unexpected_ok h

/-- A production that consumes one token and completes a node on it. -/
theorem stretches_leaf {kind : NodeKind} {start start' : Position}
    {f g : Span → Expression Span}
    (hf : ∀ p p', (g p').shape = (f p).shape) :
    Stretches tail Expression.shape
      (Parse.skip >>= fun _ => Parse.close kind start >>=
        fun p => pure (f p))
      (Parse.skip >>= fun _ => Parse.close kind start' >>=
        fun p => pure (g p)) :=
  .skip (.close fun p p' => .pure (hf p p'))

section Productions

variable {inner inner' : Productions}
  (h : (extension tail).Levels inner inner')

include h

theorem closes_group :
    Closes tail Expression.shape (Parse.group inner)
      (Parse.group inner') := by
  refine .before Simulation.simulates_expect fun _ _ _ => ?_
  refine .before Simulation.simulates_lookahead fun t t' ht => ?_
  refine .ite (View.isPunctuator_eq ht ")") ?_ ?_
  · exact .of_fails fun _ _ _ => Parse.shift_unexpected_ok
  · refine .before h.assignment.toSimulates fun e e' he => ?_
    refine .before (Simulation.simulates_furtherItems h
      h.assignment.toSimulates) fun l l' hl => ?_
    refine .before (Simulation.simulates_sequenceOf
      (View.start_eq ht) he hl) fun g g' hg => ?_
    exact .expect (.pure hg)

theorem closes_arguments :
    Closes tail (List.map Expression.shape) (Parse.arguments inner)
      (Parse.arguments inner') := by
  refine .before Simulation.simulates_expect fun _ _ _ => ?_
  refine .before (Simulation.simulates_upToParenthesis
    h.assignment.toSimulates Simulation.simulates_argumentSeparator
    h.depth) fun l l' hl => ?_
  exact .expect (.pure hl)

theorem closes_functionBody :
    Closes tail (Block.map fun _ => ()) (Parse.functionBody inner)
      (Parse.functionBody inner') := by
  refine .before Simulation.simulates_lookahead fun t t' _ => ?_
  refine .before Simulation.simulates_expect fun _ _ _ => ?_
  refine .before (Simulation.simulates_collectWhile ?_
    (h.item .ofFunction).toSimulates h.depth) fun l l' hl => ?_
  · refine Simulation.simulates_lookahead.bind fun n n' hn => ?_
    refine Simulation.simulates_isAt.bind fun b b' hb => .pure ?_
    rw [View.isEnd_eq hn, show b' = b from hb]
  · refine .expect (.close fun p p' => .pure ?_)
    have hbody : l'.map (Statement.map fun _ => ())
        = l.map (Statement.map fun _ => ()) := hl
    simp only [Block.map, Statement.mapAll_eq, hbody]

theorem closes_functionExpression :
    Closes tail (Function.map fun _ => ())
      (Parse.functionExpression inner)
      (Parse.functionExpression inner') := by
  refine .before Simulation.simulates_lookahead fun t t' _ => ?_
  refine .before Simulation.simulates_skip fun _ _ _ => ?_
  refine .before Simulation.simulates_generatorStar fun g g' hg => ?_
  refine .before Simulation.simulates_optionalName fun id id' hid => ?_
  refine .before (Simulation.advances_parameters h).toSimulates
    fun l l' hl => ?_
  refine (closes_functionBody h).bind fun b b' hb => ?_
  refine .close fun p p' => .pure ?_
  have hname : id'.map (Identifier.map fun _ => ())
      = id.map (Identifier.map fun _ => ()) := hid
  have hparams : l'.map (Parameter.map fun _ => ())
      = l.map (Parameter.map fun _ => ()) := hl
  simp only [Function.map, Parameter.mapAll_eq, hname, hparams, hb,
    show g' = g from hg]

theorem closes_primary :
    Closes tail Expression.shape (Parse.primary inner)
      (Parse.primary inner') where
  needs s a u _ hp hnil := by
    have hkind : s.lookahead.kind = .endOfInput := by
      simpa [Token.isEnd] using isEnd_of_words_nil hnil
    unfold Parse.primary at hp
    rw [Parse.lookahead_bind] at hp
    simp only [hkind] at hp
    exact Parse.shift_unexpected_ok hp
  stretches := by
    refine .stay Simulation.simulates_lookahead Parse.waits_lookahead
      fun t t' ht => ?_
    have hname : ∀ p p' : Span,
        (Expression.identifier ⟨t'.shown, p'⟩).shape
          = (Expression.identifier ⟨t.shown, p⟩).shape := by
      intro p p'
      rw [View.shown_eq ht]
      rfl
    have hliteral : ∀ p p' : Span,
        (Expression.literal t'.literalValue t'.raw p').shape
          = (Expression.literal t.literalValue t.raw p).shape := by
      intro p p'
      rw [View.literalValue_eq ht, View.raw_eq ht]
      rfl
    have hother : Stretches tail Expression.shape
        (Parse.shift >>= Parse.unexpected : Parse (Expression Span))
        (Parse.shift >>= Parse.unexpected) :=
      .of_fails fun _ _ _ => Parse.shift_unexpected_ok
    rw [View.kind_eq ht]
    cases t.kind with
    | identifier => exact stretches_leaf hname
    | numeric | string | boolean | null => exact stretches_leaf hliteral
    | punctuator =>
        exact .ite (View.isPunctuator_eq ht "(")
          (closes_group h).stretches hother
    | keyword =>
        refine .ite (View.isKeyword_eq ht "function") ?_
          (.ite (View.isKeyword_eq ht "let") ?_ hother)
        · refine (closes_functionExpression h).stretches.bind
            fun f f' hf => .pure ?_
          exact congrArg Expression.function hf
        · exact stretches_leaf hname
    | endOfInput => exact hother

end Productions

-- ============================================ looking for what goes on

/-- There is nothing that goes on with an operand at the start of the
words. -/
def EndsOperand (tail : List Word) : Prop :=
  ∀ w ∈ tail.head?, w.token.EndsOperand

/-- Only operators and parentheses go on. -/
theorem Token.EndsOperand.of_isEnd {t : Token} (h : t.isEnd = true) :
    t.EndsOperand := by
  have hkind : t.kind = .endOfInput := by simpa [Token.isEnd] using h
  have hmark (text : String) : t.isPunctuator text = false := by
    simp [Token.isPunctuator, hkind]
  refine ⟨hmark "(", ?_, hmark "**"⟩
  simp [Token.updateOperator?, Token.punctuator?, hkind]

/-- A run is at its end where nothing goes on with an operand. -/
theorem inside_or_endsOperand {s s' : ParseState}
    (hend : EndsOperand tail) (h : Extended tail s s') :
    ExtendedInside tail s s' ∨
      s.lookahead.EndsOperand ∧ s'.lookahead.EndsOperand := by
  by_cases hw : s.words = []
  · right
    refine ⟨.of_isEnd (isEnd_of_words_nil hw), ?_⟩
    obtain ⟨ws, hs, hs'⟩ := h
    obtain rfl : ws = [] := hs.words.symm.trans hw
    cases tail with
    | nil => exact .of_isEnd (isEnd_of_words_nil hs'.words)
    | cons w ws =>
        have hfirst : w.token.EndsOperand := hend w rfl
        rw [← hs'.lookahead.2.1] at hfirst
        exact ⟨hfirst.call, hfirst.update, hfirst.power⟩
  · exact .inl (h.inside hw)

theorem Lasts.isAt {text : String} {f g : Bool → Parse β}
    (hend : EndsOperand tail)
    (hno : ∀ t : Token, t.EndsOperand → t.isPunctuator text = false)
    (ht : Closes tail w (f true) (g true))
    (hf : Lasts tail w (f false) (g false)) :
    Lasts tail w (Parse.isAt text >>= f) (Parse.isAt text >>= g) := by
  intro s s' a u h hp
  rw [Parse.isAt_bind] at hp ⊢
  have hmark : s'.lookahead.isPunctuator text
      = s.lookahead.isPunctuator text := by
    rcases inside_or_endsOperand hend h with hin | ⟨he, he'⟩
    · exact hin.isPunctuator_eq text
    · rw [hno _ he, hno _ he']
  rw [hmark]
  cases hb : s.lookahead.isPunctuator text with
  | true =>
      rw [hb] at hp
      exact ht.lasts h hp
  | false =>
      rw [hb] at hp
      exact hf h hp

theorem shape_update {operator : UpdateOperator} {before : Bool}
    {e e' : Expression Span} (he : e'.shape = e.shape) (p p' : Span) :
    (Expression.update operator e' before p').shape
      = (Expression.update operator e before p).shape := by
  have he : e'.map (fun _ => ()) = e.map fun _ => () := he
  simp only [Expression.shape, Expression.map, he]

/-- An operator after a variable is the last token. -/
theorem stretches_updated {operator : UpdateOperator}
    {start start' : Position} {e e' : Expression Span}
    (he : e'.shape = e.shape) :
    Stretches tail Expression.shape
      (do
        Parse.requireAssignable e
        Parse.skip
        let span ← Parse.close .updateExpression start
        return .update operator e false span)
      (do
        Parse.requireAssignable e'
        Parse.skip
        let span ← Parse.close .updateExpression start'
        return .update operator e' false span) :=
  .stay (Simulation.simulates_requireAssignable he)
    (Parse.waits_requireAssignable e)
    fun _ _ _ => stretches_leaf (shape_update he)

section Operands

variable {inner inner' : Productions} (hend : EndsOperand tail)
  (h : (extension tail).Levels inner inner')

include hend h

/-- At the end there are no more calls. -/
theorem lasts_callsOf {start start' : Position} :
    ∀ {n m : Nat}, n ≤ m → ∀ {e e' : Expression Span},
      e'.shape = e.shape →
      Lasts tail Expression.shape (Parse.callsOf inner start n e)
        (Parse.callsOf inner' start' m e') := by
  intro n
  induction n with
  | zero =>
      intro m _ e e' _ s s' a u _ hp
      exact absurd hp Parse.exhausted_ok
  | succ n ih =>
      intro m hnm e e' he
      obtain ⟨m, rfl⟩ : ∃ k, m = k + 1 := ⟨m - 1, by omega⟩
      refine .isAt hend (fun t ht => ht.call) ?_ (.pure he)
      refine (closes_arguments h).bind fun l l' hl => ?_
      refine .close fun p p' => ih (by omega) ?_
      have harguments : l'.map (Expression.map fun _ => ())
          = l.map (Expression.map fun _ => ()) := hl
      have hcallee : e'.map (fun _ => ()) = e.map fun _ => () := he
      simp only [Expression.shape, Expression.map, Expression.mapAll_eq,
        hcallee, harguments]

theorem closes_call :
    Closes tail Expression.shape (Parse.call inner)
      (Parse.call inner') := by
  refine .before Simulation.simulates_lookahead fun t t' _ => ?_
  refine (closes_primary h).bind fun e e' he => ?_
  exact lasts_callsOf hend h h.depth he

omit h in
/-- At the end there is no operator after a variable. -/
theorem lasts_updated {start start' : Position} {e e' : Expression Span}
    (he : e'.shape = e.shape) :
    Lasts tail Expression.shape
      (do
        match (← Parse.lookahead).updateOperator?,
          ← Parse.afterLineBreak with
        | some operator, false =>
          Parse.requireAssignable e
          Parse.skip
          let span ← Parse.close .updateExpression start
          return .update operator e false span
        | _, _ => return e)
      (do
        match (← Parse.lookahead).updateOperator?,
          ← Parse.afterLineBreak with
        | some operator, false =>
          Parse.requireAssignable e'
          Parse.skip
          let span ← Parse.close .updateExpression start'
          return .update operator e' false span
        | _, _ => return e') := by
  intro s s' a u hs hp
  rw [Parse.lookahead_bind, Parse.afterLineBreak_bind] at hp ⊢
  rcases inside_or_endsOperand hend hs with hin | ⟨hends, hends'⟩
  · rw [View.updateOperator?_eq hin.view_eq,
      hin.lineBreak_eq]
    cases hoperator : s.lookahead.updateOperator? with
    | none =>
        rw [hoperator] at hp
        exact Lasts.pure he hs hp
    | some operator =>
        cases hbreak : s.lineBreak with
        | true =>
            rw [hoperator, hbreak] at hp
            exact Lasts.pure he hs hp
        | false =>
            rw [hoperator, hbreak] at hp
            exact stretches_updated he hin hp
  · rw [hends'.update]
    rw [hends.update] at hp
    exact Lasts.pure he hs hp

end Operands

-- ============================================================= levels

/-- The productions of operands at a level, with and without more
ahead. -/
structure OperandLevels (tail : List Word) (inner inner' : Productions) :
    Prop where
  levels : (extension tail).Levels inner inner'
  unary : Closes tail Expression.shape inner.unary inner'.unary
  power : Closes tail Expression.shape inner.power inner'.power

section Levels

variable {inner inner' : Productions} (hend : EndsOperand tail)
  (h : OperandLevels tail inner inner')

include hend h

theorem closes_update :
    Closes tail Expression.shape (Parse.update inner)
      (Parse.update inner') := by
  refine .before Simulation.simulates_lookahead fun t t' ht => ?_
  rw [View.updateOperator?_eq ht]
  cases t.updateOperator? with
  | some operator =>
      refine .before Simulation.simulates_skip fun _ _ _ => ?_
      refine h.unary.bind fun e e' he => ?_
      refine .require he ?_
      exact .close fun p p' => .pure (shape_update he p p')
  | none =>
      refine (closes_call hend h.levels).bind fun e e' he => ?_
      exact lasts_updated hend he

theorem closes_unary :
    Closes tail Expression.shape (Parse.unary inner)
      (Parse.unary inner') := by
  refine .before Simulation.simulates_lookahead fun t t' ht => ?_
  rw [View.unaryOperator?_eq ht]
  cases t.unaryOperator? with
  | some operator =>
      refine .before Simulation.simulates_skip fun _ _ _ => ?_
      refine h.unary.bind fun e e' he => .close fun p p' => .pure ?_
      have he : e'.map (fun _ => ()) = e.map fun _ => () := he
      simp only [Expression.shape, Expression.map, he]
  | none => exact closes_update hend h

theorem closes_power :
    Closes tail Expression.shape (Parse.power inner)
      (Parse.power inner') := by
  refine .before Simulation.simulates_lookahead fun t t' ht => ?_
  refine (closes_unary hend h).bind fun e e' he => .ite ?_ (.pure he) ?_
  · rw [Parse.isUnary_eq_of_map_eq he, View.isPunctuator_eq ht]
  · refine .isAt hend (fun t ht => ht.power) ?_ (.pure he)
    refine .before Simulation.simulates_skip fun _ _ _ => ?_
    refine h.power.bind fun r r' hr => .close fun p p' => .pure ?_
    have he : e'.map (fun _ => ()) = e.map fun _ => () := he
    have hr : r'.map (fun _ => ()) = r.map fun _ => () := hr
    simp only [Expression.shape, Expression.map, he, hr]

end Levels

/-- Every level reads operands alike with more after them, and so does
every higher one. -/
theorem operandLevels_ofDepth (hend : EndsOperand tail) {n m : Nat}
    (h : n ≤ m) :
    OperandLevels tail (Productions.ofDepth n) (Productions.ofDepth m) := by
  induction n generalizing m with
  | zero =>
      exact ⟨Simulation.levels_none,
        .of_fails fun _ _ _ => Parse.exhausted_ok,
        .of_fails fun _ _ _ => Parse.exhausted_ok⟩
  | succ n ih =>
      obtain ⟨m, rfl⟩ : ∃ k, m = k + 1 := ⟨m - 1, by omega⟩
      have hlevel := ih (Nat.le_of_succ_le_succ h)
      exact ⟨hlevel.levels.next, closes_unary hend hlevel,
        closes_power hend hlevel⟩

theorem Parse.runs_power (n : Nat) : (Parse.power (.ofDepth n)).Runs :=
  (Simulation.advances_power (Simulation.levels_ofDepth (extension [])
    (Nat.le_refl n))).runs

/-- An operand that is read is read alike with more after it, by all that
have at least as much work to spend. Either there is more ahead anyway,
or nothing goes on with it. -/
theorem Parse.power_extended {n m : Nat} {s s' u : ParseState}
    {e : Expression Span} (hnm : n ≤ m) (hs : Extended tail s s')
    (h : Parse.power (.ofDepth n) s = .ok e u)
    (hend : u.words ≠ [] ∨ EndsOperand tail) :
    ∃ e' u', Parse.power (.ofDepth m) s' = .ok e' u' ∧
      e'.shape = e.shape ∧ Extended tail u u' := by
  rcases hend with hu | hend
  · have hlevels := Simulation.levels_ofDepth (extension tail) hnm
    have hpower := Simulation.advances_power hlevels
    have hne : s.words ≠ [] := by
      intro hnil
      exact hu (Reaches.words_nil (runs_power n h) hs.sound hnil)
    obtain ⟨e', u', h', he, hin⟩ :=
      hpower.carries (hs.inside hne) h hu
    exact ⟨e', u', h', he, hin.extended⟩
  · exact (closes_power hend (operandLevels_ofDepth hend hnm)).lasts hs h

end ScriptTree
