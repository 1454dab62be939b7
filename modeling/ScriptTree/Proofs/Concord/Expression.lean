/-
Expressions and functions in two runs that come to the same end.

# Levels

A production refers to those one level further in only after it has
consumed a token, so these need one level less (`Concord.Levels`). Each
production is then compared with itself over the other levels, in the
order of the grammar, from the productions it is made of. Where one is
used after a token was consumed, it goes on within the bound that is left
(`Goes.of_consumes`).
-/
import ScriptTree.Proofs.Concord
import ScriptTree.Proofs.Simulation.Expression

namespace ScriptTree

namespace Concord

open View

variable {ω ρ δ : Type} {M : Concord ω ρ δ} {inner inner' : Productions}
  {b o : Bool} {n m : Nat}

/-- The productions of two levels, both of which are enough for less than
`n` tokens. -/
structure Levels (M : Concord ω ρ δ) (n : Nat)
    (inner inner' : Productions) : Prop where
  depth : n ≤ inner.depth
  depth' : n ≤ inner'.depth
  assignment : ∀ m < n, M.Consumes m (Expression.map M.place)
    inner.assignment inner'.assignment
  unary : ∀ m < n, M.Consumes m (Expression.map M.place)
    inner.unary inner'.unary
  power : ∀ m < n, M.Consumes m (Expression.map M.place)
    inner.power inner'.power
  statement : ∀ m < n, ∀ jumps, M.Consumes m (Statement.map M.place)
    (inner.statement jumps) (inner'.statement jumps)
  item : ∀ m < n, ∀ jumps, M.Consumes m (Statement.map M.place)
    (inner.item jumps) (inner'.item jumps)

namespace Levels

/-- What is enough for some tokens is enough for fewer. -/
theorem mono (h : M.Levels n inner inner') (hmn : m ≤ n) :
    M.Levels m inner inner' where
  depth := Nat.le_trans hmn h.depth
  depth' := Nat.le_trans hmn h.depth'
  assignment k hk := h.assignment k (Nat.lt_of_lt_of_le hk hmn)
  unary k hk := h.unary k (Nat.lt_of_lt_of_le hk hmn)
  power k hk := h.power k (Nat.lt_of_lt_of_le hk hmn)
  statement k hk := h.statement k (Nat.lt_of_lt_of_le hk hmn)
  item k hk := h.item k (Nat.lt_of_lt_of_le hk hmn)

/-- Both go on alike over an assignment. -/
theorem goes_assignment (h : M.Levels n inner inner') :
    M.Goes n (Expression.map M.place) inner.assignment
      inner'.assignment := .of_consumes h.assignment

/-- Both go on alike over an operand with the operators before it. -/
theorem goes_unary (h : M.Levels n inner inner') :
    M.Goes n (Expression.map M.place) inner.unary inner'.unary :=
  .of_consumes h.unary

/-- Both go on alike over a power. -/
theorem goes_power (h : M.Levels n inner inner') :
    M.Goes n (Expression.map M.place) inner.power inner'.power :=
  .of_consumes h.power

/-- Both go on alike over a statement. -/
theorem goes_statement (h : M.Levels n inner inner') (jumps : Jumps) :
    M.Goes n (Statement.map M.place) (inner.statement jumps)
      (inner'.statement jumps) :=
  .of_consumes fun m hm => h.statement m hm jumps

/-- A production made of those of these levels goes on. -/
theorem goes {α γ : Type} {v : α → γ} {p q : Parse α}
    (h : M.Levels n inner inner')
    (hp : ∀ m, M.Levels m inner inner' → M.Consumes m v p q) :
    M.Goes n v p q :=
  .of_consumes fun m hm => hp m (h.mono (Nat.le_of_lt hm))

end Levels

-- ========================================================= functions

/-- Both consume a bound name alike. -/
theorem consumes_boundName (allowsLet : Bool) :
    M.Consumes n (Identifier.map M.place) (Parse.boundName allowsLet)
      (Parse.boundName allowsLet) := by
  apply Agrees.shifted
  · intro t t' ht _
    apply Agrees.ite
    · rw [kind_eq ht, isKeyword_eq ht]
    · apply (agrees_close (start_eq ht)).bind
      intro p p' hp
      apply Agrees.pure
      rw [Identifier.map, Identifier.map, shown_eq ht, hp]
    · exact agrees_unexpected ht
  · intro t t' ht hend
    have hkind : t.kind = .endOfInput := by simpa [Token.isEnd] using hend
    rw [kind_eq ht, isKeyword_eq ht, not_isKeyword_of_isEnd hend, hkind,
      Bool.and_false]
    exact agrees_unexpected ht

/-- Both go on alike over a bound name. -/
theorem goes_boundName (allowsLet : Bool) :
    M.Goes n (Identifier.map M.place) (Parse.boundName allowsLet)
      (Parse.boundName allowsLet) :=
  .of_consumes fun _ _ => consumes_boundName allowsLet

/-- Both consume a parameter alike. -/
theorem consumes_parameter (h : M.Levels n inner inner') :
    M.Consumes n (Parameter.map M.place) (Parse.parameter inner)
      (Parse.parameter inner') := by
  apply agrees_lookahead.bind
  intro t t' ht
  apply (consumes_boundName false).bind
  intro id id' hid
  apply agrees_isAt.bind
  intro c c' hc
  apply Agrees.ite hc
  · apply goes_skip.andThen
    apply h.goes_assignment.bind
    intro e e' he
    apply (agrees_close (start_eq ht)).bind
    intro p p' hp
    apply Agrees.pure
    rw [Parameter.map, Parameter.map, hid, he, hp]
  · apply Agrees.pure
    rw [Parameter.map, Parameter.map, hid]

/-- Both go on alike over the parameters of a function. -/
theorem goes_parameters (h : M.Levels n inner inner') :
    M.Goes n (List.map (Parameter.map M.place)) (Parse.parameters inner)
      (Parse.parameters inner') :=
  h.goes fun _ h => consumes_parenthesized
    (fun _ hm => consumes_parameter (h.mono (Nat.le_of_lt hm)))
    (fun _ => goes_expect) h.depth h.depth'

/-- The statements of a body, as many as there are. -/
theorem agrees_items (h : M.Levels n inner inner') (jumps : Jumps)
    {more more' : Parse Bool}
    (hm : ∀ n, M.Agrees (M.At b false n) (M.At b false n) id more more')
    {steps steps' : Nat} (hsteps : n ≤ steps) (hsteps' : n ≤ steps') :
    M.Agrees (M.At b false n) (M.At b false n)
      (List.map (Statement.map M.place))
      (Parse.collectWhile more (inner.item jumps) steps)
      (Parse.collectWhile more' (inner'.item jumps) steps') :=
  agrees_collectWhile hm (fun m hm => (h.item m hm jumps).runs) hsteps
    hsteps'

/-- Both agree about whether a body goes on. -/
theorem agrees_moreInBody {stop : String} :
    M.Agrees (M.At b o n) (M.At b o n) id
      (Parse.lookahead >>= fun t => Parse.isAt stop >>= fun c =>
        pure (!t.isEnd && !c))
      (Parse.lookahead >>= fun t => Parse.isAt stop >>= fun c =>
        pure (!t.isEnd && !c)) := by
  apply agrees_lookahead.bind
  intro t t' ht
  apply agrees_isAt.bind
  intro c c' hc
  apply Agrees.pure
  rw [isEnd_eq ht, show c' = c from hc]

/-- Both go on alike over the body of a function. -/
theorem goes_functionBody (h : M.Levels n inner inner') :
    M.Goes n (Block.map M.place) (Parse.functionBody inner)
      (Parse.functionBody inner') := by
  apply agrees_lookahead.bind
  intro t t' ht
  apply goes_expect.andThen
  apply (agrees_items h .ofFunction (fun _ => agrees_moreInBody) h.depth
    h.depth').bind
  intro l l' hl
  apply goes_expect.andThen
  apply (agrees_close (start_eq ht)).bind
  intro p p' hp
  apply Agrees.pure
  simp only [Block.map, Statement.mapAll_eq, hl, hp]

/-- Both go on alike over the mark of a generator. -/
theorem goes_generatorStar :
    M.Goes n id Parse.generatorStar Parse.generatorStar := by
  apply agrees_isAt.bind
  intro c c' hc
  exact .ite hc (goes_skip.andThen (.pure rfl)) (.pure rfl)

/-- Both open a function as a statement alike. -/
theorem opens_functionDeclaration (h : M.Levels n inner inner') :
    M.Opens n (Function.map M.place) (Parse.functionDeclaration inner)
      (Parse.functionDeclaration inner') := by
  apply agrees_lookahead.bind
  intro t t' ht
  apply opens_skip.andThen
  apply goes_generatorStar.bind
  intro g g' hg
  apply (goes_boundName false).bind
  intro id id' hid
  apply (goes_parameters h).bind
  intro l l' hl
  apply (goes_functionBody h).bind
  intro body body' hbody
  apply (agrees_close (start_eq ht)).bind
  intro p p' hp
  apply Agrees.pure
  simp only [Function.map, Option.map_some, Parameter.mapAll_eq, hid, hl,
    hbody, hp, show g' = g from hg]

/-- Both go on alike over the name of a function, which may be missing. -/
theorem goes_optionalName :
    M.Goes n (Option.map (Identifier.map M.place)) Parse.optionalName
      Parse.optionalName := by
  apply agrees_isAt.bind
  intro c c' hc
  apply Agrees.ite hc (.pure rfl)
  apply (goes_boundName false).map
  intro id id' hid
  rw [Option.map_some, Option.map_some, hid]

/-- Both open a function as an expression alike. -/
theorem opens_functionExpression (h : M.Levels n inner inner') :
    M.Opens n (Function.map M.place) (Parse.functionExpression inner)
      (Parse.functionExpression inner') := by
  apply agrees_lookahead.bind
  intro t t' ht
  apply opens_skip.andThen
  apply goes_generatorStar.bind
  intro g g' hg
  apply goes_optionalName.bind
  intro id id' hid
  apply (goes_parameters h).bind
  intro l l' hl
  apply (goes_functionBody h).bind
  intro body body' hbody
  apply (agrees_close (start_eq ht)).bind
  intro p p' hp
  apply Agrees.pure
  simp only [Function.map, Parameter.mapAll_eq, hl, hbody, hp,
    show g' = g from hg]
  rw [show id'.map (Identifier.map M.place)
    = id.map (Identifier.map M.place) from hid]

-- ================================== groups, literals, names and calls

/-- Both agree about the test of what is assigned to. -/
theorem agrees_requireAssignable {e e' : Expression Span}
    (h : e'.map M.place = e.map M.place) :
    M.Agrees (M.At b o n) (M.At b o n) id (Parse.requireAssignable e)
      (Parse.requireAssignable e') := by
  apply Agrees.ite _ (.pure rfl) agrees_object
  rw [← Expression.isAssignable_map M.place e', h,
    Expression.isAssignable_map]

/-- More of what consumes, with a comma before each. -/
theorem goes_afterCommas {α γ : Type} {v : α → γ} {item item' : Parse α}
    (hi : ∀ m < n, M.Consumes m v item item') {steps steps' : Nat}
    (hsteps : n ≤ steps) (hsteps' : n ≤ steps') :
    M.Goes n (List.map v)
      (Parse.collectWhile (Parse.isAt ",")
        (Parse.skip >>= fun _ => item) steps)
      (Parse.collectWhile (Parse.isAt ",")
        (Parse.skip >>= fun _ => item') steps') :=
  agrees_collectWhile (fun _ => agrees_isAt)
    (fun m hm => goes_skip.andThen (hi m hm).runs) hsteps hsteps'

/-- Both go on alike over the further items of a sequence. -/
theorem goes_furtherItems (h : M.Levels n inner inner')
    {item item' : Parse (Expression Span)}
    (hi : ∀ m < n, M.Consumes m (Expression.map M.place) item item') :
    M.Goes n (List.map (Expression.map M.place))
      (Parse.furtherItems inner item)
      (Parse.furtherItems inner' item') :=
  goes_afterCommas hi h.depth h.depth'

/-- Both go on alike over a sequence, or its only item. -/
theorem goes_sequenceOf {start start' : Position}
    {first first' : Expression Span} {further further' : List _}
    (hs : M.observe start' = M.observe start)
    (hfirst : first'.map M.place = first.map M.place)
    (hfurther : further'.map (Expression.map M.place)
      = further.map (Expression.map M.place)) :
    M.Goes n (Expression.map M.place)
      (Parse.sequenceOf start first further)
      (Parse.sequenceOf start' first' further') := by
  have hempty : further'.isEmpty = further.isEmpty := by
    have hl := congrArg List.isEmpty hfurther
    rw [List.isEmpty_map, List.isEmpty_map] at hl
    exact hl
  apply Agrees.ite hempty (.pure hfirst)
  apply (agrees_close hs).bind
  intro p p' hp
  apply Agrees.pure
  simp only [Expression.map, Expression.mapAll_eq, List.map_cons, hfirst,
    hfurther, hp]

/-- A token that cannot start anything is consumed and refused. -/
theorem agrees_shiftUnexpected {α γ : Type} {v : α → γ}
    {Q : ParseState → ParseState → Prop} :
    M.Agrees (M.At b o n) Q v (Parse.shift >>= Parse.unexpected)
      (Parse.shift >>= Parse.unexpected) :=
  agrees_shift.bind fun _ _ ht => agrees_unexpected ht

/-- Both consume an expression in parentheses alike. -/
theorem consumes_group (h : M.Levels n inner inner') :
    M.Consumes n (Expression.map M.place) (Parse.group inner)
      (Parse.group inner') := by
  apply consumes_expect.andThen
  apply agrees_lookahead.bind
  intro t t' ht
  apply Agrees.ite (isPunctuator_eq ht ")") agrees_shiftUnexpected
  apply h.goes_assignment.bind
  intro e e' he
  apply (goes_furtherItems h h.assignment).bind
  intro l l' hl
  apply (goes_sequenceOf (start_eq ht) he hl).bind
  intro g g' hg
  exact goes_expect.andThen (.pure hg)

/-- A production that consumes one token and closes a node on it. -/
theorem opens_leaf {kind : NodeKind} {start start' : Position}
    {f g : Span → Expression Span}
    (hs : M.observe start' = M.observe start)
    (hf : ∀ p p', M.place p' = M.place p →
      (g p').map M.place = (f p).map M.place) :
    M.Opens n (Expression.map M.place)
      (Parse.skip >>= fun _ => Parse.close kind start >>=
        fun p => pure (f p))
      (Parse.skip >>= fun _ => Parse.close kind start' >>=
        fun p => pure (g p)) := by
  apply opens_skip.andThen
  apply (agrees_close hs).bind
  exact fun p p' hp => .pure (hf p p' hp)

/-- Both consume a name, a literal, a group or a function alike. -/
theorem consumes_primary (h : M.Levels n inner inner') :
    M.Consumes n (Expression.map M.place) (Parse.primary inner)
      (Parse.primary inner') := by
  apply Agrees.facing
  intro t t' ht
  have hname : ∀ p p', M.place p' = M.place p →
      (Expression.identifier ⟨t'.shown, p'⟩).map M.place
        = (Expression.identifier ⟨t.shown, p⟩).map M.place := by
    intro p p' hp
    simp only [Expression.map, Identifier.map, shown_eq ht, hp]
  have hliteral : ∀ p p', M.place p' = M.place p →
      (Expression.literal t'.literalValue t'.raw p').map M.place
        = (Expression.literal t.literalValue t.raw p).map M.place := by
    intro p p' hp
    simp only [Expression.map, literalValue_eq ht, raw_eq ht, hp]
  rw [kind_eq ht, Token.isEnd]
  cases t.kind with
  | identifier => exact opens_leaf (start_eq ht) hname
  | numeric | string | boolean | null =>
      exact opens_leaf (start_eq ht) hliteral
  | punctuator =>
      exact .ite (isPunctuator_eq ht "(") (consumes_group h).opens
        agrees_shiftUnexpected
  | keyword =>
      apply Agrees.ite (isKeyword_eq ht "function")
      · apply (opens_functionExpression h).bind
        intro f f' hf
        apply Agrees.pure
        rw [Expression.map, Expression.map, hf]
      · exact .ite (isKeyword_eq ht "let") (opens_leaf (start_eq ht) hname)
          agrees_shiftUnexpected
  | endOfInput => exact agrees_shiftUnexpected

/-- Both consume the arguments of a call alike. -/
theorem consumes_arguments (h : M.Levels n inner inner') :
    M.Consumes n (List.map (Expression.map M.place))
      (Parse.arguments inner) (Parse.arguments inner') :=
  consumes_parenthesized h.assignment (fun _ => goes_argumentSeparator)
    h.depth h.depth'

/-- Every call takes a token at least. -/
theorem goes_callsOf (h : M.Levels n inner inner')
    {start start' : Position} (hs : M.observe start' = M.observe start) :
    ∀ {steps steps' : Nat}, n ≤ steps → n ≤ steps' →
      ∀ {e e' : Expression Span}, e'.map M.place = e.map M.place →
      M.Goes n (Expression.map M.place)
        (Parse.callsOf inner start steps e)
        (Parse.callsOf inner' start' steps' e') := by
  induction n with
  | zero => exact fun _ _ _ _ _ => .zero
  | succ n ih =>
      intro steps steps' hsteps hsteps' e e' he
      obtain ⟨steps, rfl⟩ : ∃ k, steps = k + 1 := ⟨steps - 1, by omega⟩
      obtain ⟨steps', rfl⟩ : ∃ k, steps' = k + 1 := ⟨steps' - 1, by omega⟩
      have hless := h.mono (Nat.le_succ n)
      apply agrees_isAt.bind
      intro c c' hc
      apply Agrees.ite hc
      case hf => exact .pure he
      apply (consumes_arguments hless).runs.bind
      intro l l' hl
      apply (agrees_close hs).bind
      intro p p' hp
      apply (ih hless (by omega) (by omega) _).weaken (fun _ _ hs => hs)
        fun _ _ hs => hs.weaken (Nat.le_succ n)
      simp only [Expression.map, Expression.mapAll_eq, he, hl, hp]

/-- Both consume a value with its calls alike. -/
theorem consumes_call (h : M.Levels n inner inner') :
    M.Consumes n (Expression.map M.place) (Parse.call inner)
      (Parse.call inner') := by
  apply agrees_lookahead.bind
  intro t t' ht
  apply (consumes_primary h).bind
  intro e e' he
  exact goes_callsOf h (start_eq ht) h.depth h.depth' he

-- ========================================================= operators

/-- An operator is a token. -/
theorem not_isEnd_of_punctuator? {t : Token} {text : String}
    (h : t.punctuator? = some text) : t.isEnd = false := by
  unfold Token.punctuator? at h
  split at h
  case isFalse => cases h
  case isTrue hkind => simp [Token.isEnd, hkind]

/-- The operator of an update is a token. -/
theorem not_isEnd_of_updateOperator? {t : Token}
    {operator : UpdateOperator} (h : t.updateOperator? = some operator) :
    t.isEnd = false := by
  obtain ⟨text, htext, -⟩ := Option.bind_eq_some_iff.1 h
  exact not_isEnd_of_punctuator? htext

/-- An operator before an operand is a token. -/
theorem not_isEnd_of_unaryOperator? {t : Token}
    {operator : UnaryOperator} (h : t.unaryOperator? = some operator) :
    t.isEnd = false := by
  obtain ⟨text, htext, -⟩ := Option.bind_eq_some_iff.1 h
  exact not_isEnd_of_punctuator? htext

/-- Both consume an operand with its update alike. -/
theorem consumes_update (h : M.Levels n inner inner') :
    M.Consumes n (Expression.map M.place) (Parse.update inner)
      (Parse.update inner') := by
  apply Agrees.facing
  intro t t' ht
  rw [updateOperator?_eq ht]
  cases hoperator : t.updateOperator? with
  | some operator =>
      rw [not_isEnd_of_updateOperator? hoperator]
      apply opens_skip.andThen
      apply h.goes_unary.bind
      intro e e' he
      apply (agrees_requireAssignable he).andThen
      apply (agrees_close (start_eq ht)).bind
      intro p p' hp
      apply Agrees.pure
      simp only [Expression.map, he, hp]
  | none =>
      apply Agrees.unopened
      apply (consumes_call h).bind
      intro e e' he
      apply agrees_lookahead.bind
      intro next next' hnext
      apply goes_afterLineBreak.bind
      intro c c' hc
      obtain rfl : c' = c := hc
      rw [updateOperator?_eq hnext]
      rcases next.updateOperator? with _ | operator
      · exact .pure he
      · cases c' with
        | true => exact .pure he
        | false =>
            apply (agrees_requireAssignable he).andThen
            apply goes_skip.andThen
            apply (agrees_close (start_eq ht)).bind
            intro p p' hp
            apply Agrees.pure
            simp only [Expression.map, he, hp]

/-- Both consume an operand with the operators before it alike. -/
theorem consumes_unary (h : M.Levels n inner inner') :
    M.Consumes n (Expression.map M.place) (Parse.unary inner)
      (Parse.unary inner') := by
  apply Agrees.facing
  intro t t' ht
  rw [unaryOperator?_eq ht]
  cases hoperator : t.unaryOperator? with
  | some operator =>
      rw [not_isEnd_of_unaryOperator? hoperator]
      apply opens_skip.andThen
      apply h.goes_unary.bind
      intro e e' he
      apply (agrees_close (start_eq ht)).bind
      intro p p' hp
      apply Agrees.pure
      simp only [Expression.map, he, hp]
  | none => exact .unopened (consumes_update h)

/-- Both consume a power alike. -/
theorem consumes_power (h : M.Levels n inner inner') :
    M.Consumes n (Expression.map M.place) (Parse.power inner)
      (Parse.power inner') := by
  apply agrees_lookahead.bind
  intro t t' ht
  apply (consumes_unary h).bind
  intro e e' he
  apply Agrees.ite _ (.pure he)
  · apply agrees_isAt.bind
    intro c c' hc
    apply Agrees.ite hc
    case hf => exact .pure he
    apply goes_skip.andThen
    apply h.goes_power.bind
    intro r r' hr
    apply (agrees_close (start_eq ht)).bind
    intro p p' hp
    apply Agrees.pure
    simp only [Expression.map, he, hr, hp]
  · rw [Parse.isUnary_eq_of_map_eq he, isPunctuator_eq ht]

/-- A waiting operand as far as it is compared. -/
def pending (M : Concord ω ρ δ) (p : Parse.Pending) :
    Expression ρ × InfixOperator × ω :=
  (p.left.map M.place, p.operator, M.observe p.start)

/-- Both go on alike over a single operation. -/
theorem goes_operation {p p' : Parse.Pending} {e e' : Expression Span}
    (hp : M.pending p' = M.pending p)
    (he : e'.map M.place = e.map M.place) :
    M.Goes n (Expression.map M.place) (Parse.operation p e)
      (Parse.operation p' e') := by
  obtain ⟨left, operator, start⟩ := p
  obtain ⟨left', operator', start'⟩ := p'
  simp only [pending, Prod.mk.injEq] at hp
  obtain ⟨hl, rfl, hs⟩ := hp
  cases operator' with
  | binary operator =>
      apply (agrees_close hs).bind
      intro q q' hq
      apply Agrees.pure
      simp only [Expression.map, hl, he, hq]
  | logical operator =>
      apply (agrees_close hs).bind
      intro q q' hq
      apply Agrees.pure
      simp only [Expression.map, hl, he, hq]

/-- What a reduction gives, as far as it is compared. -/
def reduced (M : Concord ω ρ δ)
    (r : List Parse.Pending × Position × Expression Span) :
    List (Expression ρ × InfixOperator × ω) × ω × Expression ρ :=
  (r.1.map M.pending, M.observe r.2.1, r.2.2.map M.place)

/-- Both go on alike over the operations that are closed. -/
theorem goes_reduce {precedence : Nat} :
    ∀ {stack stack' : List Parse.Pending} {start start' : Position}
      {e e' : Expression Span},
      stack'.map M.pending = stack.map M.pending →
      M.observe start' = M.observe start →
      e'.map M.place = e.map M.place →
      M.Goes n M.reduced (Parse.reduce precedence stack start e)
        (Parse.reduce precedence stack' start' e') := by
  intro stack
  induction stack with
  | nil =>
      intro stack' start start' e e' hst hs he
      obtain rfl : stack' = [] := List.map_eq_nil_iff.1 hst
      exact .pure (by simp only [reduced, hs, he])
  | cons p stack ih =>
      intro stack' start start' e e' hst hs he
      obtain ⟨p', stack', rfl, hp, hst⟩ := List.map_eq_cons_iff.1 hst
      have hop : p'.operator = p.operator := congrArg (·.2.1) hp
      have hstart : M.observe p'.start = M.observe p.start :=
        congrArg (·.2.2) hp
      unfold Parse.reduce
      rw [hop]
      split
      · apply (goes_operation hp he).bind
        intro r r' hr
        exact ih hst hstart hr
      · apply Agrees.pure
        simp only [reduced, List.map_cons, hp, hst, hs, he]

/-- Every operation takes a token at least. -/
theorem goes_operations (h : M.Levels n inner inner') :
    ∀ {steps steps' : Nat}, n ≤ steps → n ≤ steps' →
      ∀ {stack stack' : List Parse.Pending} {start start' : Position}
        {e e' : Expression Span},
      stack'.map M.pending = stack.map M.pending →
      M.observe start' = M.observe start →
      e'.map M.place = e.map M.place →
      M.Goes n (Expression.map M.place)
        (Parse.operations inner steps stack start e)
        (Parse.operations inner' steps' stack' start' e') := by
  induction n with
  | zero => exact fun _ _ _ _ _ _ _ _ _ _ _ => .zero
  | succ n ih =>
      intro steps steps' hsteps hsteps' stack stack' start start' e e' hst
        hs he
      obtain ⟨steps, rfl⟩ : ∃ k, steps = k + 1 := ⟨steps - 1, by omega⟩
      obtain ⟨steps', rfl⟩ : ∃ k, steps' = k + 1 := ⟨steps' - 1, by omega⟩
      have hless := h.mono (Nat.le_succ n)
      apply agrees_lookahead.bind
      intro t t' ht
      rw [infixOperator?_eq ht]
      cases t.infixOperator? with
      | none =>
          apply (goes_reduce hst hs he).bind
          intro r r' hr
          exact .pure (congrArg (·.2.2) hr)
      | some operator =>
          apply (goes_reduce hst hs he).bind
          intro r r' hr
          obtain ⟨rst, rs, re⟩ := r
          obtain ⟨rst', rs', re'⟩ := r'
          simp only [reduced, Prod.mk.injEq] at hr
          obtain ⟨hrst, hrs, hre⟩ := hr
          apply goes_skip.andThen
          apply agrees_lookahead.bind
          intro next next' hnext
          apply (consumes_power hless).runs.bind
          intro q q' hq
          apply (ih hless (by omega) (by omega) _ (start_eq hnext)
            hq).weaken (fun _ _ hs => hs)
              fun _ _ hs => hs.weaken (Nat.le_succ n)
          simp only [List.map_cons, pending, hrst, hrs, hre]

/-- Both consume operands with the operators between them alike. -/
theorem consumes_binary (h : M.Levels n inner inner') :
    M.Consumes n (Expression.map M.place) (Parse.binary inner)
      (Parse.binary inner') := by
  apply agrees_lookahead.bind
  intro t t' ht
  apply (consumes_power h).bind
  intro e e' he
  exact goes_operations h h.depth h.depth' rfl (start_eq ht) he

/-- Both consume a choice between two values alike. -/
theorem consumes_conditional (h : M.Levels n inner inner') :
    M.Consumes n (Expression.map M.place) (Parse.conditional inner)
      (Parse.conditional inner') := by
  apply agrees_lookahead.bind
  intro t t' ht
  apply (consumes_binary h).bind
  intro e e' he
  apply agrees_isAt.bind
  intro c c' hc
  apply Agrees.ite hc
  case hf => exact .pure he
  apply goes_skip.andThen
  apply h.goes_assignment.bind
  intro l l' hl
  apply goes_expect.andThen
  apply h.goes_assignment.bind
  intro r r' hr
  apply (agrees_close (start_eq ht)).bind
  intro p p' hp
  apply Agrees.pure
  simp only [Expression.map, he, hl, hr, hp]

/-- Both consume an assignment alike. -/
theorem consumes_assignment (h : M.Levels n inner inner') :
    M.Consumes n (Expression.map M.place) (Parse.assignment inner)
      (Parse.assignment inner') := by
  apply agrees_lookahead.bind
  intro t t' ht
  apply (consumes_conditional h).bind
  intro e e' he
  apply agrees_lookahead.bind
  intro next next' hnext
  rw [assignmentOperator?_eq hnext]
  cases next.assignmentOperator? with
  | none => exact .pure he
  | some operator =>
      apply (agrees_requireAssignable he).andThen
      apply goes_skip.andThen
      apply h.goes_assignment.bind
      intro r r' hr
      apply (agrees_close (start_eq ht)).bind
      intro p p' hp
      apply Agrees.pure
      simp only [Expression.map, he, hr, hp]

/-- Both consume an expression, also of several items alike. -/
theorem consumes_expression (h : M.Levels n inner inner') :
    M.Consumes n (Expression.map M.place) (Parse.expression inner)
      (Parse.expression inner') := by
  apply agrees_lookahead.bind
  intro t t' ht
  apply (consumes_assignment h).bind
  intro e e' he
  apply (goes_furtherItems h fun m hm =>
    consumes_assignment (h.mono (Nat.le_of_lt hm))).bind
  intro l l' hl
  exact goes_sequenceOf (start_eq ht) he hl

/-- Both go on alike over an expression, also of several items. -/
theorem goes_expression (h : M.Levels n inner inner') :
    M.Goes n (Expression.map M.place) (Parse.expression inner)
      (Parse.expression inner') :=
  h.goes fun _ => consumes_expression

end Concord

end ScriptTree
