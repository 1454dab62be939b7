/-
Expressions and functions in two runs that are compared.

# Levels

The productions that others refer to are compared level by level
(`Levels`); the right level may have the higher bound. Each production
is then simulated by itself over the right level, in the order of the
grammar, from the productions it is made of.

# Progress

All of these productions consume the lookahead before all else, so they
are compared as actions that advance.
-/
import ScriptTree.Proofs.Simulation

namespace ScriptTree

variable {π ρ : Type}

/-- Whether a value may be given to an expression does not depend on
places. -/
@[simp] theorem Expression.isAssignable_map (f : π → ρ) :
    ∀ e : Expression π, (e.map f).isAssignable = e.isAssignable
  | .identifier _ => rfl
  | .assignment operator left _ _ => by
      cases operator with
      | assign =>
          simp only [Expression.map, Expression.isAssignable]
          exact left.isAssignable_map f
      | _ => simp only [Expression.map, Expression.isAssignable]
  | .literal .. | .binary .. | .logical .. | .conditional .. | .call ..
  | .sequence .. | .unary .. | .update .. | .function _ => by
      simp only [Expression.map, Expression.isAssignable]

/-- Changing places makes no other expression a unary one. -/
theorem Parse.isUnary_eq_of_map_eq {f : Span → ρ}
    {e e' : Expression Span} (h : e'.map f = e.map f) :
    Parse.isUnary e' = Parse.isUnary e := by
  cases e <;> cases e' <;>
    simp_all [Expression.map, Parse.isUnary]

namespace View

variable {ω : Type} {observe : Position → ω} {t t' : Token}

/-- Tokens of one view stand for the same value. -/
theorem literalValue_eq (h : t'.view observe = t.view observe) :
    t'.literalValue = t.literalValue := by
  unfold Token.literalValue
  rw [kind_eq h, value_eq h, raw_eq h]

/-- Tokens of one view are the same punctuator. -/
theorem punctuator?_eq (h : t'.view observe = t.view observe) :
    t'.punctuator? = t.punctuator? := by
  unfold Token.punctuator?
  rw [kind_eq h, text?_eq h]

/-- Tokens of one view are the same operator between operands. -/
theorem infixOperator?_eq (h : t'.view observe = t.view observe) :
    t'.infixOperator? = t.infixOperator? := by
  unfold Token.infixOperator?
  rw [isKeyword_eq h, punctuator?_eq h]

/-- Tokens of one view are the same operator of an update. -/
theorem updateOperator?_eq (h : t'.view observe = t.view observe) :
    t'.updateOperator? = t.updateOperator? := by
  unfold Token.updateOperator?
  rw [punctuator?_eq h]

/-- Tokens of one view are the same operator before an operand. -/
theorem unaryOperator?_eq (h : t'.view observe = t.view observe) :
    t'.unaryOperator? = t.unaryOperator? := by
  unfold Token.unaryOperator?
  rw [punctuator?_eq h]

/-- Tokens of one view are the same operator that assigns. -/
theorem assignmentOperator?_eq
    (h : t'.view observe = t.view observe) :
    t'.assignmentOperator? = t.assignmentOperator? := by
  unfold Token.assignmentOperator?
  rw [punctuator?_eq h]

end View

namespace Simulation

open View

variable {ω ρ : Type} {M : Simulation ω ρ} {inner inner' : Productions}

/-- The productions of a level in two runs that are compared. -/
structure Levels (M : Simulation ω ρ) (inner inner' : Productions) :
    Prop where
  depth : inner.depth ≤ inner'.depth
  assignment : M.Advances (Expression.map M.place)
    inner.assignment inner'.assignment
  unary : M.Advances (Expression.map M.place) inner.unary inner'.unary
  power : M.Advances (Expression.map M.place) inner.power inner'.power
  statement (jumps : Jumps) : M.Advances (Statement.map M.place)
    (inner.statement jumps) (inner'.statement jumps)
  item (jumps : Jumps) : M.Advances (Statement.map M.place)
    (inner.item jumps) (inner'.item jumps)

-- ========================================================= functions

/-- Both read a bound name, and advance. -/
theorem advances_boundName (allowsLet : Bool) :
    M.Advances (Identifier.map M.place) (Parse.boundName allowsLet)
      (Parse.boundName allowsLet) := by
  refine advances_shift.bind fun t t' ht => ?_
  refine .ite ?_ ?_ advances_unexpected.toSimulates
  · rw [kind_eq ht, isKeyword_eq ht]
  · refine (simulates_close (start_eq ht)).bind fun p p' hp => .pure ?_
    rw [Identifier.map, Identifier.map, shown_eq ht, hp]

/-- Both read a parameter, and advance. -/
theorem advances_parameter (h : M.Levels inner inner') :
    M.Advances (Parameter.map M.place) (Parse.parameter inner)
      (Parse.parameter inner') := by
  refine .ofLookahead fun t t' ht => ?_
  refine (advances_boundName false).bind fun id id' hid => ?_
  refine simulates_isAt.bind fun b b' hb => .ite hb ?_ ?_
  · refine simulates_skip.andThen ?_
    refine h.assignment.toSimulates.bind fun e e' he => ?_
    refine (simulates_close (start_eq ht)).bind fun p p' hp => .pure ?_
    rw [Parameter.map, Parameter.map, hid, he, hp]
  · refine .pure ?_
    rw [Parameter.map, Parameter.map, hid]

/-- Both read the parameters of a function, and advance. -/
theorem advances_parameters (h : M.Levels inner inner') :
    M.Advances (List.map (Parameter.map M.place))
      (Parse.parameters inner) (Parse.parameters inner') :=
  advances_parenthesized (advances_parameter h).toSimulates
    simulates_expect h.depth

/-- Both read the body of a function, and advance. -/
theorem advances_functionBody (h : M.Levels inner inner') :
    M.Advances (Block.map M.place) (Parse.functionBody inner)
      (Parse.functionBody inner') := by
  refine .ofLookahead fun t t' ht => ?_
  refine advances_expect.andThen ?_
  refine (simulates_collectWhile ?_ (h.item .ofFunction).toSimulates
    h.depth).bind fun l l' hl => ?_
  · refine simulates_lookahead.bind fun n n' hn => ?_
    refine simulates_isAt.bind fun b b' hb => .pure ?_
    rw [isEnd_eq hn, show b' = b from hb]
  · refine simulates_expect.andThen ?_
    refine (simulates_close (start_eq ht)).bind fun p p' hp => .pure ?_
    simp only [Block.map, Statement.mapAll_eq, hl, hp]

/-- Both read the mark of a generator. -/
theorem simulates_generatorStar :
    M.Simulates id Parse.generatorStar Parse.generatorStar :=
  simulates_isAt.bind fun _ _ hb =>
    .ite hb (simulates_skip.andThen (.pure rfl)) (.pure rfl)

/-- Both read a function as a statement, and advance. -/
theorem advances_functionDeclaration (h : M.Levels inner inner') :
    M.Advances (Function.map M.place) (Parse.functionDeclaration inner)
      (Parse.functionDeclaration inner') := by
  refine .ofLookahead fun t t' ht => ?_
  refine advances_skip.andThen ?_
  refine simulates_generatorStar.bind fun g g' hg => ?_
  refine (advances_boundName false).toSimulates.bind fun id id' hid => ?_
  refine (advances_parameters h).toSimulates.bind fun l l' hl => ?_
  refine (advances_functionBody h).toSimulates.bind fun b b' hb => ?_
  refine (simulates_close (start_eq ht)).bind fun p p' hp => .pure ?_
  simp only [Function.map, Option.map_some, Parameter.mapAll_eq, hid, hl,
    hb, hp, show g' = g from hg]

/-- Both read the name of a function, which may be missing. -/
theorem simulates_optionalName :
    M.Simulates (Option.map (Identifier.map M.place)) Parse.optionalName
      Parse.optionalName := by
  refine simulates_isAt.bind fun b b' hb => .ite hb (.pure rfl) ?_
  refine (advances_boundName false).toSimulates.map fun id id' hid => ?_
  rw [Option.map_some, Option.map_some, hid]

/-- Both read a function as an expression, and advance. -/
theorem advances_functionExpression (h : M.Levels inner inner') :
    M.Advances (Function.map M.place) (Parse.functionExpression inner)
      (Parse.functionExpression inner') := by
  refine .ofLookahead fun t t' ht => ?_
  refine advances_skip.andThen ?_
  refine simulates_generatorStar.bind fun g g' hg => ?_
  refine simulates_optionalName.bind fun id id' hid => ?_
  refine (advances_parameters h).toSimulates.bind fun l l' hl => ?_
  refine (advances_functionBody h).toSimulates.bind fun b b' hb => ?_
  refine (simulates_close (start_eq ht)).bind fun p p' hp => .pure ?_
  simp only [Function.map, Parameter.mapAll_eq, hl, hb, hp,
    show g' = g from hg]
  rw [show id'.map (Identifier.map M.place)
    = id.map (Identifier.map M.place) from hid]

-- ================================== groups, literals, names and calls

/-- Both read the test of what is assigned to. -/
theorem simulates_requireAssignable {e e' : Expression Span}
    (h : e'.map M.place = e.map M.place) :
    M.Simulates id (Parse.requireAssignable e)
      (Parse.requireAssignable e') := by
  refine .ite ?_ (.pure rfl) simulates_object
  rw [← Expression.isAssignable_map M.place e', h,
    Expression.isAssignable_map]

/-- Both read the further items of a sequence. -/
theorem simulates_furtherItems (h : M.Levels inner inner')
    {item item' : Parse (Expression Span)}
    (hi : M.Simulates (Expression.map M.place) item item') :
    M.Simulates (List.map (Expression.map M.place))
      (Parse.furtherItems inner item) (Parse.furtherItems inner' item') :=
  simulates_collectWhile simulates_isAt (simulates_skip.andThen hi) h.depth

/-- Both read a sequence, or its only item. -/
theorem simulates_sequenceOf {start start' : Position}
    {first first' : Expression Span} {further further' : List _}
    (hs : M.observe start' = M.observe start)
    (hfirst : first'.map M.place = first.map M.place)
    (hfurther : further'.map (Expression.map M.place)
      = further.map (Expression.map M.place)) :
    M.Simulates (Expression.map M.place)
      (Parse.sequenceOf start first further)
      (Parse.sequenceOf start' first' further') := by
  have hempty : further'.isEmpty = further.isEmpty := by
    have hl := congrArg List.isEmpty hfurther
    rw [List.isEmpty_map, List.isEmpty_map] at hl
    exact hl
  refine .ite hempty (.pure hfirst) ?_
  refine (simulates_close hs).bind fun p p' hp => .pure ?_
  simp only [Expression.map, Expression.mapAll_eq, List.map_cons, hfirst,
    hfurther, hp]

/-- Both read an expression in parentheses, and advance. -/
theorem advances_group (h : M.Levels inner inner') :
    M.Advances (Expression.map M.place) (Parse.group inner)
      (Parse.group inner') := by
  refine advances_expect.andThen ?_
  refine simulates_lookahead.bind fun t t' ht => ?_
  refine .ite (isPunctuator_eq ht ")") ?_ ?_
  · exact advances_shift.toSimulates.bind fun _ _ _ =>
      advances_unexpected.toSimulates
  · refine h.assignment.toSimulates.bind fun e e' he => ?_
    refine (simulates_furtherItems h h.assignment.toSimulates).bind
      fun l l' hl => ?_
    refine (simulates_sequenceOf (start_eq ht) he hl).bind
      fun g g' hg => ?_
    exact simulates_expect.andThen (.pure hg)

/-- A production that consumes one token and closes a node on it. -/
theorem advances_leaf {kind : NodeKind} {start start' : Position}
    {f g : Span → Expression Span}
    (hs : M.observe start' = M.observe start)
    (hf : ∀ p p', M.place p' = M.place p →
      (g p').map M.place = (f p).map M.place) :
    M.Advances (Expression.map M.place)
      (Parse.skip >>= fun _ => Parse.close kind start >>=
        fun p => pure (f p))
      (Parse.skip >>= fun _ => Parse.close kind start' >>=
        fun p => pure (g p)) :=
  advances_skip.andThen <| (simulates_close hs).bind
    fun p p' hp => .pure (hf p p' hp)

/-- Both read a name, a literal, a group or a function, and advance. -/
theorem advances_primary (h : M.Levels inner inner') :
    M.Advances (Expression.map M.place) (Parse.primary inner)
      (Parse.primary inner') := by
  refine .ofLookahead fun t t' ht => ?_
  have hname : ∀ p p', M.place p' = M.place p →
      (Expression.identifier ⟨t'.shown, p'⟩).map M.place
        = (Expression.identifier ⟨t.shown, p⟩).map M.place := by
    intro p p' hp
    simp only [Expression.map, Identifier.map, shown_eq ht, hp]
  have hliteral : ∀ p p', M.place p' = M.place p →
      (Expression.literal t'.literalValue t'.raw p').map M.place
        = (Expression.literal t.literalValue t.raw p).map M.place := by
    intro p p' hp
    simp only [Expression.map, literalValue_eq ht, raw_eq ht, hp]
  have hother : M.Advances (Expression.map M.place)
      (Parse.shift >>= Parse.unexpected)
      (Parse.shift >>= Parse.unexpected) :=
    advances_shift.bind fun _ _ _ => advances_unexpected.toSimulates
  rw [kind_eq ht]
  cases t.kind with
  | identifier => exact advances_leaf (start_eq ht) hname
  | numeric | string | boolean | null =>
      exact advances_leaf (start_eq ht) hliteral
  | punctuator =>
      exact .ite (isPunctuator_eq ht "(") (advances_group h) hother
  | keyword =>
      refine .ite (isKeyword_eq ht "function") ?_
        (.ite (isKeyword_eq ht "let") ?_ hother)
      · refine (advances_functionExpression h).bind fun f f' hf => .pure ?_
        rw [Expression.map, Expression.map, hf]
      · exact advances_leaf (start_eq ht) hname
  | endOfInput => exact hother

/-- Both read the calls of a value. -/
theorem simulates_callsOf (h : M.Levels inner inner')
    {start start' : Position} (hs : M.observe start' = M.observe start) :
    ∀ {n m : Nat}, n ≤ m → ∀ {e e' : Expression Span},
      e'.map M.place = e.map M.place →
      M.Simulates (Expression.map M.place) (Parse.callsOf inner start n e)
        (Parse.callsOf inner' start' m e') := by
  intro n
  induction n with
  | zero =>
      intro m _ e e' _
      exact advances_exhausted.toSimulates
  | succ n ih =>
      intro m hnm e e' he
      obtain ⟨m, rfl⟩ : ∃ k, m = k + 1 := ⟨m - 1, by omega⟩
      refine simulates_isAt.bind fun b b' hb => .ite hb ?_ (.pure he)
      have hargs : M.Advances (List.map (Expression.map M.place))
          (Parse.arguments inner) (Parse.arguments inner') :=
        advances_parenthesized h.assignment.toSimulates
          simulates_argumentSeparator h.depth
      refine hargs.toSimulates.bind fun l l' hl => ?_
      refine (simulates_close hs).bind fun p p' hp => ih (by omega) ?_
      simp only [Expression.map, Expression.mapAll_eq, he, hl, hp]

/-- Both read a value with its calls, and advance. -/
theorem advances_call (h : M.Levels inner inner') :
    M.Advances (Expression.map M.place) (Parse.call inner)
      (Parse.call inner') := by
  refine .ofLookahead fun t t' ht => ?_
  refine (advances_primary h).bind fun e e' he => ?_
  exact simulates_callsOf h (start_eq ht) h.depth he

-- ========================================================= operators

/-- Both read an operand with its update, and advance. -/
theorem advances_update (h : M.Levels inner inner') :
    M.Advances (Expression.map M.place) (Parse.update inner)
      (Parse.update inner') := by
  refine .ofLookahead fun t t' ht => ?_
  rw [updateOperator?_eq ht]
  cases t.updateOperator? with
  | some operator =>
      refine advances_skip.andThen ?_
      refine h.unary.toSimulates.bind fun e e' he => ?_
      refine (simulates_requireAssignable he).andThen ?_
      refine (simulates_close (start_eq ht)).bind fun p p' hp => .pure ?_
      simp only [Expression.map, he, hp]
  | none =>
      refine (advances_call h).bind fun e e' he => ?_
      refine simulates_lookahead.bind fun n n' hn => ?_
      refine simulates_afterLineBreak.bind fun b b' hb => ?_
      obtain rfl : b' = b := hb
      rw [updateOperator?_eq hn]
      rcases n.updateOperator? with _ | operator
      · exact .pure he
      · cases b' with
        | true => exact .pure he
        | false =>
            refine (simulates_requireAssignable he).andThen ?_
            refine simulates_skip.andThen ?_
            refine (simulates_close (start_eq ht)).bind
              fun p p' hp => .pure ?_
            simp only [Expression.map, he, hp]

/-- Both read an operand with the operators before it, and advance. -/
theorem advances_unary (h : M.Levels inner inner') :
    M.Advances (Expression.map M.place) (Parse.unary inner)
      (Parse.unary inner') := by
  refine .ofLookahead fun t t' ht => ?_
  rw [unaryOperator?_eq ht]
  cases t.unaryOperator? with
  | some operator =>
      refine advances_skip.andThen ?_
      refine h.unary.toSimulates.bind fun e e' he => ?_
      refine (simulates_close (start_eq ht)).bind fun p p' hp => .pure ?_
      simp only [Expression.map, he, hp]
  | none => exact advances_update h

/-- Both read a power, and advance. -/
theorem advances_power (h : M.Levels inner inner') :
    M.Advances (Expression.map M.place) (Parse.power inner)
      (Parse.power inner') := by
  refine .ofLookahead fun t t' ht => ?_
  refine (advances_unary h).bind fun e e' he => .ite ?_ (.pure he) ?_
  · rw [Parse.isUnary_eq_of_map_eq he, isPunctuator_eq ht]
  · refine simulates_isAt.bind fun b b' hb => .ite hb ?_ (.pure he)
    refine simulates_skip.andThen ?_
    refine h.power.toSimulates.bind fun r r' hr => ?_
    refine (simulates_close (start_eq ht)).bind fun p p' hp => .pure ?_
    simp only [Expression.map, he, hr, hp]

/-- A waiting operand as far as it is compared. -/
def pending (M : Simulation ω ρ) (p : Parse.Pending) :
    Expression ρ × InfixOperator × ω :=
  (p.left.map M.place, p.operator, M.observe p.start)

/-- Both read a single operation. -/
theorem simulates_operation {p p' : Parse.Pending}
    {e e' : Expression Span} (hp : M.pending p' = M.pending p)
    (he : e'.map M.place = e.map M.place) :
    M.Simulates (Expression.map M.place) (Parse.operation p e)
      (Parse.operation p' e') := by
  obtain ⟨left, operator, start⟩ := p
  obtain ⟨left', operator', start'⟩ := p'
  simp only [pending, Prod.mk.injEq] at hp
  obtain ⟨hl, rfl, hs⟩ := hp
  cases operator' with
  | binary operator =>
      refine (simulates_close hs).bind fun q q' hq => .pure ?_
      simp only [Expression.map, hl, he, hq]
  | logical operator =>
      refine (simulates_close hs).bind fun q q' hq => .pure ?_
      simp only [Expression.map, hl, he, hq]

/-- What a reduction gives, as far as it is compared. -/
def reduced (M : Simulation ω ρ)
    (r : List Parse.Pending × Position × Expression Span) :
    List (Expression ρ × InfixOperator × ω) × ω ×
      Expression ρ :=
  (r.1.map M.pending, M.observe r.2.1, r.2.2.map M.place)

/-- Both read the operations that are closed. -/
theorem simulates_reduce {precedence : Nat} :
    ∀ {stack stack' : List Parse.Pending} {start start' : Position}
      {e e' : Expression Span},
      stack'.map M.pending = stack.map M.pending →
      M.observe start' = M.observe start →
      e'.map M.place = e.map M.place →
      M.Simulates M.reduced (Parse.reduce precedence stack start e)
        (Parse.reduce precedence stack' start' e') := by
  intro stack
  induction stack with
  | nil =>
      intro stack' start start' e e' hst hs he
      obtain rfl : stack' = [] := List.map_eq_nil_iff.1 hst
      exact .pure (by simp only [reduced, hs, he])
  | cons p stack ih =>
      intro stack' start start' e e' hst hs he
      obtain ⟨p', stack', rfl, hp, hst⟩ := List.map_eq_cons_iff.1 hst
      have hop : p'.operator = p.operator := congrArg (·.2.1) hp
      have hstart : M.observe p'.start = M.observe p.start :=
        congrArg (·.2.2) hp
      unfold Parse.reduce
      rw [hop]
      split
      · refine (simulates_operation hp he).bind fun r r' hr => ?_
        exact ih hst hstart hr
      · refine .pure ?_
        simp only [reduced, List.map_cons, hp, hst, hs, he]

/-- Both read a chain of operations. -/
theorem simulates_operations (h : M.Levels inner inner') :
    ∀ {n m : Nat}, n ≤ m → ∀ {stack stack' : List Parse.Pending}
      {start start' : Position} {e e' : Expression Span},
      stack'.map M.pending = stack.map M.pending →
      M.observe start' = M.observe start →
      e'.map M.place = e.map M.place →
      M.Simulates (Expression.map M.place)
        (Parse.operations inner n stack start e)
        (Parse.operations inner' m stack' start' e') := by
  intro n
  induction n with
  | zero =>
      intros
      exact advances_exhausted.toSimulates
  | succ n ih =>
      intro m hnm stack stack' start start' e e' hst hs he
      obtain ⟨m, rfl⟩ : ∃ k, m = k + 1 := ⟨m - 1, by omega⟩
      refine simulates_lookahead.bind fun t t' ht => ?_
      rw [infixOperator?_eq ht]
      cases t.infixOperator? with
      | none =>
          refine (simulates_reduce hst hs he).bind fun r r' hr => .pure ?_
          exact congrArg (·.2.2) hr
      | some operator =>
          refine (simulates_reduce hst hs he).bind fun r r' hr => ?_
          obtain ⟨rst, rs, re⟩ := r
          obtain ⟨rst', rs', re'⟩ := r'
          simp only [reduced, Prod.mk.injEq] at hr
          obtain ⟨hrst, hrs, hre⟩ := hr
          refine simulates_skip.andThen ?_
          refine simulates_lookahead.bind fun n n' hn => ?_
          refine (advances_power h).toSimulates.bind fun q q' hq => ?_
          refine ih (by omega) ?_ (start_eq hn) hq
          simp only [List.map_cons, pending, hrst, hrs, hre]

/-- Both read operands with the operators between them, and advance. -/
theorem advances_binary (h : M.Levels inner inner') :
    M.Advances (Expression.map M.place) (Parse.binary inner)
      (Parse.binary inner') := by
  refine .ofLookahead fun t t' ht => ?_
  refine (advances_power h).bind fun e e' he => ?_
  exact simulates_operations h h.depth rfl (start_eq ht) he

/-- Both read a choice between two values, and advance. -/
theorem advances_conditional (h : M.Levels inner inner') :
    M.Advances (Expression.map M.place) (Parse.conditional inner)
      (Parse.conditional inner') := by
  refine .ofLookahead fun t t' ht => ?_
  refine (advances_binary h).bind fun e e' he => ?_
  refine simulates_isAt.bind fun b b' hb => .ite hb ?_ (.pure he)
  refine simulates_skip.andThen ?_
  refine h.assignment.toSimulates.bind fun c c' hc => ?_
  refine simulates_expect.andThen ?_
  refine h.assignment.toSimulates.bind fun a a' ha => ?_
  refine (simulates_close (start_eq ht)).bind fun p p' hp => .pure ?_
  simp only [Expression.map, he, hc, ha, hp]

/-- Both read an assignment, and advance. -/
theorem advances_assignment (h : M.Levels inner inner') :
    M.Advances (Expression.map M.place) (Parse.assignment inner)
      (Parse.assignment inner') := by
  refine .ofLookahead fun t t' ht => ?_
  refine (advances_conditional h).bind fun e e' he => ?_
  refine simulates_lookahead.bind fun n n' hn => ?_
  rw [assignmentOperator?_eq hn]
  cases n.assignmentOperator? with
  | none => exact .pure he
  | some operator =>
      refine (simulates_requireAssignable he).andThen ?_
      refine simulates_skip.andThen ?_
      refine h.assignment.toSimulates.bind fun r r' hr => ?_
      refine (simulates_close (start_eq ht)).bind fun p p' hp => .pure ?_
      simp only [Expression.map, he, hr, hp]

/-- Both read an expression, also of several items, and advance. -/
theorem advances_expression (h : M.Levels inner inner') :
    M.Advances (Expression.map M.place) (Parse.expression inner)
      (Parse.expression inner') := by
  refine .ofLookahead fun t t' ht => ?_
  refine (advances_assignment h).bind fun e e' he => ?_
  refine (simulates_furtherItems h (advances_assignment h).toSimulates).bind
    fun l l' hl => ?_
  exact simulates_sequenceOf (start_eq ht) he hl

end Simulation

end ScriptTree
