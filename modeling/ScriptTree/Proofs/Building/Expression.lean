/-
The trees that expressions and functions build.

A production starts where its first token is looked at, and the node that
it completes starts with that token. Operands that wait on a stack were
built one after the other, each from where its own start is
(`Parse.StackBuilt`). An operation is completed over the last of them and
the operand at hand, and takes the place of both.
-/
import ScriptTree.Proofs.Building
import ScriptTree.Proofs.Yield.Expression

namespace ScriptTree

/-- Productions that build what they give. -/
structure Productions.Builds (inner : Productions) : Prop where
  assignment : inner.assignment.Builds true fun e => [e.outline]
  unary : inner.unary.Builds true fun e => [e.outline]
  power : inner.power.Builds true fun e => [e.outline]
  statement (jumps : Jumps) :
    (inner.statement jumps).Builds true fun s => [s.outline]
  item (jumps : Jumps) :
    (inner.item jumps).Builds true fun s => [s.outline]

namespace Parse

variable {inner : Productions} {s₀ : ParseState}

-- ======================================================== functions

/-- The nodes of a bound name. -/
theorem builds_boundName (allowsLet : Bool) :
    (boundName allowsLet).Builds true fun id => [id.outline] := by
  refine .shift fun s₀ => .ite (fun _ => ?_) fun _ => .unexpected
  exact .close fun span => .pure rfl

/-- The nodes of a parameter. -/
theorem builds_parameter (h : inner.Builds) :
    (parameter inner).Builds true fun p => [p.outline] := by
  refine .lookahead fun s₀ => .next (builds_boundName false) fun id => ?_
  refine .silent (.isAt "=") fun _ => .ite (fun _ => ?_) fun _ => .pure rfl
  refine .silent .skip fun _ => .next h.assignment fun value => ?_
  exact .close fun span => .pure rfl

/-- The nodes of the parameters of a function. -/
theorem builds_parameters (h : inner.Builds) :
    (parameters inner).Builds true (List.map Parameter.outline) :=
  builds_parenthesized (builds_parameter h) (.forget (.expect ",")) _

/-- The nodes of the body of a function. -/
theorem builds_functionBody (h : inner.Builds) :
    (functionBody inner).Builds true fun b => [b.outline] := by
  have hmore : (do return !(← lookahead).isEnd && !(← isAt "\x7d") :
      Parse Bool).BuildsNothing false :=
    .bind .lookahead fun _ => .bind (.isAt "\x7d") fun _ => .pure _
  refine .lookahead fun s₀ => .silent (.expect "\x7b") fun _ => ?_
  refine .next (builds_collectWhile hmore (h.item _) _) fun body => ?_
  refine .silent (.expect "\x7d") fun _ => .close fun span => .pure ?_
  simp [Block.outline]

/-- There is no node in the mark of a generator. -/
theorem builds_generatorStar : generatorStar.BuildsNothing false :=
  .bind (.isAt "*") fun _ => .ite (.bind .skip fun _ => .pure true)
    (.pure false)

/-- The nodes of the name of a function, which may be missing. -/
theorem builds_optionalName :
    optionalName.Builds false Identifier.outlineOption :=
  .before (.isAt "(") fun _ => .ite
    (fun _ => .of_at fun _ => .pure rfl)
    fun _ => ((builds_boundName false).map fun _ => rfl).forget

/-- The nodes of a function as a statement. -/
theorem builds_functionDeclaration (h : inner.Builds) :
    (functionDeclaration inner).Builds true
      fun fn => [fn.outline .functionDeclaration] := by
  refine .lookahead fun s₀ => .silent .skip fun _ => ?_
  refine .silent builds_generatorStar fun star => ?_
  refine .next (builds_boundName false) fun id => ?_
  refine .next (builds_parameters h) fun params => ?_
  refine .next (builds_functionBody h) fun body => ?_
  refine .close fun span => .pure ?_
  simp [Function.outline, Identifier.outlineOption]

/-- The nodes of a function as an expression. -/
theorem builds_functionExpression (h : inner.Builds) :
    (functionExpression inner).Builds true
      fun fn => [fn.outline .functionExpression] := by
  refine .lookahead fun s₀ => .silent .skip fun _ => ?_
  refine .silent builds_generatorStar fun star => ?_
  refine .next builds_optionalName fun id => ?_
  refine .next (builds_parameters h) fun params => ?_
  refine .next (builds_functionBody h) fun body => ?_
  refine .close fun span => .pure ?_
  simp [Function.outline]

-- ============================================== primary expressions

/-- There is no node in the test of what is assigned to. -/
theorem builds_requireAssignable (e : Expression Span) :
    (requireAssignable e).BuildsNothing false :=
  .ite (.pure ()) (.object (by decide))

/-- There is no node in what stands between two arguments. -/
theorem builds_argumentSeparator :
    argumentSeparator.BuildsNothing false := by
  have hobject (t : Token) :
      (objectTo t t.unexpected).BuildsNothing false :=
    .objectTo (unexpected_ne_escapedReserved t)
  refine .bind .isTolerant fun _ => .ite ?_ (.forget (.expect ","))
  refine .bind .lookahead fun t => .ite (.forget .skip) (.ite ?_ ?_)
  · exact .bind .skip fun _ => hobject t
  · exact .objectTo (unexpectedToken_ne_escapedReserved _)

/-- The nodes of the arguments of a call. -/
theorem builds_arguments (h : inner.Builds) :
    (arguments inner).Builds true (List.map Expression.outline) :=
  builds_parenthesized h.assignment builds_argumentSeparator _

/-- The nodes of the further items of a sequence. -/
theorem builds_furtherItems {item : Parse (Expression Span)}
    (h : item.Builds true fun e => [e.outline]) :
    (furtherItems inner item).Builds false
      (List.map Expression.outline) :=
  builds_collectWhile (.isAt ",") (.before .skip fun _ => h) _

/-- A sequence starts where its first item does. -/
theorem builds_sequenceOf (first : Expression Span)
    (further : List (Expression Span)) :
    BuildsAt s₀ true (first.outline :: further.map Expression.outline)
      (sequenceOf s₀.lookahead.span.start first further) true
      fun e => [e.outline] := by
  refine .ite (fun hnil => .pure ?_) fun _ => .close fun span => .pure ?_
  · rw [List.isEmpty_iff.1 hnil]
    rfl
  · simp [Expression.outline]

/-- The nodes of an expression in parentheses. -/
theorem builds_group (h : inner.Builds) :
    (group inner).Builds true fun e => [e.outline] := by
  refine .before (.expect "(") fun _ => .lookahead fun s₀ => ?_
  refine .ite (fun _ => ?_) fun _ => ?_
  · exact .silent .shift fun _ => .unexpected
  · refine .next h.assignment fun e => ?_
    refine .next (builds_furtherItems h.assignment) fun further => ?_
    refine .bind (builds_sequenceOf e further) fun e' => ?_
    exact .silent (.expect ")") fun _ => .pure rfl

/-- The nodes of a name, a literal, a group or a function. -/
theorem builds_primary (h : inner.Builds) :
    (primary inner).Builds true fun e => [e.outline] := by
  -- The cases differ in the expression, and in the kind of a leaf.
  refine .lookahead fun s₀ => ?_
  have hfails : BuildsAt s₀ false [] (shift >>= fun t => (unexpected t :
      Parse (Expression Span))) true fun e => [e.outline] :=
    .silent .shift fun _ => .unexpected
  have hleaf {kind : NodeKind} {leaf : Span → Expression Span}
      (hkind : ∀ span, (leaf span).outline = .node kind span []) :
      BuildsAt s₀ false [] (skip >>= fun _ =>
        close kind s₀.lookahead.span.start >>= fun span =>
          Pure.pure (leaf span)) true fun e => [e.outline] :=
    .silent .skip fun _ => .close fun span => .pure (by rw [hkind])
  cases s₀.lookahead.kind with
  | identifier => exact hleaf fun _ => rfl
  | numeric | string | boolean | null => exact hleaf fun _ => rfl
  | endOfInput => exact hfails
  | punctuator =>
      exact .ite (fun _ => .after (builds_group h)) fun _ => hfails
  | keyword =>
      refine .ite (fun _ => ?_) fun _ => .ite (fun _ => hleaf fun _ => rfl)
        fun _ => hfails
      exact .next (builds_functionExpression h) fun fn => .pure rfl

/-- Calls start where what is called does. -/
theorem builds_callsOf (h : inner.Builds) (steps : Nat)
    (callee : Expression Span) :
    BuildsAt s₀ true [callee.outline]
      (callsOf inner s₀.lookahead.span.start steps callee) true
      fun e => [e.outline] := by
  induction steps generalizing callee with
  | zero => exact .of_fails fun _ _ _ => exhausted_ok
  | succ steps ih =>
      refine .silent (.isAt "(") fun _ => .ite (fun _ => ?_) fun _ =>
        .pure rfl
      refine .next (builds_arguments h) fun args => .close fun span => ?_
      have hcall : (Expression.call callee args span).outline
          = .node .callExpression span
            (callee.outline :: args.map Expression.outline) := by
        simp [Expression.outline]
      rw [List.singleton_append, ← hcall]
      exact ih _

/-- The nodes of a value with its calls. -/
theorem builds_call (h : inner.Builds) :
    (call inner).Builds true fun e => [e.outline] :=
  .lookahead fun _ => .next (builds_primary h) fun callee =>
    builds_callsOf h _ callee

/-- The nodes of an operand with its update. -/
theorem builds_update (h : inner.Builds) :
    (update inner).Builds true fun e => [e.outline] := by
  refine .lookahead fun s₀ => ?_
  cases s₀.lookahead.updateOperator? with
  | some operator =>
      refine .silent .skip fun _ => .next h.unary fun argument => ?_
      refine .silent (builds_requireAssignable argument) fun _ => ?_
      exact .close fun span => .pure rfl
  | none =>
      refine .next (builds_call h) fun argument => ?_
      refine .silent .lookahead fun t => ?_
      refine .silent .afterLineBreak fun b => ?_
      split
      case h_2 => exact .pure rfl
      case h_1 =>
        refine .silent (builds_requireAssignable argument) fun _ => ?_
        exact .silent .skip fun _ => .close fun span => .pure rfl

/-- The nodes of an operand with the operators before it. -/
theorem builds_unary (h : inner.Builds) :
    (unary inner).Builds true fun e => [e.outline] := by
  refine .lookahead fun s₀ => ?_
  cases s₀.lookahead.unaryOperator? with
  | some operator =>
      refine .silent .skip fun _ => .next h.unary fun argument => ?_
      exact .close fun span => .pure rfl
  | none => exact .after (builds_update h)

/-- The nodes of a power. -/
theorem builds_power (h : inner.Builds) :
    (power inner).Builds true fun e => [e.outline] := by
  refine .lookahead fun s₀ => .next (builds_unary h) fun base => ?_
  refine .ite (fun _ => .pure rfl) fun _ => ?_
  refine .silent (.isAt "**") fun _ => ?_
  refine .ite (fun _ => ?_) fun _ => .pure rfl
  refine .silent .skip fun _ => .next h.power fun exponent => ?_
  exact .close fun span => .pure rfl

-- ====================================== operators between operands

/-- The operands of a stack were built between two states, the lowest one
first, each from where it starts. -/
inductive StackBuilt (s₀ : ParseState) :
    List Pending → ParseState → Prop where
  | nil : StackBuilt s₀ [] s₀
  | push {stack : List Pending} {pending : Pending}
      {s s' : ParseState} :
      StackBuilt s₀ stack s → pending.start = s.lookahead.span.start →
        s.Builds true [pending.left.outline] s' →
          StackBuilt s₀ (pending :: stack) s'

/-- An operation starts where its left operand does. -/
theorem builds_operation {pending : Pending} {right : Expression Span}
    (hstart : pending.start = s₀.lookahead.span.start) :
    BuildsAt s₀ true [pending.left.outline, right.outline]
      (operation pending right) true fun e => [e.outline] := by
  unfold operation
  rw [hstart]
  split
  · exact .close fun span => .pure rfl
  · exact .close fun span => .pure rfl

/-- Closing operations leaves an operand on a stack. -/
theorem reduce_stackBuilt {precedence : Nat} {stack : List Pending}
    {start : Position} {e : Expression Span} {s s₁ s' : ParseState}
    {r : List Pending × Position × Expression Span}
    (hstack : StackBuilt s₀ stack s)
    (hstart : start = s.lookahead.span.start)
    (he : s.Builds true [e.outline] s₁)
    (h : reduce precedence stack start e s₁ = .ok r s') :
    ∃ s, StackBuilt s₀ r.1 s ∧ r.2.1 = s.lookahead.span.start ∧
      s.Builds true [r.2.2.outline] s' := by
  induction stack generalizing start e s s₁ with
  | nil =>
      obtain ⟨rfl, rfl⟩ := pure_ok.1 h
      exact ⟨s, hstack, hstart, he⟩
  | cons pending stack ih =>
      unfold reduce at h
      split at h
      case isFalse =>
        obtain ⟨rfl, rfl⟩ := pure_ok.1 h
        exact ⟨s, hstack, hstart, he⟩
      case isTrue =>
        obtain ⟨e', s₂, hop, h⟩ := bind_ok.1 h
        cases hstack with
        | push hbelow hleft hbuilt =>
            exact ih hbelow hleft
              (builds_operation hleft (hbuilt.append he) hop) h

/-- The nodes of a chain of operations. -/
theorem builds_operations (h : inner.Builds) (steps : Nat)
    {stack : List Pending} {start : Position} {e e' : Expression Span}
    {s s₁ s' : ParseState} (hstack : StackBuilt s₀ stack s)
    (hstart : start = s.lookahead.span.start)
    (he : s.Builds true [e.outline] s₁)
    (hok : operations inner steps stack start e s₁ = .ok e' s') :
    s₀.Builds true [e'.outline] s' := by
  induction steps generalizing stack start e s s₁ with
  | zero => exact absurd hok exhausted_ok
  | succ steps ih =>
      unfold operations at hok
      rw [lookahead_bind] at hok
      cases hop : s₁.lookahead.infixOperator? with
      | none =>
          rw [hop] at hok
          obtain ⟨r, s₂, hreduce, hok⟩ := bind_ok.1 hok
          obtain ⟨rfl, rfl⟩ := pure_ok.1 hok
          obtain ⟨s₃, hstack', -, hbuilt⟩ :=
            reduce_stackBuilt hstack hstart he hreduce
          rw [reduce_zero hreduce] at hstack'
          cases hstack' with
          | nil => exact hbuilt
      | some operator =>
          rw [hop] at hok
          obtain ⟨⟨stack', start', left⟩, s₂, hreduce, hok⟩ :=
            bind_ok.1 hok
          obtain ⟨s₃, hstack', hstart', hbuilt⟩ :=
            reduce_stackBuilt hstack hstart he hreduce
          obtain ⟨_, s₄, hskip, hok⟩ := bind_ok.1 hok
          rw [lookahead_bind] at hok
          obtain ⟨right, s₅, hright, hok⟩ := bind_ok.1 hok
          have hnext : StackBuilt s₀
              (⟨left, operator, start'⟩ :: stack') s₄ :=
            .push hstack' hstart'
              (hbuilt.append (BuildsNothing.skip hskip))
          exact ih hnext rfl (builds_power h hright) hok

/-- The nodes of operands with the operators between them. -/
theorem builds_binary (h : inner.Builds) :
    (binary inner).Builds true fun e => [e.outline] := by
  refine .lookahead fun s₀ => .bind (.after (builds_power h)) fun e => ?_
  exact fun s e' s' hs hok => builds_operations h _ .nil rfl hs hok

/-- The nodes of a choice between two values. -/
theorem builds_conditional (h : inner.Builds) :
    (conditional inner).Builds true fun e => [e.outline] := by
  refine .lookahead fun s₀ => .next (builds_binary h) fun test => ?_
  refine .silent (.isAt "?") fun _ => .ite (fun _ => ?_) fun _ => .pure rfl
  refine .silent .skip fun _ => .next h.assignment fun consequent => ?_
  refine .silent (.expect ":") fun _ => ?_
  refine .next h.assignment fun alternate => ?_
  exact .close fun span => .pure rfl

/-- The nodes of an assignment. -/
theorem builds_assignment (h : inner.Builds) :
    (assignment inner).Builds true fun e => [e.outline] := by
  refine .lookahead fun s₀ => .next (builds_conditional h) fun left => ?_
  refine .silent .lookahead fun t => ?_
  cases t.assignmentOperator? with
  | none => exact .pure rfl
  | some operator =>
      refine .silent (builds_requireAssignable left) fun _ => ?_
      refine .silent .skip fun _ => .next h.assignment fun right => ?_
      exact .close fun span => .pure rfl

/-- The nodes of an expression, also of several items. -/
theorem builds_expression (h : inner.Builds) :
    (expression inner).Builds true fun e => [e.outline] := by
  refine .lookahead fun s₀ => .next (builds_assignment h) fun e => ?_
  have hitem := builds_assignment h
  refine .next (builds_furtherItems hitem) fun further => ?_
  exact builds_sequenceOf e further

end Parse

end ScriptTree
