/-
The order of what names, functions and expressions record.

An expression clears whatever was found up to the end of its first token:
it consumes that token before it finds anything itself. What it finds
later is found at the end of what was consumed last, but for a comma that
is missing between arguments. That is found at the token in its place,
which the next argument or the parenthesis clears.
-/
import ScriptTree.Proofs.Order

namespace ScriptTree

open ParseState

/-- The productions one level further in keep the order. -/
structure Productions.Ordered [NameProperties]
    (text : List Char) (inner : Productions) : Prop where
  assignment : inner.assignment.Clears text
  unary : inner.unary.Clears text
  power : inner.power.Clears text
  statement (jumps : Jumps) : (inner.statement jumps).Begins text
  item (jumps : Jumps) : (inner.item jumps).Begins text

namespace Parse

variable {text : List Char} {inner : Productions}

-- ============================================================ functions

/-- A covered state is settled after a bound name. -/
theorem clears_boundName [NameProperties] (allowsLet : Bool) :
    (boundName allowsLet).Clears text :=
  clears_shift.bind fun _ => .ite (continues_close.bind fun _ => .pure)
    carries_unexpected

/-- A name that is bound is what was consumed last. -/
theorem behind_boundName [NameProperties]
    {allowsLet : Bool} {s s' : ParseState}
    {id : Identifier Span} (hs : s.Settled text)
    (h : boundName allowsLet s = .ok id s') :
    ∃ t, s'.Behind text t ∧ id.place.start = t.span.start := by
  obtain ⟨t, s₁, hshift, h⟩ := bind_ok.1 h
  split at h
  case isFalse => exact absurd h unexpected_ok
  case isTrue =>
    obtain ⟨span, s₂, hclose, h⟩ := bind_ok.1 h
    obtain ⟨rfl, rfl⟩ := pure_ok.1 h
    obtain ⟨rfl, rfl⟩ := close_ok.1 hclose
    exact ⟨t, (hs.shift hshift).of_events _, rfl⟩

/-- A covered state is settled after a parameter. -/
theorem clears_parameter [NameProperties] (h : inner.Ordered text) :
    (parameter inner).Clears text := by
  refine .lookahead fun _ => (clears_boundName false).bind fun _ =>
    .isAt fun _ => .ite ?_ .pure
  exact clears_skip.continues.bind fun _ => h.assignment.continues.bind
    fun _ => continues_close.bind fun _ => .pure

/-- A covered state is settled after the parameters of a function. -/
theorem clears_parameters [NameProperties] (h : inner.Ordered text) :
    (parameters inner).Clears text :=
  clears_parenthesized (clears_parameter h) clears_expect.continues.covers _

/-- A covered state is settled after the body of a function. -/
theorem clears_functionBody [NameProperties] (h : inner.Ordered text) :
    (functionBody inner).Clears text := by
  refine .lookahead fun _ => clears_expect.bind fun _ => ?_
  refine (carries_collectWhile
    (.lookahead fun _ => .isAt fun _ => .pure) (h.item _).goesOn _).bind
      fun _ => ?_
  exact clears_expect.continues.bind fun _ => continues_close.bind
    fun _ => .pure

/-- A settled state stays settled over the mark of a generator. -/
theorem continues_generatorStar [NameProperties] :
    generatorStar.Continues text :=
  .isAt fun _ => .ite (clears_skip.continues.bind fun _ => .pure) .pure

/-- A settled state stays settled over the name of a function, which may be
missing. -/
theorem continues_optionalName [NameProperties] :
    optionalName.Continues text :=
  .isAt fun _ => .ite .pure (clears_boundName false).continues.map

/-- A covered state is settled after a function as a statement. -/
theorem clears_functionDeclaration [NameProperties] (h : inner.Ordered text) :
    (functionDeclaration inner).Clears text := by
  refine .lookahead fun _ => clears_skip.bind fun _ =>
    continues_generatorStar.bind fun _ => ?_
  refine (clears_boundName false).continues.bind fun _ =>
    (clears_parameters h).continues.bind fun _ => ?_
  exact (clears_functionBody h).continues.bind fun _ =>
    continues_close.bind fun _ => .pure

/-- A covered state is settled after a function as an expression. -/
theorem clears_functionExpression [NameProperties] (h : inner.Ordered text) :
    (functionExpression inner).Clears text := by
  refine .lookahead fun _ => clears_skip.bind fun _ =>
    continues_generatorStar.bind fun _ => ?_
  refine continues_optionalName.bind fun _ =>
    (clears_parameters h).continues.bind fun _ => ?_
  exact (clears_functionBody h).continues.bind fun _ =>
    continues_close.bind fun _ => .pure

-- =================================================== primary expressions

/-- A settled state stays settled over the test of what is assigned to. -/
theorem continues_requireAssignable [NameProperties] (e : Expression Span) :
    (requireAssignable e).Continues text :=
  .ite .pure (continues_object nofun)

/-- A semicolon is found after it was consumed, and any other token in
place of a comma before that. -/
theorem carries_argumentSeparator [NameProperties] :
    Carries (Settled text) argumentSeparator (Covered text) := by
  refine .isTolerant fun _ => .ite ?_ clears_expect.continues.covers
  have hother (s : ParseState) (hs : s.Settled text) (u : Unit)
      (s' : ParseState) (h : objectTo s.lookahead
        (.unexpectedToken s.lookahead.shown) s = .ok u s') :
      s'.Covered text := by
    obtain ⟨-, rfl⟩ := tolerate_ok.1 h
    exact hs.record_ahead
  intro s u s' hs h
  rw [lookahead_bind] at h
  split at h
  case isTrue => exact clears_skip.continues.covers hs h
  case isFalse =>
    split at h
    case isFalse => exact hother s hs u s' h
    case isTrue =>
      obtain ⟨_, s₁, hskip, h⟩ := bind_ok.1 h
      have hbehind := hs.shift (skip_ok.1 hskip)
      exact (carries_objectTo (unexpected_ne_escapedReserved _) hbehind
        h).toCalm.covered

/-- A covered state is settled after the arguments of a call. -/
theorem clears_arguments [NameProperties] (h : inner.Ordered text) :
    (arguments inner).Clears text :=
  clears_parenthesized h.assignment carries_argumentSeparator _

/-- A settled state stays settled over the further items of a sequence. -/
theorem continues_furtherItems [NameProperties]
    {item : Parse (Expression Span)}
    (h : item.Clears text) : (furtherItems inner item).Continues text :=
  carries_collectWhile carries_isAt
    (clears_skip.continues.bind fun _ => h.continues) _

/-- A settled state stays settled over a sequence, or its only item. -/
theorem continues_sequenceOf [NameProperties]
    (start : Position) (first : Expression Span)
    (further : List (Expression Span)) :
    (sequenceOf start first further).Continues text :=
  .ite .pure (continues_close.bind fun _ => .pure)

/-- A covered state is settled after an expression in parentheses. -/
theorem clears_group [NameProperties] (h : inner.Ordered text) :
    (group inner).Clears text := by
  refine clears_expect.bind fun _ => .lookahead fun _ => .ite
    clears_unexpectedNext.continues ?_
  refine h.assignment.continues.bind fun _ =>
    (continues_furtherItems h.assignment).bind fun _ => ?_
  exact (continues_sequenceOf _ _ _).bind fun _ =>
    clears_expect.continues.bind fun _ => .pure

/-- A covered state is settled after a name, a literal, a group or a
function. -/
theorem clears_primary [NameProperties] (h : inner.Ordered text) :
    (primary inner).Clears text := by
  refine .lookahead fun first => ?_
  have hleaf {kind : NodeKind} {f : Span → Expression Span} :
      (skip >>= fun _ => close kind first.span.start >>= fun span =>
        pure (f span)).Clears text :=
    clears_skip.bind fun _ => continues_close.bind fun _ => .pure
  cases first.kind with
  | identifier | numeric | string | boolean | null => exact hleaf
  | endOfInput => exact clears_unexpectedNext
  | punctuator => exact .ite (clears_group h) clears_unexpectedNext
  | keyword =>
      exact .ite ((clears_functionExpression h).bind fun _ => .pure)
        (.ite hleaf clears_unexpectedNext)

/-- A settled state stays settled over the calls of a value. -/
theorem continues_callsOf [NameProperties]
    (h : inner.Ordered text) (start : Position)
    (steps : Nat) (callee : Expression Span) :
    (callsOf inner start steps callee).Continues text := by
  induction steps generalizing callee with
  | zero => exact carries_exhausted
  | succ steps ih =>
      exact .isAt fun _ => .ite ((clears_arguments h).continues.bind
        fun _ => continues_close.bind fun _ => ih _) .pure

/-- A covered state is settled after a value with its calls. -/
theorem clears_call [NameProperties]
    (h : inner.Ordered text) : (call inner).Clears text :=
  .lookahead fun _ => (clears_primary h).bind fun _ =>
    continues_callsOf h _ _ _

-- ============================================================ operators

/-- A covered state is settled after an operand with its update. -/
theorem clears_update [NameProperties] (h : inner.Ordered text) :
    (update inner).Clears text := by
  refine .lookahead fun first => ?_
  cases first.updateOperator? with
  | some operator =>
      exact clears_skip.bind fun _ => h.unary.continues.bind fun _ =>
        (continues_requireAssignable _).bind fun _ =>
          continues_close.bind fun _ => .pure
  | none =>
      refine (clears_call h).bind fun e => .lookahead fun next =>
        .afterLineBreak fun newLine => ?_
      cases next.updateOperator? with
      | none => exact .pure
      | some operator =>
          cases newLine with
          | true => exact .pure
          | false =>
              exact (continues_requireAssignable e).bind fun _ =>
                clears_skip.continues.bind fun _ => continues_close.bind
                  fun _ => .pure

/-- A covered state is settled after an operand with the operators before
it. -/
theorem clears_unary [NameProperties] (h : inner.Ordered text) :
    (unary inner).Clears text := by
  refine .lookahead fun first => ?_
  cases first.unaryOperator? with
  | none => exact clears_update h
  | some operator =>
      exact clears_skip.bind fun _ => h.unary.continues.bind fun _ =>
        continues_close.bind fun _ => .pure

/-- A covered state is settled after a power. -/
theorem clears_power [NameProperties] (h : inner.Ordered text) :
    (power inner).Clears text := by
  refine .lookahead fun _ => (clears_unary h).bind fun _ => .ite .pure
    (.isAt fun _ => .ite ?_ .pure)
  exact clears_skip.continues.bind fun _ => h.power.continues.bind
    fun _ => continues_close.bind fun _ => .pure

/-- A settled state stays settled over a single operation. -/
theorem continues_operation [NameProperties] (pending : Pending)
    (right : Expression Span) :
    (operation pending right).Continues text := by
  unfold operation
  cases pending.operator with
  | binary operator | logical operator =>
      exact continues_close.bind fun _ => .pure

/-- A settled state stays settled over the operations that are closed. -/
theorem continues_reduce [NameProperties]
    (precedence : Nat) (stack : List Pending)
    (start : Position) (e : Expression Span) :
    (reduce precedence stack start e).Continues text := by
  induction stack generalizing start e with
  | nil => exact .pure
  | cons pending stack ih =>
      exact .ite ((continues_operation _ _).bind fun _ => ih _ _) .pure

/-- A settled state stays settled over a chain of operations. -/
theorem continues_operations [NameProperties]
    (h : inner.Ordered text) (steps : Nat)
    (stack : List Pending) (start : Position) (e : Expression Span) :
    (operations inner steps stack start e).Continues text := by
  induction steps generalizing stack start e with
  | zero => exact carries_exhausted
  | succ steps ih =>
      refine .lookahead fun t => ?_
      cases t.infixOperator? with
      | none => exact (continues_reduce _ _ _ _).bind fun _ => .pure
      | some operator =>
          refine (continues_reduce _ _ _ _).bind fun _ =>
            clears_skip.continues.bind fun _ => .lookahead fun _ => ?_
          exact (clears_power h).continues.bind fun _ => ih _ _ _

/-- A covered state is settled after operands with the operators between
them. -/
theorem clears_binary [NameProperties] (h : inner.Ordered text) :
    (binary inner).Clears text :=
  .lookahead fun _ => (clears_power h).bind fun _ =>
    continues_operations h _ _ _ _

/-- A covered state is settled after a choice between two values. -/
theorem clears_conditional [NameProperties] (h : inner.Ordered text) :
    (conditional inner).Clears text := by
  refine .lookahead fun _ => (clears_binary h).bind fun _ =>
    .isAt fun _ => .ite ?_ .pure
  refine clears_skip.continues.bind fun _ => h.assignment.continues.bind
    fun _ => clears_expect.continues.bind fun _ => ?_
  exact h.assignment.continues.bind fun _ => continues_close.bind
    fun _ => .pure

/-- A covered state is settled after an assignment. -/
theorem clears_assignment [NameProperties] (h : inner.Ordered text) :
    (assignment inner).Clears text := by
  refine .lookahead fun _ => (clears_conditional h).bind fun left =>
    .lookahead fun t => ?_
  cases t.assignmentOperator? with
  | none => exact .pure
  | some operator =>
      exact (continues_requireAssignable left).bind fun _ =>
        clears_skip.continues.bind fun _ => h.assignment.continues.bind
          fun _ => continues_close.bind fun _ => .pure

/-- A covered state is settled after an expression, also of several items.
-/
theorem clears_expression [NameProperties] (h : inner.Ordered text) :
    (expression inner).Clears text :=
  .lookahead fun _ => (clears_assignment h).bind fun _ =>
    (continues_furtherItems (clears_assignment h)).bind fun _ =>
      continues_sequenceOf _ _ _

end Parse

end ScriptTree
