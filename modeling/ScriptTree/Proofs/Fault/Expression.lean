/-
The faults of expressions and functions.

Every production of an expression records the faults of the tree that it
gives, in order, whatever is around it: an expression has no jumps but
those in the functions in it, and what these may refer to starts anew
with their bodies (`Jumps.within_ofFunction`). Operands that wait on a
stack have recorded their faults before the operand at hand.
-/
import ScriptTree.Proofs.Fault
import ScriptTree.Proofs.Simulation.Expression
import ScriptTree.Proofs.Yield.Expression

namespace ScriptTree

variable {π : Type}

-- ================================================== lists in a tree

@[simp] theorem Expression.sitesAll_eq (around : List Enclosure)
    (l : List (Expression π)) :
    Expression.sitesAll around l = l.flatMap (·.sites around) := by
  induction l with
  | nil => rfl
  | cons e rest ih => rw [Expression.sitesAll, ih, List.flatMap_cons]

@[simp] theorem Parameter.sitesAll_eq (around : List Enclosure)
    (l : List (Parameter π)) :
    Parameter.sitesAll around l = l.flatMap (·.sites around) := by
  induction l with
  | nil => rfl
  | cons p rest ih => rw [Parameter.sitesAll, ih, List.flatMap_cons]

@[simp] theorem Declarator.sitesAll_eq (around : List Enclosure)
    (l : List (Declarator π)) :
    Declarator.sitesAll around l = l.flatMap (·.sites around) := by
  induction l with
  | nil => rfl
  | cons d rest ih => rw [Declarator.sitesAll, ih, List.flatMap_cons]

@[simp] theorem Statement.sitesAll_eq (around : List Enclosure)
    (l : List (Statement π)) :
    Statement.sitesAll around l = l.flatMap (·.sites around) := by
  induction l with
  | nil => rfl
  | cons s rest ih => rw [Statement.sitesAll, ih, List.flatMap_cons]

-- ============================================================= jumps

/-- What jumps may refer to is what is around them. -/
structure Jumps.Within (jumps : Jumps) (around : List Enclosure) :
    Prop where
  inFunction : jumps.inFunction = true ↔ .function ∈ around
  inLoop : jumps.inLoop = true ↔ .loop ∈ ownFunction around
  labels (name : String) :
    jumps.labels.contains name = true ↔ .label name ∈ ownFunction around

namespace Jumps

variable {jumps : Jumps} {around : List Enclosure}

/-- At the start nothing is around. -/
theorem within_ofScript : ofScript.Within [] where
  inFunction := by simp [ofScript]
  inLoop := by simp [ofScript, ownFunction]
  labels name := by simp [ofScript, ownFunction]

/-- A function hides what is around it. -/
theorem within_ofFunction (around : List Enclosure) :
    ofFunction.Within (.function :: around) where
  inFunction := by simp [ofFunction]
  inLoop := by simp [ofFunction, ownFunction]
  labels name := by simp [ofFunction, ownFunction]

/-- A loop is one more enclosure. -/
theorem Within.loop (h : jumps.Within around) :
    jumps.loop.Within (.loop :: around) where
  inFunction := by simp [Jumps.loop, h.inFunction]
  inLoop := by simp [Jumps.loop, ownFunction]
  labels name := by
    rw [Jumps.loop, h.labels]
    simp [ownFunction]

/-- A label is one more enclosure. -/
theorem Within.label (h : jumps.Within around) (name : String) :
    (jumps.label name).Within (.label name :: around) where
  inFunction := by simp [Jumps.label, h.inFunction]
  inLoop := by
    rw [Jumps.label, h.inLoop]
    simp [ownFunction]
  labels other := by
    rw [Jumps.label, List.contains_cons, Bool.or_eq_true, h.labels]
    simp [ownFunction]

end Jumps

-- ========================================================= functions

/-- The productions of a level record the faults of what they give. -/
structure Productions.Records (inner : Productions) : Prop where
  assignment (around : List Enclosure) :
    inner.assignment.Records (faultsOf <| ·.sites around)
  unary (around : List Enclosure) :
    inner.unary.Records (faultsOf <| ·.sites around)
  power (around : List Enclosure) :
    inner.power.Records (faultsOf <| ·.sites around)
  statement {jumps : Jumps} {around : List Enclosure} :
    jumps.Within around →
      (inner.statement jumps).Records (faultsOf <| ·.sites around)
  item {jumps : Jumps} {around : List Enclosure} :
    jumps.Within around →
      (inner.item jumps).Records (faultsOf <| ·.sites around)

namespace Parse

variable {inner : Productions} {seen : List String}

/-- There is no fault in a bound name. -/
theorem faultless_boundName (allowsLet : Bool) :
    (boundName allowsLet).Faultless :=
  faultless_shift.bind fun t => .ite
    ((faultless_close _ _).bind fun _ => .pure _) (.unexpected t)

/-- There is no fault in the mark of a generator. -/
theorem faultless_generatorStar : generatorStar.Faultless :=
  (faultless_isAt "*").bind fun _ => .ite
    (faultless_skip.bind fun _ => .pure _) (.pure _)

/-- There is no fault in the name of a function, which may be missing. -/
theorem faultless_optionalName : optionalName.Faultless :=
  (faultless_isAt "(").bind fun _ => .ite (.pure _)
    (faultless_boundName false).map

variable (around : List Enclosure)

/-- The faults in a parameter. -/
theorem records_parameter (h : inner.Records) :
    (parameter inner).Records (faultsOf <| ·.sites around) := by
  refine .silent faultless_lookahead fun first => ?_
  refine .silent (faultless_boundName false) fun id => ?_
  refine .silent (faultless_isAt "=") fun b => .ite (fun _ => ?_) fun _ =>
    .pure rfl
  refine .silent faultless_skip fun _ => .next (h.assignment around)
    fun value => ?_
  exact .silent (faultless_close _ _) fun span => .pure rfl

/-- The faults in the parameters of a function. -/
theorem records_parameters (h : inner.Records) :
    (parameters inner).Records
      (List.flatMap (faultsOf <| ·.sites around)) :=
  records_parenthesized (records_parameter around h)
    (faultless_expect ",") _

/-- The faults in the body of a function. -/
theorem records_functionBody (h : inner.Records) :
    (functionBody inner).Records
      (faultsOf <| ·.sites (.function :: around)) := by
  refine .silent faultless_lookahead fun first => ?_
  refine .silent (faultless_expect "\x7b") fun _ => ?_
  have hmore : (do
      return !(← lookahead).isEnd && !(← isAt "\x7d") :
      Parse Bool).Faultless :=
    faultless_lookahead.bind fun _ => (faultless_isAt _).bind fun _ =>
      .pure _
  refine .next (records_collectWhile hmore
    (h.item (Jumps.within_ofFunction around)) _) fun body => ?_
  refine .silent (faultless_expect "\x7d") fun _ => ?_
  exact .silent (faultless_close _ _) fun span => .pure (by simp)

/-- The faults in a function as a statement. -/
theorem records_functionDeclaration (h : inner.Records) :
    (functionDeclaration inner).Records (faultsOf <| ·.sites around) := by
  refine .silent faultless_lookahead fun first => ?_
  refine .silent faultless_skip fun _ => ?_
  refine .silent faultless_generatorStar fun star => ?_
  refine .silent (faultless_boundName false) fun id => ?_
  refine .next (records_parameters around h) fun params => ?_
  refine .next (records_functionBody around h) fun body => ?_
  exact .silent (faultless_close _ _) fun span => .pure (by simp)

/-- The faults in a function as an expression. -/
theorem records_functionExpression (h : inner.Records) :
    (functionExpression inner).Records (faultsOf <| ·.sites around) := by
  refine .silent faultless_lookahead fun first => ?_
  refine .silent faultless_skip fun _ => ?_
  refine .silent faultless_generatorStar fun star => ?_
  refine .silent faultless_optionalName fun id => ?_
  refine .next (records_parameters around h) fun params => ?_
  refine .next (records_functionBody around h) fun body => ?_
  exact .silent (faultless_close _ _) fun span => .pure (by simp)

-- =============================================== primary expressions

/-- What is said of a separator is about tokens. -/
theorem faultless_argumentSeparator : argumentSeparator.Faultless := by
  refine faultless_isTolerant.bind fun _ => .ite ?_ (faultless_expect _)
  refine faultless_lookahead.bind fun t => .ite faultless_skip (.ite ?_ ?_)
  · exact faultless_skip.bind fun _ =>
      faultless_objectTo (isFaultText_unexpected t)
  · exact faultless_objectTo (isFaultText_unexpectedToken t.shown)

/-- The faults in the arguments of a call. -/
theorem records_arguments (h : inner.Records) :
    (arguments inner).Records
      (List.flatMap (faultsOf <| ·.sites around)) :=
  records_parenthesized (h.assignment around) faultless_argumentSeparator _

/-- The faults in the further items of a sequence. -/
theorem records_furtherItems {item : Parse (Expression Span)}
    (h : item.Records (faultsOf <| ·.sites around)) :
    (furtherItems inner item).Records
      (List.flatMap (faultsOf <| ·.sites around)) :=
  records_collectWhile (faultless_isAt ",")
    (.silent faultless_skip fun _ => h) _

/-- The faults in a sequence, or its only item. -/
theorem records_sequenceOf {start : Position} {first : Expression Span}
    {further : List (Expression Span)}
    (hseen : seen = faultsOf (first.sites around)
      ++ further.flatMap (faultsOf <| ·.sites around)) :
    (sequenceOf start first further).RecordsAt seen
      (faultsOf <| ·.sites around) := by
  subst hseen
  refine .ite (fun hnil => .pure ?_) fun _ =>
    .silent (faultless_close _ _) fun span => .pure ?_
  · simp [List.isEmpty_iff.1 hnil]
  · simp

/-- The faults in an expression in parentheses. -/
theorem records_group (h : inner.Records) :
    (group inner).Records (faultsOf <| ·.sites around) := by
  refine .silent (faultless_expect "(") fun _ => ?_
  refine .silent faultless_lookahead fun first => .ite (fun _ => ?_)
    fun _ => ?_
  · exact .silent faultless_shift fun t =>
      .of_fails fun _ _ _ => unexpected_ok
  · refine .next (h.assignment around) fun e => ?_
    refine .next (records_furtherItems around (h.assignment around))
      fun further => ?_
    refine .bind (records_sequenceOf around rfl) fun e' => ?_
    exact .silent (faultless_expect ")") fun _ => .pure rfl

/-- The faults in a name, a literal, a group or a function. -/
theorem records_primary (h : inner.Records) :
    (primary inner).Records (faultsOf <| ·.sites around) := by
  refine .silent faultless_lookahead fun first => ?_
  have hfails : (shift >>= fun t => (unexpected t :
      Parse (Expression Span))).Records (faultsOf <| ·.sites around) :=
    .silent faultless_shift fun t => .of_fails fun _ _ _ => unexpected_ok
  have hname : (skip >>= fun _ =>
      close .identifier first.span.start >>= fun span =>
        pure (Expression.identifier ⟨first.shown, span⟩)).Records
          (faultsOf <| ·.sites around) :=
    .silent faultless_skip fun _ => .silent (faultless_close _ _)
      fun span => .pure rfl
  have hliteral : (skip >>= fun _ =>
      close .literal first.span.start >>= fun span =>
        pure (Expression.literal first.literalValue first.raw
          span)).Records (faultsOf <| ·.sites around) :=
    .silent faultless_skip fun _ => .silent (faultless_close _ _)
      fun span => .pure rfl
  cases first.kind with
  | identifier => exact hname
  | numeric | string | boolean | null => exact hliteral
  | endOfInput => exact hfails
  | punctuator =>
      exact .ite (fun _ => records_group around h) fun _ => hfails
  | keyword =>
      refine .ite (fun _ => ?_) fun _ => .ite (fun _ => hname) fun _ =>
        hfails
      exact (records_functionExpression around h).bind fun fn => .pure rfl

/-- The faults in the calls of a value. -/
theorem records_callsOf (h : inner.Records) (start : Position)
    (steps : Nat) (callee : Expression Span) :
    (callsOf inner start steps callee).RecordsAt
      (faultsOf (callee.sites around)) (faultsOf <| ·.sites around) := by
  induction steps generalizing callee with
  | zero => exact .of_fails fun _ _ _ => exhausted_ok
  | succ steps ih =>
      refine .silent (faultless_isAt "(") fun _ => .ite (fun _ => ?_)
        fun _ => .pure rfl
      refine .next (records_arguments around h) fun args => ?_
      refine .silent (faultless_close _ _) fun span => ?_
      have hcall : faultsOf (callee.sites around)
            ++ args.flatMap (faultsOf <| ·.sites around)
          = faultsOf ((Expression.call callee args span).sites around) := by
        simp
      rw [hcall]
      exact ih _

/-- The faults in a value with its calls. -/
theorem records_call (h : inner.Records) :
    (call inner).Records (faultsOf <| ·.sites around) := by
  refine .silent faultless_lookahead fun first => ?_
  exact (records_primary around h).bind fun callee =>
    records_callsOf around h _ _ callee

-- =========================================================== updates

/-- What is objected to is the target as a site. -/
theorem records_requireAssignable (e : Expression Span) :
    (requireAssignable e).Records fun _ =>
      faultsOf [⟨.target e.shape, around⟩] := by
  have hshape : e.shape.isAssignable = e.isAssignable :=
    e.isAssignable_map _
  unfold requireAssignable
  cases he : e.isAssignable with
  | true => exact .pure (by simp [Site.fault?, hshape, he])
  | false =>
      have hobject : (object .invalidTarget).Records fun _ =>
          [Message.invalidTarget] := records_object (by decide)
      have hfault : faultsOf [⟨.target e.shape, around⟩]
          = [Message.invalidTarget] := by
        simp [Site.fault?, hshape, he]
      rw [hfault]
      exact hobject

/-- The faults in an operand with its update. -/
theorem records_update (h : inner.Records) :
    (update inner).Records (faultsOf <| ·.sites around) := by
  refine .silent faultless_lookahead fun first => ?_
  cases first.updateOperator? with
  | some operator =>
      refine .silent faultless_skip fun _ => ?_
      refine .next (h.unary around) fun argument => ?_
      refine .next (records_requireAssignable around argument) fun _ => ?_
      exact .silent (faultless_close _ _) fun span => .pure (by simp)
  | none =>
      refine .bind (records_call around h) fun argument => ?_
      refine .silent faultless_lookahead fun next => ?_
      refine .silent faultless_afterLineBreak fun newLine => ?_
      cases next.updateOperator? with
      | none => exact .pure rfl
      | some operator =>
          cases newLine with
          | true => exact .pure rfl
          | false =>
              refine .next (records_requireAssignable around argument)
                fun _ => .silent faultless_skip fun _ => ?_
              exact .silent (faultless_close _ _) fun span => .pure (by simp)

/-- The faults in an operand with the operators before it. -/
theorem records_unary (h : inner.Records) :
    (unary inner).Records (faultsOf <| ·.sites around) := by
  refine .silent faultless_lookahead fun first => ?_
  cases first.unaryOperator? with
  | none => exact records_update around h
  | some operator =>
      refine .silent faultless_skip fun _ => ?_
      refine .next (h.unary around) fun argument => ?_
      exact .silent (faultless_close _ _) fun span => .pure rfl

/-- The faults in a power. -/
theorem records_power (h : inner.Records) :
    (power inner).Records (faultsOf <| ·.sites around) := by
  refine .silent faultless_lookahead fun first => ?_
  refine .bind (records_unary around h) fun base => ?_
  refine .ite (fun _ => .pure rfl) fun _ => ?_
  refine .silent (faultless_isAt "**") fun _ => .ite (fun _ => ?_)
    fun _ => .pure rfl
  refine .silent faultless_skip fun _ => ?_
  refine .next (h.power around) fun exponent => ?_
  exact .silent (faultless_close _ _) fun span => .pure (by simp)

-- ====================================== operators between operands

/-- The faults of the operands on a stack, the lowest first. -/
def stackFaults : List Pending → List String
  | [] => []
  | pending :: stack =>
    stackFaults stack ++ faultsOf (pending.left.sites around)

/-- The faults in a single operation. -/
theorem records_operation {pending : Pending} {right : Expression Span} :
    (operation pending right).RecordsAt
      (seen ++ (faultsOf (pending.left.sites around)
        ++ faultsOf (right.sites around)))
      (fun e => seen ++ faultsOf (e.sites around)) := by
  unfold operation
  cases pending.operator with
  | binary operator =>
      exact .silent (faultless_close _ _) fun span => .pure (by simp)
  | logical operator =>
      exact .silent (faultless_close _ _) fun span => .pure (by simp)

/-- Closing operations keeps the faults in order. -/
theorem records_reduce (precedence : Nat) (stack : List Pending)
    (start : Position) (e : Expression Span) :
    (reduce precedence stack start e).RecordsAt
      (stackFaults around stack ++ faultsOf (e.sites around))
      (fun r => stackFaults around r.1
        ++ faultsOf (r.2.2.sites around)) := by
  induction stack generalizing start e with
  | nil => exact .pure rfl
  | cons pending stack ih =>
      unfold reduce
      refine .ite (fun _ => ?_) fun _ => .pure rfl
      rw [stackFaults, List.append_assoc]
      exact .bind (records_operation around) fun e' => ih pending.start e'

/-- The faults in a chain of operations. -/
theorem records_operations (h : inner.Records) (steps : Nat)
    (stack : List Pending) (start : Position) (e : Expression Span) :
    (operations inner steps stack start e).RecordsAt
      (stackFaults around stack ++ faultsOf (e.sites around))
      (faultsOf <| ·.sites around) := by
  induction steps generalizing stack start e with
  | zero => exact .of_fails fun _ _ _ => exhausted_ok
  | succ steps ih =>
      refine .silent faultless_lookahead fun t => ?_
      cases t.infixOperator? with
      | none =>
          refine .bindOk (records_reduce around 0 stack start e)
            fun r ⟨s, s', hr⟩ => .pure ?_
          rw [reduce_zero hr]
          rfl
      | some operator =>
          refine .bind (records_reduce around _ stack start e) fun r => ?_
          refine .silent faultless_skip fun _ => ?_
          refine .silent faultless_lookahead fun next => ?_
          exact .next (records_power around h) fun right =>
            ih (⟨r.2.2, operator, r.2.1⟩ :: r.1) next.span.start right

/-- The faults in operands with the operators between them. -/
theorem records_binary (h : inner.Records) :
    (binary inner).Records (faultsOf <| ·.sites around) := by
  refine .silent faultless_lookahead fun first => ?_
  refine .next (records_power around h) fun e => ?_
  exact records_operations around h _ [] _ e

/-- The faults in a choice between two values. -/
theorem records_conditional (h : inner.Records) :
    (conditional inner).Records (faultsOf <| ·.sites around) := by
  refine .silent faultless_lookahead fun first => ?_
  refine .bind (records_binary around h) fun test => ?_
  refine .silent (faultless_isAt "?") fun _ => .ite (fun _ => ?_)
    fun _ => .pure rfl
  refine .silent faultless_skip fun _ => ?_
  refine .next (h.assignment around) fun consequent => ?_
  refine .silent (faultless_expect ":") fun _ => ?_
  refine .next (h.assignment around) fun alternate => ?_
  exact .silent (faultless_close _ _) fun span => .pure (by simp)

/-- The faults in an assignment. -/
theorem records_assignment (h : inner.Records) :
    (assignment inner).Records (faultsOf <| ·.sites around) := by
  refine .silent faultless_lookahead fun first => ?_
  refine .bind (records_conditional around h) fun left => ?_
  refine .silent faultless_lookahead fun t => ?_
  cases t.assignmentOperator? with
  | none => exact .pure rfl
  | some operator =>
      refine .next (records_requireAssignable around left) fun _ => ?_
      refine .silent faultless_skip fun _ => ?_
      refine .next (h.assignment around) fun right => ?_
      exact .silent (faultless_close _ _) fun span => .pure (by simp)

/-- The faults in an expression, also of several items. -/
theorem records_expression (h : inner.Records) :
    (expression inner).Records (faultsOf <| ·.sites around) := by
  refine .silent faultless_lookahead fun first => ?_
  refine .bind (records_assignment around h) fun e => ?_
  refine .next (records_furtherItems around (records_assignment around h))
    fun further => ?_
  exact records_sequenceOf around rfl

end Parse

end ScriptTree
