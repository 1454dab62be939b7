/-
A parser reads expressions as the grammar does.

# Targets

What reads an expression starts with nothing ruled out and ends with the
right answer to whether a value may be given to it. A name leaves all
open, a literal, a call or an operator rules it out, and so do several
expressions with commas between them, while a single one in parentheses
passes on what it is. Only the plain assignment leaves things as they were
after its left side.

# Operators

The grammar has one loop for the operators between operands. A parser
reads the first operator before the loop, and so goes round once less.
-/
import ScriptTree.Proofs.Refinement.Function

namespace ScriptTree

open Context

variable (m : Machine) {text : List Char} {options : Options}

/-- Changing places makes no other expression a unary one. -/
theorem isUnary_map {π ρ : Type} (f : π → ρ) (e : Expression π) :
    Parse.isUnary (e.map f) = Parse.isUnary e := by
  cases e <;> rfl

/-- To what an assignment results in a value may be given if it is a plain
one and a value may be given to its left side. -/
theorem isAssignable_assignment {π : Type} (operator : AssignmentOperator)
    (left right : Expression π) (place : π) :
    (Expression.assignment operator left right place).isAssignable
      = (decide (operator = .assign) && left.isAssignable) := by
  cases operator <;> rfl

/-- An operand that waits for its right side, as the parser has it. -/
def Options.pending (options : Options) (pending : Parse.Pending) :
    Parser.Pending :=
  ⟨pending.left.map options.locate, pending.operator, pending.start.mark⟩

namespace ParserState.Beside

variable {K : Context → Prop} {jumps : Jumps} {target : Bool}
  {p : ParserState} {s : ParseState} {outer : ParserProductions}
  {inner : Productions}

-- =========================================================== sequences

/-- Both look for a comma, which is not the end of the text. -/
theorem commaAhead [NameProperties] (h : p.Beside text options K s) :
    Carries text options (fun _ => K) id
      ((do return !(← Parser.lookahead).isEnd && (← Parser.isAt ",")) p)
      (Parse.isAt "," s) := by
  have hcomma : (!s.lookahead.isEnd && s.lookahead.isPunctuator ",")
      = s.lookahead.isPunctuator "," := by
    cases hkind : s.lookahead.kind <;>
      simp [Token.isEnd, Token.isPunctuator, hkind]
  rw [Parser.lookahead_bind, Parser.isAt_bind, h.lookahead, hcomma]
  exact .ok (f := id) h

/-- More expressions, the first of which is there. -/
theorem furtherItems [NameProperties]
    (hinner : outer.Realizes text options inner)
    {item : Parser (Expression Location)} {item' : Parse (Expression Span)}
    (hitem : ∀ {p s}, p.Beside text options K s →
      Carries text options (fun _ => K) (Expression.map options.locate)
        (item p) (item' s))
    (h : p.Beside text options K s)
    (hcomma : s.lookahead.isPunctuator "," = true) :
    Carries text options (fun l c => l ≠ [] ∧ K c)
      (List.map (Expression.map options.locate))
      (@Parser.furtherItems _ m.arithmetic outer item p)
      (Parse.furtherItems inner item' s) := by
  have hnext {p : ParserState} {s : ParseState}
      (h : p.Beside text options K s) :
      Carries text options (fun _ => K) (Expression.map options.locate)
        ((do @Parser.skip _ m.arithmetic; item) p)
        ((do Parse.skip; item') s) :=
    (h.skip m).bind fun _ _ _ h' => hitem h'
  have hfirst : Parse.isAt "," s = .ok true s := by
    rw [← hcomma]
    rfl
  unfold Parser.furtherItems Parse.furtherItems
  rw [hinner.depth]
  exact carries_collectWhile_cons (fun h => h.commaAhead) hnext h hfirst _

/-- A sequence of expressions, of which more follow the first. No value can
be given to it. -/
theorem sequenceOf [NameProperties]
    {start : Position} (hstart : start.Sound text)
    (e : Expression Span) {further : Parser (List (Expression Location))}
    {further' : Parse (List (Expression Span))}
    (hfurther : Carries text options (fun l c => l ≠ [] ∧ K c)
      (List.map (Expression.map options.locate)) (further p)
      (further' s)) :
    Carries text options (fun e c => e.isAssignable = false ∧ K c)
      (Expression.map options.locate)
      (@Parser.sequenceOf m.arithmetic start.mark
        (e.map options.locate) further p)
      ((do Parse.sequenceOf start e (← further')) s) := by
  unfold Parser.sequenceOf Parse.sequenceOf
  refine hfurther.bind fun l p₁ s₁ h₁ => ?_
  have hne : l.isEmpty ≠ true := by
    simpa using h₁.context.1
  rw [if_neg hne]
  refine h₁.forget.finished m .sequenceExpression hstart
    (fun _ _ hc => ⟨rfl, hc⟩) fun span => ?_
  rw [Expression.map, Expression.mapAll_eq]
  rfl

/-- Without a comma no more expressions follow. -/
theorem noFurther [NameProperties]
    {item : Parse (Expression Span)} {α β : Type}
    {L : β → Context → Prop} {f : β → α}
    {r : EStateM.Result Failure ParserState α}
    {l : List (Expression Span) → Parse β}
    (hcomma : s.lookahead.isPunctuator "," = false)
    (hl : Carries text options L f r (l [] s)) :
    Carries text options L f r
      ((Parse.furtherItems inner item >>= l) s) := by
  have hsteps (steps : Nat) :
      Carries text options L f r
        ((Parse.collectWhile (Parse.isAt ",") (do Parse.skip; item) steps
          >>= l) s) := by
    cases steps with
    | zero => exact .exhausted
    | succ steps =>
        unfold Parse.collectWhile
        rw [bind_assoc, Parse.isAt_bind, hcomma]
        exact hl
  exact hsteps inner.depth

-- ============================================================= primary

/-- An expression in parentheses. -/
theorem group [NameProperties] (hinner : outer.Realizes text options inner)
    (h : p.Beside text options (Fits jumps true) s) :
    Carries text options (fun e => Fits jumps e.isAssignable)
      (Expression.map options.locate)
      (@Parser.group _ m.arithmetic outer p) (Parse.group inner s) := by
  unfold Parser.group Parse.group
  refine (h.expect m "(").bind fun _ p₁ s₁ h₁ => ?_
  have hstart := h₁.start
  rw [Parser.isAt_bind, Parse.lookahead_bind, h₁.lookahead]
  refine .ite (fun _ => h₁.refuseNext m) fun _ => ?_
  rw [Parser.lookahead_bind, h₁.lookahead, hstart.mark_agrees m]
  refine (hinner.assignment.inherited h₁).bind fun e p₂ s₂ h₂ => ?_
  rw [Parser.isAt_bind, h₂.lookahead]
  cases hcomma : s₂.lookahead.isPunctuator "," with
  | false =>
      refine noFurther hcomma ?_
      exact (h₂.expect m ")").bind fun _ p₃ s₃ h₃ => .pure h₃ rfl
  | true =>
      refine h₂.adapted (Fits jumps false)
        (fun c hc => ⟨⟨hc.inFunctionBody, hc.inIteration, hc.labels,
          hc.initializedName⟩, rfl⟩) fun p₃ h₃ => ?_
      have hitem {p : ParserState} {s : ParseState}
          (h : p.Beside text options (Fits jumps false) s) :
          Carries text options (fun _ => Fits jumps false)
            (Expression.map options.locate)
            (Parser.inherited outer.assignment p) (inner.assignment s) :=
        h.inherited fun h' => hinner.assignment h'
      have hfurther := h₃.furtherItems m hinner hitem hcomma
      rw [← bind_assoc]
      refine (sequenceOf m hstart e hfurther).bind
        fun sequence p₄ s₄ h₄ => ?_
      refine (h₄.expect m ")").bind fun _ p₅ s₅ h₅ => .pure ?_ rfl
      have hsequence := h₅.context.1
      exact { h₅ with context := hsequence ▸ h₅.context.2 }

/-- A name that is read stands for itself. -/
theorem nameRead [NameProperties]
    (h : p.Beside text options (Fits jumps true) s) :
    Carries text options (fun e => Fits jumps e.isAssignable)
      (Expression.map options.locate)
      ((Expression.identifier <$> (do
        @Parser.nameOf m.arithmetic s.lookahead.span.start.mark
          (← @Parser.nextToken _ m.arithmetic))) p)
      ((do
        Parse.skip
        let span ← Parse.close .identifier s.lookahead.span.start
        return Expression.identifier ⟨s.lookahead.shown, span⟩) s) := by
  have hstart := h.start
  rw [map_eq_pure_bind, bind_assoc]
  refine (h.take m).bind fun _ p₁ s₁ h₁ => ?_
  unfold Parser.nameOf
  simp only [bind_assoc, pure_bind]
  exact h₁.finished m .identifier hstart (fun _ _ hc => hc) fun _ => rfl

/-- A literal. Its text is cut out of the source once more. -/
theorem literal [NameProperties]
    (h : p.Beside text options (Fits jumps true) s) :
    Carries text options (fun e => Fits jumps e.isAssignable)
      (Expression.map options.locate)
      (@Parser.literal _ m.arithmetic s.lookahead.span.start.mark p)
      ((do
        Parse.skip
        let span ← Parse.close .literal s.lookahead.span.start
        return Expression.literal s.lookahead.literalValue
          s.lookahead.raw span) s) := by
  have hstart := h.start
  have hcut := h.cut
  unfold Parser.literal
  refine h.cleared (fun _ hc => hc.toKeeps) fun p₁ h₁ => ?_
  refine (h₁.take m).bind fun _ p₂ s₂ h₂ => ?_
  rw [Parser.quoted_bind, quote_eq m h₂.cursor.source hcut]
  exact h₂.finished m .literal hstart (fun _ _ hc => hc) fun _ => rfl

/-- A name, a literal, a group or a function. -/
theorem primary [NameProperties] (hinner : outer.Realizes text options inner) :
    (@Parser.primary _ m.arithmetic outer).ReadsExpression text options
      (Parse.primary inner) := by
  intro jumps p s h
  unfold Parser.primary Parse.primary
  rw [Parser.start_bind, h.startMark]
  refine h.look ?_
  cases hkind : s.lookahead.kind with
  | identifier => exact h.nameRead m
  | numeric => exact h.literal m
  | string => exact h.literal m
  | boolean => exact h.literal m
  | null => exact h.literal m
  | punctuator =>
      dsimp only
      refine .ite (fun _ => ?_) fun _ => h.refuseNext m
      refine h.adapted (Fits jumps true)
        (fun c hc => ⟨⟨hc.inFunctionBody, hc.inIteration, hc.labels,
          hc.initializedName⟩, hc.assignmentTarget⟩) fun p₁ h₁ => ?_
      exact h₁.inherited fun h' => h'.group m hinner
  | keyword =>
      dsimp only
      refine .ite (fun hword => ?_) fun _ => ?_
      · have hread := h.forgetCover.functionExpression m hinner hword
        exact hread.map (fun _ => rfl) fun _ _ hc => hc
      · exact .ite (fun _ => h.nameRead m) fun _ => h.refuseNext m
  | endOfInput => exact h.refuseNext m

-- =============================================================== calls

/-- A comma between arguments. -/
theorem argumentSeparator [NameProperties] (h : p.Beside text options K s) :
    Carries text options (fun _ => K) id
      (@Parser.argumentSeparator _ m.arithmetic p)
      (Parse.argumentSeparator s) := by
  unfold Parser.argumentSeparator Parse.argumentSeparator
  rw [Parser.isTolerant_bind, Parse.isTolerant_bind, h.tolerant]
  refine .ite (fun _ => ?_) fun _ => h.expect m ","
  refine h.look ?_
  refine .ite (fun _ => h.skip m) fun _ => ?_
  refine .ite (fun _ => ?_) fun _ => h.objectTo m _ _
  exact (h.skip m).bind fun _ p₁ s₁ h₁ => h₁.objectTo m _ _

/-- Arguments with separators between them. -/
theorem argumentsUpTo [NameProperties]
    (hinner : outer.Realizes text options inner)
    (hK : ∀ c, K c → c.Keeps jumps) (h : p.Beside text options K s)
    (steps : Nat) :
    Carries text options (fun _ => K)
      (List.map (Expression.map options.locate))
      (@Parser.argumentsUpTo _ m.arithmetic outer steps p)
      (Parse.separated inner.assignment Parse.argumentSeparator steps s)
      := by
  induction steps generalizing p s with
  | zero => exact .exhausted
  | succ steps ih =>
      unfold Parser.argumentsUpTo Parse.separated
      refine (hinner.assignment.isolated m h hK).bind
        fun first p₁ s₁ h₁ => ?_
      refine h₁.ifAt ")" (fun _ => .pure h₁ rfl) fun _ => ?_
      refine (h₁.argumentSeparator m).bind fun _ p₂ s₂ h₂ => ?_
      refine h₂.ifAt ")" (fun _ => .pure h₂ rfl) fun _ => ?_
      exact (ih h₂).bind fun rest p₃ s₃ h₃ => .pure h₃ rfl

/-- The arguments of a call. -/
theorem arguments [NameProperties] (hinner : outer.Realizes text options inner)
    (hK : ∀ c, K c → c.Keeps jumps) (h : p.Beside text options K s) :
    Carries text options (fun _ => K)
      (List.map (Expression.map options.locate))
      (@Parser.arguments _ m.arithmetic outer p)
      (Parse.arguments inner s) := by
  have hlist {p : ParserState} {s : ParseState}
      (h : p.Beside text options K s) :
      Carries text options (fun _ => K)
        (List.map (Expression.map options.locate))
        (Parser.upToParenthesis (@Parser.argumentsUpTo _ m.arithmetic outer
          inner.depth) p)
        (Parse.upToParenthesis inner.assignment Parse.argumentSeparator
          inner.depth s) :=
    h.ifAt ")" (fun _ => .pure h rfl) fun _ =>
      h.argumentsUpTo m hinner hK _
  unfold Parser.arguments Parse.arguments Parse.parenthesized
  rw [hinner.depth]
  refine (h.expect m "(").bind fun _ p₁ s₁ h₁ => ?_
  refine (hlist h₁).bind fun args p₂ s₂ h₂ => ?_
  exact (h₂.expect m ")").bind fun _ p₃ s₃ h₃ => .pure h₃ rfl

/-- Any number of calls of what is called. -/
theorem callsOf [NameProperties] (hinner : outer.Realizes text options inner)
    {start : Position} (hstart : start.Sound text) (steps : Nat)
    {callee : Expression Span}
    (h : p.Beside text options (Fits jumps callee.isAssignable) s) :
    Carries text options (fun e => Fits jumps e.isAssignable)
      (Expression.map options.locate)
      (@Parser.callsOf _ m.arithmetic outer start.mark steps
        (callee.map options.locate) p)
      (Parse.callsOf inner start steps callee s) := by
  induction steps generalizing p s callee with
  | zero => exact .exhausted
  | succ steps ih =>
      unfold Parser.callsOf Parse.callsOf
      refine h.ifAt "(" (fun _ => ?_) fun _ => .pure h rfl
      refine h.cleared (fun _ hc => hc.toKeeps) fun p₁ h₁ => ?_
      refine (h₁.arguments m hinner fun _ hc => hc.toKeeps).bind
        fun args p₂ s₂ h₂ => ?_
      refine (h₂.finish m .callExpression hstart).bind
        fun span p₃ s₃ h₃ => ?_
      have hcall : p₃.Beside text options (Fits jumps
          (Expression.call callee args span).isAssignable) s₃ := h₃
      have hcalls := ih hcall
      rw [Expression.map, Expression.mapAll_eq] at hcalls
      exact hcalls

/-- A primary expression, or calls of one. -/
theorem call [NameProperties] (hinner : outer.Realizes text options inner) :
    (@Parser.call _ m.arithmetic outer).ReadsExpression text options
      (Parse.call inner) := by
  intro jumps p s h
  have hstart := h.start
  unfold Parser.call Parse.call
  refine h.look ?_
  rw [hstart.mark_agrees m, hinner.depth]
  refine ((primary m hinner).inherited h).bind fun callee p₁ s₁ h₁ => ?_
  exact h₁.callsOf m hinner hstart _

-- ============================================================= operators

/-- An update, with its operator before or after the variable. -/
theorem update [NameProperties] (hinner : outer.Realizes text options inner) :
    (@Parser.update _ m.arithmetic outer).ReadsExpression text options
      (Parse.update inner) := by
  intro jumps p s h
  have hstart := h.start
  unfold Parser.update Parse.update
  refine h.look ?_
  rw [hstart.mark_agrees m]
  cases s.lookahead.updateOperator? with
  | some operator =>
      refine (h.skip m).bind fun _ p₁ s₁ h₁ => ?_
      refine (hinner.unary.inherited h₁).bind fun e p₂ s₂ h₂ => ?_
      refine h₂.requireTarget.bind fun _ p₃ s₃ h₃ => ?_
      refine (h₃.finish m .updateExpression hstart).bind
        fun span p₄ s₄ h₄ => ?_
      exact h₄.cleared (fun _ hc => hc.toKeeps) fun p₅ h₅ => .pure h₅ rfl
  | none =>
      refine ((call m hinner).inherited h).bind fun e p₁ s₁ h₁ => ?_
      rw [Parser.afterLineBreak_bind, Parser.lookahead_bind,
        Parse.lookahead_bind, Parse.afterLineBreak_bind, h₁.lookahead,
        h₁.lineBreak]
      cases s₁.lookahead.updateOperator? with
      | none => cases s₁.lineBreak <;> exact .pure h₁ rfl
      | some operator =>
          cases s₁.lineBreak with
          | true => exact .pure h₁ rfl
          | false =>
              refine h₁.requireTarget.bind fun _ p₂ s₂ h₂ => ?_
              refine h₂.cleared (fun _ hc => hc.toKeeps) fun p₃ h₃ => ?_
              refine (h₃.skip m).bind fun _ p₄ s₄ h₄ => ?_
              exact h₄.finished m .updateExpression hstart (fun _ _ hc => hc)
                fun _ => rfl

/-- An operator before an operand, or an update. -/
theorem unary [NameProperties] (hinner : outer.Realizes text options inner) :
    (@Parser.unary _ m.arithmetic outer).ReadsExpression text options
      (Parse.unary inner) := by
  intro jumps p s h
  have hstart := h.start
  unfold Parser.unary Parse.unary
  refine h.look ?_
  rw [hstart.mark_agrees m]
  cases s.lookahead.unaryOperator? with
  | some operator =>
      refine (h.skip m).bind fun _ p₁ s₁ h₁ => ?_
      refine (hinner.unary.inherited h₁).bind fun e p₂ s₂ h₂ => ?_
      refine (h₂.finish m .unaryExpression hstart).bind
        fun span p₃ s₃ h₃ => ?_
      exact h₃.cleared (fun _ hc => hc.toKeeps) fun p₄ h₄ => .pure h₄ rfl
  | none => exact update m hinner h

/-- A power. -/
theorem power [NameProperties] (hinner : outer.Realizes text options inner) :
    (@Parser.power _ m.arithmetic outer).ReadsExpression text options
      (Parse.power inner) := by
  intro jumps p s h
  have hstart := h.start
  unfold Parser.power Parse.power
  refine h.look ?_
  rw [hstart.mark_agrees m]
  refine ((unary m hinner).inherited h).bind fun base p₁ s₁ h₁ => ?_
  rw [isUnary_map]
  refine .ite (fun _ => .pure h₁ rfl) fun _ => ?_
  refine h₁.ifAt "**" (fun _ => ?_) fun _ => .pure h₁ rfl
  refine (h₁.skip m).bind fun _ p₂ s₂ h₂ => ?_
  refine h₂.cleared (fun _ hc => hc.toKeeps) fun p₃ h₃ => ?_
  refine (hinner.power.isolated m h₃ fun _ hc => hc.toKeeps).bind
    fun exponent p₄ s₄ h₄ => ?_
  exact h₄.finished m .binaryExpression hstart (fun _ _ hc => hc) fun _ => rfl

-- ================================================= operators and operands

/-- An operation that is closed. No value can be given to it. -/
theorem operation [NameProperties]
    (h : p.Beside text options K s) {pending : Parse.Pending}
    (hstart : pending.start.Sound text) (right : Expression Span) :
    Carries text options (fun e c => e.isAssignable = false ∧ K c)
      (Expression.map options.locate)
      (@Parser.operation m.arithmetic (options.pending pending)
        (right.map options.locate) p)
      (Parse.operation pending right s) := by
  obtain ⟨left, operator, start⟩ := pending
  cases operator with
  | binary operator =>
      exact h.finished m .binaryExpression hstart (fun _ _ hc => ⟨rfl, hc⟩)
        fun _ => rfl
  | logical operator =>
      exact h.finished m .logicalExpression hstart (fun _ _ hc => ⟨rfl, hc⟩)
        fun _ => rfl

/-- Both close the same operations on the stack. -/
theorem reduce [NameProperties] {stack : List Parse.Pending}
    (hstack : ∀ pending ∈ stack, pending.start.Sound text)
    {start : Position} (hstart : start.Sound text) (e : Expression Span)
    (h : p.Beside text options K s) (precedence : Nat) :
    Carries text options
      (fun r c => ((∀ pending ∈ r.1, pending.start.Sound text) ∧
        r.2.1.Sound text) ∧ K c)
      (fun r => (r.1.map options.pending, r.2.1.mark,
        r.2.2.map options.locate))
      (@Parser.reduce m.arithmetic precedence (stack.map options.pending)
        start.mark (e.map options.locate) p)
      (Parse.reduce precedence stack start e s) := by
  induction stack generalizing start e p s with
  | nil =>
      refine .pure (b := ([], start, e)) ?_ rfl
      exact { h with context := ⟨⟨nofun, hstart⟩, h.context⟩ }
  | cons pending stack ih =>
      have hpending := hstack pending List.mem_cons_self
      have hrest : ∀ pending ∈ stack, pending.start.Sound text :=
        fun q hq => hstack q (List.mem_cons_of_mem _ hq)
      rw [List.map_cons]
      unfold Parser.reduce Parse.reduce
      refine .ite (fun _ => ?_) fun _ => ?_
      · refine (h.operation m hpending e).bind fun e' p₁ s₁ h₁ => ?_
        exact ih hrest hpending e' h₁.forget
      · refine .pure (b := (pending :: stack, start, e)) ?_ rfl
        exact { h with context := ⟨⟨hstack, hstart⟩, h.context⟩ }

/-- Both close all operations. If there are any, no value can be given to
what results. -/
theorem closeAll [NameProperties] {stack : List Parse.Pending}
    (hstack : ∀ pending ∈ stack, pending.start.Sound text)
    {start : Position} {e : Expression Span}
    (he : stack = [] → e.isAssignable = false)
    (h : p.Beside text options K s) :
    Carries text options (fun e c => e.isAssignable = false ∧ K c)
      (Expression.map options.locate)
      (@Parser.closeAll m.arithmetic (stack.map options.pending)
        (e.map options.locate) p)
      ((do
        let (_, _, e) ← Parse.reduce 0 stack start e
        return e) s) := by
  induction stack generalizing start e p s with
  | nil =>
      refine .pure (b := e) ?_ rfl
      exact { h with context := ⟨he rfl, h.context⟩ }
  | cons pending stack ih =>
      have hpending := hstack pending List.mem_cons_self
      have hrest : ∀ pending ∈ stack, pending.start.Sound text :=
        fun q hq => hstack q (List.mem_cons_of_mem _ hq)
      rw [List.map_cons]
      unfold Parser.closeAll Parse.reduce
      rw [if_pos (Nat.zero_le _), bind_assoc]
      refine (h.operation m hpending e).bind fun e' p₁ s₁ h₁ => ?_
      exact ih hrest (fun _ => h₁.context.1) h₁.forget

/-- Any number of operators with the operands after them, if there is an
operator already. The parser may have more steps than the grammar. -/
theorem operations [NameProperties]
    (hinner : outer.Realizes text options inner)
    {steps steps' : Nat} (hsteps : steps ≤ steps')
    {stack : List Parse.Pending} (hne : stack ≠ [])
    (hstack : ∀ pending ∈ stack, pending.start.Sound text)
    {start : Position} (hstart : start.Sound text) {e : Expression Span}
    (h : p.Beside text options (Fits jumps false) s) :
    Carries text options (fun e => Fits jumps e.isAssignable)
      (Expression.map options.locate)
      (@Parser.operations _ m.arithmetic outer steps'
        (stack.map options.pending) start.mark (e.map options.locate) p)
      (Parse.operations inner steps stack start e s) := by
  induction steps generalizing steps' stack start e p s with
  | zero => exact .exhausted
  | succ steps ih =>
      obtain ⟨steps', rfl⟩ : ∃ n, steps' = n + 1 :=
        Nat.exists_eq_add_one_of_ne_zero (by omega)
      unfold Parser.operations Parse.operations
      refine h.look ?_
      cases s.lookahead.infixOperator? with
      | none =>
          refine (h.closeAll m hstack fun hnil => absurd hnil hne).weaken
            fun e c hc => ?_
          rw [hc.1]
          exact hc.2
      | some operator =>
          refine (h.reduce m hstack hstart e _).bind
            fun r p₁ s₁ h₁ => ?_
          obtain ⟨stack, start, e⟩ := r
          obtain ⟨hstack, hstart⟩ := h₁.context.1
          refine (h₁.forget.skip m).bind fun _ p₂ s₂ h₂ => ?_
          refine h₂.look ?_
          have hnext := h₂.start
          refine ((power m hinner).isolated m h₂
            fun _ hc => hc.toKeeps).bind fun right p₃ s₃ h₃ => ?_
          rw [hnext.mark_agrees m]
          have hpushed : ∀ pending ∈ (⟨e, operator, start⟩ :
              Parse.Pending) :: stack, pending.start.Sound text :=
            List.forall_mem_cons.2 ⟨hstart, hstack⟩
          exact ih (Nat.le_of_succ_le_succ hsteps) (List.cons_ne_nil _ _)
            hpushed hnext h₃

/-- Operands with operators between them. -/
theorem binary [NameProperties] (hinner : outer.Realizes text options inner) :
    (@Parser.binary _ m.arithmetic outer).ReadsExpression text options
      (Parse.binary inner) := by
  intro jumps p s h
  have hstart := h.start
  unfold Parser.binary Parse.binary
  refine h.look ?_
  rw [hstart.mark_agrees m, hinner.depth]
  refine ((power m hinner).inherited h).bind fun e p₁ s₁ h₁ => ?_
  cases hdepth : inner.depth with
  | zero => exact .exhausted
  | succ steps =>
      unfold Parse.operations
      refine h₁.look ?_
      cases s₁.lookahead.infixOperator? with
      | none => exact .pure h₁ rfl
      | some operator =>
          refine (h₁.skip m).bind fun _ p₂ s₂ h₂ => ?_
          refine h₂.cleared (fun _ hc => hc.toKeeps) fun p₃ h₃ => ?_
          refine h₃.look ?_
          have hnext := h₃.start
          refine ((power m hinner).isolated m h₃
            fun _ hc => hc.toKeeps).bind fun right p₄ s₄ h₄ => ?_
          rw [hnext.mark_agrees m]
          exact h₄.operations m hinner (Nat.le_succ _)
            (List.cons_ne_nil ⟨e, operator, _⟩ [])
            (List.forall_mem_singleton.2 hstart) hnext

-- ================================================ choices and assignments

/-- A choice between two expressions. -/
theorem conditional [NameProperties]
    (hinner : outer.Realizes text options inner) :
    (@Parser.conditional _ m.arithmetic outer).ReadsExpression text options
      (Parse.conditional inner) := by
  intro jumps p s h
  have hstart := h.start
  unfold Parser.conditional Parse.conditional
  refine h.look ?_
  rw [hstart.mark_agrees m]
  refine ((binary m hinner).inherited h).bind fun test p₁ s₁ h₁ => ?_
  refine h₁.ifAt "?" (fun _ => ?_) fun _ => .pure h₁ rfl
  refine (h₁.skip m).bind fun _ p₂ s₂ h₂ => ?_
  refine (hinner.assignment.isolated m h₂ fun _ hc => hc.toKeeps).bind
    fun consequent p₃ s₃ h₃ => ?_
  refine (h₃.expect m ":").bind fun _ p₄ s₄ h₄ => ?_
  refine (hinner.assignment.isolated m h₄ fun _ hc => hc.toKeeps).bind
    fun alternate p₅ s₅ h₅ => ?_
  refine (h₅.finish m .conditionalExpression hstart).bind
    fun span p₆ s₆ h₆ => ?_
  exact h₆.cleared (fun _ hc => hc.toKeeps) fun p₇ h₇ => .pure h₇ rfl

/-- What is ruled out by the operator of an assignment. -/
theorem clearUnlessPlain [NameProperties]
    (h : p.Beside text options (Fits jumps target) s)
    (operator : AssignmentOperator) {α β : Type}
    {L : β → Context → Prop} {f : β → α} {k : Unit → Parser α}
    {r : EStateM.Result Failure ParseState β}
    (hk : ∀ p' : ParserState, p'.Beside text options
      (Fits jumps (decide (operator = .assign) && target)) s →
      Carries text options L f (k () p') r) :
    Carries text options L f
      ((Parser.clearUnlessPlain operator >>= k) p) r := by
  unfold Parser.clearUnlessPlain
  by_cases hplain : operator = .assign
  · rw [if_pos hplain, pure_bind]
    refine hk p ?_
    rw [decide_eq_true hplain]
    exact h
  · rw [if_neg hplain]
    refine h.cleared (fun _ hc => hc.toKeeps) fun p₁ h₁ => hk p₁ ?_
    rw [decide_eq_false hplain]
    exact h₁

/-- An assignment. -/
theorem assignment [NameProperties]
    (hinner : outer.Realizes text options inner) :
    (@Parser.assignment _ m.arithmetic outer).ReadsExpression text options
      (Parse.assignment inner) := by
  intro jumps p s h
  have hstart := h.start
  unfold Parser.assignment Parse.assignment
  refine h.look ?_
  rw [hstart.mark_agrees m]
  refine (conditional m hinner h).bind fun left p₁ s₁ h₁ => ?_
  refine h₁.look ?_
  cases s₁.lookahead.assignmentOperator? with
  | none => exact .pure h₁ rfl
  | some operator =>
      refine h₁.requireTarget.bind fun _ p₂ s₂ h₂ => ?_
      refine h₂.clearUnlessPlain operator fun p₃ h₃ => ?_
      refine (h₃.skip m).bind fun _ p₄ s₄ h₄ => ?_
      refine (hinner.assignment.isolated m h₄ fun _ hc => hc.toKeeps).bind
        fun right p₅ s₅ h₅ => ?_
      refine (h₅.finish m .assignmentExpression hstart).bind
        fun span p₆ s₆ h₆ => ?_
      refine h₆.adapted (Fits jumps (decide (operator = .assign)
        && left.isAssignable)) (fun c hc => ?_) fun p₇ h₇ => .pure ?_ rfl
      · exact ⟨⟨hc.inFunctionBody, hc.inIteration, hc.labels, rfl⟩,
          hc.assignmentTarget⟩
      · rw [isAssignable_assignment]
        exact h₇

/-- One or more expressions with commas between them. -/
theorem expression [NameProperties]
    (hinner : outer.Realizes text options inner)
    (h : p.Beside text options K s) (hK : ∀ c, K c → c.Keeps jumps) :
    Carries text options (fun _ => K) (Expression.map options.locate)
      (@Parser.expression _ m.arithmetic outer p)
      (Parse.expression inner s) := by
  have hstart := h.start
  unfold Parser.expression Parse.expression
  refine h.look ?_
  rw [hstart.mark_agrees m]
  refine ((assignment m hinner).isolated m h hK).bind
    fun e p₁ s₁ h₁ => ?_
  rw [Parser.isAt_bind, h₁.lookahead]
  cases hcomma : s₁.lookahead.isPunctuator "," with
  | false => exact noFurther hcomma (.pure h₁ rfl)
  | true =>
      have hfurther := h₁.furtherItems m hinner
        (fun h => (assignment m hinner).isolated m h hK) hcomma
      exact (sequenceOf m hstart e hfurther).weaken fun _ _ hc => hc.2

end ParserState.Beside

end ScriptTree
