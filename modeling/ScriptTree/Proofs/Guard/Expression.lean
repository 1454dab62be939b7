/-
Names, functions and expressions under a guard.

What a production gives has parts that are made as they should be, if
that is so one level further in (`Guard.Levels`). A leaf is made from the
lookahead, which the guard knows; a sequence is made only of more than
one expression; all else is put together from what was made before.

An operator after a variable follows the last token of what it is applied
to. So the productions up to calls, which consume their tokens to the
last, are said to end after one.
-/
import ScriptTree.Proofs.Guard

namespace ScriptTree

-- ============================================= where expressions start

namespace Parse

variable {α β : Type} {p : Parse α} {inner : Productions}

/-- A success starts at a token, and not at the end of the text. -/
def Opens (p : Parse α) : Prop :=
  ∀ ⦃s a s'⦄, p s = .ok a s' → s.lookahead.isEnd = false

/-- What starts at a token does so whatever comes next. -/
theorem Opens.bind {f : α → Parse β} (hp : p.Opens) :
    (p >>= f).Opens := by
  intro s b s' h
  obtain ⟨a, s₁, h₁, -⟩ := bind_ok.1 h
  exact hp h₁

/-- It is enough that nothing succeeds at the end of the text. -/
theorem Opens.lookahead {f : Token → Parse β}
    (hf : ∀ t, t.isEnd = true → (f t).Opens) :
    (lookahead >>= f).Opens := by
  intro s b s' h
  cases hend : s.lookahead.isEnd with
  | false => rfl
  | true => exact hend.symm.trans (hf _ hend h)

/-- There is a token at the start of a name, a literal, a group or a
function. -/
theorem opens_primary : (primary inner).Opens := by
  refine .lookahead fun t hend => ?_
  rw [of_decide_eq_true hend]
  intro s e s' h
  obtain ⟨t, s₁, -, h⟩ := bind_ok.1 h
  exact absurd h unexpected_ok

/-- There is a token at the start of an operand with the operators before
it. -/
theorem opens_unary : (unary inner).Opens := by
  refine .lookahead fun t hend => ?_
  cases hunary : t.unaryOperator? with
  | some operator =>
      have hopen := Concord.not_isEnd_of_unaryOperator? hunary
      rw [hend] at hopen
      cases hopen
  | none =>
      refine .lookahead fun t hend => ?_
      cases hupdate : t.updateOperator? with
      | some operator =>
          have hopen := Concord.not_isEnd_of_updateOperator? hupdate
          rw [hend] at hopen
          cases hopen
      | none =>
          have hcall : (call inner).Opens :=
            .lookahead fun _ _ => .bind opens_primary
          exact .bind hcall

/-- There is no expression at the end of the text. -/
theorem opens_expression : (expression inner).Opens := by
  have hpower : (power inner).Opens :=
    .lookahead fun _ _ => .bind opens_unary
  have hbinary : (binary inner).Opens :=
    .lookahead fun _ _ => .bind hpower
  have hconditional : (conditional inner).Opens :=
    .lookahead fun _ _ => .bind hbinary
  have hassignment : (assignment inner).Opens :=
    .lookahead fun _ _ => .bind hconditional
  exact .lookahead fun _ _ => .bind hassignment

end Parse

namespace Guard

variable {g : Guard} {π : Type} {place : Span → π} {inner : Productions}

/-- Where an expression was read, its first token is known to be one. -/
theorem Leads.opens {α : Type} {p : Parse α} {t : Token}
    {Q : α → ParseState → Prop} (hp : g.Leads (g.Facing t) p Q)
    (hopens : p.Opens) : g.Leads (g.Facing t) p
      fun a s => t.isEnd = false ∧ Q a s :=
  hp.shows fun _ _ _ hs hok hq => ⟨hs.lookahead ▸ hopens hok, hq⟩

/-- A keyword shows its word. -/
theorem shown_of_isKeyword {t : Token} {word : String}
    (h : t.isKeyword word = true) : t.shown = word := by
  unfold Token.isKeyword Token.text? at h
  unfold Token.shown
  cases hvalue : t.value with
  | text text => simpa [hvalue] using (Bool.and_eq_true_iff.1 h).2
  | number number => simp [hvalue] at h

-- ============================================================= levels

variable (g place) in
/-- What the productions one level further in give is made as it should
be. -/
structure Levels (inner : Productions) : Prop where
  assignment :
    g.Gives inner.assignment fun e => g.AllMade place (e.map place).parts
  unary : g.Gives inner.unary fun e => g.AllMade place (e.map place).parts
  power : g.Gives inner.power fun e => g.AllMade place (e.map place).parts
  statement (jumps : Jumps) :
    g.Gives (inner.statement jumps) fun s =>
      g.AllMade place (s.map place).parts
  item (jumps : Jumps) :
    g.Gives (inner.item jumps) fun s => g.AllMade place (s.map place).parts

-- ============================================================== names

variable (g) in
/-- A name that is bound, and its token. -/
def Bound (allowsLet : Bool) (id : Identifier Span) : Prop :=
  ∃ t, g.token t ∧ id.name = t.shown ∧ id.place.start = t.span.start ∧
    (t.kind = .identifier ∨
      allowsLet = true ∧ t.isKeyword "let" = true)

/-- Where `let` is no name, a bound name is an identifier. -/
theorem Bound.named {id : Identifier Span} (h : g.Bound false id) :
    g.Named id.name := by
  obtain ⟨t, ht, hname, -, hkind | ⟨hfalse, -⟩⟩ := h
  · exact ⟨t, ht, hkind, hname⟩
  · cases hfalse

/-- A bound name is a name as a guard asks for it. -/
theorem Bound.made {allowsLet : Bool} {id : Identifier Span}
    (h : g.Bound allowsLet id) :
    g.Made place (.name (id.map place)) := by
  obtain ⟨t, ht, hname, -, hkind | ⟨-, hlet⟩⟩ := h
  · exact .inl ⟨t, ht, hkind, hname⟩
  · exact .inr (hname.trans (shown_of_isKeyword hlet))

/-- A name that is bound is the lookahead. -/
theorem leads_boundName (allowsLet : Bool) {t : Token} :
    g.Leads (g.Facing t) (Parse.boundName allowsLet) fun id s =>
      (g.Bound allowsLet id ∧ id.place = t.span) ∧ g.state s := by
  refine leads_shiftFacing.bind fun t' => Leads.known ?_
  rintro rfl
  refine .ite (fun hkind => ?_) fun _ =>
    leads_unexpected fun _ hs => hs.speaks
  refine leads_close.bind fun span => .pure fun s hs => ?_
  obtain ⟨⟨rfl, ht⟩, hs⟩ := hs
  simp only [Bool.or_eq_true, decide_eq_true_eq, Bool.and_eq_true] at hkind
  exact ⟨⟨⟨t', ht, rfl, rfl, hkind⟩, rfl⟩, hs.state⟩

/-- What is made for a bound name. -/
theorem gives_boundName (allowsLet : Bool) :
    g.Gives (Parse.boundName allowsLet) (g.Bound allowsLet) :=
  fun _ hs => (leads_boundName allowsLet ⟨hs, rfl⟩).imp
    fun _ _ h => ⟨h.1.1, h.2⟩

/-- What is made for the mark of a generator. -/
theorem gives_generatorStar :
    g.Gives Parse.generatorStar fun _ => True :=
  .bind gives_isAt fun _ _ => .ite
    (fun _ => .bind gives_skip fun _ _ => .pure trivial)
    fun _ => .pure trivial

/-- What is made for the name of a function, which may be missing. -/
theorem gives_optionalName :
    g.Gives Parse.optionalName fun found =>
      ∀ id ∈ found, g.Bound false id :=
  .bind gives_isAt fun _ _ => .ite (fun _ => .pure (by simp))
    fun _ => .map (gives_boundName false) fun id hid => by simpa using hid

-- ========================================================== functions

/-- What is made for a parameter. -/
theorem gives_parameter (h : g.Levels place inner) :
    g.Gives (Parse.parameter inner) fun p =>
      g.AllMade place (p.map place).parts := by
  refine .bind gives_lookahead fun first _ => ?_
  refine .bind (gives_boundName false) fun id hid => ?_
  refine .bind gives_isAt fun _ _ => .ite (fun _ => ?_) fun _ => .pure ?_
  · refine .bind gives_skip fun _ _ => .bind h.assignment
      fun value hvalue => .bind gives_close fun span _ => .pure ?_
    simpa [Parameter.map] using ⟨hid.named, hid.made, hvalue⟩
  · simpa [Parameter.map] using ⟨hid.named, hid.made⟩

/-- What is made for the parameters of a function. -/
theorem gives_parameters (h : g.Levels place inner) :
    g.Gives (Parse.parameters inner) fun l =>
      ∀ p ∈ l, g.AllMade place (p.map place).parts :=
  (ends_parenthesized (gives_parameter h) gives_expect _).gives

/-- What is made for the body of a function, up to its last token. -/
theorem ends_functionBody (h : g.Levels place inner) :
    g.Ends (Parse.functionBody inner) fun b =>
      g.AllMade place (b.map place).parts := by
  refine .last gives_lookahead fun first _ => ?_
  refine .last gives_expect fun _ _ => ?_
  have hmore : g.Gives (do
      return !(← Parse.lookahead).isEnd && !(← Parse.isAt "\x7d") :
      Parse Bool) fun _ => True :=
    .bind gives_lookahead fun _ _ => .bind gives_isAt fun _ _ =>
      .pure trivial
  refine .last (gives_collectWhile hmore (h.item .ofFunction) _)
    fun body hbody => ?_
  refine .bind ends_expect fun _ _ => leads_closeAfter.bind fun span =>
    .pure fun _ hs => ⟨?_, hs.2⟩
  simpa [Block.map, List.flatMap_map] using hbody

/-- The parts of a function, from those within it. -/
theorem made_function {found : Option (Identifier Span)}
    {params : List (Parameter Span)} {body : Block Span}
    {generator : Bool} {span : Span}
    (hfound : ∀ id ∈ found, g.Bound false id)
    (hparams : ∀ p ∈ params, g.AllMade place (p.map place).parts)
    (hbody : g.AllMade place (body.map place).parts) :
    g.AllMade place
      ((Function.mk found params body generator span).map place).parts := by
  cases found with
  | none =>
      simpa [Function.map, List.flatMap_map, Function.id?]
        using ⟨hparams, hbody⟩
  | some id =>
      have hid := hfound id rfl
      have hname : g.Named (id.map place).name := hid.named
      have hmade : g.Made place (.name (id.map place)) := hid.made
      simpa [Function.map, List.flatMap_map, Function.id?]
        using ⟨hname, hmade, hparams, hbody⟩

/-- What is made for a function as a statement. -/
theorem gives_functionDeclaration (h : g.Levels place inner) :
    g.Gives (Parse.functionDeclaration inner) fun fn =>
      fn.id?.isSome = true ∧ g.AllMade place (fn.map place).parts := by
  refine .bind gives_lookahead fun first _ => ?_
  refine .bind gives_skip fun _ _ => ?_
  refine .bind gives_generatorStar fun star _ => ?_
  refine .bind (gives_boundName false) fun id hid => ?_
  refine .bind (gives_parameters h) fun params hparams => ?_
  refine .bind (ends_functionBody h).gives fun body hbody => ?_
  refine .bind gives_close fun span _ => .pure ⟨rfl, ?_⟩
  exact made_function (by simpa using hid) hparams hbody

/-- What is made for a function as an expression, up to its last token. -/
theorem ends_functionExpression (h : g.Levels place inner) :
    g.Ends (Parse.functionExpression inner) fun fn =>
      g.AllMade place (fn.map place).parts := by
  refine .last gives_lookahead fun first _ => ?_
  refine .last gives_skip fun _ _ => ?_
  refine .last gives_generatorStar fun star _ => ?_
  refine .last gives_optionalName fun id hid => ?_
  refine .last (gives_parameters h) fun params hparams => ?_
  refine .bind (ends_functionBody h) fun body hbody => ?_
  exact leads_closeAfter.bind fun span => .pure fun s hs =>
    ⟨made_function hid hparams hbody, hs.2⟩

-- ================================================ primary expressions

/-- What is made for the test of what is assigned to. -/
theorem gives_requireAssignable (e : Expression Span) :
    g.Gives (Parse.requireAssignable e) fun _ => True :=
  .ite (fun _ => .pure trivial) fun _ => gives_object

/-- To object to a target leaves the lookahead alone. -/
theorem leads_requireAssignable (e : Expression Span) {t : Token}
    {newLine : Bool} :
    g.Leads (g.Meets t newLine) (Parse.requireAssignable e)
      fun _ => g.Facing t :=
  (gives_requireAssignable e).meets.shows fun _ _ _ hs hok hq =>
    ⟨hq.2, (Parse.waits_requireAssignable e hok).lookahead.trans
      hs.lookahead⟩

/-- What is said of a comma that is missing is said of the token in its
place, before or after that is consumed. -/
theorem gives_argumentSeparator :
    g.Gives Parse.argumentSeparator fun _ => True := by
  refine .bind gives_isTolerant fun _ _ => .ite (fun _ => ?_)
    fun _ => gives_expect
  refine Leads.facing fun t => .ite (fun _ => Gives.facing gives_skip)
    fun _ => .ite (fun _ => ?_) fun _ => ?_
  · exact leads_skip.bind fun _ => leads_objectTo
      t.isAboutToken_unexpected fun _ hs => ⟨hs.state, hs.speaks⟩
  · exact leads_objectTo rfl fun _ hs => ⟨hs.state, hs.speaks⟩

/-- What is made for the arguments of a call, up to its last token. -/
theorem ends_arguments (h : g.Levels place inner) :
    g.Ends (Parse.arguments inner) fun l =>
      ∀ e ∈ l, g.AllMade place (e.map place).parts :=
  ends_parenthesized h.assignment gives_argumentSeparator _

/-- What is made for the further items of a sequence. -/
theorem gives_furtherItems {V : Expression Span → Prop}
    {item : Parse (Expression Span)} (h : g.Gives item V) :
    g.Gives (Parse.furtherItems inner item) fun l => ∀ e ∈ l, V e :=
  gives_collectWhile gives_isAt (.bind gives_skip fun _ _ => h) _

/-- There is a sequence only where there is more than one expression. -/
theorem gives_sequenceOf {start : Position} {first : Expression Span}
    {further : List (Expression Span)}
    (hfirst : g.AllMade place (first.map place).parts)
    (hfurther : ∀ e ∈ further, g.AllMade place (e.map place).parts) :
    g.Gives (Parse.sequenceOf start first further) fun e =>
      g.AllMade place (e.map place).parts := by
  refine .ite (fun _ => .pure hfirst) fun hne =>
    .bind gives_close fun span _ => .pure ?_
  have hlength : 1 ≤ further.length :=
    List.length_pos_iff.2 (by simpa using hne)
  simpa [Expression.map, List.flatMap_map]
    using ⟨hlength, hfirst, hfurther⟩

/-- What is made for an expression in parentheses, up to its last token. -/
theorem ends_group (h : g.Levels place inner) :
    g.Ends (Parse.group inner) fun e =>
      g.AllMade place (e.map place).parts := by
  refine .last gives_expect fun _ _ => ?_
  refine .last gives_lookahead fun first _ => .ite
    (fun _ => ends_unexpectedNext) fun _ => ?_
  refine .last h.assignment fun e he => ?_
  refine .last (gives_furtherItems h.assignment) fun further hfurther => ?_
  refine .last (gives_sequenceOf he hfurther) fun e' he' => ?_
  exact .bind ends_expect fun _ _ => .pure fun _ hs => ⟨he', hs⟩

/-- A leaf is made from the lookahead. -/
theorem ends_primary (h : g.Levels place inner) :
    g.Ends (Parse.primary inner) fun e =>
      g.AllMade place (e.map place).parts := by
  refine Leads.facing fun first => ?_
  have hname (hkind : first.kind = .identifier ∨
      first.isKeyword "let" = true) :
      g.Leads (g.Facing first) (Parse.skip >>= fun _ =>
        Parse.close .identifier first.span.start >>= fun span =>
          pure (Expression.identifier ⟨first.shown, span⟩)) fun e s =>
        g.AllMade place (e.map place).parts ∧ g.After s := by
    refine leads_skip.bind fun _ => leads_close.bind fun span =>
      .pure fun s hs => ⟨?_, hs.2⟩
    have hbound : g.Bound true ⟨first.shown, span⟩ :=
      ⟨first, hs.1.2, rfl, by rw [hs.1.1], by simpa using hkind⟩
    have hmade : g.Made place (.name ⟨first.shown, place span⟩) :=
      hbound.made
    simpa [Expression.map, Identifier.map] using hmade
  have hliteral
      (hkind : first.kind ∈ [.numeric, .string, .boolean, .null]) :
      g.Leads (g.Facing first) (Parse.skip >>= fun _ =>
        Parse.close .literal first.span.start >>= fun span =>
          pure (Expression.literal first.literalValue first.raw span))
        fun e s => g.AllMade place (e.map place).parts ∧ g.After s := by
    refine leads_skip.bind fun _ => leads_close.bind fun span =>
      .pure fun s hs => ⟨?_, hs.2⟩
    obtain ⟨⟨rfl, ht⟩, -⟩ := hs
    have hmade : g.Made place (.expression
        (.literal first.literalValue first.raw (place first.span))) :=
      ⟨first, ht, hkind, rfl, rfl, rfl⟩
    simpa [Expression.map] using hmade
  cases hkind : first.kind with
  | identifier => exact hname (.inl hkind)
  | numeric | string | boolean | null => exact hliteral (by simp [hkind])
  | endOfInput => exact Ends.facing ends_unexpectedNext
  | punctuator =>
      exact .ite (fun _ => Ends.facing (ends_group h))
        fun _ => Ends.facing ends_unexpectedNext
  | keyword =>
      refine .ite (fun _ => Ends.facing ?_) fun _ => .ite
        (fun hlet => hname (.inr hlet))
        fun _ => Ends.facing ends_unexpectedNext
      refine .bind (ends_functionExpression h) fun fn hfn =>
        .pure fun s hs => ⟨?_, hs⟩
      simpa [Expression.map] using hfn

/-- After a call there is its last token, and after no call the callee's. -/
theorem leads_callsOf (h : g.Levels place inner) (start : Position)
    (steps : Nat) {callee : Expression Span}
    (hcallee : g.AllMade place (callee.map place).parts) :
    g.Leads g.After (Parse.callsOf inner start steps callee) fun e s =>
      g.AllMade place (e.map place).parts ∧ g.After s := by
  induction steps generalizing callee with
  | zero => exact fun _ _ => .exhausted
  | succ steps ih =>
      refine leads_isAt.bind fun _ => .ite (fun _ => ?_)
        fun _ => .pure fun _ hs => ⟨hcallee, hs⟩
      refine ((ends_arguments h).weaken (fun _ hs => hs.state)
        fun _ _ hs => hs).bind fun args => Leads.known fun hargs =>
          leads_closeAfter.bind fun span => Leads.known fun _ => ih ?_
      simpa [Expression.map, List.flatMap_map]
        using ⟨hcallee, hargs⟩

/-- What is made for a value with its calls, up to its last token. -/
theorem ends_call (h : g.Levels place inner) :
    g.Ends (Parse.call inner) fun e =>
      g.AllMade place (e.map place).parts :=
  .last gives_lookahead fun _ _ => .bind (ends_primary h)
    fun _ hcallee => leads_callsOf h _ _ hcallee

-- ========================================================== operators

/-- What is made for an operand with its update. -/
theorem gives_update (h : g.Levels place inner) :
    g.Gives (Parse.update inner) fun e =>
      g.AllMade place (e.map place).parts := by
  refine .bind gives_lookahead fun first _ => ?_
  cases first.updateOperator? with
  | some operator =>
      refine .bind gives_skip fun _ _ => .bind h.unary fun e he => ?_
      refine .bind (gives_requireAssignable e) fun _ _ =>
        .bind gives_close fun span _ => .pure ?_
      simpa [Expression.map] using he
  | none =>
      refine Leads.bind (ends_call h) fun e => Leads.known fun he => ?_
      refine Leads.after fun t next newLine hnext =>
        .lookahead (.afterLineBreak ?_)
      cases hoperator : next.updateOperator? with
      | none => exact .pure fun _ hs => ⟨he, hs.state⟩
      | some operator =>
          cases newLine with
          | true => exact .pure fun _ hs => ⟨he, hs.state⟩
          | false =>
              refine (leads_requireAssignable e).bind fun _ => ?_
              refine leads_skip.bind fun _ => leads_closePassed.bind
                fun span => .pure fun s hs => ⟨?_, hs.2⟩
              have hmade : g.Made place (.expression (.update operator
                  (e.map place) false (place span))) :=
                ⟨t, next, _, hnext, hoperator, by rw [hs.1]⟩
              exact allMade_cons.2 ⟨hmade, he⟩

/-- What is made for an operand with the operators before it. -/
theorem gives_unary (h : g.Levels place inner) :
    g.Gives (Parse.unary inner) fun e =>
      g.AllMade place (e.map place).parts := by
  refine .bind gives_lookahead fun first _ => ?_
  cases first.unaryOperator? with
  | none => exact gives_update h
  | some operator =>
      refine .bind gives_skip fun _ _ => .bind h.unary fun e he =>
        .bind gives_close fun span _ => .pure ?_
      simpa [Expression.map] using he

/-- What is made for a power. -/
theorem gives_power (h : g.Levels place inner) :
    g.Gives (Parse.power inner) fun e =>
      g.AllMade place (e.map place).parts := by
  refine .bind gives_lookahead fun first _ => ?_
  refine .bind (gives_unary h) fun base hbase => .ite
    (fun _ => .pure hbase) fun _ => ?_
  refine .bind gives_isAt fun _ _ => .ite (fun _ => ?_)
    fun _ => .pure hbase
  refine .bind gives_skip fun _ _ => .bind h.power fun exponent hexponent =>
    .bind gives_close fun span _ => .pure ?_
  simpa [Expression.map] using ⟨hbase, hexponent⟩

/-- What is made for a single operation. -/
theorem gives_operation {pending : Parse.Pending}
    {right : Expression Span}
    (hleft : g.AllMade place (pending.left.map place).parts)
    (hright : g.AllMade place (right.map place).parts) :
    g.Gives (Parse.operation pending right) fun e =>
      g.AllMade place (e.map place).parts := by
  unfold Parse.operation
  cases pending.operator with
  | binary operator =>
      refine .bind gives_close fun span _ => .pure ?_
      simpa [Expression.map] using ⟨hleft, hright⟩
  | logical operator =>
      refine .bind gives_close fun span _ => .pure ?_
      simpa [Expression.map] using ⟨hleft, hright⟩

variable (g place) in
/-- What is known of the operands on a stack. -/
def StackMade (stack : List Parse.Pending) : Prop :=
  ∀ pending ∈ stack, g.AllMade place (pending.left.map place).parts

/-- What is made for the operations that are closed. -/
theorem gives_reduce (precedence : Nat) {stack : List Parse.Pending}
    {start : Position} {e : Expression Span}
    (hstack : g.StackMade place stack)
    (he : g.AllMade place (e.map place).parts) :
    g.Gives (Parse.reduce precedence stack start e) fun r =>
      g.StackMade place r.1 ∧ g.AllMade place (r.2.2.map place).parts := by
  induction stack generalizing start e with
  | nil => exact .pure ⟨hstack, he⟩
  | cons pending stack ih =>
      obtain ⟨hpending, hlater⟩ := List.forall_mem_cons.1 hstack
      exact .ite (fun _ => .bind (gives_operation hpending he)
        fun e' he' => ih hlater he') fun _ => .pure ⟨hstack, he⟩

/-- What is made for a chain of operations. -/
theorem gives_operations (h : g.Levels place inner) (steps : Nat)
    {stack : List Parse.Pending} {start : Position}
    {e : Expression Span} (hstack : g.StackMade place stack)
    (he : g.AllMade place (e.map place).parts) :
    g.Gives (Parse.operations inner steps stack start e) fun e =>
      g.AllMade place (e.map place).parts := by
  induction steps generalizing stack start e with
  | zero => exact gives_exhausted
  | succ steps ih =>
      refine .bind gives_lookahead fun t _ => ?_
      cases t.infixOperator? with
      | none =>
          exact .bind (gives_reduce 0 hstack he) fun r hr => .pure hr.2
      | some operator =>
          refine .bind (gives_reduce _ hstack he) fun r hr => ?_
          refine .bind gives_skip fun _ _ => .bind gives_lookahead
            fun next _ => .bind (gives_power h) fun right hright => ?_
          exact ih (List.forall_mem_cons.2 ⟨hr.2, hr.1⟩) hright

/-- What is made for operands with the operators between them. -/
theorem gives_binary (h : g.Levels place inner) :
    g.Gives (Parse.binary inner) fun e =>
      g.AllMade place (e.map place).parts :=
  .bind gives_lookahead fun first _ => .bind (gives_power h) fun e he =>
    gives_operations h _ (by simp [StackMade]) he

/-- What is made for a choice between two values. -/
theorem gives_conditional (h : g.Levels place inner) :
    g.Gives (Parse.conditional inner) fun e =>
      g.AllMade place (e.map place).parts := by
  refine .bind gives_lookahead fun first _ => ?_
  refine .bind (gives_binary h) fun test htest => ?_
  refine .bind gives_isAt fun _ _ => .ite (fun _ => ?_)
    fun _ => .pure htest
  refine .bind gives_skip fun _ _ => ?_
  refine .bind h.assignment fun consequent hconsequent => ?_
  refine .bind gives_expect fun _ _ => ?_
  refine .bind h.assignment fun alternate halternate =>
    .bind gives_close fun span _ => .pure ?_
  simpa [Expression.map] using ⟨htest, hconsequent, halternate⟩

/-- What is made for an assignment. -/
theorem gives_assignment (h : g.Levels place inner) :
    g.Gives (Parse.assignment inner) fun e =>
      g.AllMade place (e.map place).parts := by
  refine .bind gives_lookahead fun first _ => ?_
  refine .bind (gives_conditional h) fun left hleft =>
    .bind gives_lookahead fun t _ => ?_
  cases t.assignmentOperator? with
  | none => exact .pure hleft
  | some operator =>
      refine .bind (gives_requireAssignable left) fun _ _ => ?_
      refine .bind gives_skip fun _ _ => .bind h.assignment
        fun right hright => .bind gives_close fun span _ => .pure ?_
      simpa [Expression.map] using ⟨hleft, hright⟩

/-- What is made for an expression, also of several items. -/
theorem gives_expression (h : g.Levels place inner) :
    g.Gives (Parse.expression inner) fun e =>
      g.AllMade place (e.map place).parts := by
  refine .bind gives_lookahead fun first _ => ?_
  refine .bind (gives_assignment h) fun e he => ?_
  refine .bind (gives_furtherItems (gives_assignment h))
    fun further hfurther => ?_
  exact gives_sequenceOf he hfurther

end Guard

end ScriptTree
