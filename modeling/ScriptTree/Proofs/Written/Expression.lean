/-
Every kind of expression is read back from what is written.

For each kind there is first what its production gives on the tokens of
its parts, and then that the expression is read back if its parts are.
Lists of parts are read one by one, with a comma before each but the
first. The last theorem puts the kinds together, by induction on the tree
(`Writable.readBack`).
-/
import ScriptTree.Proofs.Written

namespace ScriptTree

variable {π : Type} {t u : Token} {ahead rest : List Token}

-- ========================================================= operations

namespace Parse

theorem gives_operation (pending : Pending) (right : Expression Span) :
    (operation pending right).Gives ahead
      (fun e => e.shape
        = pending.operator.node pending.left.shape right.shape ())
      ahead := by
  obtain ⟨left, operator, start⟩ := pending
  cases operator with
  | binary operator => exact .close fun span => .pure rfl
  | logical operator => exact .close fun span => .pure rfl

/-- An operator that waits is closed where no other one follows. -/
theorem gives_operations_last {inner : Productions} {pending : Pending}
    {start : Position} {right : Expression Span} {steps : Nat}
    (hu : u.infixOperator? = none) :
    (operations inner (steps + 1) [pending] start right).Gives (u :: rest)
      (fun e => e.shape
        = pending.operator.node pending.left.shape right.shape ())
      (u :: rest) := by
  refine .lookahead fun u' hu' => ?_
  have hnone : u'.infixOperator? = none := by
    rw [← hu, ← hu']
    rfl
  rw [hnone]
  have hreduce : (reduce 0 [pending] start right).Gives (u :: rest)
      (fun result => result.2.2.shape
        = pending.operator.node pending.left.shape right.shape ())
      (u :: rest) := by
    unfold reduce
    rw [if_pos (Nat.zero_le _)]
    exact .bind (gives_operation pending right) fun e he => .pure he
  exact .bind hreduce fun result hresult => .pure hresult

end Parse

namespace Expression

variable {l r : Expression π} {n : Nat}

/-- Two parts with an operator between them. -/
theorem gives_infix [NameProperties] (hl : l.ReadBack) (hr : r.ReadBack)
    {operator : InfixOperator} (hop : operator ≠ .binary .power)
    (hu : u.EndsOperand) (hnone : u.infixOperator? = none)
    (hn : (tokensOf l.part ++ operator.token ::
      (tokensOf r.part ++ u :: rest)).length ≤ n) :
    (Parse.binary (.ofDepth n)).Gives
      (tokensOf l.part ++ operator.token :: (tokensOf r.part ++ u :: rest))
      (fun e => e.shape = operator.node l.shape r.shape ())
      (u :: rest) := by
  have hleft := hl.power hn (operator.endsOperand_token hop)
  obtain ⟨t, ts, hts, -⟩ := hl.starts
  obtain ⟨t', ts', hts', -⟩ := hr.starts
  have hlengths : (tokensOf r.part ++ u :: rest).length ≤ n ∧ 2 < n := by
    rw [hts, hts'] at hn
    rw [hts']
    simp only [List.length_append, List.length_cons] at hn ⊢
    omega
  obtain ⟨m, rfl⟩ : ∃ m, n = m + 2 := ⟨n - 2, by omega⟩
  have hright := hr.power hlengths.1 hu
  rw [hts, List.cons_append] at hleft ⊢
  refine .lookahead fun first _ => .bind hleft fun e he => ?_
  rw [Productions.depth_ofDepth]
  refine .lookahead fun u' hu' => ?_
  have hsome : u'.infixOperator? = some operator := by
    rw [← operator.infixOperator?_token hop, ← hu']
    rfl
  rw [hsome]
  refine .skip ?_
  rw [hts', List.cons_append] at hright ⊢
  refine .lookahead fun next _ => .bind hright fun e' he' => ?_
  refine (Parse.gives_operations_last hnone).mono fun result hresult => ?_
  rw [hresult, he, he']

theorem isUnary_of_leaf {e : Expression Span} (hleaf : l.isLeaf = true)
    (h : l.Alike e) : Parse.isUnary e = false := by
  cases e with
  | unary operator argument before place =>
      unfold Alike at h
      cases l with
      | identifier _ | literal _ _ _ => cases h
      | _ => cases hleaf
  | _ => rfl

/-- Two parts with the power operator between them. -/
theorem gives_power [NameProperties] (hl : l.ReadBack) (hr : r.ReadBack)
    (hu : u.EndsOperand)
    (hn : (tokensOf l.part ++ .ofMark "**" ::
      (tokensOf r.part ++ u :: rest)).length ≤ n) :
    (Parse.power (.ofDepth n)).Gives
      (tokensOf l.part ++ .ofMark "**" :: (tokensOf r.part ++ u :: rest))
      (fun e => e.shape = .binary .power l.shape r.shape ())
      (u :: rest) := by
  have hleft := hl.unary hn (by decide) (by decide)
  obtain ⟨t, ts, hts, -, hgroup⟩ := hl.starts
  obtain ⟨m, rfl, hm⟩ : ∃ m, n = m + 1 ∧
      (tokensOf r.part ++ u :: rest).length ≤ m := by
    rw [List.length_append, List.length_cons] at hn
    exact Parse.exists_depth (by omega)
  have hright := hr.power hm hu
  rw [hts, List.cons_append] at hleft ⊢
  refine .lookahead fun first hfirst => .bind hleft fun e he => ?_
  -- A base that is a unary expression stands in parentheses here.
  have hbase : (Parse.isUnary e && !first.isPunctuator "(") = false := by
    cases hleaf : l.isLeaf with
    | true => rw [isUnary_of_leaf hleaf he, Bool.false_and]
    | false =>
        have hopen : first.isPunctuator "(" = true := by
          rw [← hgroup hleaf, ← hfirst]
          rfl
        rw [hopen, Bool.not_true, Bool.and_false]
  rw [hbase]
  refine .isAt (.skip ?_)
  refine .bind hright fun e' he' => .close fun span => .pure ?_
  show Expression.binary .power e.shape e'.shape () = _
  rw [he, he']

/-- Three parts, as a choice between the last two of them. -/
theorem gives_conditional [NameProperties] {c : Expression π} (hc : c.ReadBack)
    (hl : l.ReadBack) (hr : r.ReadBack) (hu : u.EndsExpression)
    (hn : (tokensOf c.part ++ .ofMark "?" :: (tokensOf l.part ++
      .ofMark ":" :: (tokensOf r.part ++ u :: rest))).length ≤ n) :
    (Parse.conditional (.ofDepth n)).Gives
      (tokensOf c.part ++ .ofMark "?" :: (tokensOf l.part ++
        .ofMark ":" :: (tokensOf r.part ++ u :: rest)))
      (fun e => e.shape = .conditional c.shape l.shape r.shape ())
      (u :: rest) := by
  have htest := hc.binary hn ⟨by decide, by decide, by decide⟩ (by decide)
  obtain ⟨t, ts, hts, -⟩ := hc.starts
  obtain ⟨m, rfl, hm⟩ : ∃ m, n = m + 1 ∧ (tokensOf l.part ++
      .ofMark ":" :: (tokensOf r.part ++ u :: rest)).length ≤ m := by
    rw [List.length_append, List.length_cons] at hn
    exact Parse.exists_depth (by omega)
  have hlast : (tokensOf r.part ++ u :: rest).length ≤ m := by
    rw [List.length_append, List.length_cons] at hm
    omega
  have hleft := hl.assignment hm (endsExpression_ofMark ":" (by decide))
  have hright := hr.assignment hlast hu
  rw [hts, List.cons_append] at htest ⊢
  refine .lookahead fun first _ => .bind htest fun e he => ?_
  refine .isAt (.skip ?_)
  refine .bind hleft fun e₁ he₁ => .expect rfl ?_
  refine .bind hright fun e₂ he₂ => .close fun span => .pure ?_
  show Expression.conditional e.shape e₁.shape e₂.shape () = _
  rw [he, he₁, he₂]

theorem isAssignable_of_alike {target : Identifier π} {e : Expression Span}
    (h : (Expression.identifier target).Alike e) :
    e.isAssignable = true := by
  unfold Alike at h
  cases e with
  | identifier id => rfl
  | _ => cases h

theorem gives_requireAssignable {target : Identifier π}
    {e : Expression Span} (h : (Expression.identifier target).Alike e) :
    (Parse.requireAssignable e).Gives ahead (fun _ => True) ahead := by
  unfold Parse.requireAssignable
  rw [if_pos (isAssignable_of_alike h)]
  exact .pure trivial

/-- A variable and a part, as an assignment. -/
theorem gives_assignment [NameProperties] {target : Identifier π}
    (hl : (Expression.identifier target).ReadBack) (hr : r.ReadBack)
    (operator : AssignmentOperator) (hu : u.EndsExpression)
    (hn : (tokensOf (identifier target).part ++ .ofMark operator.text ::
      (tokensOf r.part ++ u :: rest)).length ≤ n) :
    (Parse.assignment (.ofDepth n)).Gives
      (tokensOf (identifier target).part ++ .ofMark operator.text ::
        (tokensOf r.part ++ u :: rest))
      (fun e => e.shape = .assignment operator
        (identifier target).shape r.shape ())
      (u :: rest) := by
  obtain ⟨-, hsome, hnone, hchoice, hends⟩ := operator.token_facts
  have hbinary := hl.binary hn hends hnone
  obtain ⟨t, ts, hts, -⟩ := hl.starts
  obtain ⟨m, rfl, hm⟩ : ∃ m, n = m + 1 ∧
      (tokensOf r.part ++ u :: rest).length ≤ m := by
    rw [List.length_append, List.length_cons] at hn
    exact Parse.exists_depth (by omega)
  have hright := hr.assignment hm hu
  rw [hts, List.cons_append] at hbinary ⊢
  have hleft := Parse.gives_conditional_of_binary hchoice hbinary
  refine .lookahead fun first _ => .bind hleft fun e he => ?_
  refine .lookahead fun t' ht' => ?_
  have hsome' : t'.assignmentOperator? = some operator := by
    rw [← hsome, ← ht']
    rfl
  rw [hsome']
  refine .bind (gives_requireAssignable he) fun _ _ => .skip ?_
  refine .bind hright fun e' he' => .close fun span => .pure ?_
  show Expression.assignment operator e.shape e'.shape () = _
  rw [he, he']

theorem gives_unary [NameProperties]
    (hr : r.ReadBack) (operator : UnaryOperator) (hu : u.EndsOperand)
    (hn : (.ofMark operator.text :: (tokensOf r.part ++ u :: rest)).length
      ≤ n) :
    (Parse.unary (.ofDepth n)).Gives
      (.ofMark operator.text :: (tokensOf r.part ++ u :: rest))
      (fun e => e.shape = .unary operator r.shape true ()) (u :: rest) := by
  obtain ⟨-, hsome, -⟩ := operator.token_facts
  obtain ⟨m, rfl, hm⟩ := Parse.exists_depth hn
  have hright := hr.unary hm hu.call hu.update
  refine .lookahead fun first hfirst => ?_
  have hsome' : first.unaryOperator? = some operator := by
    rw [← hsome, ← hfirst]
    rfl
  rw [hsome']
  refine .skip (.bind hright fun e he => .close fun span => .pure ?_)
  show Expression.unary operator e.shape true () = _
  rw [he]

theorem gives_update_before [NameProperties] {target : Identifier π}
    (hr : (Expression.identifier target).ReadBack)
    (operator : UpdateOperator) (hu : u.EndsOperand)
    (hn : (.ofMark operator.text ::
      (tokensOf (identifier target).part ++ u :: rest)).length ≤ n) :
    (Parse.unary (.ofDepth n)).Gives
      (.ofMark operator.text ::
        (tokensOf (identifier target).part ++ u :: rest))
      (fun e => e.shape = .update operator (identifier target).shape true ())
      (u :: rest) := by
  obtain ⟨-, hsome, hnone, -⟩ := operator.token_facts
  obtain ⟨m, rfl, hm⟩ := Parse.exists_depth hn
  have hright := hr.unary hm hu.call hu.update
  refine Parse.gives_unary_of_update hnone (.lookahead fun first hfirst => ?_)
  have hsome' : first.updateOperator? = some operator := by
    rw [← hsome, ← hfirst]
    rfl
  rw [hsome']
  refine .skip (.bind hright fun e he => ?_)
  refine .bind (gives_requireAssignable he) fun _ _ => ?_
  refine .close fun span => .pure ?_
  show Expression.update operator e.shape true () = _
  rw [he]

/-- An operator after a variable, on the same line. -/
theorem gives_update_after {target : Identifier π}
    (hk : t.kind = .identifier) (hv : t.value = .text target.name)
    (operator : UpdateOperator) (hn : 0 < n) :
    (Parse.update (.ofDepth n)).Gives (t :: .ofMark operator.text :: rest)
      (fun e => e.shape
        = .update operator (identifier target).shape false ()) rest := by
  obtain ⟨-, hsome, -, hno, -⟩ := operator.token_facts
  obtain ⟨m, rfl, -⟩ := Parse.exists_depth hn
  intro s hs
  obtain ⟨e, s₁, hprimary, he, hs₁, hbreak⟩ : ∃ e s₁,
      Parse.primary (.ofDepth (m + 1)) s = .ok e s₁ ∧
        e.shape = .identifier ⟨target.name, ()⟩ ∧
        s₁.Faces (.ofMark operator.text :: rest) ∧
        s₁.lineBreak = false := Parse.primary_name hs hk hv
  -- The name is no call, as no parenthesis follows.
  have hcall : Parse.call (.ofDepth (m + 1)) s = .ok e s₁ := by
    have hmark : s₁.lookahead.isPunctuator "(" = false := by
      rw [← hno, ← hs₁.lookahead]
      rfl
    unfold Parse.call
    rw [Parse.lookahead_bind]
    refine bind_ok.2 ⟨e, s₁, hprimary, ?_⟩
    rw [Productions.depth_ofDepth, Parse.callsOf, Parse.isAt_bind, hmark]
    rfl
  -- The operator is taken, since it stands on the name's line.
  have hrest : (do
      Parse.requireAssignable e
      Parse.skip
      let span ← Parse.close .updateExpression s.lookahead.span.start
      return Expression.update operator e false span).Gives
      (.ofMark operator.text :: rest)
      (fun e : Expression Span => e.shape = Expression.update operator
        (identifier target).shape false ()) rest := by
    refine .bind (gives_requireAssignable he) fun _ _ => .skip ?_
    refine .close fun span => .pure ?_
    show Expression.update operator e.shape false () = _
    rw [he]
    rfl
  obtain ⟨e', s', hrun, he', hs'⟩ := hrest hs₁
  refine ⟨e', s', ?_, he', hs'⟩
  have hnone : s.lookahead.updateOperator? = none := by
    rw [← (startsOperand_of_kind (by rw [hk]; decide)).update,
      ← hs.lookahead]
    rfl
  have hoperator : s₁.lookahead.updateOperator? = some operator := by
    rw [← hsome, ← hs₁.lookahead]
    rfl
  unfold Parse.update
  rw [Parse.lookahead_bind]
  simp only [hnone]
  refine bind_ok.2 ⟨e, s₁, hcall, ?_⟩
  rw [Parse.lookahead_bind, Parse.afterLineBreak_bind, hoperator, hbreak]
  exact hrun

-- ============================================================== lists

theorem tokensOf_furtherParts [NameProperties] (e : Expression π)
    (items : List (Expression π)) :
    tokensOf (furtherParts (e :: items))
      = .ofMark "," :: (tokensOf e.part ++ tokensOf (furtherParts items)) := by
  unfold furtherParts
  rw [List.flatMap_cons, List.cons_append,
    tokensOf_cons (ofText?_mark "," (by decide)), tokensOf_append]

section Lists

variable {m steps : Nat} {items : List (Expression π)}

/-- The arguments of a call, one after the other. -/
theorem gives_separated [NameProperties] (he : e.ReadBack)
    (hitems : ∀ e ∈ items, e.ReadBack) (hsteps : items.length < steps)
    (hm : (tokensOf e.part ++ (tokensOf (furtherParts items) ++
      .ofMark ")" :: rest)).length ≤ m) :
    (Parse.separated (Productions.ofDepth (m + 1)).assignment
        Parse.argumentSeparator steps).Gives
      (tokensOf e.part ++ (tokensOf (furtherParts items) ++
        .ofMark ")" :: rest))
      (fun l => l.map shape = (e :: items).map shape)
      (.ofMark ")" :: rest) := by
  induction items generalizing e steps with
  | nil =>
      obtain ⟨k, rfl, -⟩ := Parse.exists_depth hsteps
      have hlast := he.assignment hm (endsExpression_ofMark ")" (by decide))
      refine .bind hlast fun e' he' => .isAt (.pure ?_)
      rw [List.map_singleton, List.map_singleton, he']
  | cons next items ih =>
      obtain ⟨k, rfl, hk⟩ := Parse.exists_depth hsteps
      have hnext := hitems next List.mem_cons_self
      obtain ⟨t, ts, hts, ht, -⟩ := hnext.starts
      rw [tokensOf_furtherParts, List.cons_append, List.append_assoc]
        at hm ⊢
      have hfirst := he.assignment hm
        (endsExpression_ofMark "," (by decide))
      have hlengths := hm
      rw [List.length_append, List.length_cons] at hlengths
      have hmore := ih hnext (fun e h => hitems e (List.mem_cons_of_mem _ h))
        (Nat.lt_of_succ_le hk) (by omega)
      have hcomma : Parse.argumentSeparator.Gives
          (.ofMark "," :: (tokensOf next.part ++
            (tokensOf (furtherParts items) ++ .ofMark ")" :: rest)))
          (fun _ => True)
          (tokensOf next.part ++
            (tokensOf (furtherParts items) ++ .ofMark ")" :: rest)) :=
        .isTolerant (.mark rfl)
      refine .bind hfirst fun e' he' => .isAt (.bind hcomma fun _ _ => ?_)
      rw [hts, List.cons_append] at hmore ⊢
      refine .isAt ?_
      rw [ht.closing]
      refine .bind hmore fun l hl => .pure ?_
      rw [List.map_cons, List.map_cons, he', hl]

/-- The items of a sequence after the first. -/
theorem gives_furtherItems [NameProperties] (hitems : ∀ e ∈ items, e.ReadBack)
    (hsteps : items.length < steps)
    (hm : (tokensOf (furtherParts items) ++ .ofMark ")" :: rest).length
      ≤ m + 1) :
    (Parse.collectWhile (Parse.isAt ",") (do
        Parse.skip
        (Productions.ofDepth (m + 1)).assignment) steps).Gives
      (tokensOf (furtherParts items) ++ .ofMark ")" :: rest)
      (fun l => l.map shape = items.map shape)
      (.ofMark ")" :: rest) := by
  induction items generalizing steps with
  | nil =>
      obtain ⟨k, rfl, -⟩ := Parse.exists_depth hsteps
      exact .isAt (.pure rfl)
  | cons next items ih =>
      obtain ⟨k, rfl, hk⟩ := Parse.exists_depth hsteps
      have hnext := hitems next List.mem_cons_self
      rw [tokensOf_furtherParts, List.cons_append, List.append_assoc]
        at hm ⊢
      rw [List.length_cons] at hm
      have hends : ∃ v vs, tokensOf (furtherParts items) ++
          .ofMark ")" :: rest = v :: vs ∧ v.EndsExpression := by
        cases items with
        | nil =>
            exact ⟨_, _, rfl, endsExpression_ofMark ")" (by decide)⟩
        | cons e items =>
            rw [tokensOf_furtherParts]
            exact ⟨_, _, rfl, endsExpression_ofMark "," (by decide)⟩
      have hmore := ih (fun e h => hitems e (List.mem_cons_of_mem _ h))
        (Nat.lt_of_succ_le hk)
        (by rw [List.length_append] at hm; omega)
      obtain ⟨v, vs, hv, hends⟩ := hends
      rw [hv] at hm hmore ⊢
      have hfirst := hnext.assignment (Nat.le_of_succ_le_succ hm) hends
      refine .isAt (.bind (.skip hfirst) fun e' he' => ?_)
      refine .bind hmore fun l hl => .pure ?_
      rw [List.map_cons, List.map_cons, he', hl]

end Lists

theorem depth_le [NameProperties] (items : List (Expression π))
    (hitems : ∀ e ∈ items, e.ReadBack) :
    items.length ≤ (tokensOf (furtherParts items)).length := by
  induction items with
  | nil => exact Nat.zero_le _
  | cons e items ih =>
      have hrest := ih fun e h => hitems e (List.mem_cons_of_mem _ h)
      rw [tokensOf_furtherParts, List.length_cons, List.length_cons,
        List.length_append]
      omega

/-- A part with arguments in parentheses. -/
theorem gives_call [NameProperties]
    {callee : Expression π} {arguments : List (Expression π)}
    (hc : callee.ReadBack) (harguments : ∀ e ∈ arguments, e.ReadBack)
    (hu : u.isPunctuator "(" = false)
    (hn : (tokensOf callee.part ++ .ofMark "(" ::
      (tokensOf ([","].intercalate (writtenAll arguments)) ++
        .ofMark ")" :: u :: rest)).length ≤ n) :
    (Parse.call (.ofDepth n)).Gives
      (tokensOf callee.part ++ .ofMark "(" ::
        (tokensOf ([","].intercalate (writtenAll arguments)) ++
          .ofMark ")" :: u :: rest))
      (fun e => e.shape
        = .call callee.shape (arguments.map shape) ()) (u :: rest) := by
  have hprimary := hc.primary hn
  obtain ⟨t, ts, hts, -⟩ := hc.starts
  obtain ⟨m, rfl, hm⟩ : ∃ m, n = m + 2 ∧
      (tokensOf ([","].intercalate (writtenAll arguments)) ++
        .ofMark ")" :: u :: rest).length ≤ m + 1 := by
    rw [hts, List.length_append, List.length_cons, List.length_cons] at hn
    exact ⟨n - 2, by omega, by omega⟩
  -- The arguments, up to the closing parenthesis.
  have hlist : (Parse.upToParenthesis
      (Productions.ofDepth (m + 2)).assignment Parse.argumentSeparator
        (m + 2)).Gives
      (tokensOf ([","].intercalate (writtenAll arguments)) ++
        .ofMark ")" :: u :: rest)
      (fun l => l.map shape = arguments.map shape)
      (.ofMark ")" :: u :: rest) := by
    cases arguments with
    | nil => exact .isAt (.pure rfl)
    | cons e items =>
        have he := harguments e List.mem_cons_self
        have hitems := fun e' h => harguments e' (List.mem_cons_of_mem e h)
        have hcount := depth_le items hitems
        rw [written_items, tokensOf_append, List.append_assoc] at hm ⊢
        have hsteps : items.length < m + 2 := by
          rw [List.length_append, List.length_append] at hm
          omega
        have hitem := gives_separated he hitems hsteps hm
        obtain ⟨t', ts', hts', ht', -⟩ := he.starts
        rw [hts', List.cons_append] at hitem ⊢
        refine .isAt ?_
        rw [ht'.closing]
        exact hitem
  have hall : (Parse.arguments (.ofDepth (m + 2))).Gives
      (.ofMark "(" ::
        (tokensOf ([","].intercalate (writtenAll arguments)) ++
          .ofMark ")" :: u :: rest))
      (fun l => l.map shape = arguments.map shape) (u :: rest) := by
    unfold Parse.arguments Parse.parenthesized
    rw [Productions.depth_ofDepth]
    exact .expect rfl (.bind hlist fun l hl => .expect rfl (.pure hl))
  -- The callee, and one call of it.
  rw [hts, List.cons_append] at hprimary ⊢
  refine .lookahead fun first _ => .bind hprimary fun e he => ?_
  rw [Productions.depth_ofDepth]
  refine .isAt (.bind hall fun l hl => .close fun span => ?_)
  refine Parse.gives_callsOf_none ?_ hu
  show Expression.call e.shape (mapAll _ l) () = _
  rw [mapAll_eq, he]
  exact congrArg (Expression.call callee.shape · ()) hl

-- ========================================================= all trees

theorem readBack_infix [NameProperties] (hl : l.ReadBack) (hr : r.ReadBack)
    {operator : InfixOperator} (hop : operator ≠ .binary .power)
    {place : π} : (operator.node l r place).ReadBack := by
  have hleaf : (operator.node l r place).isLeaf = false := by
    cases operator <;> rfl
  have htokens : tokensOf (operator.node l r place).written
      = tokensOf l.part ++ operator.token :: tokensOf r.part := by
    have hwritten : (operator.node l r place).written
        = l.part ++ operator.text :: r.part := by
      cases operator <;> rfl
    rw [hwritten, tokensOf_append, tokensOf_cons operator.ofText?_text]
  obtain ⟨t, ts, hts, ht, -⟩ := hl.starts
  have hstart : tokensOf (operator.node l r place).written
      = t :: (ts ++ operator.token :: tokensOf r.part) := by
    rw [htokens, hts, List.cons_append]
  refine .of_assignment hleaf ⟨t, _, hstart, ht.closing⟩
    (.assignment_of_binary hstart ?_)
  intro n u rest hu hn
  rw [htokens, List.append_assoc, List.cons_append] at hn ⊢
  have hgives := gives_infix hl hr hop hu.toEndsOperand hu.operator hn
  refine hgives.mono fun e he => ?_
  rw [Alike, he, operator.node_shape]

theorem readBack_identifier [NameProperties]
    {id : Identifier π} (h : id.Writable) : (identifier id).ReadBack := by
  obtain ⟨t, ht, hk, hv⟩ := h.token
  have hkind : t.kind ≠ .punctuator := by
    rw [hk]
    decide
  refine .of_leaf rfl (tokensOf_cons ht []) (startsOperand_of_kind hkind) ?_
  intro inner u rest
  exact Parse.gives_name hk hv

theorem readBack_literal [NameProperties]
    {value : LiteralValue} {raw : String} {place : π}
    {t : Token} (ht : Token.ofText? raw.toList = some t)
    (hk : t.kind.isLiteral = true) (hv : t.literalValue = value) :
    (literal value raw place).ReadBack := by
  have hkind : t.bare.kind ≠ .punctuator := by
    intro h
    rw [show t.kind = .punctuator from h] at hk
    cases hk
  have hbare : (Token.ofText? raw.toList).map Token.bare = some t.bare := by
    rw [ht]
    rfl
  have hraw : t.raw = raw := (Lexeme.mk raw t ht).raw_eq
  refine .of_leaf rfl (tokensOf_cons hbare [])
    (startsOperand_of_kind hkind) ?_
  intro inner u rest
  refine (Parse.gives_literal (t := t.bare) hk).mono fun e he => ?_
  rw [Alike, he]
  show Expression.literal t.literalValue t.raw () = _
  rw [hv, hraw]
  rfl

theorem readBack_power [NameProperties]
    (hl : l.ReadBack) (hr : r.ReadBack) {place : π} :
    (binary .power l r place).ReadBack := by
  have htokens : tokensOf (binary .power l r place).written
      = tokensOf l.part ++ .ofMark "**" :: tokensOf r.part := by
    show tokensOf (l.part ++ "**" :: r.part) = _
    rw [tokensOf_append, tokensOf_cons (ofText?_mark "**" (by decide))]
  obtain ⟨t, ts, hts, ht, -⟩ := hl.starts
  have hstart : tokensOf (binary .power l r place).written
      = t :: (ts ++ .ofMark "**" :: tokensOf r.part) := by
    rw [htokens, hts, List.cons_append]
  refine .of_assignment rfl ⟨t, _, hstart, ht.closing⟩
    (.assignment_of_power hstart ?_)
  intro n u rest hu hn
  rw [htokens, List.append_assoc, List.cons_append] at hn ⊢
  exact gives_power hl hr hu.toEndsOperand hn

theorem readBack_conditional [NameProperties]
    {c : Expression π} (hc : c.ReadBack)
    (hl : l.ReadBack) (hr : r.ReadBack) {place : π} :
    (conditional c l r place).ReadBack := by
  have htokens : tokensOf (conditional c l r place).written
      = tokensOf c.part ++ .ofMark "?" ::
        (tokensOf l.part ++ .ofMark ":" :: tokensOf r.part) := by
    show tokensOf (c.part ++ "?" :: l.part ++ ":" :: r.part) = _
    rw [List.append_assoc, List.cons_append, tokensOf_append,
      tokensOf_cons (ofText?_mark "?" (by decide)), tokensOf_append,
      tokensOf_cons (ofText?_mark ":" (by decide))]
  obtain ⟨t, ts, hts, ht, -⟩ := hc.starts
  have hstart : tokensOf (conditional c l r place).written
      = t :: (ts ++ .ofMark "?" ::
        (tokensOf l.part ++ .ofMark ":" :: tokensOf r.part)) := by
    rw [htokens, hts, List.cons_append]
  refine .of_assignment rfl ⟨t, _, hstart, ht.closing⟩
    (.assignment_of_conditional hstart ?_)
  intro n u rest hu hn
  rw [htokens, List.append_assoc, List.cons_append, List.append_assoc,
    List.cons_append] at hn ⊢
  exact gives_conditional hc hl hr hu hn

theorem readBack_assignment [NameProperties] {target : Identifier π}
    (hl : (identifier target).ReadBack) (hr : r.ReadBack)
    (operator : AssignmentOperator) {place : π} :
    (assignment operator (identifier target) r place).ReadBack := by
  have htokens :
      tokensOf (assignment operator (identifier target) r place).written
        = tokensOf (identifier target).part ++
          .ofMark operator.text :: tokensOf r.part := by
    show tokensOf ((identifier target).part ++ operator.text :: r.part) = _
    rw [tokensOf_append,
      tokensOf_cons (ofText?_mark _ operator.token_facts.1)]
  obtain ⟨t, ts, hts, ht, -⟩ := hl.starts
  have hstart :
      tokensOf (assignment operator (identifier target) r place).written
        = t :: (ts ++ .ofMark operator.text :: tokensOf r.part) := by
    rw [htokens, hts, List.cons_append]
  refine .of_assignment rfl ⟨t, _, hstart, ht.closing⟩ ?_
  intro n u rest hu hn
  rw [htokens, List.append_assoc, List.cons_append] at hn ⊢
  exact gives_assignment hl hr operator hu hn

theorem readBack_call [NameProperties] {callee : Expression π}
    {arguments : List (Expression π)} (hc : callee.ReadBack)
    (harguments : ∀ e ∈ arguments, e.ReadBack) {place : π} :
    (call callee arguments place).ReadBack := by
  have htokens : tokensOf (call callee arguments place).written
      = tokensOf callee.part ++ .ofMark "(" ::
        (tokensOf ([","].intercalate (writtenAll arguments)) ++
          [.ofMark ")"]) := by
    show tokensOf (callee.part ++
      "(" :: [","].intercalate (writtenAll arguments) ++ [")"]) = _
    rw [List.append_assoc, List.cons_append, tokensOf_append,
      tokensOf_cons (ofText?_mark "(" (by decide)), tokensOf_append,
      tokensOf_cons (ofText?_mark ")" (by decide)), tokensOf_nil]
  obtain ⟨t, ts, hts, ht, -⟩ := hc.starts
  have hstart : tokensOf (call callee arguments place).written
      = t :: (ts ++ .ofMark "(" ::
        (tokensOf ([","].intercalate (writtenAll arguments)) ++
          [.ofMark ")"])) := by
    rw [htokens, hts, List.cons_append]
  refine .of_assignment rfl ⟨t, _, hstart, ht.closing⟩
    (.assignment_of_call hstart ht ?_)
  intro n u rest hu hn
  rw [htokens, List.append_assoc, List.cons_append, List.append_assoc,
    List.singleton_append] at hn ⊢
  refine (gives_call hc harguments hu.call hn).mono fun e he => ?_
  rw [Alike, he]
  show _ = Expression.call callee.shape (mapAll _ arguments) ()
  rw [mapAll_eq]
  rfl

theorem readBack_unary [NameProperties]
    (hr : r.ReadBack) (operator : UnaryOperator)
    {place : π} : (unary operator r true place).ReadBack := by
  obtain ⟨hmark, -, hclosing⟩ := operator.token_facts
  have htokens : tokensOf (unary operator r true place).written
      = .ofMark operator.text :: tokensOf r.part :=
    tokensOf_cons (ofText?_mark _ hmark) r.part
  refine .of_assignment rfl ⟨_, _, htokens, hclosing⟩
    (.assignment_of_unary htokens ?_)
  intro n u rest hu hn
  rw [htokens] at hn ⊢
  exact gives_unary hr operator hu.toEndsOperand hn

theorem readBack_update [NameProperties]
    {target : Identifier π} (h : target.Writable)
    (operator : UpdateOperator) {before : Bool} {place : π} :
    (update operator (identifier target) before place).ReadBack := by
  obtain ⟨hmark, -, hnone, -, hclosing⟩ := operator.token_facts
  obtain ⟨t, ht, hk, hv⟩ := h.token
  have htarget := tokensOf_cons ht []
  cases before with
  | true =>
      have htokens :
          tokensOf (update operator (identifier target) true place).written
            = .ofMark operator.text :: tokensOf (identifier target).part :=
        tokensOf_cons (ofText?_mark _ hmark) _
      refine .of_assignment rfl ⟨_, _, htokens, hclosing⟩
        (.assignment_of_unary htokens ?_)
      intro n u rest hu hn
      rw [htokens] at hn ⊢
      exact gives_update_before (readBack_identifier h) operator
        hu.toEndsOperand hn
  | false =>
      have htokens :
          tokensOf (update operator (identifier target) false place).written
            = [t, .ofMark operator.text] := by
        show tokensOf ([target.name] ++ [operator.text]) = _
        rw [tokensOf_append, htarget,
          tokensOf_cons (ofText?_mark _ hmark)]
        rfl
      have hstarts : t.StartsOperand :=
        startsOperand_of_kind (by rw [hk]; decide)
      refine .of_assignment rfl ⟨_, _, htokens, hstarts.closing⟩
        (.assignment_of_update htokens hstarts.unary ?_)
      intro n u rest hu hn
      rw [htokens] at hn ⊢
      exact gives_update_after hk hv operator
        (Nat.lt_of_lt_of_le (Nat.succ_pos _) hn)

theorem readBack_sequence [NameProperties] {items : List (Expression π)}
    (hlength : 2 ≤ items.length) (hitems : ∀ e ∈ items, e.ReadBack)
    {place : π} : (sequence items place).ReadBack := by
  obtain ⟨first, next, items, rfl⟩ : ∃ first next rest,
      items = first :: next :: rest := by
    match items, hlength with
    | first :: next :: rest, _ => exact ⟨first, next, rest, rfl⟩
  have hfirst := hitems first List.mem_cons_self
  have hfurther := fun e h => hitems e (List.mem_cons_of_mem first h)
  have htokens : tokensOf (sequence (first :: next :: items) place).written
      = tokensOf first.part ++ tokensOf (furtherParts (next :: items)) := by
    show tokensOf ([","].intercalate (writtenAll _)) = _
    rw [written_items, tokensOf_append]
  refine .of_group rfl fun n u rest hn => ?_
  rw [tokensOf_group, List.length_cons, htokens, List.append_assoc] at hn
  rw [tokensOf_group, htokens, List.append_assoc]
  obtain ⟨m, rfl, hm⟩ := Parse.exists_depth hn
  have hcount := depth_le (next :: items) hfurther
  rw [List.length_append, List.length_append] at hm
  -- All expressions but the first, each behind its comma.
  have hmore : (Parse.furtherItems (.ofDepth (m + 1))
      (Productions.ofDepth (m + 1)).assignment).Gives
      (tokensOf (furtherParts (next :: items)) ++ .ofMark ")" :: u :: rest)
      (fun l => l.map shape = (next :: items).map shape)
      (.ofMark ")" :: u :: rest) := by
    unfold Parse.furtherItems
    rw [Productions.depth_ofDepth]
    exact gives_furtherItems hfurther (by omega)
      (by rw [List.length_append]; omega)
  -- The first one ends at the first comma.
  have hassignment : (Parse.assignment (.ofDepth m)).Gives
      (tokensOf first.part ++ (tokensOf (furtherParts (next :: items)) ++
        .ofMark ")" :: u :: rest)) first.Alike
      (tokensOf (furtherParts (next :: items)) ++
        .ofMark ")" :: u :: rest) := by
    rw [tokensOf_furtherParts, List.cons_append]
    refine hfirst.assignment ?_ (endsExpression_ofMark "," (by decide))
    rw [← List.cons_append, ← tokensOf_furtherParts, List.length_append,
      List.length_append]
    exact hm
  obtain ⟨t, ts, hts, ht, -⟩ := hfirst.starts
  rw [hts, List.cons_append] at hassignment ⊢
  refine Parse.gives_group ht.closing hassignment hmore ?_
  intro start e further he hl
  have hne : further.isEmpty = false := by
    cases further with
    | nil => cases hl
    | cons _ _ => rfl
  unfold Parse.sequenceOf
  rw [hne]
  refine .close fun span => .pure ?_
  show Expression.sequence (mapAll _ (e :: further)) ()
    = Expression.sequence (mapAll _ (first :: next :: items)) ()
  rw [mapAll_eq, mapAll_eq, List.map_cons, List.map_cons]
  exact congrArg (Expression.sequence · ()) (congrArg₂ List.cons he hl)

/-- Whatever can be written is read back. -/
theorem Writable.readBack [NameProperties]
    {e : Expression π} (h : e.Writable) : e.ReadBack := by
  induction h with
  | identifier h => exact readBack_identifier h
  | literal ht hk hv => exact readBack_literal ht hk hv
  | assignment htarget _ ihr =>
      exact readBack_assignment (readBack_identifier htarget) ihr _
  | @binary operator l r place _ _ ihl ihr =>
      by_cases hop : operator = .power
      · subst hop
        exact readBack_power ihl ihr
      · have hne : InfixOperator.binary operator ≠ .binary .power := by
          simpa using hop
        exact readBack_infix ihl ihr hne
  | @logical operator l r place _ _ ihl ihr =>
      have hne : InfixOperator.logical operator ≠ .binary .power := by simp
      exact readBack_infix ihl ihr hne
  | conditional _ _ _ ihc ihl ihr => exact readBack_conditional ihc ihl ihr
  | call _ _ ihc iharguments => exact readBack_call ihc iharguments
  | sequence hlength _ ihitems => exact readBack_sequence hlength ihitems
  | unary _ ihr => exact readBack_unary ihr _
  | update htarget => exact readBack_update htarget _

end Expression

end ScriptTree
