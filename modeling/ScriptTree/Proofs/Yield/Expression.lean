/-
The tokens of expressions and functions.

Every production of an expression consumes the tokens of the tree that it
gives, in order. Operands that wait on a stack have been consumed before
the operand at hand, the lowest one first (`Parse.stackYield`); closing an
operation moves tokens from the stack into a tree and changes nothing in
their order.
-/
import ScriptTree.Proofs.Yield

namespace ScriptTree

variable {π : Type}

-- ================================================== lists in a tree

@[simp] theorem Expression.yieldAll_eq (l : List (Expression π)) :
    Expression.yieldAll l = l.flatMap Expression.yield := by
  induction l with
  | nil => rfl
  | cons e rest ih => rw [Expression.yieldAll, ih, List.flatMap_cons]

@[simp] theorem Parameter.yieldAll_eq (l : List (Parameter π)) :
    Parameter.yieldAll l = l.flatMap Parameter.yield := by
  induction l with
  | nil => rfl
  | cons p rest ih => rw [Parameter.yieldAll, ih, List.flatMap_cons]

@[simp] theorem Declarator.yieldAll_eq (l : List (Declarator π)) :
    Declarator.yieldAll l = l.flatMap Declarator.yield := by
  induction l with
  | nil => rfl
  | cons d rest ih => rw [Declarator.yieldAll, ih, List.flatMap_cons]

@[simp] theorem Statement.yieldAll_eq (l : List (Statement π)) :
    Statement.yieldAll l = l.flatMap Statement.yield := by
  induction l with
  | nil => rfl
  | cons s rest ih => rw [Statement.yieldAll, ih, List.flatMap_cons]

-- ============================================================ tokens

/-- What a token stands for, unless it is a number, is what it shows. -/
theorem Token.Formed.value_eq {t : Token} (h : t.Formed)
    (hk : t.kind ≠ .numeric) : t.value = .text t.shown := by
  cases h with
  | word _ _ _ _ hvalue | string _ _ hvalue | punctuator _ _ _ hvalue =>
      simp [Token.shown, hvalue]
  | numeral _ hkind => exact absurd hkind hk

/-- A reserved word without escapes stands in the text as it is. -/
theorem Token.Plain.raw_eq {t : Token} (h : t.Plain)
    (hk : t.kind.isReserved = true) : t.value = .text t.raw := by
  cases h.formed with
  | word chars text hsp hkind hvalue hraw =>
      have hsize := h.unescaped
      simp only [Token.isEscapedReserved, hk, Bool.true_and,
        decide_eq_false_iff_not, ne_eq, Decidable.not_not] at hsize
      rw [Token.shown, hvalue, hraw] at hsize
      simp only [utf8ByteSize_ofList] at hsize
      rcases hsp with rfl | ⟨-, hlt⟩
      · rw [hvalue, hraw]
      · omega
  | string _ hkind | numeral _ hkind | punctuator _ _ hkind =>
      rw [hkind] at hk
      cases hk

/-- The words that are neither names nor keywords. -/
theorem wordKind_eq {word : String} :
    (wordKind word = .boolean → word = "true" ∨ word = "false") ∧
      (wordKind word = .null → word = "null") ∧
      wordKind word ≠ .numeric ∧ wordKind word ≠ .string := by
  rcases wordKind_cases word with
    ⟨h, -⟩ | ⟨h, hword⟩ | ⟨h, hword⟩ | h
  · simp [h]
  · rw [h]
    simp [hword]
  · rw [h]
    simp [hword]
  · simp [h]

/-- A literal has the value of its token. -/
theorem Token.Plain.token_literalValue {t : Token} (h : t.Plain)
    (hk : t.kind = .numeric ∨ t.kind = .string ∨ t.kind = .boolean ∨
      t.kind = .null) : t.literalValue.token = t.value := by
  cases h.formed with
  | string _ hkind hvalue =>
      simp [Token.literalValue, hkind, hvalue, LiteralValue.token]
  | numeral value hkind hvalue =>
      simp [Token.literalValue, hkind, hvalue, LiteralValue.token]
  | punctuator _ _ hkind => simp [hkind] at hk
  | word chars text _ hkind hvalue =>
      obtain ⟨hbool, hnull, hnumeric, hstring⟩ := @wordKind_eq (.ofList chars)
      rw [hkind] at hk
      rcases hk with hk | hk | hk | hk
      · exact absurd hk hnumeric
      · exact absurd hk hstring
      · have hraw := h.raw_eq (by rw [hkind, hk]; rfl)
        rw [hvalue, TokenValue.text.injEq] at hraw
        have hword := hbool hk
        rw [hraw] at hword
        simp only [Token.literalValue, hkind, hk, LiteralValue.token]
        rw [hvalue, hraw]
        rcases hword with hword | hword
        · simp [hword]
        · simp [hword]
      · simp only [Token.literalValue, hkind, hk, LiteralValue.token]
        rw [hvalue, hnull hk]

-- --------------------------------------------------------- operators

/-- An operator that is found by its text has it. -/
theorem UnaryOperator.text_of_ofText? {text : String}
    {operator : UnaryOperator} (h : ofText? text = some operator) :
    operator.text = text := by
  simpa using List.find?_some h

/-- An operator that is found by its text has it. -/
theorem UpdateOperator.text_of_ofText? {text : String}
    {operator : UpdateOperator} (h : ofText? text = some operator) :
    operator.text = text := by
  simpa using List.find?_some h

/-- An operator that is found by its text has it. -/
theorem AssignmentOperator.text_of_ofText? {text : String}
    {operator : AssignmentOperator} (h : ofText? text = some operator) :
    operator.text = text := by
  simpa using List.find?_some h

/-- An operator that is found by its text has it. -/
theorem BinaryOperator.text_of_ofText? {text : String}
    {operator : BinaryOperator} (h : ofText? text = some operator) :
    operator.text = text := by
  simpa using List.find?_some h

/-- An operator that is found by its text has it. -/
theorem LogicalOperator.text_of_ofText? {text : String}
    {operator : LogicalOperator} (h : ofText? text = some operator) :
    operator.text = text := by
  simpa using List.find?_some h

/-- An operator that is found by its mark has it as its text. -/
theorem InfixOperator.text_of_ofPunctuator? {text : String}
    {operator : InfixOperator} (h : ofPunctuator? text = some operator) :
    operator.text = text := by
  unfold ofPunctuator? at h
  split at h
  case h_1 operator hl =>
    cases h
    exact LogicalOperator.text_of_ofText? hl
  case h_2 =>
    split at h
    case h_4 operator _ _ hb =>
      cases h
      exact BinaryOperator.text_of_ofText? hb
    all_goals cases h

/-- A token has a mark if and only if it is the punctuator. -/
theorem Token.punctuator?_eq_some {t : Token} {mark : String} :
    t.punctuator? = some mark ↔ t.isPunctuator mark = true := by
  unfold Token.punctuator?
  rw [Token.isPunctuator_iff]
  split
  case isTrue h => simp [h]
  case isFalse h => simp [h]

/-- A punctuator that stands for something other than separation. -/
theorem Token.yield_of_punctuator? {t : Token} {mark : String}
    (h : t.punctuator? = some mark)
    (hm : mark ∉ ["(", ")", ",", ";"]) : t.yield = [.text mark] := by
  rw [Token.yield_of_isPunctuator (Token.punctuator?_eq_some.1 h),
    punctuatorYield, if_neg hm]

/-- An operator before an operand yields its text. -/
theorem Token.yield_of_unaryOperator? {t : Token}
    {operator : UnaryOperator} (h : t.unaryOperator? = some operator) :
    t.yield = [.text operator.text] := by
  obtain ⟨mark, hmark, hop⟩ := Option.bind_eq_some_iff.1 h
  obtain rfl := UnaryOperator.text_of_ofText? hop
  exact Token.yield_of_punctuator? hmark (by cases operator <;> decide)

/-- The operator of an update yields its text. -/
theorem Token.yield_of_updateOperator? {t : Token}
    {operator : UpdateOperator} (h : t.updateOperator? = some operator) :
    t.yield = [.text operator.text] := by
  obtain ⟨mark, hmark, hop⟩ := Option.bind_eq_some_iff.1 h
  obtain rfl := UpdateOperator.text_of_ofText? hop
  exact Token.yield_of_punctuator? hmark (by cases operator <;> decide)

/-- An operator that assigns yields its text. -/
theorem Token.yield_of_assignmentOperator? {t : Token}
    {operator : AssignmentOperator}
    (h : t.assignmentOperator? = some operator) :
    t.yield = [.text operator.text] := by
  obtain ⟨mark, hmark, hop⟩ := Option.bind_eq_some_iff.1 h
  obtain rfl := AssignmentOperator.text_of_ofText? hop
  exact Token.yield_of_punctuator? hmark (by cases operator <;> decide)

/-- An operator between operands yields its text. -/
theorem Token.yield_of_infixOperator? {t : Token}
    {operator : InfixOperator} (h : t.infixOperator? = some operator) :
    t.yield = [.text operator.text] := by
  unfold Token.infixOperator? at h
  split at h
  case isTrue hword =>
    cases h
    exact Token.yield_of_isKeyword hword
  case isFalse =>
    obtain ⟨mark, hmark, hop⟩ := Option.bind_eq_some_iff.1 h
    obtain rfl := InfixOperator.text_of_ofPunctuator? hop
    refine Token.yield_of_punctuator? hmark ?_
    rcases operator with operator | operator
    · cases operator <;> decide
    · cases operator <;> decide

-- ========================================================= functions

/-- The productions of a level consume the tokens of what they give. -/
structure Productions.Yields (inner : Productions) : Prop where
  assignment : inner.assignment.Yields Expression.yield
  unary : inner.unary.Yields Expression.yield
  power : inner.power.Yields Expression.yield
  statement (jumps : Jumps) :
    (inner.statement jumps).Yields Statement.yield
  item (jumps : Jumps) : (inner.item jumps).Yields Statement.yield

namespace Parse

variable {inner : Productions} {t : Token} {seen : List TokenValue}

/-- In a sound state a token that is there is a plain one. -/
theorem YieldsAt.plain {α : Type} {p : Parse α}
    {v : α → List TokenValue} (he : t.isEnd = false)
    (h : t.Plain → p.YieldsAt t seen v) : p.YieldsAt t seen v := by
  intro s a s' hs ht hp
  rcases hs.lookahead with hplain | ⟨hend, -⟩
  · rw [ht] at hplain
    exact h hplain hs ht hp
  · rw [ht, he] at hend
    cases hend

/-- A word that is read as a name. -/
theorem YieldsAt.name {α : Type} {p : Parse α} {v : α → List TokenValue}
    (hk : t.kind = .identifier ∨ t.kind = .keyword)
    (h : t.yield = [.text t.shown] → p.YieldsAt t seen v) :
    p.YieldsAt t seen v := by
  have hkinds : t.kind ≠ .endOfInput ∧ t.kind ≠ .punctuator ∧
      t.kind ≠ .numeric := by
    rcases hk with hk | hk
    · simp [hk]
    · simp [hk]
  refine .plain (by simp [Token.isEnd, hkinds.1]) fun hplain => h ?_
  rw [Token.yield_of_kind hkinds.2.1 hkinds.1,
    hplain.formed.value_eq hkinds.2.2]

/-- The tokens of a bound name. -/
theorem yields_boundName (allowsLet : Bool) :
    (boundName allowsLet).Yields Identifier.yield := by
  intro t
  by_cases hname : (t.kind = .identifier ||
      allowsLet && t.isKeyword "let") = true
  · have hk : t.kind = .identifier ∨ t.kind = .keyword := by
      simp only [Bool.or_eq_true, decide_eq_true_eq,
        Bool.and_eq_true] at hname
      rcases hname with h | ⟨-, h⟩
      · exact .inl h
      · exact .inr (Token.isKeyword_iff.1 h).1
    refine .name hk fun hy => .shift fun t' => ?_
    rw [if_pos hname]
    refine .close fun span => .pure ?_
    rw [hy]
    rfl
  · refine .shift fun t' => ?_
    rw [if_neg hname]
    exact .of_fails fun _ _ _ => unexpected_ok

/-- The tokens of a parameter. -/
theorem yields_parameter (h : inner.Yields) :
    (parameter inner).Yields Parameter.yield := by
  intro t
  refine .lookahead (.next (yields_boundName false) fun id t' => ?_)
  refine .isAt (.ite (fun hmark => ?_) fun _ => .pure (by
    simp))
  refine .skip fun t'' => .next h.assignment fun value t₃ => ?_
  refine .close fun span => .pure ?_
  rw [Token.yield_of_isPunctuator hmark]
  simp [punctuatorYield]

/-- The tokens of the parameters of a function. -/
theorem yields_parameters (h : inner.Yields) :
    (parameters inner).Yields (List.flatMap Parameter.yield) :=
  yields_parenthesized (yields_parameter h) yields_comma _

/-- The tokens of the body of a function. -/
theorem yields_functionBody (h : inner.Yields) :
    (functionBody inner).Yields Block.yield := by
  intro t
  refine .lookahead (.expect fun t' => ?_)
  refine .next (yields_collectWhile (q := fun t =>
    !t.isEnd && !t.isPunctuator "\x7d") (fun _ => rfl)
    (fun t _ => h.item .ofFunction t) _) fun body t'' => ?_
  refine .expect fun t₃ => .close fun span => .pure ?_
  simp [punctuatorYield]

/-- The tokens of the mark of a generator. -/
theorem yields_generatorStar :
    generatorStar.Yields fun star => if star then [.text "*"] else [] := by
  intro t
  refine .isAt (.ite (fun hmark => .skip fun t' => .pure ?_) fun _ =>
    .pure rfl)
  rw [Token.yield_of_isPunctuator hmark]
  rfl

/-- The tokens of the name of a function, which may be missing. -/
theorem yields_optionalName :
    optionalName.Yields Identifier.yieldOption := fun t =>
  .isAt (.ite (fun _ => .pure rfl) fun _ =>
    (yields_boundName false t).map fun _ => rfl)

/-- The tokens of a function as a statement. -/
theorem yields_functionDeclaration (h : inner.Yields)
    (ht : t.isKeyword "def" = true) :
    (functionDeclaration inner).YieldsAt t []
      (ScriptTree.Function.yield "def") := by
  refine .lookahead (.skip fun t₁ => ?_)
  refine .next yields_generatorStar fun star t₂ => ?_
  refine .next (yields_boundName false) fun id t₃ => ?_
  refine .next (yields_parameters h) fun params t₄ => ?_
  refine .next (yields_functionBody h) fun body t₅ => ?_
  refine .close fun span => .pure ?_
  rw [Token.yield_of_isKeyword ht]
  simp [Identifier.yieldOption]

/-- The tokens of a function as an expression. -/
theorem yields_functionExpression (h : inner.Yields)
    (ht : t.isKeyword "function" = true) :
    (functionExpression inner).YieldsAt t []
      (ScriptTree.Function.yield "function") := by
  refine .lookahead (.skip fun t₁ => ?_)
  refine .next yields_generatorStar fun star t₂ => ?_
  refine .next yields_optionalName fun id t₃ => ?_
  refine .next (yields_parameters h) fun params t₄ => ?_
  refine .next (yields_functionBody h) fun body t₅ => ?_
  refine .close fun span => .pure ?_
  rw [Token.yield_of_isKeyword ht]
  simp

-- ============================================== primary expressions

/-- The tokens of what stands between two arguments. -/
theorem yields_argumentSeparator :
    argumentSeparator.Yields fun _ => [] := fun t =>
  .isTolerant (yields_comma t)

/-- The tokens of the arguments of a call. -/
theorem yields_arguments (h : inner.Yields) :
    (arguments inner).Yields (List.flatMap Expression.yield) :=
  yields_parenthesized h.assignment yields_argumentSeparator _

/-- The tokens of the further items of a sequence. -/
theorem yields_furtherItems {item : Parse (Expression Span)}
    (h : item.Yields Expression.yield) :
    (furtherItems inner item).Yields (List.flatMap Expression.yield) := by
  refine yields_collectWhile (looks_isAt ",") (fun t ht => ?_) _
  refine .skip fun t' => ?_
  rw [Token.yield_of_isPunctuator ht]
  exact h t'

/-- The tokens of a sequence, or its only item. -/
theorem yields_sequenceOf {start : Position} {first : Expression Span}
    {further : List (Expression Span)}
    (hseen : seen = first.yield ++ further.flatMap Expression.yield) :
    (sequenceOf start first further).YieldsAt t seen Expression.yield := by
  subst hseen
  refine .ite (fun hnil => .pure ?_) fun _ => .close fun span => .pure ?_
  · simp [List.isEmpty_iff.1 hnil]
  · simp

/-- The tokens of an expression in parentheses. -/
theorem yields_group (h : inner.Yields) :
    (group inner).Yields Expression.yield := by
  intro t
  refine .expect fun t' => .lookahead (.ite (fun _ => ?_) fun _ => ?_)
  · exact .shift fun _ => .of_fails fun _ _ _ => unexpected_ok
  · refine .next h.assignment fun e t'' => ?_
    refine .next (yields_furtherItems h.assignment) fun further t₃ => ?_
    refine .bind (yields_sequenceOf (by simp [punctuatorYield]))
      fun e' t₄ => ?_
    exact .expect fun t₅ => .pure (by simp [punctuatorYield])

/-- The tokens of a name, a literal, a group or a function. -/
theorem yields_primary (h : inner.Yields) :
    (primary inner).Yields Expression.yield := by
  intro t
  refine .lookahead ?_
  have hfails : (shift >>= fun t' => (unexpected t' :
      Parse (Expression Span))).YieldsAt t [] Expression.yield :=
    .shift fun _ => .of_fails fun _ _ _ => unexpected_ok
  have hname (hk : t.kind = .identifier ∨ t.kind = .keyword) :
      (skip >>= fun _ => close .identifier t.span.start >>= fun span =>
        pure (.identifier ⟨t.shown, span⟩)).YieldsAt t []
          Expression.yield := by
    refine .name hk fun hy => .skip fun t' => .close fun span => .pure ?_
    rw [hy]
    rfl
  have hliteral (hk : t.kind = .numeric ∨ t.kind = .string ∨
      t.kind = .boolean ∨ t.kind = .null) :
      (skip >>= fun _ => close .literal t.span.start >>= fun span =>
        pure (.literal t.literalValue t.raw span)).YieldsAt t []
          Expression.yield := by
    have hkinds : t.kind ≠ .endOfInput ∧ t.kind ≠ .punctuator := by
      rcases hk with hk | hk | hk | hk <;> simp [hk]
    refine .plain (by simp [Token.isEnd, hkinds.1]) fun hplain => ?_
    refine .skip fun t' => .close fun span => .pure ?_
    rw [Token.yield_of_kind hkinds.2 hkinds.1, Expression.yield,
      hplain.token_literalValue hk]
    rfl
  cases hk : t.kind with
  | identifier => exact hname (.inl hk)
  | numeric => exact hliteral (.inl hk)
  | string => exact hliteral (.inr (.inl hk))
  | boolean => exact hliteral (.inr (.inr (.inl hk)))
  | null => exact hliteral (.inr (.inr (.inr hk)))
  | punctuator =>
      exact .ite (fun _ => yields_group h t) fun _ => hfails
  | endOfInput => exact hfails
  | keyword =>
      refine .ite (fun hword => ?_) fun _ => ?_
      · refine (yields_functionExpression h hword).bind fun fn t' => ?_
        exact .pure rfl
      · exact .ite (fun _ => hname (.inr hk)) fun _ => hfails

/-- The tokens of the calls of a value. -/
theorem yields_callsOf (h : inner.Yields) (start : Position) (steps : Nat)
    (callee : Expression Span) :
    (callsOf inner start steps callee).YieldsAt t callee.yield
      Expression.yield := by
  induction steps generalizing t callee with
  | zero => exact .exhausted
  | succ steps ih =>
      refine .isAt (.ite (fun _ => ?_) fun _ => .pure rfl)
      refine .next (yields_arguments h) fun args t' => .close fun span => ?_
      have hcall : callee.yield ++ args.flatMap Expression.yield
          = (Expression.call callee args span).yield := by
        simp
      rw [hcall]
      exact ih _

/-- The tokens of a value with its calls. -/
theorem yields_call (h : inner.Yields) :
    (call inner).Yields Expression.yield := by
  intro t
  refine .lookahead (.bind (yields_primary h t) fun callee t' => ?_)
  exact yields_callsOf h _ _ callee

/-- The tokens of an operand with its update. -/
theorem yields_update (h : inner.Yields) :
    (update inner).Yields Expression.yield := by
  intro t
  refine .lookahead ?_
  cases hop : t.updateOperator? with
  | some operator =>
      refine .skip fun t' => .next h.unary fun argument t'' => ?_
      refine .stay (waits_requireAssignable _) fun _ => ?_
      refine .close fun span => .pure ?_
      rw [Token.yield_of_updateOperator? hop]
      rfl
  | none =>
      refine .bind (yields_call h t) fun argument t' => ?_
      refine .lookahead (.afterLineBreak fun newLine => ?_)
      cases hop' : t'.updateOperator? with
      | none => exact .pure rfl
      | some operator =>
          cases newLine with
          | true => exact .pure rfl
          | false =>
              refine .stay (waits_requireAssignable _) fun _ => ?_
              refine .skip fun t'' => .close fun span => .pure ?_
              rw [Token.yield_of_updateOperator? hop']
              rfl

/-- The tokens of an operand with the operators before it. -/
theorem yields_unary (h : inner.Yields) :
    (unary inner).Yields Expression.yield := by
  intro t
  refine .lookahead ?_
  cases hop : t.unaryOperator? with
  | some operator =>
      refine .skip fun t' => .next h.unary fun argument t'' => ?_
      refine .close fun span => .pure ?_
      rw [Token.yield_of_unaryOperator? hop]
      rfl
  | none => exact yields_update h t

/-- The tokens of a power. -/
theorem yields_power (h : inner.Yields) :
    (power inner).Yields Expression.yield := by
  intro t
  refine .lookahead (.bind (yields_unary h t) fun base t' => ?_)
  refine .ite (fun _ => .pure rfl) fun _ => ?_
  refine .isAt (.ite (fun hmark => ?_) fun _ => .pure rfl)
  refine .skip fun t'' => .next h.power fun exponent t₃ => ?_
  refine .close fun span => .pure ?_
  rw [Token.yield_of_isPunctuator hmark]
  simp [punctuatorYield, BinaryOperator.text]

-- ====================================== operators between operands

/-- The tokens of the operands on a stack and of the operators after
them. -/
def stackYield : List Pending → List TokenValue
  | [] => []
  | pending :: stack =>
    stackYield stack ++ pending.left.yield
      ++ [.text pending.operator.text]

/-- The tokens of a single operation. -/
theorem yields_operation {pending : Pending} {right : Expression Span} :
    (operation pending right).YieldsAt t
      (seen ++ (pending.left.yield ++ .text pending.operator.text
        :: right.yield))
      (fun e => seen ++ e.yield) := by
  unfold operation
  cases hop : pending.operator with
  | binary operator => exact .close fun span => .pure rfl
  | logical operator => exact .close fun span => .pure rfl

/-- Closing operations keeps the tokens in order. -/
theorem yields_reduce (precedence : Nat) (stack : List Pending)
    (start : Position) (e : Expression Span) :
    (reduce precedence stack start e).YieldsAt t
      (stackYield stack ++ e.yield)
      (fun r => stackYield r.1 ++ r.2.2.yield) := by
  induction stack generalizing t start e with
  | nil => exact .pure rfl
  | cons pending stack ih =>
      unfold reduce
      split
      case isFalse => exact .pure rfl
      case isTrue =>
        have hstack : stackYield (pending :: stack) ++ e.yield
            = stackYield stack ++ (pending.left.yield
              ++ .text pending.operator.text :: e.yield) := by
          simp [stackYield]
        rw [hstack]
        exact .bind yields_operation fun e' t' => ih pending.start e'

/-- Every operation can be closed. -/
theorem reduce_zero {stack : List Pending} {start : Position}
    {e : Expression Span} {s s' : ParseState}
    {r : List Pending × Position × Expression Span}
    (h : reduce 0 stack start e s = .ok r s') : r.1 = [] := by
  induction stack generalizing start e s with
  | nil =>
      obtain ⟨rfl, -⟩ := pure_ok.1 h
      rfl
  | cons pending stack ih =>
      rw [reduce, if_pos (Nat.zero_le _)] at h
      obtain ⟨e', s₁, -, h⟩ := bind_ok.1 h
      exact ih h

/-- The tokens of a chain of operations. -/
theorem yields_operations (h : inner.Yields) (steps : Nat)
    (stack : List Pending) (start : Position) (e : Expression Span) :
    (operations inner steps stack start e).YieldsAt t
      (stackYield stack ++ e.yield) Expression.yield := by
  induction steps generalizing t stack start e with
  | zero => exact .exhausted
  | succ steps ih =>
      refine .lookahead ?_
      cases hop : t.infixOperator? with
      | none =>
          refine .bindStay (waits_reduce 0 _ _ _) (yields_reduce 0 _ _ _)
            fun r ⟨s, s', hr⟩ => .pure ?_
          rw [reduce_zero hr]
          rfl
      | some operator =>
          refine .bindStay (waits_reduce _ _ _ _) (yields_reduce _ _ _ _)
            fun r _ => .skip fun t₁ => ?_
          refine .lookahead (.next (yields_power h) fun right t₂ => ?_)
          rw [Token.yield_of_infixOperator? hop]
          exact ih _ _ _

/-- The tokens of operands with the operators between them. -/
theorem yields_binary (h : inner.Yields) :
    (binary inner).Yields Expression.yield := by
  intro t
  refine .lookahead (.next (yields_power h) fun e t' => ?_)
  exact yields_operations h _ [] _ e

/-- The tokens of a choice between two values. -/
theorem yields_conditional (h : inner.Yields) :
    (conditional inner).Yields Expression.yield := by
  intro t
  refine .lookahead (.bind (yields_binary h t) fun test t' => ?_)
  refine .isAt (.ite (fun hmark => ?_) fun _ => .pure rfl)
  refine .skip fun t₂ => .next h.assignment fun consequent t₃ => ?_
  refine .expect fun t₄ => .next h.assignment fun alternate t₅ => ?_
  refine .close fun span => .pure ?_
  rw [Token.yield_of_isPunctuator hmark]
  simp [punctuatorYield]

/-- The tokens of an assignment. -/
theorem yields_assignment (h : inner.Yields) :
    (assignment inner).Yields Expression.yield := by
  intro t
  refine .lookahead (.bind (yields_conditional h t) fun left t' => ?_)
  refine .lookahead ?_
  cases hop : t'.assignmentOperator? with
  | none => exact .pure rfl
  | some operator =>
      refine .stay (waits_requireAssignable _) fun _ => ?_
      refine .skip fun t₂ => .next h.assignment fun right t₃ => ?_
      refine .close fun span => .pure ?_
      rw [Token.yield_of_assignmentOperator? hop]
      simp

/-- The tokens of an expression, also of several items. -/
theorem yields_expression (h : inner.Yields) :
    (expression inner).Yields Expression.yield := by
  intro t
  refine .lookahead (.bind (yields_assignment h t) fun e t' => ?_)
  refine .next (yields_furtherItems (yields_assignment h))
    fun further t'' => ?_
  exact yields_sequenceOf rfl

end Parse

end ScriptTree
