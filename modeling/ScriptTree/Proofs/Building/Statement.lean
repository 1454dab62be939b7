/-
The trees that statements and scripts build.

A statement that has lost its body to a missing parenthesis gets an empty
one, which takes no token. That needs a tolerant state and a token that
was consumed before. A missing parenthesis leaves such a state, since the
token in its place is passed over (`Parse.BuildsAt.missingParenthesis`).

A script is completed over everything. Its own end is set when its first
token is looked at, before any is consumed, so what is said of a script
is said from that state on (`Parse.script_builds`).
-/
import ScriptTree.Grammar.Script
import ScriptTree.Proofs.Building.Expression
import ScriptTree.Proofs.Yield.Statement

namespace ScriptTree

namespace Parse

variable {inner : Productions} {s₀ s s' : ParseState} {b c : Bool}
  {seen : List (Outline Span)}

/-- There is no node in the end of a statement. -/
theorem builds_endStatement : endStatement.BuildsNothing false := by
  refine .bind .lookahead fun t => .ite (.forget .skip) ?_
  refine .bind .afterLineBreak fun _ => .ite (.pure ()) ?_
  exact .ite .extendToLookahead (.unexpected t)

-- ===================================================== declarations

/-- There is no node in the refusal of `let` as a name. -/
theorem builds_refuseLet (kind : DeclarationKind) :
    (refuseLet kind).BuildsNothing false :=
  .bind .lookahead fun _ => .ite (.objectTo (by decide)) (.pure ())

/-- The nodes of the value of a declared name. -/
theorem builds_declaredValue (h : inner.Builds) (kind : DeclarationKind) :
    (declaredValue inner kind).Builds false Expression.outlineOption := by
  refine .before (.isAt "=") fun _ => .ite (fun _ => ?_) fun _ => ?_
  · exact .before .skip fun _ =>
      ((builds_assignment h).map fun _ => rfl).forget
  · exact .ite (fun _ => .of_fails fun _ _ _ => reject_ok) fun _ =>
      .of_at fun _ => .pure rfl

/-- The nodes of a declared name with its value. -/
theorem builds_declarator (h : inner.Builds) (kind : DeclarationKind) :
    (declarator inner kind).Builds true fun d => [d.outline] := by
  refine .lookahead fun s₀ => .silent (builds_refuseLet kind) fun _ => ?_
  refine .next (builds_boundName _) fun id => ?_
  refine .next (builds_declaredValue h kind) fun init => ?_
  exact .close fun span => .pure rfl

/-- The nodes of one or more declared names. -/
theorem builds_declarators (h : inner.Builds) (kind : DeclarationKind) :
    (declarators inner kind).Builds true
      (List.map Declarator.outline) := by
  have hfurther : (do skip; declarator inner kind).Builds true
      fun d => [d.outline] :=
    .before .skip fun _ => builds_declarator h kind
  refine .of_at fun _ => .next (builds_declarator h kind) fun first => ?_
  have hrest := builds_collectWhile (.isAt ",") hfurther
  refine .next (hrest _) fun further => ?_
  exact .pure rfl

/-- A declaration has the names that it declares within it. -/
theorem Declaration.outline_eq {kind : DeclarationKind}
    {declared : List (Declarator Span)} {span : Span} :
    (Declaration.mk kind declared span).outline
      = .node .variableDeclaration span
        (declared.map Declarator.outline) := by
  simp [Declaration.outline]

/-- The nodes of a declaration as a statement. -/
theorem builds_declaration (h : inner.Builds) (kind : DeclarationKind) :
    (declaration inner kind).Builds true fun s => [s.outline] := by
  refine .lookahead fun s₀ => .silent .skip fun _ => ?_
  refine .next (builds_declarators h kind) fun declared => ?_
  refine .silent builds_endStatement fun _ => .close fun span => .pure ?_
  rw [Statement.outline, Declaration.outline_eq, List.nil_append]

/-- There is no node in the look for `var`. -/
theorem builds_isAtVar : isAtVar.BuildsNothing false :=
  .bind .lookahead fun _ => .ite (.bindingAhead true) (.pure false)

-- ============================================ conditions and loops

/-- What goes on without a parenthesis is tolerant. -/
theorem missingParenthesis_builds
    (h : missingParenthesis s = .ok b s') :
    s.Builds b [] s' ∧ (b = true → s'.log.tolerant = true) := by
  unfold missingParenthesis at h
  rw [isAt_bind, isTolerant_bind] at h
  split at h
  case isTrue =>
    obtain ⟨rfl, rfl⟩ := pure_ok.1 h
    exact ⟨.refl _, by simp⟩
  case isFalse =>
    obtain ⟨t, s₁, hshift, h⟩ := bind_ok.1 h
    obtain ⟨_, s₂, hobject, h⟩ := bind_ok.1 h
    obtain ⟨rfl, rfl⟩ := pure_ok.1 h
    have hbuilt := BuildsNothing.objectTo
      (unexpected_ne_escapedReserved t) hobject
    refine ⟨(BuildsNothing.shift hshift).append hbuilt, fun _ => ?_⟩
    obtain ⟨htolerant, rfl⟩ := tolerate_ok.1 hobject
    exact htolerant

/-- A parenthesis is only missing where the parse is tolerant. -/
theorem BuildsAt.missingParenthesis {β : Type} {f : Bool → Parse β}
    {w : β → List (Outline Span)}
    (htrue : ∀ s a s', s₀.Builds true seen s → s.log.tolerant = true →
      f true s = .ok a s' → s₀.Builds c (w a) s')
    (hfalse : BuildsAt s₀ b seen (f false) c w) :
    BuildsAt s₀ b seen (Parse.missingParenthesis >>= f) c w := by
  intro s a s' hs h
  obtain ⟨missing, s₁, h₁, h₂⟩ := bind_ok.1 h
  obtain ⟨hbuilt, htolerant⟩ := missingParenthesis_builds h₁
  have happend := hs.append hbuilt
  rw [List.append_nil] at happend
  cases missing with
  | true => exact htrue s₁ a s' happend (htolerant rfl) h₂
  | false => exact hfalse happend h₂

/-- A body that is missing is a node all the same. -/
theorem missingBody_builds {body : Statement Span}
    (hs : s₀.Builds true seen s) (ht : s.log.tolerant = true)
    (h : missingBody s = .ok body s') :
    s₀.Builds true (seen ++ [body.outline]) s' := by
  unfold missingBody at h
  rw [lookahead_bind] at h
  obtain ⟨span, s₁, hclose, h⟩ := bind_ok.1 h
  obtain ⟨rfl, rfl⟩ := pure_ok.1 h
  exact .missing hs ht hclose

/-- The nodes of the body of a loop. -/
theorem builds_loopBody (h : inner.Builds) (jumps : Jumps) :
    (loopBody inner jumps).Builds true fun s => [s.outline] := by
  refine .of_at fun s₀ => .missingParenthesis ?_ ?_
  · intro s body s' hs ht hbody
    exact missingBody_builds hs ht hbody
  · exact .silent (.expect ")") fun _ => .after (h.statement _)

/-- The nodes of the other branch, which may be missing. -/
theorem builds_elseBranch (h : inner.Builds) (jumps : Jumps) :
    (elseBranch inner jumps).Builds false Statement.outlineOption :=
  .before (.isAtWord "else") fun _ => .ite
    (fun _ => .before .skip fun _ =>
      ((h.statement jumps).map fun _ => rfl).forget)
    fun _ => .of_at fun _ => .pure rfl

/-- The nodes of a statement under a condition. -/
theorem builds_ifElse (h : inner.Builds) (jumps : Jumps) :
    (ifElse inner jumps).Builds true fun s => [s.outline] := by
  refine .lookahead fun s₀ => .silent .skip fun _ => ?_
  refine .silent (.expect "(") fun _ => ?_
  refine .next (builds_expression h) fun test => ?_
  refine .missingParenthesis ?_ (.silent (.expect ")") fun _ => ?_)
  · intro s statement s' hs ht hok
    obtain ⟨consequent, s₁, hbody, hok⟩ := bind_ok.1 hok
    have hclose : BuildsAt s₀ true ([test.outline] ++ [consequent.outline])
        (close .ifStatement s₀.lookahead.span.start >>= fun span =>
          return Statement.ifElse test consequent none span) true
        fun s => [s.outline] := .close fun span => .pure rfl
    exact hclose (missingBody_builds hs ht hbody) hok
  · refine .next (h.statement jumps) fun consequent => ?_
    refine .next (builds_elseBranch h jumps) fun alternate => ?_
    exact .close fun span => .pure rfl

/-- The nodes of a loop with its condition in front. -/
theorem builds_whileLoop (h : inner.Builds) (jumps : Jumps) :
    (whileLoop inner jumps).Builds true fun s => [s.outline] := by
  refine .lookahead fun s₀ => .silent .skip fun _ => ?_
  refine .silent (.expect "(") fun _ => ?_
  refine .next (builds_expression h) fun test => ?_
  refine .next (builds_loopBody h jumps) fun body => ?_
  exact .close fun span => .pure rfl

/-- There is no node in the end of a loop with its condition behind. -/
theorem builds_loopEnd : loopEnd.BuildsNothing false := by
  have hmissing : missingParenthesis.BuildsNothing false :=
    fun _ _ _ h => (missingParenthesis_builds h).1.forget
  refine .bind hmissing fun _ => ?_
  refine .ite (.pure ()) (.bind (.expect ")") fun _ => ?_)
  exact .bind (.isAt ";") fun _ => .ite (.forget .skip) (.pure ())

/-- The nodes of a loop with its condition behind. -/
theorem builds_doWhileLoop (h : inner.Builds) (jumps : Jumps) :
    (doWhileLoop inner jumps).Builds true fun s => [s.outline] := by
  refine .lookahead fun s₀ => .silent .skip fun _ => ?_
  refine .next (h.statement _) fun body => ?_
  refine .silent (.expectWord "while") fun _ => ?_
  refine .silent (.expect "(") fun _ => ?_
  refine .next (builds_expression h) fun test => ?_
  refine .silent builds_loopEnd fun _ => ?_
  exact .close fun span => .pure rfl

/-- There is no node in the look for a declaration in a loop head. -/
theorem builds_forKind : forKind.BuildsNothing false := by
  refine .bind (.isAtWord "const") fun _ => .ite (.pure _) ?_
  refine .bind (.isAtWord "let") fun _ => .ite (.pure _) ?_
  exact .bind builds_isAtVar fun _ => .ite (.pure _) (.pure _)

/-- The nodes of the start of a loop head. -/
theorem builds_forStart (h : inner.Builds) :
    (forStart inner).Builds true fun init => [init.outline] := by
  refine .lookahead fun s₀ => .silent builds_forKind fun kind => ?_
  cases kind with
  | some kind =>
      refine .silent .skip fun _ => ?_
      refine .next (builds_declarators h kind) fun declared => ?_
      refine .close fun span => .pure ?_
      rw [ForInit.outline, Declaration.outline_eq, List.nil_append]
  | none => exact .after ((builds_expression h).map fun _ => rfl)

/-- The nodes of the start of a loop head, which may be empty. -/
theorem builds_forInit (h : inner.Builds) :
    (forInit inner).Builds true ForInit.outlineOption := by
  refine .before (.isAt ";") fun _ => .ite (fun _ => ?_) fun _ => ?_
  · exact .of_at fun _ => .silent .skip fun _ => .pure rfl
  · refine .of_at fun _ => .next (builds_forStart h) fun init => ?_
    exact .silent (.expect ";") fun _ => .pure rfl

/-- The nodes of an expression that may be missing. -/
theorem builds_optionalExpression (h : inner.Builds) (stop : String) :
    (optionalExpression inner stop).Builds false
      Expression.outlineOption :=
  .before (.isAt stop) fun _ => .ite
    (fun _ => .of_at fun _ => .pure rfl)
    fun _ => ((builds_expression h).map fun _ => rfl).forget

/-- The nodes of a loop with a head of three parts. -/
theorem builds_forLoop (h : inner.Builds) (jumps : Jumps) :
    (forLoop inner jumps).Builds true fun s => [s.outline] := by
  refine .lookahead fun s₀ => .silent .skip fun _ => ?_
  refine .silent (.expect "(") fun _ => ?_
  refine .next (builds_forInit h) fun init => ?_
  refine .next (builds_optionalExpression h ";") fun test => ?_
  refine .silent (.expect ";") fun _ => ?_
  refine .next (builds_optionalExpression h ")") fun update => ?_
  refine .next (builds_loopBody h jumps) fun body => ?_
  exact .close fun span => .pure rfl

-- ============================================================ jumps

/-- There is no node in the test of a label. -/
theorem builds_requireLabel (jumps : Jumps) (id : Identifier Span) :
    (requireLabel jumps id).BuildsNothing false :=
  .ite (.pure ()) (.tolerate (unknownLabel_ne_escapedReserved _))

/-- The nodes of the label of a jump, which may be missing. -/
theorem builds_jumpLabel (jumps : Jumps) :
    (jumpLabel jumps).Builds false Identifier.outlineOption := by
  refine .before .lookahead fun t => .before .afterLineBreak fun _ => ?_
  refine .ite (fun _ => .of_at fun _ => .pure rfl) fun _ => ?_
  refine .forget (c := true) (.of_at fun _ => ?_)
  refine .next (builds_boundName false) fun id => ?_
  exact .silent (builds_requireLabel jumps id) fun _ => .pure rfl

/-- There is no node in the end of a jump. -/
theorem builds_endJump (jumps : Jumps) (label : Option (Identifier Span))
    {cause : Cause}
    (hcause : cause.description ≠ Message.escapedReserved) :
    (endJump jumps label cause).BuildsNothing false :=
  .bind builds_endStatement fun _ => .ite (.object hcause) (.pure ())

/-- A jump is built from its label. -/
theorem builds_jump (jumps : Jumps) {cause : Cause} {kind : NodeKind}
    {f : Option (Identifier Span) → Span → Statement Span}
    (hcause : cause.description ≠ Message.escapedReserved)
    (hf : ∀ label span, (f label span).outline
      = .node kind span (Identifier.outlineOption label)) :
    Builds (do
      let first ← lookahead
      skip
      let label ← jumpLabel jumps
      endJump jumps label cause
      let span ← close kind first.span.start
      return f label span) true fun s => [s.outline] := by
  refine .lookahead fun s₀ => .silent .skip fun _ => ?_
  refine .next (builds_jumpLabel jumps) fun label => ?_
  refine .silent (builds_endJump jumps label hcause) fun _ => ?_
  exact .close fun span => .pure (by rw [hf, List.nil_append])

/-- The nodes of a jump out of a loop. -/
theorem builds_breaking (jumps : Jumps) :
    (breaking jumps).Builds true fun s => [s.outline] :=
  builds_jump jumps (by decide) fun _ _ => rfl

/-- The nodes of a jump to the next round. -/
theorem builds_continuing (jumps : Jumps) :
    (continuing jumps).Builds true fun s => [s.outline] :=
  builds_jump jumps (by decide) fun _ _ => rfl

/-- The nodes of the value to return, which may be missing. -/
theorem builds_returnValue (h : inner.Builds) :
    (returnValue inner).Builds false Expression.outlineOption := by
  have hvalue : hasReturnValue.BuildsNothing false :=
    .bind .lookahead fun _ => .bind .afterLineBreak fun _ => .pure _
  refine .before hvalue fun _ => .ite (fun _ => ?_) fun _ =>
    .of_at fun _ => .pure rfl
  exact ((builds_expression h).map fun _ => rfl).forget

/-- There is no node in the test of a return. -/
theorem builds_requireFunction (jumps : Jumps) :
    (requireFunction jumps).BuildsNothing false :=
  .ite (.pure ()) (.object (by decide))

/-- The nodes of a return. -/
theorem builds_returning (h : inner.Builds) (jumps : Jumps) :
    (returning inner jumps).Builds true fun s => [s.outline] := by
  refine .before (builds_requireFunction jumps) fun _ => ?_
  refine .lookahead fun s₀ => .silent .skip fun _ => ?_
  refine .next (builds_returnValue h) fun argument => ?_
  refine .silent builds_endStatement fun _ => ?_
  exact .close fun span => .pure rfl

/-- The nodes of a value that is thrown. -/
theorem builds_throwing (h : inner.Builds) :
    (throwing inner).Builds true fun s => [s.outline] := by
  refine .lookahead fun s₀ => .silent .skip fun _ => ?_
  refine .silent .afterLineBreak fun _ => ?_
  refine .ite (fun _ => .reject) fun _ => ?_
  refine .next (builds_expression h) fun argument => ?_
  refine .silent builds_endStatement fun _ => ?_
  exact .close fun span => .pure rfl

-- ================================================ other statements

/-- The nodes of statements in braces. -/
theorem builds_block (h : inner.Builds) (jumps : Jumps) :
    (block inner jumps).Builds true fun b => [b.outline] := by
  have hmore : (do return !(← isAt "\x7d") : Parse Bool).BuildsNothing
      false := .bind (.isAt "\x7d") fun _ => .pure _
  refine .lookahead fun s₀ => .silent .skip fun _ => ?_
  refine .next (builds_collectWhile hmore (h.item jumps) _) fun body => ?_
  refine .silent (.expect "\x7d") fun _ => .close fun span => .pure ?_
  simp [Block.outline]

/-- The nodes of a semicolon alone. -/
theorem builds_emptyStatement :
    emptyStatement.Builds true fun s => [s.outline] :=
  .lookahead fun _ => .silent .skip fun _ => .close fun _ => .pure rfl

/-- The nodes of a call of the debugger. -/
theorem builds_debugger : debugger.Builds true fun s => [s.outline] :=
  .lookahead fun _ => .silent .skip fun _ =>
    .silent builds_endStatement fun _ => .close fun _ => .pure rfl

/-- The statement starts where its expression does. -/
theorem builds_expressionEnd (e : Expression Span) :
    BuildsAt s₀ true [e.outline] (expressionEnd s₀.lookahead.span.start e)
      true fun s => [s.outline] :=
  .silent builds_endStatement fun _ => .close fun _ => .pure rfl

/-- The nodes of an expression as a statement. -/
theorem builds_expressionStatement (h : inner.Builds) :
    (expressionStatement inner).Builds true fun s => [s.outline] :=
  .lookahead fun _ => .next (builds_expression h) fun e =>
    builds_expressionEnd e

/-- The nodes of a statement with a label. -/
theorem builds_labeled (h : inner.Builds) (jumps : Jumps)
    (label : Identifier Span) :
    BuildsAt s₀ true [label.outline]
      (labeled inner jumps s₀.lookahead.span.start label) true
      fun s => [s.outline] := by
  refine .silent .skip fun _ => .ite (fun _ => .reject) fun _ => ?_
  refine .next (h.statement _) fun body => ?_
  exact .close fun span => .pure rfl

/-- The nodes of a statement with a label, or an expression. -/
theorem builds_labeledOrExpression (h : inner.Builds) (jumps : Jumps) :
    (labeledOrExpression inner jumps).Builds true
      fun s => [s.outline] := by
  refine .lookahead fun s₀ => .next (builds_expression h) fun e => ?_
  refine .silent (.isAt ":") fun atColon => ?_
  split
  case h_1 label => exact builds_labeled h jumps label
  case h_2 => exact builds_expressionEnd e

-- ======================================================= the choice

/-- The nodes of a statement that a word begins. -/
theorem builds_keywordStatement (h : inner.Builds) (jumps : Jumps)
    (word : String) :
    (keywordStatement inner jumps word).Builds true
      fun s => [s.outline] := by
  unfold keywordStatement
  split
  · exact builds_breaking jumps
  · exact builds_continuing jumps
  · exact builds_debugger
  · exact builds_doWhileLoop h jumps
  · exact builds_forLoop h jumps
  · exact (builds_functionDeclaration h).map fun _ => rfl
  · exact builds_ifElse h jumps
  · exact builds_labeledOrExpression h jumps
  · exact builds_returning h jumps
  · exact builds_whileLoop h jumps
  · exact builds_expressionStatement h

/-- The nodes of a statement. -/
theorem builds_statement (h : inner.Builds) (jumps : Jumps) :
    (statement inner jumps).Builds true fun s => [s.outline] := by
  refine .before .lookahead fun t => ?_
  have hexpression := builds_expressionStatement h
  cases t.kind with
  | boolean | null | numeric | string => exact hexpression
  | endOfInput => exact .of_fails fun _ _ _ => unexpected_ok
  | keyword => exact builds_keywordStatement h jumps _
  | punctuator =>
      refine .ite (fun _ => ?_) fun _ => .ite (fun _ => ?_) fun _ =>
        hexpression
      · exact (builds_block h jumps).map fun _ => rfl
      · exact builds_emptyStatement
  | identifier =>
      refine .before builds_isAtVar fun _ => .ite (fun _ => ?_)
        fun _ => .ite (fun _ => ?_) fun _ => ?_
      · exact builds_declaration h .var
      · exact builds_throwing h
      · exact builds_labeledOrExpression h jumps

/-- The nodes of a statement, or a function. -/
theorem builds_item (h : inner.Builds) (jumps : Jumps) :
    (item inner jumps).Builds true fun s => [s.outline] := by
  refine .before (.isAtWord "const") fun _ => .ite (fun _ => ?_)
    fun _ => ?_
  · exact builds_declaration h .const
  refine .before (.isAtWord "let") fun _ => .ite (fun _ => ?_)
    fun _ => builds_statement h jumps
  refine .before (.bindingAhead false) fun _ => .ite (fun _ => ?_)
    fun _ => builds_statement h jumps
  exact builds_declaration h .letting

end Parse

-- ============================================================ levels

/-- Every level of the grammar builds what it gives. -/
theorem Productions.builds_ofDepth (n : Nat) :
    (Productions.ofDepth n).Builds := by
  induction n with
  | zero =>
      have hexhausted {α : Type} {v : α → List (Outline Span)} :
          (Parse.exhausted : Parse α).Builds true v :=
        .of_fails fun _ _ _ => Parse.exhausted_ok
      exact {
        assignment := hexhausted
        unary := hexhausted
        power := hexhausted
        statement := fun _ => hexhausted
        item := fun _ => hexhausted }
  | succ n ih =>
      exact {
        assignment := Parse.builds_assignment ih
        unary := Parse.builds_unary ih
        power := Parse.builds_power ih
        statement := Parse.builds_statement ih
        item := Parse.builds_item ih }

/-- The way of a parse through a whole script: to the first token, which
is where the script starts; through the body to the end of the text; and
to the end of the script. -/
structure Parse.ScriptRun (start first stop final : ParseState)
    (script : Script Span) : Prop where
  begins : Parse.skip start = .ok () first
  builds : ParseState.Builds false
    { first with last := first.lookahead.span.stop }
    (script.body.map Statement.outline) stop
  ends : stop.lookahead.isEnd = true
  closes : Parse.close .script first.lookahead.span.start stop
    = .ok script.place final

/-- A script is built from its first token to the end of the text. -/
theorem Parse.script_builds {n : Nat} {start final : ParseState}
    {script : Script Span}
    (h : Parse.script (.ofDepth n) start = .ok script final) :
    ∃ first stop, Parse.ScriptRun start first stop final script := by
  obtain ⟨_, first, hskip, h⟩ := bind_ok.1 h
  rw [lookahead_bind] at h
  obtain ⟨_, s₁, hplace, h⟩ := bind_ok.1 h
  cases hplace
  obtain ⟨body, stop, hbody, h⟩ := bind_ok.1 h
  obtain ⟨span, s₂, hclose, h⟩ := bind_ok.1 h
  obtain ⟨rfl, rfl⟩ := pure_ok.1 h
  have hmore : (do return !(← lookahead).isEnd : Parse Bool).BuildsNothing
      false := .bind .lookahead fun _ => .pure _
  have hlooks : Looks (do return !(← lookahead).isEnd)
      (fun t => !t.isEnd) := fun _ => rfl
  have hitem := (Productions.builds_ofDepth n).item .ofScript
  exact ⟨first, stop, {
    begins := hskip
    builds := builds_collectWhile hmore hitem _ hbody
    ends := by simpa using looks_collectWhile hlooks hbody
    closes := hclose }⟩

end ScriptTree
