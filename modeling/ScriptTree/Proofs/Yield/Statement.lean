/-
The tokens of statements and scripts.

The word that opens a statement decides which production it is given to,
and that production consumes the word unseen. So what is proved of it is
proved with that word as the lookahead.
-/
import ScriptTree.Grammar.Script
import ScriptTree.Proofs.Yield.Expression

namespace ScriptTree

namespace Parse

variable {inner : Productions} {t : Token} {seen : List TokenValue}

/-- The tokens of the end of a statement. -/
theorem yields_endStatement : endStatement.Yields fun _ => [] := by
  intro t
  refine .lookahead (.ite (fun hmark => ?_) fun _ => ?_)
  · intro s u s' hs ht h
    refine ⟨(hs.skip h).1, ?_⟩
    rw [hs.yield_of_shift (skip_ok.1 h), ht,
      Token.yield_of_isPunctuator hmark]
    rfl
  · refine .afterLineBreak fun newLine => .ite (fun _ => .pure rfl)
      fun _ => ?_
    refine .ite (fun _ => ?_) fun _ => .unexpected
    intro s u s' hs ht h
    have hstay := waits_extendToLookahead h
    exact ⟨ParseState.Reaches.sound hstay.reaches hs, by
      rw [hstay.yield]⟩

-- ===================================================== declarations

/-- The tokens of the value of a declared name. -/
def initYield {π : Type} : Option (Expression π) → List TokenValue
  | none => []
  | some e => .text "=" :: e.yield

/-- A declared name yields the name, and then what its value does. -/
theorem Declarator.yield_eq {π : Type} (id : Identifier π)
    (init : Option (Expression π)) (place : π) :
    (Declarator.mk id init place).yield = id.yield ++ initYield init := by
  cases init with
  | none => simp [initYield]
  | some e => rfl

/-- The tokens of the value of a declared name. -/
theorem yields_declaredValue (h : inner.Yields) (kind : DeclarationKind) :
    (declaredValue inner kind).Yields initYield := by
  intro t
  refine .isAt (.ite (fun hmark => .skip fun t' => ?_) fun _ => ?_)
  · rw [Token.yield_of_isPunctuator hmark]
    exact (yields_assignment h t').after.map fun _ => rfl
  · split
    · exact .reject
    · exact .pure rfl

/-- The tokens of a declared name with its value. -/
theorem yields_declarator (h : inner.Yields) (kind : DeclarationKind) :
    (declarator inner kind).Yields Declarator.yield := by
  intro t
  refine .lookahead (.stay (waits_refuseLet kind) fun _ => ?_)
  refine .next (yields_boundName _) fun id t' => ?_
  refine .next (yields_declaredValue h kind) fun init t'' => ?_
  refine .close fun span => .pure ?_
  rw [Declarator.yield_eq, List.nil_append]

/-- The tokens of one or more declared names. -/
theorem yields_declarators (h : inner.Yields) (kind : DeclarationKind) :
    (declarators inner kind).Yields (List.flatMap Declarator.yield) := by
  intro t
  refine .next (yields_declarator h kind) fun first t' => ?_
  refine .next (yields_collectWhile (looks_isAt ",") (fun t ht => ?_) _)
    fun further t'' => .pure rfl
  refine .skip fun t' => ?_
  rw [Token.yield_of_isPunctuator ht]
  exact yields_declarator h kind t'

/-- The tokens of a declaration as a statement. -/
theorem yields_declaration (h : inner.Yields) {kind : DeclarationKind}
    (ht : t.yield = [.text kind.text]) :
    (declaration inner kind).YieldsAt t [] Statement.yield := by
  refine .lookahead (.skip fun t' => ?_)
  refine .next (yields_declarators h kind) fun declared t'' => ?_
  refine .next yields_endStatement fun _ t₃ => .close fun span => .pure ?_
  rw [ht]
  simp

/-- What starts with `var` starts with a name of that spelling. -/
theorem YieldsAt.isAtVar {β : Type} {f : Bool → Parse β}
    {w : β → List TokenValue}
    (ht : t.isIdentifier "var" = true → (f true).YieldsAt t seen w)
    (hf : (f false).YieldsAt t seen w) :
    (Parse.isAtVar >>= f).YieldsAt t seen w := by
  intro s b s' hs hlook h
  obtain ⟨c, s₁, h₁, h₂⟩ := bind_ok.1 h
  unfold Parse.isAtVar at h₁
  rw [lookahead_bind, hlook] at h₁
  split at h₁
  case isTrue hvar =>
    obtain ⟨rfl, -⟩ := bindingAhead_ok.1 h₁
    cases c with
    | true => exact ht hvar hs hlook h₂
    | false => exact hf hs hlook h₂
  case isFalse =>
    obtain ⟨rfl, rfl⟩ := pure_ok.1 h₁
    exact hf hs hlook h₂

-- ============================================ conditions and loops

/-- A strict parse misses no parenthesis. -/
theorem YieldsAt.missingParenthesis {β : Type} {f : Bool → Parse β}
    {w : β → List TokenValue} (hf : (f false).YieldsAt t seen w) :
    (Parse.missingParenthesis >>= f).YieldsAt t seen w := by
  intro s b s' hs ht h
  obtain ⟨c, s₁, h₁, h₂⟩ := bind_ok.1 h
  unfold Parse.missingParenthesis at h₁
  rw [isAt_bind, isTolerant_bind, hs.log, Bool.not_false, Bool.or_true,
    if_pos rfl] at h₁
  obtain ⟨rfl, rfl⟩ := pure_ok.1 h₁
  exact hf hs ht h₂

/-- The tokens of the body of a loop. -/
theorem yields_loopBody (h : inner.Yields) (jumps : Jumps) :
    (loopBody inner jumps).Yields Statement.yield := fun _ =>
  .missingParenthesis (.expect fun t' => h.statement _ t')

/-- The tokens of the other branch of a condition. -/
def elseYield {π : Type} : Option (Statement π) → List TokenValue
  | none => []
  | some s => .text "else" :: s.yield

/-- The tokens of the other branch, which may be missing. -/
theorem yields_elseBranch (h : inner.Yields) (jumps : Jumps) :
    (elseBranch inner jumps).Yields elseYield := by
  intro t
  refine .isAtWord (.ite (fun hword => .skip fun t' => ?_) fun _ =>
    .pure rfl)
  rw [Token.yield_of_isKeyword hword]
  exact (h.statement jumps t').after.map fun _ => rfl

/-- A statement under a condition yields its other branch last. -/
theorem Statement.yield_ifElse {π : Type} (test : Expression π)
    (consequent : Statement π) (alternate : Option (Statement π))
    (place : π) :
    (Statement.ifElse test consequent alternate place).yield
      = .text "if" :: test.yield ++ consequent.yield
        ++ elseYield alternate := by
  cases alternate with
  | none => simp [elseYield]
  | some s => rfl

/-- The tokens of a statement under a condition. -/
theorem yields_ifElse (h : inner.Yields) (jumps : Jumps)
    (ht : t.isKeyword "if" = true) :
    (ifElse inner jumps).YieldsAt t [] Statement.yield := by
  refine .lookahead (.skip fun t₁ => .expect fun t₂ => ?_)
  refine .next (yields_expression h) fun test t₃ => ?_
  refine .missingParenthesis (.expect fun t₄ => ?_)
  refine .next (h.statement jumps) fun consequent t₅ => ?_
  refine .next (yields_elseBranch h jumps) fun alternate t₆ => ?_
  refine .close fun span => .pure ?_
  rw [Token.yield_of_isKeyword ht, Statement.yield_ifElse]
  simp [punctuatorYield]

/-- The tokens of a loop with its condition in front. -/
theorem yields_whileLoop (h : inner.Yields) (jumps : Jumps)
    (ht : t.isKeyword "while" = true) :
    (whileLoop inner jumps).YieldsAt t [] Statement.yield := by
  refine .lookahead (.skip fun t₁ => .expect fun t₂ => ?_)
  refine .next (yields_expression h) fun test t₃ => ?_
  refine .next (yields_loopBody h jumps) fun body t₄ => ?_
  refine .close fun span => .pure ?_
  rw [Token.yield_of_isKeyword ht]
  simp [punctuatorYield]

/-- The tokens of the end of a loop with its condition behind. -/
theorem yields_loopEnd : loopEnd.Yields fun _ => [] := by
  intro t
  refine .missingParenthesis (.expect fun t' => ?_)
  refine .isAt (.ite (fun hmark => ?_) fun _ => .pure rfl)
  intro s u s' hs hlook h
  refine ⟨(hs.skip h).1, ?_⟩
  rw [hs.yield_of_shift (skip_ok.1 h), hlook,
    Token.yield_of_isPunctuator hmark]
  rfl

/-- The tokens of a loop with its condition behind. -/
theorem yields_doWhileLoop (h : inner.Yields) (jumps : Jumps)
    (ht : t.isKeyword "do" = true) :
    (doWhileLoop inner jumps).YieldsAt t [] Statement.yield := by
  refine .lookahead (.skip fun t₁ => ?_)
  refine .next (h.statement _) fun body t₂ => ?_
  refine .expectWord fun t₃ => .expect fun t₄ => ?_
  refine .next (yields_expression h) fun test t₅ => ?_
  refine .next yields_loopEnd fun _ t₆ => .close fun span => .pure ?_
  rw [Token.yield_of_isKeyword ht]
  simp [punctuatorYield]

/-- The word of a declaration is what it starts with. -/
theorem forKind_ok {s s' : ParseState} {kind : DeclarationKind}
    (h : forKind s = .ok (some kind) s') :
    s.lookahead.yield = [.text kind.text] := by
  unfold forKind at h
  rw [isAtWord_bind] at h
  split at h
  case isTrue hword =>
    cases (pure_ok.1 h).1
    exact Token.yield_of_isKeyword hword
  rw [isAtWord_bind] at h
  split at h
  case isTrue hword =>
    cases (pure_ok.1 h).1
    exact Token.yield_of_isKeyword hword
  obtain ⟨b, s₁, hvar, h⟩ := bind_ok.1 h
  split at h
  case isFalse => cases (pure_ok.1 h).1
  case isTrue hb =>
    subst hb
    cases (pure_ok.1 h).1
    unfold isAtVar at hvar
    rw [lookahead_bind] at hvar
    split at hvar
    case isTrue hname => exact Token.yield_of_isIdentifier hname
    case isFalse => cases (pure_ok.1 hvar).1

/-- The tokens of the start of a loop head. -/
theorem yields_forStart (h : inner.Yields) :
    (forStart inner).Yields ForInit.yield := by
  intro t
  refine .lookahead ?_
  intro s init s' hs ht hinit
  obtain ⟨kind, s₁, hkind, hinit⟩ := bind_ok.1 hinit
  have hstay := waits_forKind hkind
  have hs₁ := ParseState.Reaches.sound hstay.reaches hs
  rw [← hstay.yield]
  cases kind with
  | some kind =>
      have hword := forKind_ok hkind
      rw [ht] at hword
      refine YieldsAt.skip (fun t' => ?_) hs₁
        (hstay.lookahead.trans ht) hinit
      refine .next (yields_declarators h kind) fun declared t'' => ?_
      refine .close fun span => .pure ?_
      rw [hword]
      simp
  | none =>
      have hexpression : (ForInit.expression <$> expression inner).YieldsAt
          t [] ForInit.yield := (yields_expression h t).map fun _ => rfl
      exact hexpression hs₁ (hstay.lookahead.trans ht) hinit

/-- The tokens of the start of a loop head, which may be empty. -/
theorem yields_forInit (h : inner.Yields) :
    (forInit inner).Yields ForInit.yieldOption := by
  intro t
  refine .isAt (.ite (fun hmark => .skip fun t' => .pure ?_) fun _ => ?_)
  · rw [Token.yield_of_isPunctuator hmark]
    rfl
  · refine .next (yields_forStart h) fun init t' => ?_
    exact .expect fun t'' => .pure (by
      simp [punctuatorYield])

/-- The tokens of an expression that may be missing. -/
theorem yields_optionalExpression (h : inner.Yields) (stop : String) :
    (optionalExpression inner stop).Yields Expression.yieldOption :=
  fun t => .isAt (.ite (fun _ => .pure rfl) fun _ =>
    (yields_expression h t).map fun _ => rfl)

/-- The tokens of a loop with a head of three parts. -/
theorem yields_forLoop (h : inner.Yields) (jumps : Jumps)
    (ht : t.isKeyword "for" = true) :
    (forLoop inner jumps).YieldsAt t [] Statement.yield := by
  refine .lookahead (.skip fun t₁ => .expect fun t₂ => ?_)
  refine .next (yields_forInit h) fun init t₃ => ?_
  refine .next (yields_optionalExpression h ";") fun test t₄ => ?_
  refine .expect fun t₅ => ?_
  refine .next (yields_optionalExpression h ")") fun update t₆ => ?_
  refine .next (yields_loopBody h jumps) fun body t₇ => ?_
  refine .close fun span => .pure ?_
  rw [Token.yield_of_isKeyword ht]
  simp [punctuatorYield]

-- ============================================================ jumps

/-- The tokens of the label of a jump, which may be missing. -/
theorem yields_jumpLabel (jumps : Jumps) :
    (jumpLabel jumps).Yields Identifier.yieldOption := by
  intro t
  refine .lookahead (.afterLineBreak fun newLine => ?_)
  refine .ite (fun _ => .pure rfl) fun _ => ?_
  refine .next (yields_boundName false) fun id t' => ?_
  exact .stay (waits_requireLabel jumps id) fun _ => .pure rfl

/-- The tokens of the end of a jump. -/
theorem yields_endJump (jumps : Jumps) (label : Option (Identifier Span))
    (cause : Cause) :
    (endJump jumps label cause).Yields fun _ => [] := by
  intro t
  refine .next yields_endStatement fun _ t' => ?_
  refine .ite (fun _ => ?_) fun _ => .pure rfl
  intro s u s' hs _ h
  have hstay := waits_object cause h
  exact ⟨ParseState.Reaches.sound hstay.reaches hs, by
    rw [hstay.yield]
    rfl⟩

/-- A jump is written with its word and its label. -/
theorem yields_jump (jumps : Jumps) {cause : Cause} {kind : NodeKind}
    {word : String} {f : Option (Identifier Span) → Span → Statement Span}
    (ht : t.isKeyword word = true)
    (hf : ∀ label span, (f label span).yield
      = .text word :: Identifier.yieldOption label) :
    YieldsAt t [] (do
      let first ← lookahead
      skip
      let label ← jumpLabel jumps
      endJump jumps label cause
      let span ← close kind first.span.start
      return f label span) Statement.yield := by
  refine .lookahead (.skip fun t₁ => ?_)
  refine .next (yields_jumpLabel jumps) fun label t₂ => ?_
  refine .next (yields_endJump jumps label _) fun _ t₃ => ?_
  refine .close fun span => .pure ?_
  rw [Token.yield_of_isKeyword ht, hf]
  simp

/-- The tokens of a jump out of a loop. -/
theorem yields_breaking (jumps : Jumps) (ht : t.isKeyword "break" = true) :
    (breaking jumps).YieldsAt t [] Statement.yield :=
  yields_jump jumps ht fun _ _ => rfl

/-- The tokens of a jump to the next round. -/
theorem yields_continuing (jumps : Jumps)
    (ht : t.isKeyword "continue" = true) :
    (continuing jumps).YieldsAt t [] Statement.yield :=
  yields_jump jumps ht fun _ _ => rfl

/-- The tokens of the value to return, which may be missing. -/
theorem yields_returnValue (h : inner.Yields) :
    (returnValue inner).Yields Expression.yieldOption := by
  intro t
  have hwaits : hasReturnValue.Waits := by
    refine waits_lookahead.bind fun t => ?_
    exact waits_afterLineBreak.bind fun b => waits_pure _
  refine .stay hwaits fun b => .ite (fun _ => ?_) fun _ => .pure rfl
  exact (yields_expression h t).map fun _ => rfl

/-- The tokens of a return. -/
theorem yields_returning (h : inner.Yields) (jumps : Jumps)
    (ht : t.isKeyword "return" = true) :
    (returning inner jumps).YieldsAt t [] Statement.yield := by
  refine .stay (waits_requireFunction jumps) fun _ => ?_
  refine .lookahead (.skip fun t₁ => ?_)
  refine .next (yields_returnValue h) fun argument t₂ => ?_
  refine .next yields_endStatement fun _ t₃ => .close fun span => .pure ?_
  rw [Token.yield_of_isKeyword ht]
  simp

/-- The tokens of a value that is thrown. -/
theorem yields_throwing (h : inner.Yields)
    (ht : t.isIdentifier "throw" = true) :
    (throwing inner).YieldsAt t [] Statement.yield := by
  refine .lookahead (.skip fun t₁ => .afterLineBreak fun newLine => ?_)
  refine .ite (fun _ => .reject) fun _ => ?_
  refine .next (yields_expression h) fun argument t₂ => ?_
  refine .next yields_endStatement fun _ t₃ => .close fun span => .pure ?_
  rw [Token.yield_of_isIdentifier ht]
  simp

-- ================================================ other statements

/-- The tokens of statements in braces. -/
theorem yields_block (h : inner.Yields) (jumps : Jumps)
    (ht : t.isPunctuator "\x7b" = true) :
    (block inner jumps).YieldsAt t [] Block.yield := by
  refine .lookahead (.skip fun t₁ => ?_)
  refine .next (yields_collectWhile (q := fun t => !t.isPunctuator "\x7d")
    (fun _ => rfl) (fun t _ => h.item jumps t) _) fun body t₂ => ?_
  refine .expect fun t₃ => .close fun span => .pure ?_
  rw [Token.yield_of_isPunctuator ht]
  simp [punctuatorYield]

/-- The tokens of a semicolon alone. -/
theorem yields_emptyStatement (ht : t.isPunctuator ";" = true) :
    emptyStatement.YieldsAt t [] Statement.yield := by
  refine .lookahead (.skip fun t₁ => .close fun span => .pure ?_)
  rw [Token.yield_of_isPunctuator ht]
  rfl

/-- The tokens of a call of the debugger. -/
theorem yields_debugger (ht : t.isKeyword "debugger" = true) :
    debugger.YieldsAt t [] Statement.yield := by
  refine .lookahead (.skip fun t₁ => ?_)
  refine .next yields_endStatement fun _ t₂ => .close fun span => .pure ?_
  rw [Token.yield_of_isKeyword ht]
  rfl

/-- The tokens of the end of a statement that is an expression. -/
theorem yields_expressionEnd (start : Position) (e : Expression Span) :
    (expressionEnd start e).YieldsAt t e.yield Statement.yield := by
  refine .next yields_endStatement fun _ t₁ => .close fun span => .pure ?_
  simp

/-- The tokens of an expression as a statement. -/
theorem yields_expressionStatement (h : inner.Yields) :
    (expressionStatement inner).Yields Statement.yield := by
  intro t
  refine .lookahead (.bind (yields_expression h t) fun e t' => ?_)
  exact yields_expressionEnd _ e

/-- The tokens of a statement with a label. -/
theorem yields_labeled (h : inner.Yields) (jumps : Jumps)
    (start : Position) (label : Identifier Span)
    (ht : t.isPunctuator ":" = true) :
    (labeled inner jumps start label).YieldsAt t label.yield
      Statement.yield := by
  refine .skip fun t' => .ite (fun _ => .reject) fun _ => ?_
  refine .next (h.statement _) fun body t'' => .close fun span => .pure ?_
  rw [Token.yield_of_isPunctuator ht]
  simp [punctuatorYield]

/-- The tokens of a statement with a label, or an expression. -/
theorem yields_labeledOrExpression (h : inner.Yields) (jumps : Jumps) :
    (labeledOrExpression inner jumps).Yields Statement.yield := by
  intro t
  refine .lookahead (.bind (yields_expression h t) fun e t' => .isAt ?_)
  split
  case h_1 label hmark => exact yields_labeled h jumps _ label hmark
  case h_2 => exact yields_expressionEnd _ _

-- ====================================================== the choice

/-- The tokens of a statement that a word begins. -/
theorem yields_keywordStatement (h : inner.Yields) (jumps : Jumps)
    (hk : t.kind = .keyword) :
    (keywordStatement inner jumps t.shown).YieldsAt t []
      Statement.yield := by
  refine .plain (by simp [Token.isEnd, hk]) fun hplain => ?_
  have hvalue := hplain.formed.value_eq (by simp [hk])
  have hword {word : String} (hw : t.shown = word) :
      t.isKeyword word = true := by
    subst hw
    exact Token.isKeyword_iff.2 ⟨hk, by simp [Token.text?, hvalue]⟩
  unfold keywordStatement
  split
  case h_1 hw => exact yields_breaking jumps (hword hw)
  case h_2 hw => exact yields_continuing jumps (hword hw)
  case h_3 hw => exact yields_debugger (hword hw)
  case h_4 hw => exact yields_doWhileLoop h jumps (hword hw)
  case h_5 hw => exact yields_forLoop h jumps (hword hw)
  case h_6 hw =>
    exact (yields_functionDeclaration h (hword hw)).map fun _ => rfl
  case h_7 hw => exact yields_ifElse h jumps (hword hw)
  case h_8 => exact yields_labeledOrExpression h jumps t
  case h_9 hw => exact yields_returning h jumps (hword hw)
  case h_10 hw => exact yields_whileLoop h jumps (hword hw)
  case h_11 => exact yields_expressionStatement h t

/-- The tokens of a statement. -/
theorem yields_statement (h : inner.Yields) (jumps : Jumps) :
    (statement inner jumps).Yields Statement.yield := by
  intro t
  refine .lookahead ?_
  cases hk : t.kind with
  | boolean | null | numeric | string =>
      exact yields_expressionStatement h t
  | punctuator =>
      refine .ite (fun hmark => ?_) fun _ => .ite (fun hmark => ?_)
        fun _ => yields_expressionStatement h t
      · exact (yields_block h jumps hmark).map fun _ => rfl
      · exact yields_emptyStatement hmark
  | identifier =>
      refine .isAtVar (fun hvar => ?_) ?_
      · exact yields_declaration h (Token.yield_of_isIdentifier hvar)
      · refine .ite (fun hno => nomatch hno) fun _ => ?_
        exact .ite (fun hthrow => yields_throwing h hthrow) fun _ =>
          yields_labeledOrExpression h jumps t
  | keyword => exact yields_keywordStatement h jumps hk
  | endOfInput => exact .unexpected

/-- The tokens of a statement, or a function. -/
theorem yields_item (h : inner.Yields) (jumps : Jumps) :
    (item inner jumps).Yields Statement.yield := by
  intro t
  refine .isAtWord (.ite (fun hword => ?_) fun _ => ?_)
  · exact yields_declaration h (Token.yield_of_isKeyword hword)
  refine .isAtWord (.ite (fun hword => ?_) fun _ =>
    yields_statement h jumps t)
  refine .stay (waits_bindingAhead _) fun b => .ite (fun _ => ?_) fun _ =>
    yields_statement h jumps t
  exact yields_declaration h (Token.yield_of_isKeyword hword)

end Parse

-- ============================================================ levels

/-- Every level of the grammar consumes the tokens of what it gives. -/
theorem Productions.yields_ofDepth (n : Nat) :
    (Productions.ofDepth n).Yields := by
  induction n with
  | zero =>
      exact {
        assignment := fun _ => .exhausted
        unary := fun _ => .exhausted
        power := fun _ => .exhausted
        statement := fun _ _ => .exhausted
        item := fun _ _ => .exhausted }
  | succ n ih =>
      exact {
        assignment := Parse.yields_assignment ih
        unary := Parse.yields_unary ih
        power := Parse.yields_power ih
        statement := Parse.yields_statement ih
        item := Parse.yields_item ih }

end ScriptTree
