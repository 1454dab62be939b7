/-
Statements in two runs that come to the same end, and the levels of the
grammar.

A statement looks at its first token to tell which form it has, so that
it knows of a token to consume, or else has none and is refused. The main
statement is `levels_ofDepth`: of the levels of the grammar, any two that
are as many as a text has tokens ahead will do, and come to the same end.
-/
import ScriptTree.Proofs.Concord.Expression
import ScriptTree.Proofs.Simulation.Statement

namespace ScriptTree

-- ========================================================= scripts

namespace Parse

/-- What follows the first look at a script. -/
def scriptBody (productions : Productions) (start : Position) :
    Parse (Script Span) := do
  let body ← collectWhile (do return !(← lookahead).isEnd)
    (productions.item .ofScript) productions.depth
  let span ← close .script start
  return ⟨body, span⟩

/-- A script goes on from the place where its first token ends. -/
theorem script_of_skip {s u : ParseState} (h : skip s = .ok () u)
    (productions : Productions) :
    script productions s = scriptBody productions u.lookahead.span.start
      { u with last := u.lookahead.span.stop } :=
  bind_of_ok h

/-- A text with nothing legal at its start is refused at once. -/
theorem script_of_refused {s u : ParseState} {f : Failure}
    (h : shift s = .error f u) (productions : Productions) :
    script productions s = .error f u :=
  bind_of_error (bind_of_error h)

end Parse

namespace Concord

open View

variable {ω ρ δ : Type} {M : Concord ω ρ δ} {inner inner' : Productions}
  {b o : Bool} {n m : Nat}

-- ====================================================== declarations

/-- Both go on alike over the end of a statement. -/
theorem goes_endStatement :
    M.Goes n id Parse.endStatement Parse.endStatement := by
  apply agrees_lookahead.bind
  intro t t' ht
  apply Agrees.ite (isPunctuator_eq ht ";") goes_skip
  apply goes_afterLineBreak.bind
  intro c c' hc
  apply Agrees.ite hc (.pure rfl)
  apply Agrees.ite _ agrees_extendToLookahead (agrees_unexpected ht)
  rw [isEnd_eq ht, isPunctuator_eq ht]

/-- Both agree about the refusal of `let` as a name. -/
theorem agrees_refuseLet (kind : DeclarationKind) :
    M.Agrees (M.At b o n) (M.At b o n) id (Parse.refuseLet kind)
      (Parse.refuseLet kind) := by
  apply agrees_lookahead.bind
  intro t t' ht
  apply Agrees.ite _ (agrees_objectTo ht) (.pure rfl)
  rw [isKeyword_eq ht]

/-- Both go on alike over the value of a declared name. -/
theorem goes_declaredValue (h : M.Levels n inner inner')
    (kind : DeclarationKind) :
    M.Goes n (Option.map (Expression.map M.place))
      (Parse.declaredValue inner kind)
      (Parse.declaredValue inner' kind) := by
  apply agrees_isAt.bind
  intro c c' hc
  apply Agrees.ite hc
  · apply goes_skip.andThen
    apply (h.goes fun _ => consumes_assignment).map
    intro e e' he
    rw [Option.map_some, Option.map_some, he]
  · split
    case isTrue => exact agrees_reject
    case isFalse => exact .pure rfl

/-- Both consume a declared name with its value alike. -/
theorem consumes_declarator (h : M.Levels n inner inner')
    (kind : DeclarationKind) :
    M.Consumes n (Declarator.map M.place) (Parse.declarator inner kind)
      (Parse.declarator inner' kind) := by
  apply agrees_lookahead.bind
  intro t t' ht
  apply (agrees_refuseLet kind).andThen
  apply (consumes_boundName _).bind
  intro id id' hid
  apply (goes_declaredValue h kind).bind
  intro e e' he
  apply (agrees_close (start_eq ht)).bind
  intro p p' hp
  apply Agrees.pure
  simp only [Declarator.map, Expression.mapOption_eq, hid, he, hp]

/-- Both go on alike over one or more declared names. -/
theorem goes_declarators (h : M.Levels n inner inner')
    (kind : DeclarationKind) :
    M.Goes n (List.map (Declarator.map M.place))
      (Parse.declarators inner kind) (Parse.declarators inner' kind) := by
  apply (h.goes fun _ h => consumes_declarator h kind).bind
  intro d d' hd
  apply (goes_afterCommas (fun _ hm => consumes_declarator
    (h.mono (Nat.le_of_lt hm)) kind) h.depth h.depth').bind
  intro l l' hl
  apply Agrees.pure
  rw [List.map_cons, List.map_cons, hd, hl]

/-- Both open a declaration as a statement alike. -/
theorem opens_declaration (h : M.Levels n inner inner')
    (kind : DeclarationKind) :
    M.Opens n (Statement.map M.place) (Parse.declaration inner kind)
      (Parse.declaration inner' kind) := by
  apply agrees_lookahead.bind
  intro t t' ht
  apply opens_skip.andThen
  apply (goes_declarators h kind).bind
  intro l l' hl
  apply goes_endStatement.andThen
  apply (agrees_close (start_eq ht)).bind
  intro p p' hp
  apply Agrees.pure
  simp only [Statement.map, Declaration.map, Declarator.mapAll_eq, hl, hp]

/-- Both agree about the look for `var`. -/
theorem agrees_isAtVar :
    M.Agrees (M.At b o n) (M.At b o n) id Parse.isAtVar
      Parse.isAtVar := by
  apply agrees_lookahead.bind
  intro t t' ht
  exact .ite (isIdentifier_eq ht "var") agrees_bindingAhead (.pure rfl)

-- ============================================== conditions and loops

/-- Both go on alike over a body that is missing. -/
theorem goes_missingBody :
    M.Goes n (Statement.map M.place) Parse.missingBody
      Parse.missingBody := by
  apply agrees_lookahead.bind
  intro t t' ht
  apply (agrees_close (start_eq ht)).bind
  intro p p' hp
  apply Agrees.pure
  rw [Statement.map, Statement.map, hp]

/-- Both go on alike over the body of a loop. -/
theorem goes_loopBody (h : M.Levels n inner inner') (jumps : Jumps) :
    M.Goes n (Statement.map M.place) (Parse.loopBody inner jumps)
      (Parse.loopBody inner' jumps) := by
  apply goes_missingParenthesis.bind
  intro c c' hc
  apply Agrees.ite hc goes_missingBody
  exact goes_expect.andThen (h.goes_statement jumps.loop)

/-- Both go on alike over the other branch, which may be missing. -/
theorem goes_elseBranch (h : M.Levels n inner inner') (jumps : Jumps) :
    M.Goes n (Option.map (Statement.map M.place))
      (Parse.elseBranch inner jumps) (Parse.elseBranch inner' jumps) := by
  apply agrees_isAtWord.bind
  intro c c' hc
  apply Agrees.ite hc
  case hf => exact .pure rfl
  apply goes_skip.andThen
  apply (h.goes_statement jumps).map
  intro s s' hs
  rw [Option.map_some, Option.map_some, hs]

/-- Both open a statement under a condition alike. -/
theorem opens_ifElse (h : M.Levels n inner inner') (jumps : Jumps) :
    M.Opens n (Statement.map M.place) (Parse.ifElse inner jumps)
      (Parse.ifElse inner' jumps) := by
  apply agrees_lookahead.bind
  intro t t' ht
  apply opens_skip.andThen
  apply goes_expect.andThen
  apply (goes_expression h).bind
  intro e e' he
  apply goes_missingParenthesis.bind
  intro c c' hc
  apply Agrees.ite hc
  · apply goes_missingBody.bind
    intro s s' hs
    apply (agrees_close (start_eq ht)).bind
    intro p p' hp
    apply Agrees.pure
    simp only [Statement.map, Statement.mapOption, he, hs, hp]
  · apply goes_expect.andThen
    apply (h.goes_statement jumps).bind
    intro s s' hs
    apply (goes_elseBranch h jumps).bind
    intro a a' ha
    apply (agrees_close (start_eq ht)).bind
    intro p p' hp
    apply Agrees.pure
    simp only [Statement.map, Statement.mapOption_eq, he, hs, ha, hp]

/-- Both open a loop with its condition in front alike. -/
theorem opens_whileLoop (h : M.Levels n inner inner') (jumps : Jumps) :
    M.Opens n (Statement.map M.place) (Parse.whileLoop inner jumps)
      (Parse.whileLoop inner' jumps) := by
  apply agrees_lookahead.bind
  intro t t' ht
  apply opens_skip.andThen
  apply goes_expect.andThen
  apply (goes_expression h).bind
  intro e e' he
  apply (goes_loopBody h jumps).bind
  intro s s' hs
  apply (agrees_close (start_eq ht)).bind
  intro p p' hp
  apply Agrees.pure
  rw [Statement.map, Statement.map, he, hs, hp]

/-- Both go on alike over the end of a loop with its condition behind. -/
theorem goes_loopEnd : M.Goes n id Parse.loopEnd Parse.loopEnd := by
  apply goes_missingParenthesis.bind
  intro c c' hc
  apply Agrees.ite hc (.pure rfl)
  apply goes_expect.andThen
  apply agrees_isAt.bind
  intro d d' hd
  exact .ite hd goes_skip (.pure rfl)

/-- Both open a loop with its condition behind alike. -/
theorem opens_doWhileLoop (h : M.Levels n inner inner') (jumps : Jumps) :
    M.Opens n (Statement.map M.place) (Parse.doWhileLoop inner jumps)
      (Parse.doWhileLoop inner' jumps) := by
  apply agrees_lookahead.bind
  intro t t' ht
  apply opens_skip.andThen
  apply (h.goes_statement jumps.loop).bind
  intro s s' hs
  apply goes_expectWord.andThen
  apply goes_expect.andThen
  apply (goes_expression h).bind
  intro e e' he
  apply goes_loopEnd.andThen
  apply (agrees_close (start_eq ht)).bind
  intro p p' hp
  apply Agrees.pure
  rw [Statement.map, Statement.map, he, hs, hp]

/-- Both go on alike over the look for a declaration in a loop head. -/
theorem goes_forKind : M.Goes n id Parse.forKind Parse.forKind := by
  apply agrees_isAtWord.bind
  intro c c' hc
  apply Agrees.ite hc (.pure rfl)
  apply agrees_isAtWord.bind
  intro d d' hd
  apply Agrees.ite hd (.pure rfl)
  apply agrees_isAtVar.bind
  intro e e' he
  exact .ite he (.pure rfl) (.pure rfl)

/-- Both go on alike over the start of a loop head. -/
theorem goes_forStart (h : M.Levels n inner inner') :
    M.Goes n (ForInit.map M.place) (Parse.forStart inner)
      (Parse.forStart inner') := by
  apply agrees_lookahead.bind
  intro t t' ht
  apply goes_forKind.bind
  intro kind kind' hkind
  obtain rfl : kind' = kind := hkind
  cases kind' with
  | some kind =>
      apply goes_skip.andThen
      apply (goes_declarators h kind).bind
      intro l l' hl
      apply (agrees_close (start_eq ht)).bind
      intro p p' hp
      apply Agrees.pure
      simp only [ForInit.map, Declaration.map, Declarator.mapAll_eq, hl,
        hp]
  | none =>
      apply (goes_expression h).map
      intro e e' he
      rw [ForInit.map, ForInit.map, he]

/-- Both go on alike over the start of a loop head, which may be empty. -/
theorem goes_forInit (h : M.Levels n inner inner') :
    M.Goes n (Option.map (ForInit.map M.place)) (Parse.forInit inner)
      (Parse.forInit inner') := by
  apply agrees_isAt.bind
  intro c c' hc
  apply Agrees.ite hc
  · exact goes_skip.andThen (.pure rfl)
  · apply (goes_forStart h).bind
    intro i i' hi
    apply goes_expect.andThen
    apply Agrees.pure
    rw [Option.map_some, Option.map_some, hi]

/-- Both go on alike over an expression that may be missing. -/
theorem goes_optionalExpression (h : M.Levels n inner inner')
    (stop : String) :
    M.Goes n (Option.map (Expression.map M.place))
      (Parse.optionalExpression inner stop)
      (Parse.optionalExpression inner' stop) := by
  apply agrees_isAt.bind
  intro c c' hc
  apply Agrees.ite hc (.pure rfl)
  apply (goes_expression h).map
  intro e e' he
  rw [Option.map_some, Option.map_some, he]

/-- Both open a loop with a head of three parts alike. -/
theorem opens_forLoop (h : M.Levels n inner inner') (jumps : Jumps) :
    M.Opens n (Statement.map M.place) (Parse.forLoop inner jumps)
      (Parse.forLoop inner' jumps) := by
  apply agrees_lookahead.bind
  intro t t' ht
  apply opens_skip.andThen
  apply goes_expect.andThen
  apply (goes_forInit h).bind
  intro i i' hi
  apply (goes_optionalExpression h ";").bind
  intro e e' he
  apply goes_expect.andThen
  apply (goes_optionalExpression h ")").bind
  intro d d' hd
  apply (goes_loopBody h jumps).bind
  intro s s' hs
  apply (agrees_close (start_eq ht)).bind
  intro p p' hp
  apply Agrees.pure
  simp only [Statement.map, ForInit.mapOption_eq, Expression.mapOption_eq,
    hi, he, hd, hs, hp]

-- ============================================================= jumps

/-- Both agree about the test of a label. -/
theorem agrees_requireLabel (jumps : Jumps)
    {label label' : Identifier Span}
    (h : label'.map M.place = label.map M.place) :
    M.Agrees (M.At b o n) (M.At b o n) id
      (Parse.requireLabel jumps label)
      (Parse.requireLabel jumps label') := by
  have hname := name_eq h
  have hplace : M.place label'.place = M.place label.place :=
    congrArg Identifier.place h
  apply Agrees.ite (by rw [hname]) (.pure rfl)
  rw [hname]
  exact agrees_tolerate (M.report_diagnose (M.start_of_place hplace))

/-- Both go on alike over the label of a jump, which may be missing. -/
theorem goes_jumpLabel (jumps : Jumps) :
    M.Goes n (Option.map (Identifier.map M.place))
      (Parse.jumpLabel jumps) (Parse.jumpLabel jumps) := by
  apply agrees_lookahead.bind
  intro t t' ht
  apply goes_afterLineBreak.bind
  intro c c' hc
  apply Agrees.ite
  · rw [kind_eq ht, show c' = c from hc]
  · exact .pure rfl
  · apply (goes_boundName false).bind
    intro id id' hid
    apply (agrees_requireLabel jumps hid).andThen
    apply Agrees.pure
    rw [Option.map_some, Option.map_some, hid]

/-- Both go on alike over the end of a jump. -/
theorem goes_endJump (jumps : Jumps) {cause : Cause}
    {label label' : Option (Identifier Span)}
    (h : label'.map (Identifier.map M.place)
      = label.map (Identifier.map M.place)) :
    M.Goes n id (Parse.endJump jumps label cause)
      (Parse.endJump jumps label' cause) := by
  apply goes_endStatement.andThen
  apply Agrees.ite _ agrees_object (.pure rfl)
  have hnone := congrArg Option.isNone h
  rw [Option.isNone_map, Option.isNone_map] at hnone
  rw [hnone]

/-- A jump has its label and its place. -/
theorem opens_jump (jumps : Jumps) {cause : Cause} {kind : NodeKind}
    {f : Option (Identifier Span) → Span → Statement Span}
    (hf : ∀ l l' p p', Option.map (Identifier.map M.place) l'
      = Option.map (Identifier.map M.place) l → M.place p' = M.place p →
        (f l' p').map M.place = (f l p).map M.place) :
    M.Opens n (Statement.map M.place)
      (do
        let first ← Parse.lookahead
        Parse.skip
        let label ← Parse.jumpLabel jumps
        Parse.endJump jumps label cause
        let span ← Parse.close kind first.span.start
        return f label span)
      (do
        let first ← Parse.lookahead
        Parse.skip
        let label ← Parse.jumpLabel jumps
        Parse.endJump jumps label cause
        let span ← Parse.close kind first.span.start
        return f label span) := by
  apply agrees_lookahead.bind
  intro t t' ht
  apply opens_skip.andThen
  apply (goes_jumpLabel jumps).bind
  intro l l' hl
  apply (goes_endJump jumps hl).andThen
  apply (agrees_close (start_eq ht)).bind
  intro p p' hp
  exact .pure (hf l l' p p' hl hp)

/-- Both open a jump out of a loop alike. -/
theorem opens_breaking (jumps : Jumps) :
    M.Opens n (Statement.map M.place) (Parse.breaking jumps)
      (Parse.breaking jumps) := by
  apply opens_jump
  intro l l' p p' hl hp
  simp only [Statement.map, hl, hp]

/-- Both open a jump to the next round alike. -/
theorem opens_continuing (jumps : Jumps) :
    M.Opens n (Statement.map M.place) (Parse.continuing jumps)
      (Parse.continuing jumps) := by
  apply opens_jump
  intro l l' p p' hl hp
  simp only [Statement.map, hl, hp]

/-- Both go on alike over the look for a value to return. -/
theorem goes_hasReturnValue :
    M.Goes n id Parse.hasReturnValue Parse.hasReturnValue := by
  apply agrees_lookahead.bind
  intro t t' ht
  apply goes_afterLineBreak.bind
  intro c c' hc
  apply Agrees.pure
  rw [kind_eq ht, isPunctuator_eq ht, isPunctuator_eq ht, isEnd_eq ht,
    show c' = c from hc]

/-- Both go on alike over the value to return, which may be missing. -/
theorem goes_returnValue (h : M.Levels n inner inner') :
    M.Goes n (Option.map (Expression.map M.place))
      (Parse.returnValue inner) (Parse.returnValue inner') := by
  apply goes_hasReturnValue.bind
  intro c c' hc
  apply Agrees.ite hc
  case hf => exact .pure rfl
  apply (goes_expression h).map
  intro e e' he
  rw [Option.map_some, Option.map_some, he]

/-- Both agree about the test of a return. -/
theorem agrees_requireFunction (jumps : Jumps) :
    M.Agrees (M.At b o n) (M.At b o n) id (Parse.requireFunction jumps)
      (Parse.requireFunction jumps) :=
  .ite rfl (.pure rfl) agrees_object

/-- Both open a return alike. -/
theorem opens_returning (h : M.Levels n inner inner') (jumps : Jumps) :
    M.Opens n (Statement.map M.place) (Parse.returning inner jumps)
      (Parse.returning inner' jumps) := by
  apply (agrees_requireFunction jumps).andThen
  apply agrees_lookahead.bind
  intro t t' ht
  apply opens_skip.andThen
  apply (goes_returnValue h).bind
  intro e e' he
  apply goes_endStatement.andThen
  apply (agrees_close (start_eq ht)).bind
  intro p p' hp
  apply Agrees.pure
  simp only [Statement.map, Expression.mapOption_eq, he, hp]

/-- Both open a value that is thrown alike. -/
theorem opens_throwing (h : M.Levels n inner inner') :
    M.Opens n (Statement.map M.place) (Parse.throwing inner)
      (Parse.throwing inner') := by
  apply agrees_lookahead.bind
  intro t t' ht
  apply opens_skip.andThen
  apply goes_afterLineBreak.bind
  intro c c' hc
  apply Agrees.ite hc agrees_reject
  apply (goes_expression h).bind
  intro e e' he
  apply goes_endStatement.andThen
  apply (agrees_close (start_eq ht)).bind
  intro p p' hp
  apply Agrees.pure
  rw [Statement.map, Statement.map, he, hp]

-- ================================================== other statements

/-- Both agree about whether a block goes on. -/
theorem agrees_moreInBlock {stop : String} :
    M.Agrees (M.At b o n) (M.At b o n) id
      (Parse.isAt stop >>= fun c => pure !c)
      (Parse.isAt stop >>= fun c => pure !c) := by
  apply agrees_isAt.bind
  intro c c' hc
  exact .pure (by rw [show c' = c from hc])

/-- Both open statements in braces alike. -/
theorem opens_block (h : M.Levels n inner inner') (jumps : Jumps) :
    M.Opens n (Block.map M.place) (Parse.block inner jumps)
      (Parse.block inner' jumps) := by
  apply agrees_lookahead.bind
  intro t t' ht
  apply opens_skip.andThen
  apply (agrees_items h jumps (fun _ => agrees_moreInBlock) h.depth
    h.depth').bind
  intro l l' hl
  apply goes_expect.andThen
  apply (agrees_close (start_eq ht)).bind
  intro p p' hp
  apply Agrees.pure
  simp only [Block.map, Statement.mapAll_eq, hl, hp]

/-- Both open a semicolon alone alike. -/
theorem opens_emptyStatement :
    M.Opens n (Statement.map M.place) Parse.emptyStatement
      Parse.emptyStatement := by
  apply agrees_lookahead.bind
  intro t t' ht
  apply opens_skip.andThen
  apply (agrees_close (start_eq ht)).bind
  intro p p' hp
  apply Agrees.pure
  rw [Statement.map, Statement.map, hp]

/-- Both open a call of the debugger alike. -/
theorem opens_debugger :
    M.Opens n (Statement.map M.place) Parse.debugger Parse.debugger := by
  apply agrees_lookahead.bind
  intro t t' ht
  apply opens_skip.andThen
  apply goes_endStatement.andThen
  apply (agrees_close (start_eq ht)).bind
  intro p p' hp
  apply Agrees.pure
  rw [Statement.map, Statement.map, hp]

/-- Both go on alike over the end of a statement that is an expression. -/
theorem goes_expressionEnd {start start' : Position}
    {e e' : Expression Span} (hs : M.observe start' = M.observe start)
    (he : e'.map M.place = e.map M.place) :
    M.Goes n (Statement.map M.place) (Parse.expressionEnd start e)
      (Parse.expressionEnd start' e') := by
  apply goes_endStatement.andThen
  apply (agrees_close hs).bind
  intro p p' hp
  apply Agrees.pure
  rw [Statement.map, Statement.map, he, hp]

/-- Both consume an expression as a statement alike. -/
theorem consumes_expressionStatement (h : M.Levels n inner inner') :
    M.Consumes n (Statement.map M.place)
      (Parse.expressionStatement inner)
      (Parse.expressionStatement inner') := by
  apply agrees_lookahead.bind
  intro t t' ht
  apply (consumes_expression h).bind
  intro e e' he
  exact goes_expressionEnd (start_eq ht) he

/-- Both go on alike over a statement with a label. -/
theorem goes_labeled (h : M.Levels n inner inner') (jumps : Jumps)
    {start start' : Position} {label label' : Identifier Span}
    (hs : M.observe start' = M.observe start)
    (hl : label'.map M.place = label.map M.place) :
    M.Goes n (Statement.map M.place)
      (Parse.labeled inner jumps start label)
      (Parse.labeled inner' jumps start' label') := by
  apply goes_skip.andThen
  rw [name_eq hl]
  apply Agrees.ite rfl agrees_reject
  apply (h.goes_statement (jumps.label label.name)).bind
  intro s s' hbody
  apply (agrees_close hs).bind
  intro p p' hp
  apply Agrees.pure
  rw [Statement.map, Statement.map, hl, hbody, hp]

/-- Both consume a statement with a label, or an expression alike. -/
theorem consumes_labeledOrExpression (h : M.Levels n inner inner')
    (jumps : Jumps) :
    M.Consumes n (Statement.map M.place)
      (Parse.labeledOrExpression inner jumps)
      (Parse.labeledOrExpression inner' jumps) := by
  rw [Parse.labeledOrExpression_eq, Parse.labeledOrExpression_eq]
  apply agrees_lookahead.bind
  intro t t' ht
  apply (consumes_expression h).bind
  intro e e' he
  apply agrees_isAt.bind
  intro c c' hc
  obtain rfl : c' = c := hc
  have hlabel : e'.label?.map (Identifier.map M.place)
      = e.label?.map (Identifier.map M.place) := by
    rw [← Expression.label?_map, ← Expression.label?_map, he]
  cases c' with
  | false => exact goes_expressionEnd (start_eq ht) he
  | true =>
      simp only [if_true]
      cases hl : e.label? with
      | none =>
          rw [hl, Option.map_none, Option.map_eq_none_iff] at hlabel
          rw [hlabel]
          exact goes_expressionEnd (start_eq ht) he
      | some label =>
          rw [hl, Option.map_some, Option.map_eq_some_iff] at hlabel
          obtain ⟨label', hl', hmap⟩ := hlabel
          rw [hl']
          exact goes_labeled h jumps (start_eq ht) hmap

-- ======================================================== the choice

/-- Both open a statement that a word begins alike. -/
theorem opens_keywordStatement (h : M.Levels n inner inner')
    (jumps : Jumps) (word : String) :
    M.Opens n (Statement.map M.place)
      (Parse.keywordStatement inner jumps word)
      (Parse.keywordStatement inner' jumps word) := by
  unfold Parse.keywordStatement
  split
  · exact opens_breaking jumps
  · exact opens_continuing jumps
  · exact opens_debugger
  · exact opens_doWhileLoop h jumps
  · exact opens_forLoop h jumps
  · apply (opens_functionDeclaration h).map
    intro f f' hf
    rw [Statement.map, Statement.map, hf]
  · exact opens_ifElse h jumps
  · exact (consumes_labeledOrExpression h jumps).opens
  · exact opens_returning h jumps
  · exact opens_whileLoop h jumps
  · exact (consumes_expressionStatement h).opens

/-- Both consume a statement alike. -/
theorem consumes_statement (h : M.Levels n inner inner')
    (jumps : Jumps) :
    M.Consumes n (Statement.map M.place) (Parse.statement inner jumps)
      (Parse.statement inner' jumps) := by
  apply Agrees.facing
  intro t t' ht
  rw [kind_eq ht, shown_eq ht, Token.isEnd]
  cases t.kind with
  | boolean | null | numeric | string =>
      exact (consumes_expressionStatement h).opens
  | punctuator =>
      apply Agrees.ite (isPunctuator_eq ht _)
      · apply (opens_block h jumps).map
        intro body body' hbody
        rw [Statement.map, Statement.map, hbody]
      · exact .ite (isPunctuator_eq ht ";") opens_emptyStatement
          (consumes_expressionStatement h).opens
  | identifier =>
      apply agrees_isAtVar.bind
      intro c c' hc
      apply Agrees.ite hc (opens_declaration h .var)
      exact .ite (isIdentifier_eq ht "throw") (opens_throwing h)
        (consumes_labeledOrExpression h jumps).opens
  | keyword => exact opens_keywordStatement h jumps t.shown
  | endOfInput => exact agrees_unexpected ht

/-- Both consume a statement, or a function alike. -/
theorem consumes_item (h : M.Levels n inner inner') (jumps : Jumps) :
    M.Consumes n (Statement.map M.place) (Parse.item inner jumps)
      (Parse.item inner' jumps) := by
  apply Agrees.atWord
  · exact opens_declaration h .const
  apply Agrees.atWord
  case hf => exact consumes_statement h jumps
  apply agrees_bindingAhead.bind
  intro c c' hc
  exact .ite hc (opens_declaration h .letting)
    (consumes_statement h jumps).opens

-- ============================================================ levels

/-- A level more is enough for a token more. -/
theorem Levels.next (h : M.Levels n inner inner') :
    M.Levels (n + 1) inner.next inner'.next where
  depth := Nat.succ_le_succ h.depth
  depth' := Nat.succ_le_succ h.depth'
  assignment _ hm := consumes_assignment (h.mono (Nat.le_of_lt_succ hm))
  unary _ hm := consumes_unary (h.mono (Nat.le_of_lt_succ hm))
  power _ hm := consumes_power (h.mono (Nat.le_of_lt_succ hm))
  statement _ hm := consumes_statement (h.mono (Nat.le_of_lt_succ hm))
  item _ hm := consumes_item (h.mono (Nat.le_of_lt_succ hm))

/-- With no token ahead there is nothing to agree about. -/
theorem levels_zero : M.Levels 0 inner inner' where
  depth := Nat.zero_le _
  depth' := Nat.zero_le _
  assignment _ hm := absurd hm (Nat.not_lt_zero _)
  unary _ hm := absurd hm (Nat.not_lt_zero _)
  power _ hm := absurd hm (Nat.not_lt_zero _)
  statement _ hm := absurd hm (Nat.not_lt_zero _)
  item _ hm := absurd hm (Nat.not_lt_zero _)

/-- Any two depths are enough for as many tokens as they have levels. -/
theorem levels_ofDepth (M : Concord ω ρ δ) {depth depth' : Nat}
    (h : n ≤ depth) (h' : n ≤ depth') :
    M.Levels n (.ofDepth depth) (.ofDepth depth') := by
  induction n generalizing depth depth' with
  | zero => exact levels_zero
  | succ n ih =>
      obtain ⟨depth, rfl⟩ : ∃ k, depth = k + 1 := ⟨depth - 1, by omega⟩
      obtain ⟨depth', rfl⟩ : ∃ k, depth' = k + 1 := ⟨depth' - 1, by omega⟩
      exact (ih (by omega) (by omega)).next

/-- Both agree about whether a script goes on. -/
theorem agrees_moreInScript :
    M.Agrees (M.At b o n) (M.At b o n) id
      (Parse.lookahead >>= fun t => pure !t.isEnd)
      (Parse.lookahead >>= fun t => pure !t.isEnd) := by
  apply agrees_lookahead.bind
  intro t t' ht
  exact .pure (by rw [isEnd_eq ht])

/-- The rest of a script in both runs. -/
theorem agrees_scriptBody (h : M.Levels n inner inner')
    {start start' : Position}
    (hs : M.observe start' = M.observe start) :
    M.Agrees (M.At b false n) (M.At b false n) (Script.map M.place)
      (Parse.scriptBody inner start) (Parse.scriptBody inner' start') := by
  apply (agrees_items h .ofScript (fun _ => agrees_moreInScript) h.depth
    h.depth').bind
  intro l l' hl
  apply (agrees_close hs).bind
  intro p p' hp
  apply Agrees.pure
  simp only [Script.map, Statement.mapAll_eq, hl, hp]

end Concord

end ScriptTree
