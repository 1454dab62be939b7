/-
Statements in two runs that are compared, and the levels of the grammar.

A statement with no tokens left to look at is none, so that a success
has consumed its first token; only then is a look at the token after the
lookahead, which `let` and `var` ask for, safe to compare. The main
statement is `levels_ofDepth`: every level of the grammar is simulated
by every higher one.
-/
import ScriptTree.Grammar.Script
import ScriptTree.Proofs.Simulation.Expression

namespace ScriptTree

/-- The name that an expression consists of, which may be a label. -/
def Expression.label? {π : Type} : Expression π → Option (Identifier π)
  | .identifier id => some id
  | _ => none

/-- Changing places changes that of a label. -/
theorem Expression.label?_map {π ρ : Type} (f : π → ρ)
    (e : Expression π) : (e.map f).label? = e.label?.map (·.map f) := by
  cases e <;> rfl

/-- A name before a colon is a label. -/
theorem Parse.labeledOrExpression_eq (inner : Productions)
    (jumps : Jumps) :
    labeledOrExpression inner jumps = (do
      let first ← lookahead
      let e ← expression inner
      let colon ← isAt ":"
      match if colon then e.label? else none with
      | some label => labeled inner jumps first.span.start label
      | none => expressionEnd first.span.start e) := by
  unfold labeledOrExpression
  refine congrArg _ (funext fun first => congrArg _ (funext fun e =>
    congrArg _ (funext fun colon => ?_)))
  cases e <;> cases colon <;> rfl

/-- The name of a label does not depend on its place. -/
theorem View.name_eq {ρ : Type} {f : Span → ρ}
    {label label' : Identifier Span} (h : label'.map f = label.map f) :
    label'.name = label.name := by
  have hname : (label'.map f).name = (label.map f).name := by
    rw [h]
  exact hname

namespace Simulation

open View

variable {ω ρ : Type} {M : Simulation ω ρ} {inner inner' : Productions}

-- ====================================================== declarations

/-- Both read the end of a statement. -/
theorem simulates_endStatement :
    M.Simulates id Parse.endStatement Parse.endStatement := by
  refine simulates_lookahead.bind fun t t' ht => ?_
  refine .ite (isPunctuator_eq ht ";") simulates_skip ?_
  refine simulates_afterLineBreak.bind fun b b' hb =>
    .ite hb (.pure rfl) ?_
  refine .ite ?_ simulates_extendToLookahead
    advances_unexpected.toSimulates
  rw [isEnd_eq ht, isPunctuator_eq ht]

/-- Both read the refusal of `let` as a name. -/
theorem simulates_refuseLet (kind : DeclarationKind) :
    M.Simulates id (Parse.refuseLet kind) (Parse.refuseLet kind) := by
  refine simulates_lookahead.bind fun t t' ht => ?_
  refine .ite ?_ simulates_objectTo (.pure rfl)
  rw [isKeyword_eq ht]

/-- Both read the value of a declared name. -/
theorem simulates_declaredValue (h : M.Levels inner inner')
    (kind : DeclarationKind) :
    M.Simulates (Option.map (Expression.map M.place))
      (Parse.declaredValue inner kind)
      (Parse.declaredValue inner' kind) := by
  refine simulates_isAt.bind fun b b' hb => .ite hb ?_ ?_
  · refine simulates_skip.andThen ?_
    refine (advances_assignment h).toSimulates.map fun e e' he => ?_
    rw [Option.map_some, Option.map_some, he]
  · split
    · exact advances_reject.toSimulates
    · exact .pure rfl

/-- Both read a declared name with its value, and advance. -/
theorem advances_declarator (h : M.Levels inner inner')
    (kind : DeclarationKind) :
    M.Advances (Declarator.map M.place) (Parse.declarator inner kind)
      (Parse.declarator inner' kind) := by
  refine .ofLookahead fun t t' ht => ?_
  refine (simulates_refuseLet kind).bindAdvances (Parse.waits_refuseLet kind)
    fun _ _ _ => ?_
  refine (advances_boundName _).bind fun id id' hid => ?_
  refine (simulates_declaredValue h kind).bind fun e e' he => ?_
  refine (simulates_close (start_eq ht)).bind fun p p' hp => .pure ?_
  simp only [Declarator.map, Expression.mapOption_eq, hid, he, hp]

/-- Both read one or more declared names, and advance. -/
theorem advances_declarators (h : M.Levels inner inner')
    (kind : DeclarationKind) :
    M.Advances (List.map (Declarator.map M.place))
      (Parse.declarators inner kind) (Parse.declarators inner' kind) := by
  refine (advances_declarator h kind).bind fun d d' hd => ?_
  refine (simulates_collectWhile simulates_isAt (simulates_skip.andThen
    (advances_declarator h kind).toSimulates) h.depth).bind
    fun l l' hl => .pure ?_
  rw [List.map_cons, List.map_cons, hd, hl]

/-- Both read a declaration as a statement, and advance. -/
theorem advances_declaration (h : M.Levels inner inner')
    (kind : DeclarationKind) :
    M.Advances (Statement.map M.place) (Parse.declaration inner kind)
      (Parse.declaration inner' kind) := by
  refine .ofLookahead fun t t' ht => ?_
  refine advances_skip.andThen ?_
  refine (advances_declarators h kind).toSimulates.bind fun l l' hl => ?_
  refine simulates_endStatement.andThen ?_
  refine (simulates_close (start_eq ht)).bind fun p p' hp => .pure ?_
  simp only [Statement.map, Declaration.map, Declarator.mapAll_eq, hl, hp]

/-- A branch on whether a declaration with `var` starts here. -/
theorem Advances.ofIsAtVar {β δ : Type} {w : β → δ}
    {f g : Bool → Parse β} (hf : ∀ b, M.Advances w (f b) (g b)) :
    M.Advances w (Parse.isAtVar >>= f) (Parse.isAtVar >>= g) := by
  have hlook : M.Advances w
      (Parse.lookahead >>= fun t =>
        (if t.isIdentifier "var" then Parse.bindingAhead true
          else pure false) >>= f)
      (Parse.lookahead >>= fun t =>
        (if t.isIdentifier "var" then Parse.bindingAhead true
          else pure false) >>= g) := by
    refine .ofLookahead fun t t' ht => ?_
    rw [isIdentifier_eq ht]
    split
    · exact .ofBindingAhead hf
    · exact hf false
  exact hlook

-- ============================================== conditions and loops

/-- Both read a body that is missing. -/
theorem simulates_missingBody :
    M.Simulates (Statement.map M.place) Parse.missingBody
      Parse.missingBody := by
  refine simulates_lookahead.bind fun t t' ht => ?_
  refine (simulates_close (start_eq ht)).bind fun p p' hp => .pure ?_
  rw [Statement.map, Statement.map, hp]

/-- Both read the body of a loop. -/
theorem simulates_loopBody (h : M.Levels inner inner') (jumps : Jumps) :
    M.Simulates (Statement.map M.place) (Parse.loopBody inner jumps)
      (Parse.loopBody inner' jumps) :=
  simulates_missingParenthesis simulates_missingBody
    (h.statement jumps.loop).toSimulates

/-- Both read the other branch, which may be missing. -/
theorem simulates_elseBranch (h : M.Levels inner inner')
    (jumps : Jumps) :
    M.Simulates (Option.map (Statement.map M.place))
      (Parse.elseBranch inner jumps) (Parse.elseBranch inner' jumps) := by
  refine simulates_isAtWord.bind fun b b' hb => .ite hb ?_ (.pure rfl)
  refine simulates_skip.andThen ?_
  refine (h.statement jumps).toSimulates.map fun s s' hs => ?_
  rw [Option.map_some, Option.map_some, hs]

/-- Both read a statement under a condition, and advance. -/
theorem advances_ifElse (h : M.Levels inner inner') (jumps : Jumps) :
    M.Advances (Statement.map M.place) (Parse.ifElse inner jumps)
      (Parse.ifElse inner' jumps) := by
  refine .ofLookahead fun t t' ht => ?_
  refine advances_skip.andThen ?_
  refine simulates_expect.andThen ?_
  refine (advances_expression h).toSimulates.bind fun e e' he => ?_
  refine simulates_missingParenthesis ?_ ?_
  · refine simulates_missingBody.bind fun s s' hs => ?_
    refine (simulates_close (start_eq ht)).bind fun p p' hp => .pure ?_
    simp only [Statement.map, Statement.mapOption, he, hs, hp]
  · refine (h.statement jumps).toSimulates.bind fun s s' hs => ?_
    refine (simulates_elseBranch h jumps).bind fun a a' ha => ?_
    refine (simulates_close (start_eq ht)).bind fun p p' hp => .pure ?_
    simp only [Statement.map, Statement.mapOption_eq, he, hs, ha, hp]

/-- Both read a loop with its condition in front, and advance. -/
theorem advances_whileLoop (h : M.Levels inner inner') (jumps : Jumps) :
    M.Advances (Statement.map M.place) (Parse.whileLoop inner jumps)
      (Parse.whileLoop inner' jumps) := by
  refine .ofLookahead fun t t' ht => ?_
  refine advances_skip.andThen ?_
  refine simulates_expect.andThen ?_
  refine (advances_expression h).toSimulates.bind fun e e' he => ?_
  refine (simulates_loopBody h jumps).bind fun s s' hs => ?_
  refine (simulates_close (start_eq ht)).bind fun p p' hp => .pure ?_
  rw [Statement.map, Statement.map, he, hs, hp]

/-- Both read the end of a loop with its condition behind. -/
theorem simulates_loopEnd :
    M.Simulates id Parse.loopEnd Parse.loopEnd :=
  simulates_missingParenthesis (.pure rfl) <|
    simulates_isAt.bind fun _ _ hb => .ite hb simulates_skip (.pure rfl)

/-- Both read a loop with its condition behind, and advance. -/
theorem advances_doWhileLoop (h : M.Levels inner inner')
    (jumps : Jumps) :
    M.Advances (Statement.map M.place) (Parse.doWhileLoop inner jumps)
      (Parse.doWhileLoop inner' jumps) := by
  refine .ofLookahead fun t t' ht => ?_
  refine advances_skip.andThen ?_
  refine (h.statement jumps.loop).toSimulates.bind fun s s' hs => ?_
  refine advances_expectWord.toSimulates.andThen ?_
  refine simulates_expect.andThen ?_
  refine (advances_expression h).toSimulates.bind fun e e' he => ?_
  refine simulates_loopEnd.andThen ?_
  refine (simulates_close (start_eq ht)).bind fun p p' hp => .pure ?_
  rw [Statement.map, Statement.map, he, hs, hp]

/-- A branch on the kind of declaration that a `for` loop starts with. -/
theorem Advances.ofForKind {β δ : Type} {w : β → δ}
    {f g : Option DeclarationKind → Parse β}
    (hf : ∀ kind, M.Advances w (f kind) (g kind)) :
    M.Advances w (Parse.forKind >>= f) (Parse.forKind >>= g) := by
  have hword (text : String) (kind : DeclarationKind)
      {p q : Parse (Option DeclarationKind)}
      (hpq : M.Advances w (p >>= f) (q >>= g)) :
      M.Advances w
        (Parse.isAtWord text >>= fun b =>
          (if b then pure (some kind) else p) >>= f)
        (Parse.isAtWord text >>= fun b =>
          (if b then pure (some kind) else q) >>= g) := by
    refine .ofIsAtWord fun b => ?_
    cases b with
    | true => exact hf (some kind)
    | false => exact hpq
  refine hword "const" .const (hword "let" .letting ?_)
  rw [bind_assoc, bind_assoc]
  refine .ofIsAtVar fun b => ?_
  cases b with
  | true => exact hf (some .var)
  | false => exact hf none

/-- Both read the start of a loop head, and advance. -/
theorem advances_forStart (h : M.Levels inner inner') :
    M.Advances (ForInit.map M.place) (Parse.forStart inner)
      (Parse.forStart inner') := by
  refine .ofLookahead fun t t' ht => .ofForKind fun kind => ?_
  cases kind with
  | some kind =>
      refine advances_skip.andThen ?_
      refine (advances_declarators h kind).toSimulates.bind
        fun l l' hl => ?_
      refine (simulates_close (start_eq ht)).bind fun p p' hp => .pure ?_
      simp only [ForInit.map, Declaration.map, Declarator.mapAll_eq, hl,
        hp]
  | none =>
      refine (advances_expression h).map fun e e' he => ?_
      rw [ForInit.map, ForInit.map, he]

/-- Both read the start of a loop head, which may be empty, and advance. -/
theorem advances_forInit (h : M.Levels inner inner') :
    M.Advances (Option.map (ForInit.map M.place)) (Parse.forInit inner)
      (Parse.forInit inner') := by
  refine .ofIsAt fun b => .ite rfl ?_ ?_
  · exact advances_skip.andThen (.pure rfl)
  · refine (advances_forStart h).bind fun i i' hi => ?_
    refine simulates_expect.andThen (.pure ?_)
    rw [Option.map_some, Option.map_some, hi]

/-- Both read an expression that may be missing. -/
theorem simulates_optionalExpression (h : M.Levels inner inner')
    (stop : String) :
    M.Simulates (Option.map (Expression.map M.place))
      (Parse.optionalExpression inner stop)
      (Parse.optionalExpression inner' stop) := by
  refine simulates_isAt.bind fun b b' hb => .ite hb (.pure rfl) ?_
  refine (advances_expression h).toSimulates.map fun e e' he => ?_
  rw [Option.map_some, Option.map_some, he]

/-- Both read a loop with a head of three parts, and advance. -/
theorem advances_forLoop (h : M.Levels inner inner') (jumps : Jumps) :
    M.Advances (Statement.map M.place) (Parse.forLoop inner jumps)
      (Parse.forLoop inner' jumps) := by
  refine .ofLookahead fun t t' ht => ?_
  refine advances_skip.andThen ?_
  refine simulates_expect.andThen ?_
  refine (advances_forInit h).toSimulates.bind fun i i' hi => ?_
  refine (simulates_optionalExpression h ";").bind fun e e' he => ?_
  refine simulates_expect.andThen ?_
  refine (simulates_optionalExpression h ")").bind fun d d' hd => ?_
  refine (simulates_loopBody h jumps).bind fun s s' hs => ?_
  refine (simulates_close (start_eq ht)).bind fun p p' hp => .pure ?_
  simp only [Statement.map, ForInit.mapOption_eq, Expression.mapOption_eq,
    hi, he, hd, hs, hp]

-- ============================================================= jumps

/-- Both read the test of a label. -/
theorem simulates_requireLabel (jumps : Jumps)
    {label label' : Identifier Span}
    (h : label'.map M.place = label.map M.place) :
    M.Simulates id (Parse.requireLabel jumps label)
      (Parse.requireLabel jumps label') := by
  have hname := name_eq h
  refine .ite (by rw [hname]) (.pure rfl) (simulates_tolerate ?_)
  rw [Position.diagnose, Position.diagnose, hname]

/-- Both read the label of a jump, which may be missing. -/
theorem simulates_jumpLabel (jumps : Jumps) :
    M.Simulates (Option.map (Identifier.map M.place))
      (Parse.jumpLabel jumps) (Parse.jumpLabel jumps) := by
  refine simulates_lookahead.bind fun t t' ht => ?_
  refine simulates_afterLineBreak.bind fun b b' hb => ?_
  refine .ite ?_ (.pure rfl) ?_
  · rw [kind_eq ht, show b' = b from hb]
  · refine (advances_boundName false).toSimulates.bind
      fun id id' hid => ?_
    refine (simulates_requireLabel jumps hid).andThen (.pure ?_)
    rw [Option.map_some, Option.map_some, hid]

/-- Both read the end of a jump. -/
theorem simulates_endJump (jumps : Jumps) {cause : Cause}
    {label label' : Option (Identifier Span)}
    (h : label'.map (Identifier.map M.place)
      = label.map (Identifier.map M.place)) :
    M.Simulates id (Parse.endJump jumps label cause)
      (Parse.endJump jumps label' cause) := by
  refine simulates_endStatement.andThen (.ite ?_ simulates_object
    (.pure rfl))
  have hn := congrArg Option.isNone h
  rw [Option.isNone_map, Option.isNone_map] at hn
  rw [hn]

/-- A jump has its label and its place. -/
theorem advances_jump (jumps : Jumps) {cause : Cause} {kind : NodeKind}
    {f : Option (Identifier Span) → Span → Statement Span}
    (hf : ∀ l l' p p', Option.map (Identifier.map M.place) l'
      = Option.map (Identifier.map M.place) l → M.place p' = M.place p →
        (f l' p').map M.place = (f l p).map M.place) :
    M.Advances (Statement.map M.place)
      (do
      let first ← Parse.lookahead
      Parse.skip
      let label ← Parse.jumpLabel jumps
      Parse.endJump jumps label cause
      let span ← Parse.close kind first.span.start
      return f label span)
      (do
      let first ← Parse.lookahead
      Parse.skip
      let label ← Parse.jumpLabel jumps
      Parse.endJump jumps label cause
      let span ← Parse.close kind first.span.start
      return f label span) := by
  refine .ofLookahead fun t t' ht => ?_
  refine advances_skip.andThen ?_
  refine (simulates_jumpLabel jumps).bind fun l l' hl => ?_
  refine (simulates_endJump jumps hl).andThen ?_
  refine (simulates_close (start_eq ht)).bind fun p p' hp => .pure ?_
  exact hf l l' p p' hl hp

/-- Both read a jump out of a loop, and advance. -/
theorem advances_breaking (jumps : Jumps) :
    M.Advances (Statement.map M.place) (Parse.breaking jumps)
      (Parse.breaking jumps) := by
  apply advances_jump
  intro l l' p p' hl hp
  simp only [Statement.map, hl, hp]

/-- Both read a jump to the next round, and advance. -/
theorem advances_continuing (jumps : Jumps) :
    M.Advances (Statement.map M.place) (Parse.continuing jumps)
      (Parse.continuing jumps) := by
  apply advances_jump
  intro l l' p p' hl hp
  simp only [Statement.map, hl, hp]

/-- Both read the look for a value to return. -/
theorem simulates_hasReturnValue :
    M.Simulates id Parse.hasReturnValue Parse.hasReturnValue := by
  refine simulates_lookahead.bind fun t t' ht => ?_
  refine simulates_afterLineBreak.bind fun b b' hb => .pure ?_
  rw [kind_eq ht, isPunctuator_eq ht, isPunctuator_eq ht, isEnd_eq ht,
    show b' = b from hb]

/-- Both read the value to return, which may be missing. -/
theorem simulates_returnValue (h : M.Levels inner inner') :
    M.Simulates (Option.map (Expression.map M.place))
      (Parse.returnValue inner) (Parse.returnValue inner') := by
  refine simulates_hasReturnValue.bind fun b b' hb =>
    .ite hb ?_ (.pure rfl)
  refine (advances_expression h).toSimulates.map fun e e' he => ?_
  rw [Option.map_some, Option.map_some, he]

/-- Both read the test of a return. -/
theorem simulates_requireFunction (jumps : Jumps) :
    M.Simulates id (Parse.requireFunction jumps)
      (Parse.requireFunction jumps) :=
  .ite rfl (.pure rfl) simulates_object

/-- Both read a return, and advance. -/
theorem advances_returning (h : M.Levels inner inner') (jumps : Jumps) :
    M.Advances (Statement.map M.place) (Parse.returning inner jumps)
      (Parse.returning inner' jumps) := by
  refine (simulates_requireFunction jumps).bindAdvances
    (Parse.waits_requireFunction jumps) fun _ _ _ => ?_
  refine .ofLookahead fun t t' ht => ?_
  refine advances_skip.andThen ?_
  refine (simulates_returnValue h).bind fun e e' he => ?_
  refine simulates_endStatement.andThen ?_
  refine (simulates_close (start_eq ht)).bind fun p p' hp => .pure ?_
  simp only [Statement.map, Expression.mapOption_eq, he, hp]

/-- Both read a value that is thrown, and advance. -/
theorem advances_throwing (h : M.Levels inner inner') :
    M.Advances (Statement.map M.place) (Parse.throwing inner)
      (Parse.throwing inner') := by
  refine .ofLookahead fun t t' ht => ?_
  refine advances_skip.andThen ?_
  refine simulates_afterLineBreak.bind fun b b' hb =>
    .ite hb advances_reject.toSimulates ?_
  refine (advances_expression h).toSimulates.bind fun e e' he => ?_
  refine simulates_endStatement.andThen ?_
  refine (simulates_close (start_eq ht)).bind fun p p' hp => .pure ?_
  rw [Statement.map, Statement.map, he, hp]

-- ================================================== other statements

/-- Both read statements in braces, and advance. -/
theorem advances_block (h : M.Levels inner inner') (jumps : Jumps) :
    M.Advances (Block.map M.place) (Parse.block inner jumps)
      (Parse.block inner' jumps) := by
  refine .ofLookahead fun t t' ht => ?_
  refine advances_skip.andThen ?_
  refine (simulates_collectWhile ?_ (h.item jumps).toSimulates
    h.depth).bind fun l l' hl => ?_
  · refine simulates_isAt.bind fun b b' hb => .pure ?_
    rw [show b' = b from hb]
  · refine simulates_expect.andThen ?_
    refine (simulates_close (start_eq ht)).bind fun p p' hp => .pure ?_
    simp only [Block.map, Statement.mapAll_eq, hl, hp]

/-- Both read a semicolon alone, and advance. -/
theorem advances_emptyStatement :
    M.Advances (Statement.map M.place) Parse.emptyStatement
      Parse.emptyStatement := by
  refine .ofLookahead fun t t' ht => ?_
  refine advances_skip.andThen ?_
  refine (simulates_close (start_eq ht)).bind fun p p' hp => .pure ?_
  rw [Statement.map, Statement.map, hp]

/-- Both read a call of the debugger, and advance. -/
theorem advances_debugger :
    M.Advances (Statement.map M.place) Parse.debugger Parse.debugger := by
  refine .ofLookahead fun t t' ht => ?_
  refine advances_skip.andThen ?_
  refine simulates_endStatement.andThen ?_
  refine (simulates_close (start_eq ht)).bind fun p p' hp => .pure ?_
  rw [Statement.map, Statement.map, hp]

/-- Both read the end of a statement that is an expression. -/
theorem simulates_expressionEnd {start start' : Position}
    {e e' : Expression Span} (hs : M.observe start' = M.observe start)
    (he : e'.map M.place = e.map M.place) :
    M.Simulates (Statement.map M.place) (Parse.expressionEnd start e)
      (Parse.expressionEnd start' e') := by
  refine simulates_endStatement.andThen ?_
  refine (simulates_close hs).bind fun p p' hp => .pure ?_
  rw [Statement.map, Statement.map, he, hp]

/-- Both read an expression as a statement, and advance. -/
theorem advances_expressionStatement (h : M.Levels inner inner') :
    M.Advances (Statement.map M.place) (Parse.expressionStatement inner)
      (Parse.expressionStatement inner') := by
  refine .ofLookahead fun t t' ht => ?_
  refine (advances_expression h).bind fun e e' he => ?_
  exact simulates_expressionEnd (start_eq ht) he

/-- Both read a statement with a label. -/
theorem simulates_labeled (h : M.Levels inner inner') (jumps : Jumps)
    {start start' : Position} {label label' : Identifier Span}
    (hs : M.observe start' = M.observe start)
    (hl : label'.map M.place = label.map M.place) :
    M.Simulates (Statement.map M.place)
      (Parse.labeled inner jumps start label)
      (Parse.labeled inner' jumps start' label') := by
  have hname := name_eq hl
  refine simulates_skip.andThen ?_
  rw [hname]
  refine .ite rfl advances_reject.toSimulates ?_
  refine (h.statement (jumps.label label.name)).toSimulates.bind
    fun s s' hbody => ?_
  refine (simulates_close hs).bind fun p p' hp => .pure ?_
  rw [Statement.map, Statement.map, hl, hbody, hp]

/-- Both read a statement with a label, or an expression, and advance. -/
theorem advances_labeledOrExpression (h : M.Levels inner inner')
    (jumps : Jumps) :
    M.Advances (Statement.map M.place)
      (Parse.labeledOrExpression inner jumps)
      (Parse.labeledOrExpression inner' jumps) := by
  rw [Parse.labeledOrExpression_eq, Parse.labeledOrExpression_eq]
  refine .ofLookahead fun t t' ht => ?_
  refine (advances_expression h).bind fun e e' he => ?_
  refine simulates_isAt.bind fun b b' hb => ?_
  obtain rfl : b' = b := hb
  have hlabel : e'.label?.map (Identifier.map M.place)
      = e.label?.map (Identifier.map M.place) := by
    rw [← Expression.label?_map, ← Expression.label?_map, he]
  cases b' with
  | false => exact simulates_expressionEnd (start_eq ht) he
  | true =>
      simp only [if_true]
      cases hl : e.label? with
      | none =>
          rw [hl, Option.map_none, Option.map_eq_none_iff] at hlabel
          rw [hlabel]
          exact simulates_expressionEnd (start_eq ht) he
      | some label =>
          rw [hl, Option.map_some, Option.map_eq_some_iff] at hlabel
          obtain ⟨label', hl', hmap⟩ := hlabel
          rw [hl']
          exact simulates_labeled h jumps (start_eq ht) hmap

-- ======================================================== the choice

/-- Both read a statement that a word begins, and advance. -/
theorem advances_keywordStatement (h : M.Levels inner inner')
    (jumps : Jumps) (word : String) :
    M.Advances (Statement.map M.place)
      (Parse.keywordStatement inner jumps word)
      (Parse.keywordStatement inner' jumps word) := by
  unfold Parse.keywordStatement
  split
  · exact advances_breaking jumps
  · exact advances_continuing jumps
  · exact advances_debugger
  · exact advances_doWhileLoop h jumps
  · exact advances_forLoop h jumps
  · refine (advances_functionDeclaration h).map fun f f' hf => ?_
    rw [Statement.map, Statement.map, hf]
  · exact advances_ifElse h jumps
  · exact advances_labeledOrExpression h jumps
  · exact advances_returning h jumps
  · exact advances_whileLoop h jumps
  · exact advances_expressionStatement h

/-- Both read a statement, and advance. -/
theorem advances_statement (h : M.Levels inner inner') (jumps : Jumps) :
    M.Advances (Statement.map M.place) (Parse.statement inner jumps)
      (Parse.statement inner' jumps) := by
  refine .ofLookahead fun t t' ht => ?_
  rw [kind_eq ht, shown_eq ht]
  cases t.kind with
  | boolean | null | numeric | string =>
      exact advances_expressionStatement h
  | punctuator =>
      refine .ite (isPunctuator_eq ht _) ?_
        (.ite (isPunctuator_eq ht ";") advances_emptyStatement
          (advances_expressionStatement h))
      refine (advances_block h jumps).map fun b b' hb => ?_
      rw [Statement.map, Statement.map, hb]
  | identifier =>
      refine .ofIsAtVar fun b => .ite rfl (advances_declaration h .var) ?_
      exact .ite (isIdentifier_eq ht "throw") (advances_throwing h)
        (advances_labeledOrExpression h jumps)
  | keyword => exact advances_keywordStatement h jumps t.shown
  | endOfInput => exact advances_unexpected

/-- Both read a statement, or a function, and advance. -/
theorem advances_item (h : M.Levels inner inner') (jumps : Jumps) :
    M.Advances (Statement.map M.place) (Parse.item inner jumps)
      (Parse.item inner' jumps) := by
  refine .ofIsAtWord fun b => .ite rfl (advances_declaration h .const) ?_
  refine .ofIsAtWord fun b => .ite rfl ?_ (advances_statement h jumps)
  exact .ofBindingAhead fun b =>
    .ite rfl (advances_declaration h .letting) (advances_statement h jumps)

-- ============================================================ levels

/-- With one more level both productions still go together. -/
theorem Levels.next (h : M.Levels inner inner') :
    M.Levels inner.next inner'.next where
  depth := Nat.succ_le_succ h.depth
  assignment := advances_assignment h
  unary := advances_unary h
  power := advances_power h
  statement := advances_statement h
  item := advances_item h

/-- Productions that never succeed go with any. -/
theorem levels_none : M.Levels .none inner' where
  depth := Nat.zero_le _
  assignment := advances_exhausted
  unary := advances_exhausted
  power := advances_exhausted
  statement _ := advances_exhausted
  item _ := advances_exhausted

/-- Every level of the grammar is simulated by every higher one. -/
theorem levels_ofDepth (M : Simulation ω ρ) {n m : Nat} (h : n ≤ m) :
    M.Levels (Productions.ofDepth n) (Productions.ofDepth m) := by
  induction n generalizing m with
  | zero => exact levels_none
  | succ n ih =>
      obtain ⟨m, rfl⟩ : ∃ k, m = k + 1 := ⟨m - 1, by omega⟩
      exact (ih (by omega)).next

/-- Both read a script, and advance. -/
theorem advances_script (h : M.Levels inner inner') :
    M.Advances (Script.map M.place) (Parse.script inner)
      (Parse.script inner') := by
  refine advances_skip.andThen ?_
  refine simulates_lookahead.bind fun t t' ht => ?_
  refine (simulates_standAt (stop_eq ht)).andThen ?_
  refine (simulates_collectWhile ?_ (h.item .ofScript).toSimulates
    h.depth).bind fun l l' hl => ?_
  · refine simulates_lookahead.bind fun n n' hn => .pure ?_
    rw [isEnd_eq hn]
  · refine (simulates_close (start_eq ht)).bind fun p p' hp => .pure ?_
    simp only [Script.map, Statement.mapAll_eq, hl, hp]

end Simulation

end ScriptTree
