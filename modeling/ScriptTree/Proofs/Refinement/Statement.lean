/-
A parser reads statements as the grammar does.

# Words

A statement is chosen by its first token, and the parser makes sure of the
word that it was chosen by once more. The word is the text of the token,
which a keyword always has.

# Jumps

The body of a loop and the statement after a label change what is kept in
mind, and leave it as it was. So jumps may refer to the same in the parser
as they may in the grammar.
-/
import ScriptTree.Parser.Script
import ScriptTree.Proofs.Refinement.Expression

namespace ScriptTree

open Context

variable (m : Machine) {text : List Char} {options : Options}

/-- A bound name starts where the lookahead does. -/
theorem start_of_boundName {allowsLet : Bool} {id : Identifier Span}
    {s s' : ParseState} (h : Parse.boundName allowsLet s = .ok id s') :
    id.place.start = s.lookahead.span.start := by
  unfold Parse.boundName at h
  obtain ⟨t, s₁, hshift, h⟩ := bind_ok.1 h
  obtain rfl := (Parse.shift_ok.1 hshift).1
  split at h
  case isTrue =>
    obtain ⟨span, s₂, hclose, h⟩ := bind_ok.1 h
    obtain ⟨rfl, -⟩ := Parse.close_ok.1 hclose
    rw [(pure_ok.1 h).1]
  case isFalse => cases h

namespace ParserState.Beside

variable {K : Context → Prop} {jumps : Jumps} {p : ParserState}
  {s : ParseState} {outer : ParserProductions} {inner : Productions}

-- ======================================================== declarations

/-- The value of a declared name. -/
theorem declaredValue [NameProperties]
    (hinner : outer.Realizes text options inner)
    (h : p.Beside text options (Keeps jumps) s) (kind : DeclarationKind) :
    Carries text options (fun _ => Keeps jumps)
      (Option.map (Expression.map options.locate))
      (@Parser.declaredValue _ m.arithmetic outer kind p)
      (Parse.declaredValue inner kind s) := by
  unfold Parser.declaredValue Parse.declaredValue
  refine h.ifAt "=" (fun _ => ?_) fun _ => ?_
  · refine (h.skip m).bind fun _ p₁ s₁ h₁ => ?_
    exact ((assignment m hinner).isolated m h₁ fun _ hc => hc).map
      (fun _ => rfl) fun _ _ hc => hc
  · exact .ite (fun _ => h.reject _) fun _ => .pure h rfl

/-- A declared name with its value. -/
theorem declarator [NameProperties]
    (hinner : outer.Realizes text options inner)
    (h : p.Beside text options (Keeps jumps) s) (kind : DeclarationKind) :
    Carries text options (fun _ => Keeps jumps)
      (Declarator.map options.locate)
      (@Parser.declarator _ m.arithmetic outer kind p)
      (Parse.declarator inner kind s) := by
  have hstart := h.start
  unfold Parser.declarator Parse.declarator Parser.pattern
  simp only [bind_assoc]
  refine h.mark ?_
  refine (h.refuseLet m kind).bind fun _ p₁ s₁ h₁ => ?_
  have hkind : decide (some kind = some DeclarationKind.var)
      = decide (kind = .var) := by
    cases kind <;> rfl
  rw [hkind]
  refine (h₁.boundName m _).bind fun id p₂ s₂ h₂ => ?_
  refine (h₂.declaredValue m hinner kind).bind fun init p₃ s₃ h₃ => ?_
  refine h₃.finished m .variableDeclarator hstart (fun _ _ hc => hc)
    fun span => ?_
  cases init <;> rfl

/-- One or more declared names. -/
theorem declarators [NameProperties]
    (hinner : outer.Realizes text options inner)
    (h : p.Beside text options (Keeps jumps) s) (kind : DeclarationKind) :
    Carries text options (fun _ => Keeps jumps)
      (List.map (Declarator.map options.locate))
      (@Parser.declarators _ m.arithmetic outer kind p)
      (Parse.declarators inner kind s) := by
  have hnext {p : ParserState} {s : ParseState}
      (h : p.Beside text options (Keeps jumps) s) :
      Carries text options (fun _ => Keeps jumps)
        (Declarator.map options.locate)
        ((do
          @Parser.skip _ m.arithmetic
          @Parser.declarator _ m.arithmetic outer kind) p)
        ((do Parse.skip; Parse.declarator inner kind) s) :=
    (h.skip m).bind fun _ _ _ h' => h'.declarator m hinner kind
  unfold Parser.declarators Parse.declarators
  rw [hinner.depth]
  refine (h.declarator m hinner kind).bind fun first p₁ s₁ h₁ => ?_
  exact (carries_collectWhile (·.isAt ",") hnext h₁ _).bind
    fun further p₂ s₂ h₂ => .pure h₂ rfl

/-- A declaration as a statement. -/
theorem declaration [NameProperties]
    (hinner : outer.Realizes text options inner)
    (h : p.Beside text options (Keeps jumps) s) (kind : DeclarationKind) :
    Carries text options (fun _ => Keeps jumps)
      (Statement.map options.locate)
      (@Parser.declaration _ m.arithmetic outer kind p)
      (Parse.declaration inner kind s) := by
  have hstart := h.start
  unfold Parser.declaration Parse.declaration
  refine h.mark ?_
  refine (h.skip m).bind fun _ p₁ s₁ h₁ => ?_
  refine (h₁.declarators m hinner kind).bind fun declared p₂ s₂ h₂ => ?_
  refine (h₂.endStatement m).bind fun _ p₃ s₃ h₃ => ?_
  refine h₃.finished m .variableDeclaration hstart (fun _ _ hc => hc)
    fun span => ?_
  rw [Statement.map, Declaration.map, Declarator.mapAll_eq]

/-- Whether a declaration with `var` starts here. -/
theorem isAtVar [NameProperties] (h : p.Beside text options K s) :
    Carries text options (fun _ => K) id
      (@Parser.isAtVar _ m.arithmetic p) (Parse.isAtVar s) := by
  unfold Parser.isAtVar Parse.isAtVar
  refine h.look ?_
  exact .ite (fun _ => h.bindingAhead m true) fun _ => .pure h rfl

-- ===================================================== conditions and loops

/-- The statement that stands for a body which is not there. -/
theorem missingBody [NameProperties] (h : p.Beside text options K s) :
    Carries text options (fun _ => K) (Statement.map options.locate)
      (@Parser.missingBody m.arithmetic p) (Parse.missingBody s) := by
  have hstart := h.start
  unfold Parser.missingBody Parse.missingBody
  refine h.mark ?_
  exact h.finished m .emptyStatement hstart (fun _ _ hc => hc) fun _ => rfl

/-- Whether a tolerant parser goes on without a parenthesis. -/
theorem missingParenthesis [NameProperties] (h : p.Beside text options K s) :
    Carries text options (fun _ => K) id
      (@Parser.missingParenthesis _ m.arithmetic p)
      (Parse.missingParenthesis s) := by
  unfold Parser.missingParenthesis Parse.missingParenthesis
  rw [Parser.isAt_bind, Parse.isAt_bind, Parser.isTolerant_bind,
    Parse.isTolerant_bind, h.lookahead, h.tolerant]
  refine .ite (fun _ => .pure h rfl) fun _ => ?_
  refine (h.shift m).bind fun t p₁ s₁ h₁ => ?_
  exact (h₁.forget.objectTo m t _).bind fun _ p₂ s₂ h₂ => .pure h₂ rfl

/-- The body of a loop, of which it is kept in mind that it is one. -/
theorem iterationBody [NameProperties]
    (hinner : outer.Realizes text options inner)
    (h : p.Beside text options (Keeps jumps) s) :
    Carries text options (fun _ => Keeps jumps)
      (Statement.map options.locate)
      (@Parser.iterationBody m.arithmetic outer p)
      (inner.statement jumps.loop s) := by
  have houtside := h.context.inIteration
  unfold Parser.iterationBody
  rw [Parser.context_bind]
  refine h.adapted (Keeps jumps.loop) (fun c hc => ?_) fun p₁ h₁ => ?_
  · exact ⟨hc.inFunctionBody, rfl, hc.labels, hc.initializedName⟩
  have hbody := h₁.isolated m (fun _ hc => hc)
    fun h' => hinner.statement h'.forgetCover
  refine hbody.alone fun body p₂ s₂ h₂ => ?_
  refine h₂.adapted (Keeps jumps) (fun c hc => ?_) fun p₃ h₃ => .ok h₃
  exact ⟨hc.inFunctionBody, houtside, hc.labels, hc.initializedName⟩

/-- The rest of the head of a loop, and its body. -/
theorem loopBody [NameProperties] (hinner : outer.Realizes text options inner)
    (h : p.Beside text options (Keeps jumps) s) :
    Carries text options (fun _ => Keeps jumps)
      (Statement.map options.locate)
      (@Parser.loopBody _ m.arithmetic outer p)
      (Parse.loopBody inner jumps s) := by
  unfold Parser.loopBody Parse.loopBody
  refine (h.missingParenthesis m).bind fun missing p₁ s₁ h₁ => ?_
  refine .ite (fun _ => h₁.missingBody m) fun _ => ?_
  exact (h₁.expect m ")").bind fun _ p₂ s₂ h₂ =>
    h₂.iterationBody m hinner

/-- The other branch of a condition. -/
theorem elseBranch [NameProperties]
    (hinner : outer.Realizes text options inner)
    (h : p.Beside text options (Keeps jumps) s) :
    Carries text options (fun _ => Keeps jumps)
      (Option.map (Statement.map options.locate))
      (@Parser.elseBranch _ m.arithmetic outer p)
      (Parse.elseBranch inner jumps s) := by
  refine h.ifAtWord "else" (fun _ => ?_) fun _ => .pure h rfl
  refine (h.skip m).bind fun _ p₁ s₁ h₁ => ?_
  exact (hinner.statement h₁).map (fun _ => rfl) fun _ _ hc => hc

/-- A condition, the word for which was seen. -/
theorem ifElse [NameProperties] (hinner : outer.Realizes text options inner)
    (h : p.Beside text options (Keeps jumps) s)
    (hword : s.lookahead.isKeyword "if" = true) :
    Carries text options (fun _ => Keeps jumps)
      (Statement.map options.locate)
      (@Parser.ifElse _ m.arithmetic outer p)
      (Parse.ifElse inner jumps s) := by
  have hstart := h.start
  unfold Parser.ifElse Parse.ifElse
  refine h.mark ?_
  refine (h.expectWord_skip m hword).bind fun _ p₁ s₁ h₁ => ?_
  refine (h₁.expect m "(").bind fun _ p₂ s₂ h₂ => ?_
  refine (h₂.expression m hinner fun _ hc => hc).bind
    fun test p₃ s₃ h₃ => ?_
  refine (h₃.missingParenthesis m).bind fun missing p₄ s₄ h₄ => ?_
  refine .ite (fun _ => ?_) fun _ => ?_
  · refine (h₄.missingBody m).bind fun consequent p₅ s₅ h₅ => ?_
    exact h₅.finished m .ifStatement hstart (fun _ _ hc => hc) fun _ => rfl
  · refine (h₄.expect m ")").bind fun _ p₅ s₅ h₅ => ?_
    refine (hinner.statement h₅).bind fun consequent p₆ s₆ h₆ => ?_
    refine (h₆.elseBranch m hinner).bind fun alternate p₇ s₇ h₇ => ?_
    refine h₇.finished m .ifStatement hstart (fun _ _ hc => hc)
      fun span => ?_
    cases alternate <;> rfl

/-- A loop with its condition at the start. -/
theorem whileLoop [NameProperties] (hinner : outer.Realizes text options inner)
    (h : p.Beside text options (Keeps jumps) s)
    (hword : s.lookahead.isKeyword "while" = true) :
    Carries text options (fun _ => Keeps jumps)
      (Statement.map options.locate)
      (@Parser.whileLoop _ m.arithmetic outer p)
      (Parse.whileLoop inner jumps s) := by
  have hstart := h.start
  unfold Parser.whileLoop Parse.whileLoop
  refine h.mark ?_
  refine (h.expectWord_skip m hword).bind fun _ p₁ s₁ h₁ => ?_
  refine (h₁.expect m "(").bind fun _ p₂ s₂ h₂ => ?_
  refine (h₂.expression m hinner fun _ hc => hc).bind
    fun test p₃ s₃ h₃ => ?_
  refine (h₃.loopBody m hinner).bind fun body p₄ s₄ h₄ => ?_
  exact h₄.finished m .whileStatement hstart (fun _ _ hc => hc) fun _ => rfl

/-- The end of a loop with its condition at the end. -/
theorem loopEnd [NameProperties] (h : p.Beside text options K s) :
    Carries text options (fun _ => K) id
      (@Parser.loopEnd _ m.arithmetic p) (Parse.loopEnd s) := by
  unfold Parser.loopEnd Parse.loopEnd
  refine (h.missingParenthesis m).bind fun missing p₁ s₁ h₁ => ?_
  refine .ite (fun _ => .pure h₁ rfl) fun _ => ?_
  refine (h₁.expect m ")").bind fun _ p₂ s₂ h₂ => ?_
  exact h₂.ifAt ";" (fun _ => h₂.skip m) fun _ => .pure h₂ rfl

/-- A loop with its condition at the end. -/
theorem doWhileLoop [NameProperties]
    (hinner : outer.Realizes text options inner)
    (h : p.Beside text options (Keeps jumps) s)
    (hword : s.lookahead.isKeyword "do" = true) :
    Carries text options (fun _ => Keeps jumps)
      (Statement.map options.locate)
      (@Parser.doWhileLoop _ m.arithmetic outer p)
      (Parse.doWhileLoop inner jumps s) := by
  have hstart := h.start
  unfold Parser.doWhileLoop Parse.doWhileLoop
  refine h.mark ?_
  refine (h.expectWord_skip m hword).bind fun _ p₁ s₁ h₁ => ?_
  refine (h₁.iterationBody m hinner).bind fun body p₂ s₂ h₂ => ?_
  refine (h₂.expectWord m "while").bind fun _ p₃ s₃ h₃ => ?_
  refine (h₃.expect m "(").bind fun _ p₄ s₄ h₄ => ?_
  refine (h₄.expression m hinner fun _ hc => hc).bind
    fun test p₅ s₅ h₅ => ?_
  refine (h₅.loopEnd m).bind fun _ p₆ s₆ h₆ => ?_
  exact h₆.finished m .doWhileStatement hstart (fun _ _ hc => hc) fun _ => rfl

-- =========================================================== for loops

/-- The kind of declaration that a loop starts with. -/
theorem forKind [NameProperties] (h : p.Beside text options K s) :
    Carries text options (fun _ => K) id
      (@Parser.forKind _ m.arithmetic p) (Parse.forKind s) := by
  refine h.ifAtWord "const" (fun _ => .pure h rfl) fun _ => ?_
  refine h.ifAtWord "let" (fun _ => .pure h rfl) fun _ => ?_
  refine (h.isAtVar m).bind fun _ p₁ s₁ h₁ => ?_
  exact .ite (fun _ => .pure h₁ rfl) fun _ => .pure h₁ rfl

/-- The expressions that a loop starts with. -/
theorem forExpression [NameProperties]
    (hinner : outer.Realizes text options inner)
    (h : p.Beside text options (Keeps jumps) s) :
    Carries text options (fun _ => Keeps jumps)
      (Expression.map options.locate)
      (@Parser.forExpression _ m.arithmetic outer p)
      (Parse.expression inner s) := by
  have hstart := h.start
  unfold Parser.forExpression Parse.expression
  refine h.look ?_
  rw [hstart.mark_agrees m, hinner.depth]
  have hfirst := h.fits.inherited (assignment m hinner ·)
  refine hfirst.bind fun e p₁ s₁ h₁ => ?_
  have hkeeps := h₁.forgetCover
  rw [Parser.isAt_bind, h₁.lookahead]
  cases hcomma : s₁.lookahead.isPunctuator "," with
  | false => exact noFurther hcomma (.pure hkeeps rfl)
  | true =>
      have hnext {p : ParserState} {s : ParseState}
          (h : p.Beside text options (Keeps jumps) s) :
          Carries text options (fun _ => Keeps jumps)
            (Expression.map options.locate)
            ((do
              @Parser.skip _ m.arithmetic
              @Parser.isolated _ m.arithmetic
                (@Parser.assignment _ m.arithmetic outer)) p)
            ((do Parse.skip; Parse.assignment inner) s) :=
        (h.skip m).bind fun _ _ _ h' =>
          (assignment m hinner).isolated m h' fun _ hc => hc
      have htrue : Parse.isAt "," s₁ = .ok true s₁ := by
        rw [← hcomma]
        rfl
      have hfurther := carries_collectWhile_cons (·.isAt ",") hnext hkeeps
        htrue inner.depth
      exact (sequenceOf m hstart e hfurther).weaken fun _ _ hc => hc.2

/-- The declaration or the expressions that a loop starts with. -/
theorem forStart [NameProperties] (hinner : outer.Realizes text options inner)
    (h : p.Beside text options (Keeps jumps) s) :
    Carries text options (fun _ => Keeps jumps)
      (ForInit.map options.locate)
      (@Parser.forStart _ m.arithmetic outer p)
      (Parse.forStart inner s) := by
  have hstart := h.start
  unfold Parser.forStart Parse.forStart
  rw [Parse.lookahead_bind]
  refine (h.forKind m).bindOk fun kind p₁ s₁ hkind h₁ => ?_
  have hsame := (Parse.waits_forKind hkind).lookahead
  cases kind with
  | none =>
      exact (h₁.forExpression m hinner).map (fun _ => rfl)
        fun _ _ hc => hc
  | some kind =>
      unfold Parser.forDeclaration
      dsimp only [id]
      rw [Parser.start_bind, h₁.startMark, hsame]
      refine (h₁.skip m).bind fun _ p₂ s₂ h₂ => ?_
      refine (h₂.declarators m hinner kind).bind
        fun declared p₃ s₃ h₃ => ?_
      refine h₃.finished m .variableDeclaration hstart
        (fun _ _ hc => hc) fun span => ?_
      rw [ForInit.map, Declaration.map, Declarator.mapAll_eq]

/-- What a loop starts with, and the semicolon after it. -/
theorem forInit [NameProperties] (hinner : outer.Realizes text options inner)
    (h : p.Beside text options (Keeps jumps) s) :
    Carries text options (fun _ => Keeps jumps)
      (Option.map (ForInit.map options.locate))
      (@Parser.forInit _ m.arithmetic outer p)
      (Parse.forInit inner s) := by
  refine h.ifAt ";" (fun _ => ?_) fun _ => ?_
  · exact (h.skip m).bind fun _ p₁ s₁ h₁ => .pure h₁ rfl
  · refine (h.forStart m hinner).bind fun init p₁ s₁ h₁ => ?_
    exact (h₁.expect m ";").bind fun _ p₂ s₂ h₂ => .pure h₂ rfl

/-- An expression, unless the given punctuator comes first. -/
theorem optionalExpression [NameProperties]
    (hinner : outer.Realizes text options inner)
    (h : p.Beside text options (Keeps jumps) s) (stop : String) :
    Carries text options (fun _ => Keeps jumps)
      (Option.map (Expression.map options.locate))
      (@Parser.optionalExpression _ m.arithmetic outer stop p)
      (Parse.optionalExpression inner stop s) := by
  refine h.ifAt stop (fun _ => .pure h rfl) fun _ => ?_
  exact (h.expression m hinner fun _ hc => hc).map (fun _ => rfl)
    fun _ _ hc => hc

/-- A loop with a start, a condition and a step. -/
theorem forLoop [NameProperties] (hinner : outer.Realizes text options inner)
    (h : p.Beside text options (Keeps jumps) s)
    (hword : s.lookahead.isKeyword "for" = true) :
    Carries text options (fun _ => Keeps jumps)
      (Statement.map options.locate)
      (@Parser.forLoop _ m.arithmetic outer p)
      (Parse.forLoop inner jumps s) := by
  have hstart := h.start
  unfold Parser.forLoop Parse.forLoop
  refine h.mark ?_
  refine (h.expectWord_skip m hword).bind fun _ p₁ s₁ h₁ => ?_
  refine (h₁.expect m "(").bind fun _ p₂ s₂ h₂ => ?_
  refine (h₂.forInit m hinner).bind fun init p₃ s₃ h₃ => ?_
  refine (h₃.optionalExpression m hinner ";").bind
    fun test p₄ s₄ h₄ => ?_
  refine (h₄.expect m ";").bind fun _ p₅ s₅ h₅ => ?_
  refine (h₅.optionalExpression m hinner ")").bind
    fun update p₆ s₆ h₆ => ?_
  refine (h₆.loopBody m hinner).bind fun body p₇ s₇ h₇ => ?_
  refine h₇.finished m .forStatement hstart (fun _ _ hc => hc)
    fun span => ?_
  cases init <;> cases test <;> cases update <;> rfl

-- =============================================================== jumps

/-- The label of a jump is one that a statement around it has. -/
theorem requireLabel [NameProperties]
    (h : p.Beside text options (Keeps jumps) s)
    {t : Token} (ht : t.span.start.Sound text) {id : Identifier Span}
    (hid : id.place.start = t.span.start) :
    Carries text options (fun _ => Keeps jumps) (fun u => u)
      (@Parser.requireLabel m.arithmetic t id.name p)
      (Parse.requireLabel jumps id s) := by
  unfold Parser.requireLabel Parse.requireLabel
  rw [Parser.context_bind, h.context.labels, ht.diagnose_agrees m, hid]
  exact .ite (fun _ => .pure h rfl) fun _ => h.tolerate _

/-- The label after a jump. -/
theorem jumpLabel [NameProperties]
    (h : p.Beside text options (Keeps jumps) s) :
    Carries text options (fun _ => Keeps jumps)
      (Option.map (Identifier.map options.locate))
      (@Parser.jumpLabel _ m.arithmetic p) (Parse.jumpLabel jumps s) := by
  have hstart := h.start
  unfold Parser.jumpLabel Parse.jumpLabel
  refine h.look ?_
  rw [Parser.afterLineBreak_bind, Parse.afterLineBreak_bind, h.lineBreak]
  refine .ite (fun _ => .pure h rfl) fun _ => ?_
  refine (h.boundName m false).bindOk fun id p₁ s₁ hid h₁ => ?_
  have hplace := start_of_boundName hid
  refine (h₁.requireLabel m hstart hplace).bind fun _ p₂ s₂ h₂ => ?_
  exact .pure h₂ rfl

/-- The end of a jump, which belongs into a loop. -/
theorem endJump [NameProperties] (h : p.Beside text options (Keeps jumps) s)
    (label : Option (Identifier Span)) (cause : Cause) :
    Carries text options (fun _ => Keeps jumps) (fun u => u)
      (@Parser.endJump _ m.arithmetic
        (label.map (Identifier.map options.locate)) cause p)
      (Parse.endJump jumps label cause s) := by
  unfold Parser.endJump Parse.endJump
  refine (h.endStatement m).bind fun _ p₁ s₁ h₁ => ?_
  rw [Parser.context_bind, h₁.context.inIteration, Option.isNone_map]
  exact .ite (fun _ => h₁.object _) fun _ => .pure h₁ rfl

/-- A jump out of a loop or a labeled statement. -/
theorem breaking [NameProperties] (h : p.Beside text options (Keeps jumps) s)
    (hword : s.lookahead.isKeyword "break" = true) :
    Carries text options (fun _ => Keeps jumps)
      (Statement.map options.locate)
      (@Parser.breaking _ m.arithmetic p) (Parse.breaking jumps s) := by
  have hstart := h.start
  unfold Parser.breaking Parse.breaking
  refine h.mark ?_
  refine (h.expectWord_skip m hword).bind fun _ p₁ s₁ h₁ => ?_
  refine (h₁.jumpLabel m).bind fun label p₂ s₂ h₂ => ?_
  refine (h₂.endJump m label _).bind fun _ p₃ s₃ h₃ => ?_
  exact h₃.finished m .breakStatement hstart (fun _ _ hc => hc) fun _ => rfl

/-- A jump to the next round of a loop. -/
theorem continuing [NameProperties] (h : p.Beside text options (Keeps jumps) s)
    (hword : s.lookahead.isKeyword "continue" = true) :
    Carries text options (fun _ => Keeps jumps)
      (Statement.map options.locate)
      (@Parser.continuing _ m.arithmetic p) (Parse.continuing jumps s) := by
  have hstart := h.start
  unfold Parser.continuing Parse.continuing
  refine h.mark ?_
  refine (h.expectWord_skip m hword).bind fun _ p₁ s₁ h₁ => ?_
  refine (h₁.jumpLabel m).bind fun label p₂ s₂ h₂ => ?_
  refine (h₂.endJump m label _).bind fun _ p₃ s₃ h₃ => ?_
  exact h₃.finished m .continueStatement hstart (fun _ _ hc => hc)
    fun _ => rfl

/-- Whether a value to return follows. -/
theorem hasReturnValue [NameProperties] (h : p.Beside text options K s) :
    Carries text options (fun _ => K) id (Parser.hasReturnValue p)
      (Parse.hasReturnValue s) := by
  have hcond (a b c d e : Bool) : (!a && !b && !c && !d || e)
      = (e || !(a || b || d || c)) := by
    cases a <;> cases b <;> cases c <;> cases d <;> cases e <;> rfl
  unfold Parser.hasReturnValue Parse.hasReturnValue
  refine h.look ?_
  rw [Parser.afterLineBreak_bind, Parse.afterLineBreak_bind, h.lineBreak,
    hcond]
  exact .pure h rfl

/-- The value to return, if one follows. -/
theorem returnValue [NameProperties]
    (hinner : outer.Realizes text options inner)
    (h : p.Beside text options (Keeps jumps) s) :
    Carries text options (fun _ => Keeps jumps)
      (Option.map (Expression.map options.locate))
      (@Parser.returnValue _ m.arithmetic outer p)
      (Parse.returnValue inner s) := by
  unfold Parser.returnValue Parse.returnValue
  refine h.hasReturnValue.bind fun _ p₁ s₁ h₁ => ?_
  refine .ite (fun _ => ?_) fun _ => .pure h₁ rfl
  exact (h₁.expression m hinner fun _ hc => hc).map (fun _ => rfl)
    fun _ _ hc => hc

/-- A value is returned from within a function. -/
theorem requireFunction [NameProperties]
    (h : p.Beside text options (Keeps jumps) s) :
    Carries text options (fun _ => Keeps jumps) (fun u => u)
      (Parser.requireFunction p) (Parse.requireFunction jumps s) := by
  unfold Parser.requireFunction Parse.requireFunction
  rw [Parser.context_bind, h.context.inFunctionBody]
  cases jumps.inFunction with
  | true => exact .pure h rfl
  | false => exact h.object _

/-- A return from a function. -/
theorem returning [NameProperties] (hinner : outer.Realizes text options inner)
    (h : p.Beside text options (Keeps jumps) s)
    (hword : s.lookahead.isKeyword "return" = true) :
    Carries text options (fun _ => Keeps jumps)
      (Statement.map options.locate)
      (@Parser.returning _ m.arithmetic outer p)
      (Parse.returning inner jumps s) := by
  have hstart := h.start
  unfold Parser.returning Parse.returning
  refine h.requireFunction.bindOk fun _ p₁ s₁ hreq h₁ => ?_
  have hsame : s₁.lookahead = s.lookahead :=
    (Parse.waits_requireFunction jumps hreq).lookahead
  refine h₁.mark ?_
  rw [← hsame] at hword hstart
  refine (h₁.expectWord_skip m hword).bind fun _ p₂ s₂ h₂ => ?_
  refine (h₂.returnValue m hinner).bind fun argument p₃ s₃ h₃ => ?_
  refine (h₃.endStatement m).bind fun _ p₄ s₄ h₄ => ?_
  refine h₄.finished m .returnStatement hstart (fun _ _ hc => hc)
    fun span => ?_
  cases argument <;> rfl

/-- An exception. -/
theorem throwing [NameProperties] (hinner : outer.Realizes text options inner)
    (h : p.Beside text options (Keeps jumps) s) :
    Carries text options (fun _ => Keeps jumps)
      (Statement.map options.locate)
      (@Parser.throwing _ m.arithmetic outer p)
      (Parse.throwing inner s) := by
  have hstart := h.start
  unfold Parser.throwing Parse.throwing
  refine h.mark ?_
  refine (h.skip m).bind fun _ p₁ s₁ h₁ => ?_
  rw [Parser.afterLineBreak_bind, Parse.afterLineBreak_bind, h₁.lineBreak]
  refine .ite (fun _ => h₁.reject _) fun _ => ?_
  refine (h₁.expression m hinner fun _ hc => hc).bind
    fun argument p₂ s₂ h₂ => ?_
  refine (h₂.endStatement m).bind fun _ p₃ s₃ h₃ => ?_
  exact h₃.finished m .throwStatement hstart (fun _ _ hc => hc) fun _ => rfl

-- ===================================================== other statements

/-- Statements in braces. -/
theorem block [NameProperties] (hinner : outer.Realizes text options inner)
    (h : p.Beside text options (Keeps jumps) s)
    (hmark : s.lookahead.isPunctuator "\x7b" = true) :
    Carries text options (fun _ => Keeps jumps) (Block.map options.locate)
      (@Parser.block _ m.arithmetic outer p) (Parse.block inner jumps s) := by
  have hmore {p : ParserState} {s : ParseState}
      (h : p.Beside text options (Keeps jumps) s) :
      Carries text options (fun _ => Keeps jumps) id
        ((do return !(← Parser.isAt "\x7d")) p)
        ((do return !(← Parse.isAt "\x7d")) s) :=
    (h.isAt "\x7d").bind fun _ _ _ h' => .pure h' rfl
  have hstart := h.start
  unfold Parser.block Parse.block
  rw [hinner.depth]
  refine h.mark ?_
  refine (h.expect_skip m hmark).bind fun _ p₁ s₁ h₁ => ?_
  refine (carries_collectWhile hmore (hinner.item ·) h₁ _).bind
    fun body p₂ s₂ h₂ => ?_
  refine (h₂.expect m _).bind fun _ p₃ s₃ h₃ => ?_
  refine h₃.finished m .blockStatement hstart (fun _ _ hc => hc)
    fun span => ?_
  rw [Block.map, Statement.mapAll_eq]

/-- A semicolon by itself. -/
theorem emptyStatement [NameProperties] (h : p.Beside text options K s)
    (hmark : s.lookahead.isPunctuator ";" = true) :
    Carries text options (fun _ => K) (Statement.map options.locate)
      (@Parser.emptyStatement _ m.arithmetic p) (Parse.emptyStatement s) := by
  have hstart := h.start
  unfold Parser.emptyStatement Parse.emptyStatement
  refine h.mark ?_
  refine (h.expect_skip m hmark).bind fun _ p₁ s₁ h₁ => ?_
  exact h₁.finished m .emptyStatement hstart (fun _ _ hc => hc) fun _ => rfl

/-- A call of the debugger. -/
theorem debugger [NameProperties] (h : p.Beside text options K s)
    (hword : s.lookahead.isKeyword "debugger" = true) :
    Carries text options (fun _ => K) (Statement.map options.locate)
      (@Parser.debugger _ m.arithmetic p) (Parse.debugger s) := by
  have hstart := h.start
  unfold Parser.debugger Parse.debugger
  refine h.mark ?_
  refine (h.expectWord_skip m hword).bind fun _ p₁ s₁ h₁ => ?_
  refine (h₁.endStatement m).bind fun _ p₂ s₂ h₂ => ?_
  exact h₂.finished m .debuggerStatement hstart (fun _ _ hc => hc)
    fun _ => rfl

/-- The end of a statement that is an expression. -/
theorem expressionEnd [NameProperties]
    (h : p.Beside text options K s) {start : Position}
    (hstart : start.Sound text) (e : Expression Span) :
    Carries text options (fun _ => K) (Statement.map options.locate)
      ((do
        @Parser.endStatement _ m.arithmetic
        return Statement.expression (e.map options.locate)
          (← @Parser.finish m.arithmetic .expressionStatement
            start.mark)) p)
      (Parse.expressionEnd start e s) := by
  unfold Parse.expressionEnd
  refine (h.endStatement m).bind fun _ p₁ s₁ h₁ => ?_
  exact h₁.finished m .expressionStatement hstart (fun _ _ hc => hc)
    fun _ => rfl

/-- An expression as a statement. -/
theorem expressionStatement [NameProperties]
    (hinner : outer.Realizes text options inner)
    (h : p.Beside text options (Keeps jumps) s) :
    Carries text options (fun _ => Keeps jumps)
      (Statement.map options.locate)
      (@Parser.expressionStatement _ m.arithmetic outer p)
      (Parse.expressionStatement inner s) := by
  have hstart := h.start
  unfold Parser.expressionStatement Parse.expressionStatement
  refine h.mark ?_
  refine (h.expression m hinner fun _ hc => hc).bind
    fun e p₁ s₁ h₁ => ?_
  exact h₁.expressionEnd m hstart e

/-- A statement with a label, which is kept in mind for the statement after
it. -/
theorem labeled [NameProperties] (hinner : outer.Realizes text options inner)
    (h : p.Beside text options (Keeps jumps) s) {start : Position}
    (hstart : start.Sound text) (label : Identifier Span) :
    Carries text options (fun _ => Keeps jumps)
      (Statement.map options.locate)
      (@Parser.labeled _ m.arithmetic outer start.mark
        (label.map options.locate) p)
      (Parse.labeled inner jumps start label s) := by
  unfold Parser.labeled Parse.labeled
  refine (h.skip m).bind fun _ p₁ s₁ h₁ => ?_
  rw [Parser.context_bind, h₁.context.labels]
  refine .ite (fun _ => h₁.reject _) fun hnew => ?_
  have hfresh : label.name ∉ jumps.labels :=
    fun hmem => hnew (List.contains_iff_mem.2 hmem)
  refine h₁.adapted (Keeps (jumps.label label.name))
    (fun c hc => ?_) fun p₂ h₂ => ?_
  · refine ⟨hc.inFunctionBody, hc.inIteration, ?_, hc.initializedName⟩
    show c.labels.insert label.name = label.name :: jumps.labels
    rw [hc.labels, List.insert_of_not_mem hfresh]
  · refine (hinner.statement h₂).bind fun body p₃ s₃ h₃ => ?_
    refine h₃.adapted (Keeps jumps) (fun c hc => ?_)
      fun p₄ h₄ => ?_
    · refine ⟨hc.inFunctionBody, hc.inIteration, ?_, hc.initializedName⟩
      show c.labels.erase label.name = jumps.labels
      rw [hc.labels]
      exact List.erase_cons_head _ _
    · exact h₄.finished m .labeledStatement hstart (fun _ _ hc => hc)
        fun _ => rfl

/-- A statement with a label, or an expression. -/
theorem labeledOrExpression [NameProperties]
    (hinner : outer.Realizes text options inner)
    (h : p.Beside text options (Keeps jumps) s) :
    Carries text options (fun _ => Keeps jumps)
      (Statement.map options.locate)
      (@Parser.labeledOrExpression _ m.arithmetic outer p)
      (Parse.labeledOrExpression inner jumps s) := by
  have hstart := h.start
  unfold Parser.labeledOrExpression Parse.labeledOrExpression
  refine h.mark ?_
  refine (h.expression m hinner fun _ hc => hc).bind
    fun e p₁ s₁ h₁ => ?_
  rw [Parser.isAt_bind, Parse.isAt_bind, h₁.lookahead]
  cases e with
  | identifier label =>
      cases s₁.lookahead.isPunctuator ":" with
      | true => exact h₁.labeled m hinner hstart label
      | false => exact h₁.expressionEnd m hstart _
  | _ => exact h₁.expressionEnd m hstart _

-- ========================================================== the choice

/-- A keyword has its text. -/
theorem isKeyword_shown [NameProperties] (h : p.Beside text options K s)
    (hkind : s.lookahead.kind = .keyword) :
    s.lookahead.isKeyword s.lookahead.shown = true := by
  unfold Token.isKeyword
  rw [h.word hkind, hkind]
  simp

/-- The statement that a keyword opens. -/
theorem keywordStatement [NameProperties]
    (hinner : outer.Realizes text options inner)
    (h : p.Beside text options (Keeps jumps) s)
    (hkind : s.lookahead.kind = .keyword) :
    Carries text options (fun _ => Keeps jumps)
      (Statement.map options.locate)
      (@Parser.keywordStatement _ m.arithmetic outer s.lookahead.text? p)
      (Parse.keywordStatement inner jumps s.lookahead.shown s) := by
  have hword := h.isKeyword_shown hkind
  rw [h.word hkind]
  generalize s.lookahead.shown = word at hword
  generalize hx : @Parser.keywordStatement _ m.arithmetic outer (some word)
    = x
  generalize hy : Parse.keywordStatement inner jumps word = y
  unfold Parse.keywordStatement at hy
  split at hy <;> subst hx hy
  case h_1 => exact h.breaking m hword
  case h_2 => exact h.continuing m hword
  case h_3 => exact h.debugger m hword
  case h_4 => exact h.doWhileLoop m hinner hword
  case h_5 => exact h.forLoop m hinner hword
  case h_6 =>
    exact (h.functionDeclaration m hinner hword).map (fun _ => rfl)
      fun _ _ hc => hc
  case h_7 => exact h.ifElse m hinner hword
  case h_8 => exact h.labeledOrExpression m hinner
  case h_9 => exact h.returning m hinner hword
  case h_10 => exact h.whileLoop m hinner hword
  case h_11 =>
    have hother : @Parser.keywordStatement _ m.arithmetic outer (some word)
        = @Parser.expressionStatement _ m.arithmetic outer := by
      unfold Parser.keywordStatement
      split <;> simp_all
    rw [hother]
    exact h.expressionStatement m hinner

/-- A statement. -/
theorem statement [NameProperties]
    (hinner : outer.Realizes text options inner) :
    (@Parser.statement _ m.arithmetic outer).ReadsStatement text options
      (Parse.statement inner) := by
  intro jumps p s h
  unfold Parser.statement Parse.statement
  refine h.look ?_
  cases hkind : s.lookahead.kind with
  | boolean => exact h.expressionStatement m hinner
  | null => exact h.expressionStatement m hinner
  | numeric => exact h.expressionStatement m hinner
  | string => exact h.expressionStatement m hinner
  | punctuator =>
      refine .ite (fun hmark => ?_) fun _ => ?_
      · exact (h.block m hinner hmark).map (fun _ => rfl)
          fun _ _ hc => hc
      · exact .ite (fun hmark => h.emptyStatement m hmark)
          fun _ => h.expressionStatement m hinner
  | identifier =>
      refine (h.isAtVar m).bind fun _ p₁ s₁ h₁ => ?_
      refine .ite (fun _ => h₁.declaration m hinner .var) fun _ => ?_
      exact .ite (fun _ => h₁.throwing m hinner)
        fun _ => h₁.labeledOrExpression m hinner
  | keyword => exact h.keywordStatement m hinner hkind
  | endOfInput => exact h.unexpected m _

/-- A word that declares a function opens a statement of the grammar. -/
theorem statementOfDef [NameProperties]
    (hinner : outer.Realizes text options inner)
    (h : p.Beside text options (Keeps jumps) s)
    (hword : s.lookahead.isKeyword "def" = true) :
    Carries text options (fun _ => Keeps jumps)
      (Statement.map options.locate)
      ((Statement.function <$> @Parser.functionDeclaration _ m.arithmetic
        outer) p)
      (Parse.statement inner jumps s) := by
  obtain ⟨hkind, htext⟩ : s.lookahead.kind = .keyword ∧
      s.lookahead.text? = some "def" := by
    simpa [Token.isKeyword] using hword
  have hshown : s.lookahead.shown = "def" :=
    Option.some.inj ((h.word hkind).symm.trans htext)
  have hstatement : Parse.statement inner jumps s
      = (Statement.function <$> Parse.functionDeclaration inner) s := by
    unfold Parse.statement
    rw [Parse.lookahead_bind, hkind, hshown]
    rfl
  rw [hstatement]
  exact (h.functionDeclaration m hinner hword).map (fun _ => rfl)
    fun _ _ hc => hc

/-- A statement or a declaration. -/
theorem item [NameProperties] (hinner : outer.Realizes text options inner) :
    (@Parser.item _ m.arithmetic outer).ReadsStatement text options
      (Parse.item inner) := by
  intro jumps p s h
  unfold Parser.item Parse.item
  rw [Parser.lookahead_bind, h.lookahead]
  by_cases hkind : s.lookahead.kind ≠ .keyword
  · have hnone (word : String) : s.lookahead.isKeyword word = false := by
      simp [Token.isKeyword, hkind]
    rw [if_pos hkind, Parse.isAtWord_bind, hnone, if_neg Bool.false_ne_true,
      Parse.isAtWord_bind, hnone, if_neg Bool.false_ne_true]
    exact statement m hinner h
  rw [if_neg hkind]
  refine h.ifAtWord "const" (fun _ => h.declaration m hinner .const)
    fun _ => ?_
  rw [Parser.isAtWord_bind, h.lookahead]
  by_cases hdef : s.lookahead.isKeyword "def" = true
  · have hlet : s.lookahead.isKeyword "let" = false := by
      simp_all [Token.isKeyword]
    rw [if_pos hdef, Parse.isAtWord_bind, hlet, if_neg Bool.false_ne_true]
    exact h.statementOfDef m hinner hdef
  rw [if_neg hdef]
  refine h.ifAtWord "let" (fun _ => ?_) fun _ => statement m hinner h
  refine (h.bindingAhead m false).bind fun _ p₁ s₁ h₁ => ?_
  exact .ite (fun _ => h₁.declaration m hinner .letting)
    fun _ => statement m hinner h₁

end ParserState.Beside

-- ============================================================== levels

/-- With as many levels, a parser comes to what the grammar comes to. -/
theorem ParserProductions.realizes_ofDepth [NameProperties] (depth : Nat) :
    (@ParserProductions.ofDepth _ m.arithmetic depth).Realizes text options
      (.ofDepth depth) := by
  induction depth with
  | zero =>
      have hexpression : (Parser.exhausted : Parser _).ReadsExpression text
          options Parse.exhausted := fun _ _ _ _ => .exhausted
      have hstatement : (Parser.exhausted : Parser _).ReadsStatement text
          options fun _ => Parse.exhausted := fun _ _ _ _ => .exhausted
      exact ⟨rfl, hexpression, hexpression, hexpression, hstatement,
        hstatement⟩
  | succ depth ih =>
      exact {
        depth := congrArg (· + 1) ih.depth
        assignment := ParserState.Beside.assignment m ih
        unary := ParserState.Beside.unary m ih
        power := ParserState.Beside.power m ih
        statement := ParserState.Beside.statement m ih
        item := ParserState.Beside.item m ih }

end ScriptTree
