/-
A parser reads names and functions as the grammar does.

# Levels

The productions of a parser refer to those one level further in, and so do
the productions of the grammar. A level of the one realizes a level of the
other if its productions come to the same from every state
(`ParserProductions.Realizes`). What reads an expression says besides
whether a value may be given to it, and what reads a statement leaves what
is kept in mind as it was.

# Bodies of functions

The parser sets aside what it keeps in mind of jumps, for which the grammar
hands down that of the top of a function, and takes it up again.
-/
import ScriptTree.Proofs.Places
import ScriptTree.Proofs.Refinement.Context

namespace ScriptTree

open Context

-- ============================================================== levels

section

variable (text : List Char) (options : Options)

/-- The parser reads an expression as the grammar does, and rules out what
it is not. -/
def Parser.ReadsExpression [NameProperties] (x : Parser (Expression Location))
    (y : Parse (Expression Span)) : Prop :=
  ∀ ⦃jumps : Jumps⦄ ⦃p : ParserState⦄ ⦃s : ParseState⦄,
    p.Beside text options (Fits jumps true) s →
      Carries text options (fun e => Fits jumps e.isAssignable)
        (Expression.map options.locate) (x p) (y s)

/-- The parser reads a statement as the grammar does. -/
def Parser.ReadsStatement [NameProperties] (x : Parser (Statement Location))
    (y : Jumps → Parse (Statement Span)) : Prop :=
  ∀ ⦃jumps : Jumps⦄ ⦃p : ParserState⦄ ⦃s : ParseState⦄,
    p.Beside text options (Keeps jumps) s →
      Carries text options (fun _ => Keeps jumps)
        (Statement.map options.locate) (x p) (y jumps s)

/-- The productions of a parser come to what those of the grammar come
to. -/
structure ParserProductions.Realizes [NameProperties]
    (productions : ParserProductions) (grammar : Productions) : Prop where
  depth : productions.depth = grammar.depth
  assignment : Parser.ReadsExpression text options productions.assignment
    grammar.assignment
  unary : Parser.ReadsExpression text options productions.unary
    grammar.unary
  power : Parser.ReadsExpression text options productions.power
    grammar.power
  statement : Parser.ReadsStatement text options productions.statement
    grammar.statement
  item : Parser.ReadsStatement text options productions.item grammar.item

end

variable (m : Machine) {text : List Char} {options : Options}

namespace Parser.ReadsExpression

variable {x : Parser (Expression Location)} {y : Parse (Expression Span)}
  {jumps : Jumps} {target : Bool} {K : Context → Prop} {p : ParserState}
  {s : ParseState}

/-- By itself an expression leaves nothing behind. -/
theorem isolated [NameProperties] (hx : x.ReadsExpression text options y)
    (h : p.Beside text options K s) (hK : ∀ c, K c → c.Keeps jumps) :
    Carries text options (fun _ => K) (Expression.map options.locate)
      (@Parser.isolated _ m.arithmetic x p) (y s) :=
  h.isolated m hK fun h' => (hx h').weaken fun _ _ hc => hc.toKeeps

/-- As the first part of an expression, it leaves whether a value may be
given to it. -/
theorem inherited [NameProperties] (hx : x.ReadsExpression text options y)
    (h : p.Beside text options (Fits jumps true) s) :
    Carries text options (fun e => Fits jumps e.isAssignable)
      (Expression.map options.locate) (Parser.inherited x p) (y s) :=
  h.inherited fun h' => hx h'

end Parser.ReadsExpression

/-- At the end of the text there is no parameter. -/
theorem Parse.parameter_of_isEnd {inner : Productions}
    {s : ParseState} {β : Type} {y : Parameter Span → Parse β} (hend : s.lookahead.isEnd = true) :
    (Parse.parameter inner >>= y) s
      = (Parse.shift >>= Parse.unexpected) s := by
  cases hshift : Parse.shift s with
  | error e s' =>
      have hname : Parse.boundName false s = .error e s' :=
        bind_of_error hshift
      have hparameter : Parse.parameter inner s = .error e s' := by
        show (Parse.boundName false >>= _) s = _
        exact bind_of_error hname
      rw [bind_of_error hparameter, bind_of_error hshift]
  | ok t s' =>
      obtain rfl := (Parse.shift_ok.1 hshift).1
      have hkind : s.lookahead.kind = .endOfInput := by
        simpa [Token.isEnd] using hend
      have hname : Parse.boundName false s
          = Parse.unexpected s.lookahead s' := by
        unfold Parse.boundName
        rw [bind_of_ok hshift, if_neg]
        simp [hkind]
      have hparameter : Parse.parameter inner s
          = Parse.unexpected s.lookahead s' := by
        show (Parse.boundName false >>= _) s = _
        exact bind_of_error hname
      rw [bind_of_error hparameter, bind_of_ok hshift]
      rfl

namespace ParserState.Beside

variable {K : Context → Prop} {jumps : Jumps} {p : ParserState}
  {s : ParseState} {outer : ParserProductions} {inner : Productions}

-- =============================================================== names

/-- A bound name. -/
theorem boundName [NameProperties]
    (h : p.Beside text options K s) (allowsLet : Bool) :
    Carries text options (fun _ => K) (Identifier.map options.locate)
      (@Parser.boundName _ m.arithmetic allowsLet p)
      (Parse.boundName allowsLet s) := by
  have hstart := h.start
  unfold Parser.boundName Parse.boundName
  rw [Parser.start_bind, h.startMark]
  refine (h.shift m).bind fun t p' s' h' => ?_
  obtain rfl := h'.context.1
  refine Carries.iteNot ?_ (fun _ => ?_) fun _ => h'.unexpected m _
  · rw [Bool.and_comm allowsLet]
    simp [imp_iff_not_or]
  · exact h'.forget.finished m .identifier hstart (fun _ _ hc => hc)
      fun _ => rfl

/-- The parameter of a function may have any name that is bound. -/
theorem patternNone [NameProperties] (h : p.Beside text options K s) :
    Carries text options (fun _ => K) (Identifier.map options.locate)
      (@Parser.pattern _ m.arithmetic none p) (Parse.boundName false s) := by
  have hrefuse : @Parser.refuseLet m.arithmetic none p = .ok () p := by
    unfold Parser.refuseLet
    rw [Parser.lookahead_bind, if_neg]
    · rfl
    · simp
  unfold Parser.pattern
  rw [bind_of_ok hrefuse]
  exact h.boundName m false

/-- Both object to the same names in a declaration. -/
theorem refuseLet [NameProperties] (h : p.Beside text options K s)
    (kind : DeclarationKind) :
    Carries text options (fun _ => K) id
      (@Parser.refuseLet m.arithmetic (some kind) p)
      (Parse.refuseLet kind s) := by
  have hkind : (decide (some kind = some DeclarationKind.letting)
      || decide (some kind = some DeclarationKind.const))
      = decide (kind ≠ .var) := by
    cases kind <;> rfl
  unfold Parser.refuseLet Parse.refuseLet
  refine h.look ?_
  rw [hkind]
  apply Carries.ite
  · exact fun _ => h.objectTo m _ _
  · exact fun _ => .pure h rfl

-- ========================================================== parameters

/-- A parameter. -/
theorem parameter [NameProperties] (hinner : outer.Realizes text options inner)
    (h : p.Beside text options K s) (hK : ∀ c, K c → c.Keeps jumps) :
    Carries text options (fun _ => K) (Parameter.map options.locate)
      (@Parser.parameter _ m.arithmetic outer p)
      (Parse.parameter inner s) := by
  have hstart := h.start
  unfold Parser.parameter Parse.parameter
  refine h.look ?_
  rw [hstart.mark_agrees m]
  refine (h.patternNone m).bind fun id p₁ s₁ h₁ => ?_
  refine h₁.ifAt "=" (fun _ => ?_) fun _ => .pure h₁ rfl
  refine (h₁.skip m).bind fun _ p₂ s₂ h₂ => ?_
  refine (hinner.assignment.isolated m h₂ hK).bind fun e p₃ s₃ h₃ => ?_
  exact h₃.finished m .assignmentPattern hstart (fun _ _ hc => hc)
    fun _ => rfl

/-- Parameters, and what comes after them. At the end of the text the
grammar still asks for a parameter, while the parser leaves it to what comes
after them. -/
theorem parametersUpTo [NameProperties]
    (hinner : outer.Realizes text options inner)
    (hK : ∀ c, K c → c.Keeps jumps) {α β : Type}
    {L : β → Context → Prop} {f : β → α}
    {k : List (Parameter Location) → Parser α}
    {l : List (Parameter Span) → Parse β}
    (hk : ∀ params p s, p.Beside text options K s →
      Carries text options L f
        (k (params.map (Parameter.map options.locate)) p) (l params s))
    (hend : ∀ params p s, p.Beside text options K s →
      s.lookahead.isEnd = true →
      Carries text options L f (k params p)
        ((Parse.shift >>= Parse.unexpected) s))
    (h : p.Beside text options K s) (steps : Nat) :
    Carries text options L f
      ((@Parser.parametersUpTo _ m.arithmetic outer steps >>= k) p)
      ((Parse.separated (Parse.parameter inner) (Parse.expect ",") steps
        >>= l) s) := by
  induction steps generalizing p s k l with
  | zero => exact .exhausted
  | succ steps ih =>
      unfold Parser.parametersUpTo Parse.separated
      simp only [bind_assoc]
      rw [Parser.lookahead_bind, h.lookahead]
      by_cases hstop : s.lookahead.isEnd = true
      · rw [if_pos hstop, pure_bind, Parse.parameter_of_isEnd hstop]
        exact hend [] p s h hstop
      rw [if_neg hstop, bind_assoc]
      refine (h.parameter m hinner hK).bind fun first p₁ s₁ h₁ => ?_
      rw [bind_assoc, Parser.isAt_bind, Parse.isAt_bind, h₁.lookahead]
      by_cases hclose : s₁.lookahead.isPunctuator ")" = true
      · rw [if_pos hclose, if_pos hclose, pure_bind, pure_bind]
        exact hk [first] p₁ s₁ h₁
      rw [if_neg hclose, if_neg hclose]
      simp only [bind_assoc]
      refine (h₁.expect m ",").bind fun _ p₂ s₂ h₂ => ?_
      rw [Parser.isAt_bind, Parse.isAt_bind, h₂.lookahead]
      by_cases htrail : s₂.lookahead.isPunctuator ")" = true
      · rw [if_pos htrail, if_pos htrail, pure_bind, pure_bind]
        exact hk [first] p₂ s₂ h₂
      rw [if_neg htrail, if_neg htrail]
      simp only [bind_assoc, pure_bind]
      refine ih ?_ ?_ h₂
      · exact fun rest p s h => hk (first :: rest) p s h
      · exact fun rest p s h => hend (_ :: rest) p s h

/-- The parameters of a function. -/
theorem parameters [NameProperties]
    (hinner : outer.Realizes text options inner)
    (h : p.Beside text options K s) (hK : ∀ c, K c → c.Keeps jumps) :
    Carries text options (fun _ => K)
      (List.map (Parameter.map options.locate))
      (@Parser.parameters _ m.arithmetic outer p)
      (Parse.parameters inner s) := by
  have hclose (params : List (Parameter Span)) (p : ParserState)
      (s : ParseState) (h : p.Beside text options K s) :
      Carries text options (fun _ => K)
        (List.map (Parameter.map options.locate))
        ((do
          @Parser.expect _ m.arithmetic ")"
          return params.map (Parameter.map options.locate)) p)
        ((do Parse.expect ")"; return params) s) :=
    (h.expect m ")").bind fun _ p' s' h' => .pure h' rfl
  unfold Parser.parameters Parse.parameters Parse.parenthesized
    Parser.upToParenthesis Parse.upToParenthesis
  rw [hinner.depth]
  refine (h.expect m "(").bind fun _ p₁ s₁ h₁ => ?_
  simp only [bind_assoc]
  rw [Parser.isAt_bind, Parse.isAt_bind, h₁.lookahead]
  by_cases hnone : s₁.lookahead.isPunctuator ")" = true
  · rw [if_pos hnone, if_pos hnone, pure_bind, pure_bind]
    exact hclose [] p₁ s₁ h₁
  rw [if_neg hnone, if_neg hnone]
  refine h₁.parametersUpTo m hinner hK hclose ?_ _
  intro params p s h hend
  unfold Parser.expect
  rw [bind_assoc]
  refine (h.shift m).bind fun t p' s' h' => ?_
  obtain rfl := h'.context.1
  have hkind : s.lookahead.kind = .endOfInput := by
    simpa [Token.isEnd] using hend
  rw [if_neg]
  · exact h'.unexpected m _
  · simp [Token.isPunctuator, hkind]

-- =========================================================== functions

/-- The body of a function: what is kept in mind of jumps is set aside, and
is the same again afterwards. -/
theorem functionBody [NameProperties]
    (hinner : outer.Realizes text options inner)
    (h : p.Beside text options (Keeps jumps) s) :
    Carries text options (fun _ => Keeps jumps)
      (Block.map options.locate)
      (@Parser.functionBody _ m.arithmetic outer p)
      (Parse.functionBody inner s) := by
  have hstart := h.start
  have hmore {p : ParserState} {s : ParseState}
      (h : p.Beside text options (Keeps .ofFunction) s) :
      Carries text options (fun _ => Keeps .ofFunction) id
        ((do return !(← Parser.lookahead).isEnd
          && !(← Parser.isAt "\x7d")) p)
        ((do return !(← Parse.lookahead).isEnd
          && !(← Parse.isAt "\x7d")) s) := by
    refine h.look ?_
    rw [Parser.isAt_bind, Parse.isAt_bind, h.lookahead]
    exact .pure h rfl
  unfold Parser.functionBody Parse.functionBody
  rw [hinner.depth]
  refine h.mark ?_
  refine (h.expect m _).bind fun _ p₁ s₁ h₁ => ?_
  have houtside := h₁.context
  rw [Parser.context_bind]
  refine h₁.adapted (Keeps .ofFunction)
    (fun c hc => ⟨rfl, rfl, rfl, hc.initializedName⟩) fun p₂ h₂ => ?_
  refine (carries_collectWhile hmore (hinner.item ·) h₂ _).bind
    fun body p₃ s₃ h₃ => ?_
  refine (h₃.expect m _).bind fun _ p₄ s₄ h₄ => ?_
  refine h₄.adapted (Keeps jumps) (fun c hc => ?_) fun p₅ h₅ => ?_
  · exact ⟨houtside.inFunctionBody, houtside.inIteration,
      houtside.labels, hc.initializedName⟩
  · refine h₅.finished m .blockStatement hstart (fun _ _ hc => hc)
      fun span => ?_
    rw [Block.map, Statement.mapAll_eq]

/-- The star that marks a generator. -/
theorem generatorStar [NameProperties] (h : p.Beside text options K s) :
    Carries text options (fun _ => K) id
      (@Parser.generatorStar _ m.arithmetic p) (Parse.generatorStar s) := by
  refine h.ifAt "*" (fun _ => ?_) fun _ => .pure h rfl
  exact (h.skip m).bind fun _ p' s' h' => .pure h' rfl

/-- The name of a function that may have none. -/
theorem optionalName [NameProperties] (h : p.Beside text options K s) :
    Carries text options (fun _ => K)
      (Option.map (Identifier.map options.locate))
      (@Parser.optionalName _ m.arithmetic p) (Parse.optionalName s) := by
  refine h.ifAt "(" (fun _ => .pure h rfl) fun _ => ?_
  exact (h.boundName m false).map (fun _ => rfl) fun _ _ hc => hc

/-- A function as a statement, the word for which was seen. -/
theorem functionDeclaration [NameProperties]
    (hinner : outer.Realizes text options inner)
    (h : p.Beside text options (Keeps jumps) s)
    (hword : s.lookahead.isKeyword "def" = true) :
    Carries text options (fun _ => Keeps jumps)
      (Function.map options.locate)
      (@Parser.functionDeclaration _ m.arithmetic outer p)
      (Parse.functionDeclaration inner s) := by
  have hstart := h.start
  unfold Parser.functionDeclaration Parse.functionDeclaration
  refine h.mark ?_
  refine (h.expectWord_skip m hword).bind fun _ p₁ s₁ h₁ => ?_
  refine (h₁.generatorStar m).bind fun generator p₂ s₂ h₂ => ?_
  refine (h₂.boundName m false).bind fun id p₃ s₃ h₃ => ?_
  refine (h₃.parameters m hinner fun _ hc => hc).bind
    fun params p₄ s₄ h₄ => ?_
  refine (h₄.functionBody m hinner).bind fun body p₅ s₅ h₅ => ?_
  refine h₅.finished m .functionDeclaration hstart (fun _ _ hc => hc)
    fun span => ?_
  rw [Function.map, Parameter.mapAll_eq]
  rfl

/-- A function as an expression, the word for which was seen. No value can
be given to it. -/
theorem functionExpression [NameProperties]
    (hinner : outer.Realizes text options inner)
    (h : p.Beside text options (Keeps jumps) s)
    (hword : s.lookahead.isKeyword "function" = true) :
    Carries text options (fun _ => Fits jumps false)
      (Function.map options.locate)
      (@Parser.functionExpression _ m.arithmetic outer p)
      (Parse.functionExpression inner s) := by
  have hstart := h.start
  unfold Parser.functionExpression Parse.functionExpression
  refine h.mark ?_
  refine (h.expectWord_skip m hword).bind fun _ p₁ s₁ h₁ => ?_
  refine (h₁.generatorStar m).bind fun generator p₂ s₂ h₂ => ?_
  refine (h₂.optionalName m).bind fun id p₃ s₃ h₃ => ?_
  refine (h₃.parameters m hinner fun _ hc => hc).bind
    fun params p₄ s₄ h₄ => ?_
  refine (h₄.functionBody m hinner).bind fun body p₅ s₅ h₅ => ?_
  refine (h₅.finish m .functionExpression hstart).bind
    fun span p₆ s₆ h₆ => ?_
  refine h₆.cleared (fun _ hc => hc) fun p₇ h₇ => .pure h₇ ?_
  rw [Function.map, Parameter.mapAll_eq]
  rfl

end ParserState.Beside

end ScriptTree
