/-
Statements under a guard, and all levels of the grammar.

A declaration is made of declared names that its kind allows, and a
constant only with its value. Where a statement ends, or a parenthesis is
missing, something may be said of a token; the guard answers for it, since
the token is the lookahead or was just consumed. The main statements are
`levels_ofDepth` and, for all that follows the first token of a script,
`gives_scriptBody`.
-/
import ScriptTree.Proofs.Guard.Expression

namespace ScriptTree

namespace Guard

variable {g : Guard} {π : Type} {place : Span → π} {inner : Productions}
  {jumps : Jumps} {kind : DeclarationKind}

-- ====================================================== declarations

/-- What is said of the token after a statement is said of the
lookahead. -/
theorem gives_endStatement :
    g.Gives Parse.endStatement fun _ => True := by
  refine Leads.facing fun t => .ite (fun _ => Gives.facing gives_skip)
    fun _ => ?_
  refine leads_afterLineBreak.bind fun _ => .ite
    (fun _ => Gives.facing (.pure trivial)) fun _ => ?_
  exact .ite (fun _ => Gives.facing gives_extendToLookahead)
    fun _ => leads_unexpected fun _ hs => hs.speaks

/-- What is made for the refusal of `let` as a name. -/
theorem gives_refuseLet (kind : DeclarationKind) :
    g.Gives (Parse.refuseLet kind) fun _ => True :=
  Leads.facing fun _ => .ite
    (fun _ => leads_objectTo rfl fun _ hs => ⟨hs.state, hs.speaks⟩)
    fun _ => Gives.facing (.pure trivial)

/-- What is made for the value of a declared name. -/
theorem gives_declaredValue (h : g.Levels place inner)
    (kind : DeclarationKind) :
    g.Gives (Parse.declaredValue inner kind) fun init =>
      (kind = .const → init.isSome = true) ∧
        ∀ e ∈ init, g.AllMade place (e.map place).parts := by
  refine .bind gives_isAt fun _ _ => .ite (fun _ => ?_) fun _ => .ite
    (fun _ => gives_reject) fun hkind => .pure ⟨fun h => absurd h hkind,
      by simp⟩
  refine .bind gives_skip fun _ _ => .map (gives_assignment h)
    fun e he => ⟨fun _ => rfl, by simpa using he⟩

variable (g place) in
/-- What is known of a declared name from the kind of declaration. -/
structure DeclaratorMade (kind : DeclarationKind) (d : Declarator Span) :
    Prop where
  init : kind = .const → (d.map place).init?.isSome = true
  name : kind ≠ .var → g.Named (d.map place).id.name
  parts : g.AllMade place (d.map place).parts

/-- What is made for a declared name with its value. -/
theorem gives_declarator (h : g.Levels place inner)
    (kind : DeclarationKind) :
    g.Gives (Parse.declarator inner kind)
      (g.DeclaratorMade place kind) := by
  refine .bind gives_lookahead fun first _ => ?_
  refine .bind (gives_refuseLet kind) fun _ _ => ?_
  refine .bind (gives_boundName _) fun id hid => ?_
  refine .bind (gives_declaredValue h kind) fun init hinit => ?_
  refine .bind gives_close fun span _ => .pure ?_
  obtain ⟨hconst, hvalue⟩ := hinit
  refine ⟨fun hkind => ?_, fun hkind => ?_, ?_⟩
  · simpa [Declarator.map, Declarator.init?] using hconst hkind
  · rw [decide_eq_false hkind] at hid
    exact hid.named
  · cases init with
    | none => simpa [Declarator.map] using hid.made
    | some e =>
        have he := hvalue e rfl
        simpa [Declarator.map] using ⟨hid.made, he⟩

/-- What is made for one or more declared names. -/
theorem gives_declarators (h : g.Levels place inner)
    (kind : DeclarationKind) :
    g.Gives (Parse.declarators inner kind) fun l =>
      l ≠ [] ∧ ∀ d ∈ l, g.DeclaratorMade place kind d := by
  refine .bind (gives_declarator h kind) fun first hfirst => ?_
  refine .bind (gives_collectWhile gives_isAt
    (.bind gives_skip fun _ _ => gives_declarator h kind) _)
    fun further hfurther => .pure ⟨nofun, ?_⟩
  exact List.forall_mem_cons.2 ⟨hfirst, hfurther⟩

/-- The parts of a declaration, from what it declares. -/
theorem made_declaration {declared : List (Declarator Span)} {span : Span}
    (hne : declared ≠ [])
    (hall : ∀ d ∈ declared, g.DeclaratorMade place kind d) :
    g.AllMade place
      ((Declaration.mk kind declared span).map place).parts := by
  have hmade : g.Made place (.declaration
      (.mk kind (declared.map (·.map place)) (place span))) := by
    refine ⟨by simpa using hne, fun d hd => ?_⟩
    obtain ⟨d, hin, rfl⟩ := List.mem_map.1 hd
    exact ⟨(hall d hin).init, (hall d hin).name⟩
  simp only [Declaration.map, Declarator.mapAll_eq, Declaration.parts,
    Declarator.partsAll_eq, List.flatMap_map]
  exact allMade_cons.2 ⟨hmade, allMade_flatMap.2 fun d hd =>
    (hall d hd).parts⟩

/-- What is made for a declaration as a statement. -/
theorem gives_declaration (h : g.Levels place inner)
    (kind : DeclarationKind) :
    g.Gives (Parse.declaration inner kind) fun s =>
      g.AllMade place (s.map place).parts := by
  refine .bind gives_lookahead fun first _ => ?_
  refine .bind gives_skip fun _ _ => ?_
  refine .bind (gives_declarators h kind) fun declared hdeclared => ?_
  refine .bind gives_endStatement fun _ _ => .bind gives_close
    fun span _ => .pure ?_
  have hparts : g.AllMade place
      ((Declaration.mk kind declared span).map place).parts :=
    made_declaration hdeclared.1 hdeclared.2
  simpa [Statement.map] using hparts

/-- What is made for the look for `var`. -/
theorem gives_isAtVar : g.Gives Parse.isAtVar fun _ => True :=
  .bind gives_lookahead fun _ _ => .ite (fun _ => gives_bindingAhead)
    fun _ => .pure trivial

-- ============================================= conditions and loops

/-- What is made for a body that is missing. -/
theorem gives_missingBody (place : Span → π) :
    g.Gives Parse.missingBody fun s => g.AllMade place (s.map place).parts :=
  .bind gives_lookahead fun _ _ => .bind gives_close fun _ _ =>
    .pure (by simp [Statement.map])

/-- What is said of a token in place of a parenthesis is said once it is
consumed. -/
theorem gives_missingParenthesis :
    g.Gives Parse.missingParenthesis fun _ => True := by
  refine .bind gives_isAt fun _ _ => .bind gives_isTolerant
    fun _ _ => .ite (fun _ => .pure trivial) fun _ => ?_
  refine leads_shift.bind fun t => Leads.bind
    (leads_objectTo t.isAboutToken_unexpected
      fun _ hs => ⟨hs.state, hs.speaks⟩)
    fun _ => .pure fun _ hs => hs

/-- What is made for the body of a loop. -/
theorem gives_loopBody (h : g.Levels place inner) :
    g.Gives (Parse.loopBody inner jumps) fun s =>
      g.AllMade place (s.map place).parts :=
  .bind gives_missingParenthesis fun _ _ => .ite
    (fun _ => gives_missingBody place)
    fun _ => .bind gives_expect fun _ _ => h.statement _

/-- What is made for the other branch, which may be missing. -/
theorem gives_elseBranch (h : g.Levels place inner) :
    g.Gives (Parse.elseBranch inner jumps) fun alternate =>
      g.AllMade place
        (Statement.partsOption (alternate.map (·.map place))) :=
  .bind gives_isAtWord fun _ _ => .ite
    (fun _ => .bind gives_skip fun _ _ => .map (h.statement jumps)
      fun _ hs => hs)
    fun _ => .pure (by simp)

/-- What is made for a statement under a condition. -/
theorem gives_ifElse (h : g.Levels place inner) :
    g.Gives (Parse.ifElse inner jumps) fun s =>
      g.AllMade place (s.map place).parts := by
  refine .bind gives_lookahead fun first _ => .bind gives_skip
    fun _ _ => .bind gives_expect fun _ _ => ?_
  refine .bind (gives_expression h) fun test htest => ?_
  refine .bind gives_missingParenthesis fun _ _ => .ite (fun _ => ?_)
    fun _ => ?_
  · refine .bind (gives_missingBody place) fun body hbody =>
      .bind gives_close fun span _ => .pure ?_
    simpa [Statement.map] using ⟨htest, hbody⟩
  · refine .bind gives_expect fun _ _ => ?_
    refine .bind (h.statement jumps) fun consequent hconsequent => ?_
    refine .bind (gives_elseBranch h) fun alternate halternate =>
      .bind gives_close fun span _ => .pure ?_
    simpa [Statement.map] using ⟨htest, hconsequent, halternate⟩

/-- What is made for a loop with its condition in front. -/
theorem gives_whileLoop (h : g.Levels place inner) :
    g.Gives (Parse.whileLoop inner jumps) fun s =>
      g.AllMade place (s.map place).parts := by
  refine .bind gives_lookahead fun first _ => .bind gives_skip
    fun _ _ => .bind gives_expect fun _ _ => ?_
  refine .bind (gives_expression h) fun test htest => ?_
  refine .bind (gives_loopBody h) fun body hbody =>
    .bind gives_close fun span _ => .pure ?_
  simpa [Statement.map] using ⟨htest, hbody⟩

/-- What is made for the end of a loop with its condition behind. -/
theorem gives_loopEnd : g.Gives Parse.loopEnd fun _ => True :=
  .bind gives_missingParenthesis fun _ _ => .ite
    (fun _ => .pure trivial)
    fun _ => .bind gives_expect fun _ _ => .bind gives_isAt
      fun _ _ => .ite (fun _ => gives_skip) fun _ => .pure trivial

/-- What is made for a loop with its condition behind. -/
theorem gives_doWhileLoop (h : g.Levels place inner) :
    g.Gives (Parse.doWhileLoop inner jumps) fun s =>
      g.AllMade place (s.map place).parts := by
  refine .bind gives_lookahead fun first _ => .bind gives_skip
    fun _ _ => ?_
  refine .bind (h.statement jumps.loop) fun body hbody => ?_
  refine .bind gives_expectWord fun _ _ => .bind gives_expect
    fun _ _ => ?_
  refine .bind (gives_expression h) fun test htest => ?_
  refine .bind gives_loopEnd fun _ _ => .bind gives_close
    fun span _ => .pure ?_
  simpa [Statement.map] using ⟨hbody, htest⟩

/-- What is made for the look for a declaration in a loop head. -/
theorem gives_forKind : g.Gives Parse.forKind fun _ => True :=
  .bind gives_isAtWord fun _ _ => .ite (fun _ => .pure trivial)
    fun _ => .bind gives_isAtWord fun _ _ => .ite
      (fun _ => .pure trivial)
      fun _ => .bind gives_isAtVar fun _ _ => .ite
        (fun _ => .pure trivial) fun _ => .pure trivial

/-- What is made for the start of a loop head. -/
theorem gives_forStart (h : g.Levels place inner) :
    g.Gives (Parse.forStart inner) fun init =>
      g.AllMade place (init.map place).parts := by
  refine .bind gives_lookahead fun first _ => .bind gives_forKind
    fun found _ => ?_
  cases found with
  | none => exact .map (gives_expression h) fun _ he => he
  | some kind =>
      refine .bind gives_skip fun _ _ => ?_
      refine .bind (gives_declarators h kind) fun declared hdeclared =>
        .bind gives_close fun span _ => .pure ?_
      exact made_declaration hdeclared.1 hdeclared.2

/-- What is made for the start of a loop head, which may be empty. -/
theorem gives_forInit (h : g.Levels place inner) :
    g.Gives (Parse.forInit inner) fun init =>
      g.AllMade place (ForInit.partsOption (init.map (·.map place))) := by
  refine .bind gives_isAt fun _ _ => .ite (fun _ => ?_) fun _ => ?_
  · exact .bind gives_skip fun _ _ => .pure (by simp)
  · exact .bind (gives_forStart h) fun init hinit =>
      .bind gives_expect fun _ _ => .pure hinit

/-- What is made for an expression that may be missing. -/
theorem gives_optionalExpression (h : g.Levels place inner)
    (stop : String) :
    g.Gives (Parse.optionalExpression inner stop) fun found =>
      g.AllMade place
        (Expression.partsOption (found.map (·.map place))) :=
  .bind gives_isAt fun _ _ => .ite (fun _ => .pure (by simp))
    fun _ => .map (gives_expression h) fun _ he => he

/-- What is made for a loop with a head of three parts. -/
theorem gives_forLoop (h : g.Levels place inner) :
    g.Gives (Parse.forLoop inner jumps) fun s =>
      g.AllMade place (s.map place).parts := by
  refine .bind gives_lookahead fun first _ => .bind gives_skip
    fun _ _ => .bind gives_expect fun _ _ => ?_
  refine .bind (gives_forInit h) fun init hinit => ?_
  refine .bind (gives_optionalExpression h _) fun test htest => ?_
  refine .bind gives_expect fun _ _ => ?_
  refine .bind (gives_optionalExpression h _) fun update hupdate => ?_
  refine .bind (gives_loopBody h) fun body hbody =>
    .bind gives_close fun span _ => .pure ?_
  simpa [Statement.map] using ⟨hinit, htest, hupdate, hbody⟩

-- ============================================================= jumps

/-- What is said of a label is said where it starts. -/
theorem gives_requireLabel {id : Identifier Span}
    (hid : g.Bound false id) :
    g.Gives (Parse.requireLabel jumps id) fun _ => True := by
  obtain ⟨t, ht, -, hstart, -⟩ := hid
  unfold Parse.requireLabel
  rw [hstart]
  exact .ite (fun _ => .pure trivial)
    fun _ => gives_tolerate (g.start _ ht)

variable (g place) in
/-- What is known of a label by the token after the jump. -/
structure LabelMade (u : Token) (newLine : Bool) (id : Identifier Span) :
    Prop where
  name : g.Made place (.name (id.map place))
  isNext : id.place = u.span
  goesOn : u.isEnd = false
  sameLine : newLine = false

/-- A label is the lookahead. -/
theorem leads_jumpLabel (place : Span → π) {u : Token} {newLine : Bool} :
    g.Leads (g.Meets u newLine) (Parse.jumpLabel jumps) fun label s =>
      (∀ id ∈ label, g.LabelMade place u newLine id) ∧ g.state s := by
  refine Leads.lookahead (.afterLineBreak (.ite
    (fun _ => .pure fun _ hs => ⟨by simp, hs.state⟩) fun hlabel => ?_))
  simp only [ne_eq, Bool.or_eq_true, decide_eq_true_eq, not_or,
    Decidable.not_not, Bool.not_eq_true] at hlabel
  refine ((leads_boundName false).weaken (fun _ hs => hs.toFacing)
    fun _ _ hs => hs).bind fun id => Leads.known fun hid => ?_
  refine Gives.bind (gives_requireLabel hid.1) fun _ _ => .pure ?_
  intro label hlabel'
  obtain rfl := Option.some.inj hlabel'
  exact ⟨hid.1.made, hid.2, by simp [Token.isEnd, hlabel.1], hlabel.2⟩

/-- What is made for the end of a jump. -/
theorem gives_endJump (label : Option (Identifier Span)) (cause : Cause) :
    g.Gives (Parse.endJump jumps label cause) fun _ => True :=
  .bind gives_endStatement fun _ _ => .ite (fun _ => gives_object)
    fun _ => .pure trivial

/-- A jump and its label, from what is known of the token after it. -/
theorem LabelMade.labels {t u : Token} {newLine : Bool}
    {id : Identifier Span} {span : Span}
    (h : g.LabelMade place u newLine id) (hnext : g.follows t u newLine)
    (hspan : span.start = t.span.start) :
    g.Labels place (id.map place) (place span) :=
  ⟨t, u, ⟨h.sameLine ▸ hnext, h.goesOn, span.stop, by rw [← hspan]⟩,
    congrArg place h.isNext⟩

/-- A jump is made from its label, whichever jump it is. -/
theorem gives_jump {cause : Cause} {kind : NodeKind}
    {f : Option (Identifier Span) → Span → Statement Span}
    (hnone : ∀ span, g.AllMade place ((f none span).map place).parts)
    (hsome : ∀ id span, g.Made place (.name (id.map place)) →
      g.Labels place (id.map place) (place span) →
        g.AllMade place ((f (some id) span).map place).parts) :
    g.Gives (do
      let first ← Parse.lookahead
      Parse.skip
      let label ← Parse.jumpLabel jumps
      Parse.endJump jumps label cause
      let span ← Parse.close kind first.span.start
      return f label span) fun s => g.AllMade place (s.map place).parts := by
  refine Leads.facing fun first => leads_skip.bind fun _ =>
    Leads.meets fun u newLine hnext => ?_
  refine (leads_jumpLabel place).bind fun label => Leads.known
    fun hlabel => ?_
  refine Gives.bind (gives_endJump label _) fun _ _ => .bind gives_close
    fun span hspan => .pure ?_
  cases label with
  | none => exact hnone span
  | some id =>
      have hmade := hlabel id rfl
      exact hsome id span hmade.name (hmade.labels hnext hspan)

/-- What is made for a jump out of a loop. -/
theorem gives_breaking :
    g.Gives (Parse.breaking jumps) fun s =>
      g.AllMade place (s.map place).parts :=
  gives_jump (fun _ => by simp [Statement.map])
    fun _ _ hname hlabels => by
      simpa [Statement.map] using ⟨hlabels, hname⟩

/-- What is made for a jump to the next round. -/
theorem gives_continuing :
    g.Gives (Parse.continuing jumps) fun s =>
      g.AllMade place (s.map place).parts :=
  gives_jump (fun _ => by simp [Statement.map])
    fun _ _ hname hlabels => by
      simpa [Statement.map] using ⟨hlabels, hname⟩

/-- What is made for the test of a return. -/
theorem gives_requireFunction :
    g.Gives (Parse.requireFunction jumps) fun _ => True :=
  .ite (fun _ => .pure trivial) fun _ => gives_object

/-- What is returned starts on the line of the word, or with a string. -/
theorem leads_returnValue (h : g.Levels place inner) {u : Token}
    {newLine : Bool} :
    g.Leads (g.Meets u newLine) (Parse.returnValue inner) fun found s =>
      (∀ e ∈ found, g.AllMade place (e.map place).parts ∧
        u.isEnd = false ∧ (newLine = false ∨ u.kind = .string)) ∧
          g.state s := by
  have hhas : g.Leads (g.Meets u newLine) Parse.hasReturnValue
      fun b s => (b = true → newLine = false ∨ u.kind = .string) ∧
        g.Meets u newLine s := by
    refine Leads.lookahead (.afterLineBreak (.pure fun _ hs => ⟨?_, hs⟩))
    cases newLine with
    | false => exact fun _ => .inl rfl
    | true => exact fun hvalue => .inr (by simpa using hvalue)
  refine hhas.bind fun b => Leads.known fun hb => .ite (fun hvalue => ?_)
    fun _ => .pure fun _ hs => ⟨by simp, hs.state⟩
  have hline := hb hvalue
  refine (((gives_expression h).facing.opens Parse.opens_expression).weaken
    (fun _ hs => hs.toFacing) fun _ _ hs => hs).bind fun e =>
      Leads.known fun hopen => .pure fun s hs => ⟨?_, hs.2⟩
  intro found hfound
  obtain rfl := Option.some.inj hfound
  exact ⟨hs.1, hopen, hline⟩

/-- What is made for a return. -/
theorem gives_returning (h : g.Levels place inner) :
    g.Gives (Parse.returning inner jumps) fun s =>
      g.AllMade place (s.map place).parts := by
  refine .bind gives_requireFunction fun _ _ => Leads.facing fun first =>
    leads_skip.bind fun _ => Leads.meets fun u newLine hnext => ?_
  refine (leads_returnValue h).bind fun argument => Leads.known
    fun hargument => ?_
  refine Gives.bind gives_endStatement fun _ _ => .bind gives_close
    fun span hspan => .pure ?_
  cases argument with
  | none => simp [Statement.map]
  | some e =>
      obtain ⟨he, hopen, hline⟩ := hargument e rfl
      have hmade : g.Made place (.statement
          (.returning (some (e.map place)) (place span))) :=
        ⟨first, u, newLine, ⟨hnext, hopen, span.stop, by rw [← hspan]⟩,
          hline⟩
      exact allMade_cons.2 ⟨hmade, he⟩

/-- What is made for a value that is thrown. -/
theorem gives_throwing (h : g.Levels place inner) :
    g.Gives (Parse.throwing inner) fun s =>
      g.AllMade place (s.map place).parts := by
  refine Leads.facing fun first => leads_skip.bind fun _ =>
    Leads.meets fun u newLine hnext => .afterLineBreak
      (.ite (fun _ => gives_reject.meets) fun hline => ?_)
  refine (((gives_expression h).facing.opens Parse.opens_expression).weaken
    (fun _ hs => hs.toFacing) fun _ _ hs => hs).bind fun argument =>
      Leads.known fun hopen => Leads.known fun hargument => ?_
  refine Gives.bind gives_endStatement fun _ _ => .bind gives_close
    fun span hspan => .pure ?_
  have hmade : g.Made place (.statement
      (.throwing (argument.map place) (place span))) := by
    rw [Bool.not_eq_true] at hline
    exact ⟨first, u, ⟨hline ▸ hnext, hopen, span.stop, by rw [← hspan]⟩⟩
  simpa [Statement.map] using ⟨hmade, hargument⟩

-- =================================================== other statements

/-- What is made for statements in braces. -/
theorem gives_block (h : g.Levels place inner) :
    g.Gives (Parse.block inner jumps) fun b =>
      g.AllMade place (b.map place).parts := by
  refine .bind gives_lookahead fun first _ => .bind gives_skip
    fun _ _ => ?_
  have hmore : g.Gives (do return !(← Parse.isAt "\x7d") : Parse Bool)
      fun _ => True := .bind gives_isAt fun _ _ => .pure trivial
  refine .bind (gives_collectWhile hmore (h.item jumps) _)
    fun body hbody => ?_
  refine .bind gives_expect fun _ _ => .bind gives_close
    fun span _ => .pure ?_
  simpa [Block.map, List.flatMap_map] using hbody

/-- What is made for a semicolon alone. -/
theorem gives_emptyStatement :
    g.Gives Parse.emptyStatement fun s =>
      g.AllMade place (s.map place).parts :=
  .bind gives_lookahead fun _ _ => .bind gives_skip fun _ _ =>
    .bind gives_close fun _ _ => .pure (by simp [Statement.map])

/-- What is made for a call of the debugger. -/
theorem gives_debugger :
    g.Gives Parse.debugger fun s =>
      g.AllMade place (s.map place).parts :=
  .bind gives_lookahead fun _ _ => .bind gives_skip fun _ _ =>
    .bind gives_endStatement fun _ _ => .bind gives_close
      fun _ _ => .pure (by simp [Statement.map])

/-- What is made for the end of a statement that is an expression. -/
theorem gives_expressionEnd {start : Position} {e : Expression Span}
    (he : g.AllMade place (e.map place).parts) :
    g.Gives (Parse.expressionEnd start e) fun s =>
      g.AllMade place (s.map place).parts := by
  refine .bind gives_endStatement fun _ _ => .bind gives_close
    fun span _ => .pure ?_
  simpa [Statement.map] using he

/-- What is made for an expression as a statement. -/
theorem gives_expressionStatement (h : g.Levels place inner) :
    g.Gives (Parse.expressionStatement inner) fun s =>
      g.AllMade place (s.map place).parts :=
  .bind gives_lookahead fun _ _ => .bind (gives_expression h)
    fun _ he => gives_expressionEnd he

/-- What is made for a statement with a label. -/
theorem gives_labeled (h : g.Levels place inner) {start : Position}
    {label : Identifier Span}
    (hlabel : g.Made place (.name (label.map place))) :
    g.Gives (Parse.labeled inner jumps start label) fun s =>
      g.AllMade place (s.map place).parts := by
  refine .bind gives_skip fun _ _ => .ite (fun _ => gives_reject)
    fun _ => ?_
  refine .bind (h.statement _) fun body hbody => .bind gives_close
    fun span _ => .pure ?_
  have hstatement : g.Made place (.statement
      (.labeled (label.map place) (body.map place) (place span))) := trivial
  rw [Statement.map, Statement.parts]
  exact allMade_cons.2 ⟨hstatement, allMade_cons.2 ⟨hlabel, hbody⟩⟩

/-- The name in a label was made as an expression. -/
theorem gives_labeledOrExpression (h : g.Levels place inner) :
    g.Gives (Parse.labeledOrExpression inner jumps) fun s =>
      g.AllMade place (s.map place).parts := by
  refine .bind gives_lookahead fun first _ => ?_
  refine .bind (gives_expression h) fun e he => .bind gives_isAt
    fun b _ => ?_
  split
  case h_1 label => exact gives_labeled h (he _ (by simp [Expression.map]))
  case h_2 => exact gives_expressionEnd he

-- ======================================================== the choice

/-- What is made for a statement that a word begins. -/
theorem gives_keywordStatement (h : g.Levels place inner)
    (word : String) :
    g.Gives (Parse.keywordStatement inner jumps word) fun s =>
      g.AllMade place (s.map place).parts := by
  unfold Parse.keywordStatement
  split
  case h_1 => exact gives_breaking
  case h_2 => exact gives_continuing
  case h_3 => exact gives_debugger
  case h_4 => exact gives_doWhileLoop h
  case h_5 => exact gives_forLoop h
  case h_6 =>
    refine .map (gives_functionDeclaration h) fun fn hfn => ?_
    obtain ⟨hname, hparts⟩ := hfn
    have hnamed : (fn.map place).id?.isSome = true := by
      cases fn
      simpa [Function.map, Function.id?] using hname
    simpa [Statement.map] using ⟨hnamed, hparts⟩
  case h_7 => exact gives_ifElse h
  case h_8 => exact gives_labeledOrExpression h
  case h_9 => exact gives_returning h
  case h_10 => exact gives_whileLoop h
  case h_11 => exact gives_expressionStatement h

/-- What is made for a statement. -/
theorem gives_statement (h : g.Levels place inner) :
    g.Gives (Parse.statement inner jumps) fun s =>
      g.AllMade place (s.map place).parts := by
  refine Leads.facing fun t => ?_
  cases t.kind with
  | boolean | null | numeric | string =>
      exact Gives.facing (gives_expressionStatement h)
  | punctuator =>
      refine .ite (fun _ => Gives.facing ?_) fun _ => .ite
        (fun _ => Gives.facing gives_emptyStatement)
        fun _ => Gives.facing (gives_expressionStatement h)
      refine .map (gives_block h) fun b hb => ?_
      simpa [Statement.map] using hb
  | identifier =>
      refine Gives.facing (.bind gives_isAtVar fun _ _ => .ite
        (fun _ => gives_declaration h _) fun _ => .ite
          (fun _ => gives_throwing h)
          fun _ => gives_labeledOrExpression h)
  | keyword => exact Gives.facing (gives_keywordStatement h _)
  | endOfInput => exact leads_unexpected fun _ hs => hs.speaks

/-- What is made for a statement, or a function. -/
theorem gives_item (h : g.Levels place inner) :
    g.Gives (Parse.item inner jumps) fun s =>
      g.AllMade place (s.map place).parts :=
  .bind gives_isAtWord fun _ _ => .ite
    (fun _ => gives_declaration h _)
    fun _ => .bind gives_isAtWord fun _ _ => .ite
      (fun _ => .bind gives_bindingAhead fun _ _ => .ite
        (fun _ => gives_declaration h _) fun _ => gives_statement h)
      fun _ => gives_statement h

-- ============================================================ levels

/-- All productions make what they should, by induction on the depth. -/
theorem levels_ofDepth (g : Guard) (place : Span → π) (depth : Nat) :
    g.Levels place (.ofDepth depth) := by
  induction depth with
  | zero => exact ⟨gives_exhausted, gives_exhausted, gives_exhausted,
      fun _ => gives_exhausted, fun _ => gives_exhausted⟩
  | succ depth ih => exact ⟨gives_assignment ih, gives_unary ih,
      gives_power ih, fun _ => gives_statement ih,
      fun _ => gives_item ih⟩

/-- What follows the first look at a script. -/
theorem gives_scriptBody (g : Guard) (place : Span → π) (depth : Nat)
    (start : Position) :
    g.Gives (Parse.scriptBody (.ofDepth depth) start) fun script =>
      g.AllMade place (script.map place).parts := by
  have hmore : g.Gives (do return !(← Parse.lookahead).isEnd : Parse Bool)
      fun _ => True := .bind gives_lookahead fun _ _ => .pure trivial
  have hbody := gives_collectWhile hmore
    ((levels_ofDepth g place depth).item .ofScript)
    (Productions.ofDepth depth).depth
  refine .bind hbody fun body hbody => .bind gives_close
    fun span _ => .pure ?_
  simpa [Script.map, Script.parts, List.flatMap_map] using hbody

end Guard

end ScriptTree
