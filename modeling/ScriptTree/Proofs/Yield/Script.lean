/-
A parse loses no token, invents none, and keeps them in order.

What a strict parse makes of a text stands for the tokens of the text,
but for those that leave no trace (`yield_parse`). The productions have
consumed the tokens of the tree; the parse has gone on to the end of the
text, so these are all that a reader of the text comes to; and a report
changes only the places in the tree.
-/
import ScriptTree.Proofs.Reading
import ScriptTree.Proofs.Tolerance
import ScriptTree.Proofs.Yield.Statement
import ScriptTree.Source.NameRanges

namespace ScriptTree

variable {π ρ : Type}

-- ============================================================ places

theorem Identifier.yield_map (f : π → ρ) (id : Identifier π) :
    (id.map f).yield = id.yield := rfl

theorem Identifier.yieldOption_map (f : π → ρ)
    (o : Option (Identifier π)) :
    Identifier.yieldOption (o.map (·.map f)) = Identifier.yieldOption o := by
  cases o <;> rfl

mutual

theorem Expression.yield_map (f : π → ρ) :
    ∀ e : Expression π, (e.map f).yield = e.yield
  | .identifier _ => rfl
  | .literal _ _ _ => rfl
  | .assignment _ left right _ => by
      simp only [Expression.map, Expression.yield, left.yield_map f,
        right.yield_map f]
  | .binary _ left right _ => by
      simp only [Expression.map, Expression.yield, left.yield_map f,
        right.yield_map f]
  | .logical _ left right _ => by
      simp only [Expression.map, Expression.yield, left.yield_map f,
        right.yield_map f]
  | .conditional test consequent alternate _ => by
      simp only [Expression.map, Expression.yield, test.yield_map f,
        consequent.yield_map f, alternate.yield_map f]
  | .call callee arguments _ => by
      simp only [Expression.map, Expression.yield, callee.yield_map f,
        Expression.yieldAll_map f arguments]
  | .sequence items _ => by
      simp only [Expression.map, Expression.yield,
        Expression.yieldAll_map f items]
  | .unary _ argument _ _ => by
      simp only [Expression.map, Expression.yield, argument.yield_map f]
  | .update _ argument true _ => by
      simp only [Expression.map, Expression.yield, argument.yield_map f]
  | .update _ argument false _ => by
      simp only [Expression.map, Expression.yield, argument.yield_map f]
  | .function fn => by
      simp only [Expression.map, Expression.yield, fn.yield_map f]

theorem Expression.yieldAll_map (f : π → ρ) :
    ∀ l : List (Expression π),
      Expression.yieldAll (Expression.mapAll f l) = Expression.yieldAll l
  | [] => rfl
  | e :: rest => by
      simp only [Expression.mapAll, Expression.yieldAll, e.yield_map f,
        Expression.yieldAll_map f rest]

theorem Expression.yieldOption_map (f : π → ρ) :
    ∀ o : Option (Expression π),
      Expression.yieldOption (Expression.mapOption f o)
        = Expression.yieldOption o
  | none => rfl
  | some e => by
      simp only [Expression.mapOption, Expression.yieldOption,
        e.yield_map f]

theorem Function.yield_map (f : π → ρ) {word : String} :
    ∀ fn : ScriptTree.Function π, (fn.map f).yield word = fn.yield word
  | .mk id params body _ _ => by
      simp only [Function.map, Function.yield,
        Identifier.yieldOption_map f id, Parameter.yieldAll_map f params,
        body.yield_map f]

theorem Parameter.yield_map (f : π → ρ) :
    ∀ p : Parameter π, (p.map f).yield = p.yield
  | .plain _ => rfl
  | .withDefault id value _ => by
      simp only [Parameter.map, Parameter.yield, id.yield_map f,
        value.yield_map f]

theorem Parameter.yieldAll_map (f : π → ρ) :
    ∀ l : List (Parameter π),
      Parameter.yieldAll (Parameter.mapAll f l) = Parameter.yieldAll l
  | [] => rfl
  | p :: rest => by
      simp only [Parameter.mapAll, Parameter.yieldAll, p.yield_map f,
        Parameter.yieldAll_map f rest]

theorem Block.yield_map (f : π → ρ) :
    ∀ b : Block π, (b.map f).yield = b.yield
  | .mk body _ => by
      simp only [Block.map, Block.yield, Statement.yieldAll_map f body]

theorem Declarator.yield_map (f : π → ρ) :
    ∀ d : Declarator π, (d.map f).yield = d.yield
  | .mk _ none _ => rfl
  | .mk id (some init) _ => by
      simp only [Declarator.map, Expression.mapOption, Declarator.yield,
        id.yield_map f, init.yield_map f]

theorem Declarator.yieldAll_map (f : π → ρ) :
    ∀ l : List (Declarator π),
      Declarator.yieldAll (Declarator.mapAll f l) = Declarator.yieldAll l
  | [] => rfl
  | d :: rest => by
      simp only [Declarator.mapAll, Declarator.yieldAll, d.yield_map f,
        Declarator.yieldAll_map f rest]

theorem Declaration.yield_map (f : π → ρ) :
    ∀ d : Declaration π, (d.map f).yield = d.yield
  | .mk _ declarators _ => by
      simp only [Declaration.map, Declaration.yield,
        Declarator.yieldAll_map f declarators]

theorem ForInit.yield_map (f : π → ρ) :
    ∀ init : ForInit π, (init.map f).yield = init.yield
  | .declaration decl => by
      simp only [ForInit.map, ForInit.yield, decl.yield_map f]
  | .expression e => by
      simp only [ForInit.map, ForInit.yield, e.yield_map f]

theorem ForInit.yieldOption_map (f : π → ρ) :
    ∀ o : Option (ForInit π),
      ForInit.yieldOption (ForInit.mapOption f o) = ForInit.yieldOption o
  | none => rfl
  | some init => by
      simp only [ForInit.mapOption, ForInit.yieldOption, init.yield_map f]

theorem Statement.yield_map (f : π → ρ) :
    ∀ s : Statement π, (s.map f).yield = s.yield
  | .declaration decl => by
      simp only [Statement.map, Statement.yield, decl.yield_map f]
  | .function fn => by
      simp only [Statement.map, Statement.yield, fn.yield_map f]
  | .block b => by
      simp only [Statement.map, Statement.yield, b.yield_map f]
  | .ifElse test consequent none _ => by
      simp only [Statement.map, Statement.mapOption, Statement.yield,
        test.yield_map f, consequent.yield_map f]
  | .ifElse test consequent (some alternate) _ => by
      simp only [Statement.map, Statement.mapOption, Statement.yield,
        test.yield_map f, consequent.yield_map f, alternate.yield_map f]
  | .forLoop init test update body _ => by
      simp only [Statement.map, Statement.yield,
        ForInit.yieldOption_map f init, Expression.yieldOption_map f test,
        Expression.yieldOption_map f update, body.yield_map f]
  | .whileLoop test body _ => by
      simp only [Statement.map, Statement.yield, test.yield_map f,
        body.yield_map f]
  | .doWhileLoop body test _ => by
      simp only [Statement.map, Statement.yield, test.yield_map f,
        body.yield_map f]
  | .returning argument _ => by
      simp only [Statement.map, Statement.yield,
        Expression.yieldOption_map f argument]
  | .breaking label _ => by
      simp only [Statement.map, Statement.yield,
        Identifier.yieldOption_map f label]
  | .continuing label _ => by
      simp only [Statement.map, Statement.yield,
        Identifier.yieldOption_map f label]
  | .throwing argument _ => by
      simp only [Statement.map, Statement.yield, argument.yield_map f]
  | .expression e _ => by
      simp only [Statement.map, Statement.yield, e.yield_map f]
  | .labeled label body _ => by
      simp only [Statement.map, Statement.yield, label.yield_map f,
        body.yield_map f]
  | .empty _ => rfl
  | .debugger _ => rfl

theorem Statement.yieldAll_map (f : π → ρ) :
    ∀ l : List (Statement π),
      Statement.yieldAll (Statement.mapAll f l) = Statement.yieldAll l
  | [] => rfl
  | s :: rest => by
      simp only [Statement.mapAll, Statement.yieldAll, s.yield_map f,
        Statement.yieldAll_map f rest]

end

theorem Script.yield_map (f : π → ρ) (script : Script π) :
    (script.map f).yield = script.yield :=
  Statement.yieldAll_map f script.body

-- =========================================================== scripts

theorem traces_eq {stream : TokenStream} (h : stream.Formed) :
    traces stream.tokens = stream.tokens.flatMap Token.yield := by
  induction stream with
  | token comments t rest ih =>
      have hend := h.1.not_end
      rw [TokenStream.tokens, List.flatMap_cons, ← ih h.2]
      unfold traces Token.yield
      rw [hend, Bool.false_or]
      cases hs : t.isSilent with
      | true => simp [hs]
      | false => simp [hs]
  | done | illegal => rfl

theorem runs_item (n : Nat) (jumps : Jumps) :
    ((Productions.ofDepth n).item jumps).Runs :=
  ((Simulation.levels_ofDepth (otherTolerance {} false)
    (Nat.le_refl n)).item jumps).runs

/-- A script stands for all tokens of the text, and they can be read. -/
theorem yield_parseScript [NameProperties] {n : Nat} {text : List Char}
    {script : Script Span} {s : ParseState}
    (h : Parse.script (.ofDepth n) (.ofText text false) = .ok script s) :
    (TokenStream.ofText text).Readable ∧
      script.yield = traces (TokenStream.ofText text).tokens := by
  have hformed := TokenStream.formed_ofText text
  obtain ⟨_, s₁, hskip, h⟩ := bind_ok.1 h
  have hshift := Parse.skip_ok.1 hskip
  obtain ⟨hs₁, hwords⟩ := ParseState.sound_of_shift rfl hformed hshift
  rw [Parse.lookahead_bind] at h
  obtain ⟨_, s₂, hplace, h⟩ := bind_ok.1 h
  have hstay := Parse.waits_standAt _ hplace
  have hs₂ := ParseState.Reaches.sound hstay.reaches hs₁
  obtain ⟨body, s₃, hbody, h⟩ := bind_ok.1 h
  obtain ⟨span, s₄, hclose, h⟩ := bind_ok.1 h
  obtain ⟨rfl, rfl⟩ := pure_ok.1 h
  have hq : Parse.Looks (do return !(← Parse.lookahead).isEnd)
      (fun t => !t.isEnd) := fun _ => rfl
  have hitem := (Productions.yields_ofDepth n).item .ofScript
  obtain ⟨hs₃, hyield⟩ := Parse.yields_collectWhile hq
    (fun t _ => hitem t) _ s₂.lookahead hs₂ rfl hbody
  have hend : s₃.lookahead.isEnd = true := by
    simpa using Parse.looks_collectWhile hq hbody
  have hruns : s₂.Reaches s₃ :=
    Parse.runs_collectWhile (Parse.waits_lookahead.bind fun _ => Parse.waits_pure _).runs
      (runs_item n .ofScript) hbody
  have hnil := ParseState.words_of_end hend
  constructor
  · have hrest := hruns.readable hs₂ (hs₃.readable_of_words_nil hnil)
    rw [hstay.rest] at hrest
    exact ParseState.readable_of_shift rfl hformed hshift hrest
  · have htokens : s₁.yield = traces (TokenStream.ofText text).tokens := by
      rw [ParseState.yield, hwords, ParseState.yield_words,
        traces_eq hformed]
      rfl
    rw [← htokens, ← hstay.yield]
    rw [List.nil_append] at hyield
    rw [hyield, ParseState.yield, hnil]
    simp [Script.yield]

/-- What a strict parse makes of a text stands for the tokens that a
reader comes to when it goes over the text, in their order, but for those
that leave no trace. -/
theorem yield_parse [NameProperties] (options : Options) (text : List Char)
    (report : Report) (keepsComments : Bool)
    (hstrict : options.tolerant = false)
    (h : parse options text = .ok report) :
    ∃ tokens, (TokenReader.ofText text false keepsComments).Reads tokens ∧
      (∀ others, (TokenReader.ofText text false keepsComments).Reads others →
        others = tokens) ∧
      report.script.yield = traces tokens := by
  obtain ⟨script, s, hparse, rfl⟩ := parse_ok.1 h
  rw [hstrict] at hparse
  obtain ⟨hreadable, hyield⟩ := yield_parseScript hparse
  have hreads := TokenStream.reads_of_readable hreadable keepsComments
  have hreport : (options.report script s).script.yield
      = script.yield := Script.yield_map options.locate script
  refine ⟨_, hreads, fun others hothers => hreads.unique hothers, ?_⟩
  rw [hreport, hyield]

/-- A text with each of the tokens that leave no trace. -/
theorem yield_parse_silent :
    let text := "if (var < 1) throw(-x++, \"a\");".toList
    ∃ report, parse {} text = .ok report ∧
      ∃ tokens, (TokenReader.ofText text false true).Reads tokens ∧
        (∀ others, (TokenReader.ofText text false true).Reads others →
          others = tokens) ∧
        report.script.yield = traces tokens := by
  intro text
  have hok : (parse {} text).toOption.isSome = true := by decide +kernel
  cases h : parse {} text with
  | error failure =>
      rw [h] at hok
      cases hok
  | ok report =>
      exact ⟨report, rfl, yield_parse {} text report true rfl h⟩

end ScriptTree
