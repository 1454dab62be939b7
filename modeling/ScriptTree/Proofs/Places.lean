/-
Changing the places of a tree leaves its shape alone.

Changing the places of a tree twice is changing them once
(`Expression.map_map` and its companions, one mutual induction over the
syntax). The lists and options within a tree are changed member by
member.
-/
import ScriptTree.Grammar.Expression

namespace ScriptTree

variable {π ρ σ : Type} {f : π → ρ} {g : ρ → σ}

-- ================================================ lists and options

/-- Changing places goes through a list of expressions. -/
@[simp] theorem Expression.mapAll_eq (l : List (Expression π)) :
    Expression.mapAll f l = l.map (Expression.map f) := by
  induction l with
  | nil => rfl
  | cons e rest ih => rw [Expression.mapAll, ih, List.map_cons]

/-- Changing places goes through a list of parameters. -/
@[simp] theorem Parameter.mapAll_eq (l : List (Parameter π)) :
    Parameter.mapAll f l = l.map (Parameter.map f) := by
  induction l with
  | nil => rfl
  | cons p rest ih => rw [Parameter.mapAll, ih, List.map_cons]

/-- Changing places goes through a list of declared names. -/
@[simp] theorem Declarator.mapAll_eq (l : List (Declarator π)) :
    Declarator.mapAll f l = l.map (Declarator.map f) := by
  induction l with
  | nil => rfl
  | cons d rest ih => rw [Declarator.mapAll, ih, List.map_cons]

/-- Changing places goes through a list of statements. -/
@[simp] theorem Statement.mapAll_eq (l : List (Statement π)) :
    Statement.mapAll f l = l.map (Statement.map f) := by
  induction l with
  | nil => rfl
  | cons s rest ih => rw [Statement.mapAll, ih, List.map_cons]

@[simp] theorem Expression.mapOption_eq (o : Option (Expression π)) :
    Expression.mapOption f o = o.map (Expression.map f) := by
  cases o <;> rfl

@[simp] theorem ForInit.mapOption_eq (o : Option (ForInit π)) :
    ForInit.mapOption f o = o.map (ForInit.map f) := by
  cases o <;> rfl

@[simp] theorem Statement.mapOption_eq (o : Option (Statement π)) :
    Statement.mapOption f o = o.map (Statement.map f) := by
  cases o <;> rfl

-- ================================================= changing twice

theorem Identifier.map_map (id : Identifier π) :
    (id.map f).map g = id.map (g ∘ f) := rfl

theorem Identifier.mapOption_map (o : Option (Identifier π)) :
    (o.map (·.map f)).map (·.map g) = o.map (·.map (g ∘ f)) := by
  cases o <;> rfl

mutual

/-- Places changed twice are changed once by both functions. -/
theorem Expression.map_map :
    ∀ e : Expression π, (e.map f).map g = e.map (g ∘ f)
  | .identifier id => by
      simp only [Expression.map, Identifier.map_map]
  | .literal value raw place => by simp only [Expression.map, Function.comp_apply]
  | .assignment operator left right place => by
      simp only [Expression.map, left.map_map, right.map_map, Function.comp_apply]
  | .binary operator left right place => by
      simp only [Expression.map, left.map_map, right.map_map, Function.comp_apply]
  | .logical operator left right place => by
      simp only [Expression.map, left.map_map, right.map_map, Function.comp_apply]
  | .conditional test consequent alternate place => by
      simp only [Expression.map, test.map_map,
        consequent.map_map, alternate.map_map, Function.comp_apply]
  | .call callee arguments place => by
      simp only [Expression.map, callee.map_map,
        Expression.mapAll_map arguments, Function.comp_apply]
  | .sequence items place => by
      simp only [Expression.map, Expression.mapAll_map items, Function.comp_apply]
  | .unary operator argument before place => by
      simp only [Expression.map, argument.map_map, Function.comp_apply]
  | .update operator argument before place => by
      simp only [Expression.map, argument.map_map, Function.comp_apply]
  | .function fn => by simp only [Expression.map, fn.map_map]

theorem Expression.mapAll_map :
    ∀ l : List (Expression π),
      Expression.mapAll g (Expression.mapAll f l) = Expression.mapAll (g ∘ f) l
  | [] => rfl
  | e :: rest => by
      simp only [Expression.mapAll, e.map_map,
        Expression.mapAll_map rest]

theorem Expression.mapOption_map :
    ∀ o : Option (Expression π),
      Expression.mapOption g (Expression.mapOption f o) = Expression.mapOption (g ∘ f) o
  | none => rfl
  | some e => by simp only [Expression.mapOption, e.map_map]

theorem Function.map_map :
    ∀ fn : ScriptTree.Function π, (fn.map f).map g = fn.map (g ∘ f)
  | .mk id params body generator place => by
      simp only [Function.map, Identifier.mapOption_map,
        Parameter.mapAll_map params, body.map_map, Function.comp_apply]

theorem Parameter.map_map :
    ∀ p : Parameter π, (p.map f).map g = p.map (g ∘ f)
  | .plain id => by simp only [Parameter.map, Identifier.map_map]
  | .withDefault id value place => by
      simp only [Parameter.map, Identifier.map_map,
        value.map_map, Function.comp_apply]

theorem Parameter.mapAll_map :
    ∀ l : List (Parameter π),
      Parameter.mapAll g (Parameter.mapAll f l) = Parameter.mapAll (g ∘ f) l
  | [] => rfl
  | p :: rest => by
      simp only [Parameter.mapAll, p.map_map,
        Parameter.mapAll_map rest]

theorem Block.map_map :
    ∀ b : Block π, (b.map f).map g = b.map (g ∘ f)
  | .mk body place => by
      simp only [Block.map, Statement.mapAll_map body, Function.comp_apply]

theorem Declarator.map_map :
    ∀ d : Declarator π, (d.map f).map g = d.map (g ∘ f)
  | .mk id init place => by
      simp only [Declarator.map, Identifier.map_map,
        Expression.mapOption_map init, Function.comp_apply]

theorem Declarator.mapAll_map :
    ∀ l : List (Declarator π),
      Declarator.mapAll g (Declarator.mapAll f l) = Declarator.mapAll (g ∘ f) l
  | [] => rfl
  | d :: rest => by
      simp only [Declarator.mapAll, d.map_map,
        Declarator.mapAll_map rest]

theorem Declaration.map_map :
    ∀ d : Declaration π, (d.map f).map g = d.map (g ∘ f)
  | .mk kind declarators place => by
      simp only [Declaration.map, Declarator.mapAll_map declarators, Function.comp_apply]

theorem ForInit.map_map :
    ∀ init : ForInit π, (init.map f).map g = init.map (g ∘ f)
  | .declaration decl => by simp only [ForInit.map, decl.map_map]
  | .expression e => by simp only [ForInit.map, e.map_map]

theorem ForInit.mapOption_map :
    ∀ o : Option (ForInit π),
      ForInit.mapOption g (ForInit.mapOption f o) = ForInit.mapOption (g ∘ f) o
  | none => rfl
  | some init => by simp only [ForInit.mapOption, init.map_map]

/-- Places changed twice are changed once by both functions. -/
theorem Statement.map_map :
    ∀ s : Statement π, (s.map f).map g = s.map (g ∘ f)
  | .declaration decl => by simp only [Statement.map, decl.map_map]
  | .function fn => by simp only [Statement.map, fn.map_map]
  | .block b => by simp only [Statement.map, b.map_map]
  | .ifElse test consequent alternate place => by
      simp only [Statement.map, test.map_map,
        consequent.map_map, Statement.mapOption_map alternate, Function.comp_apply]
  | .forLoop init test update body place => by
      simp only [Statement.map, ForInit.mapOption_map init,
        Expression.mapOption_map test,
        Expression.mapOption_map update, body.map_map, Function.comp_apply]
  | .whileLoop test body place => by
      simp only [Statement.map, test.map_map, body.map_map, Function.comp_apply]
  | .doWhileLoop body test place => by
      simp only [Statement.map, test.map_map, body.map_map, Function.comp_apply]
  | .returning argument place => by
      simp only [Statement.map, Expression.mapOption_map argument, Function.comp_apply]
  | .breaking label place => by
      simp only [Statement.map, Identifier.mapOption_map, Function.comp_apply]
  | .continuing label place => by
      simp only [Statement.map, Identifier.mapOption_map, Function.comp_apply]
  | .throwing argument place => by
      simp only [Statement.map, argument.map_map, Function.comp_apply]
  | .expression e place => by
      simp only [Statement.map, e.map_map, Function.comp_apply]
  | .labeled label body place => by
      simp only [Statement.map, Identifier.map_map,
        body.map_map, Function.comp_apply]
  | .empty place => by simp only [Statement.map, Function.comp_apply]
  | .debugger place => by simp only [Statement.map, Function.comp_apply]

theorem Statement.mapAll_map :
    ∀ l : List (Statement π),
      Statement.mapAll g (Statement.mapAll f l) = Statement.mapAll (g ∘ f) l
  | [] => rfl
  | s :: rest => by
      simp only [Statement.mapAll, s.map_map,
        Statement.mapAll_map rest]

theorem Statement.mapOption_map :
    ∀ o : Option (Statement π),
      Statement.mapOption g (Statement.mapOption f o) = Statement.mapOption (g ∘ f) o
  | none => rfl
  | some s => by simp only [Statement.mapOption, s.map_map]

end

/-- Places changed twice are changed once by both functions. -/
theorem Script.map_map (script : Script π) :
    (script.map f).map g = script.map (g ∘ f) := by
  simp only [Script.map, Statement.mapAll_map script.body, Function.comp_apply]

-- ================================================ changing nothing

theorem Identifier.map_id (name : Identifier π) : name.map id = name := rfl

theorem Identifier.mapOption_id (o : Option (Identifier π)) :
    o.map (·.map id) = o := by
  cases o <;> rfl

mutual

/-- Places that are left as they are leave an expression as it is. -/
theorem Expression.map_id : ∀ e : Expression π, e.map id = e
  | .identifier _ | .literal _ _ _ => rfl
  | .assignment _ left right _ | .binary _ left right _
  | .logical _ left right _ => by
      simp only [Expression.map, left.map_id, right.map_id, id]
  | .conditional test consequent alternate _ => by
      simp only [Expression.map, test.map_id, consequent.map_id,
        alternate.map_id, id]
  | .call callee arguments _ => by
      simp only [Expression.map, callee.map_id,
        Expression.mapAll_id arguments, id]
  | .sequence items _ => by
      simp only [Expression.map, Expression.mapAll_id items, id]
  | .unary _ argument _ _ | .update _ argument _ _ => by
      simp only [Expression.map, argument.map_id, id]
  | .function fn => by simp only [Expression.map, fn.map_id]

theorem Expression.mapAll_id :
    ∀ l : List (Expression π), Expression.mapAll id l = l
  | [] => rfl
  | e :: rest => by
      simp only [Expression.mapAll, e.map_id, Expression.mapAll_id rest]

theorem Expression.mapOption_id :
    ∀ o : Option (Expression π), Expression.mapOption id o = o
  | none => rfl
  | some e => by simp only [Expression.mapOption, e.map_id]

theorem Function.map_id :
    ∀ fn : ScriptTree.Function π, fn.map id = fn
  | .mk name params body _ _ => by
      simp only [Function.map, Identifier.mapOption_id name,
        Parameter.mapAll_id params, body.map_id, id]

theorem Parameter.map_id : ∀ p : Parameter π, p.map id = p
  | .plain _ => rfl
  | .withDefault _ value _ => by
      simp only [Parameter.map, Identifier.map_id, value.map_id, id]

theorem Parameter.mapAll_id :
    ∀ l : List (Parameter π), Parameter.mapAll id l = l
  | [] => rfl
  | p :: rest => by
      simp only [Parameter.mapAll, p.map_id, Parameter.mapAll_id rest]

theorem Block.map_id : ∀ b : Block π, b.map id = b
  | .mk body _ => by simp only [Block.map, Statement.mapAll_id body, id]

theorem Declarator.map_id : ∀ d : Declarator π, d.map id = d
  | .mk _ init _ => by
      simp only [Declarator.map, Identifier.map_id,
        Expression.mapOption_id init, id]

theorem Declarator.mapAll_id :
    ∀ l : List (Declarator π), Declarator.mapAll id l = l
  | [] => rfl
  | d :: rest => by
      simp only [Declarator.mapAll, d.map_id, Declarator.mapAll_id rest]

theorem Declaration.map_id : ∀ d : Declaration π, d.map id = d
  | .mk _ declarators _ => by
      simp only [Declaration.map, Declarator.mapAll_id declarators, id]

theorem ForInit.map_id : ∀ init : ForInit π, init.map id = init
  | .declaration decl => by simp only [ForInit.map, decl.map_id]
  | .expression e => by simp only [ForInit.map, e.map_id]

theorem ForInit.mapOption_id :
    ∀ o : Option (ForInit π), ForInit.mapOption id o = o
  | none => rfl
  | some init => by simp only [ForInit.mapOption, init.map_id]

/-- Places that are left as they are leave a statement as it is. -/
theorem Statement.map_id : ∀ s : Statement π, s.map id = s
  | .declaration decl => by simp only [Statement.map, decl.map_id]
  | .function fn => by simp only [Statement.map, fn.map_id]
  | .block b => by simp only [Statement.map, b.map_id]
  | .ifElse test consequent alternate _ => by
      simp only [Statement.map, test.map_id, consequent.map_id,
        Statement.mapOption_id alternate, id]
  | .forLoop init test update body _ => by
      simp only [Statement.map, ForInit.mapOption_id init,
        Expression.mapOption_id test, Expression.mapOption_id update,
        body.map_id, id]
  | .whileLoop test body _ => by
      simp only [Statement.map, test.map_id, body.map_id, id]
  | .doWhileLoop body test _ => by
      simp only [Statement.map, test.map_id, body.map_id, id]
  | .returning argument _ => by
      simp only [Statement.map, Expression.mapOption_id argument, id]
  | .breaking label _ | .continuing label _ => by
      simp only [Statement.map, Identifier.mapOption_id label, id]
  | .throwing argument _ | .expression argument _ => by
      simp only [Statement.map, argument.map_id, id]
  | .labeled _ body _ => by
      simp only [Statement.map, Identifier.map_id, body.map_id, id]
  | .empty _ | .debugger _ => rfl

theorem Statement.mapAll_id :
    ∀ l : List (Statement π), Statement.mapAll id l = l
  | [] => rfl
  | s :: rest => by
      simp only [Statement.mapAll, s.map_id, Statement.mapAll_id rest]

theorem Statement.mapOption_id :
    ∀ o : Option (Statement π), Statement.mapOption id o = o
  | none => rfl
  | some s => by simp only [Statement.mapOption, s.map_id]

end

/-- Places that are left as they are leave a script as it is. -/
theorem Script.map_id (script : Script π) : script.map id = script := by
  simp only [Script.map, Statement.mapAll_id script.body, id]

/-- The shape of a node is made of those of its operands. -/
theorem InfixOperator.node_shape (operator : InfixOperator)
    (left right : Expression π) (place : π) :
    (operator.node left right place).shape
      = operator.node left.shape right.shape () := by
  cases operator <;> rfl

end ScriptTree
