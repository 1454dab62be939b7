/-
The outline of a tree with other places.

To change the places of a tree is to change those of its outline, and to
change those of its nodes (`Script.nodes_map`). So a report shows of each
node what the options ask for, and nothing of the order of nodes depends
on it.
-/
import ScriptTree.Tree.Outline

namespace ScriptTree

variable {π ρ σ : Type} {f : π → ρ} {g : ρ → σ}

-- ========================================================== outlines

namespace Outline

theorem mapAll_append (l l' : List (Outline π)) :
    mapAll f (l ++ l') = mapAll f l ++ mapAll f l' := by
  simp

mutual

theorem map_map :
    ∀ o : Outline π, (o.map f).map g = o.map (g ∘ f)
  | .node kind place children => by
      simp only [map, mapAll_mapAll children, Function.comp_apply]

theorem mapAll_mapAll :
    ∀ l : List (Outline π), mapAll g (mapAll f l) = mapAll (g ∘ f) l
  | [] => rfl
  | o :: rest => by
      simp only [mapAll, o.map_map, mapAll_mapAll rest]

end

mutual

theorem nodes_map :
    ∀ o : Outline π, (o.map f).nodes
      = o.nodes.map fun node => (node.1, f node.2)
  | .node kind place children => by
      simp only [map, nodes, nodesAll_mapAll children, List.map_append,
        List.map_cons, List.map_nil]

theorem nodesAll_mapAll :
    ∀ l : List (Outline π), nodesAll (mapAll f l)
      = (nodesAll l).map fun node => (node.1, f node.2)
  | [] => rfl
  | o :: rest => by
      simp only [mapAll, nodesAll, o.nodes_map, nodesAll_mapAll rest,
        List.map_append]

end

end Outline

-- ============================================================= trees

theorem Identifier.outline_map (id : Identifier π) :
    (id.map f).outline = id.outline.map f := rfl

theorem Identifier.outlineOption_map (o : Option (Identifier π)) :
    Identifier.outlineOption (o.map (·.map f))
      = Outline.mapAll f (Identifier.outlineOption o) := by
  cases o <;> rfl

mutual

theorem Expression.outline_map :
    ∀ e : Expression π, (e.map f).outline = e.outline.map f
  | .identifier id => rfl
  | .literal _ _ _ => rfl
  | .assignment _ left right _ => by
      simp only [Expression.map, Expression.outline, Outline.map,
        Outline.mapAll, left.outline_map, right.outline_map]
  | .binary _ left right _ => by
      simp only [Expression.map, Expression.outline, Outline.map,
        Outline.mapAll, left.outline_map, right.outline_map]
  | .logical _ left right _ => by
      simp only [Expression.map, Expression.outline, Outline.map,
        Outline.mapAll, left.outline_map, right.outline_map]
  | .conditional test consequent alternate _ => by
      simp only [Expression.map, Expression.outline, Outline.map,
        Outline.mapAll, test.outline_map, consequent.outline_map,
        alternate.outline_map]
  | .call callee arguments _ => by
      simp only [Expression.map, Expression.outline, Outline.map,
        Outline.mapAll, callee.outline_map,
        Expression.outlineAll_map arguments]
  | .sequence items _ => by
      simp only [Expression.map, Expression.outline, Outline.map,
        Expression.outlineAll_map items]
  | .unary _ argument _ _ => by
      simp only [Expression.map, Expression.outline, Outline.map,
        Outline.mapAll, argument.outline_map]
  | .update _ argument _ _ => by
      simp only [Expression.map, Expression.outline, Outline.map,
        Outline.mapAll, argument.outline_map]
  | .function fn => fn.outline_map .functionExpression

theorem Expression.outlineAll_map :
    ∀ l : List (Expression π),
      Expression.outlineAll (Expression.mapAll f l)
        = Outline.mapAll f (Expression.outlineAll l)
  | [] => rfl
  | e :: rest => by
      simp only [Expression.mapAll, Expression.outlineAll, Outline.mapAll,
        e.outline_map, Expression.outlineAll_map rest]

theorem Expression.outlineOption_map :
    ∀ o : Option (Expression π),
      Expression.outlineOption (Expression.mapOption f o)
        = Outline.mapAll f (Expression.outlineOption o)
  | none => rfl
  | some e => by
      simp only [Expression.mapOption, Expression.outlineOption,
        Outline.mapAll, e.outline_map]

theorem Function.outline_map :
    ∀ (fn : ScriptTree.Function π) (kind : NodeKind),
      (fn.map f).outline kind = (fn.outline kind).map f
  | .mk id params body _ _, kind => by
      simp only [Function.map, Function.outline, Outline.map,
        Outline.mapAll_append, Outline.mapAll,
        Identifier.outlineOption_map id, Parameter.outlineAll_map params,
        body.outline_map]

theorem Parameter.outline_map :
    ∀ p : Parameter π, (p.map f).outline = p.outline.map f
  | .plain _ => rfl
  | .withDefault id value _ => by
      simp only [Parameter.map, Parameter.outline, Outline.map,
        Outline.mapAll, id.outline_map, value.outline_map]

theorem Parameter.outlineAll_map :
    ∀ l : List (Parameter π),
      Parameter.outlineAll (Parameter.mapAll f l)
        = Outline.mapAll f (Parameter.outlineAll l)
  | [] => rfl
  | p :: rest => by
      simp only [Parameter.mapAll, Parameter.outlineAll, Outline.mapAll,
        p.outline_map, Parameter.outlineAll_map rest]

theorem Block.outline_map :
    ∀ b : Block π, (b.map f).outline = b.outline.map f
  | .mk body _ => by
      simp only [Block.map, Block.outline, Outline.map,
        Statement.outlineAll_map body]

theorem Declarator.outline_map :
    ∀ d : Declarator π, (d.map f).outline = d.outline.map f
  | .mk id init _ => by
      simp only [Declarator.map, Declarator.outline, Outline.map,
        Outline.mapAll, id.outline_map, Expression.outlineOption_map init]

theorem Declarator.outlineAll_map :
    ∀ l : List (Declarator π),
      Declarator.outlineAll (Declarator.mapAll f l)
        = Outline.mapAll f (Declarator.outlineAll l)
  | [] => rfl
  | d :: rest => by
      simp only [Declarator.mapAll, Declarator.outlineAll, Outline.mapAll,
        d.outline_map, Declarator.outlineAll_map rest]

theorem Declaration.outline_map :
    ∀ d : Declaration π, (d.map f).outline = d.outline.map f
  | .mk _ declarators _ => by
      simp only [Declaration.map, Declaration.outline, Outline.map,
        Declarator.outlineAll_map declarators]

theorem ForInit.outline_map :
    ∀ init : ForInit π, (init.map f).outline = init.outline.map f
  | .declaration decl => decl.outline_map
  | .expression e => e.outline_map

theorem ForInit.outlineOption_map :
    ∀ o : Option (ForInit π),
      ForInit.outlineOption (ForInit.mapOption f o)
        = Outline.mapAll f (ForInit.outlineOption o)
  | none => rfl
  | some init => by
      simp only [ForInit.mapOption, ForInit.outlineOption, Outline.mapAll,
        init.outline_map]

theorem Statement.outline_map :
    ∀ s : Statement π, (s.map f).outline = s.outline.map f
  | .declaration decl => decl.outline_map
  | .function fn => fn.outline_map .functionDeclaration
  | .block b => b.outline_map
  | .ifElse test consequent alternate _ => by
      simp only [Statement.map, Statement.outline, Outline.map,
        Outline.mapAll, test.outline_map, consequent.outline_map,
        Statement.outlineOption_map alternate]
  | .forLoop init test update body _ => by
      simp only [Statement.map, Statement.outline, Outline.map,
        Outline.mapAll_append, Outline.mapAll,
        ForInit.outlineOption_map init, Expression.outlineOption_map test,
        Expression.outlineOption_map update, body.outline_map]
  | .whileLoop test body _ => by
      simp only [Statement.map, Statement.outline, Outline.map,
        Outline.mapAll, test.outline_map, body.outline_map]
  | .doWhileLoop body test _ => by
      simp only [Statement.map, Statement.outline, Outline.map,
        Outline.mapAll, body.outline_map, test.outline_map]
  | .returning argument _ => by
      simp only [Statement.map, Statement.outline, Outline.map,
        Expression.outlineOption_map argument]
  | .breaking label _ => by
      simp only [Statement.map, Statement.outline, Outline.map,
        Identifier.outlineOption_map label]
  | .continuing label _ => by
      simp only [Statement.map, Statement.outline, Outline.map,
        Identifier.outlineOption_map label]
  | .throwing argument _ => by
      simp only [Statement.map, Statement.outline, Outline.map,
        Outline.mapAll, argument.outline_map]
  | .expression e _ => by
      simp only [Statement.map, Statement.outline, Outline.map,
        Outline.mapAll, e.outline_map]
  | .labeled label body _ => by
      simp only [Statement.map, Statement.outline, Outline.map,
        Outline.mapAll, label.outline_map, body.outline_map]
  | .empty _ => rfl
  | .debugger _ => rfl

theorem Statement.outlineAll_map :
    ∀ l : List (Statement π),
      Statement.outlineAll (Statement.mapAll f l)
        = Outline.mapAll f (Statement.outlineAll l)
  | [] => rfl
  | s :: rest => by
      simp only [Statement.mapAll, Statement.outlineAll, Outline.mapAll,
        s.outline_map, Statement.outlineAll_map rest]

theorem Statement.outlineOption_map :
    ∀ o : Option (Statement π),
      Statement.outlineOption (Statement.mapOption f o)
        = Outline.mapAll f (Statement.outlineOption o)
  | none => rfl
  | some s => by
      simp only [Statement.mapOption, Statement.outlineOption,
        Outline.mapAll, s.outline_map]

end

theorem Script.outline_map (script : Script π) :
    (script.map f).outline = script.outline.map f := by
  simp only [Script.map, Script.outline, Outline.map,
    Statement.outlineAll_map script.body]

/-- The nodes of a script with other places. -/
theorem Script.nodes_map (script : Script π) :
    (script.map f).outline.nodes
      = script.outline.nodes.map fun node => (node.1, f node.2) := by
  rw [script.outline_map, Outline.nodes_map]

end ScriptTree
