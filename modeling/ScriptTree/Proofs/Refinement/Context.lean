/-
What a parser keeps in mind, and what the grammar hands down.

# Jumps

The grammar hands down what jumps may refer to (`Jumps`). A parser keeps it
in mind, changes it for the body of a function, the body of a loop and the
statement after a label, and takes the change back (`Context.Keeps`).

# Covers

The grammar looks at an expression to tell whether a value may be given to
it (`Expression.isAssignable`). A parser has ruled that out while it read
the expression, or it has not (`Context.Fits`). An isolated action leaves
nothing behind, and an inherited one what it has ruled out. No production
keeps an initializer in mind that only a name to bind can have, so none is
refused for one.
-/
import ScriptTree.Parser.Expression
import ScriptTree.Proofs.Refinement.Token

namespace ScriptTree

-- ============================================================ contexts

namespace Context

/-- What is kept in mind is what the grammar hands down. -/
structure Keeps (jumps : Jumps) (c : Context) : Prop where
  inFunctionBody : c.inFunctionBody = jumps.inFunction
  inIteration : c.inIteration = jumps.inLoop
  labels : c.labels = jumps.labels
  initializedName : c.cover.initializedName = none

/-- Besides, it is kept in mind whether a value may be given to what was
read. -/
structure Fits (jumps : Jumps) (target : Bool) (c : Context) : Prop
    extends c.Keeps jumps where
  assignmentTarget : c.cover.assignmentTarget = target

variable {jumps : Jumps} {target : Bool} {c c' : Context}

/-- What is handed down determines what is kept in mind, but for covers. -/
theorem Keeps.restore (h : c.Keeps jumps) (h' : c'.Keeps jumps) :
    { c' with cover := c.cover } = c := by
  have hbody := h'.inFunctionBody.trans h.inFunctionBody.symm
  have hloop := h'.inIteration.trans h.inIteration.symm
  have hlabels := h'.labels.trans h.labels.symm
  cases c
  cases c'
  subst hbody hloop hlabels
  rfl

/-- Nothing is ruled out of what comes next. -/
theorem Keeps.permit (h : c.Keeps jumps) :
    { c with cover := .permissive }.Fits jumps true :=
  ⟨⟨h.inFunctionBody, h.inIteration, h.labels, rfl⟩, rfl⟩

/-- A value cannot be given to what was read. -/
theorem Keeps.clear (h : c.Keeps jumps) :
    { c with cover := c.cover.clear }.Fits jumps false :=
  ⟨⟨h.inFunctionBody, h.inIteration, h.labels, h.initializedName⟩, rfl⟩

/-- What was ruled out before, and what has been since. -/
theorem Fits.merge {outer : Context} {inner : Bool}
    (h : outer.Fits jumps target) (h' : c.Fits jumps inner) :
    { c with cover := outer.cover.merge c.cover }.Fits jumps
      (target && inner) where
  inFunctionBody := h'.inFunctionBody
  inIteration := h'.inIteration
  labels := h'.labels
  initializedName := by
    show (outer.cover.initializedName <|> c.cover.initializedName) = none
    rw [h.initializedName, h'.initializedName]
    rfl
  assignmentTarget := by
    show (outer.cover.assignmentTarget && c.cover.assignmentTarget)
      = (target && inner)
    rw [h.assignmentTarget, h'.assignmentTarget]

end Context

namespace ParserState.Beside

open Context

variable (m : Machine) {text : List Char} {options : Options}
  {K : Context → Prop} {jumps : Jumps} {target : Bool} {p : ParserState}
  {s : ParseState} {α β : Type} {L : β → Context → Prop} {f : β → α}

-- ============================================================== covers

/-- What is kept in mind is known to be so and so. -/
theorem fits [NameProperties] (h : p.Beside text options (Keeps jumps) s) :
    p.Beside text options (Fits jumps p.context.cover.assignmentTarget) s :=
  { h with context := ⟨h.context, rfl⟩ }

/-- Of what is kept in mind less may be said. -/
theorem forgetCover [NameProperties]
    (h : p.Beside text options (Fits jumps target) s) :
    p.Beside text options (Keeps jumps) s :=
  { h with context := h.context.toKeeps }

/-- The parser rules out that a value is given, and goes on. -/
theorem cleared [NameProperties] (h : p.Beside text options K s)
    (hK : ∀ c, K c → c.Keeps jumps) {k : Unit → Parser α}
    {r : EStateM.Result Failure ParseState β}
    (hk : ∀ p' : ParserState, p'.Beside text options (Fits jumps false) s →
      Carries text options L f (k () p') r) :
    Carries text options L f ((Parser.clearCover >>= k) p) r :=
  h.adapted _ (fun _ hc => (hK _ hc).clear) hk

/-- An isolated action leaves nothing behind. -/
theorem isolated [NameProperties] {action : Parser α} {action' : Parse β}
    (h : p.Beside text options K s) (hK : ∀ c, K c → c.Keeps jumps)
    (haction : ∀ {p s}, p.Beside text options (Fits jumps true) s →
      Carries text options (fun _ => Keeps jumps) f (action p)
        (action' s)) :
    Carries text options (fun _ => K) f
      (@Parser.isolated α m.arithmetic action p) (action' s) := by
  have houtside := hK _ h.context
  have hpermitted := h.adapt (Fits jumps true)
    fun _ hc => (hK _ hc).permit
  unfold Parser.isolated
  rw [Parser.context_bind, Parser.cover_bind]
  refine (haction hpermitted).alone fun b p' s' h' => ?_
  rw [Parser.context_bind, h'.context.initializedName]
  refine h'.adapted _ (fun c hc => ?_) fun p'' h'' => .ok h''
  rw [houtside.restore hc]
  exact h.context

/-- What an inherited action rules out is ruled out around it. -/
theorem inherited [NameProperties]
    {action : Parser α} {action' : Parse β} {v : β → Bool}
    (h : p.Beside text options (Fits jumps target) s)
    (haction : ∀ {p s}, p.Beside text options (Fits jumps true) s →
      Carries text options (fun b => Fits jumps (v b)) f (action p)
        (action' s)) :
    Carries text options (fun b => Fits jumps (target && v b)) f
      (Parser.inherited action p) (action' s) := by
  have hpermitted := h.adapt (Fits jumps true)
    fun _ hc => hc.toKeeps.permit
  unfold Parser.inherited
  rw [Parser.context_bind, Parser.cover_bind]
  refine (haction hpermitted).alone fun b p' s' h' => ?_
  exact h'.adapted _ (fun c hc => h.context.merge hc) fun p'' h'' => .ok h''

/-- The parser objects where the grammar does: it has ruled out that a
value is given to the expression exactly if none may be. -/
theorem requireTarget [NameProperties] {e : Expression Span}
    (h : p.Beside text options (Fits jumps e.isAssignable) s) :
    Carries text options (fun _ => Fits jumps e.isAssignable) id
      (Parser.requireTarget p) (Parse.requireAssignable e s) := by
  unfold Parser.requireTarget Parse.requireAssignable
  rw [Parser.context_bind, h.context.assignmentTarget]
  apply Carries.ite
  · exact fun _ => .pure h rfl
  · exact fun _ => h.object _

end ParserState.Beside

end ScriptTree
