/-
A chain has one tree, and it can be built from left to right.

# One tree

Where a chain can be split with weaker operators on neither side, it is
split there (`split?_append`). So the trees that group a chain are the
one that splitting finds (`groups_iff`).

# From left to right

When part of a chain has been read, some operands wait for their right
side, each with the operators between it and the one that waits below
it. The precedences of the operators after them rise towards the top
(`Ordered`). Closing the operation on top leaves the chain that is spelled
out by all of them as it was (`whole`).
-/
import ScriptTree.Tree.Chain

namespace ScriptTree

namespace Chain

variable {α : Type} {left right c : Chain α} {operator o : InfixOperator}

-- ========================================================== splitting

theorem operators_eq_nil_of_split? (h : c.split? = none) :
    c.operators = [] := by
  cases c with
  | operand a => rfl
  | more a next rest =>
      unfold split? at h
      split at h
      · cases h
      · split at h <;> cases h

/-- The operator that a chain is split at is the last of the weakest. -/
theorem bounds_of_split? (h : c.split? = some (left, operator, right)) :
    (∀ o ∈ left.operators, operator.precedence ≤ o.precedence) ∧
      ∀ o ∈ right.operators, operator.precedence < o.precedence := by
  induction c generalizing left operator right with
  | operand a => cases h
  | more a next rest ih =>
      unfold split? at h
      split at h
      case h_1 hrest =>
        cases h
        rw [operators_eq_nil_of_split? hrest]
        exact ⟨by simp [operators], by simp⟩
      case h_2 l weakest r hrest =>
        obtain ⟨hl, hr⟩ := ih hrest
        split at h
        case isTrue hle =>
          cases h
          refine ⟨?_, hr⟩
          intro o ho
          rcases List.mem_cons.1 ho with rfl | ho
          · exact hle
          · exact hl o ho
        case isFalse hlt =>
          cases h
          refine ⟨by simp [operators], ?_⟩
          intro o ho
          rw [eq_append_of_split? hrest, operators_append,
            List.mem_append, List.mem_cons] at ho
          rcases ho with ho | rfl | ho
          · have hle := hl o ho
            omega
          · omega
          · have hle := hr o ho
            omega

/-- A chain is split at the only operator that can be the last of the
weakest. -/
theorem split?_append
    (hl : ∀ o ∈ left.operators, operator.precedence ≤ o.precedence)
    (hr : ∀ o ∈ right.operators, operator.precedence < o.precedence) :
    (left.append operator right).split?
      = some (left, operator, right) := by
  induction left with
  | operand a =>
      unfold append split?
      split
      case h_1 => rfl
      case h_2 l weakest r hright =>
        have hweakest : operator.precedence < weakest.precedence := by
          apply hr
          rw [eq_append_of_split? hright, operators_append]
          simp
        rw [if_neg (by omega)]
  | more a next rest ih =>
      have hnext : operator.precedence ≤ next.precedence :=
        hl next List.mem_cons_self
      have hrest := ih fun o ho => hl o (List.mem_cons_of_mem _ ho)
      unfold append split?
      rw [hrest]
      simp only [hnext, if_true]

-- =========================================================== grouping

variable {a b : Chain (Expression Unit)} {e : Expression Unit}

theorem grouped_operand (e : Expression Unit) :
    (Chain.operand e).grouped = e := by
  unfold grouped
  rfl

theorem grouped_append
    (ha : ∀ o ∈ a.operators, operator.precedence ≤ o.precedence)
    (hb : ∀ o ∈ b.operators, operator.precedence < o.precedence) :
    (a.append operator b).grouped
      = operator.node a.grouped b.grouped () := by
  have hsplit := split?_append ha hb
  rw [grouped]
  split
  case h_1 hnone =>
    rw [hsplit] at hnone
    cases hnone
  case h_2 l weakest r hsome =>
    rw [hsplit] at hsome
    cases hsome
    rfl

theorem groups_grouped (c : Chain (Expression Unit)) :
    c.Groups c.grouped := by
  induction c using grouped.induct with
  | case1 c hnone =>
      cases c with
      | operand e =>
          rw [grouped_operand]
          exact .operand e
      | more e next rest =>
          have hnil := operators_eq_nil_of_split? hnone
          cases hnil
  | case2 c left operator right hsome ihleft ihright =>
      obtain ⟨hl, hr⟩ := bounds_of_split? hsome
      rw [eq_append_of_split? hsome, grouped_append hl hr]
      exact .node ihleft ihright hl hr

/-- A chain has just one tree, and splitting finds it. -/
theorem groups_iff {c : Chain (Expression Unit)} :
    c.Groups e ↔ e = c.grouped := by
  constructor
  · intro h
    induction h with
    | operand e => rw [grouped_operand]
    | node _ _ hl hr ihl ihr => rw [grouped_append hl hr, ihl, ihr]
  · rintro rfl
    exact groups_grouped c

-- ====================================================== left to right

theorem append_append (a b d : Chain α) (next last : InfixOperator) :
    (a.append next b).append last d = a.append next (b.append last d) := by
  induction a with
  | operand x => rfl
  | more x first rest ih => rw [append, append, append, ih]

end Chain

/-- An operand that waits for its right side, as a chain. -/
structure Waiting where
  left : Chain (Expression Unit)
  operator : InfixOperator

namespace Waiting

variable {w : Waiting} {stack : List Waiting}
  {c : Chain (Expression Unit)}

/-- The chain that is spelled out by what waits and what came last. -/
def whole : List Waiting → Chain (Expression Unit) →
    Chain (Expression Unit)
  | [], c => c
  | w :: stack, c => whole stack (w.left.append w.operator c)

/-- What follows is added at the end. -/
theorem whole_append (operator : InfixOperator)
    (d : Chain (Expression Unit)) :
    whole stack (c.append operator d)
      = (whole stack c).append operator d := by
  induction stack generalizing c with
  | nil => rfl
  | cons w stack ih => rw [whole, whole, ← ih, Chain.append_append]

/-- Operators that all bind more strongly than those that wait. -/
def Below (stack : List Waiting) (operators : List InfixOperator) : Prop :=
  ∀ w ∈ stack, ∀ o ∈ operators, w.operator.precedence < o.precedence

/-- What waits, from the top: each operator binds at most as strongly as
those on its left, and more strongly than those that wait below it. -/
def Ordered : List Waiting → Prop
  | [] => True
  | w :: stack =>
    (∀ o ∈ w.left.operators, w.operator.precedence ≤ o.precedence) ∧
      Below stack [w.operator] ∧ Ordered stack

/-- Closing the operation on top does not bring anything weaker than what
waits below. -/
theorem Ordered.below_append (h : Ordered (w :: stack))
    (hc : Below (w :: stack) c.operators) :
    Below stack (w.left.append w.operator c).operators := by
  obtain ⟨hleft, hbelow, -⟩ := h
  intro v hv o ho
  have hw := hbelow v hv w.operator List.mem_cons_self
  rw [Chain.operators_append, List.mem_append, List.mem_cons] at ho
  rcases ho with ho | rfl | ho
  · have hle := hleft o ho
    omega
  · exact hw
  · exact hc v (List.mem_cons_of_mem _ hv) o ho

/-- The operators that wait are weaker than `precedence` if the one on
top is. -/
theorem Ordered.weaker (h : Ordered (w :: stack)) {precedence : Nat}
    (hw : w.operator.precedence < precedence) :
    ∀ v ∈ w :: stack, v.operator.precedence < precedence := by
  intro v hv
  rcases List.mem_cons.1 hv with rfl | hv
  · exact hw
  · exact Nat.lt_trans (h.2.1 v hv w.operator List.mem_cons_self) hw

end Waiting

end ScriptTree
