/-
Operands with operators between them group as strongly as the operators
bind.

# Operands in their place

What is read as an operand when it stands alone is read alike in front of
an operator (`Accepts.power_ahead`), so a chain of such operands is read
operand by operand.

# The stack

While a chain is read, the operands on the stack are trees of the chains
that wait (`Waiting.Stand`), and the operators bind the more strongly the
later they came. To reduce is to close operations from the top; that
changes neither the whole chain nor the order (`reduce_stands`). So what
is left in the end is the tree of the whole (`operations_groups`).
-/
import ScriptTree.Proofs.Chain
import ScriptTree.Proofs.Extension.Operand
import ScriptTree.Source.NameRanges

namespace ScriptTree

open ParseState

variable {α : Type} {ws : List Word}

-- ==================================================== what is accepted

/-- A production at the start of a text, as a strict parse has it. -/
def Parse.onText [NameProperties]
    (p : Productions → Parse α) (text : List Char) :
    EStateM.Result Failure ParseState α :=
  (do skip; p (.ofDepth (text.length + 1))) (.ofText text false)

/-- The production reads an expression from the lexemes, all of them, and
leaves those that come after. -/
def Accepts [NameProperties] (p : Productions → Parse (Expression Span))
    (lexemes after : List Lexeme) (e : Expression Unit) : Prop :=
  ∃ e' s, Parse.onText p (Lexeme.spaced (lexemes ++ after)) = .ok e' s ∧
    e'.shape = e ∧
    s.words.map Word.token = after.map fun l => l.token.bare

/-- What a production accepts on a fixed text can be computed, up to a test
that tells the tree. -/
theorem accepts_of_run [NameProperties]
    {p : Productions → Parse (Expression Span)}
    {lexemes after : List Lexeme} {e : Expression Unit}
    (isTree : Expression Span → Bool)
    (htree : ∀ e', isTree e' = true → e'.shape = e)
    (hrun : (match Parse.onText p (Lexeme.spaced (lexemes ++ after)) with
      | .ok e' s => isTree e' && decide
          (s.words.map Word.token = after.map fun l => l.token.bare)
      | .error _ _ => false) = true) : Accepts p lexemes after e := by
  cases h : Parse.onText p (Lexeme.spaced (lexemes ++ after)) with
  | ok e' s =>
      rw [h] at hrun
      obtain ⟨he, hs⟩ := Bool.and_eq_true_iff.1 hrun
      exact ⟨e', s, h, htree e' he, of_decide_eq_true hs⟩
  | error failure s =>
      rw [h] at hrun
      cases hrun

theorem InfixOperator.isSome_ofText? [NameProperties]
    (operator : InfixOperator) :
    (Token.ofText? operator.text.toList).isSome = true := by
  rw [← Option.isSome_map, operator.ofText?_text]
  rfl

/-- The lexeme of an operator. -/
def InfixOperator.lexeme [NameProperties]
    (operator : InfixOperator) : Lexeme :=
  .of operator.text operator.isSome_ofText?

/-- The lexemes of an operand, and the expression that they are. -/
structure Operand [NameProperties] where
  lexemes : List Lexeme
  tree : Expression Unit

namespace Chain

/-- The lexemes of a chain of operands. -/
def lexemes [NameProperties] : Chain Operand → List Lexeme
  | .operand x => x.lexemes
  | .more x operator rest => x.lexemes ++ operator.lexeme :: rest.lexemes

/-- Each operand is a power by itself, and the last one is so in front of
`next`. The power operator is not between operands, but within them. -/
def Accepted [NameProperties] (next : List Lexeme) : Chain Operand → Prop
  | .operand x => Accepts Parse.power x.lexemes next x.tree
  | .more x operator rest =>
    Accepts Parse.power x.lexemes [] x.tree ∧
      operator ≠ .binary .power ∧ rest.Accepted next

/-- The expressions of a chain of operands. -/
def trees [NameProperties] (c : Chain Operand) : Chain (Expression Unit) :=
  c.map Operand.tree

end Chain

-- ================================================ lexemes in their place

namespace Parse

/-- A strict parse of lexemes starts with their words ahead. -/
theorem onText_spaced [NameProperties] (lexemes : List Lexeme) :
    ∃ s : ParseState, s.Ahead (Lexeme.words false lexemes) ∧
      ∀ p : Productions → Parse α, onText p (Lexeme.spaced lexemes)
        = p (.ofDepth ((Lexeme.spaced lexemes).length + 1)) s := by
  obtain ⟨s, hskip, hs, hr, hwords⟩ := Lexeme.skip_spaced lexemes
  exact ⟨s, ⟨hs, hr, hwords⟩, fun p => bind_of_ok hskip⟩

end Parse

/-- What is left in the end are the last words. -/
theorem words_eq_of_suffix [NameProperties] {s u : ParseState} {ws : List Word}
    {newLine : Bool} {next : List Lexeme}
    (hs : s.Ahead (ws ++ Lexeme.words newLine next)) (hr : s.Reaches u)
    (h : u.words.map Word.token = next.map fun l => l.token.bare) :
    u.words = Lexeme.words newLine next := by
  have hsuffix := Reaches.words_suffix hr hs.sound
  have hlength : u.words.length = (Lexeme.words newLine next).length := by
    have hu := congrArg List.length h
    have hnext := congrArg List.length (Lexeme.words_token newLine next)
    simp only [List.length_map] at hu hnext
    rw [hu, hnext]
  rw [List.suffix_iff_eq_drop, hs.words, List.length_append, hlength,
    Nat.add_sub_cancel, List.drop_left] at hsuffix
  exact hsuffix

/-- An operand is read in its place as it is alone: in front of the same
lexemes as before, or where nothing goes on with it. -/
theorem Accepts.power_ahead [NameProperties] {lexemes next more : List Lexeme}
    {e : Expression Unit} (h : Accepts Parse.power lexemes next e)
    {s : ParseState} {n : Nat}
    (hs : s.Ahead (Lexeme.words false (lexemes ++ (next ++ more))))
    (hn : (Lexeme.spaced (lexemes ++ next)).length < n)
    (hend : next ≠ [] ∨ ∀ l ∈ more.head?, l.token.bare.EndsOperand) :
    ∃ e' u newLine, Parse.power (.ofDepth n) s = .ok e' u ∧
      e'.shape = e ∧ u.Ahead (Lexeme.words newLine (next ++ more)) := by
  obtain ⟨s₀, hs₀, honText⟩ := Parse.onText_spaced (α := Expression Span)
    (lexemes ++ next)
  obtain ⟨e₀, u₀, hrun, rfl, htokens⟩ := h
  rw [honText] at hrun
  obtain ⟨newLine, hwords⟩ := Lexeme.words_append false lexemes
  obtain ⟨newLine', hmore⟩ := Lexeme.words_append newLine next
  rw [hwords] at hs₀
  rw [hwords, hmore, ← List.append_assoc] at hs
  have hu₀ := words_eq_of_suffix hs₀ (Parse.runs_power _ hrun) htokens
  -- Alone, the operand ends in front of `next`. If that is nothing, then
  -- what follows here must not go on with it.
  have hstop : u₀.words ≠ [] ∨
      EndsOperand (Lexeme.words newLine' more) := by
    rcases hend with hne | hmark
    · left
      intro hnil
      rw [hnil, List.map_nil, eq_comm, List.map_eq_nil_iff] at htokens
      exact hne htokens
    · right
      cases more with
      | nil => simp [EndsOperand, Lexeme.words]
      | cons l more =>
          intro w hw
          cases hw
          exact hmark l rfl
  obtain ⟨e', u, hpower, he, ws, hws, hu⟩ :=
    Parse.power_extended hn ⟨_, hs₀, hs⟩ hrun hstop
  refine ⟨e', u, newLine, hpower, he, ?_⟩
  rw [hmore, ← hu₀, hws.words]
  exact hu

namespace InfixOperator

theorem bare_lexeme [NameProperties] (operator : InfixOperator) :
    operator.lexeme.token.bare = operator.token := by
  have h := operator.ofText?_text
  rw [show Token.ofText? operator.text.toList
    = some operator.lexeme.token from operator.lexeme.alone] at h
  exact Option.some.inj h

/-- The line goes on after an operator. -/
theorem breaks_lexeme [NameProperties] (operator : InfixOperator) :
    operator.lexeme.breaks = false := by
  have hkind : operator.lexeme.token.kind = operator.token.kind := by
    rw [← operator.bare_lexeme]
    rfl
  have hno : operator.token.kind = .keyword ∨
      operator.token.kind = .punctuator := by
    unfold InfixOperator.token
    split
    · exact .inl rfl
    · exact .inr rfl
  rw [← hkind] at hno
  apply Lexeme.not_breaks <;> rcases hno with hno | hno <;> simp [hno]

end InfixOperator

namespace Chain

/-- What comes after the first operand. -/
def followers [NameProperties] : Chain Operand → List Lexeme
  | .operand _ => []
  | .more _ operator rest => operator.lexeme :: rest.lexemes

theorem length_operators_le [NameProperties] (c : Chain Operand) :
    c.operators.length ≤ c.lexemes.length := by
  induction c with
  | operand x => exact Nat.zero_le _
  | more x operator rest ih =>
      rw [operators, lexemes, List.length_append, List.length_cons,
        List.length_cons]
      omega

/-- The first operand of a chain is read where the chain starts. -/
theorem Accepted.first [NameProperties]
    {c : Chain Operand} {after : List Lexeme}
    (h : c.Accepted (after.take 1)) {s : ParseState} {n : Nat}
    (hs : s.Ahead (Lexeme.words false (c.lexemes ++ after)))
    (hn : (Lexeme.spaced (c.lexemes ++ after)).length < n) :
    ∃ e u newLine, Parse.power (.ofDepth n) s = .ok e u ∧
      e.shape = c.first.tree ∧
      u.Ahead (Lexeme.words newLine (c.followers ++ after)) := by
  cases c with
  | operand x =>
      -- Alone: only the first lexeme behind it can go on with the operand.
      have hafter : after.take 1 ++ after.drop 1 = after :=
        List.take_append_drop 1 after
      have hle := Lexeme.length_spaced_le [] (x.lexemes ++ after.take 1)
        (after.drop 1)
      rw [List.nil_append, List.append_assoc, hafter] at hle
      have hs : s.Ahead (Lexeme.words false
          (x.lexemes ++ (after.take 1 ++ after.drop 1))) := by
        rw [hafter]
        exact hs
      have hpower := Accepts.power_ahead h hs (Nat.lt_of_le_of_lt hle hn) (by
        cases after with
        | nil => exact .inr (by simp)
        | cons l rest => exact .inl (by simp))
      rw [hafter] at hpower
      exact hpower
  | more x operator rest =>
      -- In front of an operator, which ends the operand.
      obtain ⟨hx, hoperator, -⟩ := h
      have hle := Lexeme.length_spaced_le [] (x.lexemes ++ [])
        (operator.lexeme :: rest.lexemes ++ after)
      rw [List.nil_append, List.append_nil, ← List.append_assoc] at hle
      rw [lexemes, List.append_assoc] at hs
      refine Accepts.power_ahead hx hs ?_ (.inr ?_)
      · rw [List.append_nil]
        exact Nat.lt_of_le_of_lt hle hn
      · intro l hl
        cases hl
        rw [operator.bare_lexeme]
        exact InfixOperator.endsOperand_token hoperator

end Chain

-- ============================================================ the stack

/-- An operand on the stack is the tree of the chain that waits. -/
structure Parse.Pending.Stands (p : Parse.Pending) (w : Waiting) :
    Prop where
  operator : p.operator = w.operator
  groups : w.left.Groups p.left.shape

/-- The stack, and the operand that came last, are the trees of what waits
and of a chain of stronger operators. -/
structure Stacked (stack : List Parse.Pending) (waiting : List Waiting)
    (c : Chain (Expression Unit)) (e : Expression Span) : Prop where
  stands : List.Forall₂ Parse.Pending.Stands stack waiting
  ordered : Waiting.Ordered waiting
  below : Waiting.Below waiting c.operators
  groups : c.Groups e.shape

namespace Stacked

variable {stack : List Parse.Pending} {waiting : List Waiting}
  {p : Parse.Pending} {w : Waiting} {c : Chain (Expression Unit)}
  {e e' : Expression Span}

/-- To close the operation on top is to group one chain more. -/
theorem close (h : Stacked (p :: stack) (w :: waiting) c e)
    (he : e'.shape = p.operator.node p.left.shape e.shape ()) :
    Stacked stack waiting (w.left.append w.operator c) e' := by
  obtain ⟨hp, hstands⟩ := List.forall₂_cons.1 h.stands
  have hright := h.below w List.mem_cons_self
  refine ⟨hstands, h.ordered.2.2, h.ordered.below_append h.below, ?_⟩
  rw [he, hp.operator]
  exact .node hp.groups h.groups h.ordered.1 hright

/-- An operand waits once its operator is known not to be stronger than
what is on its left, and stronger than what waits. -/
theorem push (h : Stacked stack waiting c e) {operator : InfixOperator}
    (hleft : ∀ o ∈ c.operators, operator.precedence ≤ o.precedence)
    (hbelow : ∀ v ∈ waiting, v.operator.precedence < operator.precedence)
    (start : Position) (right : Expression Span) :
    Stacked (⟨e, operator, start⟩ :: stack) (⟨c, operator⟩ :: waiting)
      (.operand right.shape) right where
  stands := .cons ⟨rfl, h.groups⟩ h.stands
  ordered := by
    refine ⟨hleft, ?_, h.ordered⟩
    intro v hv o ho
    rw [List.mem_singleton.1 ho]
    exact hbelow v hv
  below _ _ o ho := absurd ho List.not_mem_nil
  groups := .operand _

end Stacked

namespace Parse

theorem operation_ok {s : ParseState} (hs : s.Ahead ws) (p : Pending)
    (right : Expression Span) :
    ∃ e s', operation p right s = .ok e s' ∧ s'.Ahead ws ∧
      e.shape = p.operator.node p.left.shape right.shape () := by
  obtain ⟨left, operator, start⟩ := p
  cases operator with
  | binary operator =>
      refine ⟨_, _, rfl, hs.of_eq rfl rfl rfl rfl, ?_⟩
      exact (InfixOperator.binary operator).node_shape left right _
  | logical operator =>
      refine ⟨_, _, rfl, hs.of_eq rfl rfl rfl rfl, ?_⟩
      exact (InfixOperator.logical operator).node_shape left right _

/-- To reduce is to close the operations on top that bind at least as
strongly, and these only. The whole chain stays as it was. -/
theorem reduce_stacked (precedence : Nat) {stack : List Pending}
    {waiting : List Waiting} {c : Chain (Expression Unit)}
    (start : Position) {e : Expression Span} {s : ParseState}
    (h : Stacked stack waiting c e) (hs : s.Ahead ws)
    (hc : ∀ o ∈ c.operators, precedence ≤ o.precedence) :
    ∃ stack' start' e' s' waiting' c',
      reduce precedence stack start e s = .ok (stack', start', e') s' ∧
      s'.Ahead ws ∧ Stacked stack' waiting' c' e' ∧
      Waiting.whole waiting' c' = Waiting.whole waiting c ∧
      (∀ w ∈ waiting', w.operator.precedence < precedence) ∧
      ∀ o ∈ c'.operators, precedence ≤ o.precedence := by
  induction stack generalizing waiting c start e s with
  | nil =>
      obtain rfl := List.forall₂_nil_left_iff.1 h.stands
      exact ⟨[], start, e, s, [], c, rfl, hs, h, rfl, by simp, hc⟩
  | cons p stack ih =>
      obtain ⟨w, waiting, hp, -, rfl⟩ :=
        List.forall₂_cons_left_iff.1 h.stands
      unfold reduce
      by_cases hle : precedence ≤ p.operator.precedence
      · -- The operation on top is closed: it is the operand that came last.
        obtain ⟨e₁, s₁, hoperation, hs₁, he₁⟩ := operation_ok hs p e
        have hclosed := h.close he₁
        have hc₁ : ∀ o ∈ (w.left.append w.operator c).operators,
            precedence ≤ o.precedence := by
          intro o ho
          rw [hp.operator] at hle
          rw [Chain.operators_append, List.mem_append, List.mem_cons] at ho
          rcases ho with ho | rfl | ho
          · exact Nat.le_trans hle (h.ordered.1 o ho)
          · exact hle
          · exact hc o ho
        obtain ⟨stack', start', e', s', waiting', c', hrun, hrest⟩ :=
          ih p.start hclosed hs₁ hc₁
        refine ⟨stack', start', e', s', waiting', c', ?_, hrest⟩
        rw [if_pos hle]
        exact bind_ok.2 ⟨e₁, s₁, hoperation, hrun⟩
      · -- The operation on top binds more weakly, and so do all below it.
        rw [hp.operator] at hle
        have hweaker := h.ordered.weaker (Nat.lt_of_not_le hle)
        refine ⟨p :: stack, start, e, s, w :: waiting, c, ?_, hs, h, rfl,
          hweaker, hc⟩
        rw [hp.operator, if_neg hle]
        rfl

/-- After a chain there is no operator. -/
theorem infixOperator?_after [NameProperties] {after : List Lexeme}
    (hafter : ∀ l ∈ after.head?, l.token.infixOperator? = none)
    {s : ParseState} {newLine : Bool}
    (hs : s.Ahead (Lexeme.words newLine after)) :
    s.lookahead.infixOperator? = none := by
  cases after with
  | nil =>
      have hkind : s.lookahead.kind = .endOfInput := by
        simpa [Token.isEnd] using isEnd_of_words_nil hs.words
      simp [Token.infixOperator?, Token.isKeyword, Token.punctuator?, hkind]
  | cons l rest =>
      show s.lookahead.bare.infixOperator? = none
      rw [hs.lookahead.2.1]
      exact hafter l rfl

/-- What is left of a chain is read operand by operand, and in the end the
whole chain is grouped. -/
theorem operations_grouped [NameProperties] {after : List Lexeme} {n : Nat}
    (hafter : ∀ l ∈ after.head?, l.token.infixOperator? = none)
    {c : Chain Operand} (hc : c.Accepted (after.take 1))
    (hn : (Lexeme.spaced (c.lexemes ++ after)).length < n) {steps : Nat}
    (hsteps : c.operators.length < steps) {stack : List Pending}
    {waiting : List Waiting} (start : Position) {e : Expression Span}
    (h : Stacked stack waiting (.operand c.first.tree) e) {s : ParseState}
    {newLine : Bool}
    (hs : s.Ahead (Lexeme.words newLine (c.followers ++ after))) :
    ∃ e' s' newLine',
      operations (.ofDepth n) steps stack start e s = .ok e' s' ∧
      e'.shape = (Waiting.whole waiting c.trees).grouped ∧
      s'.Ahead (Lexeme.words newLine' after) := by
  induction c generalizing steps stack waiting start e s newLine with
  | operand x =>
      obtain ⟨steps, rfl⟩ : ∃ k, steps = k + 1 := ⟨steps - 1, by omega⟩
      -- No operator is left, so every operation that waits is closed.
      obtain ⟨stack', start', e', s', waiting', c', hreduce, hs', h',
        hwhole, hweaker, -⟩ := reduce_stacked 0 start h hs (by simp)
      have hnil : waiting' = [] := by
        cases waiting' with
        | nil => rfl
        | cons w _ => exact absurd (hweaker w List.mem_cons_self) (by simp)
      subst hnil
      refine ⟨e', s', newLine, ?_, ?_, hs'⟩
      · unfold operations
        rw [lookahead_bind, infixOperator?_after hafter hs]
        exact bind_ok.2 ⟨_, s', hreduce, rfl⟩
      · rw [Chain.groups_iff.1 h'.groups]
        exact congrArg Chain.grouped hwhole
  | more x operator rest ih =>
      obtain ⟨steps, rfl⟩ : ∃ k, steps = k + 1 := ⟨steps - 1, by omega⟩
      obtain ⟨-, hoperator, hrest⟩ := hc
      have hinfix : s.lookahead.infixOperator? = some operator := by
        show s.lookahead.bare.infixOperator? = some operator
        rw [hs.lookahead.2.1, operator.bare_lexeme]
        exact InfixOperator.infixOperator?_token hoperator
      -- The operations that bind at least as strongly are closed first.
      obtain ⟨stack₁, start₁, e₁, s₁, waiting₁, c₁, hreduce, hs₁, h₁,
        hwhole, hweaker, hc₁⟩ :=
          reduce_stacked operator.precedence start h hs
            (by simp [Chain.operators])
      obtain ⟨s₂, hskip, hs₂⟩ := hs₁.skip
      have hs₂ : s₂.Ahead (Lexeme.words false (rest.lexemes ++ after)) := by
        rw [← operator.breaks_lexeme]
        exact hs₂
      have hle := Lexeme.length_spaced_le (x.lexemes ++ [operator.lexeme])
        (rest.lexemes ++ after) []
      have hlexemes : x.lexemes ++ [operator.lexeme]
          ++ (rest.lexemes ++ after) ++ []
            = (Chain.more x operator rest).lexemes ++ after := by
        simp [Chain.lexemes]
      rw [hlexemes] at hle
      have hn' := Nat.lt_of_le_of_lt hle hn
      obtain ⟨right, s₃, newLine₃, hpower, hright, hs₃⟩ :=
        hrest.first hs₂ hn'
      -- This one waits, as a stronger one may follow its right operand.
      have hpush := h₁.push hc₁ hweaker start₁ right
      rw [hright] at hpush
      obtain ⟨e', s', newLine', hrun, hshape, hs'⟩ :=
        ih hrest hn' (Nat.lt_of_succ_lt_succ hsteps) _ hpush hs₃
      refine ⟨e', s', newLine', ?_, ?_, hs'⟩
      · unfold operations
        rw [lookahead_bind, hinfix]
        refine bind_ok.2 ⟨_, s₁, hreduce, bind_ok.2 ⟨(), s₂, hskip, ?_⟩⟩
        exact bind_ok.2 ⟨_, s₂, rfl, bind_ok.2 ⟨right, s₃, hpower, hrun⟩⟩
      · rw [hshape, Waiting.whole, Waiting.whole_append, hwhole,
          ← Waiting.whole_append]
        rfl

end Parse

-- ======================================================== the theorem

/-- Whether the expression is made by a logical operator. -/
def Expression.isLogical {π : Type} : Expression π → Bool
  | .logical .. => true
  | _ => false

theorem InfixOperator.isLogical_node {π : Type} (operator : InfixOperator)
    (left right : Expression π) (place : π) :
    (operator.node left right place).isLogical = true ↔
      operator.text = "||" ∨ operator.text = "&&" := by
  cases operator with
  | binary operator =>
      have htext : operator.text ≠ "||" ∧ operator.text ≠ "&&" := by
        cases operator <;> decide
      simp [node, Expression.isLogical, text, htext]
  | logical operator =>
      have htext : operator.text = "||" ∨ operator.text = "&&" := by
        cases operator <;> decide
      simp [node, Expression.isLogical, text, htext]

/-- Operands with operators between them are read to their end, whatever
follows that is no such operator. They are split at the last of the
weakest operators, and so are both sides; which is to say that operators
group as strongly as they bind, and to the left where they bind alike. The
operation is a logical one just for two of them. -/
theorem binary_groups_by_precedence [NameProperties] (c : Chain Operand)
    (after : List Lexeme) (hc : c.Accepted (after.take 1))
    (hafter : ∀ l ∈ after.head?, l.token.infixOperator? = none) :
    Accepts Parse.binary c.lexemes after c.trees.grouped ∧
      (∀ e, c.trees.Groups e ↔ e = c.trees.grouped) ∧
      ∀ (operator : InfixOperator) (l r : Expression Unit),
        (operator.node l r ()).isLogical = true ↔
          operator.text = "||" ∨ operator.text = "&&" := by
  refine ⟨?_, fun e => Chain.groups_iff,
    fun operator l r => operator.isLogical_node l r ()⟩
  obtain ⟨s, hs, honText⟩ := Parse.onText_spaced (α := Expression Span)
    (c.lexemes ++ after)
  have hlength := Lexeme.length_le_spaced (c.lexemes ++ after)
  rw [List.length_append] at hlength
  have hoperators := c.length_operators_le
  obtain ⟨e, s₁, newLine₁, hpower, he, hs₁⟩ :=
    hc.first hs (Nat.lt_succ_self _)
  have hstacked : Stacked [] [] (.operand c.first.tree) e := by
    rw [← he]
    exact ⟨.nil, trivial, by simp [Waiting.Below], .operand _⟩
  have hsteps : c.operators.length
      < (Lexeme.spaced (c.lexemes ++ after)).length + 1 := by omega
  obtain ⟨e', s', newLine', hoperations, hshape, hs'⟩ :=
    Parse.operations_grouped hafter hc (Nat.lt_succ_self _) hsteps
      s.lookahead.span.start hstacked hs₁
  refine ⟨e', s', ?_, hshape, ?_⟩
  · rw [honText]
    refine bind_ok.2 ⟨_, s, rfl, bind_ok.2 ⟨e, s₁, hpower, ?_⟩⟩
    rw [Productions.depth_ofDepth]
    exact hoperations
  · rw [hs'.words, Lexeme.words_token]

/-- Whether an expression is the variable of a name. -/
private def isName (name : String) : Expression Span → Bool
  | .identifier n => n.name = name
  | _ => false

/-- Whether an expression is the variable of a name with a minus before it.
-/
private def isNegated (name : String) : Expression Span → Bool
  | .unary .minus e true _ => isName name e
  | _ => false

private theorem shape_of_isName (name : String) (e : Expression Span)
    (h : isName name e = true) : e.shape = .identifier ⟨name, ()⟩ := by
  unfold isName at h
  split at h
  case h_1 n =>
    obtain rfl := of_decide_eq_true h
    rfl
  case h_2 => cases h

private theorem shape_of_isNegated (name : String) (e : Expression Span)
    (h : isNegated name e = true) :
    e.shape = .unary .minus (.identifier ⟨name, ()⟩) true () := by
  unfold isNegated at h
  split at h
  case h_1 argument place =>
    have hargument := shape_of_isName name argument h
    show Expression.unary _ argument.shape true () = _
    rw [hargument]
  case h_2 => cases h

/-- Operators of four strengths in front of a colon. The first two group
to the left, and an operand starts with a sign. -/
theorem binary_groups_mixed :
    let a : Operand := ⟨[.of "a" (by decide)], .identifier ⟨"a", ()⟩⟩
    let minus : Operand := ⟨[.of "-" (by decide), .of "b" (by decide)],
      .unary .minus (.identifier ⟨"b", ()⟩) true ()⟩
    let c : Chain Operand :=
      .more a (.binary .subtract) <| .more a (.binary .subtract) <|
      .more minus (.binary .multiply) <| .more a (.logical .and) <|
      .more minus (.binary .instanceOf) (.operand a)
    let after : List Lexeme := [.of ":" (by decide)]
    c.Accepted (after.take 1) ∧
      (∀ l ∈ after.head?, l.token.infixOperator? = none) ∧
      Accepts Parse.binary c.lexemes after c.trees.grouped ∧
      (∀ e, c.trees.Groups e ↔ e = c.trees.grouped) ∧
      ∀ (operator : InfixOperator) (l r : Expression Unit),
        (operator.node l r ()).isLogical = true ↔
          operator.text = "||" ∨ operator.text = "&&" := by
  intro a minus c after
  have ha : Accepts Parse.power a.lexemes [] a.tree :=
    accepts_of_run (isName "a") (shape_of_isName "a") (by decide +kernel)
  have hminus : Accepts Parse.power minus.lexemes [] minus.tree :=
    accepts_of_run (isNegated "b") (shape_of_isNegated "b")
      (by decide +kernel)
  have hlast :
      Accepts Parse.power a.lexemes (after.take 1) a.tree :=
    accepts_of_run (isName "a") (shape_of_isName "a") (by decide +kernel)
  have hc : c.Accepted (after.take 1) :=
    ⟨ha, by decide, ha, by decide, hminus, by decide, ha, by decide,
      hminus, by decide, hlast⟩
  have hafter : ∀ l ∈ after.head?, l.token.infixOperator? = none := by
    intro l hl
    obtain rfl := Option.some.inj hl
    rfl
  exact ⟨hc, hafter, binary_groups_by_precedence c after hc hafter⟩

end ScriptTree
