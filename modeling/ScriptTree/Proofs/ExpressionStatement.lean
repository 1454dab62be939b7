/-
Statements that are expressions.

Each production of a statement makes one kind of statement. All but two
never make one that is an expression (`Parse.NoExpression`), and so a
statement that is one was read as an expression and the end of a statement
(`expresses_of_item`). What the choice of the production looked
at is then known of the first tokens: no other statement starts with them.
-/
import ScriptTree.Proofs.Simulation.Statement

namespace ScriptTree

/-- The expression that a statement consists of. -/
def Statement.expression? {π : Type} : Statement π → Option (Expression π)
  | .expression e _ => some e
  | _ => none

namespace Parse

variable {α β : Type} {p q : Parse (Statement Span)}

/-- No success is a statement that is an expression. -/
def NoExpression (p : Parse (Statement Span)) : Prop :=
  ∀ ⦃s st u⦄, p s = .ok st u → st.expression? = none

namespace NoExpression

/-- Only what comes last counts. -/
theorem last {p : Parse α} {f : α → Parse (Statement Span)}
    (hf : ∀ a, (f a).NoExpression) : (p >>= f).NoExpression := by
  intro s st u h
  obtain ⟨a, s₁, -, h₂⟩ := bind_ok.1 h
  exact hf a h₂

/-- An action whose result is made into another statement. -/
theorem map {p : Parse α} {f : α → Statement Span}
    (hf : ∀ a, (f a).expression? = none) : (f <$> p).NoExpression := by
  intro s st u h
  obtain ⟨a, -, rfl⟩ := map_ok.1 h
  exact hf a

/-- Either of two actions. -/
theorem ite {c : Prop} [Decidable c] (hp : p.NoExpression)
    (hq : q.NoExpression) : (if c then p else q).NoExpression := by
  split
  case isTrue => exact hp
  case isFalse => exact hq

/-- An action that never succeeds. -/
theorem of_fails (h : ∀ s st u, ¬p s = .ok st u) : p.NoExpression :=
  fun s st u hp => absurd hp (h s st u)

end NoExpression

/-- A node that is completed is not an expression. -/
theorem noExpression_close {kind : NodeKind} {start : Position}
    {g : Span → Statement Span} (hg : ∀ span, (g span).expression? = none) :
    (close kind start >>= fun span => pure (g span)).NoExpression := by
  intro s st u h
  obtain ⟨span, s₁, -, hpure⟩ := bind_ok.1 h
  obtain ⟨rfl, -⟩ := pure_ok.1 hpure
  exact hg span

-- ================================================== other statements

section Other

variable (inner : Productions) (jumps : Jumps)

/-- A declaration is no expression. -/
theorem noExpression_declaration (kind : DeclarationKind) :
    (declaration inner kind).NoExpression := by
  unfold declaration
  refine .last fun first => .last fun _ => ?_
  refine .last fun declared => .last fun _ => ?_
  refine noExpression_close fun span => ?_
  show (Statement.declaration (.mk kind declared span)).expression? = none
  rfl

/-- A statement under a condition is no expression, with its body or
without it. -/
theorem noExpression_ifElse : (ifElse inner jumps).NoExpression := by
  unfold ifElse
  refine .last fun first => .last fun _ => .last fun _ => ?_
  refine .last fun test => .last fun missing => ?_
  refine .ite ?lost ?present
  case lost =>
    refine .last fun consequent => noExpression_close fun span => ?_
    show (Statement.ifElse test consequent none span).expression? = none
    rfl
  case present =>
    refine .last fun _ => .last fun consequent => ?_
    refine .last fun alternate => noExpression_close fun span => ?_
    show (Statement.ifElse test consequent alternate span).expression?
      = none
    rfl

/-- A loop with its condition in front is no expression. -/
theorem noExpression_whileLoop :
    (whileLoop inner jumps).NoExpression := by
  unfold whileLoop
  refine .last fun first => .last fun _ => .last fun _ => ?_
  refine .last fun test => .last fun body => ?_
  refine noExpression_close fun span => ?_
  show (Statement.whileLoop test body span).expression? = none
  rfl

/-- A loop with its condition behind is no expression. -/
theorem noExpression_doWhileLoop :
    (doWhileLoop inner jumps).NoExpression := by
  unfold doWhileLoop
  refine .last fun first => .last fun _ => ?_
  refine .last fun body => .last fun _ => .last fun _ => ?_
  refine .last fun test => .last fun _ => ?_
  refine noExpression_close fun span => ?_
  show (Statement.doWhileLoop body test span).expression? = none
  rfl

/-- A loop with a head of three parts is no expression. -/
theorem noExpression_forLoop : (forLoop inner jumps).NoExpression := by
  unfold forLoop
  refine .last fun first => .last fun _ => .last fun _ => ?_
  refine .last fun init => .last fun test => .last fun _ => ?_
  refine .last fun update => .last fun body => ?_
  refine noExpression_close fun span => ?_
  show (Statement.forLoop init test update body span).expression? = none
  rfl

/-- A jump out of a loop is no expression. -/
theorem noExpression_breaking : (breaking jumps).NoExpression := by
  unfold breaking
  refine .last fun first => .last fun _ => ?_
  refine .last fun label => .last fun _ => ?_
  refine noExpression_close fun span => ?_
  show (Statement.breaking label span).expression? = none
  rfl

/-- A jump to the next round is no expression. -/
theorem noExpression_continuing : (continuing jumps).NoExpression := by
  unfold continuing
  refine .last fun first => .last fun _ => ?_
  refine .last fun label => .last fun _ => ?_
  refine noExpression_close fun span => ?_
  show (Statement.continuing label span).expression? = none
  rfl

/-- A return is no expression. -/
theorem noExpression_returning :
    (returning inner jumps).NoExpression := by
  unfold returning
  refine .last fun _ => .last fun first => .last fun _ => ?_
  refine .last fun argument => .last fun _ => ?_
  refine noExpression_close fun span => ?_
  show (Statement.returning argument span).expression? = none
  rfl

/-- A value that is thrown is no expression. After a line break there is
no statement at all. -/
theorem noExpression_throwing : (throwing inner).NoExpression := by
  unfold throwing
  refine .last fun first => .last fun _ => .last fun broken => ?_
  refine .ite (.of_fails fun _ _ _ => reject_ok) ?_
  refine .last fun argument => .last fun _ => ?_
  refine noExpression_close fun span => ?_
  show (Statement.throwing argument span).expression? = none
  rfl

/-- A semicolon alone is no expression. -/
theorem noExpression_emptyStatement : emptyStatement.NoExpression := by
  unfold emptyStatement
  refine .last fun first => .last fun _ => ?_
  refine noExpression_close fun span => ?_
  show (Statement.empty span).expression? = none
  rfl

/-- A call of the debugger is no expression. -/
theorem noExpression_debugger : debugger.NoExpression := by
  unfold debugger
  refine .last fun first => .last fun _ => .last fun _ => ?_
  refine noExpression_close fun span => ?_
  show (Statement.debugger span).expression? = none
  rfl

/-- A statement with a label is no expression. -/
theorem noExpression_labeled (start : Position)
    (label : Identifier Span) :
    (labeled inner jumps start label).NoExpression := by
  unfold labeled
  refine .last fun _ => .ite (.of_fails fun _ _ _ => reject_ok) ?_
  refine .last fun body => noExpression_close fun span => ?_
  show (Statement.labeled label body span).expression? = none
  rfl

end Other

end Parse

-- ======================================================= expressions

variable {inner : Productions} {jumps : Jumps} {s u : ParseState}
  {st : Statement Span} {e : Expression Span}

/-- An expression is read, and the end of a statement after it. -/
def ParseState.Expresses (inner : Productions) (s : ParseState)
    (e : Expression Span) (u : ParseState) : Prop :=
  ∃ v w, Parse.expression inner s = .ok e v ∧
    Parse.endStatement v = .ok () w ∧ w.Stays u

namespace Parse

/-- The end of a statement that is an expression comes behind it. -/
theorem expresses_of_end {start : Position} {e' : Expression Span}
    {v : ParseState} (hrun : expression inner s = .ok e' v)
    (h : expressionEnd start e' v = .ok st u)
    (he : st.expression? = some e) : s.Expresses inner e u := by
  obtain ⟨_, w, hend, h⟩ := bind_ok.1 h
  obtain ⟨_, w', hclose, h⟩ := bind_ok.1 h
  obtain ⟨rfl, rfl⟩ := pure_ok.1 h
  cases he
  exact ⟨v, w, hrun, hend, waits_close _ _ hclose⟩

/-- An expression as a statement is read as one. -/
theorem expresses_of_expressionStatement
    (h : expressionStatement inner s = .ok st u)
    (he : st.expression? = some e) : s.Expresses inner e u := by
  unfold expressionStatement at h
  rw [lookahead_bind] at h
  obtain ⟨e', v, hrun, h⟩ := bind_ok.1 h
  exact expresses_of_end hrun h he

/-- What is no statement with a label is read as an expression. -/
theorem expresses_of_labeledOrExpression
    (h : labeledOrExpression inner jumps s = .ok st u)
    (he : st.expression? = some e) : s.Expresses inner e u := by
  rw [labeledOrExpression_eq, lookahead_bind] at h
  obtain ⟨e', v, hrun, h⟩ := bind_ok.1 h
  rw [isAt_bind] at h
  generalize (if v.lookahead.isPunctuator ":" then e'.label? else none)
    = label? at h
  cases label? with
  | none => exact expresses_of_end hrun h he
  | some label =>
      rw [noExpression_labeled _ _ _ _ h] at he
      cases he

/-- Of the statements that a word begins, functions and expressions
aside, none is an expression. -/
theorem expresses_of_keywordStatement {word : String}
    (h : keywordStatement inner jumps word s = .ok st u)
    (he : st.expression? = some e) : s.Expresses inner e u := by
  have hother {p : Parse (Statement Span)} (hp : p.NoExpression)
      (h : p s = .ok st u) : s.Expresses inner e u := by
    rw [hp h] at he
    cases he
  unfold keywordStatement at h
  split at h
  · exact hother (noExpression_breaking jumps) h
  · exact hother (noExpression_continuing jumps) h
  · exact hother noExpression_debugger h
  · exact hother (noExpression_doWhileLoop inner jumps) h
  · exact hother (noExpression_forLoop inner jumps) h
  · exact hother (.map fun _ => rfl) h
  · exact hother (noExpression_ifElse inner jumps) h
  · exact expresses_of_labeledOrExpression h he
  · exact hother (noExpression_returning inner jumps) h
  · exact hother (noExpression_whileLoop inner jumps) h
  · exact expresses_of_expressionStatement h he

/-- To look for a declaration with `var` changes nothing. -/
theorem isAtVar_state {b : Bool} (h : isAtVar s = .ok b u) : u = s := by
  unfold isAtVar at h
  rw [lookahead_bind] at h
  split at h
  case isTrue => exact (bindingAhead_ok.1 h).1
  case isFalse => exact (pure_ok.1 h).2

/-- A statement that is an expression was read as one. It starts neither
with a semicolon nor as a declaration. -/
theorem expresses_of_statement (h : statement inner jumps s = .ok st u)
    (he : st.expression? = some e) :
    s.Expresses inner e u ∧ s.lookahead.isPunctuator ";" = false ∧
      isAtVar s = .ok false s := by
  have hother {p : Parse (Statement Span)} (hp : p.NoExpression)
      (h : p s = .ok st u) : False := by
    rw [hp h] at he
    cases he
  have hplain (hkind : s.lookahead.kind ≠ .identifier) :
      isAtVar s = .ok false s := by
    have hvar : s.lookahead.isIdentifier "var" = false := by
      simp [Token.isIdentifier, hkind]
    unfold isAtVar
    rw [lookahead_bind, hvar]
    rfl
  have hmark (hkind : s.lookahead.kind ≠ .punctuator) :
      s.lookahead.isPunctuator ";" = false := by
    simp [Token.isPunctuator, hkind]
  unfold statement at h
  rw [lookahead_bind] at h
  cases hkind : s.lookahead.kind <;> simp only [hkind] at h
  case boolean | null | numeric | string =>
    exact ⟨expresses_of_expressionStatement h he,
      hmark (by simp [hkind]), hplain (by simp [hkind])⟩
  case punctuator =>
    split at h
    case isTrue => exact (hother (.map fun _ => rfl) h).elim
    case isFalse =>
      split at h
      case isTrue => exact (hother noExpression_emptyStatement h).elim
      case isFalse hsemicolon =>
        exact ⟨expresses_of_expressionStatement h he,
          by simpa using hsemicolon, hplain (by simp [hkind])⟩
  case identifier =>
    obtain ⟨b, s₁, hvar, h⟩ := bind_ok.1 h
    obtain rfl := isAtVar_state hvar
    split at h
    case isTrue =>
      exact (hother (noExpression_declaration inner .var) h).elim
    case isFalse hno =>
      obtain rfl : b = false := by simpa using hno
      refine ⟨?_, hmark (by simp [hkind]), hvar⟩
      split at h
      case isTrue => exact (hother (noExpression_throwing inner) h).elim
      case isFalse => exact expresses_of_labeledOrExpression h he
  case keyword =>
    exact ⟨expresses_of_keywordStatement h he, hmark (by simp [hkind]),
      hplain (by simp [hkind])⟩
  case endOfInput => exact absurd h unexpected_ok

/-- What is known of the first tokens of an expression that is a
statement. -/
structure StartsExpression (s : ParseState) : Prop where
  semicolon : s.lookahead.isPunctuator ";" = false
  const : s.lookahead.isKeyword "const" = false
  letting : s.lookahead.isKeyword "let" = true →
    bindingAhead false s = .ok false s
  var : isAtVar s = .ok false s

/-- A statement that is an expression was read as one, and nothing else
starts like it. -/
theorem expresses_of_item (h : item inner jumps s = .ok st u)
    (he : st.expression? = some e) :
    s.Expresses inner e u ∧ StartsExpression s := by
  have hother {kind : DeclarationKind}
      (h : declaration inner kind s = .ok st u) : False := by
    rw [noExpression_declaration inner kind h] at he
    cases he
  unfold item at h
  rw [isAtWord_bind] at h
  split at h
  case isTrue => exact (hother h).elim
  case isFalse hconst =>
    rw [Bool.not_eq_true] at hconst
    rw [isAtWord_bind] at h
    split at h
    case isTrue =>
      obtain ⟨b, s₁, hahead, hrun⟩ := bind_ok.1 h
      obtain rfl := (bindingAhead_ok.1 hahead).1
      cases b with
      | true => exact (hother hrun).elim
      | false =>
          obtain ⟨hexpresses, hmark, hvar⟩ := expresses_of_statement hrun he
          exact ⟨hexpresses, hmark, hconst, fun _ => hahead, hvar⟩
    case isFalse hlet =>
      obtain ⟨hexpresses, hmark, hvar⟩ := expresses_of_statement h he
      exact ⟨hexpresses, hmark, hconst, fun hword => absurd hword hlet, hvar⟩

end Parse

end ScriptTree
