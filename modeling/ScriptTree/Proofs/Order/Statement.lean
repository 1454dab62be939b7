/-
The order of what statements record, and of what a report lists.

A statement may begin in a calm state. What it finds, it finds at the end
of what was consumed last, at the token that was just consumed, or at a
name to declare, which it consumes next. So the errors of a report are in
order, but for words in escapes (`inOrder_of_parse`).

# The exception

A word in escapes after a jump that belongs into a loop is listed before
that jump (`announces_before_jump`).
-/
import ScriptTree.Proofs.Order.Expression
import ScriptTree.Source.NameRanges

namespace ScriptTree

open ParseState

namespace Parse

variable {text : List Char} {inner : Productions}

-- ====================================================== declarations

/-- A settled state stays settled over the end of a statement. -/
theorem continues_endStatement [NameProperties] :
    endStatement.Continues text := by
  refine .lookahead fun _ => .ite clears_skip.continues ?_
  exact .afterLineBreak fun _ => .ite .pure
    (.ite continues_extendToLookahead carries_unexpected)

/-- The word `let` is found before it is consumed. -/
theorem carries_refuseLet [NameProperties] (kind : DeclarationKind) :
    Carries (Settled text) (refuseLet kind) (Covered text) := by
  intro s u s' hs h
  rw [refuseLet, lookahead_bind] at h
  split at h
  case isTrue =>
    obtain ⟨-, rfl⟩ := tolerate_ok.1 h
    exact hs.record_ahead
  case isFalse =>
    obtain ⟨-, rfl⟩ := pure_ok.1 h
    exact hs.toCalm.covered

/-- A settled state stays settled over the value of a declared name. -/
theorem continues_declaredValue [NameProperties] (h : inner.Ordered text)
    (kind : DeclarationKind) :
    (declaredValue inner kind).Continues text := by
  refine .isAt fun _ => .ite ?_ (.ite carries_reject .pure)
  exact clears_skip.continues.bind fun _ =>
    (clears_assignment h).continues.map

/-- A settled state stays settled over a declared name with its value. -/
theorem continues_declarator [NameProperties] (h : inner.Ordered text)
    (kind : DeclarationKind) : (declarator inner kind).Continues text := by
  refine .lookahead fun _ => (carries_refuseLet kind).bind fun _ =>
    (clears_boundName _).bind fun _ => ?_
  exact (continues_declaredValue h kind).bind fun _ =>
    continues_close.bind fun _ => .pure

/-- A settled state stays settled over one or more declared names. -/
theorem continues_declarators [NameProperties] (h : inner.Ordered text)
    (kind : DeclarationKind) : (declarators inner kind).Continues text := by
  refine (continues_declarator h kind).bind fun _ => ?_
  exact (carries_collectWhile carries_isAt (clears_skip.continues.bind
    fun _ => continues_declarator h kind) _).bind fun _ => .pure

/-- A covered state is settled after a declaration as a statement. -/
theorem clears_declaration [NameProperties] (h : inner.Ordered text)
    (kind : DeclarationKind) : (declaration inner kind).Clears text := by
  refine .lookahead fun _ => clears_skip.bind fun _ =>
    (continues_declarators h kind).bind fun _ => ?_
  exact continues_endStatement.bind fun _ => continues_close.bind
    fun _ => .pure

/-- The look for `var` changes nothing. -/
theorem carries_isAtVar {P : ParseState → Prop} :
    Carries P isAtVar P :=
  .lookahead fun _ => .ite .bindingAhead .pure

-- ================================================ conditions and loops

/-- A settled state stays settled over a body that is missing. -/
theorem continues_missingBody [NameProperties] : missingBody.Continues text :=
  .lookahead fun _ => continues_close.bind fun _ => .pure

/-- A settled state stays settled over a parenthesis that is missing. -/
theorem continues_missingParenthesis [NameProperties] :
    missingParenthesis.Continues text := by
  refine .isAt fun _ => .isTolerant fun _ => .ite .pure ?_
  intro s b s' hs h
  obtain ⟨t, s₁, hshift, h⟩ := bind_ok.1 h
  exact ((carries_objectTo (unexpected_ne_escapedReserved t)).bind
    fun _ => .pure) (hs.shift hshift) h

/-- A settled state stays settled over the body of a loop. -/
theorem continues_loopBody [NameProperties]
    (h : inner.Ordered text) (jumps : Jumps) :
    (loopBody inner jumps).Continues text :=
  continues_missingParenthesis.bind fun _ => .ite continues_missingBody
    (clears_expect.continues.bind fun _ => (h.statement _).goesOn)

/-- A settled state stays settled over the other branch, which may be
missing. -/
theorem continues_elseBranch [NameProperties]
    (h : inner.Ordered text) (jumps : Jumps) :
    (elseBranch inner jumps).Continues text :=
  .isAtWord fun _ => .ite (clears_skip.continues.bind
    fun _ => (h.statement _).goesOn.map) .pure

/-- The start of a statement with a condition in parentheses. -/
theorem clears_head [NameProperties] {α : Type} (h : inner.Ordered text)
    {f : Expression Span → Parse α} (hf : ∀ e, (f e).Continues text) :
    (skip >>= fun _ => expect "(" >>= fun _ => expression inner >>= f).Clears
      text :=
  clears_skip.bind fun _ => clears_expect.continues.bind fun _ =>
    (clears_expression h).continues.bind hf

/-- A covered state is settled after a statement under a condition. -/
theorem clears_ifElse [NameProperties]
    (h : inner.Ordered text) (jumps : Jumps) :
    (ifElse inner jumps).Clears text := by
  refine .lookahead fun _ => clears_head h fun _ =>
    continues_missingParenthesis.bind fun _ => .ite ?_ ?_
  · exact continues_missingBody.bind fun _ => continues_close.bind
      fun _ => .pure
  · refine clears_expect.continues.bind fun _ =>
      (h.statement _).goesOn.bind fun _ => ?_
    exact (continues_elseBranch h jumps).bind fun _ =>
      continues_close.bind fun _ => .pure

/-- A covered state is settled after a loop with its condition in front. -/
theorem clears_whileLoop [NameProperties]
    (h : inner.Ordered text) (jumps : Jumps) :
    (whileLoop inner jumps).Clears text :=
  .lookahead fun _ => clears_head h fun _ =>
    (continues_loopBody h jumps).bind fun _ => continues_close.bind
      fun _ => .pure

/-- A settled state stays settled over the end of a loop with its condition
behind. -/
theorem continues_loopEnd [NameProperties] : loopEnd.Continues text :=
  continues_missingParenthesis.bind fun _ => .ite .pure
    (clears_expect.continues.bind fun _ => .isAt fun _ =>
      .ite clears_skip.continues .pure)

/-- A covered state is settled after a loop with its condition behind. -/
theorem clears_doWhileLoop [NameProperties]
    (h : inner.Ordered text) (jumps : Jumps) :
    (doWhileLoop inner jumps).Clears text := by
  refine .lookahead fun _ => clears_skip.bind fun _ =>
    (h.statement _).goesOn.bind fun _ => ?_
  refine clears_expectWord.continues.bind fun _ =>
    clears_expect.continues.bind fun _ => ?_
  exact (clears_expression h).continues.bind fun _ =>
    continues_loopEnd.bind fun _ => continues_close.bind fun _ => .pure

/-- The look for a declaration changes nothing. -/
theorem carries_forKind {P : ParseState → Prop} : Carries P forKind P :=
  .isAtWord fun _ => .ite .pure (.isAtWord fun _ => .ite .pure
    (carries_isAtVar.bind fun _ => .ite .pure .pure))

/-- A settled state stays settled over the start of a loop head. -/
theorem continues_forStart [NameProperties] (h : inner.Ordered text) :
    (forStart inner).Continues text := by
  refine .lookahead fun _ => carries_forKind.bind fun kind => ?_
  cases kind with
  | none => exact (clears_expression h).continues.map
  | some kind =>
      exact clears_skip.continues.bind fun _ =>
        (continues_declarators h kind).bind fun _ => continues_close.bind
          fun _ => .pure

/-- A settled state stays settled over the start of a loop head, which may
be empty. -/
theorem continues_forInit [NameProperties] (h : inner.Ordered text) :
    (forInit inner).Continues text := by
  refine .isAt fun _ => .ite (clears_skip.continues.bind fun _ => .pure) ?_
  exact (continues_forStart h).bind fun _ => clears_expect.continues.bind
    fun _ => .pure

/-- A settled state stays settled over an expression that may be missing.
-/
theorem continues_optionalExpression [NameProperties] (h : inner.Ordered text)
    (stop : String) : (optionalExpression inner stop).Continues text :=
  .isAt fun _ => .ite .pure (clears_expression h).continues.map

/-- A covered state is settled after a loop with a head of three parts. -/
theorem clears_forLoop [NameProperties]
    (h : inner.Ordered text) (jumps : Jumps) :
    (forLoop inner jumps).Clears text := by
  refine .lookahead fun _ => clears_skip.bind fun _ =>
    clears_expect.continues.bind fun _ => (continues_forInit h).bind
      fun _ => ?_
  refine (continues_optionalExpression h _).bind fun _ =>
    clears_expect.continues.bind fun _ => ?_
  exact (continues_optionalExpression h _).bind fun _ =>
    (continues_loopBody h jumps).bind fun _ => continues_close.bind
      fun _ => .pure

-- ============================================================= jumps

/-- A label is found once it is consumed. -/
theorem continues_jumpLabel [NameProperties] (jumps : Jumps) :
    (jumpLabel jumps).Continues text := by
  refine .lookahead fun _ => .afterLineBreak fun _ => .ite .pure ?_
  intro s label s' hs h
  obtain ⟨id, s₁, hname, h⟩ := bind_ok.1 h
  obtain ⟨u, s₂, hrequire, h⟩ := bind_ok.1 h
  obtain ⟨t, hbehind, hstart⟩ := behind_boundName hs hname
  obtain ⟨-, rfl⟩ := pure_ok.1 h
  unfold requireLabel at hrequire
  split at hrequire
  case isTrue =>
    obtain ⟨-, rfl⟩ := pure_ok.1 hrequire
    exact hbehind.toSettled
  case isFalse =>
    obtain ⟨-, rfl⟩ := tolerate_ok.1 hrequire
    rw [hstart]
    exact hbehind.record rfl rfl nofun

/-- A settled state stays settled over the end of a jump. -/
theorem continues_endJump [NameProperties] {cause : Cause} (jumps : Jumps)
    (label : Option (Identifier Span)) (hcause : cause ≠ .escapedReserved) :
    (endJump jumps label cause).Continues text :=
  continues_endStatement.bind fun _ => .ite (continues_object hcause) .pure

/-- A jump that belongs into a loop is found after its end. -/
theorem clears_jump [NameProperties]
    {jumps : Jumps} {cause : Cause} {kind : NodeKind}
    {f : Option (Identifier Span) → Span → Statement Span}
    (hcause : cause ≠ .escapedReserved) :
    Clears text (do
      let first ← lookahead
      skip
      let label ← jumpLabel jumps
      endJump jumps label cause
      let span ← close kind first.span.start
      return f label span) := by
  refine .lookahead fun _ => clears_skip.bind fun _ =>
    (continues_jumpLabel jumps).bind fun _ => ?_
  exact (continues_endJump jumps _ hcause).bind fun _ =>
    continues_close.bind fun _ => .pure

/-- A covered state is settled after a jump out of a loop. -/
theorem clears_breaking [NameProperties] (jumps : Jumps) :
    (breaking jumps).Clears text := clears_jump nofun

/-- A covered state is settled after a jump to the next round. -/
theorem clears_continuing [NameProperties] (jumps : Jumps) :
    (continuing jumps).Clears text := clears_jump nofun

/-- A settled state stays settled over the value to return, which may be
missing. -/
theorem continues_returnValue [NameProperties] (h : inner.Ordered text) :
    (returnValue inner).Continues text := by
  have hhas : Carries (Settled text) hasReturnValue (Settled text) :=
    .lookahead fun _ => .afterLineBreak fun _ => .pure
  exact hhas.bind fun _ => .ite (clears_expression h).continues.map .pure

/-- A `return` outside of functions is found before it is consumed, at
the end of what was consumed last. -/
theorem begins_returning [NameProperties]
    (h : inner.Ordered text) (jumps : Jumps) :
    (returning inner jumps).Begins text := by
  have hrequire : Carries (Calm text) (requireFunction jumps) (Calm text) :=
    .ite .pure (begins_object nofun)
  refine hrequire.bind fun _ => .lookahead fun _ =>
    clears_skip.begins.bind fun _ => (continues_returnValue h).bind
      fun _ => ?_
  exact continues_endStatement.bind fun _ => continues_close.bind
    fun _ => .pure

/-- A covered state is settled after a value that is thrown. -/
theorem clears_throwing [NameProperties] (h : inner.Ordered text) :
    (throwing inner).Clears text := by
  refine .lookahead fun _ => clears_skip.bind fun _ =>
    .afterLineBreak fun _ => .ite carries_reject ?_
  exact (clears_expression h).continues.bind fun _ =>
    continues_endStatement.bind fun _ => continues_close.bind fun _ => .pure

-- ==================================================== other statements

/-- A covered state is settled after statements in braces. -/
theorem clears_block [NameProperties]
    (h : inner.Ordered text) (jumps : Jumps) :
    (block inner jumps).Clears text := by
  refine .lookahead fun _ => clears_skip.bind fun _ => ?_
  refine (carries_collectWhile (carries_isAt.bind fun _ => .pure)
    (h.item jumps).goesOn _).bind fun _ => ?_
  exact clears_expect.continues.bind fun _ => continues_close.bind
    fun _ => .pure

/-- A covered state is settled after a semicolon alone. -/
theorem clears_emptyStatement [NameProperties] : emptyStatement.Clears text :=
  .lookahead fun _ => clears_skip.bind fun _ => continues_close.bind
    fun _ => .pure

/-- A covered state is settled after a call of the debugger. -/
theorem clears_debugger [NameProperties] : debugger.Clears text :=
  .lookahead fun _ => clears_skip.bind fun _ =>
    continues_endStatement.bind fun _ => continues_close.bind fun _ => .pure

/-- A settled state stays settled over the end of a statement that is an
expression. -/
theorem continues_expressionEnd [NameProperties] (start : Position)
    (e : Expression Span) : (expressionEnd start e).Continues text :=
  continues_endStatement.bind fun _ => continues_close.bind fun _ => .pure

/-- A covered state is settled after an expression as a statement. -/
theorem clears_expressionStatement [NameProperties] (h : inner.Ordered text) :
    (expressionStatement inner).Clears text :=
  .lookahead fun _ => (clears_expression h).bind fun _ =>
    continues_expressionEnd _ _

/-- A settled state stays settled over a statement with a label. -/
theorem continues_labeled [NameProperties]
    (h : inner.Ordered text) (jumps : Jumps)
    (start : Position) (label : Identifier Span) :
    (labeled inner jumps start label).Continues text := by
  refine clears_skip.continues.bind fun _ => .ite carries_reject ?_
  exact (h.statement _).goesOn.bind fun _ => continues_close.bind
    fun _ => .pure

/-- A covered state is settled after a statement with a label, or an
expression. -/
theorem clears_labeledOrExpression [NameProperties] (h : inner.Ordered text)
    (jumps : Jumps) : (labeledOrExpression inner jumps).Clears text := by
  refine .lookahead fun _ => (clears_expression h).bind fun e =>
    .isAt fun b => ?_
  split
  case h_1 => exact continues_labeled h jumps _ _
  case h_2 => exact continues_expressionEnd _ _

-- ========================================================= the choice

/-- A calm state is settled after a statement that a word begins. -/
theorem begins_keywordStatement [NameProperties]
    (h : inner.Ordered text) (jumps : Jumps)
    (word : String) : (keywordStatement inner jumps word).Begins text := by
  unfold keywordStatement
  split
  case h_1 => exact (clears_breaking jumps).begins
  case h_2 => exact (clears_continuing jumps).begins
  case h_3 => exact clears_debugger.begins
  case h_4 => exact (clears_doWhileLoop h jumps).begins
  case h_5 => exact (clears_forLoop h jumps).begins
  case h_6 => exact (clears_functionDeclaration h).begins.map
  case h_7 => exact (clears_ifElse h jumps).begins
  case h_8 => exact (clears_labeledOrExpression h jumps).begins
  case h_9 => exact begins_returning h jumps
  case h_10 => exact (clears_whileLoop h jumps).begins
  case h_11 => exact (clears_expressionStatement h).begins

/-- A calm state is settled after a statement. -/
theorem begins_statement [NameProperties]
    (h : inner.Ordered text) (jumps : Jumps) :
    (statement inner jumps).Begins text := by
  refine .lookahead fun t => ?_
  cases t.kind with
  | boolean | null | numeric | string =>
      exact (clears_expressionStatement h).begins
  | punctuator =>
      exact .ite (clears_block h jumps).begins.map (.ite
        clears_emptyStatement.begins (clears_expressionStatement h).begins)
  | identifier =>
      exact carries_isAtVar.bind fun _ => .ite
        (clears_declaration h _).begins (.ite (clears_throwing h).begins
          (clears_labeledOrExpression h jumps).begins)
  | keyword => exact begins_keywordStatement h jumps _
  | endOfInput => exact carries_unexpected

/-- A calm state is settled after a statement, or a function. -/
theorem begins_item [NameProperties] (h : inner.Ordered text) (jumps : Jumps) :
    (item inner jumps).Begins text := by
  refine .isAtWord fun _ => .ite (clears_declaration h _).begins
    (.isAtWord fun _ => .ite ?_ (begins_statement h jumps))
  exact Carries.bindingAhead.bind fun _ => .ite
    (clears_declaration h _).begins (begins_statement h jumps)

end Parse

-- ============================================================== scripts

open Parse

/-- All productions settle what they should, by induction on the depth. -/
theorem Productions.ordered_ofDepth [NameProperties]
    (text : List Char) (depth : Nat) : (ofDepth depth).Ordered text := by
  induction depth with
  | zero => exact ⟨carries_exhausted, carries_exhausted,
      carries_exhausted, fun _ => carries_exhausted,
      fun _ => carries_exhausted⟩
  | succ depth ih => exact ⟨clears_assignment ih, clears_unary ih,
      clears_power ih, begins_statement ih, begins_item ih⟩

variable {text : List Char}

/-- A script logs what it records in the order of the text. -/
theorem Parse.carries_scriptBody [NameProperties]
    (depth : Nat) (start : Position) :
    Carries (Calm text) (scriptBody (.ofDepth depth) start)
      (Logged text) := by
  have hitem : Carries (Calm text)
      ((Productions.ofDepth depth).item .ofScript) (Calm text) :=
    fun _ _ _ hs h =>
      (((Productions.ordered_ofDepth text depth).item _) hs h).toCalm
  refine (carries_collectWhile (.lookahead fun _ => .pure) hitem _).bind
    fun _ => .bind ?_ fun _ => .pure
  intro s span s' hs h
  obtain ⟨-, rfl⟩ := close_ok.1 h
  exact hs.toLogged.of_events _

/-- Only the first token of a script can be recorded at its start. -/
theorem ParseState.recorded_of_skip [NameProperties]
    {tolerant : Bool} {s : ParseState}
    (h : skip (ofText text tolerant) = .ok () s) :
    s.log.recorded = [] ∨ s.log.recorded
      = [s.lookahead.span.start.diagnose .escapedReserved] :=
  (recorded_of_shift_cases (skip_ok.1 h)).imp_right And.right

/-- A script starts out calm. -/
theorem ParseState.calm_of_skip [NameProperties]
    {tolerant : Bool} {s : ParseState}
    (h : skip (ofText text tolerant) = .ok () s) :
    Calm text { s with last := s.lookahead.span.stop } where
  traced := Traced.of_skip h
  holds := (Holds.of_skip h).of_eq rfl rfl rfl rfl
  ordered := by
    rcases recorded_of_skip h with hnone | hfirst
    · rw [hnone]
      exact .nil
    · rw [hfirst]
      exact List.pairwise_singleton _ _
  found d hd := by
    left
    rcases recorded_of_skip h with hnone | hfirst
    · rw [hnone] at hd
      cases hd
    · rw [hfirst] at hd
      rw [List.mem_singleton.1 hd]
      exact (Traced.of_skip h).start_line_le

/-- The errors of every tolerant report are in the order of their lines,
except that a word in escapes is listed before what is found at the token
in front of it. -/
theorem inOrder_of_parse [NameProperties]
    (options : Options) (text : List Char)
    (report : Report) (htolerant : options.tolerant = true)
    (h : parse options text = .ok report) :
    ∃ errors, report.errors = some errors ∧
      errors.Pairwise (Diagnostic.InOrder text) := by
  obtain ⟨script, s, hs, rfl⟩ := parse_ok.1 h
  refine ⟨s.log.recorded, by
    simp [Options.report, optionally, htolerant], ?_⟩
  rcases shift_cases (.ofText text options.tolerant) with ⟨u, hu⟩ | ⟨d, hd⟩
  · have hskip : skip _ = .ok () u := skip_ok.2 hu
    rw [script_of_skip hskip] at hs
    exact (carries_scriptBody _ _ (calm_of_skip hskip) hs).ordered
  · rw [script_of_refused hd] at hs
    cases hs

/-- Five errors, of which the word in escapes is one line early. -/
theorem inOrder_of_parse_mixed :
    let text :=
      "return 1\n1 = 2\nbreak\ntru\\u0065\ncontinue x".toList
    ∃ report errors, parse .tolerating text = .ok report ∧
      report.errors = some errors ∧
      errors.Pairwise (Diagnostic.InOrder text) ∧
      errors.map (·.line) = [1, 2, 4, 3, 5] := by
  intro text
  have hshown : (parse .tolerating text).toOption.map
      (·.errors.map (·.map (·.line))) = some (some [1, 2, 4, 3, 5]) := by
    decide +kernel
  obtain ⟨report, h, hlines⟩ := exists_report hshown
  obtain ⟨errors, herrors, horder⟩ :=
    inOrder_of_parse .tolerating text report rfl h
  rw [herrors] at hlines
  exact ⟨report, errors, h, herrors, horder, Option.some.inj hlines⟩

/-- A jump that belongs into a loop is listed after the word in escapes
on the next line. -/
theorem announces_before_jump :
    ¬∀ (options : Options) (text : List Char) (report : Report)
        (errors : List Diagnostic), options.tolerant = true →
      parse options text = .ok report → report.errors = some errors →
      errors.Pairwise (·.line ≤ ·.line) := by
  intro hall
  let text := "break\ntru\\u0065".toList
  have hshown : (parse .tolerating text).toOption.map
      (·.errors.map (·.map (·.line))) = some (some [2, 1]) := by
    decide +kernel
  obtain ⟨report, h, hlines⟩ := exists_report hshown
  obtain ⟨errors, herrors, hlines⟩ := Option.map_eq_some_iff.1 hlines
  have hsorted : (errors.map (·.line)).Pairwise (· ≤ ·) :=
    List.pairwise_map.2 (hall .tolerating text report errors rfl h herrors)
  rw [hlines] at hsorted
  exact absurd hsorted (by decide)

end ScriptTree
