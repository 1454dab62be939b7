/-
The faults of statements.

A statement records the faults of the tree that it gives, if the jumps
that are handed down to it are those of what is around (`Jumps.Within`).
A jump records its own fault before those of its value, and a label that
is declared again has no success to speak of.
-/
import ScriptTree.Proofs.Fault.Expression

namespace ScriptTree

namespace Parse

variable {inner : Productions} {jumps : Jumps} {around : List Enclosure}

-- ================================================= without any fault

/-- There is no fault in the end of a statement. -/
theorem faultless_endStatement : endStatement.Faultless := by
  refine faultless_lookahead.bind fun t => .ite faultless_skip ?_
  refine faultless_afterLineBreak.bind fun _ => .ite (.pure ()) ?_
  refine .ite ?_ (.unexpected t)
  exact faultless_lookahead.bind fun _ => faultless_standAt _

/-- There is no fault in the refusal of `let` as a name. -/
theorem faultless_refuseLet (kind : DeclarationKind) :
    (refuseLet kind).Faultless :=
  faultless_lookahead.bind fun _ => .ite
    (faultless_objectTo (by decide)) (.pure ())

/-- There is no fault in the look for `var`. -/
theorem faultless_isAtVar : isAtVar.Faultless :=
  faultless_lookahead.bind fun _ => .ite
    (faultless_bindingAhead true) (.pure false)

/-- There is no fault in the look for a declaration in a loop head. -/
theorem faultless_forKind : forKind.Faultless :=
  (faultless_isAtWord "const").bind fun _ => .ite (.pure _)
    ((faultless_isAtWord "let").bind fun _ => .ite (.pure _)
      (faultless_isAtVar.bind fun _ => .ite (.pure _) (.pure _)))

/-- There is no fault in a parenthesis that is missing. -/
theorem faultless_missingParenthesis : missingParenthesis.Faultless := by
  refine (faultless_isAt ")").bind fun _ => ?_
  refine faultless_isTolerant.bind fun _ => .ite (.pure false) ?_
  refine faultless_shift.bind fun t => ?_
  exact (faultless_objectTo (isFaultText_unexpected t)).bind fun _ =>
    .pure true

/-- There is no fault in the end of a loop with its condition behind. -/
theorem faultless_loopEnd : loopEnd.Faultless :=
  faultless_missingParenthesis.bind fun _ => .ite (.pure ())
    ((faultless_expect ")").bind fun _ =>
      (faultless_isAt ";").bind fun _ => .ite faultless_skip (.pure ()))

/-- There is no fault in the look for a value to return. -/
theorem faultless_hasReturnValue : hasReturnValue.Faultless :=
  faultless_lookahead.bind fun _ =>
    faultless_afterLineBreak.bind fun _ => .pure _

-- ====================================================== declarations

variable (around)

/-- The faults in the value of a declared name. -/
theorem records_declaredValue (h : inner.Records)
    (kind : DeclarationKind) :
    (declaredValue inner kind).Records
      (faultsOf <| Expression.sitesOption around ·) := by
  refine .silent (faultless_isAt "=") fun _ => .ite (fun _ => ?_) fun _ => ?_
  · exact .silent faultless_skip fun _ =>
      (records_assignment around h).map fun _ => rfl
  · exact .ite (fun _ => .of_fails fun _ _ _ => reject_ok) fun _ => .pure rfl

/-- The faults in a declared name with its value. -/
theorem records_declarator (h : inner.Records) (kind : DeclarationKind) :
    (declarator inner kind).Records (faultsOf <| ·.sites around) := by
  refine .silent faultless_lookahead fun first => ?_
  refine .silent (faultless_refuseLet kind) fun _ => ?_
  refine .silent (faultless_boundName _) fun id => ?_
  refine .next (records_declaredValue around h kind) fun init => ?_
  exact .silent (faultless_close _ _) fun span => .pure rfl

/-- The faults in one or more declared names. -/
theorem records_declarators (h : inner.Records) (kind : DeclarationKind) :
    (declarators inner kind).Records
      (List.flatMap (faultsOf <| ·.sites around)) := by
  refine .next (records_declarator around h kind) fun first => ?_
  refine .next (records_collectWhile (faultless_isAt ",")
    (.silent faultless_skip fun _ => records_declarator around h kind) _)
    fun further => .pure rfl

/-- The faults in a declaration as a statement. -/
theorem records_declaration (h : inner.Records) (kind : DeclarationKind) :
    (declaration inner kind).Records (faultsOf <| ·.sites around) := by
  refine .silent faultless_lookahead fun first => ?_
  refine .silent faultless_skip fun _ => ?_
  refine .next (records_declarators around h kind) fun declared => ?_
  refine .silent faultless_endStatement fun _ => ?_
  exact .silent (faultless_close _ _) fun span => .pure (by simp)

-- ============================================= conditions and loops

/-- The faults in a body that is missing. -/
theorem records_missingBody :
    missingBody.Records (faultsOf <| ·.sites around) :=
  .silent faultless_lookahead fun _ => .silent (faultless_close _ _)
    fun _ => .pure rfl

variable {around}

/-- The faults in the body of a loop. -/
theorem records_loopBody (h : inner.Records) (hj : jumps.Within around) :
    (loopBody inner jumps).Records
      (faultsOf <| ·.sites (.loop :: around)) := by
  refine .silent faultless_missingParenthesis fun _ => .ite (fun _ => ?_)
    fun _ => ?_
  · exact records_missingBody _
  · exact .silent (faultless_expect ")") fun _ => h.statement hj.loop

/-- The faults in the other branch, which may be missing. -/
theorem records_elseBranch (h : inner.Records) (hj : jumps.Within around) :
    (elseBranch inner jumps).Records
      (faultsOf <| Statement.sitesOption around ·) :=
  .silent (faultless_isAtWord "else") fun _ => .ite
    (fun _ => .silent faultless_skip fun _ =>
      (h.statement hj).map fun _ => rfl)
    fun _ => .pure rfl

/-- The faults in a statement under a condition. -/
theorem records_ifElse (h : inner.Records) (hj : jumps.Within around) :
    (ifElse inner jumps).Records (faultsOf <| ·.sites around) := by
  refine .silent faultless_lookahead fun first => ?_
  refine .silent faultless_skip fun _ => ?_
  refine .silent (faultless_expect "(") fun _ => ?_
  refine .next (records_expression around h) fun test => ?_
  refine .silent faultless_missingParenthesis fun _ => .ite (fun _ => ?_)
    fun _ => ?_
  · refine .next (records_missingBody around) fun consequent => ?_
    exact .silent (faultless_close _ _) fun span => .pure (by simp)
  · refine .silent (faultless_expect ")") fun _ => ?_
    refine .next (h.statement hj) fun consequent => ?_
    refine .next (records_elseBranch h hj) fun alternate => ?_
    exact .silent (faultless_close _ _) fun span => .pure (by simp)

/-- The faults in a loop with its condition in front. -/
theorem records_whileLoop (h : inner.Records) (hj : jumps.Within around) :
    (whileLoop inner jumps).Records (faultsOf <| ·.sites around) := by
  refine .silent faultless_lookahead fun first => ?_
  refine .silent faultless_skip fun _ => ?_
  refine .silent (faultless_expect "(") fun _ => ?_
  refine .next (records_expression around h) fun test => ?_
  refine .next (records_loopBody h hj) fun body => ?_
  exact .silent (faultless_close _ _) fun span => .pure (by simp)

/-- The faults in a loop with its condition behind. -/
theorem records_doWhileLoop (h : inner.Records)
    (hj : jumps.Within around) :
    (doWhileLoop inner jumps).Records (faultsOf <| ·.sites around) := by
  refine .silent faultless_lookahead fun first => ?_
  refine .silent faultless_skip fun _ => ?_
  refine .next (h.statement hj.loop) fun body => ?_
  refine .silent (faultless_expectWord "while") fun _ => ?_
  refine .silent (faultless_expect "(") fun _ => ?_
  refine .next (records_expression around h) fun test => ?_
  refine .silent faultless_loopEnd fun _ => ?_
  exact .silent (faultless_close _ _) fun span => .pure (by simp)

/-- The faults in the start of a loop head. -/
theorem records_forStart (h : inner.Records) (around : List Enclosure) :
    (forStart inner).Records (faultsOf <| ·.sites around) := by
  refine .silent faultless_lookahead fun first => ?_
  refine .silent faultless_forKind fun kind => ?_
  cases kind with
  | some kind =>
      refine .silent faultless_skip fun _ => ?_
      refine .next (records_declarators around h kind) fun declared => ?_
      exact .silent (faultless_close _ _) fun span => .pure (by simp)
  | none => exact (records_expression around h).map fun _ => rfl

/-- The faults in the start of a loop head, which may be empty. -/
theorem records_forInit (h : inner.Records) (around : List Enclosure) :
    (forInit inner).Records
      (faultsOf <| ForInit.sitesOption around ·) := by
  refine .silent (faultless_isAt ";") fun _ => .ite (fun _ => ?_)
    fun _ => ?_
  · exact .silent faultless_skip fun _ => .pure rfl
  · refine .next (records_forStart h around) fun init => ?_
    exact .silent (faultless_expect ";") fun _ => .pure rfl

/-- The faults in an expression that may be missing. -/
theorem records_optionalExpression (h : inner.Records) (stop : String)
    (around : List Enclosure) :
    (optionalExpression inner stop).Records
      (faultsOf <| Expression.sitesOption around ·) :=
  .silent (faultless_isAt stop) fun _ => .ite (fun _ => .pure rfl)
    fun _ => (records_expression around h).map fun _ => rfl

/-- The faults in a loop with a head of three parts. -/
theorem records_forLoop (h : inner.Records) (hj : jumps.Within around) :
    (forLoop inner jumps).Records (faultsOf <| ·.sites around) := by
  refine .silent faultless_lookahead fun first => ?_
  refine .silent faultless_skip fun _ => ?_
  refine .silent (faultless_expect "(") fun _ => ?_
  refine .next (records_forInit h around) fun init => ?_
  refine .next (records_optionalExpression h ";" around) fun test => ?_
  refine .silent (faultless_expect ";") fun _ => ?_
  refine .next (records_optionalExpression h ")" around) fun update => ?_
  refine .next (records_loopBody h hj) fun body => ?_
  exact .silent (faultless_close _ _) fun span => .pure (by simp)

-- ============================================================ jumps

/-- What is there unless a condition holds. -/
theorem toList_ite {α : Type} (c : Prop) [Decidable c] (a : α) :
    (if c then none else some a : Option α).toList
      = if c then [] else [a] := by
  split
  · rfl
  · rfl

/-- The faults of a jump with the given label, or with none, for which
there is the given text. -/
def jumpFaults (around : List Enclosure) (text : String) :
    Option (Identifier Span) → List String
  | none => if .loop ∈ ownFunction around then [] else [text]
  | some id =>
    if .label id.name ∈ ownFunction around then []
    else ["Undefined label '" ++ id.name ++ "'"]

/-- A label is objected to where it is read. -/
theorem records_jumpLabel (hj : jumps.Within around) (text : String) :
    (jumpLabel jumps).Records fun label =>
      if label.isNone then [] else jumpFaults around text label := by
  refine .silent faultless_lookahead fun t => ?_
  refine .silent faultless_afterLineBreak fun newLine => ?_
  refine .ite (fun _ => .pure rfl) fun _ => ?_
  refine .silent (faultless_boundName false) fun id => ?_
  have hlabel : (requireLabel jumps id).Records fun _ =>
      jumpFaults around text (some id) := by
    refine .ite (fun hin => .pure ?_) fun hout => ?_
    · rw [jumpFaults, if_pos ((hj.labels id.name).1 hin)]
    · rw [jumpFaults, if_neg (mt (hj.labels id.name).2 hout),
        ← description_unknownLabel]
      apply records_tolerate
      rw [Diagnostic.description, Position.diagnose,
        description_unknownLabel, isFaultText, isJumpText_unknownLabel,
        Bool.or_true]
  exact .next hlabel fun _ => .pure rfl

/-- A jump without a label is objected to where it ends. -/
theorem records_endJump (hj : jumps.Within around)
    (label : Option (Identifier Span)) {cause : Cause}
    (hc : isFaultText cause.description = true) :
    (endJump jumps label cause).Records fun _ =>
      if label.isNone then jumpFaults around cause.description label
      else [] := by
  refine .silent faultless_endStatement fun _ => ?_
  cases label with
  | some id => exact .pure rfl
  | none =>
      by_cases hloop : jumps.inLoop = true
      · have hin := hj.inLoop.1 hloop
        rw [hloop]
        exact .pure (by simp [jumpFaults, hin])
      · have hout := mt hj.inLoop.2 hloop
        rw [Bool.not_eq_true] at hloop
        rw [hloop]
        simp only [Option.isNone_none, if_true, jumpFaults, if_neg hout]
        exact records_object hc

/-- Of the two objections to a jump one is possible, and it is the fault
of the jump. -/
theorem records_jump {α : Type} {w : α → List String}
    (hj : jumps.Within around) {cause : Cause}
    (hc : isFaultText cause.description = true)
    {next : Option (Identifier Span) → Parse α}
    (hnext : ∀ label, (next label).RecordsAt
      (jumpFaults around cause.description label) w) :
    (do
      let label ← jumpLabel jumps
      endJump jumps label cause
      next label : Parse α).Records w := by
  refine .next (records_jumpLabel hj cause.description) fun label => ?_
  refine .next (records_endJump hj label hc) fun _ => ?_
  have hone : (if label.isNone then []
        else jumpFaults around cause.description label)
      ++ (if label.isNone then jumpFaults around cause.description label
        else [])
      = jumpFaults around cause.description label := by
    cases label with
    | none => rfl
    | some id => exact List.append_nil _
  rw [List.nil_append, hone]
  exact hnext label

/-- The faults of a jump out of a loop. -/
theorem faultsOf_breaking (label : Option (Identifier Span)) :
    faultsOf [⟨.breaking (label.map (·.name)), around⟩]
      = jumpFaults around Cause.illegalBreak.description label := by
  rw [faultsOf_cons, faultsOf_nil, List.append_nil]
  cases label with
  | none => exact toList_ite _ _
  | some id => exact toList_ite _ _

/-- The faults of a jump to the next round. -/
theorem faultsOf_continuing (label : Option (Identifier Span)) :
    faultsOf [⟨.continuing (label.map (·.name)), around⟩]
      = jumpFaults around Cause.illegalContinue.description label := by
  rw [faultsOf_cons, faultsOf_nil, List.append_nil]
  cases label with
  | none => exact toList_ite _ _
  | some id => exact toList_ite _ _

/-- The faults in a jump out of a loop. -/
theorem records_breaking (hj : jumps.Within around) :
    (breaking jumps).Records (faultsOf <| ·.sites around) := by
  refine .silent faultless_lookahead fun first => ?_
  refine .silent faultless_skip fun _ => ?_
  refine records_jump hj (by decide) fun label => ?_
  exact .silent (faultless_close _ _) fun span =>
    .pure (faultsOf_breaking label)

/-- The faults in a jump to the next round. -/
theorem records_continuing (hj : jumps.Within around) :
    (continuing jumps).Records (faultsOf <| ·.sites around) := by
  refine .silent faultless_lookahead fun first => ?_
  refine .silent faultless_skip fun _ => ?_
  refine records_jump hj (by decide) fun label => ?_
  exact .silent (faultless_close _ _) fun span =>
    .pure (faultsOf_continuing label)

/-- The faults in the test of a return. -/
theorem records_requireFunction (hj : jumps.Within around) :
    (requireFunction jumps).Records fun _ =>
      faultsOf [⟨.returning, around⟩] := by
  have hfault : faultsOf [⟨.returning, around⟩]
      = if .function ∈ around then []
        else [Cause.illegalReturn.description] := by
    rw [faultsOf_cons, faultsOf_nil, List.append_nil]
    exact toList_ite _ _
  rw [hfault]
  refine .ite (fun hin => .pure (if_pos (hj.inFunction.1 hin)))
    fun hout => ?_
  rw [if_neg (mt hj.inFunction.2 hout)]
  exact records_object (by decide)

/-- The faults in the value to return, which may be missing. -/
theorem records_returnValue (h : inner.Records)
    (around : List Enclosure) :
    (returnValue inner).Records
      (faultsOf <| Expression.sitesOption around ·) :=
  .silent faultless_hasReturnValue fun _ => .ite
    (fun _ => (records_expression around h).map fun _ => rfl)
    fun _ => .pure rfl

/-- The faults in a return. -/
theorem records_returning (h : inner.Records)
    (hj : jumps.Within around) :
    (returning inner jumps).Records (faultsOf <| ·.sites around) := by
  refine .next (records_requireFunction hj) fun _ => ?_
  refine .silent faultless_lookahead fun first => ?_
  refine .silent faultless_skip fun _ => ?_
  refine .next (records_returnValue h around) fun argument => ?_
  refine .silent faultless_endStatement fun _ => ?_
  exact .silent (faultless_close _ _) fun span => .pure (by simp)

/-- The faults in a value that is thrown. -/
theorem records_throwing (h : inner.Records) (around : List Enclosure) :
    (throwing inner).Records (faultsOf <| ·.sites around) := by
  refine .silent faultless_lookahead fun first => ?_
  refine .silent faultless_skip fun _ => ?_
  refine .silent faultless_afterLineBreak fun _ => .ite (fun _ =>
    .of_fails fun _ _ _ => reject_ok) fun _ => ?_
  refine .next (records_expression around h) fun argument => ?_
  refine .silent faultless_endStatement fun _ => ?_
  exact .silent (faultless_close _ _) fun span => .pure (by simp)

-- ================================================ other statements

/-- The faults in statements in braces. -/
theorem records_block (h : inner.Records) (hj : jumps.Within around) :
    (block inner jumps).Records (faultsOf <| ·.sites around) := by
  refine .silent faultless_lookahead fun first => ?_
  refine .silent faultless_skip fun _ => ?_
  have hmore : (do return !(← isAt "\x7d") : Parse Bool).Faultless :=
    (faultless_isAt _).bind fun _ => .pure _
  refine .next (records_collectWhile hmore (h.item hj) _) fun body => ?_
  refine .silent (faultless_expect "\x7d") fun _ => ?_
  exact .silent (faultless_close _ _) fun span => .pure (by simp)

/-- The faults in a semicolon alone. -/
theorem records_emptyStatement (around : List Enclosure) :
    emptyStatement.Records (faultsOf <| ·.sites around) :=
  .silent faultless_lookahead fun _ => .silent faultless_skip fun _ =>
    .silent (faultless_close _ _) fun _ => .pure rfl

/-- The faults in a call of the debugger. -/
theorem records_debugger (around : List Enclosure) :
    debugger.Records (faultsOf <| ·.sites around) :=
  .silent faultless_lookahead fun _ => .silent faultless_skip fun _ =>
    .silent faultless_endStatement fun _ =>
      .silent (faultless_close _ _) fun _ => .pure rfl

/-- The faults in the end of a statement that is an expression. -/
theorem records_expressionEnd (start : Position) (e : Expression Span)
    (around : List Enclosure) :
    (expressionEnd start e).RecordsAt (faultsOf (e.sites around))
      (faultsOf <| ·.sites around) :=
  .silent faultless_endStatement fun _ =>
    .silent (faultless_close _ _) fun _ => .pure rfl

/-- The faults in an expression as a statement. -/
theorem records_expressionStatement (h : inner.Records)
    (around : List Enclosure) :
    (expressionStatement inner).Records (faultsOf <| ·.sites around) :=
  .silent faultless_lookahead fun _ =>
    (records_expression around h).bind fun e =>
      records_expressionEnd _ e around

/-- A label that gets by is not one of those around. -/
theorem records_labeled (h : inner.Records) (hj : jumps.Within around)
    (start : Position) (label : Identifier Span) :
    (labeled inner jumps start label).Records
      (faultsOf <| ·.sites around) := by
  refine .silent faultless_skip fun _ => .ite (fun _ =>
    .of_fails fun _ _ _ => reject_ok) fun hout => ?_
  refine .next (h.statement (hj.label label.name)) fun body => ?_
  refine .silent (faultless_close _ _) fun span => .pure ?_
  have hnew := mt (hj.labels label.name).2 hout
  simp [Site.fault?, Site.redeclares, hnew]

/-- The faults in a statement with a label, or an expression. -/
theorem records_labeledOrExpression (h : inner.Records)
    (hj : jumps.Within around) :
    (labeledOrExpression inner jumps).Records
      (faultsOf <| ·.sites around) := by
  refine .silent faultless_lookahead fun first => ?_
  refine .bind (records_expression around h) fun e => ?_
  refine .silent (faultless_isAt ":") fun atColon => ?_
  split
  case h_1 label => exact records_labeled h hj _ label
  case h_2 => exact records_expressionEnd _ e around

-- ======================================================= the choice

/-- The faults in a statement that a word begins. -/
theorem records_keywordStatement (h : inner.Records)
    (hj : jumps.Within around) (word : String) :
    (keywordStatement inner jumps word).Records
      (faultsOf <| ·.sites around) := by
  unfold keywordStatement
  split
  · exact records_breaking hj
  · exact records_continuing hj
  · exact records_debugger around
  · exact records_doWhileLoop h hj
  · exact records_forLoop h hj
  · exact (records_functionDeclaration around h).map fun _ => rfl
  · exact records_ifElse h hj
  · exact records_labeledOrExpression h hj
  · exact records_returning h hj
  · exact records_whileLoop h hj
  · exact records_expressionStatement h around

/-- The faults in a statement. -/
theorem records_statement (h : inner.Records)
    (hj : jumps.Within around) :
    (statement inner jumps).Records (faultsOf <| ·.sites around) := by
  refine .silent faultless_lookahead fun t => ?_
  have hexpression := records_expressionStatement h around
  cases t.kind with
  | boolean | null | numeric | string => exact hexpression
  | endOfInput => exact .of_fails fun _ _ _ => unexpected_ok
  | keyword => exact records_keywordStatement h hj _
  | punctuator =>
      refine .ite (fun _ => ?_) fun _ => .ite (fun _ => ?_) fun _ =>
        hexpression
      · exact (records_block h hj).map fun _ => rfl
      · exact records_emptyStatement around
  | identifier =>
      refine .silent faultless_isAtVar fun _ => .ite (fun _ => ?_)
        fun _ => .ite (fun _ => ?_) fun _ => ?_
      · exact records_declaration around h .var
      · exact records_throwing h around
      · exact records_labeledOrExpression h hj

/-- The faults in a statement, or a function. -/
theorem records_item (h : inner.Records) (hj : jumps.Within around) :
    (item inner jumps).Records (faultsOf <| ·.sites around) := by
  refine .silent (faultless_isAtWord "const") fun _ => .ite (fun _ => ?_)
    fun _ => ?_
  · exact records_declaration around h .const
  refine .silent (faultless_isAtWord "let") fun _ => .ite (fun _ => ?_)
    fun _ => records_statement h hj
  refine .silent (faultless_bindingAhead false) fun _ => .ite
    (fun _ => ?_) fun _ => records_statement h hj
  exact records_declaration around h .letting

end Parse

-- ============================================================ levels

/-- Every level of the grammar records the faults of what it gives. -/
theorem Productions.records_ofDepth (n : Nat) :
    (Productions.ofDepth n).Records := by
  induction n with
  | zero =>
      have hexhausted {α : Type} {v : α → List String} :
          (Parse.exhausted : Parse α).Records v :=
        .of_fails fun _ _ _ => Parse.exhausted_ok
      exact {
        assignment := fun _ => hexhausted
        unary := fun _ => hexhausted
        power := fun _ => hexhausted
        statement := fun _ => hexhausted
        item := fun _ => hexhausted }
  | succ n ih =>
      exact {
        assignment := fun around => Parse.records_assignment around ih
        unary := fun around => Parse.records_unary around ih
        power := fun around => Parse.records_power around ih
        statement := Parse.records_statement ih
        item := Parse.records_item ih }

/-- A parse of a script records the faults of the script. -/
theorem Parse.records_script (n : Nat) :
    (Parse.script (.ofDepth n)).Records (faultsOf ·.sites) := by
  refine .silent faultless_skip fun _ => ?_
  refine .silent faultless_lookahead fun first => ?_
  refine .silent (faultless_standAt _) fun _ => ?_
  have hmore : (do return !(← lookahead).isEnd : Parse Bool).Faultless :=
    faultless_lookahead.bind fun _ => .pure _
  have hitem := (Productions.records_ofDepth n).item Jumps.within_ofScript
  refine .next (records_collectWhile hmore hitem _) fun body => ?_
  exact .silent (faultless_close _ _) fun span =>
    .pure (by simp [Script.sites])

end ScriptTree
