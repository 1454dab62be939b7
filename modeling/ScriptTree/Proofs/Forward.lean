/-
What a strict parse makes of tokens that are known to lie ahead.

# Running forward

A state faces some tokens if these are ahead of it, up to the end of the
text, and all of them can be read (`ParseState.Faces`). From there an
action gives what its first token leads to, and the state that it ends in
faces what is left (`Parse.Gives`). There is a rule for each of the basic
actions.

# Handing through

Each level of expressions starts with the level below it, and then looks
for a token that goes on. Where there is none, what the lower level gives
is given by the higher one as well.
-/
import Mathlib.Data.List.Chain
import ScriptTree.Proofs.Lexeme
import ScriptTree.Proofs.Scanning.Name

namespace ScriptTree

variable {t t' u : Token} {ahead mid rest : List Token}

-- ============================================================= facing

/-- No line ends right after a name. -/
def Unbroken (words : List Word) : Prop :=
  words.IsChain fun w next =>
    w.token.kind = .identifier → next.newLine = false

/-- A strict parse in front of known tokens. -/
structure ParseState.Faces (s : ParseState) (ahead : List Token) : Prop where
  sound : s.Sound
  readable : s.rest.Readable
  unbroken : Unbroken s.words
  tokens : s.words.map Word.token = ahead

namespace ParseState.Faces

variable {s : ParseState}

theorem lookahead (h : s.Faces (t :: ahead)) : s.lookahead.bare = t := by
  obtain ⟨w, ws, hwords, hw, -⟩ := List.map_eq_cons_iff.1 h.tokens
  rw [← hw]
  exact (words_cons hwords).2.1

theorem skip (h : s.Faces (t :: ahead)) :
    ∃ s', Parse.skip s = .ok () s' ∧ s'.Faces ahead := by
  obtain ⟨s', hskip, hs, hr, hwords⟩ := h.sound.skip_of_readable h.readable
  refine ⟨s', hskip, hs, hr, ?_, ?_⟩
  · rw [hwords]
    exact h.unbroken.tail
  · rw [hwords, List.map_tail, h.tokens]
    rfl

/-- The token after a name is on its line. -/
theorem skip_name (h : s.Faces (t :: u :: ahead))
    (hk : t.kind = .identifier) :
    ∃ s', Parse.skip s = .ok () s' ∧ s'.Faces (u :: ahead) ∧
      s'.lineBreak = false := by
  obtain ⟨s', hskip, hs'⟩ := h.skip
  refine ⟨s', hskip, hs', ?_⟩
  obtain ⟨w, ws, hwords, hw, hws⟩ := List.map_eq_cons_iff.1 h.tokens
  obtain ⟨w', ws', rfl, -, -⟩ := List.map_eq_cons_iff.1 hws
  have hnext : s'.words = w' :: ws' := by
    rw [(h.sound.skip hskip).2, hwords]
    rfl
  have hbreak := h.unbroken
  rw [hwords] at hbreak
  rw [(words_cons hnext).2.2]
  exact (List.isChain_cons_cons.1 hbreak).1 (by rw [hw, hk])

end ParseState.Faces

-- ============================================================= giving

namespace Parse

variable {α β : Type} {q : α → Prop} {r : β → Prop}

/-- In front of the tokens `ahead` the action succeeds, with a result that
satisfies `q`, and leaves `rest`. -/
def Gives (p : Parse α) (ahead : List Token) (q : α → Prop)
    (rest : List Token) : Prop :=
  ∀ ⦃s : ParseState⦄, s.Faces ahead →
    ∃ a s', p s = .ok a s' ∧ q a ∧ s'.Faces rest

namespace Gives

theorem pure {a : α} (h : q a) : (pure a : Parse α).Gives ahead q ahead :=
  fun s hs => ⟨a, s, rfl, h, hs⟩

theorem bind {p : Parse α} {f : α → Parse β} (hp : p.Gives ahead q mid)
    (hf : ∀ a, q a → (f a).Gives mid r rest) :
    (p >>= f).Gives ahead r rest := by
  intro s hs
  obtain ⟨a, s₁, hp, ha, hs₁⟩ := hp hs
  obtain ⟨b, s₂, hf, hb, hs₂⟩ := hf a ha hs₁
  exact ⟨b, s₂, bind_ok.2 ⟨a, s₁, hp, hf⟩, hb, hs₂⟩

theorem mono {q' : α → Prop} {p : Parse α} (hp : p.Gives ahead q rest)
    (h : ∀ a, q a → q' a) : p.Gives ahead q' rest := by
  intro s hs
  obtain ⟨a, s₁, hp, ha, hs₁⟩ := hp hs
  exact ⟨a, s₁, hp, h a ha, hs₁⟩

/-- The place of the lookahead is not known. -/
theorem lookahead {f : Token → Parse α}
    (h : ∀ t', t'.bare = t → (f t').Gives (t :: ahead) q rest) :
    (Parse.lookahead >>= f).Gives (t :: ahead) q rest := by
  intro s hs
  rw [lookahead_bind]
  exact h s.lookahead hs.lookahead hs

theorem isAt {text : String} {f : Bool → Parse α}
    (h : (f (t.isPunctuator text)).Gives (t :: ahead) q rest) :
    (Parse.isAt text >>= f).Gives (t :: ahead) q rest := by
  intro s hs
  have hmark : s.lookahead.isPunctuator text = t.isPunctuator text := by
    rw [← hs.lookahead]
    rfl
  rw [isAt_bind, hmark]
  exact h hs

theorem isAtWord {text : String} {f : Bool → Parse α}
    (h : (f (t.isKeyword text)).Gives (t :: ahead) q rest) :
    (Parse.isAtWord text >>= f).Gives (t :: ahead) q rest := by
  intro s hs
  have hword : s.lookahead.isKeyword text = t.isKeyword text := by
    rw [← hs.lookahead]
    rfl
  rw [isAtWord_bind, hword]
  exact h hs

theorem isTolerant {f : Bool → Parse α}
    (h : (f false).Gives ahead q rest) :
    (Parse.isTolerant >>= f).Gives ahead q rest := by
  intro s hs
  rw [isTolerant_bind, hs.sound.log]
  exact h hs

theorem afterLineBreak {f : Bool → Parse α}
    (h : ∀ b, (f b).Gives ahead q rest) :
    (Parse.afterLineBreak >>= f).Gives ahead q rest := by
  intro s hs
  rw [afterLineBreak_bind]
  exact h s.lineBreak hs

theorem pass : Parse.skip.Gives (t :: ahead) (fun _ => True) ahead := by
  intro s hs
  obtain ⟨s₁, hskip, hs₁⟩ := hs.skip
  exact ⟨(), s₁, hskip, trivial, hs₁⟩

theorem skip {f : Unit → Parse α} (h : (f ()).Gives ahead q rest) :
    (Parse.skip >>= f).Gives (t :: ahead) q rest :=
  pass.bind fun _ _ => h

theorem mark {text : String} (ht : t.isPunctuator text = true) :
    (Parse.expect text).Gives (t :: ahead) (fun _ => True) ahead := by
  intro s hs
  obtain ⟨s₁, hskip, hs₁⟩ := hs.skip
  have hmark : s.lookahead.isPunctuator text = true := by
    rw [← ht, ← hs.lookahead]
    rfl
  exact ⟨(), s₁, expect_ok.2 ⟨hmark, hskip⟩, trivial, hs₁⟩

theorem expect {text : String} {f : Unit → Parse α}
    (ht : t.isPunctuator text = true) (h : (f ()).Gives ahead q rest) :
    (Parse.expect text >>= f).Gives (t :: ahead) q rest :=
  (mark ht).bind fun _ _ => h

theorem close {kind : NodeKind} {start : Position} {f : Span → Parse α}
    (h : ∀ span, (f span).Gives ahead q rest) :
    (Parse.close kind start >>= f).Gives ahead q rest := by
  intro s hs
  exact h _ ⟨⟨hs.sound.log, hs.sound.rest, hs.sound.lookahead⟩,
    hs.readable, hs.unbroken, hs.tokens⟩

end Gives

end Parse

-- ==================================================== handing through

/-- The token does not go on with the operand before it. -/
structure Token.EndsOperand (t : Token) : Prop where
  call : t.isPunctuator "(" = false
  update : t.updateOperator? = none
  power : t.isPunctuator "**" = false

/-- The token does not go on with the expression before it, a comma
apart. -/
structure Token.EndsExpression (t : Token) : Prop
    extends t.EndsOperand where
  operator : t.infixOperator? = none
  choice : t.isPunctuator "?" = false
  assignment : t.assignmentOperator? = none

/-- The token may start an operand, and is no operator before one. -/
structure Token.StartsOperand (t : Token) : Prop where
  update : t.updateOperator? = none
  unary : t.unaryOperator? = none
  closing : t.isPunctuator ")" = false

-- -------------------------------------------- tokens of known texts

/-- A punctuator without its place. -/
def Token.ofMark (mark : String) : Token :=
  ⟨.punctuator, .text mark, mark, default⟩

/-- What a mark starts with starts no name and no string, and no mark
starts a numeral. -/
theorem mark_starts : ∀ mark ∈ punctuators,
    mark.toList.head?.all (fun ch => ch.toNat < 128 ∧
      (ch = '$' || ch = '_' || ch = '\\' || ch.isAlpha) = false ∧
      ¬(ch = '\'' ∨ ch = '"')) = true ∧
    (Cursor.ofText mark.toList).startsNumeral = false := by
  decide

/-- A mark is found whole, and no mark is a word. -/
theorem mark_found : ∀ mark ∈ punctuators,
    punctuator? mark.toList = some mark ∧
      (Token.ofMark mark).isEscapedReserved = false := by
  decide

/-- A text that is read whole, on one line, is the token that is read. -/
theorem ofText?_of_token [NameProperties] {text : List Char} {stop : Cursor}
    (htoken : Cursor.token (.ofText text) = .ok t stop)
    (hread : (Cursor.ofText text).Reads text 0 stop)
    (hend : t.isEnd = false) (hesc : t.isEscapedReserved = false) :
    (Token.ofText? text).map Token.bare = some t.bare := by
  have hrest : stop.rest = [] :=
    hread.rest_eq (by rw [Cursor.ofText_rest, List.append_nil])
  rw [Token.ofText?_eq_some.2 ⟨stop, htoken, hrest, hend, hesc⟩]
  rfl

/-- Every mark is a token by itself. -/
theorem ofText?_mark [NameProperties] : ∀ mark ∈ punctuators,
    (Token.ofText? mark.toList).map Token.bare = some (.ofMark mark) := by
  intro mark hin
  obtain ⟨hfound, hesc⟩ := mark_found mark hin
  obtain ⟨hhead, hnumeral⟩ := mark_starts mark hin
  obtain ⟨ch, rest, hrest⟩ :=
    List.exists_cons_of_ne_nil (punctuator_chars mark hin).1
  rw [hrest] at hhead
  obtain ⟨hascii, hname, hquote⟩ := of_decide_eq_true hhead
  rw [← isNameStart_ascii hascii] at hname
  have hcursor := (Cursor.ofText_rest mark.toList).trans hrest
  rw [← Cursor.ofText_rest mark.toList] at hfound
  have htoken := (Cursor.token_of_mark hcursor hname hquote hnumeral).trans
    (punctuatorToken_eq_ok.2 ⟨mark, hfound, rfl, rfl⟩)
  have hread : (Cursor.ofText mark.toList).Reads mark.toList 0
      (afterMark mark (.ofText mark.toList)) :=
    reads_afterMark (by rw [Cursor.ofText_rest, List.append_nil])
  rw [hread.tokenTo_eq, String.ofList_toList] at htoken
  exact ofText?_of_token htoken hread rfl hesc

/-- A word of ASCII letters is a token, whatever else names are made of. -/
theorem ofText?_word [NameProperties] {word : String}
    (hne : word.toList ≠ []) (h : ∀ ch ∈ word.toList, ch.isAlpha = true) :
    (Token.ofText? word.toList).map Token.bare
      = some ⟨wordKind word, .text word, word, default⟩ := by
  have hrest := Cursor.ofText_rest word.toList
  have hplain : NamesPlainly true (Cursor.ofText word.toList).rest := by
    rw [hrest]
    exact namesPlainly_of_isAlpha h
  obtain ⟨stop, hread, htoken⟩ := hplain.token_eq (by rwa [hrest])
  simp only [hrest, String.ofList_toList] at hread htoken
  refine ofText?_of_token htoken hread ?_ ?_
  · rcases wordKind_cases word with ⟨hkind, -⟩ | ⟨hkind, -⟩ | ⟨hkind, -⟩ | hkind
    all_goals
      unfold Token.isEnd
      rw [hkind]
      rfl
  · simp [Token.isEscapedReserved, Token.shown]

/-- An operator between operands without its place. Only one of them is a
word. -/
def InfixOperator.token (operator : InfixOperator) : Token :=
  if operator = .binary .instanceOf then
    ⟨.keyword, .text "instanceof", "instanceof", default⟩
  else .ofMark operator.text

/-- All but one of the operators between operands are marks. -/
theorem InfixOperator.text_mem {operator : InfixOperator}
    (h : operator ≠ .binary .instanceOf) : operator.text ∈ punctuators := by
  rcases operator with operator | operator
  · cases operator
    case instanceOf => exact absurd rfl h
    all_goals decide
  · cases operator <;> decide

/-- An operator between operands is a token by itself. -/
theorem InfixOperator.ofText?_text [NameProperties]
    (operator : InfixOperator) :
    (Token.ofText? operator.text.toList).map Token.bare
      = some operator.token := by
  by_cases h : operator = .binary .instanceOf
  · rw [h]
    exact ofText?_word (by decide) (List.all_eq_true.1 (by decide))
  · rw [ofText?_mark _ (InfixOperator.text_mem h), InfixOperator.token,
      if_neg h]

theorem InfixOperator.infixOperator?_token {operator : InfixOperator}
    (h : operator ≠ .binary .power) :
    operator.token.infixOperator? = some operator := by
  rcases operator with operator | operator
  · cases operator
    case power => exact absurd rfl h
    all_goals decide
  · cases operator <;> decide

theorem InfixOperator.endsOperand_token {operator : InfixOperator}
    (h : operator ≠ .binary .power) : operator.token.EndsOperand := by
  rcases operator with operator | operator
  · cases operator
    case power => exact absurd rfl h
    all_goals exact ⟨by decide, by decide, by decide⟩
  · cases operator <;> exact ⟨by decide, by decide, by decide⟩

theorem AssignmentOperator.token_facts (operator : AssignmentOperator) :
    operator.text ∈ punctuators ∧
      (Token.ofMark operator.text).assignmentOperator? = some operator ∧
      (Token.ofMark operator.text).infixOperator? = none ∧
      (Token.ofMark operator.text).isPunctuator "?" = false ∧
      (Token.ofMark operator.text).EndsOperand := by
  cases operator <;>
    exact ⟨by decide, by decide, by decide, by decide,
      by decide, by decide, by decide⟩

theorem UnaryOperator.token_facts (operator : UnaryOperator) :
    operator.text ∈ punctuators ∧
      (Token.ofMark operator.text).unaryOperator? = some operator ∧
      (Token.ofMark operator.text).isPunctuator ")" = false := by
  cases operator <;> decide

theorem UpdateOperator.token_facts (operator : UpdateOperator) :
    operator.text ∈ punctuators ∧
      (Token.ofMark operator.text).updateOperator? = some operator ∧
      (Token.ofMark operator.text).unaryOperator? = none ∧
      (Token.ofMark operator.text).isPunctuator "(" = false ∧
      (Token.ofMark operator.text).isPunctuator ")" = false := by
  cases operator <;> decide

theorem endsExpression_ofMark : ∀ mark ∈ [")", ",", ":", ";"],
    (Token.ofMark mark).EndsExpression := by
  intro mark h
  simp only [List.mem_cons, List.not_mem_nil, or_false] at h
  rcases h with rfl | rfl | rfl | rfl
  all_goals
    exact ⟨⟨by decide, by decide, by decide⟩, by decide, by decide,
      by decide⟩

namespace Parse

variable {inner : Productions} {q : Expression Span → Prop}

/-- The depth does not run out as long as there are tokens ahead. -/
theorem exists_depth {n k : Nat} (h : k + 1 ≤ n) :
    ∃ m, n = m + 1 ∧ k ≤ m := ⟨n - 1, by omega, by omega⟩

theorem gives_callsOf_none {start : Position} {callee : Expression Span}
    (hq : q callee) (hu : u.isPunctuator "(" = false) {steps : Nat} :
    (callsOf inner start (steps + 1) callee).Gives (u :: rest) q
      (u :: rest) := by
  refine .isAt ?_
  rw [hu]
  exact .pure hq

theorem gives_call_of_primary (hd : 0 < inner.depth)
    (hu : u.isPunctuator "(" = false)
    (h : (primary inner).Gives (t :: ahead) q (u :: rest)) :
    (call inner).Gives (t :: ahead) q (u :: rest) := by
  obtain ⟨n, hn, -⟩ := exists_depth hd
  refine .lookahead fun t' _ => .bind h fun e he => ?_
  rw [hn]
  exact gives_callsOf_none he hu

theorem gives_update_of_call (ht : t.updateOperator? = none)
    (hu : u.updateOperator? = none)
    (h : (call inner).Gives (t :: ahead) q (u :: rest)) :
    (update inner).Gives (t :: ahead) q (u :: rest) := by
  refine .lookahead fun t' ht' => ?_
  have hnone : t'.updateOperator? = none := by
    rw [← ht, ← ht']
    rfl
  rw [hnone]
  refine .bind h fun e he => .lookahead fun u' hu' => ?_
  have hnone' : u'.updateOperator? = none := by
    rw [← hu, ← hu']
    rfl
  refine .afterLineBreak fun b => ?_
  rw [hnone']
  exact .pure he

theorem gives_unary_of_update (ht : t.unaryOperator? = none)
    (h : (update inner).Gives (t :: ahead) q rest) :
    (unary inner).Gives (t :: ahead) q rest := by
  refine .lookahead fun t' ht' => ?_
  have hnone : t'.unaryOperator? = none := by
    rw [← ht, ← ht']
    rfl
  rw [hnone]
  exact h

theorem gives_power_of_unary (hu : u.isPunctuator "**" = false)
    (h : (unary inner).Gives (t :: ahead) q (u :: rest)) :
    (power inner).Gives (t :: ahead) q (u :: rest) := by
  refine .lookahead fun t' _ => .bind h fun e he => ?_
  split
  case isTrue => exact .pure he
  case isFalse =>
    refine .isAt ?_
    rw [hu]
    exact .pure he

/-- An operand goes as far as the primary expression in it. -/
theorem gives_power_of_primary (hd : 0 < inner.depth)
    (ht : t.StartsOperand) (hu : u.EndsOperand)
    (h : (primary inner).Gives (t :: ahead) q (u :: rest)) :
    (power inner).Gives (t :: ahead) q (u :: rest) :=
  gives_power_of_unary hu.power <| gives_unary_of_update ht.unary <|
    gives_update_of_call ht.update hu.update <|
    gives_call_of_primary hd hu.call h

theorem gives_operations_none {start : Position} {e : Expression Span}
    (hq : q e) (hu : u.infixOperator? = none) {steps : Nat} :
    (operations inner (steps + 1) [] start e).Gives (u :: rest) q
      (u :: rest) := by
  refine .lookahead fun u' hu' => ?_
  have hnone : u'.infixOperator? = none := by
    rw [← hu, ← hu']
    rfl
  rw [hnone]
  exact .pure hq

theorem gives_binary_of_power (hd : 0 < inner.depth)
    (hu : u.infixOperator? = none)
    (h : (power inner).Gives (t :: ahead) q (u :: rest)) :
    (binary inner).Gives (t :: ahead) q (u :: rest) := by
  obtain ⟨n, hn, -⟩ := exists_depth hd
  refine .lookahead fun t' _ => .bind h fun e he => ?_
  rw [hn]
  exact gives_operations_none he hu

theorem gives_conditional_of_binary (hu : u.isPunctuator "?" = false)
    (h : (binary inner).Gives (t :: ahead) q (u :: rest)) :
    (conditional inner).Gives (t :: ahead) q (u :: rest) := by
  refine .lookahead fun t' _ => .bind h fun e he => .isAt ?_
  rw [hu]
  exact .pure he

theorem gives_assignment_of_conditional
    (hu : u.assignmentOperator? = none)
    (h : (conditional inner).Gives (t :: ahead) q (u :: rest)) :
    (assignment inner).Gives (t :: ahead) q (u :: rest) := by
  refine .lookahead fun t' _ => .bind h fun e he => ?_
  refine .lookahead fun u' hu' => ?_
  have hnone : u'.assignmentOperator? = none := by
    rw [← hu, ← hu']
    rfl
  rw [hnone]
  exact .pure he

theorem gives_assignment_of_binary (hu : u.EndsExpression)
    (h : (binary inner).Gives (t :: ahead) q (u :: rest)) :
    (assignment inner).Gives (t :: ahead) q (u :: rest) :=
  gives_assignment_of_conditional hu.assignment <|
    gives_conditional_of_binary hu.choice h

theorem gives_assignment_of_power (hd : 0 < inner.depth)
    (hu : u.EndsExpression)
    (h : (power inner).Gives (t :: ahead) q (u :: rest)) :
    (assignment inner).Gives (t :: ahead) q (u :: rest) :=
  gives_assignment_of_binary hu <|
    gives_binary_of_power hd hu.operator h

end Parse

end ScriptTree
