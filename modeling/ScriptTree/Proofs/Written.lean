/-
What is written with all parentheses is read back, up to the levels that
it is handed through.

# Parts and wholes

A part of an expression is one token, or an expression in parentheses.
Either way it is a primary expression, whatever follows
(`Expression.ReadBack`), and every higher level hands it through unless
it finds an operator of its own. A whole expression is read at the level
of its operator (`Expression.ReadAs`), and all levels from there up to
assignments hand it through where a parenthesis, a comma, a colon or a
semicolon follows. In parentheses it is a part.

# Depth

Each statement here is about productions with at least as many levels as
there are tokens ahead. A production goes one level in only after it has
consumed a token, so this stays true along a run.
-/
import ScriptTree.Grammar.Script
import ScriptTree.Proofs.Forward
import ScriptTree.Proofs.Places
import ScriptTree.Tree.Written

namespace ScriptTree

variable {π : Type} {t u : Token} {ahead rest : List Token}

-- ============================================================= tokens

/-- The tokens of texts that are one token each, without their places. -/
def tokensOf [NameProperties] (texts : List String) : List Token :=
  texts.filterMap fun text => (Token.ofText? text.toList).map Token.bare

@[simp] theorem tokensOf_nil [NameProperties] : tokensOf [] = [] := rfl

@[simp] theorem tokensOf_append [NameProperties] (texts texts' : List String) :
    tokensOf (texts ++ texts') = tokensOf texts ++ tokensOf texts' :=
  List.filterMap_append

theorem tokensOf_cons [NameProperties] {text : String}
    (h : (Token.ofText? text.toList).map Token.bare = some t)
    (texts : List String) :
    tokensOf (text :: texts) = t :: tokensOf texts :=
  List.filterMap_cons_some h

-- ============================================================== parts

namespace Expression

/-- The same expression up to places. -/
def Alike {ρ : Type} (e : Expression π) (e' : Expression ρ) : Prop :=
  e'.shape = e.shape

/-- An expression as a part of another. -/
def part (e : Expression π) : List String := enclosed e.isLeaf e.written

/-- More parts, with a comma before each. -/
def furtherParts (items : List (Expression π)) : List String :=
  items.flatMap fun e => "," :: e.part

theorem written_items (e : Expression π) (rest : List (Expression π)) :
    [","].intercalate (writtenAll (e :: rest))
      = e.part ++ furtherParts rest := by
  induction rest generalizing e with
  | nil => simp [writtenAll, part, furtherParts, List.intercalate]
  | cons next rest ih =>
      have hnext := ih next
      unfold writtenAll at hnext ⊢
      rw [writtenAll, List.intercalate_cons_cons, hnext]
      simp [part, furtherParts]

/-- What a part of an expression is read as, and what is read in
parentheses. -/
structure ReadBack [NameProperties] (e : Expression π) : Prop where
  starts : ∃ t ts, tokensOf e.part = t :: ts ∧ t.StartsOperand ∧
    (e.isLeaf = false → t.isPunctuator "(" = true)
  primary {n : Nat} {u : Token} {rest : List Token} :
    (tokensOf e.part ++ u :: rest).length ≤ n →
    (Parse.primary (.ofDepth n)).Gives (tokensOf e.part ++ u :: rest)
      e.Alike (u :: rest)
  group {n : Nat} {u : Token} {rest : List Token} :
    (tokensOf ("(" :: e.written ++ [")"]) ++ u :: rest).length ≤ n →
    (Parse.group (.ofDepth n)).Gives
      (tokensOf ("(" :: e.written ++ [")"]) ++ u :: rest) e.Alike
      (u :: rest)

theorem part_of_leaf {e : Expression π} (h : e.isLeaf = true) :
    e.part = e.written := by
  rw [part, enclosed, if_pos h]

theorem part_of_not_leaf {e : Expression π} (h : e.isLeaf = false) :
    e.part = "(" :: e.written ++ [")"] := by
  rw [part, enclosed, if_neg (by simp [h])]

end Expression

-- ============================================================= leaves

theorem startsOperand_of_kind (h : t.kind ≠ .punctuator) :
    t.StartsOperand := by
  have hnone : t.punctuator? = none := if_neg h
  refine ⟨?_, ?_, ?_⟩
  · rw [Token.updateOperator?, hnone]
    rfl
  · rw [Token.unaryOperator?, hnone]
    rfl
  · simp [Token.isPunctuator, h]

/-- A name without escapes has its own text for a value. -/
theorem Identifier.Writable.token [NameProperties]
    {id : Identifier π} (h : id.Writable) :
    ∃ t, (Token.ofText? id.name.toList).map Token.bare = some t ∧
      t.kind = .identifier ∧ t.value = .text id.name := by
  obtain ⟨t, ht, hk⟩ := h.lexeme
  refine ⟨t.bare, by rw [ht]; rfl, hk, ?_⟩
  have hraw : t.raw = id.name := (Lexeme.mk id.name t ht).raw_eq
  show t.value = _
  cases (Lexeme.mk id.name t ht).plain.formed with
  | word chars text hsp _ hvalue htext =>
      obtain rfl : text = id.name.toList := by
        rw [← hraw, htext, String.toList_ofList]
      rcases hsp with rfl | ⟨hslash, -⟩
      · rw [hvalue, String.ofList_toList]
      · exact absurd hslash h.unescaped
  | string _ hkind | numeral _ hkind | punctuator _ _ hkind =>
      rw [hk] at hkind
      cases hkind

namespace Parse

variable {inner : Productions}

theorem primary_name {s : ParseState} {name : String}
    (hs : s.Faces (t :: u :: rest)) (hk : t.kind = .identifier)
    (hv : t.value = .text name) :
    ∃ e s', primary inner s = .ok e s' ∧
      e.shape = .identifier ⟨name, ()⟩ ∧ s'.Faces (u :: rest) ∧
      s'.lineBreak = false := by
  obtain ⟨s₁, hskip, hs₁, hbreak⟩ := hs.skip_name hk
  have hkind : s.lookahead.kind = .identifier := by
    rw [← hk, ← hs.lookahead]
    rfl
  have hshown : s.lookahead.shown = name := by
    have hvalue : s.lookahead.value = .text name := by
      rw [← hv, ← hs.lookahead]
      rfl
    rw [Token.shown, hvalue]
  obtain ⟨e, s', hclose, he, hs', hsame⟩ : ∃ e s',
      (close .identifier s.lookahead.span.start >>= fun span =>
        pure (.identifier ⟨s.lookahead.shown, span⟩) :
          Parse (Expression Span)) s₁ = .ok e s' ∧
      e.shape = .identifier ⟨name, ()⟩ ∧ s'.Faces (u :: rest) ∧
      s'.lineBreak = s₁.lineBreak := by
    refine ⟨_, _, rfl, ?_, ⟨⟨hs₁.sound.log, hs₁.sound.rest,
      hs₁.sound.lookahead⟩, hs₁.readable, hs₁.unbroken, hs₁.tokens⟩, rfl⟩
    rw [hshown]
    rfl
  refine ⟨e, s', ?_, he, hs', hsame.trans hbreak⟩
  unfold primary
  rw [lookahead_bind]
  simp only [hkind]
  exact bind_ok.2 ⟨(), s₁, hskip, hclose⟩

theorem gives_name {name : String} (hk : t.kind = .identifier)
    (hv : t.value = .text name) :
    (primary inner).Gives (t :: u :: rest)
      (fun e => e.shape = .identifier ⟨name, ()⟩) (u :: rest) := by
  intro s hs
  obtain ⟨e, s', hp, he, hs', -⟩ := primary_name hs hk hv
  exact ⟨e, s', hp, he, hs'⟩

theorem gives_literal (hk : t.kind.isLiteral = true) :
    (primary inner).Gives (t :: rest)
      (fun e => e.shape = .literal t.literalValue t.raw ()) rest := by
  refine .lookahead fun t' ht' => ?_
  subst ht'
  have hliteral : (skip >>= fun _ => close .literal t'.span.start >>=
      fun span => pure (.literal t'.literalValue t'.raw span)).Gives
        (t'.bare :: rest)
        (fun e : Expression Span =>
          e.shape = .literal t'.bare.literalValue t'.bare.raw ())
        rest :=
    .skip (.close fun span => .pure rfl)
  have hk' : t'.kind.isLiteral = true := hk
  cases h : t'.kind with
  | numeric | string | boolean | null => exact hliteral
  | identifier | punctuator | keyword | endOfInput =>
      rw [h] at hk'
      cases hk'

end Parse

-- ============================================================= groups

namespace Parse

variable {inner : Productions} {mid : List Token}

theorem gives_group {q p : Expression Span → Prop}
    {r : List (Expression Span) → Prop} (ht : t.isPunctuator ")" = false)
    (hfirst : inner.assignment.Gives (t :: ahead) q mid)
    (hfurther : (furtherItems inner inner.assignment).Gives mid r
      (.ofMark ")" :: rest))
    (hp : ∀ start first further, q first → r further →
      (sequenceOf start first further).Gives (.ofMark ")" :: rest) p
        (.ofMark ")" :: rest)) :
    (group inner).Gives (.ofMark "(" :: t :: ahead) p rest := by
  refine .expect rfl (.lookahead fun t' ht' => ?_)
  have hno : t'.isPunctuator ")" = false := by
    rw [← ht, ← ht']
    rfl
  rw [hno]
  refine .bind hfirst fun first hq => .bind hfurther fun further hr => ?_
  exact .bind (hp _ first further hq hr) fun e he => .expect rfl (.pure he)

/-- There are no more items where there is no comma. -/
theorem gives_furtherItems_none {item : Parse (Expression Span)}
    (hd : 0 < inner.depth) (hu : u.isPunctuator "," = false) :
    (furtherItems inner item).Gives (u :: rest) (· = []) (u :: rest) := by
  obtain ⟨n, hn, -⟩ := exists_depth hd
  unfold furtherItems
  rw [hn]
  refine .isAt ?_
  rw [hu]
  exact .pure rfl

/-- What is read of an expression with parentheses around it. -/
theorem gives_group_single {q : Expression Span → Prop}
    (hd : 0 < inner.depth) (ht : t.isPunctuator ")" = false)
    (h : inner.assignment.Gives (t :: ahead) q (.ofMark ")" :: rest)) :
    (group inner).Gives (.ofMark "(" :: t :: ahead) q rest := by
  refine gives_group ht h (gives_furtherItems_none hd (by decide)) ?_
  rintro start first further hq rfl
  exact .pure hq

theorem depth_pos {n : Nat} (h : (ahead ++ u :: rest).length ≤ n) :
    0 < (Productions.ofDepth n).depth := by
  rw [List.length_append, List.length_cons] at h
  rw [Productions.depth_ofDepth]
  omega

end Parse

namespace Expression

variable {e : Expression π}

/-- A text in parentheses, and what follows it. -/
theorem tokensOf_group [NameProperties]
    (e : Expression π) (rest : List Token) :
    tokensOf ("(" :: e.written ++ [")"]) ++ rest
      = .ofMark "(" :: (tokensOf e.written ++ .ofMark ")" :: rest) := by
  rw [List.cons_append, tokensOf_cons (ofText?_mark "(" (by decide)),
    tokensOf_append, tokensOf_cons (ofText?_mark ")" (by decide))]
  simp

/-- A production reads the expression from what is written. -/
def ReadAs [NameProperties]
    (production : Productions → Parse (Expression Span))
    (e : Expression π) : Prop :=
  ∀ (n : Nat) (u : Token) (rest : List Token), u.EndsExpression →
    (tokensOf e.written ++ u :: rest).length ≤ n →
    (production (.ofDepth n)).Gives (tokensOf e.written ++ u :: rest)
      e.Alike (u :: rest)

/-- An expression that is read as an assignment is read in parentheses
as well. -/
theorem group_of_assignment [NameProperties]
    (hstart : ∃ t ts, tokensOf e.written = t :: ts ∧
      t.isPunctuator ")" = false)
    (h : e.ReadAs Parse.assignment) {n : Nat} {rest : List Token}
    (hn : (tokensOf ("(" :: e.written ++ [")"]) ++ rest).length ≤ n) :
    (Parse.group (.ofDepth n)).Gives
      (tokensOf ("(" :: e.written ++ [")"]) ++ rest) e.Alike rest := by
  obtain ⟨t, ts, hts, ht⟩ := hstart
  rw [tokensOf_group, List.length_cons] at hn
  obtain ⟨m, rfl, hm⟩ := Parse.exists_depth hn
  have hinner := h m (.ofMark ")") rest
    (endsExpression_ofMark ")" (by decide)) hm
  rw [tokensOf_group]
  rw [hts, List.cons_append] at hinner ⊢
  exact Parse.gives_group_single (by simp) ht hinner

/-- A primary expression that is no leaf is a group. -/
theorem primary_of_group {inner : Productions} {q : Expression Span → Prop}
    (h : (Parse.group inner).Gives (.ofMark "(" :: ahead) q rest) :
    (Parse.primary inner).Gives (.ofMark "(" :: ahead) q rest := by
  refine .lookahead fun t' ht' => ?_
  have hkind : t'.kind = .punctuator := congrArg Token.kind ht'
  have hmark : t'.isPunctuator "(" = true := by
    rw [show t'.isPunctuator "(" = t'.bare.isPunctuator "(" from rfl, ht']
    decide
  simp only [hkind, hmark, if_true]
  exact h

theorem ReadBack.of_leaf [NameProperties] (hleaf : e.isLeaf = true)
    (htokens : tokensOf e.written = [t]) (ht : t.StartsOperand)
    (hprimary : ∀ (inner : Productions) (u : Token) (rest : List Token),
      (Parse.primary inner).Gives (t :: u :: rest) e.Alike (u :: rest)) :
    e.ReadBack where
  starts := ⟨t, [], by rw [part_of_leaf hleaf, htokens], ht,
    fun h => by simp [hleaf] at h⟩
  primary _ := by
    rw [part_of_leaf hleaf, htokens]
    exact hprimary _ _ _
  group := by
    refine group_of_assignment ⟨t, [], htokens, ht.closing⟩ ?_
    intro n u rest hu hn
    have hd := Parse.depth_pos hn
    rw [htokens]
    exact Parse.gives_assignment_of_power hd hu
      (Parse.gives_power_of_primary hd ht hu.toEndsOperand
        (hprimary _ u rest))

/-- What is read in parentheses is read as a part. -/
theorem ReadBack.of_group [NameProperties] (hleaf : e.isLeaf = false)
    (h : ∀ (n : Nat) (u : Token) (rest : List Token),
      (tokensOf ("(" :: e.written ++ [")"]) ++ u :: rest).length ≤ n →
      (Parse.group (.ofDepth n)).Gives
        (tokensOf ("(" :: e.written ++ [")"]) ++ u :: rest) e.Alike
        (u :: rest)) : e.ReadBack where
  starts := by
    rw [part_of_not_leaf hleaf]
    refine ⟨.ofMark "(", tokensOf (e.written ++ [")"]), ?_,
      ⟨by decide, by decide, by decide⟩, fun _ => by decide⟩
    exact tokensOf_cons (ofText?_mark "(" (by decide)) _
  group := h _ _ _
  primary {n u rest} hn := by
    rw [part_of_not_leaf hleaf] at hn ⊢
    have hgroup := h n u rest hn
    rw [tokensOf_group] at hgroup ⊢
    exact primary_of_group hgroup

theorem ReadBack.of_assignment [NameProperties] (hleaf : e.isLeaf = false)
    (hstart : ∃ t ts, tokensOf e.written = t :: ts ∧
      t.isPunctuator ")" = false)
    (h : e.ReadAs Parse.assignment) : e.ReadBack :=
  .of_group hleaf fun _ _ _ => group_of_assignment hstart h

section ReadAs

variable [NameProperties] {ts : List Token}
  (hts : tokensOf e.written = t :: ts)

include hts

theorem ReadAs.assignment_of_conditional
    (h : e.ReadAs Parse.conditional) : e.ReadAs Parse.assignment := by
  intro n u rest hu hn
  have hgives := h n u rest hu hn
  rw [hts, List.cons_append] at hgives ⊢
  exact Parse.gives_assignment_of_conditional hu.assignment hgives

theorem ReadAs.assignment_of_binary
    (h : e.ReadAs Parse.binary) :
    e.ReadAs Parse.assignment := by
  intro n u rest hu hn
  have hgives := h n u rest hu hn
  rw [hts, List.cons_append] at hgives ⊢
  exact Parse.gives_assignment_of_binary hu hgives

theorem ReadAs.assignment_of_power
    (h : e.ReadAs Parse.power) :
    e.ReadAs Parse.assignment := by
  intro n u rest hu hn
  have hd := Parse.depth_pos hn
  have hgives := h n u rest hu hn
  rw [hts, List.cons_append] at hgives ⊢
  exact Parse.gives_assignment_of_power hd hu hgives

theorem ReadAs.assignment_of_unary
    (h : e.ReadAs Parse.unary) :
    e.ReadAs Parse.assignment := by
  refine assignment_of_power hts fun n u rest hu hn => ?_
  have hgives := h n u rest hu hn
  rw [hts, List.cons_append] at hgives ⊢
  exact Parse.gives_power_of_unary hu.power hgives

theorem ReadAs.assignment_of_update
    (ht : t.unaryOperator? = none)
    (h : e.ReadAs Parse.update) : e.ReadAs Parse.assignment := by
  refine assignment_of_unary hts fun n u rest hu hn => ?_
  have hgives := h n u rest hu hn
  rw [hts, List.cons_append] at hgives ⊢
  exact Parse.gives_unary_of_update ht hgives

theorem ReadAs.assignment_of_call (ht : t.StartsOperand)
    (h : e.ReadAs Parse.call) : e.ReadAs Parse.assignment := by
  refine assignment_of_update hts ht.unary fun n u rest hu hn => ?_
  have hgives := h n u rest hu hn
  rw [hts, List.cons_append] at hgives ⊢
  exact Parse.gives_update_of_call ht.update hu.update hgives

end ReadAs

section ReadBack

variable [NameProperties] {n : Nat} (h : e.ReadBack)
  (hn : (tokensOf e.part ++ u :: rest).length ≤ n)

include h hn

theorem ReadBack.call (hu : u.isPunctuator "(" = false) :
    (Parse.call (.ofDepth n)).Gives (tokensOf e.part ++ u :: rest)
      e.Alike (u :: rest) := by
  obtain ⟨t, ts, hts, -⟩ := h.starts
  have hd := Parse.depth_pos hn
  have hprimary := h.primary hn
  rw [hts, List.cons_append] at hprimary ⊢
  exact Parse.gives_call_of_primary hd hu hprimary

theorem ReadBack.unary (hcall : u.isPunctuator "(" = false)
    (hupdate : u.updateOperator? = none) :
    (Parse.unary (.ofDepth n)).Gives (tokensOf e.part ++ u :: rest)
      e.Alike (u :: rest) := by
  obtain ⟨t, ts, hts, ht, -⟩ := h.starts
  have hgives := h.call hn hcall
  rw [hts, List.cons_append] at hgives ⊢
  exact Parse.gives_unary_of_update ht.unary
    (Parse.gives_update_of_call ht.update hupdate hgives)

theorem ReadBack.power (hu : u.EndsOperand) :
    (Parse.power (.ofDepth n)).Gives (tokensOf e.part ++ u :: rest)
      e.Alike (u :: rest) := by
  obtain ⟨t, ts, hts, -⟩ := h.starts
  have hunary := h.unary hn hu.call hu.update
  rw [hts, List.cons_append] at hunary ⊢
  exact Parse.gives_power_of_unary hu.power hunary

theorem ReadBack.binary (hu : u.EndsOperand)
    (hnone : u.infixOperator? = none) :
    (Parse.binary (.ofDepth n)).Gives (tokensOf e.part ++ u :: rest)
      e.Alike (u :: rest) := by
  obtain ⟨t, ts, hts, -⟩ := h.starts
  have hd := Parse.depth_pos hn
  have hpower := h.power hn hu
  rw [hts, List.cons_append] at hpower ⊢
  exact Parse.gives_binary_of_power hd hnone hpower

theorem ReadBack.assignment (hu : u.EndsExpression) :
    (Parse.assignment (.ofDepth n)).Gives (tokensOf e.part ++ u :: rest)
      e.Alike (u :: rest) := by
  obtain ⟨t, ts, hts, -⟩ := h.starts
  have hbinary := h.binary hn hu.toEndsOperand hu.operator
  rw [hts, List.cons_append] at hbinary ⊢
  exact Parse.gives_assignment_of_binary hu hbinary

end ReadBack

end Expression

end ScriptTree
