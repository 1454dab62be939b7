/-
Every expression that can be written is what its text parses to.

The text of an expression with all parentheses is made of lexemes, so a
strict parse has just their tokens ahead. These are read back, and the
semicolon ends the only statement (`parse_writable`).
-/
import ScriptTree.Proofs.Refinement.Script
import ScriptTree.Proofs.Written.Expression
import ScriptTree.Source.NameRanges

namespace ScriptTree

variable {π ρ : Type} {ahead rest : List Token}

-- ============================================================ lexemes

/-- Whether a text is one token. -/
def IsLexeme [NameProperties] (text : String) : Prop :=
  ∃ t, Token.ofText? text.toList = some t

theorem isLexeme_of_bare [NameProperties] {text : String} {t : Token}
    (h : (Token.ofText? text.toList).map Token.bare = some t) :
    IsLexeme text := by
  obtain ⟨t', ht', -⟩ := Option.map_eq_some_iff.1 h
  exact ⟨t', ht'⟩

theorem isLexeme_mark [NameProperties]
    {mark : String} (h : mark ∈ punctuators) :
    IsLexeme mark := isLexeme_of_bare (ofText?_mark mark h)

theorem isLexeme_operator [NameProperties] (operator : InfixOperator) :
    IsLexeme operator.text := isLexeme_of_bare operator.ofText?_text

namespace Expression

theorem mem_part {e : Expression π} {text : String} (h : text ∈ e.part) :
    text = "(" ∨ text ∈ e.written ∨ text = ")" := by
  unfold part enclosed at h
  split at h
  case isTrue => exact .inr (.inl h)
  case isFalse => simpa [or_assoc] using h

theorem isLexeme_part [NameProperties] {e : Expression π}
    (h : ∀ text ∈ e.written, IsLexeme text) :
    ∀ text ∈ e.part, IsLexeme text := by
  intro text htext
  rcases mem_part htext with rfl | hin | rfl
  · exact isLexeme_mark (by decide)
  · exact h text hin
  · exact isLexeme_mark (by decide)

theorem isLexeme_items [NameProperties] {items : List (Expression π)}
    (h : ∀ e ∈ items, ∀ text ∈ e.written, IsLexeme text) :
    ∀ text ∈ [","].intercalate (writtenAll items), IsLexeme text := by
  cases items with
  | nil => simp [writtenAll]
  | cons e items =>
      intro text htext
      rw [written_items, List.mem_append] at htext
      rcases htext with hin | hin
      · exact isLexeme_part (h e List.mem_cons_self) text hin
      · obtain ⟨e', he', hin⟩ := List.mem_flatMap.1 hin
        rcases List.mem_cons.1 hin with rfl | hin
        · exact isLexeme_mark (by decide)
        · exact isLexeme_part (h e' (List.mem_cons_of_mem _ he')) text hin

/-- Two parts with a lexeme between them. -/
theorem isLexeme_between [NameProperties] {l r : Expression π} {text : String}
    (hl : ∀ text ∈ l.written, IsLexeme text) (ht : IsLexeme text)
    (hr : ∀ text ∈ r.written, IsLexeme text) :
    ∀ text' ∈ l.part ++ text :: r.part, IsLexeme text' := by
  intro text' h
  rw [List.mem_append, List.mem_cons] at h
  rcases h with h | rfl | h
  · exact isLexeme_part hl text' h
  · exact ht
  · exact isLexeme_part hr text' h

/-- An expression is written in lexemes. -/
theorem Writable.isLexeme [NameProperties]
    {e : Expression π} (h : e.Writable) :
    ∀ text ∈ e.written, IsLexeme text := by
  have hname {id : Identifier π} (h : id.Writable) :
      ∀ text ∈ (Expression.identifier id).written, IsLexeme text := by
    obtain ⟨t, ht, -⟩ := h.lexeme
    intro text htext
    rw [List.mem_singleton.1 htext]
    exact ⟨t, ht⟩
  induction h with
  | identifier h => exact hname h
  | literal ht _ _ =>
      intro text htext
      rw [List.mem_singleton.1 htext]
      exact ⟨_, ht⟩
  | @assignment operator target r place htarget _ ihr =>
      exact isLexeme_between (hname htarget)
        (isLexeme_mark operator.token_facts.1) ihr
  | @binary operator l r place _ _ ihl ihr =>
      exact isLexeme_between ihl (isLexeme_operator (.binary operator)) ihr
  | @logical operator l r place _ _ ihl ihr =>
      exact isLexeme_between ihl (isLexeme_operator (.logical operator)) ihr
  | @conditional c l r place _ _ _ ihc ihl ihr =>
      intro text htext
      rw [written, List.mem_append] at htext
      rcases htext with h | h
      · exact isLexeme_between ihc (isLexeme_mark (by decide)) ihl text h
      · rcases List.mem_cons.1 h with rfl | h
        · exact isLexeme_mark (by decide)
        · exact isLexeme_part ihr text h
  | @call callee arguments place _ _ ihc iharguments =>
      intro text htext
      rw [written, List.mem_append, List.mem_append, List.mem_cons,
        List.mem_singleton] at htext
      rcases htext with (h | rfl | h) | rfl
      · exact isLexeme_part ihc text h
      · exact isLexeme_mark (by decide)
      · exact isLexeme_items iharguments text h
      · exact isLexeme_mark (by decide)
  | sequence _ _ ihitems => exact isLexeme_items ihitems
  | @unary operator r place _ ihr =>
      intro text htext
      rcases List.mem_cons.1 htext with rfl | h
      · exact isLexeme_mark operator.token_facts.1
      · exact isLexeme_part ihr text h
  | @update operator target before place htarget =>
      have hmark := isLexeme_mark operator.token_facts.1
      intro text htext
      cases before with
      | true =>
          rcases List.mem_cons.1 htext with rfl | h
          · exact hmark
          · exact isLexeme_part (hname htarget) text h
      | false =>
          rcases List.mem_append.1 htext with h | h
          · exact isLexeme_part (hname htarget) text h
          · rw [List.mem_singleton.1 h]
            exact hmark

end Expression

-- ============================================================= states

theorem exists_lexemes [NameProperties] {texts : List String}
    (h : ∀ text ∈ texts, IsLexeme text) :
    ∃ lexemes : List Lexeme, lexemes.map Lexeme.text = texts ∧
      lexemes.map (fun l => l.token.bare) = tokensOf texts := by
  induction texts with
  | nil => exact ⟨[], rfl, rfl⟩
  | cons text texts ih =>
      obtain ⟨lexemes, htexts, htokens⟩ :=
        ih fun text' h' => h text' (List.mem_cons_of_mem _ h')
      obtain ⟨t, ht⟩ := h text List.mem_cons_self
      refine ⟨⟨text, t, ht⟩ :: lexemes, ?_, ?_⟩
      · rw [List.map_cons, htexts]
      · have hbare : (Token.ofText? text.toList).map Token.bare
            = some t.bare := by
          rw [ht]
          rfl
        rw [List.map_cons, htokens, tokensOf_cons hbare]

namespace Lexeme

theorem unbroken_words [NameProperties]
    (lexemes : List Lexeme) (newLine : Bool) :
    Unbroken (words newLine lexemes) := by
  induction lexemes generalizing newLine with
  | nil => exact .nil
  | cons l rest ih =>
      cases rest with
      | nil => exact .singleton _
      | cons next rest =>
          refine List.isChain_cons_cons.2 ⟨fun hk => ?_, ih l.breaks⟩
          have hk : l.token.kind = .identifier := hk
          exact not_breaks (by simp [hk]) (by simp [hk])

/-- A strict parse starts in front of the tokens of the text. -/
theorem faces_spaced [NameProperties] (lexemes : List Lexeme) :
    ∃ s, Parse.skip (.ofText (spaced lexemes) false) = .ok () s ∧
      s.Faces (lexemes.map fun l => l.token.bare) := by
  obtain ⟨s, hskip, hs, hr, hwords⟩ := skip_spaced lexemes
  refine ⟨s, hskip, hs, hr, ?_, ?_⟩
  · rw [hwords]
    exact unbroken_words lexemes false
  · rw [hwords, words_token]

end Lexeme

-- ========================================================= statements

namespace Parse

variable {α : Type} {q : α → Prop}

theorem Gives.standAt {place : Position} {f : Unit → Parse α}
    (h : (f ()).Gives ahead q rest) :
    (Parse.standAt place >>= f).Gives ahead q rest := by
  intro s hs
  exact h ⟨⟨hs.sound.log, hs.sound.rest, hs.sound.lookahead⟩,
    hs.readable, hs.unbroken, hs.tokens⟩

/-- The statement that an expression in parentheses is. -/
theorem gives_item [NameProperties]
    {e : Expression π} (he : e.Writable) {n : Nat} {jumps : Jumps}
    (hn : (tokensOf ("(" :: e.written ++ [")", ";"])).length ≤ n) :
    (item (.ofDepth n) jumps).Gives
      (tokensOf ("(" :: e.written ++ [")", ";"]))
      (fun s => s.shape = .expression e.shape ()) [] := by
  have htokens : tokensOf ("(" :: e.written ++ [")", ";"])
      = tokensOf ("(" :: e.written ++ [")"]) ++ [.ofMark ";"] := by
    have hsplit : "(" :: e.written ++ [")", ";"]
        = ("(" :: e.written ++ [")"]) ++ [";"] := by simp
    rw [hsplit, tokensOf_append,
      tokensOf_cons (ofText?_mark ";" (by decide)), tokensOf_nil]
  rw [htokens] at hn ⊢
  have hgroup := he.readBack.group hn
  have hd := depth_pos hn
  rw [Expression.tokensOf_group] at hgroup ⊢
  -- The group is all that stands in front of the semicolon.
  have hassignment := gives_assignment_of_power hd
    (endsExpression_ofMark ";" (by decide))
    (gives_power_of_primary hd ⟨by decide, by decide, by decide⟩
      (endsExpression_ofMark ";" (by decide)).toEndsOperand
      (Expression.primary_of_group hgroup))
  have hexpression : (expression (.ofDepth n)).Gives
      (.ofMark "(" :: (tokensOf e.written ++ [.ofMark ")", .ofMark ";"]))
      e.Alike [.ofMark ";"] := by
    refine .lookahead fun first _ => .bind hassignment fun e' he' => ?_
    refine .bind (gives_furtherItems_none hd (by decide)) ?_
    rintro _ rfl
    exact .pure he'
  -- No declaration and no other statement starts with a parenthesis.
  refine .isAtWord (.isAtWord (.lookahead fun t' ht' => ?_))
  have hkind : t'.kind = .punctuator := congrArg Token.kind ht'
  have hbrace : t'.isPunctuator "\x7b" = false := by
    rw [show t'.isPunctuator "\x7b" = t'.bare.isPunctuator "\x7b" from rfl,
      ht']
    decide
  have hsemicolon : t'.isPunctuator ";" = false := by
    rw [show t'.isPunctuator ";" = t'.bare.isPunctuator ";" from rfl, ht']
    decide
  simp only [hkind, hbrace, hsemicolon]
  have hend : endStatement.Gives [.ofMark ";"] (fun _ => True) [] := by
    refine .lookahead fun u hu => ?_
    have hmark : u.isPunctuator ";" = true := by
      rw [show u.isPunctuator ";" = u.bare.isPunctuator ";" from rfl, hu]
      decide
    rw [hmark]
    exact .pass
  refine .lookahead fun first _ => .bind hexpression fun e' he' => ?_
  refine .bind hend fun _ _ => .close fun span => .pure ?_
  exact congrArg (Statement.expression · ()) he'

theorem gives_beforeEnd {t : Token} :
    (do return !(← lookahead).isEnd : Parse Bool).Gives (t :: ahead)
      (· = true) (t :: ahead) := by
  intro s hs
  obtain ⟨w, ws, hwords, -⟩ := List.map_eq_cons_iff.1 hs.tokens
  refine ⟨true, s, ?_, rfl, hs⟩
  rw [lookahead_bind, (ParseState.words_cons hwords).1]
  rfl

theorem gives_atEnd :
    (do return !(← lookahead).isEnd : Parse Bool).Gives [] (· = false)
      [] := by
  intro s hs
  have hwords : s.words = [] := List.map_eq_nil_iff.1 hs.tokens
  refine ⟨false, s, ?_, rfl, hs⟩
  rw [lookahead_bind, ParseState.isEnd_of_words_nil hwords]
  rfl

/-- A script of one statement. -/
theorem script_of_item {n : Nat} {t : Token} {q : Statement Span → Prop}
    (h : ((Productions.ofDepth n).item .ofScript).Gives (t :: ahead) q [])
    (hn : 2 ≤ n) {s s₁ : ParseState} (hskip : skip s = .ok () s₁)
    (hs₁ : s₁.Faces (t :: ahead)) :
    ∃ script s', Parse.script (.ofDepth n) s = .ok script s' ∧
      ∃ statement, script.body = [statement] ∧ q statement := by
  obtain ⟨m, rfl⟩ : ∃ m, n = m + 2 := ⟨n - 2, by omega⟩
  have hbody : (collectWhile (do return !(← lookahead).isEnd)
      ((Productions.ofDepth (m + 2)).item .ofScript) (m + 2)).Gives
      (t :: ahead) (fun l => ∃ statement, l = [statement] ∧ q statement)
      [] := by
    refine .bind gives_beforeEnd ?_
    rintro _ rfl
    have hnone : (collectWhile (do return !(← lookahead).isEnd)
        ((Productions.ofDepth (m + 2)).item .ofScript) (m + 1)).Gives []
        (· = []) [] := by
      refine .bind gives_atEnd ?_
      rintro _ rfl
      exact .pure rfl
    refine .bind h fun statement hq => .bind hnone ?_
    rintro _ rfl
    exact .pure ⟨statement, rfl, hq⟩
  have hscript : (do
      let first ← lookahead
      standAt first.span.stop
      let body ← collectWhile (do return !(← lookahead).isEnd)
        ((Productions.ofDepth (m + 2)).item .ofScript)
        (Productions.ofDepth (m + 2)).depth
      let span ← close .script first.span.start
      return (⟨body, span⟩ : Script Span)).Gives (t :: ahead)
      (fun script => ∃ statement, script.body = [statement] ∧ q statement)
      [] := by
    rw [Productions.depth_ofDepth]
    refine .lookahead fun first _ => .standAt ?_
    exact .bind hbody fun body hq => .close fun span => .pure hq
  obtain ⟨script, s', hrun, hq, -⟩ := hscript hs₁
  exact ⟨script, s', bind_ok.2 ⟨(), s₁, hskip, hrun⟩, hq⟩

end Parse

-- ======================================================== the theorem

theorem Statement.shape_map (f : π → ρ) (s : Statement π) :
    (s.map f).shape = s.shape := s.map_map

/-- Any expression that can be written is what a strict parse makes of
its text, up to places: the only statement there is. -/
theorem parse_writable [NameProperties] (options : Options) (e : Expression π)
    (hstrict : options.tolerant = false) (he : e.Writable) :
    ∃ report, parse options e.text = .ok report ∧
      report.script.body.map Statement.shape
        = [.expression e.shape ()] := by
  have hlexemes : ∀ text ∈ "(" :: e.written ++ [")", ";"],
      IsLexeme text := by
    intro text h
    rw [List.mem_append, List.mem_cons, List.mem_cons,
      List.mem_singleton] at h
    rcases h with (rfl | h) | rfl | rfl
    · exact isLexeme_mark (by decide)
    · exact he.isLexeme text h
    · exact isLexeme_mark (by decide)
    · exact isLexeme_mark (by decide)
  obtain ⟨lexemes, htexts, htokens⟩ := exists_lexemes hlexemes
  have htext : e.text = Lexeme.spaced lexemes := by
    rw [Lexeme.spaced, htexts]
    rfl
  -- Behind its first shift the parse faces the tokens of the lexemes.
  obtain ⟨s₁, hskip, hs₁⟩ := Lexeme.faces_spaced lexemes
  rw [htokens] at hs₁
  rw [← htext] at hskip
  have hlength : (tokensOf ("(" :: e.written ++ [")", ";"])).length
      ≤ e.text.length := by
    rw [← htokens, List.length_map, htext]
    exact Lexeme.length_le_spaced lexemes
  obtain ⟨t, ts, hts⟩ : ∃ t ts,
      tokensOf ("(" :: e.written ++ [")", ";"]) = t :: ts :=
    ⟨_, _, tokensOf_cons (ofText?_mark "(" (by decide)) _⟩
  -- They are one item, and the script has no other.
  have hitem : ((Productions.ofDepth (e.text.length + 1)).item
      .ofScript).Gives (tokensOf ("(" :: e.written ++ [")", ";"]))
      (fun s => s.shape = .expression e.shape ()) [] :=
    Parse.gives_item he hlength
  rw [hts] at hlength hitem hs₁
  have hdepth : 2 ≤ e.text.length + 1 :=
    Nat.succ_le_succ (Nat.le_trans (Nat.succ_pos _) hlength)
  obtain ⟨script, s', hscript, statement, hbody, hshape⟩ :=
    Parse.script_of_item hitem hdepth hskip hs₁
  rw [← hstrict] at hscript
  refine ⟨_, parse_ok.2 ⟨script, s', hscript, rfl⟩, ?_⟩
  show (Statement.mapAll options.locate script.body).map Statement.shape = _
  rw [Statement.mapAll_eq, hbody, List.map_singleton, List.map_singleton,
    Statement.shape_map, hshape]

/-- An expression with parts within parts: a choice between a call and an
assignment, by a power of sums. -/
theorem parse_writable_nested :
    let a : Identifier Unit := ⟨"a", ()⟩
    let sum : Expression Unit := .binary .add
      (.update .increment (.identifier a) false ())
      (.unary .minus (.identifier a) true ()) ()
    let e : Expression Unit := .conditional (.binary .power sum sum ())
      (.call sum [.sequence [.identifier a, sum] ()] ())
      (.assignment .add (.identifier a)
        (.logical .or sum (.literal (.boolean true) "true" ()) ()) ()) ()
    ({} : Options).tolerant = false ∧ e.Writable ∧
      ∃ report, parse {} e.text = .ok report ∧
        report.script.body.map Statement.shape
          = [.expression e.shape ()] := by
  intro a sum e
  have ha : a.Writable := by
    refine ⟨⟨⟨.identifier, .text "a", "a", ⟨⟨0, 1, 0⟩, ⟨1, 1, 0⟩⟩⟩, ?_,
      rfl⟩, by decide⟩
    decide +kernel
  have htrue : (Expression.literal (.boolean true) "true" ()).Writable := by
    refine .literal (t := ⟨.boolean, .text "true", "true",
      ⟨⟨0, 1, 0⟩, ⟨4, 1, 0⟩⟩⟩) ?_ rfl rfl
    decide +kernel
  have hsum : sum.Writable := .binary (.update ha) (.unary (.identifier ha))
  have he : e.Writable := by
    refine .conditional (.binary hsum hsum) (.call hsum ?_)
      (.assignment ha (.logical hsum htrue))
    intro e he
    rw [List.mem_singleton.1 he]
    refine .sequence (by decide) fun e he => ?_
    rcases List.mem_cons.1 he with rfl | he
    · exact .identifier ha
    · rw [List.mem_singleton.1 he]
      exact hsum
  exact ⟨rfl, he, parse_writable {} e rfl he⟩

end ScriptTree
