/-
What a loop starts with.

# Elsewhere

A strict parse reads an expression alike wherever its words stand, if it
does not come to the end of them. What stands after them does not matter,
since the parse does not get there (`extension`), nor does it matter
whether the first one starts on a new line, since that is not looked at
(`Concord.ofWords`). Both together are `Parse.expression_elsewhere`.

# The head of a loop

A loop opens with two tokens (`Parse.forLoop_eq`), after which there is an
expression or a declaration. The words `const` and `let` declare in any
case, so that a loop cannot start with a variable called `let`
(`Parse.forInit_of_let`). The word `var` is looked at as in a statement.
-/
import ScriptTree.Proofs.SharedTokens
import ScriptTree.Proofs.SingleStatement
import ScriptTree.Proofs.Transparent

namespace ScriptTree

-- ========================================================= elsewhere

namespace ParseState

variable {s s' : ParseState} {w : Word} {ws : List Word}

/-- Words are compared with their line breaks. -/
theorem Resembles.words_eq (h : s.Resembles true s') :
    s'.words = s.words := by
  have hlength := congrArg List.length h.words
  rw [TokenStream.wordsFrom_length h.readable,
    TokenStream.wordsFrom_length h.readable'] at hlength
  have hend := View.isEnd_eq (Token.view_eq_of_bare h.lookahead)
  unfold ParseState.words
  rw [hend, h.lookahead, h.lineBreak rfl, h.readable'.words_eq,
    h.readable.words_eq, h.words, Nat.succ.inj hlength]

/-- The same state, but for the line break in front of its lookahead. -/
def withLineBreak (s : ParseState) (newLine : Bool) : ParseState :=
  { s with lineBreak := newLine }

theorem Ahead.withLineBreak (h : s.Ahead (w :: ws)) (newLine : Bool) :
    (s.withLineBreak newLine).Ahead (⟨w.token, newLine⟩ :: ws) where
  sound := ⟨h.sound.log, h.sound.rest, h.sound.lookahead⟩
  readable := h.readable
  words := by
    have hwords := h.words
    rw [words_of_not_end h.lookahead.1, List.cons.injEq] at hwords
    have hend : (s.withLineBreak newLine).lookahead.isEnd = false :=
      h.lookahead.1
    rw [words_of_not_end hend, ← h.lookahead.2.1, ← hwords.2]
    rfl

end ParseState

open ParseState

namespace Parse

variable {n n' : Nat} {s s' v : ParseState} {w w' : Word}
  {ws tail : List Word} {e : Expression Span}

/-- The line break in front of an expression does not matter to it. -/
theorem expression_withLineBreak (hs : s.Ahead (w :: ws))
    (hn : ws.length < n) (hn' : ws.length < n') {newLine : Bool}
    (h : expression (.ofDepth n) (s.withLineBreak newLine) = .ok e v) :
    ∃ e' v', expression (.ofDepth n') s = .ok e' v' ∧
      e'.shape = e.shape ∧ v'.Ahead v.words := by
  have hs₁ := hs.withLineBreak newLine
  have hends : (s.withLineBreak newLine).Ends := by
    intro hend
    rw [hs₁.lookahead.1] at hend
    cases hend
  have hsame : (s.withLineBreak newLine).Resembles false s :=
    ⟨rfl, rfl, hs.readable, hs.readable, hends, nofun, rfl, rfl⟩
  have hahead : (s.withLineBreak newLine).ahead < ws.length + 1 + 1 := by
    rw [ahead_eq_length, hs₁.words, List.length_cons]
    exact Nat.lt_succ_self _
  have hends := Concord.consumes_expression
    (Concord.levels_ofDepth Concord.ofWords hn hn')
    ⟨hsame, hahead, nofun⟩
  rw [h] at hends
  cases hrun : expression (.ofDepth n') s with
  | error failure v' =>
      rw [hrun] at hends
      cases hends
  | ok e' v' =>
      rw [hrun] at hends
      have hsim := Simulation.advances_expression
        (Simulation.levels_ofDepth (extension []) (Nat.le_refl n'))
      cases hends with
      | ok he hv =>
          exact ⟨e', v', rfl, he, Reaches.sound (hsim.runs hrun) hs.sound,
            hv.related.readable', hv.related.words_eq⟩

/-- An expression that is read in front of some words is read alike where
these stand elsewhere, with more after them. -/
theorem expression_elsewhere (hs : s.Ahead (w :: ws))
    (hs' : s'.Ahead (w' :: (ws ++ tail))) (hw : w'.token = w.token)
    (hn : (ws ++ tail).length < n')
    (h : expression (.ofDepth n) s = .ok e v) (hv : v.words ≠ []) :
    ∃ e' v', expression (.ofDepth n') s' = .ok e' v' ∧
      e'.shape = e.shape ∧ v'.Ahead (v.words ++ tail) := by
  have hmoved := hs'.withLineBreak w.newLine
  rw [hw] at hmoved
  have hsim := Simulation.advances_expression
    (Simulation.levels_ofDepth (extension tail) (Nat.le_add_right n n'))
  obtain ⟨e₁, v₁, h₁, he₁, w₁, ws₁, hv₁, hv₁'⟩ :=
    hsim.carries ⟨w, ws, hs, hmoved⟩ h hv
  obtain ⟨e', v', h', he', hv'⟩ :=
    expression_withLineBreak hs' (Nat.lt_add_left n hn) hn h₁
  rw [hv₁'.words] at hv'
  rw [hv₁.words]
  exact ⟨e', v', h', he'.trans he₁, hv'⟩

end Parse

-- ==================================================== the first words

namespace Parse

variable {inner : Productions} {jumps : Jumps} {s u v : ParseState}
  {w next : Word} {ws : List Word} {e : Expression Span}

/-- Whether `var` declares shows in the first two words. -/
theorem isAtVar_ahead (h : s.Ahead (w :: next :: ws)) :
    isAtVar s = .ok (w.token.isIdentifier "var"
      && (!next.newLine && next.token.startsBinding)) s := by
  have hname : s.lookahead.isIdentifier "var"
      = w.token.isIdentifier "var" := by
    rw [← h.lookahead.2.1]
    rfl
  unfold isAtVar
  rw [lookahead_bind, hname]
  cases w.token.isIdentifier "var" with
  | true => exact h.bindingAhead true
  | false => rfl

theorem forKind_eq_none (hconst : s.lookahead.isKeyword "const" = false)
    (hlet : s.lookahead.isKeyword "let" = false)
    (hvar : isAtVar s = .ok false s) : forKind s = .ok none s := by
  unfold forKind
  rw [isAtWord_bind, hconst, if_neg (by simp), isAtWord_bind, hlet,
    if_neg (by simp), bind_of_ok hvar]
  rfl

/-- A loop starts with an expression where nothing is declared. -/
theorem forInit_of_expression
    (hmark : s.lookahead.isPunctuator ";" = false)
    (hkind : forKind s = .ok none s) (h : expression inner s = .ok e v)
    (hend : expect ";" v = .ok () u) :
    forInit inner s = .ok (some (.expression e)) u := by
  have hstart : forStart inner s = .ok (.expression e) v := by
    unfold forStart
    rw [lookahead_bind, bind_of_ok hkind]
    exact map_ok.2 ⟨e, h, rfl⟩
  unfold forInit
  rw [isAt_bind, hmark, if_neg (by simp), bind_of_ok hstart,
    bind_of_ok hend]
  rfl

/-- Where no name can be bound, none is declared. -/
theorem declarators_refused (hs : s.Ahead (w :: ws))
    (hw : w.token.startsBinding = false) :
    ∃ d u, declarators inner .letting s = .error (.refused d) u := by
  obtain ⟨s₁, hshift, -⟩ := hs.shift
  have hplain : s.lookahead.startsBinding = false := by
    rw [← hw, ← hs.lookahead.2.1]
    rfl
  simp only [Token.startsBinding, Bool.or_eq_false_iff,
    decide_eq_false_iff_not] at hplain
  obtain ⟨⟨⟨hname, -⟩, -⟩, hword⟩ := hplain
  have hrefuse : refuseLet .letting s = .ok () s := by
    unfold refuseLet
    rw [lookahead_bind, hword]
    rfl
  obtain ⟨d, hbound⟩ :
      ∃ d, boundName false s = .error (.refused d) s₁ := by
    unfold boundName
    rw [bind_of_ok hshift, if_neg (by simp [hname])]
    exact ⟨_, rfl⟩
  refine ⟨d, s₁, ?_⟩
  unfold declarators declarator
  apply bind_of_error
  rw [lookahead_bind, bind_of_ok hrefuse]
  exact bind_of_error hbound

/-- After `let` there must be a name to bind. -/
theorem forInit_of_let (hlet : s.lookahead.isKeyword "let" = true)
    (hs : s.Ahead (w :: next :: ws))
    (hnext : next.token.startsBinding = false) :
    ∃ d u, forInit inner s = .error (.refused d) u := by
  obtain ⟨hkeyword, htext⟩ := Token.isKeyword_iff.1 hlet
  have hmark : s.lookahead.isPunctuator ";" = false := by
    simp [Token.isPunctuator, hkeyword]
  have hconst : s.lookahead.isKeyword "const" = false := by
    simp [Token.isKeyword, htext]
  have hkind : forKind s = .ok (some .letting) s := by
    unfold forKind
    rw [isAtWord_bind, hconst, if_neg (by simp), isAtWord_bind, hlet]
    rfl
  obtain ⟨s₁, hskip, hs₁⟩ := hs.skip
  obtain ⟨d, u, hdeclarators⟩ := declarators_refused hs₁ hnext
  have hstart : forStart inner s = .error (.refused d) u := by
    unfold forStart
    rw [lookahead_bind, bind_of_ok hkind]
    exact (bind_of_ok hskip).trans (bind_of_error hdeclarators)
  refine ⟨d, u, ?_⟩
  unfold forInit
  rw [isAt_bind, hmark]
  exact bind_of_error hstart

-- =========================================================== the loop

theorem item_of_for (h : s.lookahead.bare = .ofWord "for") :
    item inner jumps s = forLoop inner jumps s := by
  have hword (word : String) : s.lookahead.isKeyword word
      = (Token.ofWord "for").isKeyword word := by
    rw [← h]
    rfl
  have hkind : s.lookahead.kind = .keyword := congrArg Token.kind h
  have hshown : s.lookahead.shown = "for" := congrArg Token.shown h
  unfold item
  rw [isAtWord_bind, hword, if_neg (by decide), isAtWord_bind, hword,
    if_neg (by decide)]
  unfold statement
  rw [lookahead_bind]
  simp only [hkind, hshown]
  rfl

/-- The rest of a loop, after what it starts with. -/
def forTail (inner : Productions) (jumps : Jumps) (start : Position)
    (init : Option (ForInit Span)) : Parse (Statement Span) := do
  let test ← optionalExpression inner ";"
  expect ";"
  let update ← optionalExpression inner ")"
  let body ← loopBody inner jumps
  let span ← close .forStatement start
  return .forLoop init test update body span

/-- Two tokens open a loop. -/
theorem forLoop_eq (inner : Productions) (jumps : Jumps) {w₁ w₂ : Word}
    (hs : s.Ahead (w₁ :: w₂ :: ws))
    (hopen : w₂.token = .ofMark "(") :
    ∃ s₂, s₂.Ahead ws ∧ forLoop inner jumps s
      = (forInit inner >>= forTail inner jumps s.lookahead.span.start)
        s₂ := by
  obtain ⟨s₁, hskip, hs₁⟩ := hs.skip
  obtain ⟨s₂, hskip₁, hs₂⟩ := hs₁.skip
  have hmark : s₁.lookahead.isPunctuator "(" = true := by
    show s₁.lookahead.bare.isPunctuator "(" = true
    rw [hs₁.lookahead.2.1, hopen]
    decide
  have hexpect : expect "(" s₁ = .ok () s₂ := expect_ok.2 ⟨hmark, hskip₁⟩
  refine ⟨s₂, hs₂, ?_⟩
  unfold forLoop
  rw [lookahead_bind, bind_of_ok hskip, bind_of_ok hexpect]
  rfl

/-- A rest with no test, no step and an empty statement. -/
theorem gives_forTail {n : Nat} {start : Position}
    {init : Option (ForInit Span)} :
    (forTail (.ofDepth (n + 1)) jumps start init).Gives
      [.ofMark ";", .ofMark ")", .ofMark ";"]
      (fun st => st.shape = .forLoop
        (ForInit.mapOption (fun _ => ()) init) none none (.empty ()) ())
      [] := by
  have hnone {mark : String} {t : Token} {ahead : List Token}
      (ht : t.isPunctuator mark = true) :
      (optionalExpression (.ofDepth (n + 1)) mark).Gives (t :: ahead)
        (· = none) (t :: ahead) := by
    refine .isAt ?_
    rw [ht]
    exact .pure rfl
  have hempty : (statement (.ofDepth n) jumps.loop).Gives [.ofMark ";"]
      (fun st => st.shape = .empty ()) [] := by
    refine .lookahead fun t ht => ?_
    have hkind : t.kind = .punctuator := congrArg Token.kind ht
    have hmark (mark : String) :
        t.isPunctuator mark = (Token.ofMark ";").isPunctuator mark := by
      rw [← ht]
      rfl
    simp only [hkind, hmark]
    exact .lookahead fun first _ => .skip (.close fun span => .pure rfl)
  have hpresent : missingParenthesis.Gives [.ofMark ")", .ofMark ";"]
      (· = false) [.ofMark ")", .ofMark ";"] :=
    .isAt (.isTolerant (.pure rfl))
  have hbody : (loopBody (.ofDepth (n + 1)) jumps).Gives
      [.ofMark ")", .ofMark ";"] (fun st => st.shape = .empty ()) [] := by
    refine .bind hpresent ?_
    rintro _ rfl
    exact .expect (by decide) hempty
  refine .bind (hnone (by decide)) ?_
  rintro _ rfl
  refine .expect (by decide) (.bind (hnone (by decide)) ?_)
  rintro _ rfl
  refine .bind hbody fun body hshape => .close fun span => .pure ?_
  show Statement.forLoop _ _ _ body.shape () = _
  rw [hshape]
  rfl

end Parse

end ScriptTree
