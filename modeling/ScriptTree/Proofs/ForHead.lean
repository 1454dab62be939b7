/-
Expressions as statements, and in the heads of loops.

# What is compared

A text is some tokens and a semicolon, and a strict parse makes one
statement of it, which is an expression. In another text the same tokens
are what a loop starts with. The two texts have the words of the
expression in common, but for a line break in front of them
(`LoopTokens.looped`).

# The statement and the loop

The statement reads the expression first, and leaves the semicolon for
its end (`Looped.words_eq`), so that the expression is read alike in the
loop. What a statement does not take for a declaration, a loop does not
take for one either, with one exception: a loop does not look beyond the
word `let`. An expression that starts with this word, as a variable, is a
statement, and is refused in the head of a loop (`parse_forHead`).
-/
import ScriptTree.Proofs.ExpressionStatement
import ScriptTree.Proofs.LastToken
import ScriptTree.Proofs.LoopHead
import ScriptTree.Source.NameRanges

namespace ScriptTree

-- ============================================================= tokens

/-- Some tokens with a semicolon after them, and the same tokens as the
start of a loop. -/
structure LoopTokens (part part' last front back : List Token) :
    Prop where
  raw : part'.map Token.raw = part.map Token.raw
  bare : part'.map Token.bare = part.map Token.bare
  last : last.map Token.bare = [.ofMark ";"]
  front : front.map Token.bare = [.ofWord "for", .ofMark "("]
  back : back.map Token.bare
    = [.ofMark ";", .ofMark ";", .ofMark ")", .ofMark ";"]

/-- Tokens come apart as what is written of them does. -/
theorem exists_loopTokens [NameProperties] {tokens tokens' : List Token}
    {e : List (Option TokenKind × String)}
    (hplain : ∀ t ∈ tokens, t.Plain ∧ t.Lexed)
    (hplain' : ∀ t ∈ tokens', t.Plain ∧ t.Lexed)
    (h : tokens.map (fun t => TokenEntry.written (.token t))
      = e ++ [writtenMark ";"])
    (h' : tokens'.map (fun t => TokenEntry.written (.token t))
      = [writtenWord "for", writtenMark "("] ++ e
        ++ [writtenMark ";", writtenMark ";", writtenMark ")",
          writtenMark ";"]) :
    ∃ part part' last front back, tokens = part ++ last ∧
      tokens' = front ++ part' ++ back ∧
      part.map (fun t => TokenEntry.written (.token t)) = e ∧
      LoopTokens part part' last front back := by
  obtain ⟨part, last, rfl, hpart, hlast⟩ := List.map_eq_append_iff.1 h
  obtain ⟨_, back, rfl, hopen, hback⟩ := List.map_eq_append_iff.1 h'
  obtain ⟨front, part', rfl, hfront, hpart'⟩ :=
    List.map_eq_append_iff.1 hopen
  have hraw : part'.map Token.raw = part.map Token.raw := by
    have hsnd := congrArg (List.map Prod.snd) (hpart'.trans hpart.symm)
    rwa [List.map_map, List.map_map] at hsnd
  refine ⟨part, part', last, front, back, rfl, rfl, hpart, {
    raw := hraw
    bare := Token.map_bare_eq (fun t ht => (hplain t (by simp [ht])).2)
      (fun t ht => (hplain' t (by simp [ht])).2) hraw
    last := ?_
    front := ?_
    back := ?_ }⟩
  · exact Token.map_bare_of_written [(.punctuator, ";")]
      (fun t ht => (hplain t (by simp [ht])).1) (by simp) hlast
  · exact Token.map_bare_of_written
      [(.keyword, "for"), (.punctuator, "(")]
      (fun t ht => (hplain' t (by simp [ht])).1) (by simp) hfront
  · exact Token.map_bare_of_written
      [(.punctuator, ";"), (.punctuator, ";"), (.punctuator, ")"),
        (.punctuator, ";")]
      (fun t ht => (hplain' t (by simp [ht])).1) (by simp) hback

-- ============================================================== words

/-- A state in front of some words that end with a semicolon, and one in
front of a loop that starts with the same words. -/
structure ParseState.Looped (w w' : Word) (ws tail : List Word)
    (s s' : ParseState) : Prop where
  alone : s.Ahead (w :: ws)
  stop : ∃ front last, w :: ws = front ++ [last] ∧
    last.token = .ofMark ";"
  looped : ∃ w₁ w₂, s'.Ahead (w₁ :: w₂ :: w' :: (ws ++ tail)) ∧
    w₁.token = .ofWord "for" ∧ w₂.token = .ofMark "("
  first : w'.token = w.token
  tail : tail.map Word.token = [.ofMark ";", .ofMark ")", .ofMark ";"]

namespace LoopTokens

variable {part part' last front back : List Token}

/-- Up to the last three tokens of the loop both go on alike. -/
theorem exists_first (h : LoopTokens part part' last front back) :
    ∃ first later, later.length = part.length ∧
      (part ++ last).map Token.bare = first :: later ∧
      (front ++ part' ++ back).map Token.bare
        = .ofWord "for" :: .ofMark "(" :: first :: (later
          ++ [.ofMark ";", .ofMark ")", .ofMark ";"]) := by
  simp only [List.map_append, h.last, h.front, h.bare, h.back]
  cases part with
  | nil => exact ⟨.ofMark ";", [], rfl, rfl, rfl⟩
  | cons t part =>
      exact ⟨t.bare, part.map Token.bare ++ [.ofMark ";"], by simp, rfl,
        by simp⟩

/-- Such tokens are such words, where the lines are ended after the same
tokens. -/
theorem looped [NameProperties] {text text' : List Char} {s s' : ParseState}
    {line line' : Nat} (h : LoopTokens part part' last front back)
    (hread : (TokenStream.ofText text).Readable)
    (hread' : (TokenStream.ofText text').Readable)
    (htokens : (TokenStream.ofText text).tokens = part ++ last)
    (htokens' : (TokenStream.ofText text').tokens
      = front ++ part' ++ back)
    (hbreaks : ((breaksAfter text' ((front ++ part' ++ back).map
        Token.span)).drop 2).take part.length
      = (breaksAfter text ((part ++ last).map
        Token.span)).take part.length)
    (hs : s.Ahead ((TokenStream.ofText text).words line))
    (hs' : s'.Ahead ((TokenStream.ofText text').words line')) :
    ∃ w w' ws tail, s.Looped w w' ws tail s' ∧
      (part ++ last).head?.map Token.bare = some w.token := by
  obtain ⟨first, later, hlater, hfirst, hfirst'⟩ := h.exists_first
  have htoken := TokenStream.map_token_words (.ofText text) line
  have htoken' := TokenStream.map_token_words (.ofText text') line'
  have hlines := TokenStream.map_newLine_words hread line
  have hlines' := TokenStream.map_newLine_words hread' line'
  rw [htokens] at htoken hlines
  rw [htokens'] at htoken' hlines'
  have hfront : front.length = 2 := by
    simpa using congrArg List.length h.front
  rw [← hfront] at hbreaks
  have hshared := Token.endsLine_shared h.raw hbreaks
  rw [hfront, ← hlater] at hshared
  have hcount : (part ++ last).length - 1 = later.length := by
    have hlength := congrArg List.length hfirst
    rw [List.length_map, List.length_cons] at hlength
    omega
  have hcount' : (front ++ part' ++ back).length - 1
      = 2 + later.length + 3 := by
    have hlength := congrArg List.length hfirst'
    simp only [List.length_map, List.length_cons, List.length_append,
      List.length_nil] at hlength ⊢
    omega
  -- The words are split where the tokens are.
  obtain ⟨w, ws, w₁, w₂, w', tail, hwords, hwords', hw, hw₁, hw₂, hw',
    htail⟩ := Word.split_of_part (htoken.trans hfirst)
      (htoken'.trans hfirst') (hcount ▸ hlines) (hcount' ▸ hlines') hshared
  rw [hwords] at hs htoken
  rw [hwords'] at hs'
  refine ⟨w, w', ws, tail, {
    alone := hs
    stop := ?_
    looped := ⟨w₁, w₂, hs', hw₁, hw₂⟩
    first := hw'.trans hw.symm
    tail := htail }, ?_⟩
  · rw [List.map_append, h.last] at htoken
    obtain ⟨start, stop, hsplit, -, hstop⟩ :=
      List.map_eq_append_iff.1 htoken
    obtain ⟨last, rfl, hlast⟩ := List.map_eq_singleton_iff.1 hstop
    exact ⟨start, last, hsplit, hlast⟩
  · rw [← List.head?_map, hfirst, hw]
    rfl

/-- The first word shows what is written first. -/
theorem isKeyword_iff {e : List (Option TokenKind × String)} {w : Word}
    (h : LoopTokens part part' last front back)
    (hplain : ∀ t ∈ part, t.Plain)
    (he : part.map (fun t => TokenEntry.written (.token t)) = e)
    (hw : (part ++ last).head?.map Token.bare = some w.token)
    (word : String) :
    w.token.isKeyword word = true
      ↔ e.head? = some (writtenWord word) := by
  subst he
  cases part with
  | nil =>
      rw [List.nil_append, ← List.head?_map, h.last] at hw
      rw [← Option.some.inj hw]
      simp [Token.isKeyword, Token.ofMark]
  | cons t part =>
      have hfirst : t.bare = w.token := Option.some.inj hw
      rw [← hfirst, List.map_cons, List.head?_cons, Option.some.injEq]
      exact (hplain t List.mem_cons_self).isKeyword_iff word

end LoopTokens

-- ========================================================= statements

/-- The end of a statement takes one word or none. -/
theorem Parse.words_of_endStatement {v u : ParseState} (hv : v.Sound)
    (h : Parse.endStatement v = .ok () u) :
    u.words = v.words ∨ u.words = v.words.tail := by
  unfold endStatement at h
  rw [lookahead_bind] at h
  split at h
  case isTrue => exact .inr (hv.skip h).2
  case isFalse =>
    rw [afterLineBreak_bind] at h
    split at h
    case isTrue =>
      obtain ⟨-, rfl⟩ := pure_ok.1 h
      exact .inl rfl
    case isFalse =>
      split at h
      case isTrue =>
        cases h
        exact .inl rfl
      case isFalse => exact absurd h unexpected_ok

/-- Where there are no names, no line ends right after one. -/
theorem unbroken_of_kinds {words : List Word}
    (h : ∀ t ∈ words.map Word.token, t.kind ≠ .identifier) :
    Unbroken words := by
  induction words with
  | nil => exact .nil
  | cons w rest ih =>
      rw [List.map_cons, List.forall_mem_cons] at h
      cases rest with
      | nil => exact .singleton _
      | cons next rest =>
          exact List.isChain_cons_cons.2
            ⟨fun hkind => absurd hkind h.1, ih h.2⟩

namespace ParseState.Looped

variable {n n' : Nat} {jumps : Jumps} {s s' u v : ParseState}
  {w w' : Word} {ws tail : List Word} {e : Expression Span}
  {st : Statement Span}

/-- The semicolon is left for the end of the statement. -/
theorem words_eq (h : s.Looped w w' ws tail s')
    (hrun : Parse.expression (.ofDepth n) s = .ok e v)
    (hend : Parse.endStatement v = .ok () u) (hu : u.words = []) :
    ∃ last, v.words = [last] ∧ last.token = .ofMark ";" := by
  obtain ⟨front, last, hwords, hlast⟩ := h.stop
  have hs := h.alone
  rw [hwords] at hs
  have hfinished :=
    Parse.finishes_expression (Parse.finishingLevels_ofDepth n) hrun
  have hv := hfinished.reaches.sound hs.sound
  have hne := hfinished.words_ne_nil hs (by rw [hlast]; decide)
  obtain ⟨w₁, ws₁, hv₁⟩ := List.exists_cons_of_ne_nil hne
  rcases Parse.words_of_endStatement hv hend with hsame | htail
  · exact absurd (hsame.symm.trans hu) hne
  · rw [hu, hv₁, List.tail_cons] at htail
    subst htail
    obtain ⟨more, hsuffix⟩ := hfinished.reaches.words_suffix hs.sound
    rw [hs.words, hv₁] at hsuffix
    obtain ⟨-, hsingle⟩ := List.append_inj' hsuffix rfl
    obtain rfl := (List.cons.inj hsingle).1
    exact ⟨w₁, hv₁, hlast⟩

/-- In front of an expression there is more than a semicolon. -/
theorem exists_next (h : s.Looped w w' ws tail s')
    (hs : s.lookahead.isPunctuator ";" = false) :
    ∃ next later, ws = next :: later := by
  obtain ⟨front, last, hwords, hlast⟩ := h.stop
  cases ws with
  | cons next later => exact ⟨next, later, rfl⟩
  | nil =>
      have hsingle : w = last := by
        cases front with
        | nil => exact (List.cons.inj hwords).1
        | cons _ _ => simp at hwords
      have hmark : s.lookahead.bare.isPunctuator ";" = true := by
        rw [h.alone.lookahead.2.1, hsingle, hlast]
        decide
      have hplain : s.lookahead.bare.isPunctuator ";" = false := hs
      rw [hplain] at hmark
      cases hmark

variable {s₂ : ParseState}

/-- The statement and the head of the loop start with the same token. -/
theorem bare_eq (h : s.Looped w w' ws tail s')
    (hs₂ : s₂.Ahead (w' :: (ws ++ tail))) :
    s₂.lookahead.bare = s.lookahead.bare := by
  rw [hs₂.lookahead.2.1, h.first, h.alone.lookahead.2.1]

theorem isKeyword_eq (h : s.Looped w w' ws tail s')
    (hs₂ : s₂.Ahead (w' :: (ws ++ tail))) (word : String) :
    s₂.lookahead.isKeyword word = s.lookahead.isKeyword word := by
  show s₂.lookahead.bare.isKeyword word = s.lookahead.bare.isKeyword word
  rw [h.bare_eq hs₂]

/-- The loop declares nothing where the statement declares nothing. -/
theorem forKind (h : s.Looped w w' ws tail s')
    (hstarts : Parse.StartsExpression s)
    (hlet : s.lookahead.isKeyword "let" = false)
    (hs₂ : s₂.Ahead (w' :: (ws ++ tail))) :
    Parse.forKind s₂ = .ok none s₂ := by
  obtain ⟨next, later, rfl⟩ := h.exists_next hstarts.semicolon
  have hvar := hstarts.var
  rw [Parse.isAtVar_ahead h.alone, EStateM.Result.ok.injEq] at hvar
  have hvar₂ : Parse.isAtVar s₂ = .ok false s₂ := by
    rw [Parse.isAtVar_ahead hs₂, h.first, hvar.1]
  exact Parse.forKind_eq_none
    ((h.isKeyword_eq hs₂ "const").trans hstarts.const)
    ((h.isKeyword_eq hs₂ "let").trans hlet) hvar₂

/-- The head of the loop has the expression of the statement. -/
theorem forInit {last : Word} (h : s.Looped w w' ws tail s')
    (hn : (ws ++ tail).length < n')
    (hstarts : Parse.StartsExpression s)
    (hlet : s.lookahead.isKeyword "let" = false)
    (hrun : Parse.expression (.ofDepth n) s = .ok e v)
    (hv : v.words = [last]) (hlast : last.token = .ofMark ";")
    (hs₂ : s₂.Ahead (w' :: (ws ++ tail))) :
    ∃ e' v', Parse.forInit (.ofDepth n') s₂
        = .ok (some (.expression e')) v' ∧
      e'.shape = e.shape ∧
      v'.Faces [.ofMark ";", .ofMark ")", .ofMark ";"] := by
  obtain ⟨e', v₁, hrun', hshape, hv₁⟩ := Parse.expression_elsewhere
    h.alone hs₂ h.first hn hrun (by simp [hv])
  rw [hv] at hv₁
  obtain ⟨v', hskip, hv'⟩ := hv₁.skip
  have hmark : s₂.lookahead.isPunctuator ";" = false := by
    show s₂.lookahead.bare.isPunctuator ";" = false
    rw [h.bare_eq hs₂]
    exact hstarts.semicolon
  have hexpect : Parse.expect ";" v₁ = .ok () v' := by
    refine Parse.expect_ok.2 ⟨?_, hskip⟩
    show v₁.lookahead.bare.isPunctuator ";" = true
    rw [hv₁.lookahead.2.1, hlast]
    decide
  have htail : v'.words.map Word.token
      = [.ofMark ";", .ofMark ")", .ofMark ";"] := by
    rw [hv'.words]
    exact h.tail
  refine ⟨e', v', Parse.forInit_of_expression hmark
    (h.forKind hstarts hlet hs₂) hrun' hexpect, hshape, hv'.sound,
    hv'.readable, unbroken_of_kinds ?_, htail⟩
  rw [htail]
  simp [Token.ofMark]

/-- The head of the loop takes `let` for a declaration, and finds none. -/
theorem forInit_refused (h : s.Looped w w' ws tail s')
    (hstarts : Parse.StartsExpression s)
    (hlet : s.lookahead.isKeyword "let" = true)
    (hs₂ : s₂.Ahead (w' :: (ws ++ tail))) :
    ∃ d v, Parse.forInit (.ofDepth n') s₂ = .error (.refused d) v := by
  obtain ⟨next, later, rfl⟩ := h.exists_next hstarts.semicolon
  have hahead := hstarts.letting hlet
  rw [h.alone.bindingAhead, EStateM.Result.ok.injEq] at hahead
  have hnext : next.token.startsBinding = false := by
    simpa using hahead.1
  exact Parse.forInit_of_let ((h.isKeyword_eq hs₂ "let").trans hlet) hs₂
    hnext

/-- The loop starts with the expression of the statement, unless that
starts with `let`: then the loop is refused. -/
theorem item (h : s.Looped w w' ws tail s')
    (hn : (ws ++ tail).length < n')
    (hitem : Parse.item (.ofDepth n) jumps s = .ok st u)
    (he : st.expression? = some e) (hu : u.lookahead.isEnd = true) :
    (w.token.isKeyword "let" = false →
      ∃ st' u', Parse.item (.ofDepth n') jumps s' = .ok st' u' ∧
        st'.shape = .forLoop (some (.expression e.shape)) none none
          (.empty ()) () ∧ u'.lookahead.isEnd = true) ∧
    (w.token.isKeyword "let" = true →
      ∃ d u', Parse.item (.ofDepth n') jumps s'
        = .error (.refused d) u') := by
  obtain ⟨⟨v, u₁, hrun, hend, hstay⟩, hstarts⟩ :=
    Parse.expresses_of_item hitem he
  have hu₁ : u₁.words = [] :=
    words_of_end (by rw [← hstay.lookahead, hu])
  obtain ⟨last, hv, hlast⟩ := h.words_eq hrun hend hu₁
  have hfirst : s.lookahead.isKeyword "let" = w.token.isKeyword "let" := by
    rw [← h.alone.lookahead.2.1]
    rfl
  obtain ⟨n', rfl⟩ : ∃ k, n' = k + 1 := ⟨n' - 1, by omega⟩
  -- The loop is read up to where the statement's expression stands.
  obtain ⟨w₁, w₂, hlooped, hfor, hopen⟩ := h.looped
  obtain ⟨s₂, hs₂, hloop⟩ :=
    Parse.forLoop_eq (.ofDepth (n' + 1)) jumps hlooped hopen
  rw [Parse.item_of_for (hlooped.lookahead.2.1.trans hfor), hloop]
  constructor
  · intro hlet
    obtain ⟨e', v', hinit, hshape, hfaces⟩ :=
      h.forInit hn hstarts (hfirst.trans hlet) hrun hv hlast hs₂
    obtain ⟨st', u', hrest, hst, hu'⟩ := Parse.gives_forTail hfaces
    refine ⟨st', u', (bind_of_ok hinit).trans hrest, ?_,
      isEnd_of_words_nil (List.map_eq_nil_iff.1 hu'.tokens)⟩
    rw [hst, ← hshape]
    rfl
  · intro hlet
    obtain ⟨d, v', hinit⟩ :=
      h.forInit_refused hstarts (hfirst.trans hlet) hs₂
    exact ⟨d, v', bind_of_error hinit⟩

end ParseState.Looped

-- ======================================================== the theorem

theorem Statement.shape_eq_expression {π : Type} {st : Statement π}
    {x : Expression Unit} :
    st.shape = .expression x ()
      ↔ ∃ e, st.expression? = some e ∧ e.shape = x := by
  cases st with
  | expression e place =>
      simp [shape, map, expression?, Expression.shape]
  | _ => simp [shape, map, expression?]

/-- Some tokens and a semicolon are a script of one statement, which is an
expression. In another text the same tokens are what a loop starts with,
and lines are ended after the same ones of them. The loop starts with the
same expression then, and its head has nothing else, unless the first
token is `let`: such a loop is refused. -/
theorem parse_forHead [NameProperties]
    (options : Options) (text text' : List Char)
    (list list' : TokenList) (e : List (Option TokenKind × String))
    (x : Expression Unit) (report : Report)
    (hstrict : options.tolerant = false)
    (h : tokenList {} text = .ok list)
    (h' : tokenList {} text' = .ok list')
    (hwritten : list.entries.map TokenEntry.written
      = e ++ [writtenMark ";"])
    (hwritten' : list'.entries.map TokenEntry.written
      = [writtenWord "for", writtenMark "("] ++ e
        ++ [writtenMark ";", writtenMark ";", writtenMark ")",
          writtenMark ";"])
    (hbreaks : ((breaksAfter text' (list'.entries.map
        TokenEntry.span)).drop 2).take e.length
      = (breaksAfter text (list.entries.map
        TokenEntry.span)).take e.length)
    (hparse : parse options text = .ok report)
    (hbody : report.script.body.map Statement.shape
      = [.expression x ()]) :
    (e.head? ≠ some (writtenWord "let") →
      ∃ report', parse options text' = .ok report' ∧
        report'.script.body.map Statement.shape
          = [.forLoop (some (.expression x)) none none (.empty ()) ()]) ∧
    (e.head? = some (writtenWord "let") →
      ∃ d, parse options text' = .error (.refused d)) := by
  obtain ⟨hread, hentries⟩ := tokenList_readable h
  obtain ⟨hread', hentries'⟩ := tokenList_readable h'
  rw [hentries, List.map_map] at hwritten hbreaks
  rw [hentries', List.map_map] at hwritten' hbreaks
  have hplain : ∀ t ∈ (TokenStream.ofText text).tokens,
      t.Plain ∧ t.Lexed := fun t ht =>
    ⟨hread.plain t ht, TokenStream.lexed_ofText text t ht⟩
  have hplain' : ∀ t ∈ (TokenStream.ofText text').tokens,
      t.Plain ∧ t.Lexed := fun t ht =>
    ⟨hread'.plain t ht, TokenStream.lexed_ofText text' t ht⟩
  -- Both texts have the tokens of the expression, as parts.
  obtain ⟨part, part', last, front, back, htokens, htokens', he, hloop⟩ :=
    exists_loopTokens hplain hplain' hwritten hwritten'
  obtain ⟨s, st, u, hskip, hitem, hu, hst⟩ := item_of_parse hparse hbody
  obtain ⟨s₀, line, hskip₀, hs⟩ := ParseState.ahead_ofText hread
  obtain ⟨s', line', hskip', hs'⟩ := ParseState.ahead_ofText hread'
  rw [← hstrict] at hskip₀ hskip'
  obtain rfl : s₀ = s := by
    rw [hskip] at hskip₀
    cases hskip₀
    rfl
  rw [← he, List.length_map, htokens, htokens'] at hbreaks
  -- A script starts from the place where its first token ends.
  have hstart : ParseState.Ahead
      { s₀ with last := s₀.lookahead.span.stop } _ :=
    hs.of_eq rfl rfl rfl rfl
  have hstart' : ParseState.Ahead
      { s' with last := s'.lookahead.span.stop } _ :=
    hs'.of_eq rfl rfl rfl rfl
  obtain ⟨w, w', ws, tail, hlooped, hw⟩ := hloop.looped hread hread'
    htokens htokens' hbreaks hstart hstart'
  rw [htokens] at hplain
  have hlet := hloop.isKeyword_iff
    (fun t ht => (hplain t (by simp [ht])).1) he hw "let"
  obtain ⟨e₀, he₀, hx⟩ := Statement.shape_eq_expression.1 hst
  obtain ⟨w₁, w₂, hahead, -, -⟩ := hlooped.looped
  have hcount : (ws ++ tail).length < text'.length := by
    have hle := (ParseState.underway_of_skip hskip').ahead_le
    have hwords : s'.words = w₁ :: w₂ :: w' :: (ws ++ tail) := hahead.words
    rw [ParseState.ahead_eq_length, hwords] at hle
    simp only [List.length_cons] at hle
    omega
  -- So the loop is read along with the statement.
  obtain ⟨hsame, hrefused⟩ := hlooped.item hcount hitem he₀ hu
  constructor
  · intro hne
    have hplain : w.token.isKeyword "let" = false := by
      rw [Bool.eq_false_iff, Ne, hlet]
      exact hne
    obtain ⟨st', u', hitem', hshape, hu'⟩ := hsame hplain
    rw [← hx, ← hshape]
    exact parse_of_item hskip' hahead.lookahead.1 hitem' hu'
  · intro heq
    obtain ⟨d, u', hitem'⟩ := hrefused (hlet.2 heq)
    exact ⟨d, parse_of_refused hskip' hahead.lookahead.1 hitem'⟩

/-- A text whose one statement is an expression that shows something. -/
theorem exists_expression_of_shown [NameProperties]
    {options : Options} {text : List Char}
    {α : Type} {f : Expression Unit → α} {a : α}
    (h : (parse options text).toOption.map (fun report =>
        report.script.body.map fun st =>
          st.expression?.map fun e => f e.shape)
      = some [some a]) :
    ∃ report x, parse options text = .ok report ∧
      report.script.body.map Statement.shape = [.expression x ()] ∧
      f x = a := by
  obtain ⟨report, hparse, hbody⟩ := exists_report h
  obtain ⟨st, hst, hshown⟩ := List.map_eq_singleton_iff.1 hbody
  obtain ⟨e, he, hx⟩ := Option.map_eq_some_iff.1 hshown
  refine ⟨report, e.shape, hparse, ?_, hx⟩
  rw [hst, List.map_singleton,
    Statement.shape_eq_expression.2 ⟨e, he, rfl⟩]

/-- A variable called `var` with a line break after it, in a sequence. -/
theorem parse_forHead_var :
    let text := "var\n= f(x), y;".toList
    let text' := "for (var\n= f(x), y;;);".toList
    let e := [(some .identifier, "var"), writtenMark "=",
      (some .identifier, "f"), writtenMark "(", (some .identifier, "x"),
      writtenMark ")", writtenMark ",", (some .identifier, "y")]
    ∃ list list' report report' x, tokenList {} text = .ok list ∧
      tokenList {} text' = .ok list' ∧
      list.entries.map TokenEntry.written = e ++ [writtenMark ";"] ∧
      list'.entries.map TokenEntry.written
        = [writtenWord "for", writtenMark "("] ++ e
          ++ [writtenMark ";", writtenMark ";", writtenMark ")",
            writtenMark ";"] ∧
      ((breaksAfter text' (list'.entries.map
          TokenEntry.span)).drop 2).take e.length
        = (breaksAfter text (list.entries.map
          TokenEntry.span)).take e.length ∧
      parse {} text = .ok report ∧
      report.script.body.map Statement.shape = [.expression x ()] ∧
      parse {} text' = .ok report' ∧
      report'.script.body.map Statement.shape
        = [.forLoop (some (.expression x)) none none (.empty ()) ()] ∧
      x.yield = [.text "var", .text "=", .text "f", .text "x",
        .text "y"] := by
  intro text text' e
  have hlist : (tokenList {} text).toOption.map (fun list =>
        (list.entries.map TokenEntry.written,
          (breaksAfter text (list.entries.map
            TokenEntry.span)).take e.length))
      = some (e ++ [writtenMark ";"], true :: List.replicate 7 false) := by
    decide +kernel
  have hlist' : (tokenList {} text').toOption.map (fun list =>
        (list.entries.map TokenEntry.written,
          ((breaksAfter text' (list.entries.map
            TokenEntry.span)).drop 2).take e.length))
      = some ([writtenWord "for", writtenMark "("] ++ e
          ++ [writtenMark ";", writtenMark ";", writtenMark ")",
            writtenMark ";"], true :: List.replicate 7 false) := by
    decide +kernel
  have hshown : (parse {} text).toOption.map (fun report =>
        report.script.body.map fun st =>
          st.expression?.map fun e => e.shape.yield)
      = some [some [.text "var", .text "=", .text "f", .text "x",
          .text "y"]] := by
    decide +kernel
  obtain ⟨list, hlist, hlayout⟩ := exists_ok hlist
  obtain ⟨list', hlist', hlayout'⟩ := exists_ok hlist'
  obtain ⟨report, x, hparse, hbody, hyield⟩ :=
    exists_expression_of_shown hshown
  obtain ⟨hwritten, hbreaks⟩ := Prod.mk.inj hlayout
  obtain ⟨hwritten', hbreaks'⟩ := Prod.mk.inj hlayout'
  have hshared := hbreaks'.trans hbreaks.symm
  obtain ⟨report', hparse', hbody'⟩ := (parse_forHead {} text text' list list'
    e x report rfl hlist hlist' hwritten hwritten' hshared hparse
    hbody).1 (by decide)
  exact ⟨list, list', report, report', x, hlist, hlist', hwritten,
    hwritten', hshared, hparse, hbody, hparse', hbody', hyield⟩

/-- The name that an expression is. -/
def Expression.variable? : Expression Unit → Option (Identifier Unit)
  | .identifier id => some id
  | _ => none

theorem Expression.eq_of_variable? {e : Expression Unit}
    {id : Identifier Unit} (h : e.variable? = some id) :
    e = .identifier id := by
  cases e <;> cases h
  rfl

/-- The word `let` is a variable as a statement, and no loop starts with
it as one. -/
theorem parse_forHead_let :
    let text := "let ;".toList
    let text' := "for ( let ; ; ) ;".toList
    let x : Expression Unit := .identifier ⟨"let", ()⟩
    ∃ list list' report, tokenList {} text = .ok list ∧
      tokenList {} text' = .ok list' ∧
      list.entries.map TokenEntry.written
        = [writtenWord "let"] ++ [writtenMark ";"] ∧
      list'.entries.map TokenEntry.written
        = [writtenWord "for", writtenMark "("] ++ [writtenWord "let"]
          ++ [writtenMark ";", writtenMark ";", writtenMark ")",
            writtenMark ";"] ∧
      parse {} text = .ok report ∧
      report.script.body.map Statement.shape = [.expression x ()] ∧
      ∀ report', parse {} text' ≠ .ok report' := by
  intro text text' x
  have hlist : (tokenList {} text).toOption.map
        (·.entries.map TokenEntry.written)
      = some ([writtenWord "let"] ++ [writtenMark ";"]) := by
    decide +kernel
  have hlist' : (tokenList {} text').toOption.map
        (·.entries.map TokenEntry.written)
      = some ([writtenWord "for", writtenMark "("] ++ [writtenWord "let"]
          ++ [writtenMark ";", writtenMark ";", writtenMark ")",
            writtenMark ";"]) := by
    decide +kernel
  have hshown : (parse {} text).toOption.map (fun report =>
        report.script.body.map fun st =>
          st.expression?.map fun e => e.shape.variable?)
      = some [some (some ⟨"let", ()⟩)] := by
    decide +kernel
  have hrefused : (parse {} text').toOption.isNone = true := by
    decide +kernel
  obtain ⟨list, hlist, hwritten⟩ := exists_ok hlist
  obtain ⟨list', hlist', hwritten'⟩ := exists_ok hlist'
  obtain ⟨report, e, hparse, hbody, hname⟩ :=
    exists_expression_of_shown hshown
  obtain rfl : e = x := Expression.eq_of_variable? hname
  refine ⟨list, list', report, hlist, hlist', hwritten, hwritten', hparse,
    hbody, fun report' hparse' => ?_⟩
  rw [hparse'] at hrefused
  cases hrefused

end ScriptTree
