/-
How the tokens that an action consumes become the tokens of its result.

# Yields

`YieldsAt t seen p y` says of the action `p`, started with the lookahead
`t` when the tokens `seen` were consumed before: where it succeeds, all
that was consumed up to then is `y` of its result. A production is
followed through action by action, with the lookahead at hand until it is
consumed, and what was seen growing at the end.

# What is proved here

The rules for pure results, sequences, branches and repetitions, and one
for each basic action. The productions follow in the modules below this
one.
-/
import ScriptTree.Grammar.Statement
import ScriptTree.Proofs.Ahead
import ScriptTree.Tree.Yield

namespace ScriptTree

-- ============================================================ tokens

/-- What a token adds to the yield of a tree. The end of the text adds
nothing. -/
def Token.yield (t : Token) : List TokenValue :=
  if t.isEnd || t.isSilent then [] else [t.value]

/-- What a punctuator adds. -/
def punctuatorYield (mark : String) : List TokenValue :=
  if mark ∈ ["(", ")", ",", ";"] then [] else [.text mark]

/-- A token that comes to a text stands for it. -/
theorem Token.value_of_text? {t : Token} {text : String}
    (h : t.text? = some text) : t.value = .text text := by
  unfold Token.text? at h
  cases hv : t.value with
  | text text' =>
      rw [hv] at h
      cases h
      rfl
  | number x =>
      rw [hv] at h
      cases h

/-- A token is a mark if it is a punctuator of that text. -/
theorem Token.isPunctuator_iff {t : Token} {mark : String} :
    t.isPunctuator mark = true ↔
      t.kind = .punctuator ∧ t.text? = some mark := by
  simp [Token.isPunctuator]

/-- A token is a word if it is a keyword of that text. -/
theorem Token.isKeyword_iff {t : Token} {word : String} :
    t.isKeyword word = true ↔ t.kind = .keyword ∧ t.text? = some word := by
  simp [Token.isKeyword]

/-- A token is a name if it is an identifier of that text. -/
theorem Token.isIdentifier_iff {t : Token} {name : String} :
    t.isIdentifier name = true ↔
      t.kind = .identifier ∧ t.text? = some name := by
  simp [Token.isIdentifier]

/-- Only punctuators leave no trace. -/
theorem Token.yield_of_kind {t : Token} (hp : t.kind ≠ .punctuator)
    (he : t.kind ≠ .endOfInput) : t.yield = [t.value] := by
  have hsilent : t.isSilent = false := by
    simp [Token.isSilent, Token.isPunctuator, hp]
  simp [Token.yield, Token.isEnd, hsilent, he]

/-- A mark yields itself, or nothing. -/
theorem Token.yield_of_isPunctuator {t : Token} {mark : String}
    (h : t.isPunctuator mark = true) : t.yield = punctuatorYield mark := by
  obtain ⟨hkind, htext⟩ := Token.isPunctuator_iff.1 h
  have hsilent : t.isSilent = decide (mark ∈ ["(", ")", ",", ";"]) := by
    simp [Token.isSilent, Token.isPunctuator, hkind, htext, Bool.or_assoc]
  have hend : t.isEnd = false := by simp [Token.isEnd, hkind]
  unfold Token.yield punctuatorYield
  rw [hend, hsilent, Bool.false_or, Token.value_of_text? htext]
  simp only [decide_eq_true_eq]

/-- A keyword yields its word. -/
theorem Token.yield_of_isKeyword {t : Token} {word : String}
    (h : t.isKeyword word = true) : t.yield = [.text word] := by
  obtain ⟨hkind, htext⟩ := Token.isKeyword_iff.1 h
  rw [Token.yield_of_kind (by simp [hkind]) (by simp [hkind]),
    Token.value_of_text? htext]

/-- An identifier yields its name. -/
theorem Token.yield_of_isIdentifier {t : Token} {name : String}
    (h : t.isIdentifier name = true) : t.yield = [.text name] := by
  obtain ⟨hkind, htext⟩ := Token.isIdentifier_iff.1 h
  rw [Token.yield_of_kind (by simp [hkind]) (by simp [hkind]),
    Token.value_of_text? htext]

-- ============================================================ states

namespace ParseState

variable {s s' : ParseState}

/-- What the tokens ahead add to the yield of a tree. -/
def yield (s : ParseState) : List TokenValue :=
  s.words.flatMap (·.token.yield)

/-- The words of a stream yield what its tokens do. -/
theorem yield_words (line : Nat) (stream : TokenStream) :
    (stream.words line).flatMap (·.token.yield)
      = stream.tokens.flatMap Token.yield := by
  induction stream generalizing line with
  | token comments t rest ih =>
      rw [TokenStream.words, TokenStream.tokens, List.flatMap_cons,
        List.flatMap_cons, ih]
      rfl
  | done | illegal => rfl

/-- A state yields its next token, and then those behind it. -/
theorem yield_eq (s : ParseState) :
    s.yield = if s.lookahead.isEnd then []
      else s.lookahead.yield ++ s.rest.tokens.flatMap Token.yield := by
  unfold yield words
  split
  · rfl
  · rw [List.flatMap_cons, yield_words]
    rfl

/-- What stays where it is has the same ahead. -/
theorem Stays.yield (h : s.Stays s') : s'.yield = s.yield := by
  rw [yield_eq, yield_eq, h.lookahead, h.rest]

/-- A shift takes what the next token yields. -/
theorem Sound.yield_of_shift {t : Token} (hs : s.Sound)
    (h : Parse.shift s = .ok t s') :
    s.yield = s.lookahead.yield ++ s'.yield := by
  obtain ⟨-, hwords⟩ := hs.shift h
  unfold yield
  rw [hwords]
  cases he : s.lookahead.isEnd with
  | true =>
      rw [words_of_end he]
      simp [Token.yield, he]
  | false =>
      rw [words_of_not_end he, List.flatMap_cons]
      rfl

end ParseState

-- ========================================================= actions

namespace Parse

variable {α β : Type} {t : Token} {seen : List TokenValue}
  {p : Parse α} {f : α → Parse β} {v : α → List TokenValue}
  {w : β → List TokenValue}

/-- With the lookahead `t`, and after the tokens `seen`, the action
succeeds only if all that was consumed then is `v` of its result. -/
def YieldsAt (t : Token) (seen : List TokenValue) (p : Parse α)
    (v : α → List TokenValue) : Prop :=
  ∀ ⦃s a s'⦄, s.Sound → s.lookahead = t → p s = .ok a s' →
    s'.Sound ∧ seen ++ s.yield = v a ++ s'.yield

/-- What is consumed is `v` of the result, whatever comes. -/
def Yields (p : Parse α) (v : α → List TokenValue) : Prop :=
  ∀ t, p.YieldsAt t [] v

namespace YieldsAt

/-- A result without an action. -/
theorem pure {a : α} (h : seen = v a) :
    (Pure.pure a : Parse α).YieldsAt t seen v := by
  intro s b s' hs _ hp
  obtain ⟨rfl, rfl⟩ := pure_ok.1 hp
  exact ⟨hs, by rw [h]⟩

/-- An action that never succeeds. -/
theorem of_fails (h : ∀ s a s', ¬p s = .ok a s') :
    p.YieldsAt t seen v := fun s a s' _ _ hp => absurd hp (h s a s')

/-- One action after another. -/
theorem bind (hp : p.YieldsAt t seen v)
    (hf : ∀ a t', (f a).YieldsAt t' (v a) w) :
    (p >>= f).YieldsAt t seen w := by
  intro s b s' hs ht h
  obtain ⟨a, s₁, h₁, h₂⟩ := bind_ok.1 h
  obtain ⟨hs₁, hv⟩ := hp hs ht h₁
  obtain ⟨hs', hw⟩ := hf a s₁.lookahead hs₁ rfl h₂
  exact ⟨hs', hv.trans hw⟩

/-- What is said of an action alone holds after anything. -/
theorem after (hp : p.YieldsAt t [] v) :
    p.YieldsAt t seen (fun a => seen ++ v a) := by
  intro s a s' hs ht h
  obtain ⟨hs', hv⟩ := hp hs ht h
  rw [List.nil_append] at hv
  exact ⟨hs', by rw [hv, List.append_assoc]⟩

/-- A production, and then what follows it. -/
theorem next (hp : p.Yields v)
    (hf : ∀ a t', (f a).YieldsAt t' (seen ++ v a) w) :
    (p >>= f).YieldsAt t seen w := (hp t).after.bind hf

/-- An action with its result changed. -/
theorem map {g : α → β} (hp : p.YieldsAt t seen v)
    (h : ∀ a, w (g a) = v a) : (g <$> p).YieldsAt t seen w := by
  intro s b s' hs ht hm
  obtain ⟨a, h₁, rfl⟩ := map_ok.1 hm
  obtain ⟨hs', hv⟩ := hp hs ht h₁
  exact ⟨hs', by rw [h, hv]⟩

/-- Either of two actions. -/
theorem ite {c : Bool} {p q : Parse α} (hp : c = true → p.YieldsAt t seen v)
    (hq : c = false → q.YieldsAt t seen v) :
    (if c then p else q).YieldsAt t seen v := by
  cases c with
  | true => exact hp rfl
  | false => exact hq rfl

/-- What does not consume anything leaves the lookahead and what was
seen. -/
theorem stay (hp : p.Waits) (hf : ∀ a, (f a).YieldsAt t seen w) :
    (p >>= f).YieldsAt t seen w := by
  intro s b s' hs ht h
  obtain ⟨a, s₁, h₁, h₂⟩ := bind_ok.1 h
  have hstay := hp h₁
  have hs₁ := ParseState.Reaches.sound hstay.reaches hs
  obtain ⟨hs', hw⟩ := hf a hs₁ (hstay.lookahead.trans ht) h₂
  rw [hstay.yield] at hw
  exact ⟨hs', hw⟩

/-- The same of an action that gives something of what was seen. -/
theorem bindStay (hp : p.Waits) (hv : p.YieldsAt t seen v)
    (hf : ∀ a, (∃ s s', p s = .ok a s') → (f a).YieldsAt t (v a) w) :
    (p >>= f).YieldsAt t seen w := by
  intro s b s' hs ht h
  obtain ⟨a, s₁, h₁, h₂⟩ := bind_ok.1 h
  obtain ⟨hs₁, hseen⟩ := hv hs ht h₁
  have hstay := (hp h₁).lookahead.trans ht
  obtain ⟨hs', hw⟩ := hf a ⟨s, s₁, h₁⟩ hs₁ hstay h₂
  exact ⟨hs', hseen.trans hw⟩

/-- A look at the next token. -/
theorem lookahead {f : Token → Parse β} (hf : (f t).YieldsAt t seen w) :
    (Parse.lookahead >>= f).YieldsAt t seen w := by
  intro s b s' hs ht h
  rw [lookahead_bind, ht] at h
  exact hf hs ht h

/-- The look for a mark. -/
theorem isAt {mark : String} {f : Bool → Parse β}
    (hf : (f (t.isPunctuator mark)).YieldsAt t seen w) :
    (Parse.isAt mark >>= f).YieldsAt t seen w := by
  intro s b s' hs ht h
  rw [isAt_bind, ht] at h
  exact hf hs ht h

/-- The look for a word. -/
theorem isAtWord {word : String} {f : Bool → Parse β}
    (hf : (f (t.isKeyword word)).YieldsAt t seen w) :
    (Parse.isAtWord word >>= f).YieldsAt t seen w := by
  intro s b s' hs ht h
  rw [isAtWord_bind, ht] at h
  exact hf hs ht h

/-- A strict parse is not tolerant. -/
theorem isTolerant {f : Bool → Parse β}
    (hf : (f false).YieldsAt t seen w) :
    (Parse.isTolerant >>= f).YieldsAt t seen w := by
  intro s b s' hs ht h
  rw [isTolerant_bind, hs.log] at h
  exact hf hs ht h

/-- The look for a line break. -/
theorem afterLineBreak {f : Bool → Parse β}
    (hf : ∀ b, (f b).YieldsAt t seen w) :
    (Parse.afterLineBreak >>= f).YieldsAt t seen w :=
  stay waits_afterLineBreak hf

/-- A node that is completed. -/
theorem close {kind : NodeKind} {start : Position} {f : Span → Parse β}
    (hf : ∀ span, (f span).YieldsAt t seen w) :
    (Parse.close kind start >>= f).YieldsAt t seen w :=
  stay (waits_close kind start) hf

/-- A token that is consumed has been seen. -/
theorem shift {f : Token → Parse β}
    (hf : ∀ t', (f t).YieldsAt t' (seen ++ t.yield) w) :
    (Parse.shift >>= f).YieldsAt t seen w := by
  intro s b s' hs ht h
  obtain ⟨a, s₁, h₁, h₂⟩ := bind_ok.1 h
  obtain rfl : a = t := (shift_ok.1 h₁).1.trans ht
  obtain ⟨hs', hw⟩ := hf s₁.lookahead (hs.shift h₁).1 rfl h₂
  refine ⟨hs', ?_⟩
  rw [hs.yield_of_shift h₁, ht, ← List.append_assoc]
  exact hw

/-- A token that is passed over. -/
theorem skip {f : Unit → Parse β}
    (hf : ∀ t', (f ()).YieldsAt t' (seen ++ t.yield) w) :
    (Parse.skip >>= f).YieldsAt t seen w := by
  refine bind (v := fun _ => seen ++ t.yield) ?_ fun _ => hf
  exact shift fun _ => pure rfl

/-- A mark that is asked for. -/
theorem expect {mark : String} {f : Unit → Parse β}
    (hf : ∀ t', (f ()).YieldsAt t' (seen ++ punctuatorYield mark) w) :
    (Parse.expect mark >>= f).YieldsAt t seen w := by
  refine bind (v := fun _ => seen ++ punctuatorYield mark) ?_ fun _ => hf
  refine shift fun _ => ite (fun h => pure ?_) fun _ =>
    of_fails fun _ _ _ => unexpected_ok
  rw [Token.yield_of_isPunctuator h]

/-- A word that is asked for. -/
theorem expectWord {word : String} {f : Unit → Parse β}
    (hf : ∀ t', (f ()).YieldsAt t' (seen ++ [.text word]) w) :
    (Parse.expectWord word >>= f).YieldsAt t seen w := by
  refine bind (v := fun _ => seen ++ [.text word]) ?_ fun _ => hf
  refine shift fun _ => ite (fun h => pure ?_) fun _ =>
    of_fails fun _ _ _ => unexpected_ok
  rw [Token.yield_of_isKeyword h]

/-- A token that is refused. -/
theorem unexpected : (Parse.unexpected t : Parse α).YieldsAt t seen v :=
  of_fails fun _ _ _ => unexpected_ok

/-- A text that is nested too deeply. -/
theorem exhausted : (Parse.exhausted : Parse α).YieldsAt t seen v :=
  of_fails fun _ _ _ => exhausted_ok

/-- A text that is refused. -/
theorem reject {cause : Cause} :
    (Parse.reject cause : Parse α).YieldsAt t seen v :=
  of_fails fun _ _ _ => reject_ok

end YieldsAt

-- ====================================================== repetition

/-- A condition on the lookahead, which is only looked at. -/
def Looks (more : Parse Bool) (q : Token → Bool) : Prop :=
  ∀ s, more s = .ok (q s.lookahead) s

/-- A look at the next token yields nothing, and is known from the token.
-/
theorem Looks.yieldsAt {more : Parse Bool} {q : Token → Bool}
    (h : Looks more q) {f : Bool → Parse β}
    (hf : (f (q t)).YieldsAt t seen w) :
    (more >>= f).YieldsAt t seen w := by
  intro s b s' hs ht hb
  obtain ⟨c, s₁, h₁, h₂⟩ := bind_ok.1 hb
  rw [h s] at h₁
  cases h₁
  rw [ht] at h₂
  exact hf hs ht h₂

/-- Repeated items add up. -/
theorem yields_collectWhile {more : Parse Bool} {q : Token → Bool}
    (hq : Looks more q) (hp : ∀ t, q t = true → p.YieldsAt t [] v)
    (steps : Nat) :
    (collectWhile more p steps).Yields (List.flatMap v) := by
  induction steps with
  | zero => exact fun t => .exhausted
  | succ steps ih =>
      intro t
      refine hq.yieldsAt (.ite (fun h => ?_) fun _ => .pure rfl)
      refine (hp t h).bind fun a t' => ?_
      exact .next ih fun l t'' => .pure rfl

/-- What the look for a mark looks at. -/
theorem looks_isAt (mark : String) :
    Looks (isAt mark) (·.isPunctuator mark) := fun _ => rfl

/-- A repetition ends where its condition fails. -/
theorem looks_collectWhile {α : Type} {more : Parse Bool}
    {q : Token → Bool} (hq : Looks more q) {p : Parse α} {steps : Nat}
    {l : List α} {s s' : ParseState}
    (h : collectWhile more p steps s = .ok l s') :
    q s'.lookahead = false := by
  induction steps generalizing s l with
  | zero => exact absurd h exhausted_ok
  | succ steps ih =>
      obtain ⟨b, s₁, hmore, h⟩ := bind_ok.1 h
      rw [hq s] at hmore
      cases hmore
      split at h
      case isTrue =>
        obtain ⟨a, s₂, -, h⟩ := bind_ok.1 h
        obtain ⟨l', s₃, hrest, hp⟩ := bind_ok.1 h
        obtain ⟨-, rfl⟩ := pure_ok.1 hp
        exact ih hrest
      case isFalse hno =>
        obtain ⟨-, rfl⟩ := pure_ok.1 h
        simpa using hno

/-- Items with commas between them add up. -/
theorem yields_separated {separator : Parse Unit} (hp : p.Yields v)
    (hs : separator.Yields fun _ => []) (steps : Nat) :
    (separated p separator steps).Yields (List.flatMap v) := by
  induction steps with
  | zero => exact fun t => .exhausted
  | succ steps ih =>
      intro t
      refine .next hp fun a t' => ?_
      refine .isAt (.ite (fun _ => .pure (by simp)) fun _ => ?_)
      refine .next hs fun _ t'' => ?_
      refine .isAt (.ite (fun _ => .pure (by simp)) fun _ => ?_)
      exact .next ih fun l t₃ => .pure (by simp)

/-- The tokens of items in parentheses. -/
theorem yields_parenthesized {separator : Parse Unit} (hp : p.Yields v)
    (hs : separator.Yields fun _ => []) (steps : Nat) :
    (parenthesized p separator steps).Yields (List.flatMap v) := by
  intro t
  refine .expect fun t' => ?_
  refine .next (v := List.flatMap v) ?_ fun l t'' => ?_
  · exact fun t => .isAt (.ite (fun _ => .pure rfl) fun _ =>
      yields_separated hp hs steps t)
  · exact .expect fun _ => .pure (by simp [punctuatorYield])

/-- The tokens of a comma. -/
theorem yields_comma : (Parse.expect ",").Yields fun _ => [] := by
  intro t s a s' hs ht h
  have hskip := (expect_ok.1 h).2
  have hmark := (expect_ok.1 h).1
  refine ⟨(hs.skip hskip).1, ?_⟩
  rw [List.nil_append, hs.yield_of_shift (skip_ok.1 hskip),
    Token.yield_of_isPunctuator hmark]
  rfl

end Parse

end ScriptTree
