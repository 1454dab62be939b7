/-
A parser comes to what the grammar comes to.

# Side by side

A parser and a run of the grammar go side by side when they have come to
the same place of the same text (`ParserState.Meets`). The reader of the
parser stands where the stream of the grammar goes on. What the parser has
kept and reported is what its options show of what the grammar has kept and
reported (`ParserState.Tells`). And what the parser keeps in mind is what
the grammar hands down, which is left to a condition on the context.

# Outcomes

An action of a parser carries out an action of the grammar if, side by
side, both end the same way (`Carries`). They succeed with the same result,
shown as the options ask for it, and are side by side again, or they refuse
the text for the same reason, having reported the same. Where the bound of
the grammar runs out nothing is said; that it never does is shown of the
grammar alone.

# Any machine

The parser may run on any arithmetic that is right in range. Side by side
with the grammar it marks sound places only, and so its columns, its line
starts and what it cuts out of the text are in range.
-/
import ScriptTree.Parser.Script
import ScriptTree.Proofs.Arithmetic.Reader
import ScriptTree.Proofs.Peek

namespace ScriptTree

variable (m : Machine) {text : List Char} {options : Options}

-- ============================================================== marks

namespace Position.Sound

variable {p : Position}

/-- The mark of a sound place has its column. -/
theorem mark_agrees (h : p.Sound text) :
    @Position.mark m.arithmetic p = p.mark := by
  unfold Position.mark
  rw [Position.column_agrees m h.lineStart_le]

theorem lineColumn_agrees (h : p.Sound text) :
    @Position.lineColumn m.arithmetic p = p.lineColumn := by
  unfold Position.lineColumn
  rw [Position.column_agrees m h.lineStart_le]

/-- A mark leads back to the start of its line. -/
theorem lineStart_mark (h : p.Sound text) :
    @Mark.lineStart m.arithmetic p.mark = p.lineStart := by
  have hle := h.lineStart_le
  have hcolumn : p.mark.column ≤ p.mark.index := Nat.sub_le _ _
  show m.arithmetic.minus p.mark.index p.mark.column = p.lineStart
  rw [m.exact.minus hcolumn]
  show p.offset - (p.offset - p.lineStart) = p.lineStart
  omega

/-- A mark leads back to its place. -/
theorem position_mark (h : p.Sound text) :
    @Mark.position m.arithmetic p.mark = p := by
  unfold Mark.position
  rw [h.lineStart_mark m]
  rfl

end Position.Sound

/-- What is between the marks of a span is what is shown of the span. -/
theorem Options.place_span (options : Options) (span : Span) :
    options.place (span.start.offset, span.stop.offset)
        span.start.mark.lineColumn span.stop.mark.lineColumn
      = options.locate span := rfl

-- ============================================================== bytes

/-- The first byte of a character is that of a semicolon only if the
character is one: longer characters start with higher bytes. -/
theorem eq_semicolon_of_byte {ch : Char}
    (h : (String.utf8EncodeChar ch)[0]? = some 0x3B) : ch = ';' := by
  have hcode : ch.toNat = 0x3B := by
    unfold String.utf8EncodeChar at h
    simp only [← Char.toNat_val] at *
    generalize ch.val.toNat = code at h ⊢
    split at h
    case isTrue hle =>
      have hbyte := congrArg UInt8.toNat (Option.some.inj h)
      simp at hbyte
      omega
    case isFalse =>
      repeat' split at h
      all_goals
        have hbyte := congrArg UInt8.toNat (Option.some.inj h)
        simp at hbyte
        omega
  exact Char.toNat_inj.1 hcode

/-- The byte after the front of a text is the first of what follows. -/
theorem byteAt?_append (before rest : List Char) :
    byteAt? (byteLength before) (before ++ rest) = byteAt? 0 rest := by
  induction before with
  | nil => rfl
  | cons ch before ih =>
      have hle : ¬byteLength (ch :: before) < ch.utf8Size :=
        Nat.not_lt.2 (Nat.le_add_right _ _)
      have hsub : byteLength (ch :: before) - ch.utf8Size
          = byteLength before := Nat.add_sub_cancel_left _ _
      rw [List.cons_append, byteAt?, if_neg hle, hsub, ih]

/-- Where a semicolon stands at a sound cursor, it is what is read. -/
theorem Cursor.Sound.isPunctuator_of_byte [NameProperties]
    {c d : Cursor} {t : Token}
    (h : c.Sound text) (hbyte : byteAt? c.position.offset text = some 0x3B)
    (htoken : Cursor.token c = .ok t d) : t.isPunctuator ";" = true := by
  obtain ⟨before, htext, hoffset⟩ := h.rest
  rw [htext, hoffset, byteAt?_append] at hbyte
  cases hrest : c.rest with
  | nil =>
      rw [hrest] at hbyte
      cases hbyte
  | cons ch rest =>
      rw [hrest, byteAt?, if_pos ch.utf8Size_pos] at hbyte
      obtain rfl := eq_semicolon_of_byte hbyte
      have hname : isNameStart ';' = false := by
        rw [isNameStart_ascii (by decide)]
        decide
      have hmark : punctuator? c.rest = some ";" := by
        rw [hrest]
        rfl
      have hstart : c.startsNumeral = false := by
        unfold Cursor.startsNumeral
        rw [Cursor.peek_cons hrest]
        rfl
      rw [Cursor.token_of_mark hrest hname (by decide) hstart] at htoken
      obtain ⟨mark, hfound, -, rfl⟩ := punctuatorToken_eq_ok.1 htoken
      rw [hmark] at hfound
      cases hfound
      rfl

/-- A keyword is a text. -/
theorem Cursor.text?_of_keyword [NameProperties] {c d : Cursor} {t : Token}
    (htoken : Cursor.token c = .ok t d) (hkind : t.kind = .keyword) :
    t.text? = some t.shown := by
  have hend : t.isEnd = false := by simp [Token.isEnd, hkind]
  have hne := Cursor.rest_ne_nil_of_token htoken hend
  unfold Token.text? Token.shown
  cases Cursor.formed_token htoken hne with
  | word chars text _ _ hvalue => rw [hvalue]
  | string chars _ hvalue => rw [hvalue]
  | numeral value hnumeric =>
      rw [hnumeric] at hkind
      cases hkind
  | punctuator mark _ _ hvalue => rw [hvalue]

-- ============================================================= states

/-- Whether the options show what is reported: nodes always, and comments
where they are asked for. -/
def Options.tells (options : Options) : Event → Bool
  | .node _ _ => true
  | .comment _ => options.comment

/-- What a parser has kept and reported is what its options show of what
the grammar has. -/
structure ParserState.Tells (options : Options) (p : ParserState)
    (s : ParseState) : Prop where
  tokens : p.tokens.toList = if options.tokens then
    s.tokens.toList.map (options.locateEntry <| .token ·) else []
  comments : p.comments.toList = if options.comment then
    s.comments.toList.map (options.locateEntry <| .comment ·) else []
  events : p.events.toList = s.events.toList.filter options.tells

/-- A parser and a run of the grammar that have come to the same place of a
text. -/
structure ParserState.Meets [NameProperties]
    (text : List Char) (options : Options)
    (K : Context → Prop) (p : ParserState) (s : ParseState) : Prop where
  configured : p.options = options
  keeps : p.reader.keepsComments = options.comment
  cursor : p.reader.cursor.Sound text
  reader : s.ReadBy p.reader
  lookahead : p.lookahead = s.lookahead
  lineBreak : p.lineBreak = s.lineBreak
  startMark : p.start = s.lookahead.span.start.mark
  lastMark : p.last = s.last.mark
  start : s.lookahead.span.start.Sound text
  last : s.last.Sound text
  /-- The lookahead takes some text, or none at all. -/
  ordered : s.lookahead.span.start = s.lookahead.span.stop ∨
    s.lookahead.span.start.offset < s.lookahead.span.stop.offset
  cut : textWithin? s.lookahead.span.start.offset
    s.lookahead.span.stop.offset text = some s.lookahead.raw.toList
  tells : p.Tells options s
  context : K p.context

/-- A parser and a run of the grammar that go side by side: the lookahead
was read from the text. -/
structure ParserState.Beside [NameProperties]
    (text : List Char) (options : Options)
    (K : Context → Prop) (p : ParserState) (s : ParseState) : Prop
    extends p.Meets text options K s where
  semicolon : p.atSemicolon = true → s.lookahead.isPunctuator ";" = true
  word : s.lookahead.kind = .keyword →
    s.lookahead.text? = some s.lookahead.shown

-- =========================================================== outcomes

/-- The parser ends as the grammar does: with the same result, seen through
`f`, and side by side again, or with the same refusal. -/
inductive Carries [NameProperties]
    {α β : Type} (text : List Char) (options : Options)
    (K : β → Context → Prop) (f : β → α) :
    EStateM.Result Failure ParserState α →
      EStateM.Result Failure ParseState β → Prop where
  | ok {b : β} {p : ParserState} {s : ParseState} :
      p.Beside text options (K b) s → Carries text options K f (.ok (f b) p)
        (.ok b s)
  | refused {d : Diagnostic} {p : ParserState} {s : ParseState} :
      p.events.toList = s.events.toList.filter options.tells →
        Carries text options K f (.error (.refused d) p)
          (.error (.refused d) s)
  | exhausted {r : EStateM.Result Failure ParserState α} {s : ParseState} :
      Carries text options K f r (.error .exhausted s)

namespace Carries

variable {α β γ δ : Type} {K : β → Context → Prop}
  {L : δ → Context → Prop} {f : β → α} {g : δ → γ} {x : Parser α}
  {y : Parse β} {k : α → Parser γ} {l : β → Parse δ} {p : ParserState}
  {s : ParseState}

/-- Results that are given right away. -/
theorem pure [NameProperties]
    {a : α} {b : β} (h : p.Beside text options (K b) s) (hb : f b = a) :
    Carries text options K f ((Pure.pure a : Parser α) p)
      ((Pure.pure b : Parse β) s) := by
  subst hb
  exact .ok h

/-- Actions one after the other, the first of which may tell more. -/
theorem bindOk [NameProperties] (h : Carries text options K f (x p) (y s))
    (hk : ∀ b p' s', y s = .ok b s' → p'.Beside text options (K b) s' →
      Carries text options L g (k (f b) p') (l b s')) :
    Carries text options L g ((x >>= k) p) ((y >>= l) s) := by
  generalize hx : x p = r at h
  generalize hy : y s = r' at h
  cases h with
  | ok hb =>
      rw [bind_of_ok hx, bind_of_ok hy]
      exact hk _ _ _ hy hb
  | refused hevents =>
      rw [bind_of_error hx, bind_of_error hy]
      exact .refused hevents
  | exhausted =>
      rw [bind_of_error hy]
      exact .exhausted

/-- Actions one after the other. -/
theorem bind [NameProperties] (h : Carries text options K f (x p) (y s))
    (hk : ∀ b p' s', p'.Beside text options (K b) s' →
      Carries text options L g (k (f b) p') (l b s')) :
    Carries text options L g ((x >>= k) p) ((y >>= l) s) :=
  h.bindOk fun b p' s' _ => hk b p' s'

/-- The parser goes on alone after an action. -/
theorem alone [NameProperties]
    {k : α → Parser γ} {M : β → Context → Prop} {g : β → γ}
    (h : Carries text options K f (x p) (y s))
    (hk : ∀ b p' s', p'.Beside text options (K b) s' →
      Carries text options M g (k (f b) p') (.ok b s')) :
    Carries text options M g ((x >>= k) p) (y s) := by
  generalize hx : x p = r at h
  generalize hy : y s = r' at h
  cases h with
  | ok hb =>
      rw [bind_of_ok hx]
      exact hk _ _ _ hb
  | refused hevents =>
      rw [bind_of_error hx]
      exact .refused hevents
  | exhausted => exact .exhausted

/-- Both take the same branch. -/
theorem ite [NameProperties]
    {c : Prop} [Decidable c] {x' : Parser α} {y' : Parse β}
    (ht : c → Carries text options K f (x p) (y s))
    (hf : ¬c → Carries text options K f (x' p) (y' s)) :
    Carries text options K f ((if c then x else x') p)
      ((if c then y else y') s) := by
  split
  case isTrue h => exact ht h
  case isFalse h => exact hf h

/-- Both take the same branch, though the parser asks for the contrary. -/
theorem iteNot [NameProperties] {c c' : Prop} [Decidable c] [Decidable c']
    {x' : Parser α} {y' : Parse β} (hc : c' ↔ ¬c)
    (ht : c → Carries text options K f (x p) (y s))
    (hf : ¬c → Carries text options K f (x' p) (y' s)) :
    Carries text options K f ((if c' then x' else x) p)
      ((if c then y else y') s) := by
  by_cases h : c
  · rw [if_pos h, if_neg fun h' => hc.1 h' h]
    exact ht h
  · rw [if_neg h, if_pos (hc.2 h)]
    exact hf h

/-- The first action may be looked at in another way. -/
theorem map [NameProperties] {f' : α → γ} {l' : β → δ}
    (h : Carries text options K f (x p) (y s))
    (hg : ∀ b, g (l' b) = f' (f b)) (hL : ∀ b c, K b c → L (l' b) c) :
    Carries text options L g ((f' <$> x) p) ((l' <$> y) s) := by
  apply h.bind
  intro b p' s' h'
  refine .pure ?_ (hg b)
  exact { h' with context := hL b _ h'.context }

/-- Less may be said of what the parser keeps in mind. -/
theorem weaken [NameProperties] {K' : β → Context → Prop}
    {r : EStateM.Result Failure ParserState α}
    {r' : EStateM.Result Failure ParseState β}
    (h : Carries text options K f r r') (hK : ∀ b c, K b c → K' b c) :
    Carries text options K' f r r' := by
  cases h with
  | ok hb => exact .ok { hb with context := hK _ _ hb.context }
  | refused hevents => exact .refused hevents
  | exhausted => exact .exhausted

end Carries

-- ============================================ looks at the state

namespace Parser

variable {β : Type} {p : ParserState}

/-- What follows a look at the state starts from the same state. -/
theorem lookahead_bind {k : Token → Parser β} :
    (lookahead >>= k) p = k p.lookahead p := rfl

theorem isAt_bind {mark : String} {k : Bool → Parser β} :
    (isAt mark >>= k) p = k (p.lookahead.isPunctuator mark) p := rfl

theorem isAtWord_bind {word : String} {k : Bool → Parser β} :
    (isAtWord word >>= k) p = k (p.lookahead.isKeyword word) p := rfl

theorem afterLineBreak_bind {k : Bool → Parser β} :
    (afterLineBreak >>= k) p = k p.lineBreak p := rfl

theorem isTolerant_bind {k : Bool → Parser β} :
    (isTolerant >>= k) p = k p.reader.log.tolerant p := rfl

theorem start_bind {k : Mark → Parser β} :
    (start >>= k) p = k p.start p := rfl

theorem context_bind {k : Context → Parser β} :
    (context >>= k) p = k p.context p := rfl

theorem quoted_bind {a : Arithmetic} {t : Token}
    {k : Token → Parser β} :
    (@quoted a t >>= k) p = k (@ParserState.quote a p t) p := rfl

/-- What is kept in mind of the cover grammar changes, and nothing else. -/
theorem cover_bind {change : CoverGrammar → CoverGrammar}
    {k : Unit → Parser β} :
    (cover change >>= k) p = k () { p with context :=
      { p.context with cover := change p.context.cover } } := rfl

end Parser

namespace ParserState.Beside

variable {K K' : Context → Prop} {p : ParserState} {s : ParseState}
  {α β : Type} {L : β → Context → Prop} {f : β → α}

/-- The grammar knows nothing of what a parser keeps in mind. -/
theorem adapt [NameProperties]
    (h : p.Beside text options K s) (K' : Context → Prop)
    {change : Context → Context} (hK : ∀ c, K c → K' (change c)) :
    { p with context := change p.context }.Beside text options K' s :=
  { h with
    tells := ⟨h.tells.tokens, h.tells.comments, h.tells.events⟩
    context := hK _ h.context }

theorem tolerant [NameProperties] (h : p.Beside text options K s) :
    p.reader.log.tolerant = s.log.tolerant := by rw [h.reader.log]

/-- The parser changes what it keeps in mind, and goes on. -/
theorem adapted [NameProperties]
    (h : p.Beside text options K s) (K' : Context → Prop)
    {change : Context → Context} {k : Unit → Parser α}
    {r : EStateM.Result Failure ParseState β}
    (hc : ∀ c, K c → K' (change c))
    (hk : ∀ p' : ParserState, p'.Beside text options K' s →
      Carries text options L f (k () p') r) :
    Carries text options L f ((Parser.adapt change >>= k) p) r :=
  hk _ (h.adapt K' hc)

-- ====================================================== looks on both sides

/-- Both look at the same token. -/
theorem look [NameProperties]
    (h : p.Beside text options K s) {k : Token → Parser α}
    {l : Token → Parse β}
    (hk : Carries text options L f (k s.lookahead p) (l s.lookahead s)) :
    Carries text options L f ((Parser.lookahead >>= k) p)
      ((Parse.lookahead >>= l) s) := by
  show Carries text options L f (k p.lookahead p) (l s.lookahead s)
  rw [h.lookahead]
  exact hk

/-- The parser has marked where the lookahead starts. -/
theorem mark [NameProperties]
    (h : p.Beside text options K s) {k : Mark → Parser α} {l : Token → Parse β}
    (hk : Carries text options L f (k s.lookahead.span.start.mark p)
      (l s.lookahead s)) :
    Carries text options L f ((Parser.start >>= k) p)
      ((Parse.lookahead >>= l) s) := by
  rw [← h.startMark] at hk
  exact hk

/-- Both see whether the given punctuator comes next. -/
theorem isAt [NameProperties] (h : p.Beside text options K s) (mark : String) :
    Carries text options (fun _ => K) id (Parser.isAt mark p)
      (Parse.isAt mark s) := by
  unfold Parser.isAt Parse.isAt
  rw [h.lookahead]
  exact .ok (f := id) h

/-- Both take the same branch on the next punctuator. -/
theorem ifAt [NameProperties] (h : p.Beside text options K s) (mark : String)
    {x x' : Parser α} {y y' : Parse β}
    (ht : s.lookahead.isPunctuator mark = true →
      Carries text options L f (x p) (y s))
    (hf : s.lookahead.isPunctuator mark = false →
      Carries text options L f (x' p) (y' s)) :
    Carries text options L f
      ((do if ← Parser.isAt mark then x else x') p)
      ((do if ← Parse.isAt mark then y else y') s) := by
  rw [Parser.isAt_bind, h.lookahead]
  apply Carries.ite
  · exact ht
  · intro hmark
    exact hf (eq_false_of_ne_true hmark)

/-- Both take the same branch on the next word. -/
theorem ifAtWord [NameProperties]
    (h : p.Beside text options K s) (word : String)
    {x x' : Parser α} {y y' : Parse β}
    (ht : s.lookahead.isKeyword word = true →
      Carries text options L f (x p) (y s))
    (hf : s.lookahead.isKeyword word = false →
      Carries text options L f (x' p) (y' s)) :
    Carries text options L f
      ((do if ← Parser.isAtWord word then x else x') p)
      ((do if ← Parse.isAtWord word then y else y') s) := by
  rw [Parser.isAtWord_bind, h.lookahead]
  apply Carries.ite
  · exact ht
  · intro hword
    exact hf (eq_false_of_ne_true hword)

-- ========================================================= diagnostics

theorem diagnose [NameProperties]
    (h : p.Beside text options K s) (cause : Cause) :
    p.diagnose cause = s.last.diagnose cause := by
  unfold ParserState.diagnose
  rw [h.lastMark]
  rfl

theorem diagnoseToken [NameProperties]
    (h : p.Beside text options K s) (t : Token) (cause : Cause) :
    @ParserState.diagnoseToken m.arithmetic p t cause
      = s.diagnoseToken t cause := by
  unfold ParserState.diagnoseToken
  rw [h.lastMark, h.last.lineStart_mark m]
  rfl

/-- A token that is not the one expected is refused by both. -/
theorem unexpected [NameProperties]
    (h : p.Beside text options K s) (t : Token) :
    Carries text options L f (@Parser.unexpected α m.arithmetic t p)
      (Parse.unexpected t s) := by
  unfold Parser.unexpected Parse.unexpected
  rw [h.diagnoseToken m]
  exact .refused h.tells.events

theorem reject [NameProperties]
    (h : p.Beside text options K s) (cause : Cause) :
    Carries text options L f (Parser.reject cause p)
      (Parse.reject cause s) := by
  unfold Parser.reject Parse.reject
  rw [h.diagnose]
  exact .refused h.tells.events

/-- A diagnostic is recorded by both, or refuses both. -/
theorem tolerate [NameProperties]
    (h : p.Beside text options K s) (d : Diagnostic) :
    Carries text options (fun _ => K) id (Parser.tolerate d p)
      (Parse.tolerate d s) := by
  unfold Parser.tolerate Parse.tolerate DiagnosticLog.tolerate
  rw [h.reader.log]
  cases hmay : p.reader.log.tolerant with
  | true =>
      refine Carries.ok (f := id) ?_
      exact { h with
        reader := ⟨h.reader.position, h.reader.rest, rfl⟩
        tells := ⟨h.tells.tokens, h.tells.comments, h.tells.events⟩ }
  | false => exact .refused h.tells.events

theorem object [NameProperties]
    (h : p.Beside text options K s) (cause : Cause) :
    Carries text options (fun _ => K) id (Parser.object cause p)
      (Parse.object cause s) := by
  unfold Parser.object Parse.object
  rw [h.diagnose]
  exact h.tolerate _

theorem objectTo [NameProperties] (h : p.Beside text options K s) (t : Token)
    (cause : Cause) :
    Carries text options (fun _ => K) id
      (@Parser.objectTo m.arithmetic t cause p)
      (Parse.objectTo t cause s) := by
  unfold Parser.objectTo Parse.objectTo
  rw [h.diagnoseToken m]
  exact h.tolerate _

-- =============================================================== nodes

/-- A node is reported by both, and is located as the options ask for. -/
theorem finish [NameProperties]
    (h : p.Beside text options K s) (kind : NodeKind)
    {start : Position} (hstart : start.Sound text) :
    Carries text options (fun _ => K) options.locate
      (@Parser.finish m.arithmetic kind start.mark p)
      (Parse.close kind start s) := by
  have hplace : p.options.place (start.mark.index, p.last.index)
      start.mark.lineColumn p.last.lineColumn
      = options.locate ⟨start, s.last⟩ := by
    rw [h.configured, h.lastMark]
    exact options.place_span ⟨start, s.last⟩
  unfold Parser.finish Parse.close
  simp only [hplace, hstart.position_mark m]
  rw [h.lastMark, h.last.position_mark m]
  refine Carries.ok ?_
  refine { h with
    reader := ⟨h.reader.position, h.reader.rest, h.reader.log⟩
    lastMark := rfl
    tells := ⟨h.tells.tokens, h.tells.comments, ?_⟩ }
  rw [Array.toList_push, Array.toList_push, List.filter_append,
    h.tells.events]
  rfl

/-- Both give the node that they complete. -/
theorem finished [NameProperties] {build : Location → α} {build' : Span → β}
    (h : p.Beside text options K s) (kind : NodeKind)
    {start : Position} (hstart : start.Sound text)
    (hL : ∀ span c, K c → L (build' span) c)
    (hbuild : ∀ span, f (build' span) = build (options.locate span)) :
    Carries text options L f
      ((do return build (← @Parser.finish m.arithmetic kind start.mark)) p)
      ((do return build' (← Parse.close kind start)) s) := by
  refine (h.finish m kind hstart).bind fun span p' s' h' => ?_
  refine .pure ?_ (hbuild span)
  exact { h' with context := hL span _ h'.context }

end ParserState.Beside

-- ========================================================== repetition

section

variable {α β : Type} {K : Context → Prop} {L : β → Context → Prop}
  {f : β → α}

/-- Both repeat an action as often. -/
theorem carries_collectWhile [NameProperties]
    {more : Parser Bool} {more' : Parse Bool}
    {item : Parser α} {item' : Parse β}
    (hmore : ∀ {p s}, p.Beside text options K s →
      Carries text options (fun _ => K) id (more p) (more' s))
    (hitem : ∀ {p s}, p.Beside text options K s →
      Carries text options (fun _ => K) f (item p) (item' s))
    {p : ParserState} {s : ParseState} (h : p.Beside text options K s)
    (steps : Nat) :
    Carries text options (fun _ => K) (List.map f)
      (Parser.collectWhile more item steps p)
      (Parse.collectWhile more' item' steps s) := by
  induction steps generalizing p s with
  | zero => exact .exhausted
  | succ steps ih =>
      refine (hmore h).bind fun b p₁ s₁ h₁ => .ite (fun _ => ?_) fun _ => ?_
      · refine (hitem h₁).bind fun a p₂ s₂ h₂ => ?_
        exact (ih h₂).bind fun l p₃ s₃ h₃ => .pure h₃ rfl
      · exact .pure h₁ rfl

/-- A repetition that is begun gives something. -/
theorem carries_collectWhile_cons [NameProperties] {more : Parser Bool}
    {more' : Parse Bool} {item : Parser α} {item' : Parse β}
    (hmore : ∀ {p s}, p.Beside text options K s →
      Carries text options (fun _ => K) id (more p) (more' s))
    (hitem : ∀ {p s}, p.Beside text options K s →
      Carries text options (fun _ => K) f (item p) (item' s))
    {p : ParserState} {s : ParseState} (h : p.Beside text options K s)
    (hfirst : more' s = .ok true s) (steps : Nat) :
    Carries text options (fun l c => l ≠ [] ∧ K c) (List.map f)
      (Parser.collectWhile more item steps p)
      (Parse.collectWhile more' item' steps s) := by
  cases steps with
  | zero => exact .exhausted
  | succ steps =>
      have hbegins := hmore h
      rw [hfirst] at hbegins
      generalize hx : more p = r at hbegins
      cases hbegins with
      | ok h₁ =>
          unfold Parser.collectWhile Parse.collectWhile
          rw [bind_of_ok hx, bind_of_ok hfirst]
          refine (hitem h₁).bind fun a p₂ s₂ h₂ => ?_
          refine (carries_collectWhile hmore hitem h₂ steps).bind
            fun l p₃ s₃ h₃ => .pure ?_ rfl
          exact { h₃ with context := ⟨List.cons_ne_nil _ _, h₃.context⟩ }

end

end ScriptTree
