/-
The order in which a parse records what it finds.

# Two recorders

A word in escapes is recorded when it becomes the lookahead. All else is
found by productions, at the lookahead or at what was consumed before it.
So what is found after such a word was looked at, but in front of it, is
recorded too late (`Diagnostic.Overtakes`). Nothing else comes out of
order (`Diagnostic.InOrder`).

# States

How late something may be found depends on how far a production has got.

- `Calm`: all that was recorded is on a line up to the end of what was
  consumed last, but for a word in escapes right behind that.
- `Settled`: besides, the lookahead is not on an earlier line. It may be
  on one only before the first token is consumed.
- `Behind t`: besides, the token `t` was just consumed, and what was
  recorded is on a line up to its start, but for the same word.
- `Covered`: all that was recorded is on a line up to the end of the
  lookahead. This is enough to consume it.

# Judgments

`p.Carries P Q` says of the action `p` that a success leads from `P` to
`Q`. Expressions clear a state that is covered (`Clears`). Statements
begin in a calm one (`Begins`), since a `return` outside of functions
is found before it is consumed. What comes after the first token goes on
from a settled state (`Continues`).
-/
import ScriptTree.Proofs.Adjacent
import ScriptTree.Proofs.Gap
import ScriptTree.Proofs.Keeping

namespace ScriptTree

variable {text : List Char} {t u : Token} {d e : Diagnostic}
  {cause : Cause}

-- ============================================================== lines

/-- Later places are not on earlier lines. -/
theorem Position.InText.line_le {p q : Position} (hp : p.InText text)
    (hq : q.InText text) (h : p.offset ≤ q.offset) : p.line ≤ q.line := by
  rw [hp.eq, hq.eq]
  show ((lineStarts text).filter (· ≤ p.offset)).length
    ≤ ((lineStarts text).filter (· ≤ q.offset)).length
  rw [← List.countP_eq_length_filter, ← List.countP_eq_length_filter]
  refine List.countP_mono_left fun start _ hstart => ?_
  rw [decide_eq_true_eq] at hstart ⊢
  exact Nat.le_trans hstart h

-- ============================================================== order

namespace Diagnostic

/-- What is said of a word in escapes right behind a token. -/
structure Announces [NameProperties]
    (text : List Char) (d : Diagnostic) (t u : Token) : Prop where
  precedes : t.Precedes text u
  escaped : u.isEscapedReserved = true
  eq : d = u.span.start.diagnose .escapedReserved

/-- A word in escapes is recorded before something that is found at the
token in front of it, or at the end of that token. -/
def Overtakes [NameProperties] (text : List Char) (d e : Diagnostic) : Prop :=
  ∃ t u : Token, d.Announces text t u ∧ e.cause ≠ .escapedReserved ∧
    ∃ p ∈ [t.span.start, t.span.stop], e.index = p.offset ∧ e.line = p.line

/-- The order of what is recorded: by lines, unless a word in escapes is
recorded too early. -/
def InOrder [NameProperties] (text : List Char) (d e : Diagnostic) : Prop :=
  d.line ≤ e.line ∨ d.Overtakes text e

end Diagnostic

namespace ParseState

variable {s s' : ParseState}

/-- What was recorded so far is in order. -/
structure Logged [NameProperties]
    (text : List Char) (s : ParseState) : Prop where
  traced : s.Traced text
  holds : s.Holds text
  ordered : s.log.recorded.Pairwise (Diagnostic.InOrder text)

/-- What was recorded is on a line up to the end of the lookahead. -/
structure Covered [NameProperties] (text : List Char) (s : ParseState) : Prop
    extends Logged text s where
  found : ∀ d ∈ s.log.recorded, d.line ≤ s.lookahead.span.stop.line

/-- What was recorded is on a line up to the end of what was consumed
last, but for a word in escapes right behind that. -/
structure Calm [NameProperties] (text : List Char) (s : ParseState) : Prop
    extends Logged text s where
  found : ∀ d ∈ s.log.recorded, d.line ≤ s.last.line ∨
    ∃ t, s.last = t.span.stop ∧ d.Announces text t s.lookahead

/-- A calm state with the lookahead on the same line or on a later
one. -/
structure Settled [NameProperties] (text : List Char) (s : ParseState) : Prop
    extends Calm text s where
  level : s.last.line ≤ s.lookahead.span.start.line

/-- A settled state in which a token was just consumed. -/
structure Behind [NameProperties]
    (text : List Char) (t : Token) (s : ParseState) : Prop
    extends Settled text s where
  start_le : t.span.start.line ≤ s.last.line
  found_start : ∀ d ∈ s.log.recorded, d.line ≤ t.span.start.line ∨
    d.Announces text t s.lookahead

-- --------------------------------------------------------- the lookahead

/-- A token stops on the line where it starts, or on a later one. -/
theorem Traced.start_line_le [NameProperties] (hs : s.Traced text) :
    s.lookahead.span.start.line ≤ s.lookahead.span.stop.line :=
  hs.sited.lookahead.start.line_le hs.sited.lookahead.stop
    hs.sited.start_le_stop

/-- The next token stops on no earlier line than the last. -/
theorem Traced.last_line_le [NameProperties] (hs : s.Traced text) :
    s.last.line ≤ s.lookahead.span.stop.line := by
  cases hs.trails with
  | atStart h =>
      rw [h]
      exact hs.start_line_le
  | atStop h => exact Nat.le_of_eq (congrArg Position.line h)
  | after _ _ hgap =>
      exact Nat.le_trans (hs.last.line_le hs.sited.lookahead.start
        hgap.only.le) hs.start_line_le

/-- The token after a shift starts on no earlier line. -/
theorem Traced.line_le_of_shift [NameProperties] (hs : s.Traced text)
    (h : Parse.shift s = .ok t s') :
    s.lookahead.span.stop.line ≤ s'.lookahead.span.start.line := by
  obtain ⟨start, stop, hsit⟩ := hs.underway.situated
  exact hs.sited.lookahead.stop.line_le (hs.shift h).sited.lookahead.start
    (hsit.gap_of_shift h).only.le

/-- A calm state is covered. -/
theorem Calm.covered [NameProperties] (hs : s.Calm text) : s.Covered text where
  toLogged := hs.toLogged
  found d hd := by
    rcases hs.found d hd with hle | ⟨t, -, hword⟩
    · exact Nat.le_trans hle hs.traced.last_line_le
    · rw [hword.eq]
      exact hs.traced.start_line_le

/-- What was recorded is not found on a later line than the lookahead. -/
theorem Settled.line_le [NameProperties]
    (hs : s.Settled text) (hd : d ∈ s.log.recorded) :
    d.line ≤ s.lookahead.span.start.line := by
  rcases hs.found d hd with hle | ⟨t, -, hword⟩
  · exact Nat.le_trans hle hs.level
  · rw [hword.eq]
    exact Nat.le_refl _

-- --------------------------------------------------------------- shifts

/-- What a shift records is the new lookahead, if it is a word in
escapes. -/
theorem recorded_of_shift_cases (h : Parse.shift s = .ok t s') :
    s'.log.recorded = s.log.recorded ∨
      s'.lookahead.isEscapedReserved = true ∧
        s'.log.recorded = s.log.recorded
          ++ [s'.lookahead.span.start.diagnose .escapedReserved] := by
  obtain ⟨-, next, rest, log, -, haccept, rfl⟩ := Parse.shift_ok.1 h
  have haccept : (if next.isEscapedReserved then
      s.log.tolerant = true ∧
        log = s.log.record (next.span.start.diagnose .escapedReserved)
    else log = s.log) := Parse.accept_ok.1 haccept
  split at haccept
  case isTrue hescaped =>
    obtain ⟨-, rfl⟩ := haccept
    exact .inr ⟨hescaped, rfl⟩
  case isFalse =>
    subst haccept
    exact .inl rfl

/-- A new lookahead in escapes announces itself. -/
theorem Logged.announces_of_shift [NameProperties] (hs : s.Logged text)
    (h : Parse.shift s = .ok t s')
    (hescaped : s'.lookahead.isEscapedReserved = true) :
    (s'.lookahead.span.start.diagnose .escapedReserved).Announces text t
      s'.lookahead where
  precedes := by
    apply hs.holds.precedes_of_shift h
    cases hend : s'.lookahead.isEnd with
    | false => rfl
    | true =>
        rw [Token.not_escapedReserved_of_isEnd hend] at hescaped
        cases hescaped
  escaped := hescaped
  eq := rfl

/-- What was found up to the end of the lookahead stays in order with
what is found at the next one. -/
theorem Covered.logged_of_shift [NameProperties] (hs : s.Covered text)
    (h : Parse.shift s = .ok t s') : s'.Logged text where
  traced := hs.traced.shift h
  holds := hs.holds.shift h
  ordered := by
    rcases recorded_of_shift_cases h with hsame | ⟨-, hmore⟩
    · rw [hsame]
      exact hs.ordered
    · rw [hmore]
      refine List.pairwise_append.2 ⟨hs.ordered,
        List.pairwise_singleton _ _, fun d hd e he => .inl ?_⟩
      rw [List.mem_singleton.1 he]
      exact Nat.le_trans (hs.found d hd) (hs.traced.line_le_of_shift h)

/-- A shift leaves the end of its token as the last place. -/
theorem last_of_shift (h : Parse.shift s = .ok t s') :
    s'.last = t.span.stop := by
  obtain ⟨rfl, next, rest, log, -, -, rfl⟩ := Parse.shift_ok.1 h
  rfl

/-- What is recorded after a shift was recorded before, or announces the
new lookahead. -/
theorem Logged.mem_of_shift [NameProperties] (hs : s.Logged text)
    (h : Parse.shift s = .ok t s') (hd : d ∈ s'.log.recorded) :
    d ∈ s.log.recorded ∨ d.Announces text t s'.lookahead := by
  rcases recorded_of_shift_cases h with hsame | ⟨hescaped, hmore⟩
  · exact .inl (hsame ▸ hd)
  · rw [hmore] at hd
    rcases List.mem_append.1 hd with hd | hd
    · exact .inl hd
    · rw [List.mem_singleton.1 hd]
      exact .inr (hs.announces_of_shift h hescaped)

/-- To consume the lookahead settles what was found up to its end. -/
theorem Covered.shift [NameProperties] (hs : s.Covered text)
    (h : Parse.shift s = .ok t s') : s'.Settled text where
  toLogged := hs.logged_of_shift h
  found d hd := by
    have hlast := last_of_shift h
    rcases hs.mem_of_shift h hd with hd | hword
    · left
      rw [hlast, (Parse.shift_ok.1 h).1]
      exact hs.found d hd
    · exact .inr ⟨t, hlast, hword⟩
  level := by
    rw [last_of_shift h, (Parse.shift_ok.1 h).1]
    exact hs.traced.line_le_of_shift h

/-- A step to the next token. -/
theorem Settled.shift [NameProperties] (hs : s.Settled text)
    (h : Parse.shift s = .ok t s') : s'.Behind text t where
  toSettled := hs.toCalm.covered.shift h
  start_le := by
    rw [last_of_shift h, (Parse.shift_ok.1 h).1]
    exact hs.traced.start_line_le
  found_start d hd := by
    rcases hs.mem_of_shift h hd with hd | hword
    · left
      rw [(Parse.shift_ok.1 h).1]
      exact hs.line_le hd
    · exact .inr hword

-- -------------------------------------------------------------- records

/-- A log stays in order if what is recorded is in order with all in it. -/
theorem Logged.record [NameProperties] (hs : s.Logged text)
    (h : ∀ d' ∈ s.log.recorded, d'.InOrder text d) :
    Logged text { s with log := s.log.record d } where
  traced := hs.traced.of_eq rfl rfl rfl rfl rfl
  holds := hs.holds.of_eq rfl rfl rfl rfl
  ordered := by
    refine List.pairwise_append.2 ⟨hs.ordered,
      List.pairwise_singleton _ _, fun d' hd' e he => ?_⟩
    rw [List.mem_singleton.1 he]
    exact h d' hd'

/-- Only the last of what is recorded is new. -/
theorem mem_record {log : DiagnosticLog} {d' : Diagnostic}
    (h : d' ∈ (log.record d).recorded) : d' ∈ log.recorded ∨ d' = d :=
  (List.mem_append.1 h).imp_right List.mem_singleton.1

/-- What is found at the end of what was consumed last is in order, or
overtaken by the lookahead. -/
theorem Calm.record_last [NameProperties] (hs : s.Calm text)
    (hcause : cause ≠ .escapedReserved) :
    Calm text { s with log := s.log.record (s.last.diagnose cause) } where
  toLogged := hs.toLogged.record fun d hd => by
    rcases hs.found d hd with hle | ⟨t, hlast, hword⟩
    · exact .inl hle
    · exact .inr ⟨t, s.lookahead, hword, hcause, s.last, by simp [hlast],
        rfl, rfl⟩
  found d hd := by
    rcases mem_record hd with hd | rfl
    · exact hs.found d hd
    · exact .inl (Nat.le_refl _)

/-- An error at the last place does not unsettle a state. -/
theorem Settled.record_last [NameProperties] (hs : s.Settled text)
    (hcause : cause ≠ .escapedReserved) :
    Settled text { s with log := s.log.record (s.last.diagnose cause) } where
  toCalm := hs.toCalm.record_last hcause
  level := hs.level

/-- What is found at the lookahead is in order. -/
theorem Settled.record_ahead [NameProperties] (hs : s.Settled text) :
    Covered text { s with
      log := s.log.record (s.diagnoseToken s.lookahead cause) } where
  toLogged := hs.toLogged.record fun _ hd => .inl (hs.line_le hd)
  found d hd := by
    rcases mem_record hd with hd | rfl
    · exact hs.toCalm.covered.found d hd
    · exact hs.traced.start_line_le

/-- What is found at the token that was just consumed is in order, or
overtaken by the lookahead. -/
theorem Behind.record [NameProperties] (hs : s.Behind text t)
    (hindex : d.index = t.span.start.offset)
    (hline : d.line = t.span.start.line)
    (hcause : d.cause ≠ .escapedReserved) :
    Settled text { s with log := s.log.record d } where
  toLogged := hs.toLogged.record fun d' hd' => by
    rcases hs.found_start d' hd' with hle | hword
    · exact .inl (hline ▸ hle)
    · exact .inr ⟨t, s.lookahead, hword, hcause, t.span.start, by simp,
        hindex, hline⟩
  found d' hd' := by
    rcases mem_record hd' with hd' | rfl
    · exact hs.found d' hd'
    · exact .inl (hline ▸ hs.start_le)
  level := hs.level

-- --------------------------------------------------------- other actions

/-- What is announced does not matter to the log. -/
theorem Logged.of_events [NameProperties]
    (hs : s.Logged text) (events : Array Event) :
    Logged text { s with events } :=
  ⟨hs.traced.of_eq rfl rfl rfl rfl rfl, hs.holds.of_eq rfl rfl rfl rfl,
    hs.ordered⟩

/-- What is reported does not count. -/
theorem Settled.of_events [NameProperties]
    (hs : s.Settled text) (events : Array Event) :
    Settled text { s with events } where
  toLogged := hs.toLogged.of_events events
  found := hs.found
  level := hs.level

/-- What is announced does not matter behind a token. -/
theorem Behind.of_events [NameProperties]
    (hs : s.Behind text t) (events : Array Event) :
    Behind text t { s with events } where
  toSettled := hs.toSettled.of_events events
  start_le := hs.start_le
  found_start := hs.found_start

/-- Where a semicolon is missing, what was found is in front of the
lookahead or at it. -/
theorem Settled.extend [NameProperties] (hs : s.Settled text) :
    Settled text { s with last := s.lookahead.span.start } where
  traced := hs.traced.extend
  holds := hs.holds.of_eq rfl rfl rfl rfl
  ordered := hs.ordered
  found _ hd := .inl (hs.line_le hd)
  level := Nat.le_refl _

end ParseState

-- ========================================================== judgments

namespace Parse

open ParseState

variable {α β : Type} {P Q R : ParseState → Prop} {p p' : Parse α}
  {f : α → Parse β}

/-- A success leads from states that `P` holds of to ones that `Q` holds
of. -/
def Carries (P : ParseState → Prop) (p : Parse α)
    (Q : ParseState → Prop) : Prop :=
  ∀ ⦃s a s'⦄, P s → p s = .ok a s' → Q s'

/-- What was found up to the end of the lookahead is settled. -/
abbrev Clears [NameProperties] (text : List Char) (p : Parse α) : Prop :=
  Carries (Covered text) p (Settled text)

/-- A calm state is settled. -/
abbrev Begins [NameProperties] (text : List Char) (p : Parse α) : Prop :=
  Carries (Calm text) p (Settled text)

/-- A settled state stays one. -/
abbrev Continues [NameProperties] (text : List Char) (p : Parse α) : Prop :=
  Carries (Settled text) p (Settled text)

namespace Carries

/-- One action after another. -/
theorem bind (hp : Carries P p R) (hf : ∀ a, Carries R (f a) Q) :
    Carries P (p >>= f) Q := by
  intro s b s' hs h
  obtain ⟨a, s₁, h₁, h₂⟩ := bind_ok.1 h
  exact hf a (hp hs h₁) h₂

/-- An action with its result changed. -/
theorem map {f : α → β} (hp : Carries P p Q) : Carries P (f <$> p) Q := by
  intro s b s' hs h
  obtain ⟨a, h₁, -⟩ := map_ok.1 h
  exact hp hs h₁

/-- Either of two actions. -/
theorem ite {c : Prop} [Decidable c] (hp : Carries P p Q)
    (hp' : Carries P p' Q) : Carries P (if c then p else p') Q := by
  split
  · exact hp
  · exact hp'

/-- A result without an action. -/
theorem pure {a : α} : Carries P (Pure.pure a) P := by
  intro s b s' hs h
  obtain ⟨-, rfl⟩ := pure_ok.1 h
  exact hs

/-- An action that never succeeds may be said to lead anywhere. -/
theorem of_fails (h : ∀ s a s', ¬p s = .ok a s') : Carries P p Q :=
  fun s a s' _ hok => absurd hok (h s a s')

-- ------------------------------------------------------------- the looks

/-- A look at the next token. -/
theorem lookahead {f : Token → Parse β} (hf : ∀ t, Carries P (f t) Q) :
    Carries P (Parse.lookahead >>= f) Q :=
  fun s => @hf s.lookahead s

/-- The look for a mark. -/
theorem isAt {mark : String} {f : Bool → Parse β}
    (hf : ∀ b, Carries P (f b) Q) : Carries P (Parse.isAt mark >>= f) Q :=
  fun s => @hf (s.lookahead.isPunctuator mark) s

/-- The look for a word. -/
theorem isAtWord {word : String} {f : Bool → Parse β}
    (hf : ∀ b, Carries P (f b) Q) :
    Carries P (Parse.isAtWord word >>= f) Q :=
  fun s => @hf (s.lookahead.isKeyword word) s

/-- The look for a line break. -/
theorem afterLineBreak {f : Bool → Parse β}
    (hf : ∀ b, Carries P (f b) Q) :
    Carries P (Parse.afterLineBreak >>= f) Q :=
  fun s => @hf s.lineBreak s

/-- The question whether errors are tolerated. -/
theorem isTolerant {f : Bool → Parse β} (hf : ∀ b, Carries P (f b) Q) :
    Carries P (Parse.isTolerant >>= f) Q :=
  fun s => @hf s.log.tolerant s

/-- The look for a bound name behind the next token. -/
theorem bindingAhead {onSameLine : Bool} :
    Carries P (Parse.bindingAhead onSameLine) P := by
  intro s b s' hs h
  obtain ⟨rfl, -⟩ := bindingAhead_ok.1 h
  exact hs

-- ------------------------------------------------------------ the phases

/-- What clears a state may follow anything that was found. -/
theorem begins [NameProperties] (h : p.Clears text) : p.Begins text :=
  fun _ _ _ hs => h hs.covered

/-- What settles a covered state keeps a settled one. -/
theorem continues [NameProperties] (h : p.Clears text) : p.Continues text :=
  fun _ _ _ hs => h hs.toCalm.covered

/-- What settles a calm state keeps a settled one. -/
theorem goesOn [NameProperties] (h : p.Begins text) : p.Continues text :=
  fun _ _ _ hs => h hs.toCalm

/-- A settled state is covered. -/
theorem covers [NameProperties] (h : Carries P p (Settled text)) :
    Carries P p (Covered text) :=
  fun _ _ _ hs hok => (h hs hok).toCalm.covered

end Carries

-- ------------------------------------------------------------- failures

/-- What holds before a text that is nested too deeply holds after it. -/
theorem carries_exhausted : Carries P (exhausted : Parse α) Q :=
  .of_fails fun _ _ _ => exhausted_ok

/-- What holds before a text that is refused holds after it. -/
theorem carries_reject : Carries P (reject cause : Parse α) Q :=
  .of_fails fun _ _ _ => reject_ok

/-- What holds before a token that is refused holds after it. -/
theorem carries_unexpected : Carries P (unexpected t : Parse α) Q :=
  .of_fails fun _ _ _ => unexpected_ok

-- --------------------------------------------------------------- tokens

/-- What holds before the look for a mark holds after it. -/
theorem carries_isAt {mark : String} : Carries P (isAt mark) P := by
  rintro s b s' hs ⟨⟩
  exact hs

/-- A covered state is settled after a step to the next token. -/
theorem clears_shift [NameProperties] : shift.Clears text :=
  fun _ _ _ hs h => hs.shift h

/-- A covered state is settled after a token that is passed over. -/
theorem clears_skip [NameProperties] :
    skip.Clears text := clears_shift.bind fun _ => .pure

/-- A covered state is settled after a mark that is asked for. -/
theorem clears_expect [NameProperties]
    {mark : String} : (expect mark).Clears text :=
  clears_shift.bind fun _ => .ite .pure carries_unexpected

/-- A covered state is settled after a word that is asked for. -/
theorem clears_expectWord [NameProperties] {word : String} :
    (expectWord word).Clears text :=
  clears_shift.bind fun _ => .ite .pure carries_unexpected

/-- A covered state is settled after a next token that is refused. -/
theorem clears_unexpectedNext [NameProperties] :
    (shift >>= fun t => (unexpected t : Parse α)).Clears text :=
  clears_shift.bind fun _ => carries_unexpected

-- -------------------------------------------------------------- records

/-- A calm state stays calm over an objection to what was read. -/
theorem begins_object [NameProperties] (hcause : cause ≠ .escapedReserved) :
    Carries (Calm text) (object cause) (Calm text) := by
  intro s u s' hs h
  obtain ⟨-, rfl⟩ := tolerate_ok.1 h
  exact hs.record_last hcause

/-- A settled state stays settled over an objection to what was read. -/
theorem continues_object [NameProperties] (hcause : cause ≠ .escapedReserved) :
    (object cause).Continues text := by
  intro s u s' hs h
  obtain ⟨-, rfl⟩ := tolerate_ok.1 h
  exact hs.record_last hcause

/-- What is found at a token may be recorded once it is consumed. -/
theorem carries_objectTo [NameProperties] (hcause : cause ≠ .escapedReserved) :
    Carries (Behind text t) (objectTo t cause) (Settled text) := by
  intro s u s' hs h
  obtain ⟨-, rfl⟩ := tolerate_ok.1 h
  exact hs.record rfl rfl hcause

/-- An unexpected token is no matter of escapes. -/
theorem unexpected_ne_escapedReserved (t : Token) :
    t.unexpected ≠ .escapedReserved := by
  unfold Token.unexpected
  cases t.kind <;> nofun

-- --------------------------------------------------------------- places

/-- A settled state stays settled over a node that is completed. -/
theorem continues_close [NameProperties] {kind : NodeKind} {start : Position} :
    (close kind start).Continues text := by
  intro s span s' hs h
  obtain ⟨-, rfl⟩ := close_ok.1 h
  exact hs.of_events _

/-- A settled state stays settled over a node that is extended to the next
token. -/
theorem continues_extendToLookahead [NameProperties] :
    extendToLookahead.Continues text := by
  rintro s u s' hs ⟨⟩
  exact hs.extend

-- --------------------------------------------------------- repetitions

/-- What holds before an action that is repeated holds after it. -/
theorem carries_collectWhile {more : Parse Bool}
    (hmore : Carries P more P) (hp : Carries P p P) (steps : Nat) :
    Carries P (collectWhile more p steps) P := by
  induction steps with
  | zero => exact carries_exhausted
  | succ steps ih =>
      exact hmore.bind fun _ => .ite
        (hp.bind fun _ => ih.bind fun _ => .pure) .pure

/-- A comma that is missing is found at what stands in its place, and the
next item clears that. -/
theorem carries_separated [NameProperties]
    {separator : Parse Unit} (hp : p.Clears text)
    (hseparator : Carries (Settled text) separator (Covered text))
    (steps : Nat) :
    Carries (Covered text) (separated p separator steps)
      (Covered text) := by
  induction steps with
  | zero => exact carries_exhausted
  | succ steps ih =>
      refine hp.bind fun _ => .isAt fun _ => .ite Carries.pure.covers ?_
      exact hseparator.bind fun _ => .isAt fun _ => .ite .pure
        (ih.bind fun _ => .pure)

/-- A covered state is settled after items in parentheses. -/
theorem clears_parenthesized [NameProperties]
    {separator : Parse Unit} (hp : p.Clears text)
    (hseparator : Carries (Settled text) separator (Covered text))
    (steps : Nat) :
    (parenthesized p separator steps).Clears text := by
  have hitems : Carries (Covered text) (upToParenthesis p separator steps)
      (Covered text) :=
    .isAt fun _ => .ite .pure (carries_separated hp hseparator steps)
  exact clears_expect.covers.bind fun _ => hitems.bind fun _ =>
    clears_expect.bind fun _ => .pure

end Parse

end ScriptTree
