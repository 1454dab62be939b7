/-
How a parse builds its tree.

# Runs that build

On the way a parse completes one node after the other. The nodes that are
complete and not yet within another one form a forest. To complete a node
is to take what was built since the node started and to put it within the
node (`ParseState.Builds.close`). This is the one place where the start of
a node, the end of it and the nodes within it come together, so all that
is said of the places of nodes, or of the order in which they are
reported, follows by induction on runs that build.

A node takes at least one token. The only other one is that which stands
for a missing body (`ParseState.Builds.missing`), and only a tolerant
parse has those.

# What is proved here

`p.Builds consumes v` says of an action that its runs build `v` of its
result, and whether they surely consume a token. `BuildsAt` says the same
from within a production, where some of the forest is there already. The
rules for sequences, branches and repetitions follow, and one for each
basic action. The productions are followed through in the modules below
this one.
-/
import ScriptTree.Grammar.Statement
import ScriptTree.Proofs.Action
import ScriptTree.Proofs.Wording
import ScriptTree.Tree.Outline

namespace ScriptTree

variable {b c d : Bool} {forest forest' : List (Outline Span)}

-- ============================================================== runs

/-- A run from one state to another that builds a forest. It is `true` of
runs that consume a token and `false` of any run. -/
inductive ParseState.Builds :
    Bool → ParseState → List (Outline Span) → ParseState → Prop where
  | refl (s : ParseState) : Builds false s [] s
  | weaken {s s' : ParseState} {forest : List (Outline Span)} :
      Builds true s forest s' → Builds false s forest s'
  | shift {b : Bool} {s s₁ s₂ : ParseState}
      {forest : List (Outline Span)} {t : Token} :
      Builds b s forest s₁ → Parse.shift s₁ = .ok t s₂ →
        Builds true s forest s₂
  /-- Words in escapes are recorded by shifts, and by nothing else. -/
  | tolerate {b : Bool} {s s₁ s₂ : ParseState}
      {forest : List (Outline Span)} {d : Diagnostic} :
      Builds b s forest s₁ → d.description ≠ Message.escapedReserved →
        Parse.tolerate d s₁ = .ok () s₂ → Builds b s forest s₂
  | extend {b : Bool} {s s₁ : ParseState} {forest : List (Outline Span)} :
      Builds b s forest s₁ →
        Builds b s forest { s₁ with last := s₁.lookahead.span.start }
  /-- A node takes what was built since it started. -/
  | close {b : Bool} {s s₁ s₂ s₃ : ParseState}
      {forest children : List (Outline Span)} {kind : NodeKind}
      {span : Span} :
      Builds b s forest s₁ → Builds true s₁ children s₂ →
        Parse.close kind s₁.lookahead.span.start s₂ = .ok span s₃ →
          Builds true s (forest ++ [.node kind span children]) s₃
  /-- A node that takes nothing, after something else was consumed. -/
  | missing {s s₁ s₂ : ParseState} {forest : List (Outline Span)}
      {span : Span} :
      Builds true s forest s₁ → s₁.log.tolerant = true →
        Parse.close .emptyStatement s₁.lookahead.span.start s₁
          = .ok span s₂ →
          Builds true s (forest ++ [.node .emptyStatement span []]) s₂

namespace ParseState.Builds

variable {s s' s₁ : ParseState}

/-- It may be left open whether a token was consumed. -/
theorem forget (h : Builds b s forest s') : Builds false s forest s' := by
  cases b with
  | false => exact h
  | true => exact h.weaken

/-- One run after the other. -/
theorem append (h : Builds b s forest s₁) (h' : Builds c s₁ forest' s') :
    Builds (c || b) s (forest ++ forest') s' := by
  induction h' with
  | refl =>
      rw [List.append_nil]
      exact h
  | weaken _ ih =>
      cases b with
      | false => exact (ih h).weaken
      | true => exact ih h
  | shift _ hshift ih => exact (ih h).shift hshift
  | tolerate _ hd htolerate ih => exact (ih h).tolerate hd htolerate
  | extend _ ih => exact (ih h).extend
  | close _ hchildren hclose ih _ =>
      rw [← List.append_assoc]
      exact (ih h).close hchildren hclose
  | missing _ htolerant hclose ih =>
      rw [← List.append_assoc]
      exact (ih h).missing htolerant hclose

/-- A run that builds nothing, and then another. -/
theorem after (h : Builds b s [] s₁) (h' : Builds c s₁ forest' s') :
    Builds c s forest' s' := by
  have happend := h.forget.append h'
  rw [Bool.or_false] at happend
  exact happend

/-- A run that builds is a number of steps. -/
theorem reaches (h : Builds b s forest s') : s.Reaches s' := by
  induction h with
  | refl => exact .refl
  | weaken _ ih => exact ih
  | shift _ hshift ih => exact ih.tail (.shift hshift)
  | tolerate _ _ htolerate ih => exact ih.tail (.tolerate htolerate)
  | extend _ ih => exact ih.tail (.standAt rfl)
  | close _ _ hclose ih ih' => exact (ih.trans ih').tail (.close hclose)
  | missing _ _ hclose ih => exact ih.tail (.close hclose)

end ParseState.Builds

-- ========================================================= actions

namespace Parse

variable {α β : Type} {s₀ : ParseState} {seen : List (Outline Span)}
  {p : Parse α} {f : α → Parse β} {v : α → List (Outline Span)}
  {w : β → List (Outline Span)}

/-- A success builds `v` of its result, and consumes a token if it is
said to. -/
def Builds (p : Parse α) (c : Bool) (v : α → List (Outline Span)) :
    Prop :=
  ∀ ⦃s a s'⦄, p s = .ok a s' → s.Builds c (v a) s'

/-- Where `seen` was built from the state `s₀` on, a success has built `v`
of its result from that state on. -/
def BuildsAt (s₀ : ParseState) (b : Bool) (seen : List (Outline Span))
    (p : Parse α) (c : Bool) (v : α → List (Outline Span)) : Prop :=
  ∀ ⦃s a s'⦄, s₀.Builds b seen s → p s = .ok a s' → s₀.Builds c (v a) s'

/-- A success builds nothing, and consumes a token if it is said to. -/
def BuildsNothing (p : Parse α) (c : Bool) : Prop :=
  ∀ ⦃s a s'⦄, p s = .ok a s' → s.Builds c [] s'

/-- An action that never succeeds. -/
theorem Builds.of_fails (h : ∀ s a s', ¬p s = .ok a s') : p.Builds c v :=
  fun s a s' hp => absurd hp (h s a s')

/-- A production is followed from the state in which it starts. -/
theorem Builds.of_at (h : ∀ s₀, BuildsAt s₀ false [] p c v) :
    p.Builds c v :=
  fun s _ _ hp => h s (.refl s) hp

/-- The first token is looked at. -/
theorem Builds.lookahead {f : Token → Parse β}
    (hf : ∀ s₀, BuildsAt s₀ false [] (f s₀.lookahead) c w) :
    (Parse.lookahead >>= f).Builds c w := by
  intro s a s' hp
  rw [lookahead_bind] at hp
  exact hf s (.refl s) hp

/-- The first token is shifted out. -/
theorem Builds.shift {f : Token → Parse β}
    (hf : ∀ s₀, BuildsAt s₀ true [] (f s₀.lookahead) c w) :
    (Parse.shift >>= f).Builds c w := by
  intro s a s' hp
  obtain ⟨t, s₁, hshift, hp⟩ := bind_ok.1 hp
  obtain rfl := (shift_ok.1 hshift).1
  exact hf s (.shift (.refl s) hshift) hp

/-- An action that builds nothing, and then another. -/
theorem Builds.before (hp : p.BuildsNothing b)
    (hf : ∀ a, (f a).Builds c w) : (p >>= f).Builds c w := by
  intro s a s' h
  obtain ⟨a₁, s₁, h₁, h₂⟩ := bind_ok.1 h
  exact (hp h₁).after (hf a₁ h₂)

/-- An action with its result changed. -/
theorem Builds.map {g : α → β} (hp : p.Builds c v)
    (h : ∀ a, w (g a) = v a) : (g <$> p).Builds c w := by
  intro s a s' hm
  obtain ⟨a₁, h₁, rfl⟩ := map_ok.1 hm
  rw [h]
  exact hp h₁

/-- Either of two actions. -/
theorem Builds.ite {q : Prop} [Decidable q] {p p' : Parse α}
    (hp : q → p.Builds c v) (hp' : ¬q → p'.Builds c v) :
    (if q then p else p').Builds c v := by
  split
  case isTrue hq => exact hp hq
  case isFalse hq => exact hp' hq

/-- It may be left open whether an action consumes a token. -/
theorem Builds.forget (hp : p.Builds c v) : p.Builds false v :=
  fun _ _ _ h => (hp h).forget

namespace BuildsAt

/-- A result without an action. -/
theorem pure {a : α} (h : v a = seen) :
    BuildsAt s₀ b seen (Pure.pure a) b v := by
  intro s a' s' hs hp
  obtain ⟨rfl, rfl⟩ := pure_ok.1 hp
  rw [h]
  exact hs

/-- An action that never succeeds. -/
theorem of_fails (h : ∀ s a s', ¬p s = .ok a s') :
    BuildsAt s₀ b seen p c v := fun s a s' _ hp => absurd hp (h s a s')

/-- A token that is refused. -/
theorem unexpected {t : Token} :
    BuildsAt s₀ b seen (Parse.unexpected t) c v :=
  of_fails fun _ _ _ => unexpected_ok

/-- A text that is refused. -/
theorem reject {cause : Cause} :
    BuildsAt s₀ b seen (Parse.reject cause) c v :=
  of_fails fun _ _ _ => reject_ok

/-- What is said of an action alone holds after anything. -/
theorem after (hp : p.Builds c v) :
    BuildsAt s₀ b seen p (c || b) fun a => seen ++ v a :=
  fun _ _ _ hs h => hs.append (hp h)

/-- One action after another. -/
theorem bind (hp : BuildsAt s₀ b seen p c v)
    (hf : ∀ a, BuildsAt s₀ c (v a) (f a) d w) :
    BuildsAt s₀ b seen (p >>= f) d w := by
  intro s a s' hs h
  obtain ⟨a₁, s₁, h₁, h₂⟩ := bind_ok.1 h
  exact hf a₁ (hp hs h₁) h₂

/-- A production, and then what follows it. -/
theorem next (hp : p.Builds c v)
    (hf : ∀ a, BuildsAt s₀ (c || b) (seen ++ v a) (f a) d w) :
    BuildsAt s₀ b seen (p >>= f) d w := (after hp).bind hf

/-- What builds nothing leaves the forest as it is. -/
theorem silent (hp : p.BuildsNothing c)
    (hf : ∀ a, BuildsAt s₀ (c || b) seen (f a) d w) :
    BuildsAt s₀ b seen (p >>= f) d w := by
  intro s a s' hs h
  obtain ⟨a₁, s₁, h₁, h₂⟩ := bind_ok.1 h
  have happend := hs.append (hp h₁)
  rw [List.append_nil] at happend
  exact hf a₁ happend h₂

/-- Either of two actions. -/
theorem ite {q : Prop} [Decidable q] {p p' : Parse α}
    (hp : q → BuildsAt s₀ b seen p c v)
    (hp' : ¬q → BuildsAt s₀ b seen p' c v) :
    BuildsAt s₀ b seen (if q then p else p') c v := by
  split
  case isTrue hq => exact hp hq
  case isFalse hq => exact hp' hq

/-- A node is completed that started where the forest did. -/
theorem close {kind : NodeKind} {f : Span → Parse β}
    (hf : ∀ span, BuildsAt s₀ true [.node kind span seen] (f span) c w) :
    BuildsAt s₀ true seen
      (Parse.close kind s₀.lookahead.span.start >>= f) c w := by
  intro s a s' hs h
  obtain ⟨span, s₁, h₁, h₂⟩ := bind_ok.1 h
  exact hf span (.close (.refl s₀) hs h₁) h₂

end BuildsAt

-- ------------------------------------------------------ basic actions

namespace BuildsNothing

/-- It may be left open whether an action consumes a token. -/
theorem forget (hp : p.BuildsNothing c) : p.BuildsNothing false :=
  fun _ _ _ h => (hp h).forget

/-- One action after another. -/
theorem bind (hp : p.BuildsNothing b) (hf : ∀ a, (f a).BuildsNothing c) :
    (p >>= f).BuildsNothing c := by
  intro s a s' h
  obtain ⟨a₁, s₁, h₁, h₂⟩ := bind_ok.1 h
  exact (hp h₁).after (hf a₁ h₂)

/-- Either of two actions. -/
theorem ite {q : Prop} [Decidable q] {p p' : Parse α}
    (hp : p.BuildsNothing c) (hp' : p'.BuildsNothing c) :
    (if q then p else p').BuildsNothing c := by
  split
  · exact hp
  · exact hp'

/-- An action that never succeeds. -/
theorem of_fails (h : ∀ s a s', ¬p s = .ok a s') : p.BuildsNothing c :=
  fun s a s' hp => absurd hp (h s a s')

/-- A result without an action. -/
theorem pure (a : α) : (Pure.pure a : Parse α).BuildsNothing false := by
  intro s b s' h
  obtain ⟨-, rfl⟩ := pure_ok.1 h
  exact .refl _

/-- A token that is refused. -/
theorem unexpected (t : Token) :
    (Parse.unexpected t : Parse α).BuildsNothing c :=
  .of_fails fun _ _ _ => unexpected_ok

/-- A look at the next token. -/
theorem lookahead : Parse.lookahead.BuildsNothing false := by
  rintro s _ _ ⟨⟩
  exact .refl _

/-- The look for a mark. -/
theorem isAt (mark : String) : (Parse.isAt mark).BuildsNothing false := by
  rintro s _ _ ⟨⟩
  exact .refl _

/-- The look for a word. -/
theorem isAtWord (word : String) :
    (Parse.isAtWord word).BuildsNothing false := by
  rintro s _ _ ⟨⟩
  exact .refl _

/-- The look for a line break. -/
theorem afterLineBreak : Parse.afterLineBreak.BuildsNothing false := by
  rintro s _ _ ⟨⟩
  exact .refl _

/-- The question whether errors are tolerated. -/
theorem isTolerant : Parse.isTolerant.BuildsNothing false := by
  rintro s _ _ ⟨⟩
  exact .refl _

/-- The look for a bound name behind the next token. -/
theorem bindingAhead (onSameLine : Bool) :
    (Parse.bindingAhead onSameLine).BuildsNothing false := by
  intro s b s' h
  obtain ⟨rfl, -⟩ := bindingAhead_ok.1 h
  exact .refl _

/-- An error that may be tolerated. -/
theorem tolerate {d : Diagnostic}
    (hd : d.description ≠ Message.escapedReserved) :
    (Parse.tolerate d).BuildsNothing false :=
  fun s _ _ h => .tolerate (.refl s) hd h

/-- An objection to what was read. -/
theorem object {cause : Cause}
    (hc : cause.description ≠ Message.escapedReserved) :
    (Parse.object cause).BuildsNothing false :=
  fun s _ _ h => .tolerate (d := s.last.diagnose cause) (.refl s) hc h

/-- An objection to a token. -/
theorem objectTo {t : Token} {cause : Cause}
    (hc : cause.description ≠ Message.escapedReserved) :
    (Parse.objectTo t cause).BuildsNothing false :=
  fun s _ _ h => .tolerate (d := s.diagnoseToken t cause) (.refl s) hc h

/-- A node that is extended to the next token. -/
theorem extendToLookahead :
    Parse.extendToLookahead.BuildsNothing false := by
  intro s _ s' h
  cases h
  exact .extend (.refl s)

/-- A step to the next token. -/
theorem shift : Parse.shift.BuildsNothing true :=
  fun s _ _ h => .shift (.refl s) h

/-- A token that is passed over. -/
theorem skip : Parse.skip.BuildsNothing true :=
  fun _ _ _ h => shift (skip_ok.1 h)

/-- A mark that is asked for. -/
theorem expect (mark : String) : (Parse.expect mark).BuildsNothing true :=
  fun _ _ _ h => skip (expect_ok.1 h).2

/-- A word that is asked for. -/
theorem expectWord (word : String) :
    (Parse.expectWord word).BuildsNothing true :=
  fun _ _ _ h => skip (expectWord_ok.1 h).2

end BuildsNothing

-- ====================================================== repetition

variable {o : α → Outline Span}

/-- The trees of repeated items come one after the other. -/
theorem builds_collectWhile {more : Parse Bool}
    (hm : more.BuildsNothing false) (hp : p.Builds c fun a => [o a])
    (steps : Nat) :
    (collectWhile more p steps).Builds false (List.map o) := by
  induction steps with
  | zero => exact .of_fails fun _ _ _ => exhausted_ok
  | succ steps ih =>
      refine .of_at fun s₀ => .silent hm fun b => ?_
      refine .ite (fun _ => ?_) fun _ => .pure rfl
      refine .next hp.forget fun a => .next ih fun l => ?_
      exact .pure rfl

/-- The nodes of items with separators between them. -/
theorem builds_separated {separator : Parse Unit}
    (hp : p.Builds true fun a => [o a])
    (hs : separator.BuildsNothing false) (steps : Nat) :
    (separated p separator steps).Builds true (List.map o) := by
  induction steps with
  | zero => exact .of_fails fun _ _ _ => exhausted_ok
  | succ steps ih =>
      refine .of_at fun s₀ => .next hp fun a => ?_
      refine .silent (.isAt ")") fun b => ?_
      refine .ite (fun _ => .pure rfl) fun _ => .silent hs fun _ => ?_
      refine .silent (.isAt ")") fun b => ?_
      refine .ite (fun _ => .pure rfl) fun _ => ?_
      exact .next ih fun l => .pure rfl

/-- The nodes of items in parentheses. -/
theorem builds_parenthesized {separator : Parse Unit}
    (hp : p.Builds true fun a => [o a])
    (hs : separator.BuildsNothing false) (steps : Nat) :
    (parenthesized p separator steps).Builds true (List.map o) := by
  have hitems : (upToParenthesis p separator steps).Builds false
      (List.map o) :=
    .before (.isAt ")") fun b => .ite
      (fun _ => .of_at fun s₀ => .pure rfl)
      fun _ => (builds_separated hp hs steps).forget
  refine .of_at fun s₀ => .silent (.expect "(") fun _ => ?_
  refine .next hitems fun l => .silent (.expect ")") fun _ => ?_
  exact .pure rfl

end Parse

end ScriptTree
