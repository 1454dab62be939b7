/-
One run under two bounds on the work.

A run is in concord with itself (`Concord.single`), and so the bounds on
the two sides, as long as both are enough, make no difference: what the
run comes to is the same, and it is not that a bound ran out
(`Concord.Alike.single`). Along the way an invariant may be kept of all
states that the run goes through.
-/
import ScriptTree.Proofs.Concord.Statement

namespace ScriptTree

variable {s s' : ParseState}

-- =========================================================== outcomes

namespace Parse

/-- A shift gives the lookahead, or is refused with the comments passed
over. -/
theorem shift_cases (s : ParseState) :
    (∃ u, shift s = .ok s.lookahead u) ∨
      ∃ d, shift s = .error (.refused d) (s.pass s.rest.next.1) := by
  unfold shift
  rcases s.rest.next with ⟨comments, d | ⟨next, rest⟩⟩
  · exact .inr ⟨d, rfl⟩
  · dsimp only
    cases (s.pass comments).log.accept next with
    | ok log => exact .inl ⟨_, rfl⟩
    | error d => exact .inr ⟨d, rfl⟩

/-- A look at the token after the lookahead leaves the state as it is. -/
theorem bindingAhead_cases (onSameLine : Bool) (s : ParseState) :
    (∃ c, bindingAhead onSameLine s = .ok c s) ∨
      ∃ d, bindingAhead onSameLine s = .error (.refused d) s := by
  unfold bindingAhead
  rcases s.rest.next with ⟨comments, d | ⟨next, rest⟩⟩
  · exact .inr ⟨d, rfl⟩
  · dsimp only
    cases s.log.accept next with
    | ok log => exact .inl ⟨_, rfl⟩
    | error d => exact .inr ⟨d, rfl⟩

end Parse

-- ========================================================= invariants

/-- What is so in all states of a run, and, with `J`, in the one where it
is refused. -/
structure ParseState.Invariant (I J : ParseState → Prop) : Prop where
  formed {s : ParseState} : I s → s.rest.Formed
  ends {s : ParseState} : I s → s.Ends
  shift {s s' : ParseState} {t : Token} : I s →
    Parse.shift s = .ok t s' → I s'
  record {s : ParseState} {d : Diagnostic} : I s →
    s.log.tolerant = true → I { s with log := s.log.record d }
  close {s : ParseState} {kind : NodeKind} {start : Position} : I s →
    I { s with events := s.events.push (.node kind ⟨start, s.last⟩) }
  extend {s : ParseState} : I s →
    I { s with last := s.lookahead.span.start }
  failed {s : ParseState} : I s → J s
  passed {s : ParseState} {comments : List Comment} : I s →
    J (s.pass comments)

/-- A token that looks the same in all respects is the same. -/
theorem Token.eq_of_view {t t' : Token} (h : t'.view id = t.view id) :
    t' = t := by
  obtain ⟨kind, value, raw, start, stop⟩ := t
  obtain ⟨kind', value', raw', start', stop'⟩ := t'
  simp only [view, id, Prod.mk.injEq] at h
  obtain ⟨rfl, rfl, rfl, rfl, rfl⟩ := h
  rfl

namespace Concord

variable {I J : ParseState → Prop} {α γ : Type}

/-- A run in concord with itself. -/
def single (h : ParseState.Invariant I J) :
    Concord Position Span Diagnostic where
  observe := id
  place := id
  report := id
  place_eq {p q} hstart hstop := by
    obtain ⟨start, stop⟩ := p
    obtain ⟨start', stop'⟩ := q
    obtain rfl : start' = start := hstart
    obtain rfl : stop' = stop := hstop
    rfl
  start_of_place {p q} hplace := by
    obtain rfl : q = p := hplace
    rfl
  report_diagnose {p q cause} hp := by
    obtain rfl : q = p := hp
    rfl
  Related _ s s' := s' = s ∧ I s
  Failed u u' := u' = u ∧ J u
  forget hs := hs
  failed hs := ⟨hs.1, h.failed hs.2⟩
  lookahead hs := by rw [hs.1]
  lineBreak hs := by rw [hs.1]
  last hs := by rw [hs.1]
  tolerant hs := by rw [hs.1]
  report_diagnoseToken {b s s' t t' cause} hs ht := by
    rw [hs.1, Token.eq_of_view ht]
  shift {b s s'} hs := by
    obtain ⟨rfl, hinv⟩ := hs
    rcases Parse.shift_cases s' with ⟨u, hu⟩ | ⟨d, hd⟩
    · obtain ⟨hle, hlt⟩ :=
        ParseState.ahead_of_shift (h.formed hinv) (h.ends hinv) hu
      exact .inl ⟨u, u, hu, hu, ⟨rfl, h.shift hinv hu⟩, hle, hlt⟩
    · exact .inr ⟨d, d, _, _, hd, hd, rfl, rfl, h.passed hinv⟩
  bindingAhead {b s s' onSameLine} hs := by
    obtain ⟨rfl, -⟩ := hs
    rcases Parse.bindingAhead_cases onSameLine s' with ⟨c, hc⟩ | ⟨d, hd⟩
    · exact .inl ⟨c, hc, hc⟩
    · exact .inr ⟨d, d, hd, hd, rfl⟩
  close {b s s' kind start start'} hs hstart := by
    obtain ⟨rfl, hinv⟩ := hs
    obtain rfl : start' = start := hstart
    exact ⟨rfl, h.close hinv⟩
  record {b s s' d d'} hs hmay hd := by
    obtain ⟨rfl, hinv⟩ := hs
    obtain rfl : d' = d := hd
    exact ⟨rfl, h.record hinv hmay⟩
  extend {b s s'} hs := by
    obtain ⟨rfl, hinv⟩ := hs
    exact ⟨rfl, h.extend hinv⟩

variable {h : ParseState.Invariant I J} {b o : Bool} {n : Nat}
  {v : α → γ} {r r' : EStateM.Result Failure ParseState α}

/-- States that are compared with themselves. -/
theorem at_single (hs : I s) (hn : s.ahead < n) :
    (single h).At b false n s s :=
  ⟨⟨rfl, hs⟩, hn, nofun⟩

/-- What a run comes to: it is the same under both bounds, and it is a
success with so many tokens ahead, or a refusal. -/
theorem Alike.single (hv : Function.Injective v)
    (hr : (single h).Alike ((single h).At b o n) v r r') :
    r' = r ∧ ((∃ a u, r = .ok a u ∧ I u ∧ u.ahead < n) ∨
      ∃ d u, r = .error (.refused d) u ∧ J u) := by
  cases hr with
  | @ok a b u u' hab hu =>
      obtain ⟨⟨rfl, hinv⟩, hahead, -⟩ := hu
      obtain rfl := hv hab
      exact ⟨rfl, .inl ⟨_, _, rfl, hinv, hahead⟩⟩
  | @refused d d' u u' hd hu =>
      obtain ⟨rfl, hfailed⟩ := hu
      obtain rfl : d' = d := hd
      exact ⟨rfl, .inr ⟨_, _, rfl, hfailed⟩⟩

end Concord

-- =========================================================== results

/-- A map that changes nothing tells everything apart. -/
theorem injective_of_id {α : Type} {f : α → α} (h : ∀ a, f a = a) :
    Function.Injective f := by
  intro a b hab
  rwa [h a, h b] at hab

/-- The rest of a script is the same under bounds that are enough, and an
invariant is kept to its end. -/
theorem ParseState.Invariant.scriptBody {I J : ParseState → Prop}
    (h : Invariant I J) {u : ParseState} (hu : I u) {bound bound' : Nat}
    (hbound : u.ahead < bound) (hbound' : u.ahead < bound')
    (start : Position) :
    Parse.scriptBody (.ofDepth bound') start u
        = Parse.scriptBody (.ofDepth bound) start u ∧
      ((∃ script u', Parse.scriptBody (.ofDepth bound) start u
          = .ok script u' ∧ I u') ∨
        ∃ d u', Parse.scriptBody (.ofDepth bound) start u
          = .error (.refused d) u' ∧ J u') := by
  have hlevels := Concord.levels_ofDepth (Concord.single h) hbound hbound'
  have hat : (Concord.single h).At true false _ _ _ :=
    Concord.at_single hu (Nat.lt_succ_self _)
  have hstart : (Concord.single h).observe start
    = (Concord.single h).observe start := rfl
  have hends := Concord.agrees_scriptBody hlevels hstart hat
  obtain ⟨hsame, ⟨script, u', hok, hinv, -⟩ | hrefused⟩ :=
    hends.single (injective_of_id Script.map_id)
  · exact ⟨hsame, .inl ⟨script, u', hok, hinv⟩⟩
  · exact ⟨hsame, .inr hrefused⟩

end ScriptTree
