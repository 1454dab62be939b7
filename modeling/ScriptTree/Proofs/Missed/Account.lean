/-
The account of a reader: what it gives out, by the lines that it counts.

An account is a reader with its failures so far. The cursor counts all
lines but the missed ones (`Account.Kept`). What is missed later starts
behind the cursor (`Account.Precedes`), so what was found at a place
stays there by the lines that are counted in the end
(`Account.Placed.later`). One step keeps the account, whatever becomes of
it, and so does a run (`Account.Runs.kept`).
-/
import ScriptTree.Proofs.Feed.Failure
import ScriptTree.Proofs.Missed

namespace ScriptTree

variable {text : List Char} {d : Diagnostic} {p : Position}

-- =========================================================== places

/-- Where a place is if lines start at the given offsets. -/
def Position.On (starts : List Nat) (p : Position) : Prop :=
  p = positionOn starts p.offset

/-- Where a stretch is if lines start at the given offsets. -/
def Span.On (starts : List Nat) (span : Span) : Prop :=
  span.start.On starts ∧ span.stop.On starts

/-- What a diagnostic says of its place if lines start at the given
offsets. -/
def Diagnostic.On (starts : List Nat) (d : Diagnostic) : Prop :=
  d = (positionOn starts d.index).diagnose d.cause

theorem Position.On.diagnose {starts : List Nat} (h : p.On starts)
    (cause : Cause) : (p.diagnose cause).On starts :=
  congrArg (Position.diagnose · cause) h

-- ========================================================== accounts

/-- A reader, and the failures that it has given so far. -/
structure Account where
  reader : TokenReader
  failures : List Diagnostic

namespace Account

variable {a b e : Account} {spans : List Span} {r : TokenReader}
  {t : Token}

/-- The offset of the cursor. -/
def offset (a : Account) : Nat := a.reader.cursor.position.offset

/-- A place up to the cursor, where the counted lines say. -/
structure Placed (text : List Char) (a : Account) (p : Position) :
    Prop where
  on : p.On (countedStarts text a.failures)
  le : p.offset ≤ a.offset

/-- Said of such a place. -/
def Says (text : List Char) (a : Account) (d : Diagnostic) : Prop :=
  ∃ p, a.Placed text p ∧ d = p.diagnose d.cause

/-- From one such place to another. -/
def Encloses (text : List Char) (a : Account) (span : Span) : Prop :=
  a.Placed text span.start ∧ a.Placed text span.stop

/-- All lines are counted but the missed ones, and everything is said
accordingly. -/
structure Kept (text : List Char) (a : Account) : Prop where
  counts : a.reader.cursor.CountsIn text (missedLines text a.failures)
  said : ∀ d ∈ a.failures, a.Says text d
  recorded : ∀ d ∈ a.reader.log.recorded, a.Says text d
  escapes : ∀ start ∈ missedLines text a.failures, StartsInEscape text start

/-- What is missed later starts behind the cursor. -/
structure Precedes (text : List Char) (a b : Account) : Prop where
  forward : a.offset ≤ b.offset
  earlier : ∀ start ∈ missedLines text a.failures,
    start ∈ missedLines text b.failures
  later : ∀ start ∈ missedLines text b.failures,
    start ∈ missedLines text a.failures ∨ a.offset < start

namespace Precedes

theorem refl (a : Account) : a.Precedes text a :=
  ⟨Nat.le_refl _, fun _ h => h, fun _ h => .inl h⟩

theorem trans (h : a.Precedes text b) (h' : b.Precedes text e) :
    a.Precedes text e where
  forward := Nat.le_trans h.forward h'.forward
  earlier start hin := h'.earlier start (h.earlier start hin)
  later start hin := by
    rcases h'.later start hin with hin | hlt
    · exact h.later start hin
    · exact .inr (Nat.lt_of_le_of_lt h.forward hlt)

end Precedes

-- ------------------------------------------------------------ later on

/-- What is right at some time is so at any later time. -/
theorem Placed.later (hp : a.Placed text p) (h : a.Precedes text b) :
    b.Placed text p where
  on := by
    refine hp.on.trans (positionOn_congr ?_)
    simp only [countedStarts, List.filter_filter]
    refine List.filter_congr fun start _ => ?_
    have hsame : start ≤ p.offset →
        (start ∈ missedLines text a.failures ↔
          start ∈ missedLines text b.failures) := by
      refine fun hle => ⟨h.earlier start, fun hin => ?_⟩
      rcases h.later start hin with hin | hlt
      · exact hin
      · exact absurd (Nat.le_trans hle hp.le) (Nat.not_le_of_lt hlt)
    rw [← Bool.decide_and, ← Bool.decide_and, decide_eq_decide]
    exact and_congr_right fun hle => not_congr (hsame hle)
  le := Nat.le_trans hp.le h.forward

theorem Says.later (hd : a.Says text d) (h : a.Precedes text b) :
    b.Says text d := by
  obtain ⟨p, hp, hd⟩ := hd
  exact ⟨p, hp.later h, hd⟩

theorem Encloses.later {span : Span} (hs : a.Encloses text span)
    (h : a.Precedes text b) : b.Encloses text span :=
  ⟨hs.1.later h, hs.2.later h⟩

-- --------------------------------------------------------------- steps

/-- The place of a cursor that counts all lines but the missed ones. -/
theorem placed_of_counts {c : Cursor}
    (h : c.CountsIn text (missedLines text a.failures))
    (hle : c.position.offset ≤ a.offset) : a.Placed text c.position :=
  ⟨h.position_eq, hle⟩

/-- A step without a failure walks, and may record something. -/
theorem Kept.walks (h : a.Kept text)
    (hwalk : a.reader.cursor.Walks true r.cursor)
    (hlog : ∀ d ∈ r.log.recorded, d ∈ a.reader.log.recorded ∨
      d = a.reader.cursor.position.diagnose d.cause) :
    Kept text ⟨r, a.failures⟩ ∧ a.Precedes text ⟨r, a.failures⟩ := by
  have hprecedes : a.Precedes text ⟨r, a.failures⟩ :=
    ⟨hwalk.offset_le, fun _ hin => hin, fun _ hin => .inl hin⟩
  refine ⟨⟨h.counts.walks hwalk, fun d hd => (h.said d hd).later hprecedes,
    fun d hd => ?_, h.escapes⟩, hprecedes⟩
  rcases hlog d hd with hd | hd
  · exact (h.recorded d hd).later hprecedes
  · have hplaced : a.Placed text a.reader.cursor.position :=
      placed_of_counts h.counts (Nat.le_refl _)
    exact ⟨_, hplaced.later hprecedes, hd⟩

theorem Kept.skipTrivia (h : a.Kept text) :
    let b : Account := ⟨a.reader.skipTrivia.2, a.failures⟩
    b.Kept text ∧ a.Precedes text b ∧
      ∀ comment ∈ a.reader.skipTrivia.1, b.Encloses text comment.span := by
  intro b
  have hwalk : a.reader.cursor.Walks true b.reader.cursor :=
    Cursor.walks_skipTrivia a.reader.cursor
  obtain ⟨hkept, hprecedes⟩ := h.walks hwalk fun d hd => .inl hd
  refine ⟨hkept, hprecedes, fun comment hin => ?_⟩
  obtain ⟨start, stop, hstart, hstop, hrest, hspan⟩ :=
    Cursor.walks_comments _ _ (TokenReader.mem_skipTrivia hin)
  have hcounts := h.counts.walks hstart
  rw [hspan]
  exact ⟨placed_of_counts hcounts (hstop.trans hrest).offset_le,
    placed_of_counts (hcounts.walks hstop) hrest.offset_le⟩

theorem Kept.token [NameProperties]
    (h : a.Kept text) (htoken : a.reader.token = .ok t r) :
    let b : Account := ⟨r, a.failures⟩
    b.Kept text ∧ a.Precedes text b ∧ b.Encloses text t.span := by
  intro b
  obtain ⟨stop, log, hscan, haccept, rfl⟩ :=
    TokenReader.token_eq_ok.1 htoken
  have hspan := Cursor.token_span hscan
  have hwalk : a.reader.cursor.Walks true b.reader.cursor :=
    (token_walks hscan).1
  have hlog (d : Diagnostic) (hd : d ∈ b.reader.log.recorded) :
      d ∈ a.reader.log.recorded ∨
        d = a.reader.cursor.position.diagnose d.cause := by
    refine (Parse.mem_of_accept haccept hd).imp_right fun hd => ?_
    rw [hd, hspan]
    rfl
  obtain ⟨hkept, hprecedes⟩ := h.walks hwalk hlog
  refine ⟨hkept, hprecedes, ?_⟩
  rw [hspan]
  exact ⟨placed_of_counts h.counts hwalk.offset_le,
    placed_of_counts hkept.counts (Nat.le_refl _)⟩

/-- A failure shows what it misses. -/
theorem Kept.fails (h : a.Kept text) (hlog : r.log = a.reader.log)
    (hstop : r.cursor.Sound text) (hstops : a.reader.cursor.Stops d)
    (hd : d = r.cursor.position.diagnose d.cause) :
    let b : Account := ⟨r, a.failures ++ [d]⟩
    b.Kept text ∧ a.Precedes text b := by
  intro b
  have hleads := h.counts.leadsTo_of_stops hstops hstop hd
  have hcounts := hleads.counts
  rw [← missedLines_append] at hcounts
  have hin (start : Nat) (h : start ∈ missedLines text b.failures) :
      start ∈ missedLines text a.failures ∨
        a.offset < start ∧ StartsInEscape text start := by
    rw [missedLines_append] at h
    exact (List.mem_append.1 h).elim .inl (hleads.more start)
  have hprecedes : a.Precedes text b := by
    refine ⟨hleads.forward, fun start h => ?_,
      fun start h => (hin start h).imp_right And.left⟩
    rw [missedLines_append]
    exact List.mem_append_left _ h
  refine ⟨⟨hcounts, ?_, ?_, ?_⟩, hprecedes⟩
  · intro found hfound
    rcases List.mem_append.1 hfound with hfound | hfound
    · exact (h.said found hfound).later hprecedes
    · rw [List.mem_singleton.1 hfound]
      exact ⟨_, placed_of_counts hcounts (Nat.le_refl _), hd⟩
  · intro found hfound
    rw [hlog] at hfound
    exact (h.recorded found hfound).later hprecedes
  · exact fun start h' => (hin start h').elim (h.escapes start) And.right

/-- A token that is not accepted stays unread, and a failed scan leads to
where it has stopped. -/
theorem Kept.failure [NameProperties] (h : a.Kept text)
    (htoken : a.reader.token = .error d r) :
    let b : Account := ⟨r, a.failures ++ [d]⟩
    b.Kept text ∧ a.Precedes text b := by
  rcases TokenReader.token_eq_error.1 htoken with
    ⟨stop, hscan, rfl⟩ | ⟨t, stop, hscan, haccept, rfl⟩
  · have hfails := failsAt_token hscan
    exact h.fails rfl (h.counts.sound.strays hfails.strays) hfails.found
      hfails.said
  · obtain ⟨-, -, hstart⟩ := h.counts.sound.token hscan
    have hd := Parse.accept_error haccept
    rw [hstart] at hd
    subst hd
    exact h.fails rfl h.counts.sound Cursor.halts_here.stops rfl

-- ================================================================ runs

/-- What a reader is asked for, one step after another, and the places
that it gives out. -/
inductive Runs [NameProperties] : Account → List Span → Account → Prop where
  | refl (a : Account) : Runs a [] a
  | trivia {a b : Account} {spans : List Span} :
      Runs ⟨a.reader.skipTrivia.2, a.failures⟩ spans b →
        Runs a (a.reader.skipTrivia.1.map (·.span) ++ spans) b
  | token {a b : Account} {r : TokenReader} {t : Token}
      {spans : List Span} : a.reader.token = .ok t r →
        Runs ⟨r, a.failures⟩ spans b → Runs a (t.span :: spans) b
  | failure {a b : Account} {r : TokenReader} {d : Diagnostic}
      {spans : List Span} : a.reader.token = .error d r →
        Runs ⟨r, a.failures ++ [d]⟩ spans b → Runs a spans b

theorem kept_ofText (text : List Char) (tolerant keepsComments : Bool) :
    Kept text ⟨.ofText text tolerant keepsComments, []⟩ where
  counts := Cursor.standsIn_iff_countsIn.1 (Cursor.standsIn_ofText text)
  said := List.forall_mem_nil _
  recorded := List.forall_mem_nil _
  escapes := List.forall_mem_nil _

theorem Runs.trans [NameProperties] {later : List Span} (h : Runs a spans b)
    (h' : Runs b later e) : Runs a (spans ++ later) e := by
  induction h with
  | refl => exact h'
  | trivia _ ih =>
      rw [List.append_assoc]
      exact .trivia (ih h')
  | token htoken _ ih => exact .token htoken (ih h')
  | failure htoken _ ih => exact .failure htoken (ih h')

/-- To pass over what stands between tokens is a run. -/
theorem Runs.pass [NameProperties] (a : Account) :
    Runs a (a.reader.skipTrivia.1.map (·.span))
      ⟨a.reader.skipTrivia.2, a.failures⟩ := by
  have hrun : Runs a (a.reader.skipTrivia.1.map (·.span) ++ [])
      ⟨a.reader.skipTrivia.2, a.failures⟩ := .trivia (.refl _)
  rwa [List.append_nil] at hrun

/-- All places that a run gives out are by the lines that are counted in
the end. -/
theorem Runs.kept [NameProperties] (h : Runs a spans b) (ha : a.Kept text) :
    b.Kept text ∧ a.Precedes text b ∧
      ∀ span ∈ spans, b.Encloses text span := by
  induction h with
  | refl a => exact ⟨ha, .refl a, List.forall_mem_nil _⟩
  | trivia _ ih =>
      obtain ⟨hnext, hfirst, hpassed⟩ := ha.skipTrivia
      obtain ⟨hlast, hrest, hspans⟩ := ih hnext
      refine ⟨hlast, hfirst.trans hrest,
        List.forall_mem_append.2 ⟨fun span hin => ?_, hspans⟩⟩
      obtain ⟨comment, hcomment, rfl⟩ := List.mem_map.1 hin
      exact (hpassed comment hcomment).later hrest
  | token htoken _ ih =>
      obtain ⟨hnext, hfirst, hspan⟩ := ha.token htoken
      obtain ⟨hlast, hrest, hspans⟩ := ih hnext
      exact ⟨hlast, hfirst.trans hrest,
        List.forall_mem_cons.2 ⟨hspan.later hrest, hspans⟩⟩
  | failure htoken _ ih =>
      obtain ⟨hnext, hfirst⟩ := ha.failure htoken
      obtain ⟨hlast, hrest, hspans⟩ := ih hnext
      exact ⟨hlast, hfirst.trans hrest, hspans⟩

end Account

end ScriptTree
