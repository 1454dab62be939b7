/-
Sessions and feeds that go on after failures.

A session that does not go back is a run (`Session.runs_answers`), and so
is a feed, whose entries may come later than they were read
(`TokenFeed.runs_nexts`). So whatever is asked of a reader, also after
failures, all that it gives out is where the counted lines say
(`counts_all_but_missed`).

# The exception

A line is not counted if the line terminator in front of it cuts off an
escape (`misses_line_of_escape`).
-/
import ScriptTree.Proofs.Missed.Account
import ScriptTree.Token.Session
import ScriptTree.Source.NameRanges

namespace ScriptTree

open Account (Runs)

variable {text : List Char}

theorem filterMap_cons_toList {α β : Type} (f : α → Option β) (a : α)
    (l : List α) :
    (a :: l).filterMap f = (f a).toList ++ l.filterMap f := by
  cases h : f a with
  | none => simp [h]
  | some b => simp [h]

-- ========================================================== sessions

namespace Reply

/-- The places in a reply. -/
def spans : Reply → List Span
  | .token t => [t.span]
  | .comments passed => passed.map (·.span)
  | .failure _ | .done => []

/-- The failure in a reply. -/
def failure? : Reply → Option Diagnostic
  | .failure d => some d
  | .token _ | .comments _ | .done => none

end Reply

namespace Session

theorem runs_answer [NameProperties] (s : Session) (failures : List Diagnostic)
    {request : Request}
    (hforward : ∀ slot, request ≠ .goBack slot) :
    Runs ⟨s.reader, failures⟩ (s.answer request).1.spans
      ⟨(s.answer request).2.reader,
        failures ++ (s.answer request).1.failure?.toList⟩ := by
  cases request with
  | goBack slot => exact absurd rfl (hforward slot)
  | keep =>
      show Runs _ [] ⟨s.reader, failures ++ []⟩
      rw [List.append_nil]
      exact .refl _
  | trivia =>
      show Runs _ _ ⟨s.reader.skipTrivia.2, failures ++ []⟩
      rw [List.append_nil]
      exact .pass _
  | token =>
      unfold answer
      cases htoken : s.reader.token with
      | ok t r =>
          show Runs _ _ ⟨r, failures ++ []⟩
          rw [List.append_nil]
          exact .token htoken (.refl _)
      | error d r => exact .failure htoken (.refl _)

theorem runs_answers [NameProperties]
    (s : Session) (failures : List Diagnostic) {requests : List Request}
    (hforward : ∀ slot, .goBack slot ∉ requests) :
    Runs ⟨s.reader, failures⟩ ((s.answers requests).1.flatMap Reply.spans)
      ⟨(s.answers requests).2.reader,
        failures ++ (s.answers requests).1.filterMap Reply.failure?⟩ := by
  induction requests generalizing s failures with
  | nil =>
      show Runs _ [] ⟨s.reader, failures ++ []⟩
      rw [List.append_nil]
      exact .refl _
  | cons request requests ih =>
      have hfirst : ∀ slot, request ≠ .goBack slot := by
        rintro slot rfl
        exact hforward slot (List.mem_cons_self ..)
      have hrest : ∀ slot, .goBack slot ∉ requests :=
        fun slot hin => hforward slot (List.mem_cons_of_mem _ hin)
      have hrun := (runs_answer s failures hfirst).trans (ih _ _ hrest)
      rw [List.append_assoc, ← filterMap_cons_toList] at hrun
      exact hrun

end Session

-- ============================================================= feeds

namespace TokenFeed

/-- The place of what a feed gives. -/
def placesOf : Option (Except Diagnostic TokenEntry) → List Span
  | some (.ok entry) => [entry.span]
  | some (.error _) | none => []

/-- The failure that a feed gives. -/
def failureOf : Option (Except Diagnostic TokenEntry) → Option Diagnostic
  | some (.error d) => some d
  | some (.ok _) | none => none

/-- The places of what was read and not yet given. -/
def places (feed : TokenFeed) : List Span := feed.pending.map (·.span)

/-- A feed reads on, and what it fails at is its answer. -/
theorem runs_fill [NameProperties]
    (feed : TokenFeed) (failures : List Diagnostic) :
    ∃ found, feed.fill.2.places = feed.places ++ found ∧
      match feed.fill.1 with
      | .ok () => Runs ⟨feed.reader, failures⟩ found
          ⟨feed.fill.2.reader, failures⟩
      | .error d => Runs ⟨feed.reader, failures⟩ found
          ⟨feed.fill.2.reader, failures ++ [d]⟩ := by
  let passed := feed.reader.skipTrivia.1.map (·.span)
  have hpassed : (feed.pending ++ feed.passed).map (·.span)
      = feed.places ++ passed := by
    rw [TokenFeed.passed, List.map_append, List.map_map]
    rfl
  have hpass : Runs ⟨feed.reader, failures⟩ passed
      ⟨feed.reader.skipTrivia.2, failures⟩ := .pass _
  cases feed.fills with
  | atEnd _ hfill =>
      rw [hfill]
      exact ⟨passed, hpassed, hpass⟩
  | @token t r _ htoken hfill =>
      rw [hfill]
      refine ⟨passed ++ [t.span], ?_,
        hpass.trans (.token htoken (.refl _))⟩
      rw [← List.append_assoc, ← hpassed]
      exact List.map_append
  | failure _ htoken hfill =>
      rw [hfill]
      refine ⟨passed ++ [], ?_, hpass.trans (.failure htoken (.refl _))⟩
      rw [List.append_nil]
      exact hpassed

/-- What a feed gives was read before, or is read now. -/
theorem runs_next [NameProperties]
    (feed : TokenFeed) (failures : List Diagnostic) :
    ∃ found, placesOf feed.next.1 ++ feed.next.2.places
        = feed.places ++ found ∧
      Runs ⟨feed.reader, failures⟩ found
        ⟨feed.next.2.reader, failures ++ (failureOf feed.next.1).toList⟩ := by
  -- To give an entry is not to read on.
  have hgives {feed : TokenFeed} {entry : TokenEntry}
      {rest : List TokenEntry} (h : feed.pending = entry :: rest) :
      feed.places = [entry.span] ++ places { feed with pending := rest } := by
    rw [places, h]
    rfl
  obtain ⟨found, hplaces, hrun⟩ := feed.runs_fill failures
  rcases feed.next_cases with ⟨entry, rest, hpending, hnext⟩ |
    ⟨-, ⟨d, filled, hfill, hnext⟩ | ⟨filled, hfill, hgiven⟩⟩
  · refine ⟨[], ?_, ?_⟩
    · rw [hnext, hgives hpending, List.append_nil]
      rfl
    · rw [hnext, failureOf, Option.toList_none, List.append_nil]
      exact .refl _
  · rw [hfill] at hplaces hrun
    rw [hnext]
    exact ⟨found, hplaces, hrun⟩
  · rw [hfill] at hplaces hrun
    refine ⟨found, ?_⟩
    rw [← hplaces]
    rcases hgiven with ⟨hpending, hnext⟩ | ⟨entry, rest, hpending, hnext⟩
    · rw [hnext, failureOf, Option.toList_none, List.append_nil]
      exact ⟨rfl, hrun⟩
    · rw [hnext, failureOf, Option.toList_none, List.append_nil]
      exact ⟨(hgives hpending).symm, hrun⟩

theorem runs_nexts [NameProperties]
    (feed : TokenFeed) (failures : List Diagnostic) (steps : Nat) :
    ∃ found, (feed.nexts steps).1.flatMap placesOf
        ++ (feed.nexts steps).2.places = feed.places ++ found ∧
      Runs ⟨feed.reader, failures⟩ found ⟨(feed.nexts steps).2.reader,
        failures ++ (feed.nexts steps).1.filterMap failureOf⟩ := by
  induction steps generalizing feed failures with
  | zero =>
      refine ⟨[], (List.append_nil _).symm, ?_⟩
      show Runs _ [] ⟨feed.reader, failures ++ []⟩
      rw [List.append_nil]
      exact .refl _
  | succ steps ih =>
      obtain ⟨found, hplaces, hrun⟩ := feed.runs_next failures
      obtain ⟨later, hlater, hrest⟩ := ih feed.next.2
        (failures ++ (failureOf feed.next.1).toList)
      refine ⟨found ++ later, ?_, ?_⟩
      · show (placesOf feed.next.1
          ++ (feed.next.2.nexts steps).1.flatMap placesOf)
          ++ (feed.next.2.nexts steps).2.places = _
        rw [List.append_assoc, hlater, ← List.append_assoc, hplaces,
          List.append_assoc]
      · have hruns := hrun.trans hrest
        rw [List.append_assoc, ← filterMap_cons_toList] at hruns
        exact hruns

end TokenFeed

-- =========================================================== readers

/-- What a reader has given out is where it says, by the lines of the
text without those that its failures show to be missed. -/
structure TokenReader.CountsBut (text : List Char)
    (failures : List Diagnostic) (places : List Span) (r : TokenReader) :
    Prop where
  cursor : r.cursor.position.On (countedStarts text failures)
  given : ∀ span ∈ places, span.On (countedStarts text failures)
  said : ∀ d ∈ failures, d.On (countedStarts text failures)
  recorded : ∀ d ∈ r.log.recorded, d.On (countedStarts text failures)
  missed : ∀ start ∈ missedLines text failures, StartsInEscape text start

theorem Account.Says.on {a : Account} {d : Diagnostic}
    (h : a.Says text d) : d.On (countedStarts text a.failures) := by
  obtain ⟨p, hp, hd⟩ := h
  rw [hd]
  exact hp.on.diagnose _

/-- A run from the start of a text. -/
theorem Account.Runs.countsBut [NameProperties] {tolerant keepsComments : Bool}
    {r : TokenReader} {failures : List Diagnostic} {spans : List Span}
    (h : Runs ⟨.ofText text tolerant keepsComments, []⟩ spans
      ⟨r, failures⟩) : r.CountsBut text failures spans := by
  obtain ⟨hkept, -, hspans⟩ := h.kept (kept_ofText text _ _)
  exact ⟨hkept.counts.position_eq,
    fun span hin => ⟨(hspans span hin).1.on, (hspans span hin).2.on⟩,
    fun d hd => (hkept.said d hd).on,
    fun d hd => (hkept.recorded d hd).on, hkept.escapes⟩

/-- Whatever a reader is asked for, also after failures, unless it is to
go back: its cursor, and all that it gives out, is where the lines of the
text say without those that failures show to be missed, and a line is
missed only behind a line terminator that cuts off an escape. The same
holds of a feed. -/
theorem counts_all_but_missed [NameProperties] (text : List Char) :
    (∀ (tolerant keepsComments : Bool) (requests : List Request),
      (∀ slot, .goBack slot ∉ requests) →
        let ends := (Session.ofText text tolerant keepsComments).answers
          requests
        ends.2.reader.CountsBut text (ends.1.filterMap Reply.failure?)
          (ends.1.flatMap Reply.spans)) ∧
      ∀ (options : Options) (steps : Nat),
        let ends := (TokenFeed.ofText text options).nexts steps
        ends.2.reader.CountsBut text
          (ends.1.filterMap TokenFeed.failureOf)
          (ends.1.flatMap TokenFeed.placesOf) := by
  constructor
  · intro tolerant keepsComments requests hforward ends
    exact ((Session.ofText text tolerant keepsComments).runs_answers []
      hforward).countsBut
  · intro options steps ends
    obtain ⟨found, hplaces, hrun⟩ :=
      (TokenFeed.ofText text options).runs_nexts [] steps
    have hcounts := hrun.countsBut
    refine ⟨hcounts.cursor, fun span hin => hcounts.given span ?_,
      hcounts.said, hcounts.recorded, hcounts.missed⟩
    have hfound : found = ends.1.flatMap TokenFeed.placesOf
        ++ ends.2.places := hplaces.symm
    rw [hfound]
    exact List.mem_append_left _ hin

/-- The second line is missed, and the third is taken for the second. -/
theorem counts_all_but_missed_escape :
    let text := "'\\u\x7b1\nx\ny".toList
    let requests : List Request := [.token, .token, .trivia, .token]
    ∃ ends, (Session.ofText text false true).answers requests = ends ∧
      (∀ slot, .goBack slot ∉ requests) ∧
      ends.2.reader.CountsBut text (ends.1.filterMap Reply.failure?)
        (ends.1.flatMap Reply.spans) ∧
      missedLines text (ends.1.filterMap Reply.failure?) = [6] ∧
      ends.2.reader.cursor.position = ⟨9, 2, 8⟩ := by
  intro text requests
  have hforward : ∀ slot, .goBack slot ∉ requests := by simp [requests]
  have hcounts := (counts_all_but_missed text).1 false true requests hforward
  exact ⟨_, rfl, hforward, hcounts, by decide +kernel, by decide +kernel⟩

/-- Behind an escape that a line feed cuts off, a reader is on the line in
front of it. -/
theorem misses_line_of_escape :
    ¬∀ (text : List Char) (tolerant keepsComments : Bool)
        (requests : List Request), text ≠ [] →
      (∀ slot, .goBack slot ∉ requests) →
        let cursor := ((Session.ofText text tolerant keepsComments).answers
          requests).2.reader.cursor
        cursor.position = positionAt text cursor.position.offset := by
  intro hall
  let text := "'\\u\x7b1\nx".toList
  let cursor := ((Session.ofText text false true).answers
    [.token]).2.reader.cursor
  have hplace : cursor.position ≠ positionAt text cursor.position.offset := by
    decide +kernel
  have hne : text ≠ [] := by decide +kernel
  exact hplace (hall text false true [.token] hne (by simp))

end ScriptTree
