/-
The token list of a text that can be read to its end.

# Feeds and streams

A feed gives the entries of the stream in their order (`drain_stream`).
It reads up to a token at a time and gives what it has read before it
reads on, so a run of it falls into stretches: one for each token with
the comments in front of it, and one for the comments after the last.

# Enough steps

A token takes a character and a comment takes two, so there are fewer
entries than the steps that a token list takes (`entries_length_le`).
-/
import ScriptTree.Proofs.Keeping
import ScriptTree.Proofs.Reading
import ScriptTree.Report

namespace ScriptTree

/-- The comments and tokens of a stream. -/
def TokenStream.entries : TokenStream → List TokenEntry
  | .token comments t rest =>
    comments.map .comment ++ .token t :: rest.entries
  | .done comments _ | .illegal comments _ => comments.map .comment

-- ============================================================ counts

theorem TokenStream.entries_length_le [NameProperties]
    (steps : Nat) (c : Cursor) :
    (fromCursor steps c).entries.length ≤ c.rest.length := by
  induction steps generalizing c with
  | zero => exact Nat.zero_le _
  | succ steps ih =>
      have hle : c.skipTrivia.1.length + c.skipTrivia.2.rest.length
          ≤ c.rest.length := Cursor.comments_length_le _ c
      cases begins c with
      | done _ hstream | illegal _ _ hstream =>
          rw [hstream, entries, List.length_map]
          omega
      | @token t stop hne htoken _ hstream =>
          have hlt := Cursor.token_length_lt htoken hne
          have hstop := ih stop
          rw [hstream, entries, List.length_append, List.length_map,
            List.length_cons]
          omega

-- ============================================================= feeds

/-- A log accepts what it may record. -/
theorem DiagnosticLog.accept_of {log : DiagnosticLog} {t : Token}
    (h : escapesAmong [t] ≠ [] → log.tolerant = true) :
    ∃ log', log.accept t = .ok log' ∧ log'.tolerant = log.tolerant ∧
      log'.recorded = log.recorded ++ escapesAmong [t] := by
  cases hescaped : t.isEscapedReserved with
  | true =>
      have hone : escapesAmong [t]
          = [t.span.start.diagnose .escapedReserved] := by
        simp [escapesAmong, hescaped]
      rw [hone] at h ⊢
      refine ⟨log.record (t.span.start.diagnose .escapedReserved),
        Parse.accept_ok.2 ?_, rfl, rfl⟩
      rw [if_pos hescaped]
      exact ⟨h (List.cons_ne_nil _ _), rfl⟩
  | false =>
      refine ⟨log, Parse.accept_ok.2 (by simp [hescaped]), rfl, ?_⟩
      simp [escapesAmong, hescaped]

/-- A reader that keeps comments gives all that it passes over. -/
theorem TokenReader.skipTrivia_keeping {r : TokenReader}
    (h : r.keepsComments = true) :
    r.skipTrivia = (r.cursor.skipTrivia.1,
      { r with cursor := r.cursor.skipTrivia.2 }) := by
  simp [skipTrivia, h]

namespace TokenFeed

variable {n : Nat} {r r' : TokenReader} {feed : TokenFeed}
  {pending entries : List TokenEntry} {failure : Option Diagnostic}

-- ------------------------------------------------------- what is read

/-- The comments in front of the next token, as a feed holds them. -/
def passed (feed : TokenFeed) : List TokenEntry :=
  feed.reader.skipTrivia.1.map .comment

theorem fill_of_atEnd [NameProperties] (feed : TokenFeed)
    (hend : feed.reader.skipTrivia.2.cursor.atEnd = true) :
    feed.fill = (.ok (), ⟨feed.reader.skipTrivia.2,
      feed.pending ++ feed.passed⟩) := by
  simp only [fill, hend, if_true]
  rfl

theorem fill_of_token [NameProperties] (feed : TokenFeed) {t : Token}
    (hmore : feed.reader.skipTrivia.2.cursor.atEnd = false)
    (htoken : feed.reader.skipTrivia.2.token = .ok t r) :
    feed.fill = (.ok (), ⟨r,
      feed.pending ++ feed.passed ++ [.token t]⟩) := by
  simp only [fill, hmore, Bool.false_eq_true, if_false, htoken]
  rfl

theorem fill_of_failure [NameProperties] (feed : TokenFeed) {d : Diagnostic}
    (hmore : feed.reader.skipTrivia.2.cursor.atEnd = false)
    (htoken : feed.reader.skipTrivia.2.token = .error d r) :
    feed.fill = (.error d, ⟨r, feed.pending ++ feed.passed⟩) := by
  simp only [fill, hmore, Bool.false_eq_true, if_false, htoken]
  rfl

/-- What a feed reads: the comments up to the end of the text, or those up
to a token and the token, or those up to a failure. -/
inductive Fills [NameProperties] (feed : TokenFeed) : Prop where
  | atEnd : feed.reader.skipTrivia.2.cursor.atEnd = true →
      feed.fill = (.ok (), ⟨feed.reader.skipTrivia.2,
        feed.pending ++ feed.passed⟩) → Fills feed
  | token {t : Token} {r : TokenReader} :
      feed.reader.skipTrivia.2.cursor.atEnd = false →
      feed.reader.skipTrivia.2.token = .ok t r →
      feed.fill = (.ok (), ⟨r,
        feed.pending ++ feed.passed ++ [.token t]⟩) → Fills feed
  | failure {d : Diagnostic} {r : TokenReader} :
      feed.reader.skipTrivia.2.cursor.atEnd = false →
      feed.reader.skipTrivia.2.token = .error d r →
      feed.fill = (.error d, ⟨r, feed.pending ++ feed.passed⟩) →
      Fills feed

theorem fills [NameProperties] (feed : TokenFeed) : feed.Fills := by
  cases hend : feed.reader.skipTrivia.2.cursor.atEnd with
  | true => exact .atEnd hend (feed.fill_of_atEnd hend)
  | false =>
      cases htoken : feed.reader.skipTrivia.2.token with
      | ok t r => exact .token hend htoken (feed.fill_of_token hend htoken)
      | error d r =>
          exact .failure hend htoken (feed.fill_of_failure hend htoken)

theorem next_of_fill [NameProperties]
    {filled : TokenFeed} (hpending : feed.pending = [])
    (h : feed.fill = (.ok (), filled)) : feed.next = filled.give := by
  simp only [next, hpending, List.isEmpty_nil, if_true, h]

theorem next_of_failure [NameProperties] {d : Diagnostic} {filled : TokenFeed}
    (hpending : feed.pending = []) (h : feed.fill = (.error d, filled)) :
    feed.next = (some (.error d), filled) := by
  simp only [next, hpending, List.isEmpty_nil, if_true, h]

/-- What a feed gives next: what it holds, or else what it reads. -/
theorem next_cases [NameProperties] (feed : TokenFeed) :
    (∃ entry rest, feed.pending = entry :: rest ∧
      feed.next = (some (.ok entry), { feed with pending := rest })) ∨
    feed.pending = [] ∧
      ((∃ d filled, feed.fill = (.error d, filled) ∧
        feed.next = (some (.error d), filled)) ∨
      ∃ filled, feed.fill = (.ok (), filled) ∧
        ((filled.pending = [] ∧ feed.next = (none, filled)) ∨
        ∃ entry rest, filled.pending = entry :: rest ∧
          feed.next
            = (some (.ok entry), { filled with pending := rest }))) := by
  have hgive {feed : TokenFeed} {entry : TokenEntry}
      {rest : List TokenEntry} (h : feed.pending = entry :: rest) :
      feed.give = (some (.ok entry), { feed with pending := rest }) := by
    simp only [give, h]
  cases hpending : feed.pending with
  | cons entry rest =>
      refine .inl ⟨entry, rest, rfl, ?_⟩
      rw [next, hpending, List.isEmpty_cons, if_neg Bool.false_ne_true,
        hgive hpending]
  | nil =>
      refine .inr ⟨rfl, ?_⟩
      rcases hfill : feed.fill with ⟨d | ⟨⟩, filled⟩
      · exact .inl ⟨d, filled, rfl, next_of_failure hpending hfill⟩
      · rw [next_of_fill hpending hfill]
        refine .inr ⟨filled, rfl, ?_⟩
        cases hfilled : filled.pending with
        | nil => exact .inl ⟨rfl, by simp only [give, hfilled]⟩
        | cons entry rest =>
            exact .inr ⟨entry, rest, rfl, hgive hfilled⟩

/-- At the end of the text the comments before it are read. -/
theorem fill_atEnd [NameProperties] (hkeeps : r.keepsComments = true)
    (hstep : r.cursor.InStep) (hend : r.cursor.skipTrivia.2.rest = []) :
    fill ⟨r, []⟩ = (.ok (), ⟨{ r with cursor := r.cursor.skipTrivia.2 },
      r.cursor.skipTrivia.1.map .comment⟩) := by
  have hatEnd : r.skipTrivia.2.cursor.atEnd = true :=
    (hstep.walks (Cursor.walks_skipTrivia _)).atEnd_iff.2 hend
  rw [fill_of_atEnd ⟨r, []⟩ hatEnd, passed, List.nil_append,
    TokenReader.skipTrivia_keeping hkeeps]

/-- In front of a token, the comments before it and the token are read. -/
theorem fill_token [NameProperties]
    {t : Token} {stop : Cursor} {log : DiagnosticLog}
    (hkeeps : r.keepsComments = true)
    (hne : r.cursor.skipTrivia.2.rest ≠ [])
    (htoken : Cursor.token r.cursor.skipTrivia.2 = .ok t stop)
    (haccept : r.log.accept t = .ok log) :
    fill ⟨r, []⟩ = (.ok (), ⟨{ r with cursor := stop, log },
      r.cursor.skipTrivia.1.map .comment ++ [.token t]⟩) := by
  have hread : r.skipTrivia.2.token = .ok t { r with cursor := stop, log } :=
    TokenReader.token_eq_ok.2 ⟨stop, log, htoken, haccept, rfl⟩
  have hmore : r.skipTrivia.2.cursor.atEnd = false :=
    Cursor.atEnd_of_rest_ne_nil hne
  rw [fill_of_token ⟨r, []⟩ hmore hread, passed, List.nil_append,
    TokenReader.skipTrivia_keeping hkeeps]

-- ------------------------------------------------------ what is given

/-- What is pending is given before anything is read. -/
theorem drain_pending [NameProperties]
    (h : drain n ⟨r, []⟩ = (entries, failure, feed)) :
    drain (n + pending.length) ⟨r, pending⟩
      = (pending ++ entries, failure, feed) := by
  induction pending with
  | nil => exact h
  | cons entry pending ih =>
      have hnext : next ⟨r, entry :: pending⟩
          = (some (.ok entry), ⟨r, pending⟩) := rfl
      rw [List.length_cons, ← Nat.add_assoc, drain]
      simp only [hnext, ih]
      rfl

/-- Where something is read, to read is not yet to give. -/
theorem drain_of_fill [NameProperties]
    (h : fill ⟨r, []⟩ = (.ok (), ⟨r', pending⟩)) (hne : pending ≠ []) :
    drain (n + 1) ⟨r, []⟩ = drain (n + 1) ⟨r', pending⟩ := by
  have hnext : next ⟨r, []⟩ = next ⟨r', pending⟩ := by
    obtain ⟨entry, pending, rfl⟩ := List.exists_cons_of_ne_nil hne
    rw [next_of_fill rfl h]
    rfl
  rw [drain, drain, hnext]

/-- Where nothing is read, the list ends. -/
theorem drain_of_fill_nil [NameProperties]
    (h : fill ⟨r, []⟩ = (.ok (), ⟨r', []⟩)) :
    drain (n + 1) ⟨r, []⟩ = ([], none, ⟨r', []⟩) := by
  rw [drain, next_of_fill rfl h]
  rfl

/-- What is read is given, and then the rest. -/
theorem drain_of_fill_append [NameProperties]
    (h : fill ⟨r, []⟩ = (.ok (), ⟨r', pending⟩)) (hne : pending ≠ [])
    (hrest : drain n ⟨r', []⟩ = (entries, failure, feed)) :
    drain (n + pending.length) ⟨r, []⟩
      = (pending ++ entries, failure, feed) := by
  have hpos := List.length_pos_iff.2 hne
  obtain ⟨m, hm⟩ := Nat.exists_eq_add_of_lt
    (Nat.lt_of_lt_of_le hpos (Nat.le_add_left _ n))
  rw [Nat.zero_add] at hm
  rw [hm, drain_of_fill h hne, ← hm]
  exact drain_pending hrest

/-- At the end of the text the comments before it are given. -/
theorem drain_atEnd [NameProperties] (hkeeps : r.keepsComments = true)
    (hstep : r.cursor.InStep) (hend : r.cursor.skipTrivia.2.rest = [])
    (hn : r.cursor.skipTrivia.1.length < n) :
    ∃ feed, drain n ⟨r, []⟩
        = (r.cursor.skipTrivia.1.map .comment, none, feed) ∧
      feed.reader.log = r.log := by
  obtain ⟨n, rfl⟩ := Nat.exists_eq_add_of_lt hn
  have hread := fill_atEnd hkeeps hstep hend
  cases hcomments : r.cursor.skipTrivia.1 with
  | nil =>
      rw [hcomments] at hread
      exact ⟨_, drain_of_fill_nil hread, rfl⟩
  | cons comment comments =>
      rw [hcomments] at hread
      -- The end of the text is met again when the comments are given.
      have hskip := Cursor.skipTrivia_of_rest_nil hend
      have hstay := @fill_atEnd { r with cursor := r.cursor.skipTrivia.2 }
        _ hkeeps (hstep.walks (Cursor.walks_skipTrivia _))
        (by rw [hskip]; exact hend)
      rw [hskip] at hstay
      have hdrain := drain_of_fill_append hread (by simp)
        (drain_of_fill_nil (n := n) hstay)
      rw [List.append_nil, List.length_map, Nat.add_comm,
        ← Nat.add_assoc] at hdrain
      exact ⟨_, hdrain, rfl⟩

/-- In front of a token, the comments before it and the token are given,
and then the rest. -/
theorem drain_token [NameProperties]
    {t : Token} {stop : Cursor} {log : DiagnosticLog}
    (hkeeps : r.keepsComments = true)
    (hne : r.cursor.skipTrivia.2.rest ≠ [])
    (htoken : Cursor.token r.cursor.skipTrivia.2 = .ok t stop)
    (haccept : r.log.accept t = .ok log)
    (hrest : drain n ⟨{ r with cursor := stop, log }, []⟩
      = (entries, failure, feed)) :
    drain (n + (r.cursor.skipTrivia.1.length + 1)) ⟨r, []⟩
      = (r.cursor.skipTrivia.1.map .comment ++ .token t :: entries,
        failure, feed) := by
  have hread := fill_token hkeeps hne htoken haccept
  have hgiven := drain_of_fill_append hread (by simp) hrest
  rw [List.length_append, List.length_map, List.length_singleton,
    List.append_assoc] at hgiven
  exact hgiven

/-- A feed gives the entries of a stream that goes on to the end of the
text, and records the words in escapes among them. -/
theorem drain_stream [NameProperties] {steps : Nat} {stream : TokenStream}
    (hstream : TokenStream.fromCursor steps r.cursor = stream)
    (hsteps : r.cursor.rest.length ≤ steps)
    (hstep : r.cursor.InStep) (hcomplete : stream.Complete)
    (hkeeps : r.keepsComments = true)
    (hlog : escapesAmong stream.tokens ≠ [] → r.log.tolerant = true)
    (hn : stream.entries.length < n) :
    ∃ feed, drain n ⟨r, []⟩ = (stream.entries, none, feed) ∧
      feed.reader.log.recorded
        = r.log.recorded ++ escapesAmong stream.tokens := by
  induction steps generalizing r n stream with
  | zero =>
      subst hstream
      have hrest := List.length_eq_zero_iff.1 (Nat.le_zero.1 hsteps)
      have hskip := Cursor.skipTrivia_of_rest_nil hrest
      obtain ⟨feed, hdrain, hfeed⟩ := drain_atEnd hkeeps hstep
        (by rw [hskip]; exact hrest) (by rw [hskip]; exact hn)
      rw [hskip] at hdrain
      refine ⟨feed, hdrain, ?_⟩
      rw [hfeed]
      exact (List.append_nil _).symm
  | succ steps ih =>
      cases TokenStream.begins r.cursor with
      | illegal _ _ hsame =>
          rw [hsame] at hstream
          subst hstream
          exact absurd hcomplete id
      | done hend hsame =>
          rw [hsame] at hstream
          subst hstream
          rw [TokenStream.entries, List.length_map] at hn
          obtain ⟨feed, hdrain, hfeed⟩ := drain_atEnd hkeeps hstep hend hn
          refine ⟨feed, hdrain, ?_⟩
          rw [hfeed]
          exact (List.append_nil _).symm
      | @token t stop hne htoken hlt hsame =>
          rw [hsame] at hstream
          subst hstream
          have htokens : escapesAmong (TokenStream.tokens (.token
              r.cursor.skipTrivia.1 t (.fromCursor steps stop)))
              = escapesAmong [t] ++ escapesAmong
                (TokenStream.fromCursor steps stop).tokens :=
            escapesAmong_append [t] _
          rw [htokens] at hlog ⊢
          obtain ⟨log, haccept, htolerant, hrecorded⟩ :=
            DiagnosticLog.accept_of fun hne =>
              hlog (List.append_ne_nil_of_left_ne_nil hne _)
          rw [TokenStream.entries, List.length_append, List.length_map,
            List.length_cons] at hn
          obtain ⟨n, rfl⟩ := Nat.exists_eq_add_of_le'
            (show r.cursor.skipTrivia.1.length + 1 ≤ n by omega)
          obtain ⟨feed, hdrain, hfeed⟩ := @ih n
            { r with cursor := stop, log } (.fromCursor steps stop) rfl
            (by simp only; omega)
            ((hstep.walks (Cursor.walks_skipTrivia _)).walks
              (token_walks htoken).1) hcomplete hkeeps
            (fun hne => htolerant.trans
              (hlog (List.append_ne_nil_of_right_ne_nil _ hne)))
            (by omega)
          refine ⟨feed, drain_token hkeeps hne htoken haccept hdrain, ?_⟩
          rw [hfeed, hrecorded, List.append_assoc]

end TokenFeed

-- ======================================================= token lists

/-- The token list of a text whose stream goes on to its end. -/
theorem tokenList_of_complete [NameProperties]
    {options : Options} {text : List Char}
    (hcomplete : (TokenStream.ofText text).Complete)
    (hcomment : options.comment = true)
    (hlog : escapesAmong (TokenStream.ofText text).tokens ≠ [] →
      options.tolerant = true) :
    tokenList options text = .ok {
      entries := (TokenStream.ofText text).entries
      errors := optionally options.tolerant
        (escapesAmong (TokenStream.ofText text).tokens) } := by
  have hlength := TokenStream.entries_length_le text.length (.ofText text)
  rw [Cursor.ofText_length] at hlength
  have hdrain := TokenFeed.drain_stream
    (r := .ofText text options.tolerant options.comment)
    (n := text.length + 1) rfl (Nat.le_of_eq (Cursor.ofText_length text))
    (Cursor.inStep_ofText text) hcomplete hcomment hlog
    (Nat.lt_succ_of_le hlength)
  obtain ⟨feed, hdrain, hfeed⟩ : ∃ feed,
      (TokenFeed.ofText text options).drain (text.length + 1)
        = ((TokenStream.ofText text).entries, none, feed) ∧
      feed.reader.log.recorded
        = escapesAmong (TokenStream.ofText text).tokens := hdrain
  simp only [tokenList, hdrain, Except.map, hfeed]
  rfl

end ScriptTree
