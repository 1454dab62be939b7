/-
The token list of a text that cannot be read to its end.

# What is lost

A feed reads the comments in front of a token before it reads the token,
and gives them once the token is read as well. Where no token can be read
the failure is given first, and a token list ends with the failure. So it
has all that was read up to the last token (`tokenList_of_failure`), and
none of the comments between that token and the failure
(`tokenList_loses_comment`).
-/
import ScriptTree.Proofs.Feed.Listing
import ScriptTree.Proofs.Tiling
import ScriptTree.Source.NameRanges

namespace ScriptTree

/-- The tokens that a reader comes to before it fails, each with the
comments that were passed over in front of it; the comments in front of
what cannot be read, and what is said of that. -/
inductive TokenReader.FailsAfter [NameProperties] :
    TokenReader → List (List Comment × Token) → List Comment →
      Diagnostic → Prop where
  | here {r start stop : TokenReader} {comments : List Comment}
      {d : Diagnostic} :
      r.skipTrivia = (comments, start) → start.token = .error d stop →
        FailsAfter r [] comments d
  | token {r start stop : TokenReader} {comments unread : List Comment}
      {t : Token} {later : List (List Comment × Token)}
      {d : Diagnostic} :
      r.skipTrivia = (comments, start) → start.token = .ok t stop →
        t.isEnd = false → FailsAfter stop later unread d →
          FailsAfter r ((comments, t) :: later) unread d

/-- What a reader comes to before it fails, if it does so within so many
tokens. -/
def TokenReader.failure? [NameProperties] :
    Nat → TokenReader →
      Option (List (List Comment × Token) × List Comment × Diagnostic)
  | 0, _ => none
  | steps + 1, r =>
    let (comments, start) := r.skipTrivia
    match start.token with
    | .error d _ => some ([], comments, d)
    | .ok t stop =>
      if t.isEnd then none
      else (stop.failure? steps).map fun (later, unread, d) =>
        ((comments, t) :: later, unread, d)

/-- Tokens with the comments in front of them, as they come. -/
def entriesOf (groups : List (List Comment × Token)) : List TokenEntry :=
  groups.flatMap fun group =>
    group.1.map .comment ++ [.token group.2]

variable {r stop : TokenReader} {t : Token} {d : Diagnostic}
  {groups : List (List Comment × Token)} {unread : List Comment}

theorem entriesOf_cons (comments : List Comment) (t : Token)
    (later : List (List Comment × Token)) :
    entriesOf ((comments, t) :: later)
      = comments.map .comment ++ .token t :: entriesOf later := by
  simp [entriesOf]

-- =========================================================== readers

namespace TokenReader

theorem failsAfter_of_failure? [NameProperties] {steps : Nat}
    (h : r.failure? steps = some (groups, unread, d)) :
    r.FailsAfter groups unread d := by
  induction steps generalizing r groups with
  | zero => cases h
  | succ steps ih =>
      unfold failure? at h
      simp only at h
      split at h
      case h_1 hfails =>
        cases h
        exact .here rfl hfails
      case h_2 t stop htoken =>
        split at h
        case isTrue => cases h
        case isFalse hend =>
          obtain ⟨⟨later, unread, d⟩, hlater, heq⟩ :=
            Option.map_eq_some_iff.1 h
          cases heq
          exact .token rfl htoken (by simpa using hend) (ih hlater)

theorem skipTrivia_eq {start : TokenReader} {comments : List Comment}
    (h : r.skipTrivia = (comments, start))
    (hkeeps : r.keepsComments = true) :
    comments = r.cursor.skipTrivia.1 ∧
      start = { r with cursor := r.cursor.skipTrivia.2 } := by
  rw [skipTrivia_keeping hkeeps] at h
  cases h
  exact ⟨rfl, rfl⟩

/-- What a tolerant reader fails at is no token. -/
theorem token_fails [NameProperties] (h : r.token = .error d stop)
    (htolerant : r.log.tolerant = true) :
    ∃ cursor, Cursor.token r.cursor = .error d cursor := by
  rcases token_eq_error.1 h with
    ⟨cursor, hfails, -⟩ | ⟨t, after, -, hrefused, -⟩
  · exact ⟨cursor, hfails⟩
  · obtain ⟨log, haccept, -⟩ :=
      DiagnosticLog.accept_of (t := t) fun _ => htolerant
    rw [hrefused] at haccept
    cases haccept

end TokenReader

/-- Only text can fail to be a token. -/
theorem Cursor.rest_ne_nil_of_token_error [NameProperties] {c c' : Cursor}
    (h : token c = .error d c') : c.rest ≠ [] := by
  intro hnil
  rw [token_of_nil hnil] at h
  cases h

/-- Every token and every comment that is read takes a character. -/
theorem TokenReader.FailsAfter.length_le [NameProperties]
    (h : r.FailsAfter groups unread d) (hkeeps : r.keepsComments = true) :
    (entriesOf groups).length ≤ r.cursor.rest.length := by
  induction h with
  | here => exact Nat.zero_le _
  | @token r start stop comments _ t later _ hskip htoken hend _ ih =>
      obtain ⟨rfl, rfl⟩ := skipTrivia_eq hskip hkeeps
      obtain ⟨hread, hkeeps'⟩ := token_cursor htoken
      have hle : r.cursor.skipTrivia.1.length
          + r.cursor.skipTrivia.2.rest.length ≤ r.cursor.rest.length :=
        Cursor.comments_length_le _ r.cursor
      have hlt : stop.cursor.rest.length
          < r.cursor.skipTrivia.2.rest.length :=
        Cursor.token_length_lt hread
          (Cursor.rest_ne_nil_of_token hread hend)
      have hlater := ih (hkeeps'.trans hkeeps)
      rw [entriesOf_cons, List.length_append, List.length_map,
        List.length_cons]
      omega

-- ============================================================= feeds

namespace TokenFeed

variable {n : Nat}

/-- In front of what is no token, only the comments are read. -/
theorem drain_failure [NameProperties]
    {c : Cursor} (hkeeps : r.keepsComments = true)
    (hfails : Cursor.token r.cursor.skipTrivia.2 = .error d c) :
    drain (n + 1) ⟨r, []⟩ = ([], some d,
      ⟨{ r with cursor := c }, r.cursor.skipTrivia.1.map .comment⟩) := by
  have hne := Cursor.rest_ne_nil_of_token_error hfails
  have hfill : fill ⟨r, []⟩ = (.error d,
      ⟨{ r with cursor := c }, r.cursor.skipTrivia.1.map .comment⟩) := by
    have htoken : r.skipTrivia.2.token = .error d { r with cursor := c } :=
      TokenReader.token_eq_error.2 (.inl ⟨c, hfails, rfl⟩)
    have hmore : r.skipTrivia.2.cursor.atEnd = false :=
      Cursor.atEnd_of_rest_ne_nil hne
    rw [fill_of_failure ⟨r, []⟩ hmore htoken, passed, List.nil_append,
      TokenReader.skipTrivia_keeping hkeeps]
  rw [drain, next_of_failure rfl hfill]

/-- A feed gives what is read up to the last token, and then the
failure. -/
theorem drain_of_failsAfter [NameProperties] (h : r.FailsAfter groups unread d)
    (hkeeps : r.keepsComments = true) (htolerant : r.log.tolerant = true)
    (hn : (entriesOf groups).length < n) :
    ∃ feed, drain n ⟨r, []⟩ = (entriesOf groups, some d, feed) ∧
      feed.reader.log.tolerant = true ∧
      feed.reader.log.recorded
        = r.log.recorded ++ escapesAmong (groups.map Prod.snd) := by
  induction h generalizing n with
  | @here r start stop _ d hskip htoken =>
      obtain ⟨rfl, rfl⟩ := TokenReader.skipTrivia_eq hskip hkeeps
      obtain ⟨cursor, hfails⟩ : ∃ cursor,
          Cursor.token r.cursor.skipTrivia.2 = .error d cursor :=
        TokenReader.token_fails htoken htolerant
      obtain ⟨n, rfl⟩ := Nat.exists_eq_add_of_lt hn
      exact ⟨_, drain_failure hkeeps hfails, htolerant,
        (List.append_nil _).symm⟩
  | @token r start stop comments _ t later _ hskip htoken hend _ ih =>
      obtain ⟨rfl, rfl⟩ := TokenReader.skipTrivia_eq hskip hkeeps
      obtain ⟨after, log, hread, haccept, rfl⟩ :=
        TokenReader.token_eq_ok.1 htoken
      obtain ⟨log', haccept', htolerant', hrecorded⟩ :=
        DiagnosticLog.accept_of (t := t) fun _ => htolerant
      have hlog : log' = log := by
        have hboth := haccept'.symm.trans haccept
        cases hboth
        rfl
      subst hlog
      rw [entriesOf_cons, List.length_append, List.length_map,
        List.length_cons] at hn
      obtain ⟨n, rfl⟩ := Nat.exists_eq_add_of_le'
        (show r.cursor.skipTrivia.1.length + 1 ≤ n by omega)
      obtain ⟨feed, hdrain, hfeed, hlast⟩ := @ih n
        hkeeps (htolerant'.trans htolerant) (by omega)
      refine ⟨feed, ?_, hfeed, ?_⟩
      · rw [entriesOf_cons]
        exact drain_token hkeeps (Cursor.rest_ne_nil_of_token hread hend)
          hread haccept hdrain
      · rw [hlast, hrecorded, List.append_assoc, List.map_cons,
          ← escapesAmong_append]
        rfl

end TokenFeed

-- ======================================================= token lists

/-- A tolerant token list of a text that fails to scan has the failure as
its last error, and all tokens up to it with the comments in front of
them, in order. The comments in front of what failed are not on it. -/
theorem tokenList_of_failure [NameProperties]
    (options : Options) (text : List Char)
    (groups : List (List Comment × Token)) (unread : List Comment)
    (d : Diagnostic) (htolerant : options.tolerant = true)
    (hcomment : options.comment = true)
    (h : (TokenReader.ofText text options.tolerant
      options.comment).FailsAfter groups unread d) :
    tokenList options text = .ok {
      entries := entriesOf groups
      errors := some (escapesAmong (groups.map Prod.snd) ++ [d]) } := by
  have hlength := h.length_le hcomment
  obtain ⟨feed, hdrain, hfeed, hrecorded⟩ := TokenFeed.drain_of_failsAfter
    (n := text.length + 1) h hcomment htolerant
    (Nat.lt_succ_of_le
      (Nat.le_trans hlength (Nat.le_of_eq (Cursor.ofText_length text))))
  have hdrain : (TokenFeed.ofText text options).drain (text.length + 1)
      = (entriesOf groups, some d, feed) := hdrain
  have hlog : feed.reader.log.tolerate d
      = .ok (feed.reader.log.record d) := by
    rw [DiagnosticLog.tolerate, if_pos hfeed]
  have hrecorded : (feed.reader.log.record d).recorded
      = escapesAmong (groups.map Prod.snd) ++ [d] :=
    congrArg (· ++ [d]) hrecorded
  simp only [tokenList, hdrain, hlog, Except.map, hrecorded, htolerant,
    if_true]

/-- A comment, a word in escapes, and a character that forms no token. -/
theorem tokenList_of_failure_escape :
    let options : Options := { tolerant := true, comment := true }
    let text := "// c\nl\\u0065t @".toList
    ∃ groups d, (TokenReader.ofText text true true).FailsAfter groups [] d ∧
      tokenList options text = .ok {
        entries := entriesOf groups
        errors := some (escapesAmong (groups.map Prod.snd) ++ [d]) } ∧
      (entriesOf groups).map TokenEntry.isToken = [false, true] ∧
      escapesAmong (groups.map Prod.snd) ++ [d]
        = [⟨5, 2, 1, .escapedReserved⟩, ⟨14, 2, 10, .illegalToken⟩] := by
  intro options text
  let word : Token := ⟨.keyword, .text "let", "l\\u0065t",
    ⟨⟨5, 2, 5⟩, ⟨13, 2, 5⟩⟩⟩
  let groups : List (List Comment × Token) :=
    [([⟨" c", ⟨⟨0, 1, 0⟩, ⟨4, 1, 0⟩⟩⟩], word)]
  have hread : (TokenReader.ofText text true true).failure? 2
      = some (groups, [], ⟨14, 2, 10, .illegalToken⟩) := by
    decide +kernel
  have hfails := TokenReader.failsAfter_of_failure? hread
  exact ⟨_, _, hfails, tokenList_of_failure options text _ _ _ rfl rfl hfails,
    by decide, by decide⟩

/-- A comment in front of a character that forms no token is not on the
list, though it ends before. -/
theorem tokenList_loses_comment :
    ¬∀ (options : Options) (text : List Char)
        (groups : List (List Comment × Token)) (unread : List Comment)
        (d : Diagnostic),
      options.tolerant = true → options.comment = true →
      (TokenReader.ofText text options.tolerant
        options.comment).FailsAfter groups unread d →
      ∃ list, tokenList options text = .ok list ∧
        list.entries = entriesOf groups ++ unread.map .comment := by
  intro hall
  let options : Options := { tolerant := true, comment := true }
  let text := "// c\n@".toList
  have hread : (TokenReader.ofText text true true).failure? 1
      = some ([], [⟨" c", ⟨⟨0, 1, 0⟩, ⟨4, 1, 0⟩⟩⟩],
        ⟨5, 2, 1, .illegalToken⟩) := by
    decide +kernel
  have hfails := TokenReader.failsAfter_of_failure? hread
  obtain ⟨list, hlist, hentries⟩ :=
    hall options text _ _ _ rfl rfl hfails
  have hshown : (tokenList options text).toOption.map TokenList.entries
      = some [] := by
    decide +kernel
  rw [hlist] at hshown
  rw [Option.some.inj hshown] at hentries
  cases hentries

end ScriptTree
