/-
Readers of text have as many steps as they need.

# Steps and characters

Whatever reads a text step by step is given a number of steps, and each
step that it goes on after takes a character at least. So where there are
as many steps as characters, more of them change nothing: not for what
stands between tokens, nor for the characters of names and strings, nor
for the stream of tokens.

# Feeds

A feed gives an entry at a time. What it holds and what is still unread
grow less with every entry (`TokenFeed.size`), so that many steps drain
it, to the end of the text or to the first failure.
-/
import ScriptTree.Proofs.Feed
import ScriptTree.Proofs.Tiling

namespace ScriptTree

-- ============================================================ cursors

namespace Cursor

variable {mayBreak : Bool} {c d : Cursor}

theorem Walks.length_le (h : c.Walks mayBreak d) :
    d.rest.length ≤ c.rest.length := by
  obtain ⟨text, lines, hreads, -⟩ := h.reads
  rw [hreads.rest, List.length_append]
  omega

theorem skipTriviaWithin_add {steps : Nat} (h : c.rest.length ≤ steps)
    (more : Nat) :
    c.skipTriviaWithin (steps + more) = c.skipTriviaWithin steps := by
  induction steps generalizing c with
  | zero =>
      have hrest := List.length_eq_zero_iff.1 (Nat.le_zero.1 h)
      rw [skipTriviaWithin_nil hrest, skipTriviaWithin_nil hrest]
  | succ steps ih =>
      rw [Nat.succ_add]
      cases skips c with
      | nothing hskip => rw [hskip, hskip]
      | blank hrest _ hskip =>
          have hlt := advance_length_lt hrest
          rw [hskip, hskip, ih (by omega)]
      | lineBreak hbreak hskip =>
          have hlt := lineBreak_length_lt hbreak
          rw [hskip, hskip, ih (by omega)]
      | comment hcomment hskip =>
          have hlt := comment_length_lt hcomment
          rw [hskip, hskip, ih (by omega)]

theorem skipTrivia_eq {steps : Nat} (h : c.rest.length ≤ steps) :
    c.skipTriviaWithin steps = c.skipTrivia := by
  obtain ⟨more, rfl⟩ := Nat.exists_eq_add_of_le h
  exact skipTriviaWithin_add (Nat.le_refl _) more

end Cursor

-- ============================================================== scans

variable {c : Cursor}

theorem nameChars_add [NameProperties] {steps : Nat} {isFirst : Bool}
    (h : c.rest.length ≤ steps) (more : Nat) :
    nameChars (steps + more) isFirst c = nameChars steps isFirst c := by
  induction steps generalizing isFirst c with
  | zero =>
      have hrest := List.length_eq_zero_iff.1 (Nat.le_zero.1 h)
      rw [nameChars_of_nil hrest, nameChars_of_nil hrest]
  | succ steps ih =>
      rw [Nat.succ_add]
      cases nameNext isFirst c with
      | ends _ hsame => rw [hsame, hsame]
      | escape hrest hsame =>
          have hlt := Cursor.advance_length_lt hrest
          rw [hsame, hsame]
          refine Scan.bind_congr rfl fun ch d hescape => ?_
          have hle := (@walksAt_nameEscape true _ _ _ hescape).length_le
          split
          · exact Scan.bind_congr (ih (by omega)) fun _ _ _ => rfl
          · rfl
      | plain hrest _ _ hsame =>
          have hlt := Cursor.advance_length_lt hrest
          rw [hsame, hsame]
          exact Scan.bind_congr (ih (by omega)) fun _ _ _ => rfl

theorem nameChars_eq [NameProperties] {steps : Nat} {isFirst : Bool}
    (h : c.rest.length ≤ steps) :
    nameChars steps isFirst c = nameChars c.rest.length isFirst c := by
  obtain ⟨more, rfl⟩ := Nat.exists_eq_add_of_le h
  exact nameChars_add (Nat.le_refl _) more

theorem quotedChars_add {quote : Char} {steps : Nat}
    (h : c.rest.length ≤ steps) (more : Nat) :
    quotedChars quote (steps + more) c = quotedChars quote steps c := by
  induction steps generalizing c with
  | zero =>
      have hrest := List.length_eq_zero_iff.1 (Nat.le_zero.1 h)
      rw [quotedChars_of_nil hrest, quotedChars_of_nil hrest]
  | succ steps ih =>
      have hmore {d : Cursor} (hd : d.rest.length ≤ steps) (ch : Char) :
          andMore quote ch (steps + more) d = andMore quote ch steps d :=
        Scan.bind_congr (ih hd) fun _ _ _ => rfl
      rw [Nat.succ_add]
      cases stringNext quote c with
      | ends _ hsame | quote _ hsame | lineBreak _ _ hsame =>
          rw [hsame, hsame]
      | escape hrest _ hsame =>
          have hlt := Cursor.advance_length_lt hrest
          rw [hsame, hsame]
          refine Scan.bind_congr rfl fun r d hescaped => ?_
          have hle := (walksAt_escaped hescaped).length_le
          have hd : d.rest.length ≤ steps := by omega
          cases r with
          | endOfText => rfl
          | lineBreak => exact ih hd
          | char ch => exact hmore hd ch
      | plain hrest _ _ _ hsame =>
          have hlt := Cursor.advance_length_lt hrest
          rw [hsame, hsame]
          exact hmore (by omega) _

theorem quotedChars_eq {quote : Char} {steps : Nat}
    (h : c.rest.length ≤ steps) :
    quotedChars quote steps c = quotedChars quote c.rest.length c := by
  obtain ⟨more, rfl⟩ := Nat.exists_eq_add_of_le h
  exact quotedChars_add (Nat.le_refl _) more

-- ============================================================ streams

theorem TokenStream.fromCursor_eq [NameProperties] {steps steps' : Nat}
    (h : c.rest.length ≤ steps) (h' : c.rest.length ≤ steps') :
    fromCursor steps' c = fromCursor steps c := by
  induction steps generalizing steps' c with
  | zero =>
      have hrest := List.length_eq_zero_iff.1 (Nat.le_zero.1 h)
      rw [fromCursor_of_rest_nil hrest, fromCursor_of_rest_nil hrest]
  | succ steps ih =>
      cases steps' with
      | zero =>
          have hrest := List.length_eq_zero_iff.1 (Nat.le_zero.1 h')
          rw [fromCursor_of_rest_nil hrest, fromCursor_of_rest_nil hrest]
      | succ steps' =>
          cases begins c with
          | done _ hstream | illegal _ _ hstream => rw [hstream, hstream]
          | @token t stop _ _ hlt hstream =>
              rw [hstream, hstream, @ih stop steps' (by omega) (by omega)]

-- ============================================================== feeds

namespace TokenFeed

variable {feed feed' : TokenFeed}

/-- The entries that are held, and the characters that are unread. -/
def size (feed : TokenFeed) : Nat :=
  feed.pending.length + feed.reader.cursor.rest.length

/-- What is read is held, an entry for a character at most. -/
theorem fill_size [NameProperties] (hstep : feed.reader.cursor.InStep)
    (h : feed.fill = (.ok (), feed')) :
    feed'.size ≤ feed.size ∧ feed'.reader.cursor.InStep := by
  have hle : feed.reader.cursor.skipTrivia.1.length
      + feed.reader.cursor.skipTrivia.2.rest.length
      ≤ feed.reader.cursor.rest.length := Cursor.comments_length_le _ _
  have hcomments : feed.reader.skipTrivia.1.length
      ≤ feed.reader.cursor.skipTrivia.1.length := by
    show (if feed.reader.keepsComments then _ else []).length ≤ _
    split
    · exact Nat.le_refl _
    · exact Nat.zero_le _
  have hcursor : feed.reader.skipTrivia.2.cursor
      = feed.reader.cursor.skipTrivia.2 := rfl
  have hskip : feed.reader.skipTrivia.2.cursor.InStep :=
    hstep.walks (Cursor.walks_skipTrivia _)
  cases feed.fills with
  | atEnd _ hfill =>
      rw [hfill] at h
      cases h
      refine ⟨?_, hskip⟩
      simp only [size, passed, List.length_append, List.length_map, hcursor]
      omega
  | @token t r hmore htoken hfill =>
      rw [hfill] at h
      cases h
      have hread := (TokenReader.token_cursor htoken).1
      refine ⟨?_, hskip.walks (token_walks hread).1⟩
      have hne : feed.reader.skipTrivia.2.cursor.rest ≠ [] := by
        intro hnil
        rw [hskip.atEnd_iff.2 hnil] at hmore
        cases hmore
      have hlt := Cursor.token_length_lt hread hne
      rw [hcursor] at hlt
      simp only [size, passed, List.length_append, List.length_map,
        List.length_singleton]
      omega
  | failure _ _ hfill =>
      rw [hfill] at h
      cases h

/-- What is given is held no longer. -/
theorem next_size [NameProperties]
    {entry : TokenEntry} (hstep : feed.reader.cursor.InStep)
    (h : feed.next = (some (.ok entry), feed')) :
    feed'.size < feed.size ∧ feed'.reader.cursor.InStep := by
  rcases feed.next_cases with ⟨entry, rest, hpending, hnext⟩ |
    ⟨-, ⟨d, filled, -, hnext⟩ | ⟨filled, hfill, hgiven⟩⟩
  · rw [hnext] at h
    cases h
    refine ⟨?_, hstep⟩
    simp only [size, hpending, List.length_cons]
    omega
  · rw [hnext] at h
    cases h
  · obtain ⟨hle, hfilled⟩ := fill_size hstep hfill
    rcases hgiven with ⟨-, hnext⟩ | ⟨entry, rest, hpending, hnext⟩
    · rw [hnext] at h
      cases h
    · rw [hnext] at h
      cases h
      refine ⟨Nat.lt_of_lt_of_le ?_ hle, hfilled⟩
      simp only [size, hpending, List.length_cons]
      omega

/-- A feed that has nothing more to give stays at the end of the text. -/
theorem next_of_none [NameProperties] (hstep : feed.reader.cursor.InStep)
    (h : feed.next = (none, feed')) : feed'.next.1 = none := by
  have hread : feed'.reader.cursor.InStep ∧
      feed'.reader.cursor.atEnd = true ∧ feed'.pending = [] := by
    rcases feed.next_cases with ⟨entry, rest, -, hnext⟩ |
      ⟨-, ⟨d, filled, -, hnext⟩ | ⟨filled, hfill, hgiven⟩⟩
    · rw [hnext] at h
      cases h
    · rw [hnext] at h
      cases h
    rcases hgiven with ⟨hpending, hnext⟩ | ⟨entry, rest, -, hnext⟩
    · rw [hnext] at h
      cases h
      cases feed.fills with
      | atEnd hend hsame =>
          rw [hsame] at hfill
          cases hfill
          exact ⟨hstep.walks (Cursor.walks_skipTrivia _), hend, hpending⟩
      | token _ _ hsame =>
          rw [hsame] at hfill
          cases hfill
          exact absurd hpending (by simp)
      | failure _ _ hsame =>
          rw [hsame] at hfill
          cases hfill
    · rw [hnext] at h
      cases h
  obtain ⟨hstep', hend, hpending⟩ := hread
  have hskip := Cursor.skipTrivia_of_rest_nil (hstep'.atEnd_iff.1 hend)
  have hreader : feed'.reader.skipTrivia = ([], feed'.reader) := by
    simp only [TokenReader.skipTrivia, hskip, ite_self]
  have hfill : feed'.fill = (.ok (), feed') := by
    rw [fill_of_atEnd feed' (by rw [hreader]; exact hend), passed, hreader,
      List.map_nil, List.append_nil]
  rw [next_of_fill hpending hfill, give, hpending]

/-- A feed that is drained in more steps than its size has nothing more to
give, unless there was a failure; further steps change nothing. -/
theorem drain_eq [NameProperties]
    {n m : Nat} (hstep : feed.reader.cursor.InStep)
    (hn : feed.size < n) (hm : feed.size < m) :
    feed.drain m = feed.drain n ∧
      ((feed.drain n).2.1 = none → (feed.drain n).2.2.next.1 = none) := by
  induction n generalizing m feed with
  | zero => exact absurd hn (Nat.not_lt_zero _)
  | succ n ih =>
      obtain ⟨m, rfl⟩ : ∃ k, m = k + 1 := ⟨m - 1, by omega⟩
      rw [drain, drain]
      split
      case h_1 feed' hnext =>
        exact ⟨rfl, fun _ => next_of_none hstep hnext⟩
      case h_2 =>
        apply And.intro rfl
        intro hnone
        cases hnone
      case h_3 entry feed' hnext =>
        obtain ⟨hlt, hstep'⟩ := next_size hstep hnext
        obtain ⟨hsame, hlast⟩ :=
          @ih feed' m hstep' (by omega) (by omega)
        exact ⟨by simp only [hsame], hlast⟩

end TokenFeed

end ScriptTree
