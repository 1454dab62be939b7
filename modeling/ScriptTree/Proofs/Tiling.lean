/-
A reader that keeps comments cuts its text into tokens and trivia.

Whatever a reader passes over is trivia (`trivia_skipTrivia`), and what
it reads then is a token or the end of the text (`Cursor.token_ends`).
So the tokens that it comes to tile the text (`tiles_of_scans`), and
from there it is a matter of adding up bytes that spans follow each other
and lie within the text (`Tiles.ordered`).
-/
import ScriptTree.Proofs.Reading
import ScriptTree.Proofs.Scanning.Line
import ScriptTree.Token.Tiling
import ScriptTree.Source.NameRanges

namespace ScriptTree

variable {source : List Char}

-- ============================================================ trivia

/-- A line break in front of trivia. -/
theorem Trivia.lineBreak {c d : Cursor} {text : List Char}
    {comments : List Comment} (h : c.lineBreak? = some d)
    (ht : Trivia source d.position.offset text comments) :
    ∃ mark, c.Reads mark 1 d ∧
      (∃ ch ∈ mark.head?, isLineTerminator ch = true) ∧
      Trivia source c.position.offset (mark ++ text) comments := by
  rcases Cursor.lineBreak?_eq_some.1 h with
    ⟨rest, hrest, rfl⟩ | ⟨ch, rest, hrest, hch, -, rfl⟩
  · exact ⟨['\r', '\n'], Cursor.reads_startLine hrest, ⟨'\r', rfl, rfl⟩,
      .blank (.inr rfl) (.blank (.inr rfl) ht)⟩
  · have hone : c.rest = [ch] ++ rest := hrest
    exact ⟨[ch], Cursor.reads_startLine hone, ⟨ch, rfl, hch⟩,
      .blank (.inr hch) ht⟩

namespace Cursor

/-- At the end of the text all of it is read. -/
theorem StandsIn.offset_of_rest_nil {c : Cursor} (h : c.StandsIn source)
    (hrest : c.rest = []) : c.position.offset = byteLength source := by
  obtain ⟨text, htext, hoffset⟩ := h.before
  rw [hoffset, htext, hrest, List.append_nil]

/-- What is passed over is trivia. -/
theorem trivia_skipTriviaWithin (steps : Nat) {c : Cursor}
    (h : c.StandsIn source) :
    ∃ gap lines, c.Reads gap lines (c.skipTriviaWithin steps).2 ∧
      Trivia source c.position.offset gap (c.skipTriviaWithin steps).1 := by
  induction steps generalizing c with
  | zero => exact ⟨[], 0, .refl c, .nil⟩
  | succ steps ih =>
      cases skips c with
      | nothing hskip =>
          rw [hskip]
          exact ⟨[], 0, .refl c, .nil⟩
      | @blank ch rest hrest hblank hskip =>
          rw [hskip]
          have hr := reads_advance hrest
          obtain ⟨gap, lines, hgap, ht⟩ :=
            ih (h.char hrest (withinLine_whiteSpace.not_terminator hblank))
          rw [hr.offset] at ht
          exact ⟨ch :: gap, _, hr.trans hgap, .blank (.inl hblank) ht⟩
      | lineBreak hbreak hskip =>
          rw [hskip]
          obtain ⟨gap, lines, hgap, ht⟩ := ih (h.lineBreak hbreak)
          obtain ⟨mark, hmark, -, ht⟩ := ht.lineBreak hbreak
          exact ⟨mark ++ gap, _, hmark.trans hgap, ht⟩
      | comment hcomment hskip =>
          rw [hskip]
          obtain ⟨gap, lines, hgap, ht⟩ :=
            ih (h.walks (walks_comment hcomment))
          obtain ⟨body, stop, hbody, hwalk, hline, rfl, hend⟩ :=
            comment?_eq_some hcomment
          have hstop := h.walks hwalk
          rw [h.position_eq, hstop.position_eq]
          rcases hend with hbreak | ⟨hnil, rfl⟩
          · obtain ⟨mark, hmark, hhead, ht⟩ := ht.lineBreak hbreak
            refine ⟨_, _, hbody.trans (hmark.trans hgap),
              .comment hline hbody.offset (.inl ?_) ht⟩
            obtain ⟨ch, hch, hterminator⟩ := hhead
            exact ⟨ch, by simp [Option.mem_def.1 hch], hterminator⟩
          · have hgapnil : gap = [] := by
              have hrest := hgap.rest
              rw [hnil] at hrest
              exact (List.append_eq_nil_iff.1 hrest.symm).1
            refine ⟨_, _, hbody.trans hgap,
              .comment hline hbody.offset (.inr ⟨hgapnil, ?_⟩) ht⟩
            exact hstop.offset_of_rest_nil hnil

theorem trivia_skipTrivia {c : Cursor} (h : c.StandsIn source) :
    ∃ gap lines, c.Reads gap lines c.skipTrivia.2 ∧
      Trivia source c.position.offset gap c.skipTrivia.1 :=
  trivia_skipTriviaWithin _ h

-- ============================================================ tokens

/-- A token that is read is the end of the text, or it takes a text and
has its place. -/
theorem token_ends [NameProperties]
    {c d : Cursor} {t : Token} (h : token c = .ok t d) :
    (t.isEnd = true ∧ c.rest = [] ∧ d = c ∧ t = c.endToken) ∨
    (t.isEnd = false ∧ ∃ word lines, word ≠ [] ∧ c.Reads word lines d ∧
      t.raw = .ofList word ∧ t.span = ⟨c.position, d.position⟩) := by
  cases hrest : c.rest with
  | nil =>
      left
      rw [token_of_nil hrest] at h
      cases h
      exact ⟨rfl, rfl, rfl, rfl⟩
  | cons ch rest =>
      right
      obtain ⟨word, lines, hne, hformed, -, hat⟩ := token_ok hrest h
      exact ⟨hformed.not_end, word, lines, hne, hat.reads, hat.raw,
        hat.span⟩

theorem token_span [NameProperties]
    {c d : Cursor} {t : Token} (h : token c = .ok t d) :
    t.span = ⟨c.position, d.position⟩ := by
  rcases token_ends h with ⟨-, -, rfl, rfl⟩ | ⟨-, word, lines, -, -, -, hspan⟩
  · rfl
  · exact hspan

/-- What is read in front of the end takes a text. -/
theorem token_takes [NameProperties]
    {c d : Cursor} {t : Token} (h : token c = .ok t d) (hne : c.rest ≠ []) :
    ∃ word lines, word ≠ [] ∧ c.Reads word lines d ∧
      t.raw = .ofList word := by
  rcases token_ends h with
    ⟨-, hnil, -⟩ | ⟨-, word, lines, hword, hreads, hraw, -⟩
  · exact absurd hnil hne
  · exact ⟨word, lines, hword, hreads, hraw⟩

end Cursor

theorem TokenReader.token_cursor [NameProperties]
    {r r' : TokenReader} {t : Token} (h : r.token = .ok t r') :
    Cursor.token r.cursor = .ok t r'.cursor ∧
      r'.keepsComments = r.keepsComments := by
  obtain ⟨stop, log, htoken, -, rfl⟩ := token_eq_ok.1 h
  exact ⟨htoken, rfl⟩

/-- A reader gives out some of the comments that it passes over. -/
theorem TokenReader.mem_skipTrivia {r : TokenReader} {comment : Comment}
    (h : comment ∈ r.skipTrivia.1) : comment ∈ r.cursor.skipTrivia.1 := by
  change comment ∈ if r.keepsComments then r.cursor.skipTrivia.1 else [] at h
  split at h
  · exact h
  · cases h

-- ============================================================ tiling

/-- The tokens that a reader comes to tile what it has ahead. -/
theorem tiles_of_scans [NameProperties] {r : TokenReader}
    {groups : List (List Comment × Token)} (h : r.Scans groups)
    (hkeeps : r.keepsComments = true) (hs : r.cursor.StandsIn source) :
    Tiles source r.cursor.position.offset r.cursor.rest groups := by
  -- What is passed over in front of a token.
  have hskip {r start : TokenReader} {comments : List Comment}
      (hkeeps : r.keepsComments = true) (hs : r.cursor.StandsIn source)
      (h : r.skipTrivia = (comments, start)) :
      start.keepsComments = true ∧ start.cursor.StandsIn source ∧
        ∃ gap lines, r.cursor.Reads gap lines start.cursor ∧
          Trivia source r.cursor.position.offset gap comments := by
    cases h
    refine ⟨hkeeps, hs.walks (Cursor.walks_skipTrivia _), ?_⟩
    rw [if_pos hkeeps]
    exact Cursor.trivia_skipTrivia hs
  induction h with
  | done hstart htoken hend =>
      obtain ⟨-, hs', gap, lines, hgap, ht⟩ := hskip hkeeps hs hstart
      obtain ⟨htoken, -⟩ := TokenReader.token_cursor htoken
      rcases Cursor.token_ends htoken with
        ⟨-, hrest, -, rfl⟩ | ⟨hnot, -⟩
      · have hoffset := hs'.offset_of_rest_nil hrest
        rw [hgap.rest, hrest, List.append_nil]
        refine .done ht rfl ?_ ?_
        · rw [← hgap.offset, hoffset]
        · rw [← hoffset, ← hs'.position_eq]
          rfl
      · rw [hnot] at hend
        cases hend
  | token hstart htoken hend _ ih =>
      obtain ⟨hkeeps', hs', gap, lines, hgap, ht⟩ := hskip hkeeps hs hstart
      obtain ⟨htoken, hkeeps''⟩ := TokenReader.token_cursor htoken
      have hs'' := hs'.walks (token_walks htoken).1
      rcases Cursor.token_ends htoken with
        ⟨hend', -⟩ | ⟨-, word, _, hne, hword, hraw, hspan⟩
      · rw [hend] at hend'
        cases hend'
      · rw [hgap.rest, hword.rest, ← List.append_assoc]
        rw [hs'.position_eq, hs''.position_eq] at hspan
        exact .token ht hend hgap.offset hne hword.offset hraw hspan
          (ih (hkeeps''.trans hkeeps') hs'')

-- ============================================================= order

/-- A comment within trivia. -/
structure Comment.Within (source : List Char) (start stop : Nat)
    (comment : Comment) : Prop where
  start_le : start ≤ comment.span.start.offset
  proper : comment.span.Proper
  le_stop : comment.span.stop.offset ≤ stop
  placed : comment.span.Placed source

theorem Trivia.within {offset : Nat} {text : List Char}
    {comments : List Comment} (h : Trivia source offset text comments) :
    ∀ comment ∈ comments,
      comment.Within source offset (offset + byteLength text) := by
  induction h with
  | nil => simp
  | blank _ _ ih =>
      intro comment hin
      obtain ⟨hstart, hproper, hstop, hplaced⟩ := ih comment hin
      rw [byteLength_cons]
      exact ⟨by omega, hproper, by omega, hplaced⟩
  | @comment offset stop body text comments hline hstop hend ht ih =>
      intro comment hin
      rw [byteLength_append]
      have hslashes : 0 < byteLength ('/' :: '/' :: body) := by
        have hslash := Char.utf8Size_pos '/'
        rw [byteLength_cons]
        omega
      rcases List.mem_cons.1 hin with rfl | hin
      · have hproper : offset < stop := by omega
        exact ⟨Nat.le_refl _, hproper, by simp only [positionAt]; omega,
          rfl, rfl⟩
      · obtain ⟨hstart, hproper, hle, hplaced⟩ := ih comment hin
        exact ⟨by omega, hproper, by omega, hplaced⟩

theorem Trivia.ordered {offset : Nat} {text : List Char}
    {comments : List Comment} (h : Trivia source offset text comments) :
    (comments.map Comment.span).Pairwise Span.Before := by
  induction h with
  | nil => exact .nil
  | blank _ _ ih => exact ih
  | comment hline hstop hend ht ih =>
      rw [List.map_cons]
      refine .cons ?_ ih
      intro span hin
      obtain ⟨comment, hcomment, rfl⟩ := List.mem_map.1 hin
      exact (ht.within comment hcomment).start_le

theorem byteLength_pos {word : List Char} (hne : word ≠ []) :
    0 < byteLength word := by
  have hlen := List.length_pos_iff.2 hne
  have hle := length_le_byteLength word
  omega

theorem spansOf_cons (comments : List Comment) (t : Token)
    (later : List (List Comment × Token)) :
    spansOf ((comments, t) :: later)
      = comments.map Comment.span ++ t.span :: spansOf later := by
  simp [spansOf]

/-- The spans of a tiling come one after the other, each where the lines
of the text say. -/
theorem Tiles.ordered {offset : Nat} {text : List Char}
    {groups : List (List Comment × Token)}
    (h : Tiles source offset text groups) :
    (∀ span ∈ spansOf groups,
      offset ≤ span.start.offset ∧ span.Placed source) ∧
    (spansOf groups).Pairwise Span.Before := by
  -- Trivia and a token in front of spans that start later.
  have hcons {offset start : Nat} {gap : List Char}
      {comments : List Comment} {span : Span} {spans : List Span}
      (ht : Trivia source offset gap comments)
      (hstart : start = offset + byteLength gap)
      (hspan : span.start.offset = start) (hplaced : span.Placed source)
      (hlater : ∀ span' ∈ spans, span.Before span' ∧
        start ≤ span'.start.offset ∧ span'.Placed source)
      (hspans : spans.Pairwise Span.Before) :
      (∀ span' ∈ comments.map Comment.span ++ span :: spans,
        offset ≤ span'.start.offset ∧ span'.Placed source) ∧
      (comments.map Comment.span ++ span :: spans).Pairwise
        Span.Before := by
    have hafter : ∀ span' ∈ span :: spans,
        start ≤ span'.start.offset ∧ span'.Placed source := by
      intro span' hin
      rcases List.mem_cons.1 hin with rfl | hin
      · exact ⟨Nat.le_of_eq hspan.symm, hplaced⟩
      · exact (hlater span' hin).2
    constructor
    · intro span' hin
      rcases List.mem_append.1 hin with hin | hin
      · obtain ⟨comment, hcomment, rfl⟩ := List.mem_map.1 hin
        have hwithin := ht.within comment hcomment
        exact ⟨hwithin.start_le, hwithin.placed⟩
      · obtain ⟨hle, hplaced⟩ := hafter span' hin
        exact ⟨by omega, hplaced⟩
    · refine List.pairwise_append.2 ⟨ht.ordered,
        .cons (fun span' hin => (hlater span' hin).1) hspans, ?_⟩
      intro a ha b hb
      obtain ⟨comment, hcomment, rfl⟩ := List.mem_map.1 ha
      have hstop := (ht.within comment hcomment).le_stop
      have hle := (hafter b hb).1
      exact Nat.le_trans hstop (hstart ▸ hle)
  induction h with
  | done ht _ hend hspan =>
      rw [spansOf_cons]
      refine hcons ht hend.symm (by rw [hspan]; rfl) ?_ (by simp [spansOf])
        .nil
      rw [hspan]
      exact ⟨rfl, rfl⟩
  | token ht _ hstart hne hstop _ hspan _ ih =>
      rw [spansOf_cons]
      refine hcons ht hstart (by rw [hspan]; rfl) ?_ ?_ ih.2
      · rw [hspan]
        exact ⟨rfl, rfl⟩
      · intro span' hin
        obtain ⟨hle, hplaced⟩ := ih.1 span' hin
        refine ⟨?_, by omega, hplaced⟩
        rw [hspan]
        exact hle

/-- Comments and tokens take some text; the end of the text takes none,
and stands there. -/
theorem Tiles.proper {offset : Nat} {text : List Char}
    {groups : List (List Comment × Token)}
    (h : Tiles source offset text groups) :
    (∀ group ∈ groups, (∀ comment ∈ group.1, comment.span.Proper) ∧
      (group.2.isEnd = false → group.2.span.Proper)) ∧
    ∃ earlier comments last, groups = earlier ++ [(comments, last)] ∧
      (∀ group ∈ earlier, group.2.isEnd = false) ∧ last.isEnd = true ∧
      last.span.start.offset = byteLength source ∧
      last.span.stop.offset = byteLength source := by
  induction h with
  | done ht hend _ hspan =>
      refine ⟨?_, [], _, _, rfl, by simp, hend, by rw [hspan]; rfl,
        by rw [hspan]; rfl⟩
      intro group hin
      rw [List.mem_singleton.1 hin]
      refine ⟨fun comment hin => (ht.within comment hin).proper, ?_⟩
      intro hnot
      rw [hend] at hnot
      cases hnot
  | token ht hend _ hne hstop _ hspan _ ih =>
      obtain ⟨hproper, earlier, comments, last, rfl, hearlier, hlast⟩ := ih
      refine ⟨?_, _ :: earlier, comments, last, rfl, ?_, hlast⟩
      · intro group hin
        rcases List.mem_cons.1 hin with rfl | hin
        · refine ⟨fun comment hin => (ht.within comment hin).proper, ?_⟩
          intro _
          have hpos := byteLength_pos hne
          rw [hspan]
          show _ < _
          simp only [positionAt]
          omega
        · exact hproper group hin
      · intro group hin
        rcases List.mem_cons.1 hin with rfl | hin
        · exact hend
        · exact hearlier group hin

/-- The tokens and comments that a reader comes to on its way to the end
of a text tile it. Tokens and comments come in the order of the text, take
some text each, and have their places by the lines of the text. -/
theorem scans_tile_text [NameProperties] {text : List Char} {tolerant : Bool}
    {groups : List (List Comment × Token)}
    (h : (TokenReader.ofText text tolerant true).Scans groups) :
    Tiles text 0 text groups ∧
    (spansOf groups).Pairwise Span.Before ∧
    (∀ span ∈ spansOf groups, span.Placed text) ∧
    (∀ group ∈ groups, (∀ comment ∈ group.1, comment.span.Proper) ∧
      (group.2.isEnd = false → group.2.span.Proper)) ∧
    ∃ earlier comments last, groups = earlier ++ [(comments, last)] ∧
      (∀ group ∈ earlier, group.2.isEnd = false) ∧ last.isEnd = true ∧
      last.span.start.offset = byteLength text ∧
      last.span.stop.offset = byteLength text := by
  have htiles : Tiles text 0 text groups := by
    have hall := tiles_of_scans h rfl (Cursor.standsIn_ofText text)
    rwa [show (TokenReader.ofText text tolerant true).cursor.rest = text
      from Cursor.ofText_rest text] at hall
  obtain ⟨hplaced, hordered⟩ := htiles.ordered
  obtain ⟨hproper, hlast⟩ := htiles.proper
  exact ⟨htiles, hordered, fun span hin => (hplaced span hin).2, hproper,
    hlast⟩

/-- A string over two lines, a comment, and one more at the end. -/
theorem scans_tile_text_over_lines :
    ∃ groups,
      (TokenReader.ofText "'a\\\r\nb' // é\r\n; //".toList false
        true).Scans groups ∧
      groups.map (fun group => (group.1.length, group.2.span.start))
        = [(0, ⟨0, 1, 0⟩), (1, ⟨15, 3, 15⟩), (1, ⟨19, 3, 15⟩)] ∧
      Tiles "'a\\\r\nb' // é\r\n; //".toList 0
        "'a\\\r\nb' // é\r\n; //".toList groups := by
  have hscan : ((TokenReader.ofText "'a\\\r\nb' // é\r\n; //".toList false
      true).scan? 3).map (·.map fun group =>
        (group.1.length, group.2.span.start))
      = some [(0, ⟨0, 1, 0⟩), (1, ⟨15, 3, 15⟩), (1, ⟨19, 3, 15⟩)] := by
    decide +kernel
  obtain ⟨groups, hgroups, hshape⟩ := Option.map_eq_some_iff.1 hscan
  have hscans := TokenReader.scans_of_scan? hgroups
  exact ⟨groups, hscans, hshape, (scans_tile_text hscans).1⟩

end ScriptTree
