/-
What a scan reads, and that it reads the same in any place.

# Reading

A cursor that moves on has read a text: the text stands between the two
cursors, and the offset has grown by its bytes (`Cursor.Reads`). What is
cut out between the cursors is that text.

# Locality

A scan looks beyond what it reads, to see that there is no more of it. It
makes no difference if there is less to be seen. Where a text is clipped
somewhere after what was read, and ends there or goes on with a space,
the same is read with the same result (`Scan.LocalAt`). This is what
allows tokens to be put side by side with a space in between, and why the
text of a token tells what token it is.
-/
import ScriptTree.Proofs.Outcome
import ScriptTree.Source.Step
import ScriptTree.Token.Next

namespace ScriptTree

-- ========================================================= cursors

/-- A text is taken by its bytes. -/
theorem takeBytes_append (text rest : List Char) :
    takeBytes (byteLength text) (text ++ rest) = text := by
  induction text with
  | nil =>
      cases rest with
      | nil => rfl
      | cons ch rest =>
          have hch := ch.utf8Size_pos
          simp only [List.nil_append, takeBytes]
          rw [if_neg (by simp [byteLength]; omega)]
  | cons ch text ih =>
      rw [List.cons_append, takeBytes, byteLength_cons,
        if_pos (Nat.le_add_right _ _), Nat.add_sub_cancel_left, ih]

namespace Cursor

/-- The text and the number of line breaks between a cursor and a later
one. -/
structure Reads (c : Cursor) (text : List Char) (lines : Nat)
    (d : Cursor) : Prop where
  source : d.source = c.source
  rest : c.rest = text ++ d.rest
  offset : d.position.offset = c.position.offset + byteLength text
  line : d.position.line = c.position.line + lines

variable {c d e : Cursor} {text text' : List Char} {lines lines' : Nat}

theorem Reads.refl (c : Cursor) : c.Reads [] 0 c := ⟨rfl, rfl, rfl, rfl⟩

theorem Reads.trans (h : c.Reads text lines d)
    (h' : d.Reads text' lines' e) :
    c.Reads (text ++ text') (lines + lines') e where
  source := h'.source.trans h.source
  rest := by rw [h.rest, h'.rest, List.append_assoc]
  offset := by
    rw [h'.offset, h.offset, byteLength_append]
    omega
  line := by
    rw [h'.line, h.line]
    omega

/-- What was read is the text between the two cursors. -/
theorem Reads.textTo_eq (h : c.Reads text lines d) : c.textTo d = text :=
  textTo_of_rest h.rest h.offset

/-- What starts between two characters ends between two. -/
theorem Reads.inStep (h : c.Reads text lines d) (hc : c.InStep) :
    d.InStep := by
  obtain ⟨before, hsource, hoffset⟩ := textFrom?_eq_some.1 hc
  refine textFrom?_eq_some.2 ⟨before ++ text, ?_, ?_⟩
  · rw [h.source, hsource, h.rest, List.append_assoc]
  · rw [byteLength_append, hoffset, h.offset]

/-- The token between two cursors holds the text between them. -/
theorem Reads.tokenTo_eq (h : c.Reads text lines d) (kind : TokenKind)
    (value : TokenValue) :
    c.tokenTo d kind value
      = ⟨kind, value, .ofList text, ⟨c.position, d.position⟩⟩ := by
  unfold tokenTo
  rw [h.textTo_eq]

/-- Where something was read, less is left. -/
theorem Reads.length_lt (h : c.Reads text lines d) (ht : text ≠ []) :
    d.rest.length < c.rest.length := by
  have hpos := List.length_pos_iff.2 ht
  rw [h.rest, List.length_append]
  omega

/-- Between two cursors there is one text. -/
theorem Reads.unique (h : c.Reads text lines d)
    (h' : c.Reads text' lines' d) : text' = text ∧ lines' = lines := by
  constructor
  · have hrest := h.rest
    rw [h'.rest] at hrest
    exact List.append_cancel_right hrest
  · have hline := h.line
    rw [h'.line] at hline
    omega

/-- Where the text begins with what was read, the rest of it is left. -/
theorem Reads.rest_eq {rest : List Char} (h : c.Reads text lines d)
    (hc : c.rest = text ++ rest) : d.rest = rest := by
  have hrest := h.rest
  rw [hc] at hrest
  exact (List.append_cancel_left hrest).symm

/-- One character is read. -/
theorem reads_advance {ch : Char} {rest : List Char}
    (h : c.rest = ch :: rest) : c.Reads [ch] 0 c.advance := by
  rw [advance_eq h]
  refine ⟨rfl, ?_, rfl, rfl⟩
  rw [move_rest_cons h]
  exact h

/-- All characters of a class are read. -/
theorem reads_skipWhile (p : Char → Bool) (c : Cursor) :
    c.Reads (c.rest.takeWhile p) 0 (c.skipWhile p) := by
  refine ⟨rfl, ?_, rfl, rfl⟩
  rw [skipWhile_rest, List.takeWhile_append_dropWhile]

/-- As many characters are read as are skipped. -/
theorem reads_skip {count : Nat} :
    ∀ {c : Cursor} {text rest : List Char}, c.rest = text ++ rest →
      text.length = count → c.Reads text 0 (c.skip count) := by
  induction count with
  | zero =>
      intro c text rest h ht
      obtain rfl := List.length_eq_zero_iff.1 ht
      exact .refl c
  | succ count ih =>
      intro c text rest h ht
      cases text with
      | nil => cases ht
      | cons ch text =>
          have hrest : c.rest = ch :: (text ++ rest) := h
          have hnext := (reads_advance hrest).trans
            (ih (advance_rest hrest) (Nat.succ.inj ht))
          rwa [Nat.add_zero] at hnext

/-- A move by the bytes of what is seen first reads that. -/
theorem reads_move {rest : List Char} (h : c.rest = text ++ rest) :
    c.Reads text 0 (c.move (byteLength text)) := by
  refine ⟨rfl, ?_, rfl, rfl⟩
  rw [move_rest h]
  exact h

/-- The start of a line is a place like any other. -/
theorem reads_startLine {rest : List Char} (h : c.rest = text ++ rest) :
    c.Reads text 1 { c with
      position := (c.position.advance (byteLength text)).startLine } := by
  refine ⟨rfl, ?_, rfl, rfl⟩
  have hrest : Cursor.rest { c with
      position := (c.position.advance (byteLength text)).startLine }
        = rest := move_rest h
  rw [hrest]
  exact h

end Cursor

-- ==================================================== what follows

/-- A text in front of which every token ends: there is none, or it
starts with a space. -/
def Quiet (text : List Char) : Prop :=
  text = [] ∨ ∃ rest, text = ' ' :: rest

/-- What becomes of a text that is clipped: a part of it from its start
on is left, and something quiet may follow. -/
def Clips (rest text : List Char) : Prop :=
  ∃ front tail, rest = front ++ tail ∧ front <+: text ∧ Quiet tail

section Clips

variable {rest tail text l : List Char} {p : Char → Bool}

/-- What begins with a quiet character clips every text. -/
theorem Quiet.clips (h : Quiet tail) (text : List Char) :
    Clips (text ++ tail) text :=
  ⟨text, tail, rfl, List.prefix_rfl, h⟩

theorem clips_nil (text : List Char) : Clips [] text :=
  ⟨[], [], rfl, List.nil_prefix, .inl rfl⟩

/-- A text is clipped further on. -/
theorem Clips.append (h : Clips rest text) (before : List Char) :
    Clips (before ++ rest) (before ++ text) := by
  obtain ⟨front, tail, rfl, hfront, htail⟩ := h
  refine ⟨before ++ front, tail, (List.append_assoc ..).symm, ?_, htail⟩
  exact (List.prefix_append_right_inj before).2 hfront

/-- What is seen first is what was there, unless it is quiet. -/
theorem Clips.head (h : Clips rest text) :
    rest.head? = text.head? ∨ Quiet rest := by
  obtain ⟨front, tail, rfl, ⟨more, rfl⟩, htail⟩ := h
  cases front with
  | nil => exact .inr htail
  | cons ch front => exact .inl rfl

theorem Quiet.head_any (h : Quiet tail) (hp : p ' ' = false) :
    tail.head?.any p = false := by
  obtain rfl | ⟨rest, rfl⟩ := h
  · rfl
  · exact hp

/-- Nothing but a space is seen first that was not there. -/
theorem Clips.head_any (h : Clips rest text) (hp : p ' ' = false)
    (hrest : rest.head?.any p = true) : text.head?.any p = true := by
  rcases h.head with hhead | hquiet
  · rwa [← hhead]
  · rw [hquiet.head_any hp] at hrest
    cases hrest

theorem dropWhile_head_any (p : Char → Bool) (l : List Char) :
    (l.dropWhile p).head?.any p = false := by
  have hnot := List.head?_dropWhile_not p l
  cases hhead : (l.dropWhile p).head? with
  | none => rfl
  | some ch =>
      rw [hhead] at hnot
      exact hnot

/-- A run of characters ends where it ended before. -/
theorem Clips.takeWhile (h : Clips rest (l.dropWhile p))
    (hp : p ' ' = false) :
    (l.takeWhile p ++ rest).takeWhile p = l.takeWhile p := by
  rw [List.takeWhile_append_of_pos fun ch hch =>
    List.all_eq_true.1 List.all_takeWhile ch hch]
  have hrest : rest.takeWhile p = [] := by
    cases rest with
    | nil => rfl
    | cons ch rest =>
        apply List.takeWhile_cons_of_neg
        intro hch
        have hdrop := h.head_any hp hch
        rw [dropWhile_head_any] at hdrop
        cases hdrop
  rw [hrest, List.append_nil]

/-- A text without a space is found in front only where it was before. -/
theorem Clips.prefix_of {mark : List Char} (h : Clips rest text)
    (hm : ' ' ∉ mark) (hmark : mark <+: rest) : mark <+: text := by
  obtain ⟨front, tail, rfl, hfront, htail⟩ := h
  apply List.IsPrefix.trans _ hfront
  rcases List.prefix_or_prefix_of_prefix hmark
    (List.prefix_append front tail) with hshort | ⟨beyond, rfl⟩
  · exact hshort
  · -- What goes beyond would have to start with a space.
    have hbeyond := (List.prefix_append_right_inj front).1 hmark
    cases beyond with
    | nil => simp
    | cons ch beyond =>
        obtain rfl | ⟨rest, rfl⟩ := htail
        · cases List.prefix_nil.1 hbeyond
        · obtain ⟨rfl, -⟩ := List.cons_prefix_cons.1 hbeyond
          exact absurd (by simp) hm

end Clips

namespace Cursor

variable {c c' d : Cursor} {text rest : List Char} {lines : Nat}

/-- Where a text is clipped after what was read, it is clipped from where
that was read on. -/
theorem Reads.clips (h : c.Reads text lines d) (hrest : Clips rest d.rest)
    (hc : c'.rest = text ++ rest) : Clips c'.rest c.rest := by
  rw [hc, h.rest]
  exact hrest.append text

/-- What was read first is seen again. -/
theorem Reads.peek_eq (h : c.Reads text lines d) (hne : text ≠ [])
    (hc : c'.rest = text ++ rest) : c'.peek = c.peek := by
  obtain ⟨ch, text, rfl⟩ := List.exists_cons_of_ne_nil hne
  rw [peek_cons hc, peek_cons h.rest]

/-- The next character is the same where a text is clipped, unless it is a
blank. -/
theorem peek_of_clips {ch : Char} (h : Clips c'.rest c.rest)
    (hch : ch ≠ ' ') (hpeek : c'.peek = some ch) : c.peek = some ch := by
  rcases h.head with hhead | hquiet
  · exact hhead.symm.trans hpeek
  · obtain ⟨rest, hrest⟩ := peek_eq_some.1 hpeek
    rw [hrest] at hquiet
    rcases hquiet with ⟨⟨⟩⟩ | ⟨rest, ⟨⟩⟩
    exact absurd rfl hch

/-- A run of characters is passed over again, and what it ends at need
not be there. -/
theorem skipWhile_clips {p : Char → Bool} (hp : p ' ' = false)
    (h : Clips rest (c.skipWhile p).rest)
    (hc : c'.rest = c.rest.takeWhile p ++ rest) :
    c'.rest.takeWhile p = c.rest.takeWhile p ∧
      c'.Reads (c.rest.takeWhile p) 0 (c'.skipWhile p) := by
  have hsame : c'.rest.takeWhile p = c.rest.takeWhile p := by
    rw [skipWhile_rest] at h
    rw [hc]
    exact h.takeWhile hp
  have hr := reads_skipWhile p c'
  rw [hsame] at hr
  exact ⟨hsame, hr⟩

/-- A line break is read as one or two characters. -/
theorem reads_lineBreak (h : c.lineBreak? = some d) :
    ∃ text, text ≠ [] ∧ c.Reads text 1 d ∧
      ∀ ⦃c' : Cursor⦄ ⦃rest⦄, Clips rest d.rest →
        c'.rest = text ++ rest →
        ∃ d', c'.lineBreak? = some d' ∧ c'.Reads text 1 d' := by
  rcases lineBreak?_eq_some.1 h with
    ⟨rest, hrest, rfl⟩ | ⟨ch, rest, hrest, hch, hcrlf, rfl⟩
  · refine ⟨['\r', '\n'], List.cons_ne_nil _ _, reads_startLine hrest, ?_⟩
    intro c' rest' _ hc
    exact ⟨_, lineBreak?_eq_some.2 (.inl ⟨rest', hc, rfl⟩),
      reads_startLine hc⟩
  · have hone : c.rest = [ch] ++ rest := hrest
    refine ⟨[ch], List.cons_ne_nil _ _, reads_startLine hone, ?_⟩
    intro c' rest' hclips hc
    have hcrlf' : ∀ more, c'.rest ≠ '\r' :: '\n' :: more := by
      intro more hmore
      -- The line feed would have been seen before.
      rw [hc] at hmore
      cases hmore
      rcases hclips.head with hhead | ⟨⟨⟩⟩ | ⟨rest, ⟨⟩⟩
      obtain ⟨after, hafter⟩ := List.head?_eq_some_iff.1 hhead.symm
      have hnext := ((reads_startLine hone).rest_eq hone).symm.trans hafter
      exact hcrlf after (hnext ▸ hrest)
    exact ⟨_, lineBreak?_eq_some.2 (.inr ⟨ch, rest', hc, hch, hcrlf', rfl⟩),
      reads_startLine hc⟩

end Cursor

-- ======================================================== locality

namespace Scan

variable {α β : Type} {c d : Cursor}

theorem peek_bind [Arithmetic] {f : Option Char → Scan α} :
    (Scan.peek >>= f) c = f c.peek c := rfl

/-- Scans that begin alike, and go on alike where that succeeds. -/
theorem bind_congr {p q : Scan α} {f g : α → Scan β} (h : q c = p c)
    (hf : ∀ a d, p c = .ok a d → g a d = f a d) :
    (q >>= g) c = (p >>= f) c := by
  cases hp : p c with
  | ok a d =>
      rw [bind_of_ok hp, bind_of_ok (h.trans hp)]
      exact hf a d hp
  | error e d => rw [bind_of_error hp, bind_of_error (h.trans hp)]

theorem map_congr {p q : Scan α} {f : α → β} (h : q c = p c) :
    (f <$> q) c = (f <$> p) c := by
  show EStateM.map f q c = EStateM.map f p c
  unfold EStateM.map
  rw [h]

/-- The same text is read with the same result from every cursor that has
it ahead, with something after it that `after` may be clipped to. -/
def AlikeAt (p : Scan α) (a : α) (text : List Char) (lines : Nat)
    (after : List Char) : Prop :=
  ∀ ⦃c rest⦄, Clips rest after → c.rest = text ++ rest →
    ∃ d, p c = .ok a d ∧ c.Reads text lines d

/-- A success reads a text, and does so in any place. -/
def LocalAt (p : Scan α) (c : Cursor) : Prop :=
  ∀ ⦃a d⦄, p c = .ok a d →
    ∃ text lines, c.Reads text lines d ∧ p.AlikeAt a text lines d.rest

theorem localAt_pure (a : α) : (pure a : Scan α).LocalAt c := by
  intro b d h
  obtain ⟨rfl, rfl⟩ := pure_ok.1 h
  exact ⟨[], 0, .refl d, fun c' rest _ _ => ⟨c', rfl, .refl c'⟩⟩

/-- Two actions read alike if each does. -/
theorem AlikeAt.bind {p : Scan α} {f : α → Scan β} {a : α} {b : β}
    {text text' after : List Char} {lines lines' : Nat}
    (hp : p.AlikeAt a text lines (text' ++ after))
    (hf : (f a).AlikeAt b text' lines' after) :
    (p >>= f).AlikeAt b (text ++ text') (lines + lines') after := by
  intro c rest hrest hc
  rw [List.append_assoc] at hc
  obtain ⟨d, hd, hrd⟩ := hp (hrest.append text') hc
  obtain ⟨e, he, hre⟩ := hf hrest (hrd.rest_eq hc)
  exact ⟨e, bind_ok.2 ⟨a, d, hd, he⟩, hrd.trans hre⟩

theorem AlikeAt.map {p : Scan α} {f : α → β} {a : α}
    {text after : List Char} {lines : Nat}
    (hp : p.AlikeAt a text lines after) :
    (f <$> p).AlikeAt (f a) text lines after := by
  intro c rest hrest hc
  obtain ⟨d, hd, hr⟩ := hp hrest hc
  exact ⟨d, map_ok.2 ⟨a, hd, rfl⟩, hr⟩

/-- A scan whose result is put into another form. -/
theorem AlikeAt.bindPure {p : Scan α} {f : α → β} {a : α}
    {text after : List Char} {lines : Nat}
    (hp : p.AlikeAt a text lines after) :
    (p >>= fun a => pure (f a)).AlikeAt (f a) text lines after := by
  intro c rest hrest hc
  obtain ⟨d, hd, hr⟩ := hp hrest hc
  exact ⟨d, bind_ok.2 ⟨a, d, hd, rfl⟩, hr⟩

/-- A scan that starts with a certain character does so everywhere. -/
theorem AlikeAt.char {p q : Scan α} {ch : Char} {a : α}
    {text after : List Char} {lines : Nat}
    (hq : q.AlikeAt a text lines after)
    (hfirst : ∀ {c : Cursor} {rest : List Char}, c.rest = ch :: rest →
      p c = q c.advance) :
    p.AlikeAt a ([ch] ++ text) (0 + lines) after := by
  intro c rest hrest hc
  obtain ⟨d, hd, hr⟩ := hq hrest (Cursor.advance_rest hc)
  refine ⟨d, ?_, (Cursor.reads_advance hc).trans hr⟩
  rw [hfirst hc, hd]

theorem LocalAt.map {p : Scan α} {f : α → β} (hp : p.LocalAt c) :
    (f <$> p).LocalAt c := by
  intro b d h
  obtain ⟨a, h₁, rfl⟩ := map_ok.1 h
  obtain ⟨text, lines, hr, halike⟩ := hp h₁
  exact ⟨text, lines, hr, halike.map⟩

theorem LocalAt.ite {q : Prop} [Decidable q] {p p' : Scan α}
    (ht : q → p.LocalAt c) (hf : ¬q → p'.LocalAt c) :
    (if q then p else p').LocalAt c := by
  by_cases hq : q
  · rw [if_pos hq]
    exact ht hq
  · rw [if_neg hq]
    exact hf hq

/-- An action is local if it is after its first character. -/
theorem LocalAt.char {p q : Scan α} {ch : Char} {rest : List Char}
    (hq : q.LocalAt c.advance) (hc : c.rest = ch :: rest)
    (hfirst : ∀ {c : Cursor} {rest : List Char}, c.rest = ch :: rest →
      p c = q c.advance) : p.LocalAt c := by
  intro a d h
  rw [hfirst hc] at h
  obtain ⟨text, lines, hr, halike⟩ := hq h
  exact ⟨[ch] ++ text, 0 + lines, (Cursor.reads_advance hc).trans hr,
    halike.char hfirst⟩

end Scan

-- ========================================================== tokens

namespace Scan

/-- A token that was read from a cursor, with its text and the number of
line breaks in it, is read from elsewhere as well. -/
structure TokenAt (p : Scan Token) (c : Cursor) (t : Token) (d : Cursor)
    (text : List Char) (lines : Nat) : Prop where
  reads : c.Reads text lines d
  raw : t.raw = .ofList text
  span : t.span = ⟨c.position, d.position⟩
  alike : ∀ ⦃c' rest⦄, Clips rest d.rest → c'.rest = text ++ rest →
    ∃ d', p c' = .ok ⟨t.kind, t.value, t.raw, ⟨c'.position, d'.position⟩⟩ d'
      ∧ c'.Reads text lines d'

theorem TokenAt.of_tokenTo {p : Scan Token} {c d : Cursor}
    {text : List Char} {lines : Nat} {kind : TokenKind}
    {value : TokenValue} (h : c.Reads text lines d)
    (halike : ∀ ⦃c' rest⦄, Clips rest d.rest → c'.rest = text ++ rest →
      ∃ d', p c' = .ok (c'.tokenTo d' kind value) d' ∧
        c'.Reads text lines d') :
    p.TokenAt c (c.tokenTo d kind value) d text lines := by
  rw [h.tokenTo_eq]
  refine ⟨h, rfl, rfl, fun c' rest hrest hc => ?_⟩
  obtain ⟨d', hp, hr⟩ := halike hrest hc
  exact ⟨d', by rw [hp, hr.tokenTo_eq], hr⟩

end Scan

end ScriptTree
