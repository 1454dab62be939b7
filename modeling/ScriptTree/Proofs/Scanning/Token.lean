/-
The token at a cursor.

Every token is read whole and in any place (`token_ok`), and what it
stands for follows from its kind (`Token.Formed`). A word that is not
spelled out plainly takes other bytes than the word, so a reserved word
of as many bytes stands in the text as it is.
-/
import ScriptTree.Proofs.Scanning.Numeral
import ScriptTree.Proofs.Scanning.Quoted

namespace ScriptTree

variable {c c' d : Cursor}

-- ======================================================= punctuators

theorem punctuator_chars : ∀ mark ∈ punctuators,
    mark.toList ≠ [] ∧ ' ' ∉ mark.toList := by
  decide

/-- Where all that fits is found again, and nothing more, the same
punctuator is found. -/
theorem punctuator?_eq {text text' : List Char} {mark : String}
    (h : punctuator? text = some mark) (hmark : mark.toList <+: text')
    (hle : ∀ mark ∈ punctuators, mark.toList <+: text' →
      mark.toList <+: text) : punctuator? text' = some mark := by
  have hall : ∀ marks : List String, (∀ mark ∈ marks,
      mark.toList <+: text' → mark.toList <+: text) →
      marks.find? (fun mark => mark.toList.isPrefixOf text) = some mark →
      marks.find? (fun mark => mark.toList.isPrefixOf text')
        = some mark := by
    intro marks hle hfind
    induction marks with
    | nil => cases hfind
    | cons first marks ih =>
        rw [List.find?_cons] at hfind ⊢
        split at hfind
        case h_1 =>
          cases hfind
          rw [List.isPrefixOf_iff_prefix.2 hmark]
        case h_2 hfirst =>
          have hfirst' : first.toList.isPrefixOf text' = false := by
            rw [Bool.eq_false_iff] at hfirst ⊢
            intro hin
            apply hfirst
            exact List.isPrefixOf_iff_prefix.2 (hle first
              List.mem_cons_self (List.isPrefixOf_iff_prefix.1 hin))
          rw [hfirst']
          exact ih (fun m hm => hle m (List.mem_cons_of_mem _ hm)) hfind
  exact hall _ hle h

/-- A mark is read where it stands. -/
theorem reads_afterMark {mark : String} {rest : List Char}
    (hc : c.rest = mark.toList ++ rest) :
    c.Reads mark.toList 0 (afterMark mark c) := by
  have hread := Cursor.reads_skip hc String.length_toList
  exact ⟨hread.source, hread.rest, hread.offset, hread.line⟩

/-- A punctuator is one of the marks, and depends on its own text alone. -/
theorem punctuatorToken_ok {t : Token} (h : punctuatorToken c = .ok t d) :
    ∃ mark ∈ punctuators, t.kind = .punctuator ∧ t.value = .text mark ∧
      punctuatorToken.TokenAt c t d mark.toList 0 := by
  obtain ⟨mark, hmark, rfl, rfl⟩ := punctuatorToken_eq_ok.1 h
  obtain ⟨hin, after, hafter⟩ := punctuator?_in_front hmark
  have hread := reads_afterMark hafter
  refine ⟨mark, hin, rfl, rfl, .of_tokenTo hread ?_⟩
  intro c' rest hrest hc
  have hclips := hread.clips hrest hc
  have hmark' := punctuator?_eq hmark ⟨rest, hc.symm⟩ fun m hm =>
    hclips.prefix_of (punctuator_chars m hm).2
  exact ⟨_, punctuatorToken_eq_ok.2 ⟨mark, hmark', rfl, rfl⟩, reads_afterMark hc⟩

-- ============================================================ tokens

/-- What a token of a text is like. -/
inductive Token.Formed (t : Token) : Prop where
  | word (chars text : List Char) : Spelled chars text →
      t.kind = wordKind (.ofList chars) → t.value = .text (.ofList chars) →
      t.raw = .ofList text → Formed t
  | string (chars : List Char) : t.kind = .string →
      t.value = .text (.ofList chars) → Formed t
  | numeral (value : Binary64) : t.kind = .numeric →
      t.value = .number value → Formed t
  | punctuator (mark : String) : mark ∈ punctuators →
      t.kind = .punctuator → t.value = .text mark → t.raw = mark → Formed t

/-- A numeral starts only where one started before. -/
theorem startsNumeral_of_clips (h : Clips c'.rest c.rest)
    (hstart : c'.startsNumeral = true) : c.startsNumeral = true := by
  have hspace {ch : Char} (hch : isDecimalDigit ch = true) :
      ' ' ≠ ch := by
    rintro rfl
    rw [isDecimalDigit_space] at hch
    cases hch
  rcases startsNumeral_cases hstart with
    ⟨ch, rest, hc, hch⟩ | ⟨ch, rest, hc, hch⟩
  · have hpre : [ch] <+: c.rest :=
      h.prefix_of (by simp [hspace hch]) ⟨rest, hc.symm⟩
    obtain ⟨after, hafter⟩ := hpre
    exact startsNumeral_of_digit hafter.symm hch
  · have hpre : ['.', ch] <+: c.rest :=
      h.prefix_of (by simp [hspace hch]) ⟨rest, hc.symm⟩
    obtain ⟨after, hafter⟩ := hpre
    exact startsNumeral_of_point hafter.symm hch

/-- A token is read whole, and in any place. A name stands on one
line. -/
theorem token_ok [NameProperties] {ch : Char} {rest : List Char} {t : Token}
    (hc : c.rest = ch :: rest) (h : Cursor.token c = .ok t d) :
    ∃ text lines, text ≠ [] ∧ t.Formed ∧
      (t.kind ≠ .string → t.kind ≠ .numeric → lines = 0) ∧
      Cursor.token.TokenAt c t d text lines := by
  -- The form of the token depends on what is seen in any place.
  have hform {p : Scan Token} {text : List Char} {lines : Nat}
      (ht : p.TokenAt c t d text lines) (hne : text ≠ [])
      (hp : ∀ ⦃c' : Cursor⦄ ⦃rest more⦄, Clips rest d.rest →
        c'.rest = text ++ rest → c'.rest = ch :: more →
        Cursor.token c' = p c') :
      Cursor.token.TokenAt c t d text lines := by
    refine ⟨ht.reads, ht.raw, ht.span, fun c' rest hrest hc' => ?_⟩
    have hpeek := ht.reads.peek_eq hne hc'
    rw [Cursor.peek_cons hc] at hpeek
    obtain ⟨more, hmore⟩ := Cursor.peek_eq_some.1 hpeek
    rw [hp hrest hc' hmore]
    exact ht.alike hrest hc'
  cases c.opens with
  | nothing hnil =>
      rw [hnil] at hc
      cases hc
  | name hc' hname hsame =>
      obtain ⟨rfl, -⟩ := List.cons.inj (hc'.symm.trans hc)
      rw [hsame] at h
      obtain ⟨chars, text, hsp, hne, hkind, hvalue, ht⟩ :=
        nameToken_ok hc hname h
      exact ⟨text, 0, hne, .word chars text hsp hkind hvalue ht.raw,
        fun _ _ => rfl, hform ht hne fun _ _ _ _ _ hmore =>
          Cursor.token_of_nameStart hmore hname⟩
  | string hc' hquote hsame =>
      obtain ⟨rfl, -⟩ := List.cons.inj (hc'.symm.trans hc)
      rw [hsame] at h
      obtain ⟨chars, text, lines, hne, hkind, hvalue, ht⟩ :=
        quotedToken_ok hquote hc h
      exact ⟨text, lines, hne, .string chars hkind hvalue,
        fun hk => absurd hkind hk,
        hform ht hne fun _ _ _ _ _ hmore =>
          Cursor.token_of_quote hquote hmore⟩
  | numeral hc' hname hquote hstart hsame =>
      obtain ⟨rfl, -⟩ := List.cons.inj (hc'.symm.trans hc)
      rw [hsame] at h
      obtain ⟨text, lines, value, hopens, hkind, hvalue, ht⟩ :=
        numeralToken_ok hstart h
      have hne : text ≠ [] := by
        rintro rfl
        cases hopens (Cursor.ofText_rest [])
      exact ⟨text, lines, hne, .numeral value hkind hvalue,
        fun _ hk => absurd hkind hk,
        hform ht hne fun _ _ _ _ htext hmore =>
          Cursor.token_of_numeral hmore hname hquote (hopens htext)⟩
  | punctuator hc' hname hquote hstart hsame =>
      obtain ⟨rfl, -⟩ := List.cons.inj (hc'.symm.trans hc)
      rw [hsame] at h
      obtain ⟨mark, hin, hkind, hvalue, ht⟩ := punctuatorToken_ok h
      have hne := (punctuator_chars mark hin).1
      have hraw : t.raw = mark := ht.raw.trans String.ofList_toList
      refine ⟨mark.toList, 0, hne, .punctuator mark hin hkind hvalue hraw,
        fun _ _ => rfl, hform ht hne fun c' _ _ hrest htext hmore => ?_⟩
      have hstart' : c'.startsNumeral = false := by
        rw [Bool.eq_false_iff] at hstart ⊢
        exact fun h => hstart (startsNumeral_of_clips
          (ht.reads.clips hrest htext) h)
      exact Cursor.token_of_mark hmore hname hquote hstart'

/-- What token a text is, it is wherever it stands: two tokens that read
the same have the same kind and value. -/
theorem token_eq_of_raw [NameProperties]
    {t t' : Token} {e : Cursor} {ch ch' : Char}
    {rest rest' : List Char} (hc : c.rest = ch :: rest)
    (hc' : c'.rest = ch' :: rest') (h : Cursor.token c = .ok t d)
    (h' : Cursor.token c' = .ok t' e) (hraw : t'.raw = t.raw) :
    t'.kind = t.kind ∧ t'.value = t.value := by
  obtain ⟨text, lines, -, -, -, hat⟩ := token_ok hc h
  obtain ⟨text', lines', -, -, -, hat'⟩ := token_ok hc' h'
  obtain rfl : text' = text := by
    rw [hat.raw, hat'.raw] at hraw
    exact String.ofList_injective hraw
  -- Both are read in the same way where the text stands alone.
  have halone : (Cursor.ofText text').rest = text' ++ [] := by
    rw [Cursor.ofText_rest, List.append_nil]
  obtain ⟨u, hu, -⟩ := hat.alike (clips_nil _) halone
  obtain ⟨u', hu', -⟩ := hat'.alike (clips_nil _) halone
  rw [hu, EStateM.Result.ok.injEq, Token.mk.injEq] at hu'
  exact ⟨hu'.1.1.symm, hu'.1.2.1.symm⟩

end ScriptTree
