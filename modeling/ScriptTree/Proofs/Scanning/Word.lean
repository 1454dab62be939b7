/-
Names, and the escapes within them.

# Escapes are long

An escape takes more bytes than the character it stands for
(`nameEscape_ok`). A name is therefore spelled as it stands in the text,
or takes more bytes there than the name has, and there is a backslash in
it (`Spelled`).
-/
import ScriptTree.Proofs.Scanning.Outcome

namespace ScriptTree

variable {c c' d : Cursor}

-- ======================================================== escapes

/-- Digits are read one by one, and what follows is not looked at. -/
theorem hexDigits_some {n code v : Nat}
    (h : hexDigits n code c = (some v, d)) :
    ∃ text, text.length = n ∧ ' ' ∉ text ∧ c.Reads text 0 d ∧
      ∀ ⦃c' : Cursor⦄ ⦃rest⦄, c'.rest = text ++ rest →
        ∃ d', hexDigits n code c' = (some v, d') ∧
          c'.Reads text 0 d' := by
  induction n generalizing code c with
  | zero =>
      cases h
      exact ⟨[], rfl, List.not_mem_nil, .refl _,
        fun c' _ _ => ⟨c', rfl, .refl c'⟩⟩
  | succ n ih =>
      rcases hexDigits_cases n code c with
        ⟨ch, rest, digit, hrest, hvalue, hnext⟩ | hnone
      · rw [hnext] at h
        obtain ⟨text, hlen, hspace, hr, halike⟩ := ih h
        refine ⟨ch :: text, congrArg (· + 1) hlen, ?_,
          (Cursor.reads_advance hrest).trans hr, ?_⟩
        · intro hin
          rcases List.mem_cons.1 hin with rfl | hin
          · cases hvalue
          · exact hspace hin
        intro c' rest' hc
        obtain ⟨d', hd', hrd⟩ := halike (Cursor.advance_rest hc)
        exact ⟨d', (hexDigits_cons hc hvalue).trans hd',
          (Cursor.reads_advance hc).trans hrd⟩
      · rw [hnone] at h
        cases h

/-- An escape in braces takes a digit and the brace at least. -/
theorem bracedEscape_ok {ch : Char} (h : bracedEscape c = .ok ch d) :
    ∃ text, 2 ≤ text.length ∧ c.Reads text 0 d ∧
      bracedEscape.AlikeAt ch text 0 d.rest := by
  obtain ⟨digits, after, hne, hdigits, hc, hcode, rfl⟩ :=
    bracedEscape_eq_ok.1 h
  have hpos := List.length_pos_iff.2 hne
  refine ⟨digits ++ ['\x7d'], ?_, (reads_braced hdigits hc).2.2, ?_⟩
  · rw [List.length_append, List.length_singleton]
    omega
  intro c' rest _ hc'
  rw [List.append_assoc] at hc'
  exact ⟨_, bracedEscape_eq_ok.2
    ⟨digits, rest, hne, hdigits, hc', hcode, rfl⟩,
    (reads_braced hdigits hc').2.2⟩

/-- An escape of four digits depends on its own text alone. -/
theorem fourDigitEscape_ok {ch : Char} (h : fourDigitEscape c = .ok ch d) :
    ∃ text, text.length = 4 ∧ c.Reads text 0 d ∧
      fourDigitEscape.AlikeAt ch text 0 d.rest := by
  obtain ⟨code, hdigits, hcode⟩ := fourDigitEscape_eq_ok.1 h
  obtain ⟨text, hlen, -, hr, halike⟩ := hexDigits_some hdigits
  refine ⟨text, hlen, hr, fun c' rest _ hc => ?_⟩
  obtain ⟨d', hd', hrd⟩ := halike hc
  exact ⟨d', fourDigitEscape_eq_ok.2 ⟨code, hd', hcode⟩, hrd⟩

/-- An escape in a name, its backslash apart, takes four characters at
least. -/
theorem nameEscape_ok {ch : Char} (h : nameEscape c = .ok ch d) :
    ∃ text, 4 ≤ text.length ∧ c.Reads text 0 d ∧
      nameEscape.AlikeAt ch text 0 d.rest := by
  have hsame {e : Cursor} {rest : List Char} (he : e.rest = 'u' :: rest) :
      nameEscape e =
        if e.advance.peek = some '\x7b' then bracedEscape e.advance.advance
        else fourDigitEscape e.advance := by
    rw [nameEscape_eq, if_pos (Cursor.peek_cons he)]
  by_cases hpeek : c.peek = some 'u'
  case neg =>
    rw [nameEscape_eq, if_neg hpeek] at h
    cases h
  obtain ⟨rest, hc⟩ := Cursor.peek_eq_some.1 hpeek
  have hu := Cursor.reads_advance hc
  rw [hsame hc] at h
  split at h
  case isTrue hbrace =>
    obtain ⟨rest', hc'⟩ := Cursor.peek_eq_some.1 hbrace
    obtain ⟨text, hlen, hr, halike⟩ := bracedEscape_ok h
    refine ⟨['u'] ++ (['\x7b'] ++ text), ?_,
      hu.trans ((Cursor.reads_advance hc').trans hr), ?_⟩
    · simp only [List.length_append, List.length_singleton]
      omega
    intro e rest hrest he
    have hbrace' := Cursor.advance_rest he
    obtain ⟨d', hd', hrd⟩ := halike hrest (Cursor.advance_rest hbrace')
    refine ⟨d', ?_, (Cursor.reads_advance he).trans
      ((Cursor.reads_advance hbrace').trans hrd)⟩
    rw [hsame he, if_pos (Cursor.peek_cons hbrace')]
    exact hd'
  case isFalse hbrace =>
    obtain ⟨text, hlen, hr, halike⟩ := fourDigitEscape_ok h
    have hne : text ≠ [] := List.length_pos_iff.1 (by omega)
    refine ⟨['u'] ++ text, ?_, hu.trans hr, ?_⟩
    · rw [List.length_append, hlen, List.length_singleton]
      omega
    intro e rest hrest he
    have hnext := Cursor.advance_rest he
    obtain ⟨d', hd', hrd⟩ := halike hrest hnext
    refine ⟨d', ?_, (Cursor.reads_advance he).trans hrd⟩
    rw [hsame he, if_neg]
    · exact hd'
    · rwa [hr.peek_eq hne hnext]

-- =========================================================== names

/-- How a name may stand in a text: as it is, or with escapes, which take
more bytes. -/
def Spelled (chars text : List Char) : Prop :=
  chars = text ∨ '\\' ∈ text ∧ byteLength chars < byteLength text

/-- A character may be spelled by itself. -/
theorem Spelled.cons {chars text : List Char} (h : Spelled chars text)
    (ch : Char) : Spelled (ch :: chars) (ch :: text) := by
  rcases h with rfl | ⟨hslash, hlen⟩
  · exact .inl rfl
  · right
    refine ⟨List.mem_cons_of_mem _ hslash, ?_⟩
    rw [byteLength_cons, byteLength_cons]
    omega

/-- A spelling takes as many bytes as what it spells, at least. -/
theorem Spelled.byteLength_le {chars text : List Char}
    (h : Spelled chars text) : byteLength chars ≤ byteLength text := by
  rcases h with rfl | ⟨-, hlen⟩
  · exact Nat.le_refl _
  · exact Nat.le_of_lt hlen

/-- A character may be spelled by an escape. -/
theorem Spelled.escape {chars text escape : List Char}
    (h : Spelled chars text) (ch : Char) (he : 4 ≤ escape.length) :
    Spelled (ch :: chars) ('\\' :: escape ++ text) := by
  right
  refine ⟨List.mem_append_left _ List.mem_cons_self, ?_⟩
  have hch := ch.utf8Size_le_four
  have hescape := length_le_byteLength escape
  have hrest := h.byteLength_le
  have hslash := Char.utf8Size_pos '\\'
  rw [byteLength_append, byteLength_cons, byteLength_cons]
  omega

section NameChars

variable {n : Nat} {isFirst : Bool}

/-- A space fits no place of a name. -/
private theorem fitsName_space [NameProperties] (isFirst : Bool) :
    fitsName isFirst ' ' = false := by
  cases isFirst with
  | false => exact isNamePart_space
  | true => exact isNameStart_space

/-- A name ends in front of what does not fit. -/
private theorem nameChars_ends [NameProperties] {after : List Char}
    (h : ∀ ch ∈ after.head?, ch ≠ '\\' ∧ fitsName isFirst ch = false) :
    (nameChars n isFirst).AlikeAt [] [] 0 after := by
  intro c rest hrest hc
  obtain rfl : c.rest = rest := hc
  refine ⟨c, ?_, .refl c⟩
  have hends {ch : Char} {more : List Char} (hc : c.rest = ch :: more) :
      ch ≠ '\\' ∧ fitsName isFirst ch = false := by
    rw [hc] at hrest
    rcases hrest.head with hhead | ⟨⟨⟩⟩ | ⟨more, ⟨⟩⟩
    · exact h ch hhead.symm
    · exact ⟨by decide, fitsName_space isFirst⟩
  cases nameNext isFirst c with
  | ends _ hsame => exact hsame n
  | escape hc => exact absurd rfl (hends hc).1
  | plain hc _ hfits =>
      rw [(hends hc).2] at hfits
      cases hfits

/-- A name is read with its spelling, up to the first character that
does not fit. There are enough steps if there is one for each character
of the text, and more of them do no harm. -/
theorem nameChars_ok [NameProperties]
    {chars : List Char} (hn : c.rest.length ≤ n)
    (h : nameChars n isFirst c = .ok chars d) :
    ∃ text, Spelled chars text ∧ c.Reads text 0 d ∧
      ∀ m, text.length ≤ m →
        (nameChars m isFirst).AlikeAt chars text 0 d.rest := by
  induction n generalizing isFirst c chars with
  | zero =>
      obtain ⟨rfl, rfl⟩ := pure_ok.1 h
      have hnil := List.length_eq_zero_iff.1 (Nat.le_zero.1 hn)
      exact ⟨[], .inl rfl, .refl d,
        fun m _ => nameChars_ends (by simp [hnil])⟩
  | succ n ih =>
      cases nameNext isFirst c with
      | ends hends hsame =>
          rw [hsame] at h
          cases h
          exact ⟨[], .inl rfl, .refl d, fun m _ => nameChars_ends hends⟩
      | escape hrest hsame =>
          have hfirst := Cursor.reads_advance hrest
          have hlen := hfirst.length_lt (List.cons_ne_nil _ _)
          rw [hsame] at h
          obtain ⟨ch, e, hescape, h⟩ := bind_ok.1 h
          obtain ⟨escape, hlong, hre, halike⟩ := nameEscape_ok hescape
          split at h
          case isFalse => cases h
          case isTrue hfits =>
            obtain ⟨chars, d, hchars, hp⟩ := bind_ok.1 h
            obtain ⟨rfl, rfl⟩ := pure_ok.1 hp
            have hle := hre.length_lt (List.length_pos_iff.1 (by omega))
            obtain ⟨text, hsp, hr, hname⟩ := ih (by omega) hchars
            rw [hr.rest] at halike
            refine ⟨'\\' :: escape ++ text, hsp.escape ch hlong,
              hfirst.trans (hre.trans hr), fun m hm => ?_⟩
            rw [List.length_append, List.length_cons] at hm
            obtain ⟨m, rfl⟩ : ∃ k, m = k + 1 := ⟨m - 1, by omega⟩
            show Scan.AlikeAt _ _ (['\\'] ++ (escape ++ text))
              (0 + (0 + 0)) _
            apply Scan.AlikeAt.char _ nameChars_of_slash
            apply halike.bind
            rw [if_pos hfits]
            exact (hname m (by omega)).bindPure
      | plain hrest hch hfits hsame =>
          have hfirst := Cursor.reads_advance hrest
          have hlen := hfirst.length_lt (List.cons_ne_nil _ _)
          rw [hsame] at h
          obtain ⟨chars, d, hchars, hp⟩ := bind_ok.1 h
          obtain ⟨rfl, rfl⟩ := pure_ok.1 hp
          obtain ⟨text, hsp, hr, hname⟩ := ih (by omega) hchars
          refine ⟨_ :: text, hsp.cons _, hfirst.trans hr, fun m hm => ?_⟩
          rw [List.length_cons] at hm
          obtain ⟨m, rfl⟩ : ∃ k, m = k + 1 := ⟨m - 1, by omega⟩
          apply Scan.AlikeAt.char (hname m (by omega)).bindPure
          intro c rest hc
          rw [nameChars_of_plain hc hch, if_pos hfits]

/-- Where a name starts, it has a character. -/
theorem nameChars_ne_nil [NameProperties] {chars rest : List Char} {ch : Char}
    (hc : c.rest = ch :: rest) (hch : isNameStart ch = true)
    (h : nameChars (n + 1) true c = .ok chars d) : chars ≠ [] := by
  by_cases hslash : ch = '\\'
  · subst hslash
    rw [nameChars_of_slash hc] at h
    obtain ⟨first, e, -, h⟩ := bind_ok.1 h
    split at h
    · obtain ⟨later, e', -, hp⟩ := bind_ok.1 h
      rw [(pure_ok.1 hp).1]
      exact List.cons_ne_nil _ _
    · cases h
  · have hfits : fitsName true ch = true := hch
    rw [nameChars_of_plain hc hslash, if_pos hfits] at h
    obtain ⟨later, e, -, hp⟩ := bind_ok.1 h
    rw [(pure_ok.1 hp).1]
    exact List.cons_ne_nil _ _

end NameChars

/-- A name or word is read with its spelling. -/
theorem nameToken_ok [NameProperties]
    {t : Token} {ch : Char} {rest : List Char}
    (hc : c.rest = ch :: rest) (hch : isNameStart ch = true)
    (h : nameToken c = .ok t d) :
    ∃ chars text, Spelled chars text ∧ text ≠ [] ∧
      t.kind = wordKind (.ofList chars) ∧
      t.value = .text (.ofList chars) ∧
      nameToken.TokenAt c t d text 0 := by
  obtain ⟨chars, hchars, rfl⟩ := (nameToken_eq_ok hc hch).1 h
  obtain ⟨text, hsp, hr, hname⟩ := nameChars_ok (Nat.le_refl _) hchars
  have hne : text ≠ [] := by
    rintro rfl
    -- Nothing is spelled by nothing, but the first character fits.
    rw [hc, List.length_cons] at hchars
    rcases hsp with hnil | ⟨hslash, -⟩
    · exact nameChars_ne_nil hc hch hchars hnil
    · cases hslash
  refine ⟨chars, text, hsp, hne, rfl, rfl, .of_tokenTo hr ?_⟩
  intro c' rest' hrest hc'
  have hlen : text.length ≤ c'.rest.length := by
    rw [hc', List.length_append]
    exact Nat.le_add_right _ _
  obtain ⟨d', hd', hrd⟩ := hname _ hlen hrest hc'
  obtain ⟨after, hafter⟩ := Cursor.peek_eq_some.1
    ((hr.peek_eq hne hc').trans (Cursor.peek_cons hc))
  exact ⟨d', (nameToken_eq_ok hafter hch).2 ⟨chars, hd', rfl⟩, hrd⟩

end ScriptTree
