/-
Strings, and the escapes within them.

A string that is closed was read up to its closing quote, and what
follows was not looked at. Only escapes look further, for the second of
two surrogates and for the line feed after a carriage return.
-/
import ScriptTree.Proofs.Scanning.Word

namespace ScriptTree

variable {c c' d : Cursor}

-- ========================================================= escapes

/-- The first of two surrogates, at a cursor where the other does not
follow, stands alone. Else both are taken. -/
private theorem surrogate_cases (code : Nat) (c : Cursor) :
    surrogate code c = (replacementChar, c) ∨
      ∃ mark low, mark ≠ [] ∧ ' ' ∉ mark ∧ mark <+: c.rest ∧
        ∀ ⦃c' : Cursor⦄, mark <+: c'.rest → ∃ d,
          surrogate code c' = (combineSurrogates code low, d) ∧
            c'.Reads mark 0 d := by
  rw [surrogate_eq]
  by_cases hhigh : (0xD800 ≤ code && code < 0xDC00
      && ['\\', 'u'].isPrefixOf c.rest) = true
  case neg =>
    left
    simp only [if_neg hhigh]
  rcases hdigits : hexDigits 4 0 (c.skip 2) with ⟨- | low, stop⟩
  · left
    simp only [if_pos hhigh]
  by_cases hlow : (0xDC00 ≤ low && low < 0xE000) = true
  case neg =>
    left
    simp only [if_pos hhigh, if_neg hlow]
  right
  obtain ⟨hcode, hmark⟩ := Bool.and_eq_true_iff.1 hhigh
  obtain ⟨rest, hrest⟩ := List.isPrefixOf_iff_prefix.1 hmark
  have hskip : c.Reads ['\\', 'u'] 0 (c.skip 2) :=
    Cursor.reads_skip hrest.symm rfl
  obtain ⟨text, -, hspace, hr, halike⟩ := hexDigits_some hdigits
  refine ⟨['\\', 'u'] ++ text, low, by simp, by simp [hspace],
    ⟨stop.rest, (hskip.trans hr).rest.symm⟩, ?_⟩
  rintro c' ⟨after, hafter⟩
  rw [List.append_assoc] at hafter
  have hskip' : c'.Reads ['\\', 'u'] 0 (c'.skip 2) :=
    Cursor.reads_skip hafter.symm rfl
  obtain ⟨stop', hdigits', hr'⟩ := halike (hskip'.rest_eq hafter.symm)
  refine ⟨stop', ?_, hskip'.trans hr'⟩
  have hhigh' : (0xD800 ≤ code && code < 0xDC00
      && ['\\', 'u'].isPrefixOf c'.rest) = true := by
    rw [hcode, ← hafter]
    rfl
  rw [surrogate_eq]
  simp only [if_pos hhigh', hdigits', if_pos hlow]

/-- The second half of a pair depends on its own text alone. -/
theorem surrogate_reads (code : Nat) (c : Cursor) :
    ∃ text, c.Reads text 0 (surrogate code c).2 ∧
      ∀ ⦃c' : Cursor⦄ ⦃rest⦄, Clips rest (surrogate code c).2.rest →
        c'.rest = text ++ rest →
        (surrogate code c').1 = (surrogate code c).1 ∧
          c'.Reads text 0 (surrogate code c').2 := by
  rcases surrogate_cases code c with
    halone | ⟨mark, low, -, -, hmark, htaken⟩
  · rw [halone]
    refine ⟨[], .refl c, fun c' rest hrest hc => ?_⟩
    obtain rfl : c'.rest = rest := hc
    rcases surrogate_cases code c' with
      halone' | ⟨mark, low, hne, hspace, hmark, htaken⟩
    · rw [halone']
      exact ⟨rfl, .refl c'⟩
    · -- Both would have been taken before.
      obtain ⟨d, hd, hr⟩ := htaken (hrest.prefix_of hspace hmark)
      rw [halone] at hd
      obtain ⟨-, rfl⟩ := Prod.mk.inj hd
      exact absurd (hr.unique (.refl c)).1.symm hne
  · obtain ⟨d, hd, hr⟩ := htaken hmark
    rw [hd]
    refine ⟨mark, hr, fun c' rest _ hc => ?_⟩
    obtain ⟨d', hd', hr'⟩ := htaken ⟨rest, hc.symm⟩
    rw [hd']
    exact ⟨rfl, hr'⟩

theorem localAt_bracedEscape : bracedEscape.LocalAt c := by
  intro ch d h
  obtain ⟨text, -, hr, halike⟩ := bracedEscape_ok h
  exact ⟨text, 0, hr, halike⟩

/-- An escape by four digits takes the digits at least. -/
private theorem unitEscape_ok {ch : Char} (h : unitEscape c = .ok ch d) :
    ∃ text, text ≠ [] ∧ c.Reads text 0 d ∧
      unitEscape.AlikeAt ch text 0 d.rest := by
  obtain ⟨code, stop, hdigits, hcode⟩ := unitEscape_eq_ok.1 h
  obtain ⟨text, hlen, -, hr, halike⟩ := hexDigits_some hdigits
  have hne : text ≠ [] := List.length_pos_iff.1 (by omega)
  rcases hcode with ⟨hscalar, rfl⟩ | ⟨hscalar, hpair⟩
  · refine ⟨text, hne, hr, fun c' rest _ hc => ?_⟩
    obtain ⟨d', hd', hrd⟩ := halike hc
    exact ⟨d', unitEscape_eq_ok.2 ⟨code, d', hd', .inl ⟨hscalar, rfl⟩⟩,
      hrd⟩
  · obtain ⟨text', hr', halike'⟩ := surrogate_reads code stop
    rw [hpair] at hr' halike'
    refine ⟨text ++ text', List.append_ne_nil_of_left_ne_nil hne _,
      hr.trans hr', fun c' rest hrest hc => ?_⟩
    rw [List.append_assoc] at hc
    obtain ⟨stop', hd', hrd⟩ := halike hc
    obtain ⟨hch, hrs⟩ := halike' hrest (hrd.rest_eq hc)
    exact ⟨(surrogate code stop').2, unitEscape_eq_ok.2
      ⟨code, stop', hd', .inr ⟨hscalar, Prod.ext hch rfl⟩⟩,
      hrd.trans hrs⟩

theorem localAt_numberEscape : numberEscape.LocalAt c := by
  intro ch d h
  rw [numberEscape_eq] at h
  split at h
  case isTrue hbrace =>
    obtain ⟨rest, hc⟩ := Cursor.peek_eq_some.1 hbrace
    apply Scan.LocalAt.char localAt_bracedEscape hc
    · intro c rest hc
      rw [numberEscape_eq, if_pos (Cursor.peek_cons hc)]
    · rw [numberEscape_eq, if_pos hbrace]
      exact h
  case isFalse hbrace =>
    obtain ⟨text, hne, hr, halike⟩ := unitEscape_ok h
    refine ⟨text, 0, hr, fun c' rest hrest hc => ?_⟩
    rw [numberEscape_eq, hr.peek_eq hne hc, if_neg hbrace]
    exact halike hrest hc

theorem localAt_byteEscape : byteEscape.LocalAt c := by
  intro ch d h
  obtain ⟨code, hdigits, rfl⟩ := byteEscape_eq_ok.1 h
  obtain ⟨text, -, -, hr, halike⟩ := hexDigits_some hdigits
  refine ⟨text, 0, hr, fun c' rest _ hc => ?_⟩
  obtain ⟨d', hd', hrd⟩ := halike hc
  exact ⟨d', byteEscape_eq_ok.2 ⟨code, hd', rfl⟩, hrd⟩

private theorem localAt_afterLetter (ch : Char) :
    (afterLetter ch).LocalAt c :=
  .ite (fun _ => localAt_numberEscape.map) fun _ =>
    .ite (fun _ => localAt_byteEscape.map) fun _ => Scan.localAt_pure _

/-- What follows a backslash, unless the text ends there. -/
theorem escaped_ok {r : Escaped} (h : escaped c = .ok r d)
    (hr : r ≠ .endOfText) :
    ∃ text lines, c.Reads text lines d ∧
      escaped.AlikeAt r text lines d.rest := by
  rcases escaped_cases c with
    ⟨-, hend⟩ | ⟨next, hbreak, hnext⟩ | ⟨ch, rest, hc, hline, hletter⟩
  · rw [hend] at h
    cases h
    exact absurd rfl hr
  · rw [hnext] at h
    cases h
    obtain ⟨text, -, hreads, halike⟩ := Cursor.reads_lineBreak hbreak
    refine ⟨text, 1, hreads, fun c' rest' hrest hc' => ?_⟩
    obtain ⟨d', hd', hrd⟩ := halike hrest hc'
    exact ⟨d', escaped_of_lineBreak hd', hrd⟩
  · exact (localAt_afterLetter ch).char hc
      (fun hc => escaped_of_letter hc hline) h

-- ========================================================= strings

/-- A string that is closed is read up to its closing quote. There are
enough steps if there is one for each character of the text. -/
theorem quotedChars_ok {quote : Char} {n : Nat} {chars : List Char}
    (h : quotedChars quote n c = .ok (some chars) d) :
    ∃ text lines, c.Reads text lines d ∧ ∀ m, text.length ≤ m →
      (quotedChars quote m).AlikeAt (some chars) text lines d.rest := by
  induction n generalizing c chars with
  | zero => cases h
  | succ n ih =>
      have hmore {c : Cursor} {chars : List Char} (ch : Char)
          (h : andMore quote ch n c = .ok (some chars) d) :
          ∃ text lines, c.Reads text lines d ∧ ∀ m, text.length ≤ m →
            (andMore quote ch m).AlikeAt (some chars) text lines
              d.rest := by
        obtain ⟨more, e, hmore, hp⟩ := bind_ok.1 h
        obtain ⟨hchars, rfl⟩ := pure_ok.1 hp
        obtain ⟨chars', rfl, -⟩ := Option.map_eq_some_iff.1 hchars.symm
        obtain ⟨text, lines, hr, halike⟩ := ih hmore
        rw [hchars]
        exact ⟨text, lines, hr, fun m hm => (halike m hm).bindPure⟩
      -- It is enough to look at what comes after the first character.
      have hfirst {ch : Char} {rest : List Char}
          {p : Nat → Scan (Option (List Char))} (hc : c.rest = ch :: rest)
          (hsame : ∀ {c : Cursor} {rest : List Char} (m : Nat),
            c.rest = ch :: rest →
              quotedChars quote (m + 1) c = p m c.advance)
          (hafter : ∃ text lines, c.advance.Reads text lines d ∧
            ∀ m, text.length ≤ m →
              (p m).AlikeAt (some chars) text lines d.rest) :
          ∃ text lines, c.Reads text lines d ∧ ∀ m, text.length ≤ m →
            (quotedChars quote m).AlikeAt (some chars) text lines
              d.rest := by
        obtain ⟨text, lines, hr, halike⟩ := hafter
        refine ⟨[ch] ++ text, 0 + lines,
          (Cursor.reads_advance hc).trans hr, fun m hm => ?_⟩
        rw [List.length_append, List.length_singleton] at hm
        obtain ⟨m, rfl⟩ : ∃ k, m = k + 1 := ⟨m - 1, by omega⟩
        exact (halike m (by omega)).char (hsame m)
      cases stringNext quote c with
      | ends _ hsame | lineBreak _ _ hsame =>
          rw [hsame] at h
          cases h
      | quote hc hsame =>
          rw [hsame] at h
          obtain ⟨text, lines, hr, halike⟩ := Scan.localAt_pure (some []) h
          exact hfirst hc (fun _ => quotedChars_of_quote)
            ⟨text, lines, hr, fun _ _ => halike⟩
      | escape hc hquote hsame =>
          rw [hsame] at h
          obtain ⟨r, e, hescaped, h⟩ := bind_ok.1 h
          -- Whatever comes of the escape, more characters follow it.
          obtain ⟨text, lines, hr, halike⟩ : ∃ text lines,
              e.Reads text lines d ∧ ∀ m, text.length ≤ m →
                (afterEscape quote m r).AlikeAt (some chars) text lines
                  d.rest := by
            cases r with
            | endOfText => cases (pure_ok.1 h).1
            | lineBreak => exact ih h
            | char ch => exact hmore ch h
          have hends : r ≠ .endOfText := by
            rintro rfl
            cases (pure_ok.1 h).1
          obtain ⟨text', lines', hr', halike'⟩ := escaped_ok hescaped hends
          rw [hr.rest] at halike'
          refine hfirst hc (fun _ => quotedChars_of_escape hquote)
            ⟨text' ++ text, lines' + lines, hr'.trans hr, fun m hm => ?_⟩
          rw [List.length_append] at hm
          exact halike'.bind (halike m (by omega))
      | plain hc hquote hch hline hsame =>
          rw [hsame] at h
          exact hfirst hc (fun _ => quotedChars_of_plain hquote hch hline)
            (hmore _ h)

/-- A string is read with its quotes. -/
theorem quotedToken_ok {quote : Char} {rest : List Char} {t : Token}
    (hquote : quote = '\'' ∨ quote = '"') (hc : c.rest = quote :: rest)
    (h : quotedToken quote c = .ok t d) :
    ∃ chars text lines, text ≠ [] ∧ t.kind = .string ∧
      t.value = .text (.ofList chars) ∧
      (quotedToken quote).TokenAt c t d text lines := by
  have hfirst := Cursor.reads_advance hc
  obtain ⟨chars, hchars, rfl⟩ := (quotedToken_eq_ok hquote hc).1 h
  obtain ⟨text, lines, hr, halike⟩ := quotedChars_ok hchars
  refine ⟨chars, [quote] ++ text, 0 + lines, List.cons_ne_nil _ _, rfl,
    rfl, .of_tokenTo (hfirst.trans hr) fun c' rest' hrest hc' => ?_⟩
  have hlen : text.length ≤ c'.rest.length := by
    rw [hc', List.length_append, List.length_append]
    omega
  obtain ⟨d', hd', hrd⟩ := halike _ hlen hrest (Cursor.advance_rest hc')
  exact ⟨d', (quotedToken_eq_ok hquote hc').2 ⟨chars, hd', rfl⟩,
    (Cursor.reads_advance hc').trans hrd⟩

end ScriptTree
