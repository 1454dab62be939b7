/-
Names are read to what could stand there itself.

# Escapes fit

What an escape in a name stands for has to fit where the escape is, and
is no backslash. So the characters that a name comes to are a name
without escapes (`nameChars_names`).

# Reading at a go

A name without escapes is the longest run of characters that may continue
a name, whatever its first place asks for (`nameChars_eq_takeWhile`). A
reader may take such a run at a go and look at its characters one by one
only where it comes to a backslash.
-/
import ScriptTree.Proofs.Scanning.Walk
import ScriptTree.Proofs.Scanning.Word
import ScriptTree.Token.Next
import Mathlib.Data.List.TakeWhile

namespace ScriptTree

variable {c d : Cursor} {n : Nat} {isFirst : Bool} {chars : List Char}

-- ======================================================== characters

/-- What fits a name is part of one. -/
theorem isNamePart_of_fitsName [NameProperties] {ch : Char}
    (h : fitsName isFirst ch = true) : isNamePart ch = true := by
  cases isFirst with
  | false => exact h
  | true => exact isNamePart_of_isNameStart h

/-- Whether characters are those of a name, or of the rest of one, that
stands in the text without escapes. -/
def NamesPlainly [NameProperties] (isFirst : Bool) : List Char → Prop
  | [] => True
  | ch :: chars =>
    ch ≠ '\\' ∧ fitsName isFirst ch = true ∧ NamesPlainly false chars

theorem NamesPlainly.forall_mem [NameProperties]
    (h : NamesPlainly isFirst chars) :
    ∀ ch ∈ chars, ch ≠ '\\' ∧ isNamePart ch = true := by
  induction chars generalizing isFirst with
  | nil => simp
  | cons first chars ih =>
      obtain ⟨hslash, hfits, hlater⟩ := h
      intro ch hin
      rcases List.mem_cons.1 hin with rfl | hin
      · exact ⟨hslash, isNamePart_of_fitsName hfits⟩
      · exact ih hlater ch hin

/-- A word of ASCII letters is a name without escapes. -/
theorem namesPlainly_of_isAlpha [NameProperties]
    (h : ∀ ch ∈ chars, ch.isAlpha = true) : NamesPlainly isFirst chars := by
  induction chars generalizing isFirst with
  | nil => trivial
  | cons ch chars ih =>
      have hstart := isNameStart_of_isAlpha (h ch List.mem_cons_self)
      refine ⟨?_, ?_, ih fun ch hin => h ch (List.mem_cons_of_mem _ hin)⟩
      · rintro rfl
        cases h '\\' List.mem_cons_self
      · cases isFirst with
        | false => exact isNamePart_of_isNameStart hstart
        | true => exact hstart

-- ============================================================= names

/-- What a name comes to is a name without escapes. -/
theorem nameChars_names [NameProperties]
    (h : nameChars n isFirst c = .ok chars d) :
    NamesPlainly isFirst chars := by
  induction n generalizing isFirst c d chars with
  | zero =>
      obtain ⟨rfl, -⟩ := pure_ok.1 h
      trivial
  | succ n ih =>
      cases nameNext isFirst c with
      | ends _ hsame =>
          rw [hsame] at h
          cases h
          trivial
      | escape _ hsame =>
          rw [hsame] at h
          obtain ⟨ch, e, -, h⟩ := bind_ok.1 h
          split at h
          case isFalse => cases h
          case isTrue hfits =>
            obtain ⟨later, e', hlater, hp⟩ := bind_ok.1 h
            obtain ⟨rfl, -⟩ := pure_ok.1 hp
            rw [Bool.and_eq_true, decide_eq_true_eq] at hfits
            exact ⟨hfits.1, hfits.2, ih hlater⟩
      | plain _ hch hfits hsame =>
          rw [hsame] at h
          obtain ⟨later, e, hlater, hp⟩ := bind_ok.1 h
          obtain ⟨rfl, -⟩ := pure_ok.1 hp
          exact ⟨hch, hfits, ih hlater⟩

/-- A name may be read at a go where there is no backslash in the run of
characters that continue one, if the first of them may be there. -/
theorem nameChars_eq_takeWhile [NameProperties] (hn : c.rest.length ≤ n)
    (hfirst : ∀ ch ∈ c.rest.head?, fitsName isFirst ch = isNamePart ch)
    (hplain : '\\' ∉ c.rest.takeWhile isNamePart) :
    nameChars n isFirst c
      = .ok (c.rest.takeWhile isNamePart) (c.skipWhile isNamePart) := by
  induction n generalizing isFirst c with
  | zero =>
      have hrest := List.length_eq_zero_iff.1 (Nat.le_zero.1 hn)
      rw [hrest, Cursor.skipWhile_nil hrest]
      rfl
  | succ n ih =>
      cases hrest : c.rest with
      | nil =>
          rw [Cursor.skipWhile_nil hrest, nameChars_of_nil hrest]
          rfl
      | cons ch rest =>
          rw [hrest] at hn hfirst hplain
          have hch : ch ≠ '\\' := by
            rintro rfl
            apply hplain
            rw [List.takeWhile_cons_of_pos isNamePart_backslash]
            exact List.mem_cons_self
          have hfits : fitsName isFirst ch = isNamePart ch :=
            hfirst ch rfl
          rw [nameChars_of_plain hrest hch, Cursor.skipWhile_cons hrest,
            hfits]
          by_cases hpart : isNamePart ch = true
          · have hnext := Cursor.advance_rest hrest
            rw [List.takeWhile_cons_of_pos hpart, List.mem_cons,
              not_or] at hplain
            have hlater := @ih c.advance false
              (by rw [hnext]; exact Nat.le_of_succ_le_succ hn)
              (fun _ _ => rfl) (by rw [hnext]; exact hplain.2)
            rw [if_pos hpart, if_pos hpart,
              List.takeWhile_cons_of_pos hpart]
            rw [hnext] at hlater
            exact bind_ok.2 ⟨_, _, hlater, rfl⟩
          · rw [if_neg hpart, if_neg hpart,
              List.takeWhile_cons_of_neg hpart]

/-- A word is what it is for the name that it comes to. -/
theorem nameToken_names [NameProperties]
    {t : Token} {ch : Char} {rest : List Char}
    (hc : c.rest = ch :: rest) (hch : isNameStart ch = true)
    (h : nameToken c = .ok t d) :
    ∃ chars, chars ≠ [] ∧ NamesPlainly true chars ∧
      t.kind = wordKind (.ofList chars) ∧
      t.value = .text (.ofList chars) := by
  obtain ⟨chars, hchars, rfl⟩ := (nameToken_eq_ok hc hch).1 h
  rw [hc, List.length_cons] at hchars
  exact ⟨chars, nameChars_ne_nil hc hch hchars, nameChars_names hchars,
    rfl, rfl⟩

/-- A name without escapes is read to the end where nothing follows. -/
theorem NamesPlainly.token_eq [NameProperties] (h : NamesPlainly true c.rest)
    (hne : c.rest ≠ []) :
    ∃ stop, c.Reads c.rest 0 stop ∧
      Cursor.token c = .ok ⟨wordKind (.ofList c.rest),
        .text (.ofList c.rest), .ofList c.rest,
        ⟨c.position, stop.position⟩⟩ stop := by
  have hall := h.forall_mem
  have hrun : c.rest.takeWhile isNamePart = c.rest :=
    List.takeWhile_eq_self_iff.2 fun ch hin => (hall ch hin).2
  obtain ⟨first, later, hrest⟩ := List.exists_cons_of_ne_nil hne
  have hfits : fitsName true first = true := by
    rw [hrest] at h
    exact h.2.1
  have hfirst : ∀ ch ∈ c.rest.head?,
      fitsName true ch = isNamePart ch := by
    intro ch hhead
    rw [hrest] at hhead
    cases hhead
    exact hfits.trans (isNamePart_of_fitsName hfits).symm
  have hplain : '\\' ∉ c.rest.takeWhile isNamePart := by
    rw [hrun]
    exact fun hin => (hall _ hin).1 rfl
  have hread := nameChars_eq_takeWhile (Nat.le_refl _) hfirst hplain
  have hreads := Cursor.reads_skipWhile isNamePart c
  rw [hrun] at hread hreads
  refine ⟨_, hreads, ?_⟩
  rw [Cursor.token_of_nameStart hrest hfits, ← hreads.tokenTo_eq]
  exact (nameToken_eq_ok hrest hfits).2 ⟨_, hread, rfl⟩

end ScriptTree
