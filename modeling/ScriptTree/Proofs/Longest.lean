/-
What a regular expression takes at the front of a text, part by part.

# Never back

A scan that never goes back takes as much as it can for each part in
turn. This is the longest text of the whole expression where no part may
stop early: if a text of the part ends where the next part, or what comes
after that, could start, then it is all that was taken (`Takes.only`).
So a part is taken with a class of characters that may follow it
(`Takes`), and parts are put together where they start with such
characters (`Takes.append`).
-/
import Mathlib.Data.List.TakeWhile
import ScriptTree.Token.NumeralGrammar

namespace ScriptTree

open NumeralGrammar

variable {e e' : RegularExpression Char} {follow follow' : Char → Prop}
  {front front' rest text other : List Char} {ch : Char}

-- ====================================================== the judgment

/-- The front of a text is all that an expression takes of it, and it is
the only part of the text that it takes in front of a character which may
follow. -/
structure Takes (e : RegularExpression Char) (follow : Char → Prop)
    (front rest : List Char) : Prop where
  mem : front ∈ e.matches'
  longest : ∀ other ∈ e.matches', other <+: front ++ rest →
    other.length ≤ front.length
  only : ∀ other ∈ e.matches', ∀ ch after,
    front ++ rest = other ++ ch :: after → follow ch → other = front

/-- No text of an expression stands in front. -/
def TakesNone (e : RegularExpression Char) (text : List Char) : Prop :=
  ∀ other ∈ e.matches', ¬other <+: text

-- ============================================================= marks

theorem mem_oneOf {chars : String} :
    other ∈ (oneOf chars).matches' ↔ ∃ ch ∈ chars.toList, other = [ch] := by
  unfold oneOf
  induction chars.toList with
  | nil => simp [RegularExpression.matches'_zero, Language.notMem_zero]
  | cons first chars ih =>
      rw [List.map_cons, List.sum_cons, RegularExpression.matches'_add,
        Language.mem_add, ih, RegularExpression.matches'_char]
      simp only [List.mem_cons, exists_eq_or_imp]
      rfl

/-- A character in front is taken whatever follows. -/
theorem takes_oneOf {chars : String} (h : ch ∈ chars.toList)
    (follow : Char → Prop) (rest : List Char) :
    Takes (oneOf chars) follow [ch] rest where
  mem := mem_oneOf.2 ⟨ch, h, rfl⟩
  longest other hother _ := by
    obtain ⟨first, -, rfl⟩ := mem_oneOf.1 hother
    exact Nat.le_refl 1
  only other hother ch' after htext _ := by
    obtain ⟨first, -, rfl⟩ := mem_oneOf.1 hother
    exact congrArg (fun text => text.take 1) htext.symm

theorem takesNone_oneOf {chars : String}
    (h : ∀ ch ∈ rest.head?, ch ∉ chars.toList) :
    TakesNone (oneOf chars) rest := by
  rintro other hother ⟨after, rfl⟩
  obtain ⟨first, hin, rfl⟩ := mem_oneOf.1 hother
  exact h first rfl hin

-- ============================================================== runs

theorem mem_star_oneOf {chars : String} :
    other ∈ (oneOf chars).star.matches' ↔
      ∀ ch ∈ other, ch ∈ chars.toList := by
  rw [RegularExpression.matches'_star, Language.mem_kstar]
  constructor
  · rintro ⟨parts, rfl, hparts⟩ ch hin
    obtain ⟨part, hpart, hin⟩ := List.mem_flatten.1 hin
    obtain ⟨first, hfirst, rfl⟩ := mem_oneOf.1 (hparts part hpart)
    rwa [List.mem_singleton.1 hin]
  · intro hall
    refine ⟨other.map fun ch => [ch], ?_, ?_⟩
    · rw [← List.flatMap_def, List.flatMap_singleton']
    · intro part hpart
      obtain ⟨ch, hin, rfl⟩ := List.mem_map.1 hpart
      exact mem_oneOf.2 ⟨ch, hall ch hin, rfl⟩

theorem mem_oneOrMore_oneOf {chars : String} :
    other ∈ (oneOrMore (oneOf chars)).matches' ↔
      other ≠ [] ∧ ∀ ch ∈ other, ch ∈ chars.toList := by
  unfold oneOrMore
  rw [RegularExpression.matches'_mul, Language.mem_mul]
  constructor
  · rintro ⟨first, hfirst, later, hlater, rfl⟩
    obtain ⟨ch, hch, rfl⟩ := mem_oneOf.1 hfirst
    refine ⟨List.cons_ne_nil _ _, fun ch' hin => ?_⟩
    rcases List.mem_cons.1 hin with rfl | hin
    · exact hch
    · exact mem_star_oneOf.1 hlater ch' hin
  · rintro ⟨hne, hall⟩
    obtain ⟨ch, later, rfl⟩ := List.exists_cons_of_ne_nil hne
    rw [List.forall_mem_cons] at hall
    exact ⟨[ch], mem_oneOf.2 ⟨ch, hall.1, rfl⟩, later,
      mem_star_oneOf.2 hall.2, rfl⟩

section Runs

variable {p : Char → Bool} {chars : String}

/-- The run of a class of characters is taken, by what is made of such
characters and has the run, where no character of the class follows. -/
theorem takes_run (hmem : text.takeWhile p ∈ e.matches')
    (hclass : ∀ other ∈ e.matches', ∀ ch ∈ other, p ch = true)
    (hfollow : ∀ ch, follow ch → p ch = false) :
    Takes e follow (text.takeWhile p) (text.dropWhile p) where
  mem := hmem
  longest other hother hstart := by
    rw [List.takeWhile_append_dropWhile] at hstart
    obtain ⟨after, rfl⟩ := hstart
    rw [List.takeWhile_append_of_pos (hclass other hother),
      List.length_append]
    exact Nat.le_add_right _ _
  only other hother ch after htext hch := by
    rw [List.takeWhile_append_dropWhile] at htext
    rw [htext, List.takeWhile_append_of_pos (hclass other hother),
      List.takeWhile_cons_of_neg (by rw [hfollow ch hch]; simp),
      List.append_nil]

theorem takes_star (hclass : ∀ ch, p ch = true ↔ ch ∈ chars.toList)
    (hfollow : ∀ ch, follow ch → p ch = false) (text : List Char) :
    Takes (oneOf chars).star follow (text.takeWhile p)
      (text.dropWhile p) := by
  refine takes_run ?_ ?_ hfollow
  · exact mem_star_oneOf.2 fun ch hin =>
      (hclass ch).1 (List.mem_takeWhile_imp hin)
  · intro other hother ch hin
    exact (hclass ch).2 (mem_star_oneOf.1 hother ch hin)

theorem takes_oneOrMore (hclass : ∀ ch, p ch = true ↔ ch ∈ chars.toList)
    (hfollow : ∀ ch, follow ch → p ch = false)
    (hne : text.takeWhile p ≠ []) :
    Takes (oneOrMore (oneOf chars)) follow (text.takeWhile p)
      (text.dropWhile p) := by
  refine takes_run ?_ ?_ hfollow
  · exact mem_oneOrMore_oneOf.2 ⟨hne, fun ch hin =>
      (hclass ch).1 (List.mem_takeWhile_imp hin)⟩
  · intro other hother ch hin
    exact (hclass ch).2 ((mem_oneOrMore_oneOf.1 hother).2 ch hin)

end Runs

-- ============================================================== parts

/-- All that the texts of an expression can start with. -/
def StartsIn (e : RegularExpression Char) (q : Char → Prop) : Prop :=
  ∀ other ∈ e.matches', ∀ ch ∈ other.head?, q ch

theorem startsIn_oneOf {chars : String} :
    StartsIn (oneOf chars) (· ∈ chars.toList) := by
  intro other hother ch hhead
  obtain ⟨first, hin, rfl⟩ := mem_oneOf.1 hother
  cases hhead
  exact hin

theorem startsIn_oneOf_mul {chars : String} :
    StartsIn (oneOf chars * e) (· ∈ chars.toList) := by
  intro other hother ch hhead
  rw [RegularExpression.matches'_mul, Language.mem_mul] at hother
  obtain ⟨first, hfirst, second, -, rfl⟩ := hother
  obtain ⟨ch', hin, rfl⟩ := mem_oneOf.1 hfirst
  cases hhead
  exact hin

theorem StartsIn.possible {q : Char → Prop} (h : StartsIn e q) :
    StartsIn (possibly e) q := by
  intro other hother ch hhead
  rcases hother with hnil | hother
  · rw [(Language.mem_one other).1 hnil] at hhead
    cases hhead
  · exact h other hother ch hhead

/-- One after the other, where the second starts with characters that may
follow the first. -/
theorem Takes.append (h : Takes e follow front (front' ++ rest))
    (h' : Takes e' follow' front' rest) (hstarts : StartsIn e' follow)
    (hfollow : ∀ ch, follow' ch → follow ch) :
    Takes (e * e') follow' (front ++ front') rest where
  mem := by
    rw [RegularExpression.matches'_mul, Language.mem_mul]
    exact ⟨front, h.mem, front', h'.mem, rfl⟩
  longest other hother hstart := by
    rw [RegularExpression.matches'_mul, Language.mem_mul] at hother
    obtain ⟨first, hfirst, second, hsecond, rfl⟩ := hother
    rw [List.append_assoc] at hstart
    rw [List.length_append, List.length_append]
    cases second with
    | nil =>
        rw [List.append_nil] at hstart
        have hle := h.longest first hfirst hstart
        rw [List.length_nil]
        omega
    | cons ch second =>
        obtain ⟨after, hafter⟩ := hstart
        rw [List.append_assoc] at hafter
        obtain rfl := h.only first hfirst ch (second ++ after)
          hafter.symm (hstarts _ hsecond ch rfl)
        have hle := h'.longest _ hsecond
          ⟨after, List.append_cancel_left hafter⟩
        omega
  only other hother ch after htext hch := by
    rw [RegularExpression.matches'_mul, Language.mem_mul] at hother
    obtain ⟨first, hfirst, second, hsecond, rfl⟩ := hother
    rw [List.append_assoc, List.append_assoc] at htext
    have hfront : first = front := by
      cases second with
      | nil => exact h.only first hfirst ch after htext (hfollow ch hch)
      | cons ch' second =>
          exact h.only first hfirst ch' (second ++ ch :: after) htext
            (hstarts _ hsecond ch' rfl)
    subst hfront
    rw [h'.only second hsecond ch after
      (List.append_cancel_left htext) hch]

-- ======================================================= alternatives

theorem takes_one (follow : Char → Prop) (rest : List Char) :
    Takes 1 follow [] rest where
  mem := rfl
  longest other hother _ := by
    rw [(Language.mem_one other).1 hother]
  only other hother _ _ _ _ := (Language.mem_one other).1 hother

theorem Takes.of_matches_eq (h : Takes e follow front rest)
    (hsame : e'.matches' = e.matches') : Takes e' follow front rest where
  mem := hsame ▸ h.mem
  longest := hsame ▸ h.longest
  only := hsame ▸ h.only

/-- What takes nothing here is no alternative. -/
theorem Takes.add_right (h : Takes e follow front rest)
    (h' : TakesNone e' (front ++ rest)) :
    Takes (e + e') follow front rest where
  mem := .inl h.mem
  longest other hother hstart := by
    rcases hother with hother | hother
    · exact h.longest other hother hstart
    · exact absurd hstart (h' other hother)
  only other hother ch after htext hch := by
    rcases hother with hother | hother
    · exact h.only other hother ch after htext hch
    · exact absurd ⟨ch :: after, htext.symm⟩ (h' other hother)

theorem Takes.add_left (h : Takes e follow front rest)
    (h' : TakesNone e' (front ++ rest)) :
    Takes (e' + e) follow front rest :=
  (h.add_right h').of_matches_eq (add_comm e'.matches' e.matches')

/-- What is possible is taken where it is there, if it starts with nothing
that may follow it. -/
theorem Takes.possible (h : Takes e follow front rest)
    (hne : front ≠ []) (hstarts : StartsIn e fun ch => ¬follow ch) :
    Takes (possibly e) follow front rest where
  mem := .inr h.mem
  longest other hother hstart := by
    rcases hother with hnil | hother
    · rw [(Language.mem_one other).1 hnil]
      exact Nat.zero_le _
    · exact h.longest other hother hstart
  only other hother ch after htext hch := by
    rcases hother with hnil | hother
    · obtain rfl := (Language.mem_one other).1 hnil
      obtain ⟨first, later, rfl⟩ := List.exists_cons_of_ne_nil hne
      cases htext
      exact absurd hch (hstarts _ h.mem _ rfl)
    · exact h.only other hother ch after htext hch

-- ============================================================ nothing

theorem TakesNone.mul (h : TakesNone e text) : TakesNone (e * e') text := by
  rintro other hother ⟨after, rfl⟩
  rw [RegularExpression.matches'_mul, Language.mem_mul] at hother
  obtain ⟨first, hfirst, second, -, rfl⟩ := hother
  rw [List.append_assoc] at h
  exact h first hfirst (List.prefix_append _ _)

/-- Nothing is taken if the second part is not there after what the first
one takes. -/
theorem Takes.mul_none (h : Takes e follow front rest)
    (h' : TakesNone e' rest) (hstarts : StartsIn e' follow) :
    TakesNone (e * e') (front ++ rest) := by
  rintro other hother ⟨after, htext⟩
  rw [RegularExpression.matches'_mul, Language.mem_mul] at hother
  obtain ⟨first, hfirst, second, hsecond, rfl⟩ := hother
  rw [List.append_assoc] at htext
  cases second with
  | nil => exact h' [] hsecond (List.nil_prefix)
  | cons ch second =>
      obtain rfl := h.only first hfirst ch (second ++ after) htext.symm
        (hstarts _ hsecond ch rfl)
      exact h' _ hsecond ⟨after, List.append_cancel_left htext⟩

-- ============================================================== heads

section Heads

variable {chars : String}

/-- After a mark anything may start. -/
theorem Takes.oneOf_mul (h : Takes e follow front rest)
    (hch : ch ∈ chars.toList) :
    Takes (oneOf chars * e) follow (ch :: front) rest :=
  (takes_oneOf hch (fun _ => True) _).append h (fun _ _ _ _ => trivial)
    fun _ _ => trivial

theorem TakesNone.oneOf_mul (h : TakesNone e rest)
    (hch : ch ∈ chars.toList) :
    TakesNone (oneOf chars * e) (ch :: rest) :=
  (takes_oneOf hch (fun _ => True) _).mul_none h fun _ _ _ _ => trivial

/-- Nothing is taken where the mark is not there. -/
theorem takesNone_oneOf_mul
    (h : ∀ ch ∈ rest.head?, ch ∉ chars.toList) :
    TakesNone (oneOf chars * e) rest :=
  (takesNone_oneOf h).mul

end Heads

end ScriptTree
