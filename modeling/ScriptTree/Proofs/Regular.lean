/-
Every part of every tree obeys the data model.

What the data model asks of a part follows from where the part was made
(`Guard.Made.regular`). Only names need more: a name was spelled by an
identifier of the text, in escapes or not, and the kind of a word is
decided by the word it comes to. So no identifier is named by a reserved
word, also where a tolerant parse goes on after one in escapes.
-/
import ScriptTree.Proofs.Guard.Script
import ScriptTree.Tree.Json
import ScriptTree.Source.NameRanges

namespace ScriptTree

variable {text : List Char} {π : Type} {place : Span → π}

/-- A token that is read has the form of one. -/
theorem Token.Lexed.formed [NameProperties]
    {t : Token} (h : t.Lexed) : t.Formed := by
  obtain ⟨c, d, hne, htoken⟩ := h
  obtain ⟨ch, rest, hrest⟩ := List.exists_cons_of_ne_nil hne
  obtain ⟨-, -, -, hformed, -, -⟩ := token_ok hrest htoken
  exact hformed

/-- The kind of a word is decided by what it comes to. -/
theorem Token.Formed.wordKind_shown {t : Token} (h : t.Formed)
    (hkind : t.kind = .identifier) : wordKind t.shown = .identifier := by
  cases h with
  | word chars text _ hword hvalue _ =>
      rw [Token.shown, hvalue, ← hword, hkind]
  | string _ hother | numeral _ hother | punctuator _ _ hother =>
      rw [hother] at hkind
      cases hkind

namespace Guard

/-- A name that an identifier of the text spells is no word. -/
theorem Named.wordKind_eq [NameProperties] {name : String}
    (h : (ofTokens text).Named name) : wordKind name = .identifier := by
  obtain ⟨t, ht, hkind, rfl⟩ := h
  have hin := ht.mem (by simp [Token.isEnd, hkind])
  exact (TokenStream.lexed_ofText text t hin).formed.wordKind_shown hkind

theorem Named.ne_let [NameProperties]
    {name : String} (h : (ofTokens text).Named name) : name ≠ "let" := by
  rintro rfl
  exact absurd h.wordKind_eq (by decide)

/-- What is made of tokens of a text obeys the data model. -/
theorem Made.regular [NameProperties] {part : Part π}
    (h : (ofTokens text).Made place part) : part.Regular := by
  cases part with
  | name id =>
      rcases h with h | h
      · left
        rw [h.wordKind_eq]
        rfl
      · exact .inr h
  | expression e =>
      cases e with
      | sequence items _ => exact h
      | unary _ _ before _ => exact h
      | _ => trivial
  | function fn => exact fun id hid => (h id hid).ne_let
  | parameter p => exact h.ne_let
  | declaration decl =>
      obtain ⟨kind, declarators, _⟩ := decl
      refine ⟨h.1, fun d hd => ⟨(h.2 d hd).1, fun hkind => ?_⟩⟩
      exact ((h.2 d hd).2 hkind).ne_let
  | statement s =>
      cases s with
      | function fn => exact h
      | _ => trivial

end Guard

/-- Every part of the tree that is reported for a text, at any depth and
whatever was tolerated, obeys the data model; and where a unary expression
is shown, its operator is shown to stand before the operand. -/
theorem regular_of_parse [NameProperties]
    (options : Options) (text : List Char)
    (report : Report) (h : parse options text = .ok report) :
    (∀ part ∈ report.script.parts, part.Regular) ∧
      ∀ operator argument before place,
        .expression (.unary operator argument before place)
          ∈ report.script.parts →
        ∃ members, (Expression.unary operator argument before place).toJson
          = .object members ∧ ("prefix", .bool true) ∈ members := by
  have hregular : ∀ part ∈ report.script.parts, part.Regular :=
    fun part hpart => (made_of_parse h part hpart).regular
  refine ⟨hregular, fun operator argument before place hunary => ?_⟩
  obtain rfl : before = true := hregular _ hunary
  refine ⟨_, by rw [Expression.toJson, Location.node], ?_⟩
  simp

/-- A constant named by `var`, `let` as a variable, a sequence, and a
label and a truth value in escapes. -/
theorem regular_of_parse_escaped :
    let text := "const var = (!a, tru\\u0065)\nvar let\nl\\u0065t : b".toList
    ∃ report, parse { tolerant := true } text = .ok report ∧
      (∀ part ∈ report.script.parts, part.Regular) ∧
      report.script.parts.length = 16 := by
  intro text
  have hshown : (parse { tolerant := true } text).toOption.map
      (·.script.parts.length) = some 16 := by
    decide +kernel
  obtain ⟨report, h, hlength⟩ := exists_report hshown
  exact ⟨report, h, (regular_of_parse _ text report h).1, hlength⟩

end ScriptTree
