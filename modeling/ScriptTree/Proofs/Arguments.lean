/-
Which flags a command line puts into effect.

# Options come all at once

Options from JSON text take the place of all options so far, those that
were asked for by flags included. So a flag is in effect if it stands
behind the last JSON text, or if that text asks for it; the list of tokens
is no matter of options and is kept (`flags_of_arguments`).

What a JSON text asks for is up to the reader of options, of which no more
is known than that an empty object asks for nothing
(`isOn_before_empty`).
-/
import ScriptTree.CommandLine.Argument

namespace ScriptTree

variable {c c' : Command} {arguments : List Argument} {argument : Argument}
  {words : List String} {flag : CommandFlag} {program : String}

-- ============================================================== flags

namespace CommandFlag

/-- The command with the flag. -/
def turnOn (flag : CommandFlag) (c : Command) : Command :=
  match flag with
  | tolerant => { c with options.tolerant := true }
  | range => { c with options.range := true }
  | loc => { c with options.loc := true }
  | tokens => { c with options.tokens := true }
  | comment => { c with options.comment := true }
  | tokenize => { c with listsTokens := true }

theorem isOn_turnOn (flag other : CommandFlag) (c : Command) :
    flag.isOn (other.turnOn c) = true ↔
      flag = other ∨ flag.isOn c = true := by
  cases flag <;> cases other <;> simp [isOn, isIn, turnOn]

/-- A word is taken for a flag if it is one. -/
theorem withFlag?_eq_some {text : String} :
    c.withFlag? text = some c' ↔
      ∃ flag : CommandFlag, text = flag.text ∧ c' = flag.turnOn c := by
  constructor
  · intro h
    unfold Command.withFlag? at h
    split at h
    case h_1 => exact ⟨.tolerant, rfl, (Option.some.inj h).symm⟩
    case h_2 => exact ⟨.range, rfl, (Option.some.inj h).symm⟩
    case h_3 => exact ⟨.loc, rfl, (Option.some.inj h).symm⟩
    case h_4 => exact ⟨.tokens, rfl, (Option.some.inj h).symm⟩
    case h_5 => exact ⟨.comment, rfl, (Option.some.inj h).symm⟩
    case h_6 => exact ⟨.tokenize, rfl, (Option.some.inj h).symm⟩
    case h_7 => cases h
  · rintro ⟨flag, rfl, rfl⟩
    cases flag <;> rfl

theorem text_inj {other : CommandFlag} :
    flag.text = other.text ↔ flag = other := by
  cases flag <;> cases other <;> decide

-- ====================================================== one argument

theorem withoutJson_word {text : String} :
    WithoutJson (.word text :: arguments) ↔ WithoutJson arguments := by
  simp [WithoutJson]

theorem not_withoutJson_options {json : String} :
    ¬WithoutJson (.options json :: arguments) :=
  fun h => h json List.mem_cons_self

theorem isGiven_options {json : String} :
    flag.IsGiven (.options json :: arguments) ↔ flag.IsGiven arguments := by
  simp [IsGiven, List.suffix_cons_iff]

theorem isGiven_word {text : String} :
    flag.IsGiven (.word text :: arguments) ↔
      text = flag.text ∧ (flag = .tokenize ∨ WithoutJson arguments) ∨
        flag.IsGiven arguments := by
  unfold IsGiven
  simp only [List.suffix_cons_iff]
  constructor
  · rintro ⟨after, hhead | hlater, h⟩
    · cases hhead
      exact .inl ⟨rfl, h⟩
    · exact .inr ⟨after, hlater, h⟩
  · rintro (⟨rfl, h⟩ | ⟨after, hlater, h⟩)
    · exact ⟨arguments, .inl rfl, h⟩
    · exact ⟨after, .inr hlater, h⟩

variable [OptionsReader]

theorem isRead_options {json : String} {options : Options}
    (hjson : OptionsReader.read json.toList = .ok options) :
    flag.IsRead (.options json :: arguments) ↔
      WithoutJson arguments ∧ flag.isIn options = true ∨
        flag.IsRead arguments := by
  unfold IsRead
  simp only [List.suffix_cons_iff]
  constructor
  · rintro ⟨json', after, options', hhead | hlater, hlast, hread, hin⟩
    · cases hhead
      cases hjson.symm.trans hread
      exact .inl ⟨hlast, hin⟩
    · exact .inr ⟨json', after, options', hlater, hlast, hread, hin⟩
  · rintro (⟨hlast, hin⟩ | ⟨json', after, options', hlater, h⟩)
    · exact ⟨json, arguments, options, .inl rfl, hlast, hjson, hin⟩
    · exact ⟨json', after, options', .inr hlater, h⟩

theorem isRead_word {text : String} :
    flag.IsRead (.word text :: arguments) ↔ flag.IsRead arguments := by
  simp [IsRead, List.suffix_cons_iff]

/-- Whether the flag is in effect when some arguments are added to a
command. What was in effect before stays so, if there is no JSON text
among them or the flag is no matter of options. -/
def InEffect (flag : CommandFlag) (c : Command)
    (arguments : List Argument) : Prop :=
  flag.IsGiven arguments ∨ flag.IsRead arguments ∨
    flag.isOn c = true ∧ (flag = .tokenize ∨ WithoutJson arguments)

theorem inEffect_nil : flag.InEffect c [] ↔ flag.isOn c = true := by
  simp [InEffect, IsGiven, IsRead, WithoutJson]

theorem inEffect_flag {other : CommandFlag} :
    flag.InEffect c (.word other.text :: arguments) ↔
      flag.InEffect (other.turnOn c) arguments := by
  unfold InEffect
  rw [isGiven_word, isRead_word, withoutJson_word, isOn_turnOn, text_inj,
    @eq_comm _ other]
  grind

theorem inEffect_file {text : String}
    (htext : ∀ other : CommandFlag, text ≠ other.text) :
    flag.InEffect c (.word text :: arguments) ↔
      flag.InEffect { c with file := some text } arguments := by
  have hsame : flag.isOn { c with file := some text } = flag.isOn c := by
    cases flag <;> rfl
  unfold InEffect
  rw [isGiven_word, isRead_word, withoutJson_word, hsame]
  simp only [htext flag, false_and, false_or]

/-- A JSON text undoes what was in effect, the list of tokens apart. -/
theorem inEffect_options {json : String} {options : Options}
    (hjson : OptionsReader.read json.toList = .ok options) :
    flag.InEffect c (.options json :: arguments) ↔
      flag.InEffect { c with options } arguments := by
  unfold InEffect
  rw [isGiven_options, isRead_options hjson]
  by_cases htokenize : flag = .tokenize
  · subst htokenize
    simp [isOn, isIn]
  · have hread : flag.isOn { c with options } = flag.isIn options := by
      cases flag <;> first | rfl | exact absurd rfl htokenize
    have hgone := @not_withoutJson_options arguments json
    rw [hread]
    grind

end CommandFlag

-- ==================================================== command lines

open CommandFlag

/-- The name of the text is no matter of flags. -/
theorem isOn_named : flag.isOn c.named = flag.isOn c := by
  unfold Command.named
  split
  · cases flag <;> rfl
  · rfl

theorem ofWords_word {text : String} (h : text ≠ "--options") :
    Argument.ofWords (text :: words)
      = .word text :: Argument.ofWords words := by
  rw [Argument.ofWords]
  rintro json rest rfl
  exact absurd rfl h

/-- What is neither the last word nor in front of another is no word at
all. -/
theorem ne_options {text : String}
    (hend : text = "--options" → words = [] → False)
    (hmore : ∀ json rest, text = "--options" → words = json :: rest →
      False) : text ≠ "--options" := by
  intro htext
  cases words with
  | nil => exact hend htext rfl
  | cons json rest => exact hmore json rest htext rfl

theorem withOther_ok {text : String}
    (h : c.withOther program text = .ok c') :
    c' = { c with file := some text } := by
  unfold Command.withOther at h
  split at h
  case isTrue => cases h
  case isFalse =>
    split at h
    case isTrue => cases h
    case isFalse => exact (Except.ok.inj h).symm

section

variable [OptionsReader]

/-- Each argument does its part, from the first to the last. -/
theorem isOn_withArguments (h : c.withArguments program words = .ok c') :
    flag.isOn c' = true ↔ flag.InEffect c (Argument.ofWords words) := by
  fun_induction Command.withArguments c program words with
  | case1 c =>
      cases h
      exact inEffect_nil.symm
  | case2 c => cases h
  | case3 c json rest options hjson ih =>
      rw [ih h]
      exact (inEffect_options hjson).symm
  | case4 c json rest fault hjson => cases h
  | case5 c text rest hend hmore next hflag ih =>
      have htext := ne_options hend hmore
      obtain ⟨other, rfl, rfl⟩ := withFlag?_eq_some.1 hflag
      rw [ih h, ofWords_word htext]
      exact inEffect_flag.symm
  | case6 c text rest hend hmore hflag next hother ih =>
      have htext := ne_options hend hmore
      have hnone : ∀ other : CommandFlag, text ≠ other.text := by
        rintro other rfl
        rw [withFlag?_eq_some.2 ⟨other, rfl, rfl⟩] at hflag
        cases hflag
      obtain rfl := withOther_ok hother
      rw [ih h, ofWords_word htext]
      exact (inEffect_file hnone).symm
  | case7 c text rest hend hmore hflag failure hother => cases h

/-- A flag is in effect if and only if it stands among the arguments, with
no JSON text behind it or as the one for tokens, or the last JSON text
asks for it. -/
theorem flags_of_arguments
    (h : Command.ofArguments program words = .ok c) (flag : CommandFlag) :
    flag.isOn c = true ↔
      flag.IsGiven (Argument.ofWords words) ∨
        flag.IsRead (Argument.ofWords words) := by
  unfold Command.ofArguments at h
  cases hwords : Command.withArguments {} program words with
  | error failure =>
      rw [hwords] at h
      cases h
  | ok made =>
      rw [hwords] at h
      cases h
      have hnone : flag.isOn {} = false := by
        cases flag <;> rfl
      rw [isOn_named, isOn_withArguments hwords]
      unfold InEffect
      rw [hnone]
      simp

/-- A flag in front of an empty object is lost, whatever reads it. -/
theorem isOn_before_empty (flag : CommandFlag) (h : flag ≠ .tokenize) :
    ∃ c, Command.ofArguments program [flag.text, "--options", "\x7b\x7d"]
        = .ok c ∧ flag.isOn c = false := by
  have hread (c : Command) :
      c.withArguments program ["--options", "\x7b\x7d"]
        = .ok { c with options := {} } := by
    have hempty := OptionsReader.read_empty
    simp only [Command.withArguments]
    rw [hempty]
  have hmade : Command.withArguments {} program
      [flag.text, "--options", "\x7b\x7d"]
        = .ok { flag.turnOn {} with options := {} } := by
    cases flag <;> exact hread _
  refine ⟨_, congrArg (Except.map Command.named) hmade, ?_⟩
  rw [isOn_named]
  cases flag <;> first | rfl | exact absurd rfl h

end

/-- A flag in front of a JSON text is lost, the one for tokens is not, and
a flag behind the text adds to what it asks for. -/
theorem flags_of_arguments_mixed :
    let words := ["--loc", "--tokenize", "--options",
      "\x7b\"range\":true\x7d", "--comment", "a.rb"]
    ∃ c, Command.ofArguments programName words = .ok c ∧
      (∀ flag : CommandFlag, flag.isOn c = true ↔
        flag ∈ [.range, .comment, .tokenize]) ∧
      ∀ flag : CommandFlag, flag.IsGiven (Argument.ofWords words) ∨
        flag.IsRead (Argument.ofWords words) ↔
          flag ∈ [.range, .comment, .tokenize] := by
  intro words
  have hshown : (Command.ofArguments programName words).toOption.map id = some
      ⟨{ range := true, comment := true }, true, some "a.rb"⟩ := by
    decide +kernel
  obtain ⟨c, hread, hc⟩ := exists_ok hshown
  have hon : ∀ flag : CommandFlag, flag.isOn c = true ↔
      flag ∈ [.range, .comment, .tokenize] := by
    intro flag
    rw [show c = _ from hc]
    cases flag <;> decide
  exact ⟨_, hread, hon,
    fun flag => (flags_of_arguments hread flag).symm.trans (hon flag)⟩

/-- A flag in front of a JSON text is lost, even if that asks for
nothing. -/
theorem flag_before_options_lost :
    let words := ["--tolerant", "--options", "\x7b\x7d"]
    .word CommandFlag.tolerant.text ∈ Argument.ofWords words ∧
      ∃ c, Command.ofArguments programName words = .ok c ∧
        CommandFlag.tolerant.isOn c = false := by
  intro words
  exact ⟨by decide, isOn_before_empty .tolerant (by decide)⟩

end ScriptTree
