/-
How what an action records becomes the faults of its result.

# Faults

Of what a parse records, some is about tokens, and the rest is about
nodes that break a rule: targets that hold no value, and jumps to where
there is nothing to jump to. The two are told apart by their wording
(`isFaultText`), and the second part is what a tree says of itself
(`faultsOf` its sites).

# Records

`RecordsAt seen p v` says of the action `p`, started when the faults
`seen` were recorded: where it succeeds, the faults recorded up to then
are `v` of its result. Most actions record none (`Faultless`).
-/
import ScriptTree.Grammar.Script
import ScriptTree.Proofs.Action
import ScriptTree.Proofs.Wording
import ScriptTree.Tree.Site

namespace ScriptTree

-- ============================================================= texts

/-- The wording of a fault. -/
def isFaultText (description : String) : Bool :=
  description = Message.invalidTarget || isJumpText description

/-- An unknown label is told about in the words of a jump. -/
theorem isJumpText_unknownLabel (name : String) :
    isJumpText ("Undefined label '" ++ name ++ "'") = true := by
  have hfront : "Undefined label '".toList.isPrefixOf
      ("Undefined label '" ++ name ++ "'").toList = true := by
    rw [String.append_assoc, String.toList_append]
    exact List.isPrefixOf_iff_prefix.2 (List.prefix_append _ _)
  rw [isJumpText, hfront, Bool.or_true]

/-- An unexpected token is told about in other words than a fault. -/
theorem isFaultText_unexpectedToken (text : String) :
    isFaultText (Cause.unexpectedToken text).description = false := by
  have hfront : "Undefined label '".toList.isPrefixOf
      ("Unexpected token ".toList ++ text.toList) = false := rfl
  simp only [isFaultText, isJumpText, ← String.toList_inj,
    description_unexpectedToken, hfront]
  simp [Message.invalidTarget]

/-- What is said of an unexpected token is no fault. -/
theorem isFaultText_unexpected (t : Token) :
    isFaultText t.unexpected.description = false := by
  unfold Token.unexpected
  split
  case h_6 | h_7 | h_8 => exact isFaultText_unexpectedToken _
  all_goals rfl

-- ============================================================ faults

/-- What is wrong with a node: with a target that holds no value, with a
jump, or with a label. -/
def Site.fault? (site : Site) : Option String :=
  match site.node with
  | .target target =>
    if target.isAssignable then none else some Message.invalidTarget
  | .labeled name =>
    if site.redeclares then
      some (Cause.labelRedeclared name).description
    else none
  | _ => site.jumpFault?

/-- The faults at the given sites. -/
def faultsOf (sites : List Site) : List String :=
  sites.filterMap Site.fault?

@[simp] theorem faultsOf_nil : faultsOf [] = [] := rfl

@[simp] theorem faultsOf_cons (site : Site) (sites : List Site) :
    faultsOf (site :: sites) = site.fault?.toList ++ faultsOf sites := by
  unfold faultsOf
  cases h : site.fault? with
  | none => rw [List.filterMap_cons_none h, Option.toList_none,
      List.nil_append]
  | some fault => rw [List.filterMap_cons_some h, Option.toList_some,
      List.singleton_append]

/-- Faults come in the order of their sites. -/
@[simp] theorem faultsOf_append (sites sites' : List Site) :
    faultsOf (sites ++ sites') = faultsOf sites ++ faultsOf sites' :=
  List.filterMap_append

/-- Faults of many things come in the order of those. -/
@[simp] theorem faultsOf_flatMap {α : Type} (l : List α)
    (f : α → List Site) :
    faultsOf (l.flatMap f) = l.flatMap (faultsOf <| f ·) := by
  induction l with
  | nil => rfl
  | cons a l ih =>
      rw [List.flatMap_cons, List.flatMap_cons, faultsOf_append, ih]

/-- The faults among the recorded diagnostics. -/
def DiagnosticLog.faults (log : DiagnosticLog) : List String :=
  (log.recorded.map Diagnostic.description).filter isFaultText

/-- A diagnostic adds itself to the faults if it is one. -/
theorem DiagnosticLog.faults_record (log : DiagnosticLog)
    (d : Diagnostic) :
    (log.record d).faults = log.faults
      ++ if isFaultText d.description then [d.description] else [] := by
  cases h : isFaultText d.description with
  | false => simp [faults, record, h]
  | true => simp [faults, record, h]

/-- A word in escapes is no fault. -/
theorem DiagnosticLog.faults_accept {log log' : DiagnosticLog} {t : Token}
    (h : log.accept t = .ok log') : log'.faults = log.faults := by
  have h := Parse.accept_ok.1 h
  split at h
  case isFalse => rw [h]
  case isTrue =>
    obtain ⟨-, rfl⟩ := h
    have hword : isFaultText Cause.escapedReserved.description = false := by
      decide
    rw [faults_record, Diagnostic.description, Position.diagnose, hword]
    exact List.append_nil _

/-- The faults that a parse has recorded. -/
def ParseState.faults (s : ParseState) : List String := s.log.faults

-- ========================================================= actions

namespace Parse

variable {α β : Type} {seen : List String} {p : Parse α}
  {f : α → Parse β} {v : α → List String} {w : β → List String}

/-- After the faults `seen`, the action succeeds only if all that were
recorded then are `v` of its result. -/
def RecordsAt (seen : List String) (p : Parse α) (v : α → List String) :
    Prop :=
  ∀ ⦃before s a s'⦄, s.faults = before ++ seen → p s = .ok a s' →
    s'.faults = before ++ v a

/-- The faults that are recorded are `v` of the result. -/
def Records (p : Parse α) (v : α → List String) : Prop :=
  p.RecordsAt [] v

/-- A success records no fault. -/
def Faultless (p : Parse α) : Prop :=
  ∀ ⦃s a s'⦄, p s = .ok a s' → s'.faults = s.faults

/-- What is said of an action alone holds after anything. -/
theorem Records.after (hp : p.Records v) :
    p.RecordsAt seen (fun a => seen ++ v a) := by
  intro before s a s' hs h
  have hnil : s.faults = (before ++ seen) ++ [] := by
    rw [hs, List.append_nil]
  rw [hp hnil h, List.append_assoc]

namespace RecordsAt

/-- A result without an action. -/
theorem pure {a : α} (h : v a = seen) :
    (Pure.pure a : Parse α).RecordsAt seen v := by
  intro before s b s' hs hp
  obtain ⟨rfl, rfl⟩ := pure_ok.1 hp
  rw [hs, h]

/-- An action that never succeeds. -/
theorem of_fails (h : ∀ s a s', ¬p s = .ok a s') : p.RecordsAt seen v :=
  fun _ s a s' _ hp => absurd hp (h s a s')

/-- What follows may use that the first action has succeeded. -/
theorem bindOk (hp : p.RecordsAt seen v)
    (hf : ∀ a, (∃ s s', p s = .ok a s') → (f a).RecordsAt (v a) w) :
    (p >>= f).RecordsAt seen w := by
  intro before s b s' hs h
  obtain ⟨a, s₁, h₁, h₂⟩ := bind_ok.1 h
  exact hf a ⟨s, s₁, h₁⟩ (hp hs h₁) h₂

/-- One action after another. -/
theorem bind (hp : p.RecordsAt seen v)
    (hf : ∀ a, (f a).RecordsAt (v a) w) : (p >>= f).RecordsAt seen w :=
  hp.bindOk fun a _ => hf a

/-- A production, and then what follows it. -/
theorem next (hp : p.Records v)
    (hf : ∀ a, (f a).RecordsAt (seen ++ v a) w) :
    (p >>= f).RecordsAt seen w := hp.after.bind hf

/-- An action with its result changed. -/
theorem map {g : α → β} (hp : p.RecordsAt seen v)
    (h : ∀ a, w (g a) = v a) : (g <$> p).RecordsAt seen w := by
  intro before s b s' hs hm
  obtain ⟨a, h₁, rfl⟩ := map_ok.1 hm
  rw [hp hs h₁, h]

/-- Either of two actions. -/
theorem ite {c : Prop} [Decidable c] {p q : Parse α}
    (hp : c → p.RecordsAt seen v) (hq : ¬c → q.RecordsAt seen v) :
    (if c then p else q).RecordsAt seen v := by
  split
  case isTrue hc => exact hp hc
  case isFalse hc => exact hq hc

/-- What records no fault leaves what was seen. -/
theorem silent (hp : p.Faultless) (hf : ∀ a, (f a).RecordsAt seen w) :
    (p >>= f).RecordsAt seen w := by
  intro before s b s' hs h
  obtain ⟨a, s₁, h₁, h₂⟩ := bind_ok.1 h
  exact hf a ((hp h₁).trans hs) h₂

end RecordsAt

-- ------------------------------------------------- without any fault

namespace Faultless

/-- An action that never succeeds. -/
theorem of_fails (h : ∀ s a s', ¬p s = .ok a s') : p.Faultless :=
  fun s a s' hp => absurd hp (h s a s')

/-- One action after another. -/
theorem bind (hp : p.Faultless) (hf : ∀ a, (f a).Faultless) :
    (p >>= f).Faultless := by
  intro s b s' h
  obtain ⟨a, s₁, h₁, h₂⟩ := bind_ok.1 h
  exact (hf a h₂).trans (hp h₁)

/-- An action with its result changed. -/
theorem map {g : α → β} (hp : p.Faultless) : (g <$> p).Faultless := by
  intro s b s' h
  obtain ⟨a, h₁, -⟩ := map_ok.1 h
  exact hp h₁

/-- Either of two actions. -/
theorem ite {c : Prop} [Decidable c] {p q : Parse α}
    (hp : p.Faultless) (hq : q.Faultless) :
    (if c then p else q).Faultless := by
  split
  · exact hp
  · exact hq

/-- A result without an action. -/
theorem pure (a : α) : (Pure.pure a : Parse α).Faultless := by
  intro s b s' h
  obtain ⟨-, rfl⟩ := pure_ok.1 h
  rfl

/-- A token that is refused. -/
theorem unexpected (t : Token) :
    (Parse.unexpected t : Parse α).Faultless :=
  of_fails fun _ _ _ => unexpected_ok

/-- Nothing is recorded where the log is left alone. -/
theorem of_log (h : ∀ ⦃s a s'⦄, p s = .ok a s' → s'.log = s.log) :
    p.Faultless := by
  intro s a s' hp
  rw [ParseState.faults, h hp]
  rfl

end Faultless

-- ------------------------------------------------------ basic actions

/-- There is no fault in a look at the next token. -/
theorem faultless_lookahead : lookahead.Faultless :=
  .of_log fun _ _ _ h => by cases h; rfl

/-- There is no fault in the look for a mark. -/
theorem faultless_isAt (mark : String) : (isAt mark).Faultless :=
  .of_log fun _ _ _ h => by cases h; rfl

/-- There is no fault in the look for a word. -/
theorem faultless_isAtWord (word : String) : (isAtWord word).Faultless :=
  .of_log fun _ _ _ h => by cases h; rfl

/-- There is no fault in the look for a line break. -/
theorem faultless_afterLineBreak : afterLineBreak.Faultless :=
  .of_log fun _ _ _ h => by cases h; rfl

/-- There is no fault in the question whether errors are tolerated. -/
theorem faultless_isTolerant : isTolerant.Faultless :=
  .of_log fun _ _ _ h => by cases h; rfl

/-- There is no fault in the look for a bound name behind the next token.
-/
theorem faultless_bindingAhead (onSameLine : Bool) :
    (bindingAhead onSameLine).Faultless :=
  .of_log fun _ _ _ h => by rw [(bindingAhead_ok.1 h).1]

/-- There is no fault in a place that is marked. -/
theorem faultless_standAt (place : Position) :
    (standAt place).Faultless :=
  .of_log fun _ _ _ h => by cases h; rfl

/-- There is no fault in a node that is completed. -/
theorem faultless_close (kind : NodeKind) (start : Position) :
    (close kind start).Faultless :=
  .of_log fun _ _ _ h => by rw [(close_ok.1 h).2]

/-- There is no fault in an error that may be tolerated. -/
theorem faultless_tolerate {d : Diagnostic}
    (hd : isFaultText d.description = false) :
    (tolerate d).Faultless := by
  intro s u s' h
  obtain ⟨-, rfl⟩ := tolerate_ok.1 h
  rw [ParseState.faults, DiagnosticLog.faults_record, hd]
  exact List.append_nil _

/-- There is no fault in an objection to a token. -/
theorem faultless_objectTo {t : Token} {cause : Cause}
    (hc : isFaultText cause.description = false) :
    (objectTo t cause).Faultless :=
  fun s _ _ h => @faultless_tolerate (s.diagnoseToken t cause) hc s _ _ h

/-- A fault that is tolerated is recorded. -/
theorem records_tolerate {d : Diagnostic}
    (hd : isFaultText d.description = true) :
    (tolerate d).Records fun _ => [d.description] := by
  intro before s u s' hs h
  obtain ⟨-, rfl⟩ := tolerate_ok.1 h
  rw [List.append_nil] at hs
  rw [ParseState.faults, DiagnosticLog.faults_record, hd, ← hs]
  rfl

/-- The faults in an objection to what was read. -/
theorem records_object {cause : Cause}
    (hc : isFaultText cause.description = true) :
    (object cause).Records fun _ => [cause.description] :=
  fun _ s _ _ hs h =>
    @records_tolerate (s.last.diagnose cause) hc _ s _ _ hs h

/-- There is no fault in a step to the next token. -/
theorem faultless_shift : shift.Faultless := by
  intro s t s' h
  obtain ⟨-, next, rest, log, -, hl, rfl⟩ := shift_ok.1 h
  exact DiagnosticLog.faults_accept hl

/-- There is no fault in a token that is passed over. -/
theorem faultless_skip : skip.Faultless :=
  faultless_shift.bind fun _ => .pure ()

/-- There is no fault in a mark that is asked for. -/
theorem faultless_expect (mark : String) : (expect mark).Faultless :=
  faultless_shift.bind fun t => .ite (.pure ()) (.unexpected t)

/-- There is no fault in a word that is asked for. -/
theorem faultless_expectWord (word : String) :
    (expectWord word).Faultless :=
  faultless_shift.bind fun t => .ite (.pure ()) (.unexpected t)

-- ====================================================== repetition

/-- The faults of repeated items add up. -/
theorem records_collectWhile {more : Parse Bool} (hm : more.Faultless)
    (hp : p.Records v) (steps : Nat) :
    (collectWhile more p steps).Records (List.flatMap v) := by
  induction steps with
  | zero => exact .of_fails fun _ _ _ => exhausted_ok
  | succ steps ih =>
      refine .silent hm fun b => .ite (fun _ => ?_) fun _ => .pure rfl
      exact hp.bind fun a => .next ih fun l => .pure rfl

/-- The faults in items with separators between them. -/
theorem records_separated {separator : Parse Unit}
    (hp : p.Records v) (hs : separator.Faultless) (steps : Nat) :
    (separated p separator steps).Records (List.flatMap v) := by
  induction steps with
  | zero => exact .of_fails fun _ _ _ => exhausted_ok
  | succ steps ih =>
      have hat := faultless_isAt ")"
      refine hp.bind fun a => .silent hat fun b => ?_
      refine .ite (fun _ => .pure (by simp)) fun _ => ?_
      refine .silent hs fun _ => .silent hat fun b => ?_
      refine .ite (fun _ => .pure (by simp)) fun _ => ?_
      exact .next ih fun l => .pure rfl

/-- The faults in items in parentheses. -/
theorem records_parenthesized {separator : Parse Unit}
    (hp : p.Records v) (hs : separator.Faultless) (steps : Nat) :
    (parenthesized p separator steps).Records (List.flatMap v) := by
  have hitems : (upToParenthesis p separator steps).Records
      (List.flatMap v) :=
    .silent (faultless_isAt ")") fun b => .ite (fun _ => .pure rfl) fun _ =>
      records_separated hp hs steps
  refine .silent (faultless_expect "(") fun _ => hitems.bind fun l => ?_
  exact .silent (faultless_expect ")") fun _ => .pure rfl

end Parse

end ScriptTree
