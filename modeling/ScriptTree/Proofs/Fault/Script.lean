/-
What a parse records about targets and jumps is what its tree says.

A report changes the places in a tree and nothing else, so its sites are
those of the script that was parsed (`Script.sites_map`). Of the recorded
diagnostics those about targets and jumps are the faults at these sites,
in order (`faults_of_parse`); what a strict parse accepts has none.

Two readings of this follow. Jumps are objected to just where they have
nothing to refer to (`jump_faults_of_parse`). Targets are objected to
where no value may be given to them (`target_faults_of_parse`), which is
not the same as where they are no names: an assignment in parentheses to
a name passes (`target_in_parentheses`).
-/
import ScriptTree.Proofs.Fault.Statement
import ScriptTree.Proofs.Places
import ScriptTree.Proofs.Tolerance
import ScriptTree.Source.NameRanges

namespace ScriptTree

variable {π ρ : Type}

-- ============================================================ places

theorem Expression.shape_map (f : π → ρ) (e : Expression π) :
    (e.map f).shape = e.shape := e.map_map

theorem Identifier.nameOption_map (f : π → ρ)
    (o : Option (Identifier π)) :
    (o.map (·.map f)).map (·.name) = o.map (·.name) := by
  cases o <;> rfl

mutual

theorem Expression.sites_map (f : π → ρ) (around : List Enclosure) :
    ∀ e : Expression π, (e.map f).sites around = e.sites around
  | .identifier _ | .literal _ _ _ => rfl
  | .assignment _ left right _ => by
      simp only [Expression.map, Expression.sites, left.sites_map f,
        right.sites_map f, left.shape_map f]
  | .binary _ left right _ => by
      simp only [Expression.map, Expression.sites, left.sites_map f,
        right.sites_map f]
  | .logical _ left right _ => by
      simp only [Expression.map, Expression.sites, left.sites_map f,
        right.sites_map f]
  | .conditional test consequent alternate _ => by
      simp only [Expression.map, Expression.sites, test.sites_map f,
        consequent.sites_map f, alternate.sites_map f]
  | .call callee arguments _ => by
      simp only [Expression.map, Expression.sites, callee.sites_map f,
        Expression.sitesAll_map f around arguments]
  | .sequence items _ => by
      simp only [Expression.map, Expression.sites,
        Expression.sitesAll_map f around items]
  | .unary _ argument _ _ => by
      simp only [Expression.map, Expression.sites, argument.sites_map f]
  | .update _ argument _ _ => by
      simp only [Expression.map, Expression.sites, argument.sites_map f,
        argument.shape_map f]
  | .function fn => by
      simp only [Expression.map, Expression.sites, fn.sites_map f]

theorem Expression.sitesAll_map (f : π → ρ) (around : List Enclosure) :
    ∀ l : List (Expression π),
      Expression.sitesAll around (Expression.mapAll f l)
        = Expression.sitesAll around l
  | [] => rfl
  | e :: rest => by
      simp only [Expression.mapAll, Expression.sitesAll, e.sites_map f,
        Expression.sitesAll_map f around rest]

theorem Expression.sitesOption_map (f : π → ρ)
    (around : List Enclosure) :
    ∀ o : Option (Expression π),
      Expression.sitesOption around (Expression.mapOption f o)
        = Expression.sitesOption around o
  | none => rfl
  | some e => e.sites_map f around

theorem Function.sites_map (f : π → ρ) (around : List Enclosure) :
    ∀ fn : ScriptTree.Function π, (fn.map f).sites around = fn.sites around
  | .mk _ params body _ _ => by
      simp only [Function.map, Function.sites,
        Parameter.sitesAll_map f around params, body.sites_map f]

theorem Parameter.sites_map (f : π → ρ) (around : List Enclosure) :
    ∀ p : Parameter π, (p.map f).sites around = p.sites around
  | .plain _ => rfl
  | .withDefault _ value _ => value.sites_map f around

theorem Parameter.sitesAll_map (f : π → ρ) (around : List Enclosure) :
    ∀ l : List (Parameter π),
      Parameter.sitesAll around (Parameter.mapAll f l)
        = Parameter.sitesAll around l
  | [] => rfl
  | p :: rest => by
      simp only [Parameter.mapAll, Parameter.sitesAll, p.sites_map f,
        Parameter.sitesAll_map f around rest]

theorem Block.sites_map (f : π → ρ) (around : List Enclosure) :
    ∀ b : Block π, (b.map f).sites around = b.sites around
  | .mk body _ => Statement.sitesAll_map f around body

theorem Declarator.sites_map (f : π → ρ) (around : List Enclosure) :
    ∀ d : Declarator π, (d.map f).sites around = d.sites around
  | .mk _ init _ => Expression.sitesOption_map f around init

theorem Declarator.sitesAll_map (f : π → ρ) (around : List Enclosure) :
    ∀ l : List (Declarator π),
      Declarator.sitesAll around (Declarator.mapAll f l)
        = Declarator.sitesAll around l
  | [] => rfl
  | d :: rest => by
      simp only [Declarator.mapAll, Declarator.sitesAll, d.sites_map f,
        Declarator.sitesAll_map f around rest]

theorem Declaration.sites_map (f : π → ρ) (around : List Enclosure) :
    ∀ d : Declaration π, (d.map f).sites around = d.sites around
  | .mk _ declarators _ => Declarator.sitesAll_map f around declarators

theorem ForInit.sites_map (f : π → ρ) (around : List Enclosure) :
    ∀ init : ForInit π, (init.map f).sites around = init.sites around
  | .declaration decl => decl.sites_map f around
  | .expression e => e.sites_map f around

theorem ForInit.sitesOption_map (f : π → ρ) (around : List Enclosure) :
    ∀ o : Option (ForInit π),
      ForInit.sitesOption around (ForInit.mapOption f o)
        = ForInit.sitesOption around o
  | none => rfl
  | some init => init.sites_map f around

theorem Statement.sites_map (f : π → ρ) (around : List Enclosure) :
    ∀ s : Statement π, (s.map f).sites around = s.sites around
  | .declaration decl => decl.sites_map f around
  | .function fn => fn.sites_map f around
  | .block b => b.sites_map f around
  | .ifElse test consequent alternate _ => by
      simp only [Statement.map, Statement.sites, test.sites_map f,
        consequent.sites_map f, Statement.sitesOption_map f around alternate]
  | .forLoop init test update body _ => by
      simp only [Statement.map, Statement.sites,
        ForInit.sitesOption_map f around init,
        Expression.sitesOption_map f around test,
        Expression.sitesOption_map f around update, body.sites_map f]
  | .whileLoop test body _ => by
      simp only [Statement.map, Statement.sites, test.sites_map f,
        body.sites_map f]
  | .doWhileLoop body test _ => by
      simp only [Statement.map, Statement.sites, test.sites_map f,
        body.sites_map f]
  | .returning argument _ => by
      simp only [Statement.map, Statement.sites,
        Expression.sitesOption_map f around argument]
  | .breaking label _ | .continuing label _ => by
      simp only [Statement.map, Statement.sites,
        Identifier.nameOption_map f label]
  | .throwing argument _ => argument.sites_map f around
  | .expression e _ => e.sites_map f around
  | .labeled label body _ => by
      simp only [Statement.map, Statement.sites, body.sites_map f]
      rfl
  | .empty _ | .debugger _ => rfl

theorem Statement.sitesAll_map (f : π → ρ) (around : List Enclosure) :
    ∀ l : List (Statement π),
      Statement.sitesAll around (Statement.mapAll f l)
        = Statement.sitesAll around l
  | [] => rfl
  | s :: rest => by
      simp only [Statement.mapAll, Statement.sitesAll, s.sites_map f,
        Statement.sitesAll_map f around rest]

theorem Statement.sitesOption_map (f : π → ρ)
    (around : List Enclosure) :
    ∀ o : Option (Statement π),
      Statement.sitesOption around (Statement.mapOption f o)
        = Statement.sitesOption around o
  | none => rfl
  | some s => s.sites_map f around

end

theorem Script.sites_map (f : π → ρ) (script : Script π) :
    (script.map f).sites = script.sites :=
  Statement.sitesAll_map f [] script.body

-- =========================================================== reports

/-- The faults that a parse has recorded are those of the script. A
strict parse records none, and a tolerant one reports what it records. -/
theorem faults_of_parse [NameProperties] {options : Options} {text : List Char}
    {report : Report} (h : parse options text = .ok report) :
    ((report.errors.getD []).map Diagnostic.description).filter isFaultText
      = faultsOf report.script.sites ∧
    (options.tolerant = true → report.errors.isSome = true) ∧
    (options.tolerant = false → report.errors = none) := by
  obtain ⟨script, s, hs, rfl⟩ := parse_ok.1 h
  have hrecorded : s.faults = faultsOf script.sites := by
    have hstart : (ParseState.ofText text options.tolerant).faults
        = [] ++ [] := rfl
    exact Parse.records_script _ hstart hs
  have hsites : (options.report script s).script.sites
      = script.sites := Script.sites_map options.locate script
  rw [hsites, ← hrecorded]
  cases ht : options.tolerant with
  | true => simp [Options.report, optionally, ht, ParseState.faults,
      DiagnosticLog.faults]
  | false =>
      rw [ht] at hs
      have hlog : s.log = ⟨false, []⟩ := (runs_script _ hs).log.strict rfl
      simp [Options.report, optionally, ht, ParseState.faults,
        DiagnosticLog.faults, hlog]

/-- What a strict parse accepts has no faults. -/
theorem fault?_of_strict [NameProperties]
    {options : Options} {text : List Char}
    {report : Report} (h : parse options text = .ok report)
    (hstrict : options.tolerant = false) :
    ∀ site ∈ report.script.sites, site.fault? = none := by
  obtain ⟨hfaults, -, hnone⟩ := faults_of_parse h
  rw [hnone hstrict] at hfaults
  exact List.filterMap_eq_nil_iff.1 hfaults.symm

-- ============================================================= jumps

theorem isFaultText_labelRedeclared (name : String) :
    isFaultText (Cause.labelRedeclared name).description = false := by
  have hfront : "Undefined label '".toList.isPrefixOf ("Label '".toList
      ++ (name.toList ++ "' has already been declared".toList))
      = false := rfl
  simp only [isFaultText, isJumpText, ← String.toList_inj,
    description_labelRedeclared, hfront]
  simp [Message.invalidTarget]

theorem isJumpText_of_isFaultText {description : String}
    (h : isFaultText description = false) :
    isJumpText description = false :=
  (Bool.or_eq_false_iff.1 h).2

/-- What is wrong with a jump is worded as such. -/
theorem Site.isJumpText_jumpFault {site : Site} {text : String}
    (h : site.jumpFault? = some text) : isJumpText text = true := by
  have hite {c : Prop} [Decidable c] {text' : String}
      (htext : isJumpText text' = true)
      (h : (if c then none else some text') = some text) :
      isJumpText text = true := by
    split at h
    · cases h
    · cases h
      exact htext
  unfold jumpFault? at h
  cases hnode : site.node with
  | target | labeled =>
      rw [hnode] at h
      cases h
  | breaking label | continuing label =>
      rw [hnode] at h
      cases label with
      | none => exact hite (by decide) h
      | some name => exact hite (isJumpText_unknownLabel name) h
  | returning =>
      rw [hnode] at h
      exact hite (by decide) h

/-- Nothing else that can be wrong with a node is worded so. -/
theorem Site.filter_fault? (site : Site) :
    site.fault?.filter isJumpText = site.jumpFault? := by
  have hjump : site.jumpFault?.filter isJumpText = site.jumpFault? := by
    cases h : site.jumpFault? with
    | none => rfl
    | some text => simp [isJumpText_jumpFault h]
  have hother {c : Prop} [Decidable c] {text : String}
      (htext : isJumpText text = false) :
      (if c then none else some text).filter isJumpText = none ∧
      (if c then some text else none).filter isJumpText = none := by
    split
    · simp [htext]
    · simp [htext]
  cases hnode : site.node with
  | breaking | continuing | returning =>
      unfold fault?
      rw [hnode]
      exact hjump
  | target target =>
      unfold fault? jumpFault?
      rw [hnode]
      exact (hother (by decide)).1
  | labeled name =>
      unfold fault? jumpFault?
      rw [hnode]
      exact (hother
        (isJumpText_of_isFaultText (isFaultText_labelRedeclared name))).2

/-- Jumps are objected to just where they have nothing to refer to: one
diagnostic for each, in the order of the tree. A strict parse accepts
none of them, and in no case is a label declared again within a statement
of the same function that has it. -/
theorem jump_faults_of_parse [NameProperties]
    {options : Options} {text : List Char}
    {report : Report} (h : parse options text = .ok report) :
    (options.tolerant = false →
      ∀ site ∈ report.script.sites, site.jumpFault? = none) ∧
    (options.tolerant = true → ∃ errors, report.errors = some errors ∧
      (errors.map Diagnostic.description).filter isJumpText
        = report.script.sites.filterMap Site.jumpFault?) ∧
    ∀ site ∈ report.script.sites, site.redeclares = false := by
  obtain ⟨hfaults, hsome, -⟩ := faults_of_parse h
  refine ⟨fun hstrict site hin => ?_, fun htolerant => ?_,
    fun site hin => ?_⟩
  · rw [← site.filter_fault?, fault?_of_strict h hstrict site hin]
    rfl
  · obtain ⟨errors, herrors⟩ :=
      Option.isSome_iff_exists.1 (hsome htolerant)
    refine ⟨errors, herrors, ?_⟩
    rw [herrors, Option.getD_some] at hfaults
    have hjumps := congrArg (List.filter isJumpText) hfaults
    rw [List.filter_filter, faultsOf, List.filter_filterMap] at hjumps
    simp only [Site.filter_fault?] at hjumps
    rw [← hjumps]
    apply List.filter_congr
    intro description _
    cases hjump : isJumpText description with
    | false => rfl
    | true => simp [isFaultText, hjump]
  · cases hredeclares : site.redeclares with
    | false => rfl
    | true =>
        -- A label declared again is a fault, but no parse records its text.
        obtain ⟨name, hnode⟩ : ∃ name, site.node = .labeled name := by
          unfold Site.redeclares at hredeclares
          split at hredeclares
          case h_1 name hnode => exact ⟨name, hnode⟩
          case h_2 => cases hredeclares
        have hfault : site.fault?
            = some (Cause.labelRedeclared name).description := by
          simp [Site.fault?, hnode, hredeclares]
        have hrecorded := List.mem_filterMap.2 ⟨site, hin, hfault⟩
        rw [← faultsOf, ← hfaults] at hrecorded
        have htext := (List.mem_filter.1 hrecorded).2
        rw [isFaultText_labelRedeclared] at htext
        cases htext

/-- Around a function, neither the label nor the loop counts in it. -/
theorem jump_faults_across_function :
    let text := ("break; a: do { function f() { continue a; return } } " ++
      "while (1); return").toList
    ∃ report errors, parse .tolerating text = .ok report ∧
      report.errors = some errors ∧
      (errors.map Diagnostic.description).filter isJumpText
        = ["Illegal break statement", "Undefined label 'a'",
          "Illegal return statement"] ∧
      ∀ site ∈ report.script.sites, site.redeclares = false := by
  intro text
  have hjumps : (parse .tolerating text).toOption.map
      (fun report => report.script.sites.filterMap Site.jumpFault?)
        = some ["Illegal break statement", "Undefined label 'a'",
          "Illegal return statement"] := by
    decide +kernel
  cases h : parse .tolerating text with
  | error failure =>
      rw [h] at hjumps
      cases hjumps
  | ok report =>
      rw [h] at hjumps
      obtain ⟨-, htolerant, hlabels⟩ := jump_faults_of_parse h
      obtain ⟨errors, herrors, hreported⟩ := htolerant rfl
      exact ⟨report, errors, rfl, herrors,
        hreported.trans (Option.some.inj hjumps), hlabels⟩

-- =========================================================== targets

/-- A name holds a value. -/
theorem Expression.isAssignable_of_isIdentifier {e : Expression π}
    (h : e.isIdentifier = true) : e.isAssignable = true := by
  cases e with
  | identifier => rfl
  | _ => cases h

/-- The only fault that is worded as one of a target is one of a
target. -/
theorem Site.fault?_target (site : Site) :
    (site.fault?.map fun text =>
        decide (text = "Invalid left-hand side in assignment")).getD false
      = (site.target?.map (!·.isAssignable)).getD false := by
  have hjump : ∀ text, site.jumpFault? = some text →
      text ≠ "Invalid left-hand side in assignment" := by
    rintro text h rfl
    exact absurd (isJumpText_jumpFault h) (by decide)
  cases hnode : site.node with
  | breaking | continuing | returning =>
      unfold fault? target?
      rw [hnode]
      cases h : site.jumpFault? with
      | none => rfl
      | some text => simp [hjump text h]
  | labeled name =>
      unfold fault? target?
      rw [hnode]
      have hlabel : (Cause.labelRedeclared name).description
          ≠ "Invalid left-hand side in assignment" := by
        intro h
        have htext := isFaultText_labelRedeclared name
        rw [h] at htext
        exact absurd htext (by decide)
      cases site.redeclares with
      | false => rfl
      | true => simp [hlabel]
  | target target =>
      unfold fault? target?
      rw [hnode]
      cases h : target.isAssignable with
      | false => simp [h, Message.invalidTarget]
      | true => simp [h]

/-- Two counts of which one is within the other. -/
theorem countP_eq_countP_iff {α : Type} {p q : α → Bool} {l : List α}
    (hpq : ∀ a, p a = true → q a = true) :
    l.countP p = l.countP q ↔ ∀ a ∈ l, q a = true → p a = true := by
  induction l with
  | nil => simp
  | cons a l ih =>
      have hle : l.countP p ≤ l.countP q :=
        List.countP_mono_left fun a _ => hpq a
      rw [List.countP_cons, List.countP_cons, List.forall_mem_cons, ← ih]
      cases hp : p a with
      | true =>
          rw [hpq a hp]
          simp
      | false =>
          cases hq : q a with
          | true =>
              simp only [Bool.false_eq_true, if_false, if_true]
              constructor
              · intro heq
                omega
              · rintro ⟨himp, -⟩
                exact absurd (himp trivial) (by simp)
          | false => simp

/-- As many targets are objected to as there are to which no value may be
given, and a strict parse accepts none of these. This is the number of
those that are no names unless one of them gives a value to a name. -/
theorem target_faults_of_parse [NameProperties]
    {options : Options} {text : List Char}
    {report : Report} (h : parse options text = .ok report) :
    let reported := (report.errors.getD []).countP fun d =>
      d.description = "Invalid left-hand side in assignment"
    let targets := report.script.targets
    reported = targets.countP (!·.isAssignable) ∧
    (options.tolerant = false →
      ∀ target ∈ targets, target.isAssignable = true) ∧
    (reported = targets.countP (!·.isIdentifier) ↔
      ∀ target ∈ targets,
        target.isAssignable = true → target.isIdentifier = true) := by
  intro reported targets
  obtain ⟨hfaults, -, -⟩ := faults_of_parse h
  have hreported : reported = targets.countP (!·.isAssignable) := by
    -- Only faults of targets have this text, and all of them have it.
    let isTargetText : String → Bool := fun text =>
      decide (text = "Invalid left-hand side in assignment")
    have htext : ∀ text, (isTargetText text && isFaultText text)
        = isTargetText text := by
      intro text
      cases h : isTargetText text with
      | false => rfl
      | true =>
          rw [of_decide_eq_true h]
          rfl
    calc reported
        = ((report.errors.getD []).map Diagnostic.description).countP
            isTargetText := by
          rw [List.countP_map]
          rfl
      _ = (faultsOf report.script.sites).countP isTargetText := by
          rw [← hfaults, List.countP_filter]
          simp only [htext]
      _ = report.script.sites.countP fun site =>
            (site.fault?.map isTargetText).getD false :=
          List.countP_filterMap
      _ = report.script.sites.countP fun site =>
            (site.target?.map (!·.isAssignable)).getD false := by
          simp only [isTargetText, Site.fault?_target]
      _ = targets.countP (!·.isAssignable) := List.countP_filterMap.symm
  refine ⟨hreported, fun hstrict target hin => ?_, ?_⟩
  · obtain ⟨site, hsite, htarget⟩ := List.mem_filterMap.1 hin
    have hfault := site.fault?_target
    rw [fault?_of_strict h hstrict site hsite, htarget] at hfault
    simpa using hfault
  · rw [hreported, countP_eq_countP_iff]
    · apply forall₂_congr
      intro target _
      cases target.isAssignable with
      | false => simp
      | true => cases target.isIdentifier <;> simp
    · intro target hnot
      rw [Bool.not_eq_true', Bool.eq_false_iff] at hnot ⊢
      exact fun hname => hnot (Expression.isAssignable_of_isIdentifier hname)

/-- A call is objected to, and a name is not. -/
theorem target_faults_of_call :
    let text := "f() = a; b = ++c".toList
    ∃ report, parse .tolerating text = .ok report ∧
      report.script.targets.length = 3 ∧
      ((report.errors.getD []).countP fun d =>
        d.description = "Invalid left-hand side in assignment") = 1 := by
  intro text
  have htargets : (parse .tolerating text).toOption.map
      (fun report => (report.script.targets.length,
        report.script.targets.countP (!·.isAssignable)))
        = some (3, 1) := by
    decide +kernel
  cases h : parse .tolerating text with
  | error failure =>
      rw [h] at htargets
      cases htargets
  | ok report =>
      rw [h] at htargets
      obtain ⟨hlength, hcount⟩ := Prod.mk.inj (Option.some.inj htargets)
      obtain ⟨hreported, -, -⟩ := target_faults_of_parse h
      exact ⟨report, rfl, hlength, hreported.trans hcount⟩

/-- An assignment in parentheses to a name is given a value, and no error
says so: what is objected to is not each target that is no name. -/
theorem target_in_parentheses :
    ¬∀ (options : Options) (text : List Char) (report : Report),
      parse options text = .ok report →
      ((report.errors.getD []).countP fun d =>
        d.description = "Invalid left-hand side in assignment")
        = report.script.targets.countP (!·.isIdentifier) := by
  intro hall
  have hcounts : (parse {} "(a = b) = c".toList).toOption.map
      (fun report => (report.errors.isNone,
        report.script.targets.countP (!·.isIdentifier)))
        = some (true, 1) := by
    decide +kernel
  cases h : parse {} "(a = b) = c".toList with
  | error failure =>
      rw [h] at hcounts
      cases hcounts
  | ok report =>
      rw [h] at hcounts
      obtain ⟨hnone, hcount⟩ := Prod.mk.inj (Option.some.inj hcounts)
      have heq := hall {} _ report h
      rw [hcount, Option.isNone_iff_eq_none.1 hnone] at heq
      cases heq

end ScriptTree
