import LintBridge.Analysis.Script
import LintBridge.Proofs.Analysis.Calls
import LintBridge.Proofs.Report.Accounts
import LintBridge.Proofs.RuleSet.Resolution

/-! The two ways by which a violation can be reported: as an issue that a run saves, and as an
external issue that an import takes from a report.  Both ask the same rule set, one for the rules
that it has and the other for those that it has not, so no rule is reported in both ways:
`channels_apart`. -/

namespace LintBridge.Report

open LintBridge.Analysis LintBridge.Text

/-! ### Saved issues -/

/-- What the analysis of a file found, if it did not say that the file cannot be parsed. -/
def findingsOf (a : Analyzed) : List (SourceFile × Diagnostic) :=
  match a.outcome with
  | .diagnostics items => items.map fun d => (a.file, d)
  | .parseFailure _ _ => []

theorem issues_eq_filterMap (rules : RuleSet) (a : Analyzed) :
    a.issues rules = (findingsOf a).filterMap fun f => issueOf? rules f.1 f.2 := by
  obtain ⟨file, path, outcome⟩ := a
  cases outcome with
  | diagnostics items => simp [Analyzed.issues, issuesOf, findingsOf, List.filterMap_map]
  | parseFailure line message => rfl

/-- A finding becomes an issue just if its rule is active. -/
theorem issueOf?_eq_none {rules : RuleSet} {file : SourceFile} {d : Diagnostic} :
    issueOf? rules file d = none ↔ rules.hostKey? d.rule = none := by
  rw [issueOf?, Option.map_eq_none_iff]

/-- What becomes of a finding of an active rule: an issue of a rule of the catalog, with the message
of the finding. -/
theorem eq_of_issueOf? {active : List ActiveRule} {rules : RuleSet}
    (resolved : (RuleSet.ofActive active).2 = .ok rules) {file : SourceFile} {d : Diagnostic}
    {issue : Issue} (h : issueOf? rules file d = some issue) :
    ∃ c ∈ catalog, issue = ⟨file, ⟨"css", c.key⟩, d.line, Message.core d.message⟩ := by
  obtain ⟨key, mapped, rfl⟩ := Option.map_eq_some_iff.mp h
  obtain ⟨c, -, rfl, stands⟩ := RuleSet.stands_of_hostKey? resolved mapped
  exact ⟨c, stands.inCatalog, rfl⟩

theorem repository_of_issueOf? {active : List ActiveRule} {rules : RuleSet}
    (resolved : (RuleSet.ofActive active).2 = .ok rules) {file : SourceFile} {d : Diagnostic}
    {issue : Issue} (h : issueOf? rules file d = some issue) : issue.rule.repository = "css" := by
  obtain ⟨c, -, rfl⟩ := eq_of_issueOf? resolved h
  rfl

/-! ### Imported issues -/

/-- What is imported is of a rule that is not active. -/
structure IsImported (rules : RuleSet) (e : ExternalIssue) : Prop where
  inactive : rules.hostKey? e.issue.rule.rule = none
  repository : e.issue.rule.repository = "stylelint"

theorem forall_issues_sum {α : Type} {Of : α → Account → Prop} {P : ExternalIssue → Prop}
    {xs : List α} {parts : List Account} (each : List.Forall₂ Of xs parts)
    (h : ∀ x part, Of x part → ∀ e ∈ part.issues, P e) : ∀ e ∈ parts.sum.issues, P e := by
  induction each with
  | nil => exact List.forall_mem_nil _
  | cons here _ ih =>
    intro e member
    rw [List.sum_cons, Account.add_def] at member
    rcases List.mem_append.mp member with first | later
    · exact h _ _ here e first
    · exact ih e later

section Imported

variable {rules : RuleSet} {base : Path} {files : List SourceFile} {tree : FileTree}

theorem OfWarning.isImported {file : SourceFile} {w : Diagnostic} {part : Account}
    (h : OfWarning rules file w part) : ∀ e ∈ part.issues, IsImported rules e := by
  cases h with
  | active => exact List.forall_mem_nil _
  | other inactive =>
    intro e member
    obtain rfl := List.mem_singleton.mp member
    exact ⟨inactive, rfl⟩

theorem OfEntry.isImported {entry : ReportedFile} {part : Account}
    (h : OfEntry rules base files entry part) : ∀ e ∈ part.issues, IsImported rules e := by
  cases h with
  | unknown => exact List.forall_mem_nil _
  | known split here first each => exact forall_issues_sum each fun _ _ => OfWarning.isImported

theorem OfReport.isImported {report : Path} {part : Account}
    (h : OfReport rules base files tree report part) : ∀ e ∈ part.issues, IsImported rules e := by
  cases h with
  | failed => exact List.forall_mem_nil _
  | read has each => exact forall_issues_sum each fun _ _ => OfEntry.isImported

theorem isImported_importAll {reports : List Path} :
    ∀ e ∈ (importAll rules tree base files reports).issues, IsImported rules e := by
  obtain ⟨parts, each, total⟩ := account_foldl (account_addReport rules base files tree) reports {}
  have same : (importAll rules tree base files reports).issues = parts.sum.issues :=
    congrArg Account.issues total
  rw [same]
  exact forall_issues_sum each fun _ _ => OfReport.isImported

end Imported

/-! ### Both ways -/

/-- Saved and imported issues are apart: they are of other repositories, and what is imported is of
rules of which no finding becomes an issue. -/
structure Apart (rules : RuleSet) (findings : List (SourceFile × Diagnostic)) (saved : List Issue)
    (imported : List ExternalIssue) : Prop where
  saved_eq : saved = findings.filterMap fun f => issueOf? rules f.1 f.2
  active : ∀ f ∈ findings, ∀ issue, issueOf? rules f.1 f.2 = some issue →
    (rules.hostKey? f.2.rule).isSome = true
  inactive : ∀ e ∈ imported, rules.hostKey? e.issue.rule.rule = none
  never : ∀ e ∈ imported, ∀ file d, d.rule = e.issue.rule.rule → issueOf? rules file d = none
  apart : ∀ f ∈ findings, ∀ issue, issueOf? rules f.1 f.2 = some issue →
    ∀ e ∈ imported, f.2.rule ≠ e.issue.rule.rule
  repository_saved : ∀ issue ∈ saved, issue.rule.repository = "css"
  repository_imported : ∀ e ∈ imported, e.issue.rule.repository = "stylelint"

/-- No violation is reported in both ways by a run and an import with one rule set, whatever the
worker answers and the reports hold. -/
theorem channels_apart {σ : Type} {active : List ActiveRule} {rules : RuleSet}
    (resolved : (RuleSet.ofActive active).2 = .ok rules) (s : Surroundings σ) (options : Options)
    (warnings : WarningList) (world : σ) (tree : FileTree) (base : Path) (files : List SourceFile)
    (reports : List Path) :
    let r := (execute s rules options warnings world).2
    ∃ done : List Analyzed, r.answered = done.map (fun a => (a.path, a.outcome)) ∧
      Apart rules (done.flatMap findingsOf) r.issues
        (importAll rules tree base files reports).issues := by
  obtain ⟨done, answered, issues⟩ := issues_execute s rules options warnings world
  have saved_eq : (execute s rules options warnings world).2.issues =
      (done.flatMap findingsOf).filterMap fun f => issueOf? rules f.1 f.2 := by
    rw [issues, List.filterMap_flatMap]
    exact List.flatMap_congr fun a _ => issues_eq_filterMap rules a
  -- Both ways ask for the same key of the linter, so the answers cannot differ.
  have never : ∀ e ∈ (importAll rules tree base files reports).issues, ∀ file d,
      d.rule = e.issue.rule.rule → issueOf? rules file d = none := by
    intro e member file d same
    rw [issueOf?_eq_none, same]
    exact (isImported_importAll e member).inactive
  refine ⟨done, answered, saved_eq, ?active, ?inactive, never, ?apart, ?saved, ?imported⟩
  case active =>
    intro f _ issue became
    obtain ⟨key, mapped, -⟩ := Option.map_eq_some_iff.mp became
    rw [mapped]
    rfl
  case inactive => exact fun e member => (isImported_importAll e member).inactive
  case apart =>
    intro f _ issue became e member same
    rw [never e member f.1 f.2 same] at became
    cases became
  case saved =>
    intro issue member
    rw [saved_eq] at member
    obtain ⟨f, -, became⟩ := List.mem_filterMap.mp member
    exact repository_of_issueOf? resolved became
  case imported => exact fun e member => (isImported_importAll e member).repository

/-- The worker and a report tell of the same two violations, of which one is of an active rule. -/
theorem channels_apart_sameFindings :
    let rules : RuleSet :=
      ⟨⟨[("color-no-invalid-hex", ⟨"css", "S4647"⟩)]⟩, ⟨[("color-no-invalid-hex", .bool true)]⟩⟩
    let sheet : SourceFile := ⟨⟨"file", some {}, "/w/a.css", none, none⟩, "css", .main, .utf8⟩
    let script : Script :=
      { files := [sheet]
        workDir := .ofString "/w/.work"
        answers := [.answer (.ok (.diagnostics
          [⟨1, "color-no-invalid-hex", "Invalid"⟩, ⟨2, "comment-no-empty", "Empty"⟩]))] }
    let text := "[[\"a.css\", [[1, \"color-no-invalid-hex\", \"Invalid\"], " ++
      "[2, \"comment-no-empty\", \"Empty\"]]]]"
    let tree := FileTree.plant {} [Utf8.ofString "w", Utf8.ofString "report.json"]
      (.file (Utf8.ofString text) false)
    let r := (execute Script.surroundings rules {} {} script).2
    (RuleSet.ofActive [⟨"S4647", []⟩]).2 = .ok rules ∧
      ∃ done : List Analyzed, r.answered = done.map (fun a => (a.path, a.outcome)) ∧
        Apart rules (done.flatMap findingsOf) r.issues
          (importAll rules tree (.ofString "/w") [sheet] [.ofString "report.json"]).issues := by
  intro rules sheet script text tree r
  have resolved : (RuleSet.ofActive [⟨"S4647", []⟩]).2 = .ok rules := rfl
  exact ⟨resolved, channels_apart resolved _ _ _ _ _ _ _ _⟩

end LintBridge.Report
