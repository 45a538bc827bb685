import LintBridge.FileTree.Basic
import LintBridge.Json.Reader
import LintBridge.Report.External
import LintBridge.RuleSet

/-! Importing reports of other linter runs. A report is a JSON array of entries, one a file, each
with the warnings on that file. A warning becomes an external issue, unless its rule is active here:
then the worker reports it itself. A report that cannot be read or understood counts as failed, and
nothing of it is taken. -/

namespace LintBridge.Report

open LintBridge.Json

structure ReportedFile where
  /-- The path of the file as the report writes it. -/
  source : String
  warnings : List Diagnostic
  deriving DecidableEq, Repr

def warningFields : List Field := [⟨"line", none⟩, ⟨"rule", none⟩, ⟨"text", none⟩]

def warning? (v : Value) : Option Diagnostic := do
  match ← fields? warningFields v with
  | [line, rule, text] => some ⟨← line.word?, ← rule.text?, ← text.text?⟩
  | _ => none

def allItems? (read : Value → Option α) : Value → Option (List α)
  | .array items => items.mapM read
  | _ => none

/-- The fields of an entry; one without warnings has none. -/
def fileFields : List Field := [⟨"source", none⟩, ⟨"warnings", some (.array [])⟩]

def reportedFile? (v : Value) : Option ReportedFile := do
  match ← fields? fileFields v with
  | [source, warnings] => some ⟨← source.text?, ← allItems? warning? warnings⟩
  | _ => none

def entries? (text : String) : Option (List ReportedFile) :=
  (Json.parse? text).bind (allItems? reportedFile?)

structure ImportSummary where
  reportsRead : Nat := 0
  reportsFailed : Nat := 0
  issuesImported : Nat := 0
  skippedActive : Nat := 0
  /-- Entries on files that are not indexed. -/
  unknownFiles : Nat := 0
  deriving DecidableEq, Repr, Inhabited

structure Import where
  summary : ImportSummary := {}
  issues : List ExternalIssue := []
  logs : List Log.Record := []
  deriving Repr, Inhabited

namespace Import

def log (i : Import) (level : Log.Level) (text : String) (cause : String := "") : Import :=
  { i with logs := i.logs ++ [{ level, origin := .reportImport, text, cause }] }

def addWarning (rules : RuleSet) (file : SourceFile) (i : Import) (w : Diagnostic) : Import :=
  match rules.hostKey? w.rule with
  | some key =>
    { i.log .debug (s!"Stylelint issue for rule '{w.rule}' is skipped because this rule is " ++
        s!"active as {key.display}") with
      summary := { i.summary with skippedActive := i.summary.skippedActive + 1 } }
  | none =>
    { i with
      issues := i.issues ++ [externalIssue file w.rule w.line w.message]
      summary := { i.summary with issuesImported := i.summary.issuesImported + 1 } }

/-- The first indexed file at the path that a report names, which is below a base directory unless
it is absolute. -/
def fileAt? (base : Path) (files : List SourceFile) (source : String) : Option SourceFile :=
  let wanted := base.joinString source
  files.find? fun f => f.path?.any wanted.same

def addFile (rules : RuleSet) (base : Path) (files : List SourceFile) (i : Import)
    (reported : ReportedFile) : Import :=
  match fileAt? base files reported.source with
  | none =>
    { i.log .warn (s!"No input file found for {reported.source}. No stylelint issues will be " ++
        "imported on this file.") with
      summary := { i.summary with unknownFiles := i.summary.unknownFiles + 1 } }
  | some file => reported.warnings.foldl (addWarning rules file) i

def fail (i : Import) : Import :=
  { i with summary := { i.summary with reportsFailed := i.summary.reportsFailed + 1 } }

/-- What is wrong with a report that is not a list of entries. -/
def notEntries : String := "the document is not a list of reported files"

def addReport (rules : RuleSet) (tree : FileTree) (base : Path) (files : List SourceFile)
    (i : Import) (report : Path) : Import :=
  let path := base.join report
  let i := i.log .info s!"Importing {path.display}"
  match tree.readText path with
  | .error e =>
    (i.log .error ("No issues information will be saved as the report file " ++
      s!"{path.display} can't be read: ") e.message).fail
  | .ok text =>
    match entries? text with
    | none =>
      (i.log .error s!"Failed to parse json stylelint report {path.display}: " notEntries).fail
    | some reported =>
      let read := { i.summary with reportsRead := i.summary.reportsRead + 1 }
      reported.foldl (addFile rules base files) { i with summary := read }

end Import

/-- Imports reports, whose paths are below a base directory unless they are absolute, for the files
that are indexed. -/
def importAll (rules : RuleSet) (tree : FileTree) (base : Path) (files : List SourceFile)
    (reports : List Path) : Import :=
  reports.foldl (Import.addReport rules tree base files) {}

end LintBridge.Report
