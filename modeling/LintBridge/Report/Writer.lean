import LintBridge.Issue
import LintBridge.Json.Printer

/-! The report of a run: issues of the bundled linter and then imported ones, as one line each or as
a JSON array of records. -/

namespace LintBridge.Report

open LintBridge.Json

inductive Format where
  | text
  /-- A JSON array with a record for each issue. -/
  | json
  deriving DecidableEq, Repr

/-- The path under which a file is shown: below a root if it is there, else in full, with slashes
for backslashes; a file that is not local is shown by its URL. -/
def shownPath (root : Path) (file : SourceFile) : String :=
  match file.path? with
  | some p =>
    ((root.below? p).getD p).display.map fun c => if c == '\\' then '/' else c
  | none => file.display

def issueLine (root : Path) (i : Issue) : String :=
  s!"{shownPath root i.file}:{i.line}: {i.message} [{i.rule.display}]\n"

def issueMembers (root : Path) (i : Issue) : List (String × Value) :=
  [("path", .text (shownPath root i.file)), ("line", .nat i.line),
    ("rule", .text i.rule.display), ("message", .text i.message)]

def issueRecord (root : Path) (i : Issue) : Value := .record (issueMembers root i)

/-- The record of an external issue, which says its classification too. -/
def externalRecord (root : Path) (e : ExternalIssue) : Value :=
  .record (issueMembers root e.issue ++
    [("type", .text e.type.name), ("severity", .text e.severity.name)])

/-- The report of issues and external issues of files below a root. -/
def write (format : Format) (root : Path) (issues : List Issue) (external : List ExternalIssue) :
    String :=
  match format with
  | .text => "".intercalate ((issues ++ external.map (·.issue)).map (issueLine root))
  | .json =>
    (Value.array (issues.map (issueRecord root) ++ external.map (externalRecord root))).pretty ++
      "\n"

end LintBridge.Report
