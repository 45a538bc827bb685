import LintBridge.Rule
import LintBridge.SourceFile

/-! What the analysis of a file yields, and issues as the host stores them: those of the bundled
linter, and external ones, taken over from reports, with a classification of their own. -/

namespace LintBridge

structure Diagnostic where
  line : Nat
  rule : String
  message : String
  deriving DecidableEq, Repr

/-- What the analysis of one file yields. -/
inductive Outcome where
  | diagnostics (items : List Diagnostic)
  | parseFailure (line : Nat) (message : String)
  deriving DecidableEq, Repr

structure Issue where
  file : SourceFile
  rule : RuleKey
  line : Nat
  message : String
  deriving DecidableEq, Repr

/-- What kind of problem an external issue is. -/
inductive IssueType where
  | bug
  | codeSmell
  deriving DecidableEq, Repr

def IssueType.name : IssueType → String
  | .bug => "bug"
  | .codeSmell => "code_smell"

inductive Severity where
  | info
  | minor
  | major
  | critical
  | blocker
  deriving DecidableEq, Repr

namespace Severity

def name : Severity → String
  | .info => "info"
  | .minor => "minor"
  | .major => "major"
  | .critical => "critical"
  | .blocker => "blocker"

/-- All severities, the mildest first. -/
def all : List Severity := [.info, .minor, .major, .critical, .blocker]

def ofName? (s : String) : Option Severity := all.find? (·.name == s)

def rank : Severity → Nat
  | .info => 0
  | .minor => 1
  | .major => 2
  | .critical => 3
  | .blocker => 4

/-- Severities from mild to bad, equal ones in their given order. -/
def sorted (s : List Severity) : List Severity := s.mergeSort fun a b => a.rank ≤ b.rank

end Severity

/-- An issue that a report of another run brings. -/
structure ExternalIssue where
  issue : Issue
  type : IssueType
  severity : Severity
  /-- The estimated work to fix it, in minutes. -/
  effort : Nat
  deriving DecidableEq, Repr

end LintBridge
