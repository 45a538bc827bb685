import LintBridge.Duration
import LintBridge.Issue
import LintBridge.Request
import LintBridge.RuleSet.Store
import LintBridge.Worker.Error

/-! What a run of the analysis is told, how it can end, and what it counts. -/

namespace LintBridge.Analysis

structure Options where
  /-- Whether a failure of the run is returned, rather than turned into a warning. -/
  failFast : Bool := false
  contentPolicy : ContentPolicy := .whenUntrusted
  mode : HostMode := .batch
  progressInterval : Duration := .ofSecs 10
  deriving DecidableEq, Repr

def language : String := "css"

/-- A file is analyzed if it is a style sheet of the product. -/
def isEligible (file : SourceFile) : Bool := file.kind == .main && file.language == language

inductive Failure where
  | worker (e : Worker.Error)
  | unresponsive (analyzed total : Nat)
  /-- The configuration of the linter could not be stored. -/
  | config (e : RuleSet.StoreError)
  | cancelled
  deriving DecidableEq, Repr

def Failure.message : Failure → String
  | .worker e => e.message
  | .unresponsive analyzed total =>
    s!"the CSS analyzer worker stopped responding after {analyzed} of {total} files"
  | .config e => e.message
  | .cancelled => "analysis cancelled"

inductive Status where
  /-- Every eligible file went through the worker. -/
  | completed
  /-- There was nothing to do. -/
  | skipped
  | cancelled
  | degraded
  deriving DecidableEq, Repr

def Status.name : Status → String
  | .completed => "completed"
  | .skipped => "skipped"
  | .cancelled => "cancelled"
  | .degraded => "degraded"

structure Summary where
  status : Status := .completed
  filesEligible : Nat := 0
  filesAnalyzed : Nat := 0
  issuesSaved : Nat := 0
  parseFailures : Nat := 0
  deriving DecidableEq, Repr, Inhabited

end LintBridge.Analysis
