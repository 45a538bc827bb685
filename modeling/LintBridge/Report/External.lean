import LintBridge.Issue

/-! How issues from reports are classified: each rule of the linter is a bug or a code smell; all
are of major severity and take five minutes. -/

namespace LintBridge.Report

def bugRules : List String :=
  ["at-rule-no-unknown", "color-no-invalid-hex", "declaration-block-no-duplicate-properties",
    "declaration-block-no-shorthand-property-overrides",
    "font-family-no-missing-generic-family-keyword", "function-calc-no-unspaced-operator",
    "function-linear-gradient-no-nonstandard-direction", "keyframe-declaration-no-important",
    "no-descending-specificity", "no-invalid-double-slash-comments", "property-no-unknown",
    "selector-pseudo-class-no-unknown", "selector-pseudo-element-no-unknown",
    "selector-type-no-unknown", "unit-no-unknown"]

def typeOf (linterKey : String) : IssueType :=
  if bugRules.contains linterKey then .bug else .codeSmell

def repository : String := "stylelint"

def externalIssue (file : SourceFile) (linterKey : String) (line : Nat) (text : String) :
    ExternalIssue :=
  ⟨⟨file, ⟨repository, linterKey⟩, line, text⟩, typeOf linterKey, .major, 5⟩

end LintBridge.Report
