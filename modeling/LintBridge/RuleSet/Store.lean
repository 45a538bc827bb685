import LintBridge.FileTree.Write
import LintBridge.RuleSet

/-! Storing the configuration of the linter in a work directory. The file is replaced as a whole,
for the worker may read it at any time. -/

namespace LintBridge.RuleSet

open LintBridge.Text

/-- The configuration could not be stored. -/
structure StoreError where
  path : Path
  reason : Fault
  deriving DecidableEq, Repr

def StoreError.message (e : StoreError) : String :=
  s!"failed to write rule configuration to {e.path.display}: {e.reason.message}"

def configPath (workDir : Path) : Path := workDir.joinString configName

def store (rules : RuleSet) (tree : FileTree) (workDir : Path) :
    FileTree × Except StoreError Path :=
  let path := configPath workDir
  let (tree, result) := tree.write path (Utf8.ofString rules.documentText)
  match result with
  | .ok () => (tree, .ok path)
  | .error reason => (tree, .error ⟨path, reason⟩)

end LintBridge.RuleSet
