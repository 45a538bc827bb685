import LintBridge.FileTree.Basic
import LintBridge.Worker.Error

/-! The worker program as it lies on disk: a directory, and the script in it that the runtime is to
execute. -/

namespace LintBridge.Worker

structure Bundle where
  /-- The name under which messages speak of the program. -/
  name : String
  root : Path
  /-- The script: a relative path is one below the root. -/
  entry : Path
  deriving DecidableEq, Repr, Inhabited

namespace Bundle

def entryPoint (b : Bundle) : Path := b.root.join b.entry

def deploy (b : Bundle) (tree : FileTree) : Except Error Unit :=
  if tree.isDir b.root then .ok () else .error (.bundleMissing b.name b.root)

end Bundle

end LintBridge.Worker
