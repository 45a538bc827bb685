import LintBridge.Execution.Machine
import LintBridge.Text.Blank
import LintBridge.Worker.Error

/-! The runtime of the worker: where it is, and whether its version will do. The version is what the
runtime prints first when it is asked for it, however it then ends. -/

namespace LintBridge.Worker

open LintBridge.Execution LintBridge.Text

structure CheckedRuntime where
  program : Path
  major : Nat
  deriving DecidableEq, Repr

namespace CheckedRuntime

def notice? (r : CheckedRuntime) : Option String := NodeVersion.deprecationNotice? r.major

/-- The runtime at a path, after what it printed about its version. -/
def ofOutput (program : Path) (output : String) : Except RuntimeError CheckedRuntime :=
  match NodeVersion.major? output with
  | none => .error (.unreadableVersion (trim output))
  | some major =>
    if major < NodeVersion.oldestSupported then .error (.unsupported major)
    else .ok ⟨program, major⟩

/-- The path of a runtime that a command names: a path with a directory is one below the working
directory, and a mere name is looked for in the search path. -/
def resolve (m : Machine) (command : String) : Except RuntimeError Path :=
  let name := Path.ofString command
  let candidates :=
    if 1 < name.components.length then [(FileTree.pathOf m.tree.workingDir).join name]
    else (Machine.searchDirs m.vars).map (·.join name)
  match candidates.find? m.isExecutable with
  | some path => .ok path
  | none => .error (.notFound command)

/-- How long a runtime may take to say what its version is. -/
def versionPatience : Duration := .ofSecs 10

def versionOutput (m : Machine) (program : Path) : Except RuntimeError String :=
  match m.start program [Utf8.ofString "-v"] [] with
  | .error e => .error (.versionCheck program e.message)
  | .ok (.course c) =>
    if c.ending.any fun e => e.1.nanos ≤ versionPatience.nanos then
      .ok (Utf8.lossy (Course.printed .out (c.acts.map (·.2))))
    else .error (.versionCheck program "timed out")
  | .ok (.worker _) => .error (.versionCheck program "timed out")

/-- Finds the runtime that a command names and checks its version. -/
def check (m : Machine) (command : String) : Except RuntimeError CheckedRuntime := do
  let program ← resolve m command
  ofOutput program (← versionOutput m program)

end CheckedRuntime

end LintBridge.Worker
