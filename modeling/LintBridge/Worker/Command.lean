import LintBridge.Path

/-! The command that starts a worker: a program, its arguments, and variables added to its
environment. -/

namespace LintBridge.Worker

open LintBridge.Text

structure Command where
  program : Path
  args : List (List UInt8) := []
  env : List (String × String) := []
  deriving DecidableEq, Repr, Inhabited

namespace Command

def addArg (c : Command) (arg : List UInt8) : Command := { c with args := c.args ++ [arg] }

def addEnv (c : Command) (name value : String) : Command :=
  { c with env := c.env ++ [(name, value)] }

/-- The command as one line: variables, program and arguments, with spaces between them. -/
def display (c : Command) : String :=
  " ".intercalate
    (c.env.map (fun v => v.1 ++ "=" ++ v.2) ++ c.program.display :: c.args.map Utf8.lossy)

end Command

end LintBridge.Worker
