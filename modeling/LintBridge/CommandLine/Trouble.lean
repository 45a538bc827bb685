import LintBridge.Analysis.Basic
import LintBridge.Rule
import LintBridge.Settings.Load

/-! What ends the program before its end, and how it is told: what could not be done, and below it
the causes, each the cause of the one before. -/

namespace LintBridge.CommandLine

inductive Trouble where
  | noProject (given : Path) (reason : Fault)
  | settings (e : Settings.LoadError)
  | rules (e : ParamError)
  | workDir (path : Path) (reason : Fault)
  | analysis (e : Analysis.Failure)
  deriving DecidableEq, Repr

/-- The causes that lie behind an error of the worker, where its message does not speak for itself.
-/
def workerCauses : Worker.Error → List String
  | .noPort reason | .noClient reason | .launch _ reason | .malformed _ _ reason => [reason]
  | .runtime (.notFound _) => [Worker.RuntimeError.notFoundReason]
  | _ => []

namespace Trouble

def message : Trouble → String
  | noProject given _ => s!"project directory {given.display} is not accessible"
  | settings e => e.message
  | rules _ => "invalid rule parameters"
  | workDir path _ => s!"failed to create work dir {path.display}"
  | analysis _ => "CSS analysis failed"

/-- The causes, each the cause of the one before. -/
def causes : Trouble → List String
  | noProject _ reason | workDir _ reason => [reason.message]
  | settings e => [e.cause]
  | rules e => [e.message]
  | analysis e => e.message :: match e with
    | .worker e => workerCauses e
    | .config e => [e.reason.message]
    | .unresponsive _ _ | .cancelled => []

def spaces (n : Nat) : String := "".pushn ' ' n

def indented (width : Nat) (text : String) : String :=
  ("\n" ++ spaces width).intercalate (text.splitOn "\n")

def numbered (cause : String) (i : Nat) : String :=
  let number := toString i
  spaces (5 - number.length) ++ number ++ ": " ++ indented 7 cause

/-- The causes as they are listed: one alone, and several with numbers. -/
def listed : List String → List String
  | [cause] => [spaces 4 ++ indented 4 cause]
  | causes => causes.zipIdx.map fun c => numbered c.1 c.2

def text (t : Trouble) : String :=
  let title := s!"Error: {t.message}\n"
  match t.causes with
  | [] => title
  | causes => title ++ "\nCaused by:\n" ++ "\n".intercalate (listed causes) ++ "\n"

end Trouble

end LintBridge.CommandLine
