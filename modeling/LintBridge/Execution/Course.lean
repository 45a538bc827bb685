import LintBridge.Duration
import LintBridge.FileTree.Basic
import LintBridge.Execution.Status

/-! The course of a process that nothing from outside disturbs: what it writes, when, and how it
ends. What has become of it at a time, at which it may be killed, can be read off its course. -/

namespace LintBridge.Execution

/-- One of the output streams of a process. -/
inductive Channel where
  | out
  | err
  deriving DecidableEq, Repr

/-- What a process does that can be seen from outside. -/
inductive Act where
  | print (channel : Channel) (bytes : List UInt8)
  | files (tree : FileTree)

/-- The course of a process. Times are spans since its start. -/
structure Course where
  /-- What it does, in order. -/
  acts : List (Duration × Act) := []
  /-- When it ends and how, if it ever does. -/
  ending : Option (Duration × Status) := none

namespace Course

def actsUntil (c : Course) (time : Duration) : List Act :=
  (c.acts.filter fun a => a.1.nanos ≤ time.nanos).map (·.2)

def printed (channel : Channel) (acts : List Act) : List UInt8 :=
  acts.flatMap fun a => match a with
    | .print ch bytes => if ch = channel then bytes else []
    | .files _ => []

/-- The files after acts, of which some may have changed them. -/
def filesAfter (tree : FileTree) (acts : List Act) : FileTree :=
  acts.foldl (fun t a => match a with
    | .files t => t
    | .print _ _ => t) tree

/-- How the process has ended by a time, if it has. -/
def statusAt (c : Course) (time : Duration) : Option Status :=
  match c.ending with
  | some (at_, status) => if at_.nanos ≤ time.nanos then some status else none
  | none => none

end Course

end LintBridge.Execution
