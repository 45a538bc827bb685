import LintBridge.Execution.Course
import LintBridge.Worker.OutputLine

/-! A worker process as its supervisor holds it. The supervisor may wait for its end, ask whether it
has ended, and end it: with a time in which it may end by itself, or at once. A process that was
ended has nothing more to tell. -/

namespace LintBridge.Worker

open LintBridge.Execution

structure Handle where
  course : Course
  elapsed : Duration := ⟨0⟩
  terminated : Bool := false

def graceSpan : Duration := .ofSecs 2

namespace Handle

/-- Waits for the end of the process. The wait for one that was terminated never ends, nor does that
for one that goes on for ever. -/
def waitExit (h : Handle) : Option Status × Handle :=
  if h.terminated then (none, h)
  else
    match h.course.ending with
    | some (time, status) =>
      (some status, { h with elapsed := ⟨max h.elapsed.nanos time.nanos⟩ })
    | none => (none, h)

/-- How the process has ended, if it has. -/
def exitStatus? (h : Handle) : Option Status :=
  if h.terminated then none else h.course.statusAt h.elapsed

def terminate (h : Handle) : Handle :=
  if h.terminated then h
  else
    let limit := h.elapsed.nanos + graceSpan.nanos
    let last := match h.course.ending with
      | some (time, _) => min limit (max h.elapsed.nanos time.nanos)
      | none => limit
    { h with elapsed := ⟨last⟩, terminated := true }

def kill (h : Handle) : Handle := { h with terminated := true }

def acts (h : Handle) : List Act := h.course.actsUntil h.elapsed

/-- The lines that the process has written, read as log entries. -/
def lines (h : Handle) : List (Log.Level × String) :=
  [Channel.out, .err].flatMap fun ch => forward (Course.printed ch h.acts)

def files (h : Handle) (tree : FileTree) : FileTree := Course.filesAfter tree h.acts

end Handle

end LintBridge.Worker
