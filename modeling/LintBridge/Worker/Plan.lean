import LintBridge.Execution.Status
import LintBridge.Worker.OutputLine
import LintBridge.Worker.Supervisor.Basic

/-! Workers that follow a plan: what they print when they start, whether they come to listen, what
they answer, and after which answer they end. -/

namespace LintBridge.Worker

open LintBridge.Text

structure Plan where
  stdout : List (List UInt8) := []
  stderr : List (List UInt8) := []
  /-- The variable whose value it then prints, if there is one. -/
  shows : Option String := none
  /-- The code with which it ends at once, if it does. -/
  exit : Option Nat := none
  /-- Whether it never listens. -/
  silent : Bool := false
  /-- The bodies by which it says how it is, of which the last is repeated. -/
  status : List String := []
  /-- The statuses and bodies by which it answers analyses; then it finds nothing. -/
  answers : List (Nat × String) := []
  /-- The number of answered analyses after which it ends. -/
  dieAfter : Option Nat := none
  /-- The number of the analysis, counted from 1, that it leaves open and interrupts the host in. -/
  interruptAt : Option Nat := none
  /-- The status by which it answers that it will end. -/
  closeStatus : Nat := 200
  deriving DecidableEq, Repr, Inhabited

/-- A worker, and how far it has followed its plan. -/
structure PlannedWorker where
  plan : Plan
  vars : List (String × String)
  asked : Nat := 0
  answered : Nat := 0
  ended : Option Execution.Status := none
  deriving DecidableEq, Repr

namespace PlannedWorker

/-- How long a worker takes from its start until it listens or ends. -/
def bootSpan : Duration := .ofMillis 40

/-- When the worker comes to listen, if it does. -/
def listensFrom (w : PlannedWorker) : Option Duration :=
  if w.plan.silent || w.plan.exit.isSome then none else some bootSpan

/-- When the worker ends by itself at its start, if it does, and how. -/
def endsAtStart (w : PlannedWorker) : Option (Duration × Execution.Status) :=
  w.plan.exit.map fun code => (bootSpan, .exited code)

def written (line : List UInt8) : List UInt8 := line ++ [10]

def shown (w : PlannedWorker) : List UInt8 :=
  w.plan.shows.elim [] fun name =>
    written (Utf8.ofString (name ++ "=" ++ (w.vars.lookup name).getD "<unset>"))

/-- The lines that the worker has written, read as log entries. -/
def lines (w : PlannedWorker) : List (Log.Level × String) :=
  forward (w.plan.stdout.flatMap written ++ w.shown) ++ forward (w.plan.stderr.flatMap written)

def respond (status : Nat) (body : String) : Answer :=
  match (Http.Response.reply? { status, bytes := Utf8.ofString body }) with
  | some r => .reply r
  | none => .failed

def answerStatus (w : PlannedWorker) : Answer × PlannedWorker :=
  match w.plan.status with
  | [] => (respond 200 aliveText, w)
  | [body] => (respond 200 body, w)
  | body :: rest => (respond 200 body, { w with plan := { w.plan with status := rest } })

def answerAnalysis (w : PlannedWorker) : Answer × PlannedWorker :=
  let w := { w with asked := w.asked + 1 }
  if w.plan.interruptAt = some w.asked then (.unanswered, w)
  else
    let (status, body) := w.plan.answers.head?.getD (200, "[]")
    let answered := w.answered + 1
    let ended := if w.plan.dieAfter = some answered then some (.exited 0) else none
    (respond status body,
      { w with answered, ended, plan := { w.plan with answers := w.plan.answers.drop 1 } })

/-- What the worker answers when it is asked to end, which it then does. -/
def answerClose (w : PlannedWorker) : Answer × PlannedWorker :=
  (respond w.plan.closeStatus "", { w with ended := some (.exited 0) })

def isServing (w : PlannedWorker) : Bool := w.ended.isNone && w.listensFrom.isSome

def answer (w : PlannedWorker) (call : Call) : Answer × PlannedWorker :=
  if !w.isServing then (.failed, w)
  else
    match call with
    | .status => w.answerStatus
    | .analyze _ => w.answerAnalysis
    | .close => w.answerClose

/-- The worker once it has ended, in a way that only counts if it had not ended before. -/
def finish (w : PlannedWorker) (status : Execution.Status) : PlannedWorker :=
  { w with ended := w.ended.orElse fun _ => some status }

end PlannedWorker

end LintBridge.Worker
