import LintBridge.Clock
import LintBridge.Log
import LintBridge.SourceFile

/-! The progress of a run. A report counts the files that are done and knows the one that is being
analyzed; it is logged when it starts and when it ends, and in between each time that another
interval has passed. -/

namespace LintBridge

structure Progress where
  total : Nat
  done : Nat := 0
  current : Option SourceFile := none
  interval : Duration
  /-- Whether the clock can tell when the first interval will have passed; else none ever does. -/
  ticking : Bool := true
  /-- The time that has passed since the report started. -/
  elapsed : Duration := ⟨0⟩
  deriving DecidableEq, Repr

namespace Progress

def plural (n : Nat) : String := if n = 1 then "" else "s"

def note (text : String) : Log.Record := { level := .info, origin := .progress, text }

def start (now : Instant) (total : Nat) (interval : Duration) : Progress :=
  { total, interval, ticking := (now.after? interval).isSome }

def startRecord (p : Progress) : Log.Record :=
  note s!"{p.total} source file{plural p.total} to be analyzed"

/-- The report once a file is being analyzed. -/
def startFile (p : Progress) (file : SourceFile) : Progress := { p with current := some file }

/-- The report once a file is done. -/
def finishFile (p : Progress) : Progress := { p with done := p.done + 1, current := none }

def remaining (p : Progress) : Nat := p.total - p.done

def tickRecord (p : Progress) : Log.Record :=
  let file := p.current.elim "" fun f => s!", current file: {f.display}"
  note s!"{p.done}/{p.total} source files have been analyzed{file}"

def ticks (p : Progress) : Nat := if p.ticking then p.elapsed.nanos / p.interval.nanos else 0

/-- The report after some more time, and what is logged in that time. -/
def wait (p : Progress) (d : Duration) : List Log.Record × Progress :=
  let later := { p with elapsed := ⟨p.elapsed.nanos + d.nanos⟩ }
  (List.replicate (later.ticks - p.ticks) p.tickRecord, later)

def stopRecord (p : Progress) : Log.Record :=
  note s!"{p.done}/{p.total} source file{plural p.total} have been analyzed"

def cancelRecord (p : Progress) : Log.Record :=
  note s!"Analysis cancelled after {p.done}/{p.total} source files"

inductive Step where
  | start (total : Nat) (interval : Duration)
  | startFile (file : SourceFile)
  | finishFile
  | wait (d : Duration)
  | stop
  | cancel
  | drop
  deriving DecidableEq, Repr

/-- What a step logs and what it leaves. A report that has ended, or was dropped, is silent. -/
def Step.run (report : Option Progress) (step : Step) : List Log.Record × Option Progress :=
  match step, report with
  | .start total interval, _ =>
    let p := Progress.start .start total interval
    ([p.startRecord], some p)
  | _, none => ([], none)
  | .startFile file, some p => ([], some (p.startFile file))
  | .finishFile, some p => ([], some p.finishFile)
  | .wait d, some p =>
    let (logs, p) := p.wait d
    (logs, some p)
  | .stop, some p => ([p.stopRecord], none)
  | .cancel, some p => ([p.cancelRecord], none)
  | .drop, some _ => ([], none)

end Progress

end LintBridge
