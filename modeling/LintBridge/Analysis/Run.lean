import LintBridge.Analysis.Basic
import LintBridge.Progress
import LintBridge.WarningList

/-! The state of a run: what lies around it, what it has counted, and its history. The host, the
worker and the one who may cancel are what lies around a run; each call to them may change them. -/

namespace LintBridge.Analysis

/-- What lies around a run. A call of the worker that is aborted, because the run was cancelled
while it was under way, has no answer. -/
structure Surroundings (σ : Type) where
  now : σ → Instant
  isCancelled : σ → Bool
  files : σ → List SourceFile × σ
  workDir : σ → Path × σ
  store : Path → String → σ → Except Fault Unit × σ
  readText : SourceFile → σ → Except String String × σ
  save : Issue → σ → σ
  ensureRunning : σ → Except Worker.Error Unit × σ
  takeNotices : σ → List String × σ
  commandInfo : σ → Option String × σ
  isAlive : σ → Option Bool × σ
  analyze : Request → σ → Option (Except Worker.Error Outcome) × σ

inductive Event where
  | listedFiles (files : List SourceFile)
  | storedConfig (path : Path) (text : String) (result : Except Fault Unit)
  | startedWorker (result : Except Worker.Error Unit)
  | tookNotices (notices : List String)
  | askedCommand (info : Option String)
  | askedAlive (answer : Option Bool)
  | readText (file : SourceFile) (result : Except String String)
  | askedAnalysis (request : Request) (answer : Option (Except Worker.Error Outcome))
  | saved (issue : Issue)
  | logged (record : Log.Record)
  | warned (text : String)

/-- An event, and the progress that was reported when it happened. -/
structure Moment where
  event : Event
  progress : Option Progress

structure Run (σ : Type) where
  world : σ
  warnings : WarningList
  summary : Summary := {}
  progress : Option Progress := none
  /-- What has happened, the first event first. -/
  history : List Moment := []

namespace Run

variable {σ : Type}

def note (r : Run σ) (e : Event) : Run σ :=
  { r with history := r.history ++ [⟨e, r.progress⟩] }

def log (r : Run σ) (record : Log.Record) : Run σ := r.note (.logged record)

def say (r : Run σ) (level : Log.Level) (text : String) (cause : String := "") : Run σ :=
  r.log { level, origin := .analysis, text, cause }

def warn (r : Run σ) (text : String) : Run σ :=
  { r with warnings := r.warnings.add text }.note (.warned text)

def events (r : Run σ) : List Event := r.history.map (·.event)

def logs (r : Run σ) : List Log.Record :=
  r.events.filterMap fun e => match e with
    | .logged record => some record
    | _ => none

/-- The issues that a run saved, in order. -/
def issues (r : Run σ) : List Issue :=
  r.events.filterMap fun e => match e with
    | .saved issue => some issue
    | _ => none

/-- The analyses that a run asked for, in order. -/
def requests (r : Run σ) : List Request :=
  r.events.filterMap fun e => match e with
    | .askedAnalysis request _ => some request
    | _ => none

end Run

end LintBridge.Analysis
