import LintBridge.Analysis.Host
import LintBridge.Project.Files
import LintBridge.Report.Import
import LintBridge.Settings.Expand
import LintBridge.Worker.Deadline
import LintBridge.Worker.Supervisor.Run

/-! Analyzing projects on disk with one supervised worker. A session runs any number of jobs: its
worker lives from one to the next, and so do its warnings. -/

namespace LintBridge.Analysis

open LintBridge.Text LintBridge.Worker

/-- A system in which a session runs: what its supervisor asks of it, its files, its clock, and
whether its user has interrupted the program. -/
structure System (σ : Type) where
  platform : Platform σ
  tree : σ → FileTree
  setTree : FileTree → σ → σ
  now : σ → Instant
  isInterrupted : σ → Bool

/-- The directory below a project that holds what belongs to an analysis. -/
def workFolder : String := ".stylebridge"

/-- A job: the project that is to be analyzed, and how. -/
structure Job where
  project : Path
  rules : RuleSet
  options : Options := {}
  /-- Suffixes of file names, in lower case and without their dot. -/
  suffixes : List String
  /-- Reports that are to be imported; relative paths are below the project. -/
  reports : List Path := []
  /-- Whether the job was cancelled before it began. -/
  cancelled : Bool := false

def Job.workDir (j : Job) : Path := j.project.joinString workFolder

namespace System

variable {σ : Type}

/-- The system with a platform that needs its clock. -/
def timed (sys : System σ) : System (Timed σ) where
  platform := sys.platform.timed sys.now
  tree t := sys.tree t.world
  setTree tree t := t.enter (sys.setTree tree t.world)
  now t := sys.now t.world
  isInterrupted t := sys.isInterrupted t.world

/-- What lies around the run of a job on some files, but the worker. -/
def host (sys : System σ) (job : Job) (files : List SourceFile) : Host σ where
  now := sys.now
  isCancelled world := job.cancelled || sys.isInterrupted world
  files world := (files, world)
  workDir world := (job.workDir, world)
  store path text world :=
    let (tree, result) := (sys.tree world).write path (Utf8.ofString text)
    (result, sys.setTree tree world)
  readText file world := ((Project.readText (sys.tree world) file).mapError Fault.message, world)
  save _ world := world

def surroundings (sys : System σ) (job : Job) (files : List SourceFile) :
    Surroundings (Supervised σ) :=
  (sys.host job files).surroundings sys.platform

end System

/-- A session: its supervisor in the system, and its warnings. -/
structure Session (σ : Type) where
  worker : Supervised σ
  warnings : WarningList := {}

structure Findings where
  result : Except Failure Summary
  issues : List Issue
  imported : Report.Import
  /-- The log of the job, that of the supervisor included. -/
  logs : List Log.Record

/-- The records of a run with those that the supervisor wrote while the run started it. -/
def mergedLogs (supervisor : List Log.Record) (events : List Event) : List Log.Record :=
  events.flatMap fun e => match e with
    | .startedWorker _ => supervisor
    | .logged record => [record]
    | _ => []

/-- Runs a job: finds the style sheets of the project, imports reports, and analyzes the sheets. -/
def Session.run (sys : System σ) (env : Environment) (job : Job) (s : Session σ) :
    Findings × Session σ :=
  let tree := sys.tree s.worker.world
  let files := Project.scanTree tree env job.project job.suffixes
  let imported := Report.importAll job.rules tree job.project files job.reports
  let (result, r) :=
    execute (sys.surroundings job files) job.rules job.options s.warnings s.worker
  let written := r.world.logs.drop s.worker.logs.length
  (⟨result, r.issues, imported, imported.logs ++ mergedLogs written r.events⟩,
    ⟨r.world, r.warnings⟩)

end LintBridge.Analysis
