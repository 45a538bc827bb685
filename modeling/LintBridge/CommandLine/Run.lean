import LintBridge.Analysis.Session
import LintBridge.CommandLine.Arguments
import LintBridge.CommandLine.Trouble
import LintBridge.Report.Writer

/-! The program: reads its arguments and settings, analyzes a project, and reports. The report goes
to the output and everything else to the log. The exit code says whether anything was found, and
whether the analysis came to its end. -/

namespace LintBridge.CommandLine

open LintBridge.Analysis LintBridge.Worker

def bundleName : String := "css-bundle"

def versionText : String := "stylebridge 0.1.0\n"

def helpText : String :=
  "Lint a project's CSS, Less and SCSS files with stylelint\n\n" ++
    "Usage: stylebridge [OPTIONS] [PROJECT_DIR]\n\nOptions:\n" ++
    String.join (Field.options.map fun f => s!"      {f.shown}\n")

/-- The exit code of a run that could not be carried through. -/
def failureCode : Nat := 2

/-- The exit code of a program that breaks down. -/
def breakdownCode : Nat := 101

structure Outcome where
  exit : Nat
  stdout : String := ""
  logs : List Log.Record := []
  /-- What the user is told outside of the log. -/
  error : String := ""

def applyArguments (s : Settings) (a : Arguments) : Settings :=
  let s := if a.failFast then s.setFailFast true else s
  let s := a.timeout.elim s fun n => s.setTimeout (.ofSecs n)
  let s := a.bundleDir.elim s s.setBundleDir
  let s := if a.interactive then s.setMode .interactive else s
  if a.reports = [] then s else s.setReports a.reports

def supervisorFor (s : Settings) : Supervisor where
  bundle := ⟨bundleName, s.worker.bundleDir, s.worker.entryPoint⟩
  options :=
    { timeout := s.worker.timeout
      memoryHint := s.worker.memoryHint
      runtime := s.worker.runtime
      checkVersion := s.worker.checkVersion }

def jobFor (s : Settings) (project : Path) (rules : RuleSet) : Job where
  project
  rules
  options :=
    { failFast := s.worker.failFast
      contentPolicy := s.analysis.contentPolicy
      mode := s.analysis.mode
      progressInterval := s.analysis.progressInterval }
  suffixes := s.analysis.suffixes
  reports := s.analysis.reports

/-- The rules of the profile: those of the settings, or the default ones if there are none. -/
def profile (s : Settings) : List ActiveRule := if s.rules = [] then defaultRules else s.rules

def exitCode (summary : Summary) (imported : Nat) : Nat :=
  if summary.status = .degraded then failureCode
  else if 0 < summary.issuesSaved + imported then 1
  else 0

def warningRecord (text : String) : Log.Record := { level := .warn, origin := .commandLine, text }

/-- What is prepared before the worker is needed. -/
structure Prepared where
  job : Job
  supervisor : Supervisor

variable {σ : Type}

/-- Finds the project, loads the settings and makes the work directory. -/
def prepare (sys : System σ) (env : Environment) (a : Arguments) (world : σ) :
    List Log.Record × Except Trouble Prepared × σ :=
  match (sys.tree world).resolve a.project with
  | .error reason => ([], .error (.noProject a.project reason), world)
  | .ok project =>
    match Settings.load (sys.tree world) env a.config project with
    | (logs, .error e) => (logs, .error (.settings e), world)
    | (logs, .ok loaded) =>
      let settings := applyArguments loaded.settings a
      match RuleSet.ofActive (profile settings) with
      | (more, .error e) => (logs ++ more, .error (.rules e), world)
      | (more, .ok rules) =>
        let job := jobFor settings project rules
        let made := (sys.tree world).makeDirs FileTree.Refusals.none job.workDir
        let world := sys.setTree (made.final (sys.tree world)) world
        match made.result with
        | .error reason => (logs ++ more, .error (.workDir job.workDir reason), world)
        | .ok () => (logs ++ more, .ok ⟨job, supervisorFor settings⟩, world)

/-- Runs a job with a worker of its own, which is stopped at the end. -/
def analyze (sys : System σ) (env : Environment) (p : Prepared) (world : σ) :
    Findings × Session σ :=
  let (findings, session) := Session.run sys env p.job ⟨⟨p.supervisor, world, []⟩, {}⟩
  let written := session.worker.logs.length
  let worker := session.worker.stop sys.platform
  let logs := findings.logs ++ worker.logs.drop written ++
    session.warnings.messages.map warningRecord
  ({ findings with logs }, { session with worker })

def conclude (a : Arguments) (project : Path) (logs : List Log.Record) (f : Findings) : Outcome :=
  match f.result with
  | .error e =>
    { exit := failureCode, logs := logs ++ f.logs, error := (Trouble.analysis e).text }
  | .ok summary =>
    { exit := exitCode summary f.imported.issues.length
      stdout := Report.write a.format project f.issues f.imported.issues
      logs := logs ++ f.logs }

def runArguments (sys : System σ) (env : Environment) (a : Arguments) (world : σ) :
    Outcome × σ :=
  match prepare sys env a world with
  | (logs, .error trouble, world) =>
    ({ exit := failureCode, logs, error := trouble.text }, world)
  | (logs, .ok prepared, world) =>
    let (findings, session) := analyze sys env prepared world
    (conclude a prepared.job.project logs findings, session.worker.world)

/-- Whether a record says that no worker could be started: it is the only error of a supervisor. -/
def isStartFailure (r : Log.Record) : Bool := r.origin == .supervisor && r.level == .error

/-- What comes of a run that breaks down where its worker would be awaited: what it has logged up to
there, and no report. -/
def Outcome.brokenOff (o : Outcome) : Outcome :=
  { exit := breakdownCode, logs := o.logs.takeWhile fun r => !isStartFailure r }

/-- Runs with a clock, which may break the program down. -/
def runTimed (sys : System σ) (env : Environment) (a : Arguments) (world : σ) : Outcome × σ :=
  let (outcome, t) := runArguments sys.timed env a ⟨world, false⟩
  (if t.isBroken then outcome.brokenOff else outcome, t.world)

def run (sys : System σ) (env : Environment) (arguments : List String) (world : σ) :
    Outcome × σ :=
  match parse arguments with
  | .error e =>
    let hint := "\n\nFor more information, try '--help'.\n"
    ({ exit := failureCode, error := s!"error: {e.message}{hint}" }, world)
  | .ok .help => ({ exit := 0, stdout := helpText }, world)
  | .ok .version => ({ exit := 0, stdout := versionText }, world)
  | .ok (.run a) => runTimed sys env a world

end LintBridge.CommandLine
