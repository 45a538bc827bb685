import LintBridge.Analysis.Run
import LintBridge.Message

/-! The analysis of the files of a host. Eligible files go to the worker one by one, in the order in
which the host lists them, and what the worker finds is saved as issues. The run ends early when it
is cancelled, and when the worker fails. -/

namespace LintBridge.Analysis

variable {σ : Type}

/-! ### One file -/

/-- Saves the issue of a finding, if its rule is active. -/
def saveFinding (s : Surroundings σ) (rules : RuleSet) (file : SourceFile) (r : Run σ)
    (d : Diagnostic) : Run σ :=
  match rules.hostKey? d.rule with
  | none => r.say .error s!"Unknown stylelint rule or rule not enabled: '{d.rule}'"
  | some key =>
    let issue : Issue := ⟨file, key, d.line, Message.core d.message⟩
    { r with
      world := s.save issue r.world
      summary := { r.summary with issuesSaved := r.summary.issuesSaved + 1 } }.note (.saved issue)

def saveOutcome (s : Surroundings σ) (rules : RuleSet) (file : SourceFile) (r : Run σ) :
    Outcome → Run σ
  | .diagnostics items => items.foldl (saveFinding s rules file) r
  | .parseFailure line message =>
    { r.say .error s!"Failed to parse {file.display}, line {line}, {message}" with
      summary := { r.summary with parseFailures := r.summary.parseFailures + 1 } }

/-- The request for a file. A text that is to be sent along and cannot be read is left out. -/
def requestFor (s : Surroundings σ) (options : Options) (config : Path) (file : SourceFile)
    (path : Path) (r : Run σ) : Request × Run σ :=
  if options.contentPolicy.sends options.mode file then
    let (result, world) := s.readText file r.world
    let r := { r with world }.note (.readText file result)
    match result with
    | .ok text => (⟨path, some text, config⟩, r)
    | .error cause =>
      (⟨path, none, config⟩, r.say .warn
        s!"Failed to read {file.display}, the worker will read it from disk: " cause)
  else (⟨path, none, config⟩, r)

/-- Asks whether the worker is alive, unless the run is cancelled. -/
def askAlive (s : Surroundings σ) (r : Run σ) : Except Failure Bool × Run σ :=
  if s.isCancelled r.world then (.error .cancelled, r)
  else
    let (answer, world) := s.isAlive r.world
    let r := { r with world }.note (.askedAlive answer)
    match answer with
    | some alive => (.ok alive, r)
    | none => (.error .cancelled, r)

/-- Asks the worker to analyze a file, unless the run is cancelled. -/
def askAnalysis (s : Surroundings σ) (request : Request) (r : Run σ) :
    Except Failure Outcome × Run σ :=
  if s.isCancelled r.world then (.error .cancelled, r)
  else
    let (answer, world) := s.analyze request r.world
    let r := { r with world }.note (.askedAnalysis request answer)
    match answer with
    | some (.ok outcome) => (.ok outcome, r)
    | some (.error e) => (.error (.worker e), r)
    | none => (.error .cancelled, r)

def showFile (file : SourceFile) (r : Run σ) : Run σ :=
  { r with progress := r.progress.map (·.startFile file) }

def countFile (r : Run σ) : Run σ :=
  { r with
    progress := r.progress.map Progress.finishFile
    summary := { r.summary with filesAnalyzed := r.summary.filesAnalyzed + 1 } }

/-- Analyzes the local file at a path, one of a number of eligible files. -/
def analyzeFile (s : Surroundings σ) (rules : RuleSet) (options : Options) (config : Path)
    (total : Nat) (file : SourceFile) (path : Path) (r : Run σ) : Except Failure Unit × Run σ :=
  match askAlive s r with
  | (.error e, r) => (.error e, r)
  | (.ok false, r) => (.error (.unresponsive r.summary.filesAnalyzed total), r)
  | (.ok true, r) =>
    let (request, r) := requestFor s options config file path (showFile file r)
    match askAnalysis s request r with
    | (.error e, r) => (.error e, r)
    | (.ok outcome, r) => (.ok (), countFile (saveOutcome s rules file r outcome))

/-! ### All files -/

/-- Analyzes files one by one. Files that are not local are passed over. -/
def analyzeFiles (s : Surroundings σ) (rules : RuleSet) (options : Options) (config : Path)
    (total : Nat) : List SourceFile → Run σ → Except Failure Unit × Run σ
  | [], r => (.ok (), r)
  | file :: rest, r =>
    if s.isCancelled r.world then (.error .cancelled, r)
    else
      match file.path? with
      | none =>
        analyzeFiles s rules options config total rest
          (r.say .debug s!"Skipping {file.display}, it is not a local file")
      | some path =>
        match analyzeFile s rules options config total file path r with
        | (.error e, r) => (.error e, r)
        | (.ok (), r) => analyzeFiles s rules options config total rest r

def analyzeReporting (s : Surroundings σ) (rules : RuleSet) (options : Options) (config : Path)
    (files : List SourceFile) (r : Run σ) : Except Failure Unit × Run σ :=
  let progress := Progress.start (s.now r.world) files.length options.progressInterval
  let started := { r with progress := some progress }.log progress.startRecord
  let (result, r) := analyzeFiles s rules options config files.length files started
  let closing :=
    match result, r.progress with
    | .ok (), some p => some p.stopRecord
    | .error .cancelled, some p => some p.cancelRecord
    | _, _ => none
  let ended := { r with progress := none }
  (result, closing.elim ended ended.log)

/-- Stores the configuration of the linter in the work directory. -/
def storeConfig (s : Surroundings σ) (rules : RuleSet) (r : Run σ) :
    Except Failure Path × Run σ :=
  let (workDir, world) := s.workDir r.world
  let path := RuleSet.configPath workDir
  let (result, world) := s.store path rules.documentText world
  let r := { r with world }.note (.storedConfig path rules.documentText result)
  match result with
  | .ok () => (.ok path, r)
  | .error reason => (.error (.config ⟨path, reason⟩), r)

/-- Starts the worker if it is not running. Its notices become warnings, and when it could not be
started the log says which command was tried. -/
def startWorker (s : Surroundings σ) (r : Run σ) : Except Failure Unit × Run σ :=
  let (started, world) := s.ensureRunning r.world
  let r := { r with world }.note (.startedWorker started)
  let (notices, world) := s.takeNotices r.world
  let r := notices.foldl Run.warn ({ r with world }.note (.tookNotices notices))
  match started with
  | .ok () => (.ok (), r)
  | .error e =>
    if e.isStartupFailure then
      let (info, world) := s.commandInfo r.world
      let r := { r with world }.note (.askedCommand info)
      (.error (.worker e), info.elim r (r.say .error))
    else (.error (.worker e), r)

def runFiles (s : Surroundings σ) (rules : RuleSet) (options : Options)
    (files : List SourceFile) (r : Run σ) : Except Failure Unit × Run σ :=
  if s.isCancelled r.world then (.error .cancelled, r)
  else
    match storeConfig s rules r with
    | (.error e, r) => (.error e, r)
    | (.ok config, r) =>
      match startWorker s r with
      | (.error e, r) => (.error e, r)
      | (.ok (), r) => analyzeReporting s rules options config files r

/-! ### The run -/

def Run.setStatus (r : Run σ) (status : Status) : Run σ :=
  { r with summary := { r.summary with status } }

def interrupted (analyzed : Nat) : Log.Record :=
  { level := .info, origin := .analysis,
    text := "Analysis interrupted because the host cancelled it",
    fields := [("analyzed", .number analyzed)] }

def warningAbout (e : Failure) : String := "CSS files were not analyzed. " ++ e.message

/-- Ends a run: cancelling it is no failure, and any other failure is either returned or turned into
a warning. -/
def conclude (options : Options) : Except Failure Unit × Run σ → Except Failure Summary × Run σ
  | (.ok (), r) => (.ok r.summary, r)
  | (.error .cancelled, r) =>
    let r := (r.log (interrupted r.summary.filesAnalyzed)).setStatus .cancelled
    (.ok r.summary, r)
  | (.error e, r) =>
    if options.failFast then (.error e, r)
    else
      let r := ((r.say .error s!"Failure during analysis: {e.message}").warn
        (warningAbout e)).setStatus .degraded
      (.ok r.summary, r)

def execute (s : Surroundings σ) (rules : RuleSet) (options : Options) (warnings : WarningList)
    (world : σ) : Except Failure Summary × Run σ :=
  let r : Run σ := { world, warnings }
  if rules.isEmpty then
    let r := (r.say .warn "No rules are activated in CSS Quality Profile").setStatus .skipped
    (.ok r.summary, r)
  else
    let (files, world) := s.files r.world
    let r := { r with world }.note (.listedFiles files)
    match files.filter isEligible with
    | [] =>
      let r := (r.say .info "No CSS files to analyze").setStatus .skipped
      (.ok r.summary, r)
    | file :: rest =>
      let summary := { r.summary with filesEligible := rest.length + 1 }
      conclude options (runFiles s rules options (file :: rest) { r with summary })

end LintBridge.Analysis
