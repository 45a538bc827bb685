import LintBridge.Duration
import LintBridge.Log
import LintBridge.Request
import LintBridge.Rule
import LintBridge.Settings.Expand

/-! The settings of the program: how the worker is started, which files are analyzed and how, and
the rules of the profile. Values that a document gives are checked before they become settings. -/

namespace LintBridge

open LintBridge.Text

/-- How the worker is started and supervised. -/
structure WorkerSettings where
  /-- How long the worker may take to start, and each request to be answered. -/
  timeout : Duration
  /-- The heap size that the runtime is asked for, in megabytes. -/
  memoryHint : Option Nat
  /-- The program that runs the entry point; without one the entry point runs itself. -/
  runtime : Option String
  checkVersion : Bool
  bundleDir : Path
  /-- Where the entry point is; a relative path is one below the bundle directory. -/
  entryPoint : Path
  failFast : Bool
  deriving DecidableEq, Repr

/-- Which files are analyzed, and how requests for them are made. -/
structure AnalysisSettings where
  /-- Suffixes of file names, in lower case and without their dot. -/
  suffixes : List String
  contentPolicy : ContentPolicy
  mode : HostMode
  progressInterval : Duration
  /-- Reports of other linter runs that are to be imported. -/
  reports : List Path
  deriving DecidableEq, Repr

structure Settings where
  worker : WorkerSettings
  analysis : AnalysisSettings
  /-- The rules that the document names; none of them means the default profile. -/
  rules : List ActiveRule
  deriving DecidableEq, Repr

namespace Settings

/-- What makes well-formed settings invalid. -/
inductive Invalid where
  | zeroTimeout
  | zeroMemoryHint
  | emptyEntryPoint
  | noSuffixes
  | zeroProgressInterval
  | nestedRuleParam (rule param : String)
  deriving DecidableEq, Repr

def Invalid.message : Invalid → String
  | .zeroTimeout => "bridge.timeout_secs must be greater than zero"
  | .zeroMemoryHint => "bridge.max_old_space_size must be greater than zero"
  | .emptyEntryPoint => "bridge.entry_point must not be empty"
  | .noSuffixes => "analysis.file_suffixes must name at least one suffix"
  | .zeroProgressInterval => "analysis.progress_interval_secs must be greater than zero"
  | .nestedRuleParam rule param =>
    s!"rules.{rule}.{param}: nested tables are not valid rule parameters"

/-- The directory below the home directory that holds what belongs to the program. -/
def homeFolder : String := ".stylebridge"

/-- Where the worker program is unless the settings say otherwise. -/
def defaultBundleDir (env : Environment) : Path :=
  match env.home? with
  | some home => (home.joinString homeFolder).joinString "css-bundle"
  | none => Path.ofString "css-bundle"

/-- The worker settings where the document says nothing. -/
def defaultWorker (env : Environment) : WorkerSettings where
  timeout := .ofSecs 60
  memoryHint := none
  runtime := some "node"
  checkVersion := true
  bundleDir := defaultBundleDir env
  entryPoint := Path.ofString "bin/server"
  failFast := false

/-- The analysis settings where the document says nothing. -/
def defaultAnalysis : AnalysisSettings where
  suffixes := ["css", "less", "scss"]
  contentPolicy := .whenUntrusted
  mode := .batch
  progressInterval := .ofSecs 10
  reports := []

/-- The settings without a document. -/
def default (env : Environment) : Settings := ⟨defaultWorker env, defaultAnalysis, []⟩

/-! ### Changes -/

def setFailFast (s : Settings) (failFast : Bool) : Settings :=
  { s with worker := { s.worker with failFast } }

/-- Sets the timeout, unless it is zero. -/
def setTimeout (s : Settings) (timeout : Duration) : Settings :=
  if timeout.nanos = 0 then s else { s with worker := { s.worker with timeout } }

def setBundleDir (s : Settings) (bundleDir : Path) : Settings :=
  { s with worker := { s.worker with bundleDir } }

def setMode (s : Settings) (mode : HostMode) : Settings :=
  { s with analysis := { s.analysis with mode } }

/-- Sets the reports to import, in place of all earlier ones. -/
def setReports (s : Settings) (reports : List Path) : Settings :=
  { s with analysis := { s.analysis with reports } }

/-! ### The environment -/

/-- The variable that says whether a failed analysis ends the run. -/
def failFastVariable : String := "STYLEBRIDGE_FAIL_FAST"

def truth? (s : String) : Option Bool :=
  if ["1", "true", "yes"].contains s then some true
  else if ["0", "false", "no"].contains s then some false
  else none

/-- The record about a value of the variable that says neither yes nor no. -/
def ignoredVariable (value : String) : Log.Record :=
  { level := .warn, origin := .config,
    text := s!"Ignoring {failFastVariable}={value}: expected true or false" }

/-- The settings after what the environment says, and what is logged about it. Case and white space
around the value do not count. -/
def applyEnvironment (s : Settings) (lookup : String → Option String) :
    Settings × List Log.Record :=
  match lookup failFastVariable with
  | none => (s, [])
  | some raw =>
    let value := asciiLower (trim raw)
    match truth? value with
    | some failFast => (s.setFailFast failFast, [])
    | none => (s, [ignoredVariable value])

end Settings

end LintBridge
