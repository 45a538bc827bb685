import LintBridge.FileTree.Basic
import LintBridge.Settings.Document

/-! Where the settings come from: a path that is given, else the file of the project, else the file
in the home directory, else the defaults. The first of these that applies is the only one that
counts; if it cannot be read or is refused, the others are not looked at. The environment has the
last word. -/

namespace LintBridge.Settings

def projectFile : String := ".stylebridge.toml"

def homeFile? (env : Environment) : Option Path :=
  env.home?.map fun home => (home.joinString homeFolder).joinString "config.toml"

/-- Why settings could not be loaded. -/
inductive LoadError where
  | unreadable (path : Path) (reason : Fault)
  | refused (path : Path) (reason : Refusal)
  deriving DecidableEq, Repr

namespace LoadError

/-- The file that could not be loaded. -/
def path : LoadError → Path
  | unreadable path _ | refused path _ => path

def cause : LoadError → String
  | unreadable _ reason => reason.message
  | refused _ reason => reason.message

/-- The verb for what could not be done. -/
def deed : LoadError → String
  | unreadable _ _ => "read"
  | refused _ _ => "parse"

def message (e : LoadError) : String :=
  s!"failed to {e.deed} config at {e.path.display}: {e.cause}"

def record (e : LoadError) : Log.Record :=
  { level := .warn, origin := .config,
    text := s!"Failed to {e.deed} config at {e.path.display}: ", cause := e.cause }

end LoadError

/-- Settings, and the file that they come from. -/
structure Loaded where
  settings : Settings
  source : Option Path
  deriving Repr

/-- The file that the settings come from: one that is given, or the first that is there. -/
def source? (tree : FileTree) (env : Environment) (explicit : Option Path) (project : Path) :
    Option Path :=
  match explicit with
  | some path => some path
  | none => (project.joinString projectFile :: (homeFile? env).toList).find? tree.isFile

def ofFile (tree : FileTree) (env : Environment) (path : Path) : Except LoadError Settings :=
  match tree.readText path with
  | .error reason => .error (.unreadable path reason)
  | .ok text => (ofText env text).mapError (.refused path)

/-- Loads the settings of a project, and says what is logged about it. -/
def load (tree : FileTree) (env : Environment) (explicit : Option Path) (project : Path) :
    List Log.Record × Except LoadError Loaded :=
  let source := source? tree env explicit project
  match source.elim (.ok (default env)) (ofFile tree env) with
  | .error e => ([e.record], .error e)
  | .ok settings =>
    let (settings, logs) := settings.applyEnvironment env.get?
    (logs, .ok ⟨settings, source⟩)

end LintBridge.Settings
