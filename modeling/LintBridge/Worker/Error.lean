import LintBridge.Duration
import LintBridge.Path
import LintBridge.Worker.NodeVersion

/-! What can go wrong with the worker: while it is started, while it runs, and in what it answers.
-/

namespace LintBridge.Worker

/-- Why the program that runs the worker is refused. -/
inductive RuntimeError where
  | notFound (command : String)
  /-- The executable could not be run for its version. -/
  | versionCheck (program : Path) (reason : String)
  /-- What it printed is not a version. -/
  | unreadableVersion (output : String)
  | unsupported (major : Nat)
  deriving DecidableEq, Repr

def RuntimeError.notFoundReason : String := "cannot find binary path"

def RuntimeError.message : RuntimeError → String
  | .notFound command => s!"'{command}' not found in PATH: {notFoundReason}"
  | .versionCheck program reason => s!"failed to run '{program.display} -v': {reason}"
  | .unreadableVersion output => s!"failed to parse Node.js version from '{output}'"
  | .unsupported major =>
    s!"Only Node.js v{NodeVersion.oldestSupported} or later is supported, got {major}. " ++
      "Please upgrade Node.js."

inductive Error where
  | noPort (reason : String)
  /-- The directory of the worker program is missing. -/
  | bundleMissing (bundle : String) (path : Path)
  | runtime (e : RuntimeError)
  /-- The script that the runtime is to execute is missing. -/
  | entryMissing (bundle : String) (path : Path)
  /-- The process could not be created. -/
  | launch (program : String) (reason : String)
  /-- The worker did not listen in time. -/
  | startTimeout (timeout : Duration)
  | exitedEarly (status : String)
  /-- An earlier start failed, and no further one is tried. -/
  | failedBefore
  | notRunning
  | noClient (reason : String)
  | transport (endpoint : String)
  /-- The worker answered with a status that does not mean success. -/
  | unexpectedStatus (status : Nat) (file : Path) (payload : String)
  /-- The answer is not what the worker is to send. -/
  | malformed (file : Path) (payload : String) (reason : String)
  deriving DecidableEq, Repr

namespace Error

/-- What the worker sent, set off by lines of hyphens. -/
def framed (payload : String) : String := s!"\n-----\n{payload}\n-----"

def message : Error → String
  | noPort reason => s!"failed to allocate a local port: {reason}"
  | bundleMissing bundle path => s!"{bundle} bundle directory not found: {path.display}"
  | runtime e => e.message
  | entryMissing bundle path =>
    s!"worker entry point to start {bundle} server doesn't exist: {path.display}"
  | launch program reason => s!"failed to launch '{program}': {reason}"
  | startTimeout timeout => s!"failed to start server ({timeout.secondsText}s timeout)"
  | exitedEarly status => s!"worker exited before accepting connections ({status})"
  | failedBefore => "worker failed to start earlier in this session; not retrying"
  | notRunning => "worker is not running"
  | noClient reason => s!"failed to build HTTP client: {reason}"
  | transport endpoint => s!"request to worker endpoint /{endpoint} failed"
  | unexpectedStatus status file payload =>
    s!"worker answered HTTP {status} for {file.display}:{framed payload}"
  | malformed file payload reason =>
    s!"failed to parse worker response for {file.display}: {reason}{framed payload}"

/-- Whether the error means that the worker could not be started. -/
def isStartupFailure : Error → Bool
  | noPort _ | bundleMissing _ _ | runtime _ | entryMissing _ _ | launch _ _ | noClient _
  | startTimeout _ | exitedEarly _ => true
  | failedBefore | notRunning | transport _ | unexpectedStatus _ _ _ | malformed _ _ _ => false

/-- Whether the worker answered, but not as it is to answer. -/
def isBadAnswer : Error → Bool
  | unexpectedStatus _ _ _ | malformed _ _ _ => true
  | _ => false

end Error

end LintBridge.Worker
