import LintBridge.SourceFile

/-! What the host asks of the worker for one file, and when it sends the text of the file along: the
worker may read a file from disk itself, which is wrong where an editor holds a newer text or the
file is not in UTF-8. -/

namespace LintBridge

inductive HostMode where
  | batch
  | interactive
  deriving DecidableEq, Repr

namespace HostMode

def name : HostMode → String
  | .batch => "batch"
  | .interactive => "interactive"

def ofName? (s : String) : Option HostMode := [batch, interactive].find? (·.name == s)

end HostMode

/-- When the text of a file goes into a request. -/
inductive ContentPolicy where
  | always
  | never
  | whenUntrusted
  deriving DecidableEq, Repr

namespace ContentPolicy

def name : ContentPolicy → String
  | .always => "always"
  | .never => "never"
  | .whenUntrusted => "when-untrusted"

def ofName? (s : String) : Option ContentPolicy :=
  [always, never, whenUntrusted].find? (·.name == s)

/-- Whether the text of a file is sent: under the default policy where the file on disk cannot be
trusted to be what the host means. -/
def sends (policy : ContentPolicy) (mode : HostMode) (file : SourceFile) : Bool :=
  match policy with
  | .always => true
  | .never => false
  | .whenUntrusted => mode == .interactive || file.charset != .utf8

end ContentPolicy

structure Request where
  file : Path
  content : Option String
  /-- Where the rule configuration of the linter is. -/
  config : Path
  deriving DecidableEq, Repr

end LintBridge
