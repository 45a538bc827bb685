import LintBridge.Text.Quoted

/-! Log records: a level, the part of the program that speaks, a text and perhaps named fields.
Where a text ends in the text of an underlying error, that error is kept apart as the cause. -/

namespace LintBridge.Log

inductive Level where
  | debug
  | info
  | warn
  | error
  deriving DecidableEq, Repr

def Level.name : Level → String
  | .debug => "DEBUG"
  | .info => "INFO"
  | .warn => "WARN"
  | .error => "ERROR"

/-- The part of the program that writes a record. -/
inductive Origin where
  | commandLine
  | config
  | analysis
  | rules
  | progress
  | reportImport
  | supervisor
  | worker
  | files
  deriving DecidableEq, Repr

/-- The name under which a part of the program writes its records. -/
def Origin.name : Origin → String
  | .commandLine => "stylebridge"
  | .config => "stylebridge_config"
  | .analysis => "stylebridge_analyzer::sensor"
  | .rules => "stylebridge_analyzer::rules"
  | .progress => "stylebridge_analyzer::progress"
  | .reportImport => "stylebridge_analyzer::external"
  | .supervisor => "stylebridge_bridge::server"
  | .worker => "stylebridge::worker"
  | .files => "stylebridge_utils::atomic_write"

inductive FieldValue where
  | number (n : Nat)
  | text (s : String)
  deriving DecidableEq, Repr

structure Record where
  level : Level
  origin : Origin
  text : String
  /-- The text of the underlying error that ends the message, if one does. -/
  cause : String := ""
  fields : List (String × FieldValue) := []
  deriving DecidableEq, Repr

def Record.message (r : Record) : String := r.text ++ r.cause

def FieldValue.shown : FieldValue → String
  | .number n => toString n
  | .text s => Text.quoted s

/-- A record as a line shows it: the message, and then the fields. -/
def Record.line (r : Record) : String :=
  r.fields.foldl (fun s f => s ++ " " ++ f.1 ++ "=" ++ f.2.shown) r.message

end LintBridge.Log
