import LintBridge.Analysis.Run

/-! Surroundings that follow a script: what the host has and what the worker answers is laid down
beforehand, and so is the call in which the run is cancelled. -/

namespace LintBridge.Analysis

/-- The calls at which a script can cancel the run. -/
inductive CallName where
  | files
  | ensureRunning
  | takeNotices
  | commandInfo
  | isAlive
  | readText
  | analyze
  | save
  deriving DecidableEq, Repr

/-- The call that an event tells of, if it tells of one. -/
def Event.call? : Event → Option CallName
  | .listedFiles _ => some .files
  | .startedWorker _ => some .ensureRunning
  | .tookNotices _ => some .takeNotices
  | .askedCommand _ => some .commandInfo
  | .askedAlive _ => some .isAlive
  | .readText _ _ => some .readText
  | .askedAnalysis _ _ => some .analyze
  | .saved _ => some .save
  | .storedConfig _ _ _ | .logged _ | .warned _ => none

/-- What a scripted worker does when it is asked to analyze a file. -/
inductive ScriptedAnswer where
  | answer (result : Except Worker.Error Outcome)
  /-- It never answers. -/
  | hang

/-- A script, and how far it has been followed. -/
structure Script where
  files : List SourceFile := []
  workDir : Path
  /-- Why the configuration cannot be stored, if it cannot. -/
  storeFault : Option Fault := none
  texts : List (String × String) := []
  startError : Option Worker.Error := none
  notices : List String := []
  commandInfo : Option String := none
  /-- Whether the worker is alive, call by call; then it always is. -/
  alive : List Bool := []
  /-- What the worker answers, call by call; then it finds nothing. -/
  answers : List ScriptedAnswer := []
  /-- The call of a name, counted from 1, in which the run is cancelled. -/
  cancelOn : Option (CallName × Nat) := none
  cancelled : Bool := false
  calls : List CallName := []

namespace Script

/-- Counts a call, which may be the one that cancels the run. -/
def call (s : Script) (name : CallName) : Script :=
  let calls := name :: s.calls
  let now := s.cancelOn == some (name, calls.count name)
  { s with calls, cancelled := s.cancelled || now }

/-- What a file without a text gives as the reason. -/
def noText : String := "no such buffer"

def answerAlive (s : Script) : Option Bool × Script :=
  match s.alive with
  | [] => (some true, s)
  | b :: rest => (some b, { s with alive := rest })

def answerAnalysis (s : Script) : Option (Except Worker.Error Outcome) × Script :=
  match s.answers with
  | [] => (some (.ok (.diagnostics [])), s)
  | .answer result :: rest => (some result, { s with answers := rest })
  | .hang :: rest => (none, { s with answers := rest })

def surroundings : Surroundings Script where
  now _ := .start
  isCancelled s := s.cancelled
  files s := (s.files, s.call .files)
  workDir s := (s.workDir, s)
  store _ _ s := (s.storeFault.elim (.ok ()) .error, s)
  readText file s :=
    ((s.texts.lookup file.url.text).elim (.error noText) .ok, s.call .readText)
  save _ s := s.call .save
  ensureRunning s := (s.startError.elim (.ok ()) .error, s.call .ensureRunning)
  takeNotices s := (s.notices, s.call .takeNotices)
  commandInfo s := (s.commandInfo, s.call .commandInfo)
  isAlive s := (s.call .isAlive).answerAlive
  analyze _ s := (s.call .analyze).answerAnalysis

end Script

end LintBridge.Analysis
