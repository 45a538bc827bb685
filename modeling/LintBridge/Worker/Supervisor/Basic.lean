import LintBridge.Execution.Status
import LintBridge.Log
import LintBridge.Worker.Bundle
import LintBridge.Worker.Command
import LintBridge.Worker.Exchange
import LintBridge.Worker.Runtime

/-! The supervisor of the worker: what it holds, what it asks of the system, and what happens to it.
It holds at most one worker. Once a start has failed it never tries again. -/

namespace LintBridge.Worker

/-- The number of a process, in the order in which the supervisor creates them. -/
abbrev ProcessId := Nat

structure LaunchOptions where
  /-- How long a worker may take to start, and each request to be answered. -/
  timeout : Duration := .ofSecs 60
  /-- The heap size that the runtime is asked for, in megabytes. -/
  memoryHint : Option Nat := none
  /-- The program that runs the entry point; without one the entry point runs itself. -/
  runtime : Option String := some "node"
  checkVersion : Bool := true
  deriving DecidableEq, Repr, Inhabited

inductive Phase where
  | notStarted
  | starting
  | running
  /-- A start has failed, and no other one will be tried. -/
  | failed
  deriving DecidableEq, Repr, Inhabited

/-- A worker that is held: its process, and the port on which it listens. -/
structure Held where
  process : ProcessId
  port : Nat
  deriving DecidableEq, Repr

inductive Startup where
  | listening
  | timedOut
  | exited (status : Execution.Status)
  deriving DecidableEq, Repr

inductive Answer where
  | reply (r : Http.Reply)
  /-- There is no connection, or it breaks. -/
  | failed
  /-- It is left open until whoever asked gives up. -/
  | unanswered
  deriving DecidableEq, Repr

/-- The reply that came back, if one did. -/
def Answer.reply? : Answer → Option Http.Reply
  | .reply r => some r
  | .failed | .unanswered => none

/-- What a supervisor asks of the system. Each call may change the system. -/
structure Platform (σ : Type) where
  isDir : Path → σ → Bool × σ
  isFile : Path → σ → Bool × σ
  /-- A port that is free, or why there is none. -/
  freePort : σ → Except String Nat × σ
  checkRuntime : String → σ → Except RuntimeError CheckedRuntime × σ
  /-- Makes a client for a port; an error says why there can be none. -/
  newClient : Nat → σ → Except String Unit × σ
  /-- Creates a process of a number; an error says why there can be none. -/
  spawn : ProcessId → Command → σ → Except String Unit × σ
  /-- Waits until a process listens on a port, or has ended, or the time is up. -/
  awaitStartup : ProcessId → Nat → Duration → σ → Startup × σ
  exitStatus : ProcessId → σ → Option Execution.Status × σ
  /-- Ends a process at once. -/
  kill : ProcessId → σ → σ
  /-- Ends a process after it had some time to end by itself. -/
  terminate : ProcessId → σ → σ
  send : Held → Call → σ → Answer × σ

inductive Event where
  | deployed (found : Bool)
  | chosePort (result : Except String Nat)
  | foundEntry (found : Bool)
  | checkedRuntime (result : Except RuntimeError CheckedRuntime)
  | madeClient (result : Except String Unit)
  | launched (command : Command) (result : Except String ProcessId)
  | started (process : ProcessId) (startup : Startup)
  | asked (worker : Held) (call : Call) (answer : Answer)
  /-- A worker that no longer answers was given up. -/
  | discarded (worker : Held)
  | killed (process : ProcessId)
  | terminated (process : ProcessId)
  | noticed (text : String)
  | tookNotices (texts : List String)
  | logged (record : Log.Record)
  | stopped

structure Supervisor where
  bundle : Bundle
  options : LaunchOptions := {}
  phase : Phase := .notStarted
  worker : Option Held := none
  lastCommand : Option Command := none
  /-- How many workers it has launched, modulo `2 ^ 32`. -/
  launches : UInt32 := 0
  spawned : Nat := 0
  /-- What the user should know and has not been told yet. -/
  notices : List String := []
  deriving DecidableEq, Repr, Inhabited

structure Supervised (σ : Type) where
  supervisor : Supervisor
  world : σ
  /-- What has happened, the first event first. -/
  history : List Event := []

namespace Supervised

variable {σ : Type}

def note (s : Supervised σ) (e : Event) : Supervised σ := { s with history := s.history ++ [e] }

def log (s : Supervised σ) (level : Log.Level) (text : String)
    (fields : List (String × Log.FieldValue) := []) : Supervised σ :=
  s.note (.logged { level, origin := .supervisor, text, fields })

def logs (s : Supervised σ) : List Log.Record :=
  s.history.filterMap fun e => match e with
    | .logged record => some record
    | _ => none

def setPhase (s : Supervised σ) (phase : Phase) : Supervised σ :=
  { s with supervisor := { s.supervisor with phase } }

def setWorker (s : Supervised σ) (worker : Option Held) : Supervised σ :=
  { s with supervisor := { s.supervisor with worker } }

end Supervised

end LintBridge.Worker
