import LintBridge.Analysis.Session
import LintBridge.Worker.Handle
import LintBridge.Worker.Listener
import LintBridge.Worker.Plan
import LintBridge.Worker.Supervisor.Run

/-! A machine whose workers follow plans: the first worker that is started follows the first plan,
and so on, the last plan being followed by all later ones. It keeps what workers were asked. -/

namespace LintBridge.Worker

open LintBridge.Execution

inductive Member where
  | program (h : Handle)
  | worker (w : PlannedWorker)

/-- The machine, the plans of its workers, and its processes. -/
structure Workshop where
  machine : Machine
  plans : List Plan := []
  /-- The processes in the order in which they were started. -/
  members : List Member := []
  /-- The number of ports that were handed out. -/
  ports : Nat := 0
  /-- The requests that workers took, the first one first, without those for their status. -/
  taken : List Call := []
  /-- Whether a worker has interrupted the host. -/
  interrupted : Bool := false

namespace Member

/-- When the process listens, if it ever does, and when it ends by itself, if it does. -/
def beginning : Member → Option Duration × Option (Duration × Status)
  | program h => (none, h.course.ending)
  | worker w => (w.listensFrom, w.endsAtStart)

def watched (elapsed : Duration) : Member → Member
  | program h => program { h with elapsed }
  | worker w =>
    match w.endsAtStart with
    | some (time, status) =>
      worker (if time.nanos ≤ elapsed.nanos then w.finish status else w)
    | none => worker w

/-- How the process has ended, if it has. -/
def exitStatus? : Member → Option Status
  | program h => h.exitStatus?
  | worker w => w.ended

def killed : Member → Member
  | program h => program h.kill
  | worker w => worker (w.finish (.signaled 9))

/-- The process after it was ended with some time to do so by itself. -/
def terminated : Member → Member
  | program h => program h.terminate
  | worker w => worker (w.finish (.signaled 9))

/-- The lines that the process has written, read as log entries. -/
def lines : Member → List (Log.Level × String)
  | program h => h.lines
  | worker w => w.lines

end Member

namespace Workshop

def firstPort : Nat := 40000

def workerCount (s : Workshop) : Nat :=
  s.members.countP fun m => match m with
    | .worker _ => true
    | .program _ => false

def nextPlan (s : Workshop) : Plan :=
  ((s.plans[s.workerCount]?).or s.plans.getLast?).getD {}

def memberOf (s : Workshop) : Behaviour → Member
  | .course course => .program { course }
  | .worker vars => .worker { plan := s.nextPlan, vars }

def modify (s : Workshop) (id : ProcessId) (f : Member → Member) : Workshop :=
  { s with members := s.members.modify id f }

def spawn (command : Command) (s : Workshop) : Except String Unit × Workshop :=
  match s.machine.start command.program command.args command.env with
  | .error e => (.error e.message, s)
  | .ok behaviour => (.ok (), { s with members := s.members ++ [s.memberOf behaviour] })

/-- Waits until a process listens, has ended, or the time is up. -/
def awaitStartup (id : ProcessId) (timeout : Duration) (s : Workshop) : Startup × Workshop :=
  let (listens, ends) := (s.members[id]?).elim (none, none) Member.beginning
  let wait := Listener.wait timeout (Listener.attemptsOf listens)
  let (startup, time) : Startup × Duration :=
    match ends with
    | some (time, status) =>
      if time.nanos ≤ wait.ended.nanos then (.exited status, time)
      else (if wait.found then .listening else .timedOut, wait.ended)
    | none => (if wait.found then .listening else .timedOut, wait.ended)
  (startup, s.modify id (Member.watched time))

/-- Keeps a request that was taken, unless it asks for the status. -/
def keep (s : Workshop) (call : Call) : Workshop :=
  match call with
  | .status => s
  | .analyze _ | .close => { s with taken := s.taken ++ [call] }

def send (held : Held) (call : Call) (s : Workshop) : Answer × Workshop :=
  match s.members[held.process]? with
  | some (.worker w) =>
    if w.isServing then
      let (answer, w) := w.answer call
      let s := { s.keep call with members := s.members.set held.process (.worker w) }
      (answer, { s with interrupted := s.interrupted || answer == .unanswered })
    else (.failed, s)
  | some (.program _) | none => (.failed, s)

def platform : Platform Workshop where
  isDir path s := (s.machine.tree.isDir path, s)
  isFile path s := (s.machine.tree.isFile path, s)
  freePort s := (.ok (firstPort + s.ports), { s with ports := s.ports + 1 })
  checkRuntime command s := (CheckedRuntime.check s.machine command, s)
  newClient _ s := (.ok (), s)
  spawn _ command s := spawn command s
  awaitStartup id _ timeout s := awaitStartup id timeout s
  exitStatus id s := ((s.members[id]?).bind Member.exitStatus?, s)
  kill id s := s.modify id Member.killed
  terminate id s := s.modify id Member.terminated
  send := send

/-- The machine as a system for sessions. Its clock stands still, a second after it was started. -/
def system : Analysis.System Workshop where
  platform
  tree s := s.machine.tree
  setTree tree s := { s with machine := { s.machine with tree } }
  now _ := ⟨.ofSecs 1⟩
  isInterrupted s := s.interrupted

/-- The lines that processes have written, process by process. -/
def lines (s : Workshop) : List (Log.Level × String) := s.members.flatMap Member.lines

end Workshop

end LintBridge.Worker
