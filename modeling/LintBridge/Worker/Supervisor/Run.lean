import LintBridge.Worker.Supervisor.Basic

/-! What a supervisor does. A start goes through its steps in order, and the first one that fails
ends it; a process that was created and did not come up is killed. -/

namespace LintBridge.Worker.Supervised

variable {σ : Type}

/-! ### Requests -/

def ask (p : Platform σ) (worker : Held) (call : Call) (s : Supervised σ) :
    Answer × Supervised σ :=
  let (answer, world) := p.send worker call s.world
  (answer, { s with world }.note (.asked worker call answer))

def isAlive (p : Platform σ) (s : Supervised σ) : Bool × Supervised σ :=
  match s.supervisor.worker with
  | none => (false, s)
  | some worker =>
    let (answer, s) := s.ask p worker .status
    (Worker.isAlive answer.reply?, s)

def analyze (p : Platform σ) (request : Request) (s : Supervised σ) :
    Except Error Outcome × Supervised σ :=
  match s.supervisor.worker with
  | none => (.error .notRunning, s)
  | some worker =>
    let (answer, s) := s.ask p worker (.analyze request)
    (readReply request answer.reply?, s)

/-! ### The steps of a start -/

def deploy (p : Platform σ) (s : Supervised σ) : Except Error Unit × Supervised σ :=
  let bundle := s.supervisor.bundle
  let (found, world) := p.isDir bundle.root s.world
  let s := { s with world }.note (.deployed found)
  (if found then .ok () else .error (.bundleMissing bundle.name bundle.root), s)

def choosePort (p : Platform σ) (s : Supervised σ) : Except Error Nat × Supervised σ :=
  let (result, world) := p.freePort s.world
  (result.mapError .noPort, { s with world }.note (.chosePort result))

def checkEntry (p : Platform σ) (s : Supervised σ) : Except Error Unit × Supervised σ :=
  let bundle := s.supervisor.bundle
  let (found, world) := p.isFile bundle.entryPoint s.world
  let s := { s with world }.note (.foundEntry found)
  (if found then .ok () else .error (.entryMissing bundle.name bundle.entryPoint), s)

/-- Tells the user something, in the log and as a notice. -/
def notify (s : Supervised σ) (text : String) : Supervised σ :=
  let s := s.log .warn text
  { s with supervisor := { s.supervisor with notices := s.supervisor.notices ++ [text] } }.note
    (.noticed text)

/-- The runtime by its path, once it has been checked. -/
def checkedProgram (p : Platform σ) (runtime : String) (s : Supervised σ) :
    Except Error Path × Supervised σ :=
  let (result, world) := p.checkRuntime runtime s.world
  let s := { s with world }.note (.checkedRuntime result)
  match result with
  | .error e => (.error (.runtime e), s)
  | .ok checked => (.ok checked.program, checked.notice?.elim s s.notify)

/-- The program that runs the entry point, if there is one beside it. -/
def chooseProgram (p : Platform σ) (s : Supervised σ) :
    Except Error (Option Path) × Supervised σ :=
  match s.supervisor.options.runtime with
  | none => (.ok none, s)
  | some runtime =>
    if s.supervisor.options.checkVersion then
      let (program, s) := s.checkedProgram p runtime
      (program.map some, s)
    else (.ok (some (Path.ofString runtime)), s)

def optionsVariable : String := "NODE_OPTIONS"

def commandFor (supervisor : Supervisor) (program : Option Path) (port : Nat) : Command :=
  let entry := supervisor.bundle.entryPoint
  let base : Command := match program with
    | some program => { program, args := [entry.bytes] }
    | none => { program := entry }
  let command := base.addArg (Text.Utf8.ofString (toString port))
  match supervisor.options.memoryHint with
  | some megabytes => command.addEnv optionsVariable s!"--max-old-space-size={megabytes}"
  | none => command

def remember (s : Supervised σ) (command : Command) : Supervised σ :=
  { s with supervisor := { s.supervisor with lastCommand := some command } }

def makeClient (p : Platform σ) (port : Nat) (s : Supervised σ) :
    Except Error Unit × Supervised σ :=
  let (result, world) := p.newClient port s.world
  (result.mapError .noClient, { s with world }.note (.madeClient result))

/-- Creates a process. The launch counts even if there is to be no process. -/
def launch (p : Platform σ) (command : Command) (s : Supervised σ) :
    Except Error ProcessId × Supervised σ :=
  let process := s.supervisor.spawned
  let (result, world) := p.spawn process command s.world
  let supervisor := { s.supervisor with launches := s.supervisor.launches + 1 }
  match result with
  | .ok () =>
    let s := { s with world, supervisor := { supervisor with spawned := process + 1 } }
    (.ok process, s.note (.launched command (.ok process)))
  | .error reason =>
    let s := { s with world, supervisor }
    (.error (.launch command.program.display reason),
      s.note (.launched command (.error reason)))

def kill (p : Platform σ) (process : ProcessId) (s : Supervised σ) : Supervised σ :=
  { s with world := p.kill process s.world }.note (.killed process)

/-- Waits until a process listens. If it does not come to that, the process may still run. -/
def awaitListener (p : Platform σ) (process : ProcessId) (port : Nat) (s : Supervised σ) :
    Except Error Held × Supervised σ :=
  let timeout := s.supervisor.options.timeout
  let (startup, world) := p.awaitStartup process port timeout s.world
  let s := { s with world }.note (.started process startup)
  match startup with
  | .listening =>
    (.ok ⟨process, port⟩, s.log .info s!"{s.supervisor.bundle.name} server is up"
      [("port", .number port), ("pid", .number process)])
  | .timedOut => (.error (.startTimeout timeout), s)
  | .exited status => (.error (.exitedEarly status.text), s)

/-- Waits until a process listens, and kills it if it does not come to that. -/
def awaitUp (p : Platform σ) (process : ProcessId) (port : Nat) (s : Supervised σ) :
    Except Error Held × Supervised σ :=
  match s.awaitListener p process port with
  | (.ok worker, s) => (.ok worker, s)
  | (.error e, s) => (.error e, s.kill p process)

/-- Goes on with what a step has given, unless it has failed. -/
def andThen {α β : Type} (r : Except Error α × Supervised σ)
    (f : α → Supervised σ → Except Error β × Supervised σ) : Except Error β × Supervised σ :=
  match r with
  | (.ok a, s) => f a s
  | (.error e, s) => (.error e, s)

def start (p : Platform σ) (s : Supervised σ) : Except Error Held × Supervised σ :=
  andThen (s.deploy p) fun _ s =>
  andThen (s.choosePort p) fun port s =>
  andThen (s.checkEntry p) fun _ s =>
  andThen (s.chooseProgram p) fun program s =>
    let command := commandFor s.supervisor program port
    andThen ((s.remember command).makeClient p port) fun _ s =>
    andThen (s.launch p command) fun process s =>
      s.awaitUp p process port

/-! ### Operations -/

/-- Lets go of a worker that no longer answers. Its process may still run. -/
def giveUp (p : Platform σ) (worker : Held) (s : Supervised σ) : Supervised σ :=
  let (status, world) := p.exitStatus worker.process s.world
  let how := match status with
    | some status => s!"exited ({status.text})"
    | none => "stopped answering"
  let s := ({ s with world }.note (.discarded worker)).setWorker none
  s.log .warn s!"{s.supervisor.bundle.name} server {how}, restarting"
    [("pid", .number worker.process)]

/-- Gives up a worker that no longer answers, and kills its process. -/
def discard (p : Platform σ) (worker : Held) (s : Supervised σ) : Supervised σ :=
  (s.giveUp p worker).kill p worker.process

/-- Holds the worker that a start has come to. If it has failed the supervisor never tries again. -/
def settle : Except Error Held × Supervised σ → Except Error Unit × Supervised σ
  | (.ok worker, s) => (.ok (), (s.setWorker (some worker)).setPhase .running)
  | (.error e, s) =>
    (.error e, (s.log .error
      s!"Failed to start {s.supervisor.bundle.name} server: {e.message}").setPhase .failed)

def startAnew (p : Platform σ) (s : Supervised σ) : Except Error Unit × Supervised σ :=
  settle ((s.setPhase .starting).start p)

/-- Makes sure that a worker is held that answers, and starts one if there is none. -/
def ensureRunning (p : Platform σ) (s : Supervised σ) : Except Error Unit × Supervised σ :=
  if s.supervisor.phase = .failed then (.error .failedBefore, s)
  else
    match s.supervisor.worker with
    | none => s.startAnew p
    | some worker =>
      let (answer, s) := s.ask p worker .status
      if Worker.isAlive answer.reply? then (.ok (), s.setPhase .running)
      else (s.discard p worker).startAnew p

def finish (p : Platform σ) (worker : Held) (s : Supervised σ) : Supervised σ :=
  let s := { s with world := p.terminate worker.process s.world }.note
    (.terminated worker.process)
  s.log .info s!"{s.supervisor.bundle.name} server stopped"

/-- Asks the worker to end, and sees to it that it does. -/
def close (p : Platform σ) (worker : Held) (s : Supervised σ) : Supervised σ :=
  ((s.setWorker none).ask p worker .close).2.finish p worker

/-- Goes back to where no worker was started, unless a start has failed. -/
def reset (s : Supervised σ) : Supervised σ :=
  if s.supervisor.phase = .failed then s else s.setPhase .notStarted

def stop (p : Platform σ) (s : Supervised σ) : Supervised σ :=
  let s := s.note .stopped
  (s.supervisor.worker.elim s fun worker => s.close p worker).reset

def takeNotices (s : Supervised σ) : List String × Supervised σ :=
  let texts := s.supervisor.notices
  (texts, { s with supervisor := { s.supervisor with notices := [] } }.note (.tookNotices texts))

/-- Which command was last tried, for those who look for what went wrong. -/
def commandInfo (s : Supervised σ) : String :=
  let name := s.supervisor.bundle.name
  match s.supervisor.lastCommand with
  | some command => s!"Command to start {name} server was: {command.display}"
  | none => s!"Command to start {name} server was not built yet."

end LintBridge.Worker.Supervised
