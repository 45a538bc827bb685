import LintBridge.Worker.Supervisor.Run

/-! The operations of a supervisor and what they return, so that one can speak of any sequence of
them. -/

namespace LintBridge.Worker

variable {σ : Type}

/-- What a caller has to ask of the worker itself. -/
inductive Errand where
  | status
  | analyze (request : Request)

inductive Operation where
  | ensureRunning
  | stop
  | ask (errand : Errand)
  | state
  | takeNotices
  | commandInfo

inductive Reply where
  | ensured (result : Except Error Unit)
  | stopped
  | alive (answer : Bool)
  | analyzed (result : Except Error Outcome)
  | phase (phase : Phase)
  | notices (texts : List String)
  | command (text : String)

namespace Errand

def call : Errand → Call
  | status => .status
  | analyze request => .analyze request

def reply : Errand → Answer → Reply
  | status, answer => .alive (isAlive answer.reply?)
  | analyze request, answer => .analyzed (readReply request answer.reply?)

def refusal : Errand → Reply
  | status => .alive false
  | analyze _ => .analyzed (.error .notRunning)

end Errand

namespace Supervised

def fresh (bundle : Bundle) (options : LaunchOptions) (world : σ) : Supervised σ where
  supervisor := { bundle, options }
  world := world

def perform (p : Platform σ) (s : Supervised σ) : Operation → Reply × Supervised σ
  | .ensureRunning => ((s.ensureRunning p).map .ensured id)
  | .stop => (.stopped, s.stop p)
  | .ask .status => (s.isAlive p).map .alive id
  | .ask (.analyze request) => (s.analyze p request).map .analyzed id
  | .state => (.phase s.supervisor.phase, s)
  | .takeNotices => s.takeNotices.map .notices id
  | .commandInfo => (.command s.commandInfo, s)

def performAll (p : Platform σ) (ops : List Operation) (s : Supervised σ) : Supervised σ :=
  ops.foldl (fun s op => (s.perform p op).2) s

/-- An errand is done by the worker that is held, if there is one. -/
theorem perform_ask (p : Platform σ) (s : Supervised σ) (errand : Errand) :
    s.perform p (.ask errand) =
      match s.supervisor.worker with
      | none => (errand.refusal, s)
      | some worker => (s.ask p worker errand.call).map errand.reply id := by
  cases held : s.supervisor.worker with
  | none => cases errand <;> simp [perform, isAlive, analyze, held, Errand.refusal]
  | some worker =>
    cases errand <;> simp only [perform, isAlive, analyze, held] <;> rfl

end Supervised

/-! ### A small system -/

/-- A system that knows nothing but which processes live.  The worker program is there or is not;
if it is, every process comes up, and answers until it is put an end to. -/
def Platform.steady (installed : Bool) : Platform (List ProcessId) where
  isDir _ live := (installed, live)
  isFile _ live := (installed, live)
  freePort live := (.ok 40000, live)
  checkRuntime command live := (.error (.notFound command), live)
  newClient _ live := (.ok (), live)
  spawn id _ live := (.ok (), id :: live)
  awaitStartup _ _ _ live := (.listening, live)
  exitStatus _ live := (none, live)
  kill id live := live.filter (· ≠ id)
  terminate id live := live.filter (· ≠ id)
  send worker _ live :=
    (if worker.process ∈ live then .reply ⟨200, some aliveText⟩ else .failed, live)

end LintBridge.Worker
