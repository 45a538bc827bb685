import LintBridge.Worker.Supervisor.Run

/-! What a supervisor has to answer for: where it stands, the worker that it holds, how many
launches and processes there were, and which processes it has put an end to.  All else that it does
leaves its standing as it is. -/

namespace LintBridge.Worker

variable {σ : Type}

structure Standing where
  phase : Phase
  worker : Option Held
  /-- The launches, also those that gave no process. -/
  launches : Nat
  /-- What the supervisor counts as its launches. -/
  counted : UInt32
  spawned : Nat
  /-- The processes that were killed or terminated. -/
  ended : List ProcessId

def Standing.launch (t : Standing) : Standing :=
  { t with launches := t.launches + 1, counted := t.counted + 1 }

def Standing.finish (t : Standing) (process : ProcessId) : Standing :=
  { t with ended := t.ended ++ [process] }

namespace Error

/-- Whether a start fails so before there is to be a process. -/
def isEarly : Error → Bool
  | noPort _ | bundleMissing _ _ | runtime _ | entryMissing _ _ | noClient _ => true
  | _ => false

/-- Whether a start fails so once there is a process. -/
def isLate : Error → Bool
  | startTimeout _ | exitedEarly _ => true
  | _ => false

theorem isStartupFailure_of_isEarly {e : Error} (h : e.isEarly = true) :
    e.isStartupFailure = true := by
  cases e <;> first | rfl | cases h

theorem isStartupFailure_of_isLate {e : Error} (h : e.isLate = true) :
    e.isStartupFailure = true := by
  cases e <;> first | rfl | cases h

end Error

def Event.ended? : Event → Option ProcessId
  | .killed process | .terminated process => some process
  | _ => none

def Event.isLaunch : Event → Bool
  | .launched _ _ => true
  | _ => false

/-- The count of a supervisor is that of its launches, up to the width of a word. -/
def Standing.IsCounted (t : Standing) : Prop := t.counted = .ofNat t.launches

namespace Supervised

/-- How often a worker was launched, with or without success. -/
def timesLaunched (s : Supervised σ) : Nat := s.history.countP Event.isLaunch

def standing (s : Supervised σ) : Standing where
  phase := s.supervisor.phase
  worker := s.supervisor.worker
  launches := s.timesLaunched
  counted := s.supervisor.launches
  spawned := s.supervisor.spawned
  ended := s.history.filterMap Event.ended?

variable (p : Platform σ) (s : Supervised σ)

/-! ### Events and settings -/

/-- What an event is to the standing: it can be a launch, or the end of a process. -/
theorem standing_event (world : σ) (e : Event) :
    ({ s with world }.note e).standing = { s.standing with
      launches := s.standing.launches + e.isLaunch.toNat
      ended := s.standing.ended ++ e.ended?.toList } := by
  cases launch : e.isLaunch <;> cases ended : e.ended? <;>
    simp [standing, timesLaunched, note, launch, ended]

/-- An event that launches no process and puts an end to none does not count. -/
theorem standing_note (world : σ) (e : Event) (spares : e.ended? = none)
    (idle : e.isLaunch = false) : ({ s with world }.note e).standing = s.standing := by
  simp [standing_event, spares, idle]

@[simp] theorem standing_log (level : Log.Level) (text : String)
    (fields : List (String × Log.FieldValue)) :
    (s.log level text fields).standing = s.standing :=
  standing_note s s.world _ rfl rfl

@[simp] theorem standing_setPhase (phase : Phase) :
    (s.setPhase phase).standing = { s.standing with phase } := rfl

@[simp] theorem standing_setWorker (worker : Option Held) :
    (s.setWorker worker).standing = { s.standing with worker } := rfl

@[simp] theorem standing_notify (text : String) : (s.notify text).standing = s.standing := by
  simp [notify, standing, timesLaunched, note, log, Event.ended?, Event.isLaunch]

@[simp] theorem standing_takeNotices : s.takeNotices.2.standing = s.standing := by
  simp [takeNotices, standing, timesLaunched, note, Event.ended?, Event.isLaunch]

/-! ### What is asked of the system -/

@[simp] theorem standing_ask (worker : Held) (call : Call) :
    (s.ask p worker call).2.standing = s.standing :=
  standing_note s _ _ rfl rfl

@[simp] theorem standing_deploy : (s.deploy p).2.standing = s.standing :=
  standing_note s _ _ rfl rfl

@[simp] theorem standing_choosePort : (s.choosePort p).2.standing = s.standing :=
  standing_note s _ _ rfl rfl

@[simp] theorem standing_checkEntry : (s.checkEntry p).2.standing = s.standing :=
  standing_note s _ _ rfl rfl

@[simp] theorem standing_makeClient (port : Nat) :
    (s.makeClient p port).2.standing = s.standing :=
  standing_note s _ _ rfl rfl

@[simp] theorem standing_checkedProgram (runtime : String) :
    (s.checkedProgram p runtime).2.standing = s.standing := by
  cases checked : (p.checkRuntime runtime s.world).1 with
  | error e =>
    simp only [checkedProgram, checked]
    exact standing_note s _ _ rfl rfl
  | ok runtime =>
    cases notice : runtime.notice? <;>
      simp only [checkedProgram, checked, notice, Option.elim, standing_notify] <;>
      exact standing_note s _ _ rfl rfl

@[simp] theorem standing_chooseProgram : (s.chooseProgram p).2.standing = s.standing := by
  unfold chooseProgram
  split
  · rfl
  · split
    · exact standing_checkedProgram p s _
    · rfl

@[simp] theorem standing_awaitListener (process : ProcessId) (port : Nat) :
    (s.awaitListener p process port).2.standing = s.standing := by
  cases came : (p.awaitStartup process port s.supervisor.options.timeout s.world).1 <;>
    simp only [awaitListener, came, standing_log] <;>
    exact standing_note s _ _ rfl rfl

@[simp] theorem standing_giveUp (worker : Held) :
    (s.giveUp p worker).standing = { s.standing with worker := none } := by
  rw [giveUp, standing_log, standing_setWorker, standing_note s _ _ rfl rfl]

/-! ### What changes the standing -/

@[simp] theorem standing_kill (process : ProcessId) :
    (s.kill p process).standing = s.standing.finish process :=
  standing_event s _ (.killed process)

@[simp] theorem standing_finish (worker : Held) :
    (s.finish p worker).standing = s.standing.finish worker.process := by
  rw [finish, standing_log]
  exact standing_event s _ (.terminated worker.process)

/-- A launch counts in any case, the process only if there is one. -/
theorem standing_launch (command : Command) :
    (s.launch p command).2.standing =
      match (s.launch p command).1 with
      | .ok _ => { s.standing.launch with spawned := s.standing.spawned + 1 }
      | .error _ => s.standing.launch := by
  cases created : (p.spawn s.supervisor.spawned command s.world).1 <;>
    simp [launch, created, standing, timesLaunched, note, Standing.launch, Event.ended?,
      Event.isLaunch]

/-- The process of a launch has the next number. -/
theorem launch_ok {s : Supervised σ} {command : Command} {process : ProcessId}
    (h : (s.launch p command).1 = .ok process) : process = s.standing.spawned := by
  cases created : (p.spawn s.supervisor.spawned command s.world).1 <;>
    simp [launch, created, standing] at h ⊢
  exact h.symm

@[simp] theorem standing_reset :
    s.reset.standing =
      { s.standing with phase := if s.standing.phase = .failed then .failed else .notStarted } := by
  by_cases failed : s.supervisor.phase = .failed <;>
    simp [reset, standing, timesLaunched, setPhase, failed]

/-! ### How the steps of a start fail -/

variable {p s} {e : Error}

theorem deploy_error (h : (s.deploy p).1 = .error e) : e.isEarly = true := by
  cases found : (p.isDir s.supervisor.bundle.root s.world).1 <;> simp [deploy, found] at h
  rw [← h]
  rfl

theorem choosePort_error (h : (s.choosePort p).1 = .error e) : e.isEarly = true := by
  cases chosen : (p.freePort s.world).1 <;> simp only [choosePort, chosen] at h <;> cases h
  rfl

theorem checkEntry_error (h : (s.checkEntry p).1 = .error e) : e.isEarly = true := by
  cases found : (p.isFile s.supervisor.bundle.entryPoint s.world).1 <;>
    simp [checkEntry, found] at h
  rw [← h]
  rfl

theorem checkedProgram_error {runtime : String} (h : (s.checkedProgram p runtime).1 = .error e) :
    e.isEarly = true := by
  cases checked : (p.checkRuntime runtime s.world).1 <;> simp [checkedProgram, checked] at h
  rw [← h]
  rfl

theorem chooseProgram_error (h : (s.chooseProgram p).1 = .error e) : e.isEarly = true := by
  unfold chooseProgram at h
  split at h
  · cases h
  · split at h
    next runtime _ _ =>
      cases checked : (s.checkedProgram p runtime).1 <;> simp [checked, Except.map] at h
      rw [← h]
      exact checkedProgram_error checked
    next => cases h

theorem makeClient_error {port : Nat} (h : (s.makeClient p port).1 = .error e) :
    e.isEarly = true := by
  cases made : (p.newClient port s.world).1 <;> simp only [makeClient, made] at h <;> cases h
  rfl

theorem launch_error {command : Command} (h : (s.launch p command).1 = .error e) :
    e.isStartupFailure = true := by
  cases created : (p.spawn s.supervisor.spawned command s.world).1 <;>
    simp [launch, created] at h
  rw [← h]
  rfl

theorem awaitListener_error {process : ProcessId} {port : Nat}
    (h : (s.awaitListener p process port).1 = .error e) : e.isLate = true := by
  cases came : (p.awaitStartup process port s.supervisor.options.timeout s.world).1 <;>
    simp [awaitListener, came] at h
  all_goals
    rw [← h]
    rfl

/-- The worker that comes up is the process that was waited for. -/
theorem awaitListener_ok {process : ProcessId} {port : Nat} {worker : Held}
    (h : (s.awaitListener p process port).1 = .ok worker) : worker = ⟨process, port⟩ := by
  cases came : (p.awaitStartup process port s.supervisor.options.timeout s.world).1 <;>
    simp [awaitListener, came] at h
  exact h.symm

end Supervised

end LintBridge.Worker
