import LintBridge.Proofs.Worker.Operation
import LintBridge.Proofs.Worker.Standing

/-! The operations that keep a supervisor to themselves, step by step.  A step asks at most one
thing of the system, so what other callers do can fall between any two of them.  Without them the
steps come to what `ensureRunning` and `stop` come to: `finishes_checking`, `finishes_stopping`.
What a step does to the standing of the supervisor is said once, by `Advance`, and every
invariant is a case analysis of it. -/

namespace LintBridge.Worker

variable {σ : Type}

/-- Where an operation stands that keeps the supervisor to itself. -/
inductive Point where
  /-- It is to be made sure that a worker runs. -/
  | checking
  | discarding (worker : Held)
  | replacing (worker : Held)
  | deploying
  | choosingPort
  | checkingEntry (port : Nat)
  | choosingProgram (port : Nat)
  | makingClient (port : Nat) (program : Option Path)
  | launching (port : Nat) (command : Command)
  | awaiting (process : ProcessId) (port : Nat)
  /-- The process did not come up, and is to be killed. -/
  | clearing (process : ProcessId) (e : Error)
  /-- The worker is to be stopped. -/
  | stopping
  | closing (worker : Held)
  | ending (worker : Held)

inductive Turn where
  | next (point : Point)
  | done (reply : Reply)

def Turn.point? : Turn → Option Point
  | next point => some point
  | done _ => none

namespace Point

def conclude (r : Except Error Unit × Supervised σ) : Turn × Supervised σ :=
  (.done (.ensured r.1), r.2)

/-- The end of a step of a start: the next step, unless the start has failed. -/
def goOn {α : Type} (next : α → Point) :
    Except Error α × Supervised σ → Turn × Supervised σ
  | (.ok a, s) => (.next (next a), s)
  | (.error e, s) => conclude (Supervised.settle (.error e, s))

def step (p : Platform σ) : Point → Supervised σ → Turn × Supervised σ
  | checking, s =>
    if s.supervisor.phase = .failed then conclude (.error .failedBefore, s)
    else
      match s.supervisor.worker with
      | none => (.next deploying, s.setPhase .starting)
      | some worker =>
        let (answer, s) := s.ask p worker .status
        if Worker.isAlive answer.reply? then conclude (.ok (), s.setPhase .running)
        else (.next (discarding worker), s)
  | discarding worker, s => (.next (replacing worker), s.giveUp p worker)
  | replacing worker, s => (.next deploying, (s.kill p worker.process).setPhase .starting)
  | deploying, s => goOn (fun _ => choosingPort) (s.deploy p)
  | choosingPort, s => goOn checkingEntry (s.choosePort p)
  | checkingEntry port, s => goOn (fun _ => choosingProgram port) (s.checkEntry p)
  | choosingProgram port, s => goOn (makingClient port) (s.chooseProgram p)
  | makingClient port program, s =>
    let command := Supervised.commandFor s.supervisor program port
    goOn (fun _ => launching port command) ((s.remember command).makeClient p port)
  | launching port command, s => goOn (awaiting · port) (s.launch p command)
  | awaiting process port, s =>
    match s.awaitListener p process port with
    | (.ok worker, s) => conclude (Supervised.settle (.ok worker, s))
    | (.error e, s) => (.next (clearing process e), s)
  | clearing process e, s => conclude (Supervised.settle (.error e, s.kill p process))
  | stopping, s =>
    let s := s.note .stopped
    match s.supervisor.worker with
    | none => (.done .stopped, s.reset)
    | some worker => (.next (closing worker), s.setWorker none)
  | closing worker, s => (.next (ending worker), (s.ask p worker .close).2)
  | ending worker, s => (.done .stopped, (s.finish p worker).reset)

end Point

/-! ### Steps without interruption -/

/-- From a point, an operation goes on to its end without interruption. -/
inductive Finishes (p : Platform σ) : Point → Supervised σ → Reply → Supervised σ → Prop
  | done {point : Point} {s s' : Supervised σ} {reply : Reply}
      (step : point.step p s = (.done reply, s')) : Finishes p point s reply s'
  | next {point next : Point} {s t s' : Supervised σ} {reply : Reply}
      (step : point.step p s = (.next next, t)) (rest : Finishes p next t reply s') :
      Finishes p point s reply s'

section
variable {p : Platform σ} {s : Supervised σ}

theorem finishes_awaiting (process : ProcessId) (port : Nat) :
    Finishes p (.awaiting process port) s
      (.ensured (Supervised.settle (s.awaitUp p process port)).1)
      (Supervised.settle (s.awaitUp p process port)).2 := by
  unfold Supervised.awaitUp
  rcases waited : s.awaitListener p process port with ⟨e | worker, t⟩
  · refine .next (by rw [Point.step, waited]) (.done ?_)
    rfl
  · refine .done ?_
    rw [Point.step, waited]
    rfl

/-- Steps that go on with one another come to what `andThen` comes to. -/
theorem Finishes.andThen {α : Type} {point : Point} {next : α → Point}
    {r : Except Error α × Supervised σ} {f : α → Supervised σ → Except Error Held × Supervised σ}
    (step : point.step p s = Point.goOn next r)
    (rest : ∀ a t, Finishes p (next a) t (.ensured (Supervised.settle (f a t)).1)
      (Supervised.settle (f a t)).2) :
    Finishes p point s (.ensured (Supervised.settle (Supervised.andThen r f)).1)
      (Supervised.settle (Supervised.andThen r f)).2 := by
  rcases r with ⟨e | a, t⟩
  · exact .done step
  · exact .next step (rest a t)

theorem finishes_deploying :
    Finishes p .deploying s (.ensured (Supervised.settle (s.start p)).1)
      (Supervised.settle (s.start p)).2 := by
  unfold Supervised.start
  refine .andThen rfl fun _ s => ?_
  refine .andThen rfl fun port s => ?_
  refine .andThen rfl fun _ s => ?_
  refine .andThen rfl fun program s => ?_
  refine .andThen rfl fun _ t => ?_
  refine .andThen rfl fun process t => ?_
  exact finishes_awaiting process port

theorem finishes_checking :
    Finishes p .checking s (.ensured (s.ensureRunning p).1) (s.ensureRunning p).2 := by
  unfold Supervised.ensureRunning
  by_cases failed : s.supervisor.phase = .failed
  · exact .done (by simp [Point.step, Point.conclude, failed])
  cases held : s.supervisor.worker with
  | none =>
    rw [if_neg failed]
    exact .next (by rw [Point.step, if_neg failed, held]) finishes_deploying
  | some worker =>
    rw [if_neg failed]
    rcases asked : s.ask p worker .status with ⟨answer, t⟩
    by_cases alive : isAlive answer.reply? = true
    · exact .done (by simp [Point.step, Point.conclude, failed, held, asked, alive])
    · have lost : Point.checking.step p s = (.next (.discarding worker), t) := by
        simp [Point.step, failed, held, asked, alive]
      simp only [asked, alive]
      exact .next lost (.next rfl (.next rfl finishes_deploying))

theorem finishes_stopping : Finishes p .stopping s .stopped (s.stop p) := by
  unfold Supervised.stop
  cases held : (s.note .stopped).supervisor.worker with
  | none => exact .done (by simp [Point.step, held])
  | some worker =>
    have parted : Point.stopping.step p s =
        (.next (.closing worker), (s.note .stopped).setWorker none) := by
      simp [Point.step, held]
    refine .next parted (.next rfl (.done ?_))
    simp [Point.step, Supervised.close, held]

end

/-! ### What a step does to the standing -/

/-- Whether a start has not come to a process yet. -/
def Point.isEarly : Point → Bool
  | deploying | choosingPort | checkingEntry _ | choosingProgram _ | makingClient _ _
  | launching _ _ => true
  | _ => false

def Standing.reset (t : Standing) : Standing :=
  { t with phase := if t.phase = .failed then .failed else .notStarted }

/-- What a step from a point does to a standing, and what it comes to. -/
inductive Advance : Point → Standing → Turn → Standing → Prop
  | refused {t : Standing} (failed : t.phase = .failed) :
      Advance .checking t (.done (.ensured (.error .failedBefore))) t
  | missing {t : Standing} (usable : t.phase ≠ .failed) (free : t.worker = none) :
      Advance .checking t (.next .deploying) { t with phase := .starting }
  | healthy {t : Standing} {worker : Held} (held : t.worker = some worker) :
      Advance .checking t (.done (.ensured (.ok ()))) { t with phase := .running }
  | lost {t : Standing} {worker : Held} (held : t.worker = some worker) :
      Advance .checking t (.next (.discarding worker)) t
  | discarded {t : Standing} {worker : Held} :
      Advance (.discarding worker) t (.next (.replacing worker)) { t with worker := none }
  | cleared {t : Standing} {worker : Held} :
      Advance (.replacing worker) t (.next .deploying)
        { t.finish worker.process with phase := .starting }
  | prepared {t : Standing} {point next : Point} (early : point.isEarly = true)
      (still : next.isEarly = true) : Advance point t (.next next) t
  | unprepared {t : Standing} {point : Point} {e : Error} (early : point.isEarly = true)
      (startup : e.isStartupFailure = true) :
      Advance point t (.done (.ensured (.error e))) { t with phase := .failed }
  | launched {t : Standing} {port : Nat} {command : Command} :
      Advance (.launching port command) t (.next (.awaiting t.spawned port))
        { t.launch with spawned := t.spawned + 1 }
  | unlaunched {t : Standing} {port : Nat} {command : Command} {e : Error}
      (startup : e.isStartupFailure = true) :
      Advance (.launching port command) t (.done (.ensured (.error e)))
        { t.launch with phase := .failed }
  | up {t : Standing} {process : ProcessId} {port : Nat} :
      Advance (.awaiting process port) t (.done (.ensured (.ok ())))
        { t with worker := some ⟨process, port⟩, phase := .running }
  | down {t : Standing} {process : ProcessId} {port : Nat} {e : Error}
      (startup : e.isStartupFailure = true) :
      Advance (.awaiting process port) t (.next (.clearing process e)) t
  | failed {t : Standing} {process : ProcessId} {e : Error} :
      Advance (.clearing process e) t (.done (.ensured (.error e)))
        { t.finish process with phase := .failed }
  | idle {t : Standing} (free : t.worker = none) : Advance .stopping t (.done .stopped) t.reset
  | parted {t : Standing} {worker : Held} (held : t.worker = some worker) :
      Advance .stopping t (.next (.closing worker)) { t with worker := none }
  | closed {t : Standing} {worker : Held} :
      Advance (.closing worker) t (.next (.ending worker)) t
  | ended {t : Standing} {worker : Held} :
      Advance (.ending worker) t (.done .stopped) (t.finish worker.process).reset

section
variable {p : Platform σ} {s : Supervised σ}

@[simp] theorem standing_settle_error (e : Error) :
    (Supervised.settle (.error e, s)).2.standing = { s.standing with phase := .failed } := by
  simp [Supervised.settle]

/-- A step of a start that asks for something and neither creates nor ends a process. -/
theorem goOn_advances {α : Type} {point : Point} {next : α → Point}
    {r : Except Error α × Supervised σ} (early : point.isEarly = true)
    (still : ∀ a, (next a).isEarly = true)
    (fails : ∀ e, r.1 = .error e → e.isEarly = true)
    (same : r.2.standing = s.standing) :
    Advance point s.standing (Point.goOn next r).1 (Point.goOn next r).2.standing := by
  rcases r with ⟨e | a, t⟩
  · simp only [Point.goOn, Point.conclude, standing_settle_error]
    rw [same]
    exact .unprepared early (Error.isStartupFailure_of_isEarly (fails e rfl))
  · simp only [Point.goOn]
    rw [same]
    exact .prepared early (still a)

theorem checking_advances :
    Advance .checking s.standing (Point.checking.step p s).1
      (Point.checking.step p s).2.standing := by
  simp only [Point.step]
  by_cases failed : s.supervisor.phase = .failed
  · rw [if_pos failed]
    exact .refused failed
  rw [if_neg failed]
  cases held : s.supervisor.worker with
  | none => exact .missing failed held
  | some worker =>
    by_cases alive : isAlive (s.ask p worker .status).1.reply? = true
    · simp only [if_pos alive, Point.conclude, Supervised.standing_setPhase,
        Supervised.standing_ask]
      exact .healthy held
    · simp only [if_neg alive, Supervised.standing_ask]
      exact .lost held

theorem launching_advances (port : Nat) (command : Command) :
    Advance (.launching port command) s.standing ((Point.launching port command).step p s).1
      ((Point.launching port command).step p s).2.standing := by
  have counted := Supervised.standing_launch p s command
  simp only [Point.step]
  rcases launched : s.launch p command with ⟨e | process, t⟩
  · rw [launched] at counted
    simp only [Point.goOn, Point.conclude, standing_settle_error]
    rw [counted]
    exact .unlaunched (Supervised.launch_error (congrArg Prod.fst launched))
  · rw [launched] at counted
    simp only [Point.goOn]
    rw [counted, Supervised.launch_ok p (congrArg Prod.fst launched)]
    exact .launched

theorem awaiting_advances (process : ProcessId) (port : Nat) :
    Advance (.awaiting process port) s.standing ((Point.awaiting process port).step p s).1
      ((Point.awaiting process port).step p s).2.standing := by
  have same := Supervised.standing_awaitListener p s process port
  simp only [Point.step]
  rcases waited : s.awaitListener p process port with ⟨e | worker, t⟩
  · rw [waited] at same
    rw [← same]
    have fails := Supervised.awaitListener_error (congrArg Prod.fst waited)
    exact .down (Error.isStartupFailure_of_isLate fails)
  · rw [waited] at same
    rw [← same, Supervised.awaitListener_ok (congrArg Prod.fst waited)]
    exact .up

theorem stopping_advances :
    Advance .stopping s.standing (Point.stopping.step p s).1
      (Point.stopping.step p s).2.standing := by
  have same : (s.note .stopped).standing = s.standing :=
    Supervised.standing_note s s.world _ rfl rfl
  simp only [Point.step]
  cases held : (s.note .stopped).supervisor.worker with
  | none =>
    simp only [Supervised.standing_reset, same]
    exact .idle held
  | some worker =>
    simp only [Supervised.standing_setWorker, same]
    exact .parted held

theorem step_advances (point : Point) :
    Advance point s.standing (point.step p s).1 (point.step p s).2.standing := by
  cases point with
  | checking => exact checking_advances
  | discarding worker =>
    rw [Point.step, Supervised.standing_giveUp]
    exact .discarded
  | replacing worker =>
    rw [Point.step, Supervised.standing_setPhase, Supervised.standing_kill]
    exact .cleared
  | deploying =>
    exact goOn_advances rfl (fun _ => rfl) (fun _ => Supervised.deploy_error)
      (Supervised.standing_deploy p s)
  | choosingPort =>
    exact goOn_advances rfl (fun _ => rfl) (fun _ => Supervised.choosePort_error)
      (Supervised.standing_choosePort p s)
  | checkingEntry port =>
    exact goOn_advances rfl (fun _ => rfl) (fun _ => Supervised.checkEntry_error)
      (Supervised.standing_checkEntry p s)
  | choosingProgram port =>
    exact goOn_advances rfl (fun _ => rfl) (fun _ => Supervised.chooseProgram_error)
      (Supervised.standing_chooseProgram p s)
  | makingClient port program =>
    exact goOn_advances rfl (fun _ => rfl) (fun _ => Supervised.makeClient_error)
      (Supervised.standing_makeClient p _ port)
  | launching port command => exact launching_advances port command
  | awaiting process port => exact awaiting_advances process port
  | clearing process e =>
    simp only [Point.step, Point.conclude, standing_settle_error, Supervised.standing_kill]
    exact .failed
  | stopping => exact stopping_advances
  | closing worker =>
    rw [Point.step, Supervised.standing_ask]
    exact .closed
  | ending worker =>
    rw [Point.step, Supervised.standing_reset, Supervised.standing_finish]
    exact .ended

theorem advance_of_step {point : Point} {turn : Turn} {s' : Supervised σ}
    (step : point.step p s = (turn, s')) : Advance point s.standing turn s'.standing := by
  have advance := step_advances (p := p) (s := s) point
  rw [step] at advance
  exact advance

end

/-! ### Points and standings that go together -/

/-- The supervisor is not in the middle of a start, and it says that it runs exactly if it holds a
worker. -/
structure Standing.IsSettled (t : Standing) : Prop where
  not_starting : t.phase ≠ .starting
  running_iff : t.phase = .running ↔ t.worker.isSome = true

/-- Whether an operation that stands at a point, or no operation, goes with a standing. -/
def Fits : Option Point → Standing → Prop
  | none, t | some .checking, t | some .stopping, t => t.IsSettled
  | some (.discarding worker), t => t.worker = some worker
  | some (.clearing _ e), t => t.worker = none ∧ e.isStartupFailure = true
  | some _, t => t.worker = none

namespace Standing

variable {t : Standing}

theorem IsSettled.worker_of_failed (settled : t.IsSettled) (failed : t.phase = .failed) :
    t.worker = none := by
  have idle : ¬ t.worker.isSome = true := fun held =>
    Phase.noConfusion (failed.symm.trans (settled.running_iff.mpr held))
  simpa using idle

theorem isSettled_of_failed (failed : t.phase = .failed) (free : t.worker = none) :
    t.IsSettled := by
  constructor <;> simp [failed, free]

theorem isSettled_of_held {worker : Held} (running : t.phase = .running)
    (held : t.worker = some worker) : t.IsSettled := by
  constructor <;> simp [running, held]

theorem isSettled_reset (free : t.worker = none) : t.reset.IsSettled := by
  by_cases failed : t.phase = .failed <;> constructor <;> simp [reset, failed, free]

end Standing

theorem Supervised.isSettled_fresh (bundle : Bundle) (options : LaunchOptions) (world : σ) :
    (Supervised.fresh bundle options world).standing.IsSettled := by
  constructor <;> simp [Supervised.fresh, Supervised.standing]

theorem fits_of_early {point : Point} {t : Standing} (early : point.isEarly = true) :
    Fits (some point) t ↔ t.worker = none := by
  cases point <;> simp_all [Point.isEarly, Fits]

/-- A step leads to a point that goes with the standing to which it leads. -/
theorem Advance.fits {point : Point} {t t' : Standing} {turn : Turn}
    (step : Advance point t turn t') (fits : Fits (some point) t) : Fits turn.point? t' := by
  cases step with
  | refused failed => exact fits
  | missing usable free => exact free
  | healthy held =>
    have running : t.phase = .running := fits.running_iff.mpr (by rw [held]; rfl)
    rw [← running]
    exact fits
  | lost held => exact held
  | discarded => rfl
  | cleared => exact fits
  | prepared early still => exact (fits_of_early still).mpr ((fits_of_early early).mp fits)
  | unprepared early startup =>
    have free : t.worker = none := (fits_of_early early).mp fits
    exact Standing.isSettled_of_failed rfl free
  | launched => exact fits
  | unlaunched startup => exact Standing.isSettled_of_failed rfl fits
  | up => exact Standing.isSettled_of_held rfl rfl
  | down startup => exact ⟨fits, startup⟩
  | failed => exact Standing.isSettled_of_failed rfl fits.1
  | idle free => exact Standing.isSettled_reset free
  | parted held => rfl
  | closed => exact fits
  | ended => exact Standing.isSettled_reset fits

/-- No step leads back to the check with which an operation begins. -/
theorem Advance.next_ne_checking {point next : Point} {t t' : Standing}
    (step : Advance point t (.next next) t') : next ≠ .checking := by
  cases step with
  | prepared early still =>
    intro back
    subst back
    cases still
  | _ => exact Point.noConfusion

theorem Advance.failed_of_error {point : Point} {t t' : Standing} {e : Error}
    (step : Advance point t (.done (.ensured (.error e))) t') : t'.phase = .failed := by
  cases step with
  | refused failed => exact failed
  | _ => rfl

/-- The error with which a step ends is that of a start, unless one had failed before. -/
theorem Advance.startup_of_error {point : Point} {t t' : Standing} {e : Error}
    (step : Advance point t (.done (.ensured (.error e))) t') (fits : Fits (some point) t)
    (usable : point = .checking → t.phase ≠ .failed) : e.isStartupFailure = true := by
  cases step with
  | refused failed => exact absurd failed (usable rfl)
  | unprepared early startup => exact startup
  | unlaunched startup => exact startup
  | failed => exact fits.2

end LintBridge.Worker
