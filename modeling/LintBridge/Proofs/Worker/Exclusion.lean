import LintBridge.Proofs.Worker.Accounts
import LintBridge.Proofs.Worker.Processes

/-! At most one process of a supervisor lives, however its callers get in each other's way.  While
nobody keeps the supervisor to itself it runs exactly if it holds a worker, and all other processes
are over; a new one is created only when none lives; and once it has stopped it has no worker for
anybody until it was started again: `exclusive_run`. -/

namespace LintBridge.Worker

variable {σ : Type}

section
variable {p : Platform σ} (os : Processes p)

/-- What holds of a supervisor and its callers at any time. -/
structure Orderly (c : Crowd σ) : Prop where
  fits : Fits c.point? c.server.standing
  accounted : Accounted c.point? c.server.standing
  truthful : Truthful os c.server.standing c.server.world

variable {os} {c : Crowd σ}

theorem orderly_opened (bundle : Bundle) (options : LaunchOptions) {world : σ}
    (quiet : ∀ id, ¬ os.Alive id world) : Orderly os (Crowd.opened bundle options world) where
  fits := fits_opened bundle options world
  accounted := by
    constructor <;>
      simp [Crowd.opened, Supervised.fresh, Supervised.standing, Crowd.point?, subject]
  truthful id alive := absurd alive (quiet id)

theorem Orderly.step (h : Orderly os c) (move : Move) : Orderly os (c.step p move) where
  fits := (step_changes c move).fits h.fits
  accounted := (step_changes c move).accounted h.fits h.accounted
  truthful := by
    cases move with
    | call caller op =>
      rw [Crowd.step]
      split
      · exact h.truthful
      · exact truthful_begin h.truthful caller op
    | proceed => exact truthful_proceed h.truthful h.accounted.ended_lt
    | answer caller =>
      rw [Crowd.step, Crowd.answer]
      split
      · exact h.truthful
      · exact truthful_ask h.truthful _ _

theorem Orderly.run (h : Orderly os c) (moves : List Move) : Orderly os (c.run p moves) :=
  Crowd.run_preserves (fun _ move h => h.step move) moves c h

/-- A process that lives is the one with which the supervisor is busy. -/
theorem Orderly.subject_of_alive (h : Orderly os c) {id : ProcessId}
    (alive : os.Alive id c.server.world) : subject c.point? c.server.standing = some id := by
  obtain ⟨created, running⟩ := h.truthful id alive
  by_cases busy : subject c.point? c.server.standing = some id
  · exact busy
  · exact absurd (h.accounted.ended_of_ne id created busy) running

/-! ### Without a worker -/

theorem Advance.worker_of_stopped {point : Point} {t t' : Standing}
    (step : Advance point t (.done .stopped) t') (fits : Fits (some point) t) :
    t'.worker = none := by
  cases step with
  | idle free => exact free
  | ended =>
    have free : t.worker = none := fits
    exact free

/-- Only a start that succeeds brings a worker. -/
theorem Advance.worker {point : Point} {t t' : Standing} {turn : Turn}
    (step : Advance point t turn t') (free : t.worker = none) :
    t'.worker = none ∨ turn = .done (.ensured (.ok ())) := by
  cases step with
  | healthy held => exact .inr rfl
  | up => exact .inr rfl
  | discarded => exact .inl rfl
  | parted held => exact .inl rfl
  | _ => exact .inl free

theorem Change.worker {c d : Crowd σ} (change : Change c d)
    (free : c.server.standing.worker = none) :
    d.server.standing.worker = none ∨
      ∃ caller, d.replies = c.replies ++ [(caller, .ensured (.ok ()))] := by
  cases change with
  | aside lock standing replies => exact .inl (standing ▸ free)
  | begun caller point first held lock standing replies => exact .inl (standing ▸ free)
  | went caller point next held advance lock replies =>
    rcases advance.worker free with still | started
    · exact .inl still
    · cases started
  | ended caller point reply held advance lock replies =>
    rcases advance.worker free with still | started
    · exact .inl still
    · cases started
      exact .inr ⟨caller, replies⟩

/-- Without a worker there is none until a start succeeds. -/
theorem worker_run (moves : List Move) {c : Crowd σ} {since : List (CallerId × Reply)}
    (free : c.server.standing.worker = none)
    (told : (c.run p moves).replies = c.replies ++ since)
    (unstarted : ∀ caller, (caller, Reply.ensured (.ok ())) ∉ since) :
    (c.run p moves).server.standing.worker = none := by
  induction moves generalizing c since with
  | nil => exact free
  | cons move moves ih =>
    have change := step_changes (p := p) c move
    obtain ⟨first, told₁⟩ := change.replies
    obtain ⟨rest, told₂⟩ := run_replies p moves (c.step p move)
    have parts : since = first ++ rest := by
      rw [Crowd.run_cons, told₂, told₁, List.append_assoc] at told
      exact (List.append_cancel_left told).symm
    rcases change.worker free with still | ⟨caller, started⟩
    · refine ih still told₂ fun caller later => unstarted caller ?_
      rw [parts]
      exact List.mem_append_right _ later
    · refine absurd ?_ (unstarted caller)
      rw [told₁] at started
      rw [parts, List.append_cancel_left started]
      exact List.mem_append_left _ (List.mem_singleton_self _)

/-! ### Exclusion -/

/-- The supervisor has killed or terminated a process. -/
def Supervised.HasEnded (s : Supervised σ) (id : ProcessId) : Prop :=
  .killed id ∈ s.history ∨ .terminated id ∈ s.history

theorem mem_ended_iff (s : Supervised σ) (id : ProcessId) :
    id ∈ s.standing.ended ↔ s.HasEnded id := by
  simp only [Supervised.standing, List.mem_filterMap, Supervised.HasEnded]
  constructor
  · rintro ⟨e, mem, gone⟩
    cases e <;> cases gone
    · exact .inl mem
    · exact .inr mem
  · rintro (mem | mem)
    · exact ⟨_, mem, rfl⟩
    · exact ⟨_, mem, rfl⟩

/-- What callers may rely on at any time. -/
structure Exclusive (os : Processes p) (c : Crowd σ) : Prop where
  /-- Without interruption, the steps of an operation come to what the operation comes to. -/
  alone : c.Serves p
  /-- While nobody keeps the supervisor to itself, it runs exactly if it holds a worker, and it is
  not starting; all processes but that of the worker were put an end to and do not live. -/
  at_rest : c.lock = none →
    c.server.supervisor.phase ≠ .starting ∧
    (c.server.supervisor.phase = .running ↔ c.server.supervisor.worker.isSome = true) ∧
    ∀ id < c.server.supervisor.spawned, c.server.supervisor.worker.map Held.process ≠ some id →
      c.server.HasEnded id ∧ ¬ os.Alive id c.server.world
  one_alive : ∀ i j, os.Alive i c.server.world → os.Alive j c.server.world → i = j
  /-- A worker that is replaced is killed before a start begins. -/
  replaced : ∀ caller worker, c.lock = some (caller, .replacing worker) →
    (c.step p .proceed).lock = some (caller, .deploying) ∧
    (c.step p .proceed).server.history = c.server.history ++ [.killed worker.process] ∧
    ¬ os.Alive worker.process (c.step p .proceed).server.world
  /-- A process is created only when all others were put an end to and none lives. -/
  created : ∀ caller port command, c.lock = some (caller, .launching port command) →
    (∀ id < c.server.supervisor.spawned, c.server.HasEnded id) ∧
    ∀ id, ¬ os.Alive id c.server.world
  /-- A start that fails leaves no process that lives. -/
  failed : ∀ move caller e,
    (c.step p move).replies = c.replies ++ [(caller, .ensured (.error e))] →
    ∀ id, ¬ os.Alive id (c.step p move).server.world
  /-- From the end of a stop until a start succeeds, an errand that reads the worker finds none. -/
  stopped : ∀ move caller, (c.step p move).replies = c.replies ++ [(caller, .stopped)] →
    ∀ later since, let d := (c.step p move).run p later
    d.replies = (c.step p move).replies ++ since →
    (∀ starter, (starter, Reply.ensured (.ok ())) ∉ since) → d.lock = none →
    ∀ reader errand, d.isBusy reader = false →
      d.step p (.call reader (.ask errand)) = d.tell reader errand.refusal

namespace Orderly

variable (h : Orderly os c)
include h

theorem isSettled (free : c.lock = none) : c.server.standing.IsSettled := by
  have fits := h.fits
  rw [Crowd.point?_of_free free] at fits
  exact fits

theorem at_rest (free : c.lock = none) :
    ∀ id < c.server.supervisor.spawned, c.server.supervisor.worker.map Held.process ≠ some id →
      c.server.HasEnded id ∧ ¬ os.Alive id c.server.world := by
  intro id created other
  have idle : subject c.point? c.server.standing ≠ some id := by
    rw [Crowd.point?_of_free free]
    exact other
  refine ⟨(mem_ended_iff _ _).mp (h.accounted.ended_of_ne id created idle), fun alive => ?_⟩
  exact idle (h.subject_of_alive alive)

theorem one_alive (i j : ProcessId) (first : os.Alive i c.server.world)
    (second : os.Alive j c.server.world) : i = j := by
  have busy := h.subject_of_alive first
  rw [h.subject_of_alive second] at busy
  exact (Option.some.inj busy).symm

theorem not_alive (idle : subject c.point? c.server.standing = none) (id : ProcessId) :
    ¬ os.Alive id c.server.world := by
  intro alive
  have busy := h.subject_of_alive alive
  rw [idle] at busy
  cases busy

theorem replaced (caller : CallerId) (worker : Held)
    (held : c.lock = some (caller, .replacing worker)) :
    (c.step p .proceed).lock = some (caller, .deploying) ∧
    (c.step p .proceed).server.history = c.server.history ++ [.killed worker.process] ∧
    ¬ os.Alive worker.process (c.step p .proceed).server.world := by
  have after := h.step .proceed
  have moved : c.step p .proceed = { c with
      server := (c.server.kill p worker.process).setPhase .starting
      lock := some (caller, .deploying) } := proceed_next held rfl
  rw [moved] at after ⊢
  exact ⟨rfl, rfl, after.not_alive rfl _⟩

theorem created (caller : CallerId) (port : Nat) (command : Command)
    (held : c.lock = some (caller, .launching port command)) :
    (∀ id < c.server.supervisor.spawned, c.server.HasEnded id) ∧
    ∀ id, ¬ os.Alive id c.server.world := by
  have idle : subject c.point? c.server.standing = none := by
    rw [Crowd.point?_of_held held]
    rfl
  refine ⟨fun id created => ?_, h.not_alive idle⟩
  refine (mem_ended_iff _ _).mp (h.accounted.ended_of_ne id created ?_)
  rw [idle]
  exact (Option.some_ne_none id).symm

theorem failed (move : Move) (caller : CallerId) (e : Error)
    (told : (c.step p move).replies = c.replies ++ [(caller, .ensured (.error e))]) :
    ∀ id, ¬ os.Alive id (c.step p move).server.world := by
  have after := h.step move
  obtain ⟨point, _, advance, free⟩ := (step_changes c move).of_major told rfl
  have settled := after.isSettled free
  have idle := settled.worker_of_failed advance.failed_of_error
  refine after.not_alive ?_
  rw [Crowd.point?_of_free free]
  exact congrArg (Option.map Held.process) idle

theorem stopped (move : Move) (caller : CallerId)
    (told : (c.step p move).replies = c.replies ++ [(caller, .stopped)]) (later : List Move)
    (since : List (CallerId × Reply)) :
    let d := (c.step p move).run p later
    d.replies = (c.step p move).replies ++ since →
    (∀ starter, (starter, Reply.ensured (.ok ())) ∉ since) → d.lock = none →
    ∀ reader errand, d.isBusy reader = false →
      d.step p (.call reader (.ask errand)) = d.tell reader errand.refusal := by
  intro d grown unstarted free reader errand able
  obtain ⟨point, held, advance, _⟩ := (step_changes c move).of_major told rfl
  have fits : Fits (some point) c.server.standing := by
    have fits := h.fits
    rw [Crowd.point?_of_held held] at fits
    exact fits
  -- no start is over since then, so that there is still no worker
  have stopped := advance.worker_of_stopped fits
  have idle : d.server.supervisor.worker = none := worker_run later stopped grown unstarted
  simp [Crowd.step, able, free, Crowd.begin, Crowd.read, idle]

end Orderly

/-- In whatever order the callers of a supervisor make their moves, on a system that ends what it is
asked to end, they may rely on there being one worker at most. -/
theorem exclusive_run (os : Processes p) (bundle : Bundle) (options : LaunchOptions) (world : σ)
    (quiet : ∀ id, ¬ os.Alive id world) (moves : List Move) :
    Exclusive os ((Crowd.opened bundle options world).run p moves) := by
  have orderly := (orderly_opened bundle options quiet).run moves
  constructor
  · exact serves p _
  · intro free
    have settled := orderly.isSettled free
    exact ⟨settled.not_starting, settled.running_iff, orderly.at_rest free⟩
  · exact orderly.one_alive
  · exact orderly.replaced
  · exact orderly.created
  · exact orderly.failed
  · exact orderly.stopped

/-- An errand that has read the worker, and goes out after a stop, finds that it lives no more. -/
theorem exclusive_steady :
    let c := (Crowd.opened default { runtime := none } []).run (Platform.steady true)
      (.call 0 .ensureRunning :: List.replicate 8 .proceed ++ [.call 1 (.ask .status),
        .call 2 .stop, .proceed, .proceed, .proceed, .answer 1])
    c.replies = [(0, .ensured (.ok ())), (2, .stopped), (1, .alive false)] ∧
    Exclusive (Platform.steadyProcesses true) c := by
  refine ⟨rfl, ?_⟩
  exact exclusive_run (Platform.steadyProcesses true) default { runtime := none } []
    (fun _ => List.not_mem_nil) _

end

end LintBridge.Worker
