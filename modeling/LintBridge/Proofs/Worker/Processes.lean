import LintBridge.Proofs.Worker.Callers

/-! Which processes live.  Of the system it is only asked that it creates no process unasked, and
that it ends those that it is asked to end.  Then every process that lives was created by the
supervisor and was not put an end to (`Truthful`), at every step of every operation. -/

namespace LintBridge.Worker

variable {σ : Type}

/-- Which processes of a system live.  A process comes to life only by being created, and does not
live once it was killed or terminated; any process may end by itself in any call. -/
structure Processes (p : Platform σ) where
  Alive : ProcessId → σ → Prop
  isDir : ∀ path w id, Alive id (p.isDir path w).2 → Alive id w
  isFile : ∀ path w id, Alive id (p.isFile path w).2 → Alive id w
  freePort : ∀ w id, Alive id (p.freePort w).2 → Alive id w
  checkRuntime : ∀ command w id, Alive id (p.checkRuntime command w).2 → Alive id w
  newClient : ∀ port w id, Alive id (p.newClient port w).2 → Alive id w
  spawn : ∀ process command w id, Alive id (p.spawn process command w).2 →
    Alive id w ∨ (id = process ∧ (p.spawn process command w).1 = .ok ())
  awaitStartup : ∀ process port timeout w id,
    Alive id (p.awaitStartup process port timeout w).2 → Alive id w
  exitStatus : ∀ process w id, Alive id (p.exitStatus process w).2 → Alive id w
  kill : ∀ process w id, Alive id (p.kill process w) → Alive id w ∧ id ≠ process
  terminate : ∀ process w id, Alive id (p.terminate process w) → Alive id w ∧ id ≠ process
  send : ∀ worker call w id, Alive id (p.send worker call w).2 → Alive id w

def Platform.steadyProcesses (installed : Bool) : Processes (Platform.steady installed) where
  Alive id live := id ∈ live
  isDir _ _ _ alive := alive
  isFile _ _ _ alive := alive
  freePort _ _ alive := alive
  checkRuntime _ _ _ alive := alive
  newClient _ _ _ alive := alive
  spawn process _ live id alive := by
    rcases List.mem_cons.mp alive with new | old
    · exact .inr ⟨new, rfl⟩
    · exact .inl old
  awaitStartup _ _ _ _ _ alive := alive
  exitStatus _ _ _ alive := alive
  kill process live id alive := by simpa [steady] using alive
  terminate process live id alive := by simpa [steady] using alive
  send _ _ _ _ alive := alive

section
variable {p : Platform σ} (os : Processes p)

/-- Every process that lives was created and was not put an end to. -/
def Truthful (t : Standing) (w : σ) : Prop :=
  ∀ id, os.Alive id w → id < t.spawned ∧ id ∉ t.ended

variable {os} {s : Supervised σ} {t t' : Standing} {w w' : σ}

/-- A call that neither creates a process nor ends one. -/
theorem Truthful.of_quiet (h : Truthful os t w) (quiet : ∀ id, os.Alive id w' → os.Alive id w)
    (spawned : t'.spawned = t.spawned) (ended : t'.ended = t.ended) : Truthful os t' w' := by
  intro id alive
  rw [spawned, ended]
  exact h id (quiet id alive)

theorem Truthful.of_end (h : Truthful os t w) {process : ProcessId}
    (quiet : ∀ id, os.Alive id w' → os.Alive id w ∧ id ≠ process)
    (spawned : t'.spawned = t.spawned) (ended : t'.ended = t.ended ++ [process]) :
    Truthful os t' w' := by
  intro id alive
  obtain ⟨before, other⟩ := quiet id alive
  obtain ⟨created, running⟩ := h id before
  rw [spawned, ended, List.mem_append, List.mem_singleton]
  exact ⟨created, fun gone => gone.elim running other⟩

theorem truthful_kill (h : Truthful os s.standing s.world) (process : ProcessId) :
    Truthful os (s.kill p process).standing (s.kill p process).world := by
  rw [Supervised.standing_kill]
  exact h.of_end (os.kill process s.world) rfl rfl

theorem truthful_finish (h : Truthful os s.standing s.world) (worker : Held) :
    Truthful os (s.finish p worker).standing (s.finish p worker).world := by
  rw [Supervised.standing_finish]
  exact h.of_end (os.terminate worker.process s.world) rfl rfl

theorem truthful_reset (h : Truthful os s.standing s.world) :
    Truthful os s.reset.standing s.reset.world := by
  rw [Supervised.standing_reset]
  refine h.of_quiet (fun id alive => ?_) rfl rfl
  unfold Supervised.reset at alive
  split at alive <;> exact alive

theorem truthful_ask (h : Truthful os s.standing s.world) (worker : Held) (call : Call) :
    Truthful os (s.ask p worker call).2.standing (s.ask p worker call).2.world := by
  rw [Supervised.standing_ask]
  exact h.of_quiet (os.send worker call s.world) rfl rfl

theorem truthful_giveUp (h : Truthful os s.standing s.world) (worker : Held) :
    Truthful os (s.giveUp p worker).standing (s.giveUp p worker).world := by
  rw [Supervised.standing_giveUp]
  exact h.of_quiet (os.exitStatus worker.process s.world) rfl rfl

theorem truthful_checkedProgram (h : Truthful os s.standing s.world) (runtime : String) :
    Truthful os (s.checkedProgram p runtime).2.standing (s.checkedProgram p runtime).2.world := by
  rw [Supervised.standing_checkedProgram]
  refine h.of_quiet (fun id alive => os.checkRuntime runtime s.world id ?_) rfl rfl
  cases checked : (p.checkRuntime runtime s.world).1 with
  | error e => simpa [Supervised.checkedProgram, checked, Supervised.note] using alive
  | ok found =>
    simp only [Supervised.checkedProgram, checked] at alive
    cases notice : found.notice? with
    | none => simpa [notice, Supervised.note] using alive
    | some text => simpa [notice, Supervised.notify, Supervised.log, Supervised.note] using alive

theorem truthful_chooseProgram (h : Truthful os s.standing s.world) :
    Truthful os (s.chooseProgram p).2.standing (s.chooseProgram p).2.world := by
  unfold Supervised.chooseProgram
  split
  · exact h
  · split
    · exact truthful_checkedProgram h _
    · exact h

/-- A launch creates the process with the next number, which was not put an end to. -/
theorem truthful_launch (h : Truthful os s.standing s.world)
    (ended_lt : ∀ id ∈ s.standing.ended, id < s.standing.spawned) (command : Command) :
    Truthful os (s.launch p command).2.standing (s.launch p command).2.world := by
  have brings := os.spawn s.supervisor.spawned command s.world
  have counted := Supervised.standing_launch p s command
  cases created : (p.spawn s.supervisor.spawned command s.world).1 with
  | error reason =>
    simp only [Supervised.launch, created] at counted ⊢
    rw [counted]
    refine h.of_quiet (fun id alive => ?_) rfl rfl
    rcases brings id alive with before | ⟨_, made⟩
    · exact before
    · rw [created] at made
      cases made
  | ok _ =>
    simp only [Supervised.launch, created] at counted ⊢
    rw [counted]
    intro id alive
    rcases brings id alive with before | ⟨rfl, _⟩
    · obtain ⟨older, running⟩ := h id before
      exact ⟨Nat.lt_succ_of_lt older, running⟩
    · exact ⟨Nat.lt_succ_self _, fun gone => Nat.lt_irrefl _ (ended_lt _ gone)⟩

theorem truthful_awaitListener (h : Truthful os s.standing s.world) (process : ProcessId)
    (port : Nat) :
    Truthful os (s.awaitListener p process port).2.standing
      (s.awaitListener p process port).2.world := by
  rw [Supervised.standing_awaitListener]
  have quiet := os.awaitStartup process port s.supervisor.options.timeout s.world
  refine h.of_quiet (fun id alive => quiet id ?_) rfl rfl
  cases came : (p.awaitStartup process port s.supervisor.options.timeout s.world).1 <;>
    simpa [Supervised.awaitListener, came, Supervised.log, Supervised.note] using alive

/-- What goes on with a step is as truthful as the step. -/
theorem truthful_goOn {α : Type} {next : α → Point} {r : Except Error α × Supervised σ}
    (h : Truthful os r.2.standing r.2.world) :
    Truthful os (Point.goOn next r).2.standing (Point.goOn next r).2.world := by
  rcases r with ⟨e | a, s⟩
  · simp only [Point.goOn, Point.conclude, standing_settle_error]
    exact h.of_quiet (fun _ => id) rfl rfl
  · exact h

theorem truthful_step (h : Truthful os s.standing s.world) (point : Point)
    (ended_lt : ∀ id ∈ s.standing.ended, id < s.standing.spawned) :
    Truthful os (point.step p s).2.standing (point.step p s).2.world := by
  cases point with
  | checking =>
    have asked := fun worker => truthful_ask h worker .status
    simp only [Point.step]
    split
    · exact h
    · split
      · exact h.of_quiet (fun _ => id) rfl rfl
      · split
        · exact (asked _).of_quiet (fun _ => id) rfl rfl
        · exact asked _
  | discarding worker => exact truthful_giveUp h worker
  | replacing worker => exact (truthful_kill h worker.process).of_quiet (fun _ => id) rfl rfl
  | deploying =>
    refine truthful_goOn ?_
    rw [Supervised.standing_deploy]
    exact h.of_quiet (os.isDir _ s.world) rfl rfl
  | choosingPort =>
    refine truthful_goOn ?_
    rw [Supervised.standing_choosePort]
    exact h.of_quiet (os.freePort s.world) rfl rfl
  | checkingEntry port =>
    refine truthful_goOn ?_
    rw [Supervised.standing_checkEntry]
    exact h.of_quiet (os.isFile _ s.world) rfl rfl
  | choosingProgram port => exact truthful_goOn (truthful_chooseProgram h)
  | makingClient port program =>
    refine truthful_goOn ?_
    rw [Supervised.standing_makeClient]
    exact h.of_quiet (os.newClient port s.world) rfl rfl
  | launching port command => exact truthful_goOn (truthful_launch h ended_lt command)
  | awaiting process port =>
    have waited := truthful_awaitListener h process port
    simp only [Point.step]
    rcases came : s.awaitListener p process port with ⟨e | worker, t⟩
    · rw [came] at waited
      exact waited
    · rw [came] at waited
      exact waited.of_quiet (fun _ => id) rfl rfl
  | clearing process e =>
    simp only [Point.step, Point.conclude, standing_settle_error]
    exact (truthful_kill h process).of_quiet (fun _ => id) rfl rfl
  | stopping =>
    have noted : Truthful os (s.note .stopped).standing (s.note .stopped).world := by
      rw [Supervised.standing_note s s.world _ rfl rfl]
      exact h
    simp only [Point.step]
    split
    · exact truthful_reset noted
    · exact noted.of_quiet (fun _ => id) rfl rfl
  | closing worker => exact truthful_ask h worker .close
  | ending worker => exact truthful_reset (truthful_finish h worker)

/-! ### Moves of callers -/

theorem truthful_begin {c : Crowd σ} (h : Truthful os c.server.standing c.server.world)
    (caller : CallerId) (op : Operation) :
    Truthful os (c.begin p caller op).server.standing (c.begin p caller op).server.world := by
  cases op with
  | ensureRunning => exact h
  | stop => exact h
  | ask errand =>
    simp only [Crowd.begin, Crowd.read]
    split <;> exact h
  | state => exact h
  | takeNotices =>
    have same := Supervised.standing_takeNotices c.server
    exact h.of_quiet (fun _ => id) (congrArg Standing.spawned same) (congrArg Standing.ended same)
  | commandInfo => exact h

theorem truthful_proceed {c : Crowd σ} (h : Truthful os c.server.standing c.server.world)
    (ended_lt : ∀ id ∈ c.server.standing.ended, id < c.server.standing.spawned) :
    Truthful os (c.proceed p).server.standing (c.proceed p).server.world := by
  rcases held : c.lock with _ | ⟨caller, point⟩
  · rw [proceed_free held]
    exact h
  · have after := truthful_step h point ended_lt
    rcases stepped : point.step p c.server with ⟨next | reply, server⟩
    · rw [stepped] at after
      rw [proceed_next held stepped]
      exact after
    · rw [stepped] at after
      rw [proceed_done held stepped]
      exact after

end

end LintBridge.Worker
