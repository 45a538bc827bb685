import LintBridge.Proofs.Worker.Standing

/-! What a supervisor adds to its history while it makes sure that a worker runs, and while it stops
one.  Most of that is quiet: it launches nothing and asks for no analysis.  A start comes to a
launch or fails before it, and what follows a launch is quiet again: `comes_ensureRunning`. -/

namespace LintBridge.Worker

variable {σ α : Type}

/-- Whether an event is neither a launch nor an analysis. -/
def Event.isQuiet : Event → Bool
  | .launched _ _ | .asked _ (.analyze _) _ => false
  | _ => true

namespace Supervised

/-- From one moment to another nothing was launched and no analysis was asked for. -/
structure QuietTo (s t : Supervised σ) : Prop where
  history : ∃ added, t.history = s.history ++ added ∧ ∀ e ∈ added, e.isQuiet = true
  launches : t.supervisor.launches = s.supervisor.launches

namespace QuietTo

variable {s t u : Supervised σ}

theorem of_history (history : t.history = s.history)
    (launches : t.supervisor.launches = s.supervisor.launches) : QuietTo s t :=
  ⟨⟨[], by rw [history, List.append_nil], by simp⟩, launches⟩

theorem refl (s : Supervised σ) : QuietTo s s := of_history rfl rfl

theorem trans (first : QuietTo s t) (second : QuietTo t u) : QuietTo s u := by
  obtain ⟨⟨xs, tells, quiet⟩, launches⟩ := first
  obtain ⟨⟨ys, tells', quiet'⟩, launches'⟩ := second
  refine ⟨⟨xs ++ ys, by rw [tells', tells, List.append_assoc], fun e member => ?_⟩,
    launches'.trans launches⟩
  exact (List.mem_append.mp member).elim (quiet e) (quiet' e)

theorem note (first : QuietTo s t) {e : Event} (h : e.isQuiet = true) : QuietTo s (t.note e) :=
  first.trans ⟨⟨[e], rfl, by simpa using h⟩, rfl⟩

theorem world (s : Supervised σ) (world : σ) : QuietTo s { s with world } := of_history rfl rfl

theorem log (first : QuietTo s t) (level : Log.Level) (text : String)
    (fields : List (String × Log.FieldValue)) : QuietTo s (t.log level text fields) :=
  first.note rfl

theorem setPhase (first : QuietTo s t) (phase : Phase) : QuietTo s (t.setPhase phase) :=
  first.trans (of_history rfl rfl)

theorem setWorker (first : QuietTo s t) (worker : Option Held) : QuietTo s (t.setWorker worker) :=
  first.trans (of_history rfl rfl)

theorem notify (first : QuietTo s t) (text : String) : QuietTo s (t.notify text) := by
  have logged := first.log .warn text []
  refine QuietTo.note (e := .noticed text) ?_ rfl
  exact logged.trans (of_history rfl rfl)

end QuietTo

/-! ### What is quiet -/

variable (p : Platform σ) (s : Supervised σ)

theorem quiet_ask (worker : Held) (call : Call) (h : ∀ request, call ≠ .analyze request) :
    QuietTo s (s.ask p worker call).2 := by
  refine (QuietTo.world s _).note ?_
  cases call with
  | status => rfl
  | analyze request => exact absurd rfl (h request)
  | close => rfl

theorem quiet_kill (process : ProcessId) : QuietTo s (s.kill p process) :=
  (QuietTo.world s _).note rfl

theorem quiet_giveUp (worker : Held) : QuietTo s (s.giveUp p worker) := by
  have discarded := (QuietTo.world s (p.exitStatus worker.process s.world).2).note
    (e := .discarded worker) rfl
  exact (discarded.setWorker none).log _ _ _

theorem quiet_discard (worker : Held) : QuietTo s (s.discard p worker) :=
  (quiet_giveUp p s worker).trans (quiet_kill p _ worker.process)

theorem quiet_finish (worker : Held) : QuietTo s (s.finish p worker) :=
  ((QuietTo.world s _).note rfl).log _ _ _

theorem quiet_reset : QuietTo s s.reset := by
  unfold reset
  split
  · exact .refl s
  · exact (QuietTo.refl s).setPhase _

theorem quiet_stop : QuietTo s (s.stop p) := by
  have noted := (QuietTo.refl s).note (e := .stopped) rfl
  unfold stop
  refine QuietTo.trans ?_ (quiet_reset _)
  cases (s.note .stopped).supervisor.worker with
  | none => exact noted
  | some worker =>
    have asked := quiet_ask p ((s.note .stopped).setWorker none) worker .close nofun
    exact ((noted.setWorker none).trans asked).trans (quiet_finish p _ worker)

theorem quiet_takeNotices : QuietTo s s.takeNotices.2 := by
  refine QuietTo.note (e := .tookNotices s.supervisor.notices) ?_ rfl
  exact .of_history rfl rfl

theorem quiet_deploy : QuietTo s (s.deploy p).2 := (QuietTo.world s _).note rfl

theorem quiet_choosePort : QuietTo s (s.choosePort p).2 := (QuietTo.world s _).note rfl

theorem quiet_checkEntry : QuietTo s (s.checkEntry p).2 := (QuietTo.world s _).note rfl

theorem quiet_makeClient (port : Nat) : QuietTo s (s.makeClient p port).2 :=
  (QuietTo.world s _).note rfl

theorem quiet_checkedProgram (runtime : String) : QuietTo s (s.checkedProgram p runtime).2 := by
  have noted := (QuietTo.world s (p.checkRuntime runtime s.world).2).note
    (e := .checkedRuntime (p.checkRuntime runtime s.world).1) rfl
  cases checked : (p.checkRuntime runtime s.world).1 with
  | error e =>
    rw [checked] at noted
    simpa only [checkedProgram, checked] using noted
  | ok found =>
    rw [checked] at noted
    cases notice : found.notice? with
    | none => simpa only [checkedProgram, checked, notice, Option.elim] using noted
    | some text => simpa only [checkedProgram, checked, notice, Option.elim] using noted.notify text

theorem quiet_chooseProgram : QuietTo s (s.chooseProgram p).2 := by
  unfold chooseProgram
  split
  · exact .refl s
  · split
    · exact quiet_checkedProgram p s _
    · exact .refl s

theorem quiet_awaitListener (process : ProcessId) (port : Nat) :
    QuietTo s (s.awaitListener p process port).2 := by
  have noted := (QuietTo.world s
    (p.awaitStartup process port s.supervisor.options.timeout s.world).2).note
    (e := .started process (p.awaitStartup process port s.supervisor.options.timeout s.world).1) rfl
  cases came : (p.awaitStartup process port s.supervisor.options.timeout s.world).1 with
  | listening =>
    rw [came] at noted
    simpa only [awaitListener, came] using noted.log _ _ _
  | timedOut =>
    rw [came] at noted
    simpa only [awaitListener, came] using noted
  | exited status =>
    rw [came] at noted
    simpa only [awaitListener, came] using noted

/-- A process that was created comes up, or is killed. -/
theorem quiet_awaitUp (process : ProcessId) (port : Nat) :
    QuietTo s (s.awaitUp p process port).2 ∧
      ∀ e, (s.awaitUp p process port).1 = .error e → e.isLate = true := by
  have waited := quiet_awaitListener p s process port
  unfold awaitUp
  rcases came : s.awaitListener p process port with ⟨e | worker, t⟩
  · rw [came] at waited
    refine ⟨waited.trans (quiet_kill p t process), fun e' failed => ?_⟩
    cases failed
    exact awaitListener_error (congrArg Prod.fst came)
  · rw [came] at waited
    exact ⟨waited, nofun⟩

/-! ### Launches -/

/-- The one thing that has happened is a launch. -/
structure Launches (s : Supervised σ) (command : Command) (result : Except String ProcessId)
    (t : Supervised σ) : Prop where
  history : t.history = s.history ++ [.launched command result]
  launches : t.supervisor.launches = s.supervisor.launches + 1

/-- What an attempt to have a worker has come to: no launch, a launch that gave no process, or one
that did, and then it is settled whether the worker came up. -/
inductive Comes (s : Supervised σ) : Except Error α × Supervised σ → Prop
  | unlaunched {result : Except Error α} {t : Supervised σ} (quiet : QuietTo s t)
      (fails : ∀ e, result = .error e → e = .failedBefore ∨ e.isEarly = true) : Comes s (result, t)
  | refused {command : Command} {reason : String} {u v t : Supervised σ} (before : QuietTo s u)
      (launch : Launches u command (.error reason) v) (after : QuietTo v t) :
      Comes s (.error (.launch command.program.display reason), t)
  | created {command : Command} {process : ProcessId} {result : Except Error α}
      {u v t : Supervised σ} (before : QuietTo s u) (launch : Launches u command (.ok process) v)
      (after : QuietTo v t) (fails : ∀ e, result = .error e → e.isLate = true) : Comes s (result, t)

variable {p s}

theorem Comes.after {t : Supervised σ} {out : Except Error α × Supervised σ} (quiet : QuietTo s t)
    (comes : Comes t out) : Comes s out := by
  cases comes with
  | unlaunched rest fails => exact .unlaunched (quiet.trans rest) fails
  | refused before launch after => exact .refused (quiet.trans before) launch after
  | created before launch after fails => exact .created (quiet.trans before) launch after fails

/-- An early step either fails or is gone on with. -/
theorem Comes.andThen {β : Type} {r : Except Error β × Supervised σ}
    {f : β → Supervised σ → Except Error α × Supervised σ} (quiet : QuietTo s r.2)
    (fails : ∀ e, r.1 = .error e → e.isEarly = true) (rest : ∀ b t, Comes t (f b t)) :
    Comes s (Supervised.andThen r f) := by
  rcases r with ⟨e | b, t⟩
  · refine .unlaunched quiet fun e' failed => ?_
    cases failed
    exact .inr (fails e rfl)
  · exact (rest b t).after quiet

theorem comes_launch (command : Command) (port : Nat) :
    Comes s (Supervised.andThen (s.launch p command) fun process t =>
      t.awaitUp p process port) := by
  cases spawned : (p.spawn s.supervisor.spawned command s.world).1 with
  | error reason =>
    have launch : Launches s command (.error reason) (s.launch p command).2 := by
      constructor <;> simp [Supervised.launch, spawned, note]
    have failed : (s.launch p command).1 = .error (.launch command.program.display reason) := by
      simp [Supervised.launch, spawned]
    rcases launched : s.launch p command with ⟨result, t⟩
    rw [launched] at launch failed
    subst failed
    exact .refused (.refl s) launch (.refl t)
  | ok _ =>
    have launch : Launches s command (.ok s.supervisor.spawned) (s.launch p command).2 := by
      constructor <;> simp [Supervised.launch, spawned, note]
    have made : (s.launch p command).1 = .ok s.supervisor.spawned := by
      simp [Supervised.launch, spawned]
    rcases launched : s.launch p command with ⟨result, t⟩
    rw [launched] at launch made
    subst made
    obtain ⟨after, fails⟩ := quiet_awaitUp p t s.supervisor.spawned port
    exact .created (.refl s) launch after fails

theorem comes_start : Comes s (s.start p) := by
  unfold start
  refine .andThen (quiet_deploy p s) (fun _ => deploy_error) fun _ s => ?_
  refine .andThen (quiet_choosePort p s) (fun _ => choosePort_error) fun port s => ?_
  refine .andThen (quiet_checkEntry p s) (fun _ => checkEntry_error) fun _ s => ?_
  refine .andThen (quiet_chooseProgram p s) (fun _ => chooseProgram_error) fun program s => ?_
  have remembered : QuietTo s (s.remember (commandFor s.supervisor program port)) :=
    .of_history rfl rfl
  refine Comes.andThen (remembered.trans (quiet_makeClient p _ port)) (fun _ => makeClient_error)
    fun _ t => ?_
  exact comes_launch _ port

theorem Comes.settle {r : Except Error Held × Supervised σ} (comes : Comes s r) :
    Comes s (Supervised.settle r) := by
  have failing : ∀ (t : Supervised σ) (e : Error), QuietTo t (Supervised.settle (.error e, t)).2 :=
    fun t e => ((QuietTo.refl t).log _ _ _).setPhase _
  cases comes with
  | @unlaunched result t quiet fails =>
    cases result with
    | error e =>
      refine .unlaunched (quiet.trans (failing t e)) fun e' failed => ?_
      cases failed
      exact fails e rfl
    | ok worker => exact .unlaunched ((quiet.setWorker _).setPhase _) nofun
  | @refused command reason u v t before launch after =>
    exact .refused before launch (after.trans (failing t _))
  | @created command process result u v t before launch after fails =>
    cases result with
    | error e =>
      refine .created before launch (after.trans (failing t e)) fun e' failed => ?_
      cases failed
      exact fails e rfl
    | ok worker => exact .created before launch ((after.setWorker _).setPhase _) nofun

theorem comes_startAnew : Comes s (s.startAnew p) :=
  (comes_start.after ((QuietTo.refl s).setPhase .starting)).settle

/-- Making sure that a worker runs launches nothing, or it launches once. -/
theorem comes_ensureRunning : Comes s (s.ensureRunning p) := by
  unfold ensureRunning
  split
  · refine .unlaunched (.refl s) fun e failed => ?_
    cases failed
    exact .inl rfl
  · cases s.supervisor.worker with
    | none => exact comes_startAnew
    | some worker =>
      have asked := quiet_ask p s worker .status nofun
      dsimp only
      split
      · exact .unlaunched (asked.setPhase _) nofun
      · exact comes_startAnew.after (asked.trans (quiet_discard p _ worker))

end Supervised

end LintBridge.Worker
