import LintBridge.Proofs.CommandLine.Conclusion
import LintBridge.Proofs.CommandLine.Layers
import LintBridge.Proofs.Progress
import LintBridge.Proofs.Worker.Deadline
import LintBridge.Proofs.Worker.Operation

/-! The points in time that a run computes from its settings.  Settings give a timeout and an
interval in whole seconds, of which there is at least one; nothing else is asked of them, so the
clock may be unable to tell when they will have passed.  Then no progress is reported in between,
and the run breaks down as soon as there is a process to wait for: `run_deadlines`. -/

namespace LintBridge.Settings

/-! ### Whole seconds -/

/-- A span of time of whole seconds, at least one. -/
def IsWhole (d : Duration) : Prop := ∃ n, n ≠ 0 ∧ d = .ofSecs n

theorem isWhole_checkNonZero {e : Invalid} {default : Nat} (base : default ≠ 0)
    {given : Option Nat} {d : Duration}
    (h : checkNonZero e (Duration.ofSecs default) Duration.ofSecs given = .ok d) : IsWhole d := by
  match given with
  | none =>
    cases h
    exact ⟨default, base, rfl⟩
  | some 0 => cases h
  | some (n + 1) =>
    cases h
    exact ⟨n + 1, n.succ_ne_zero, rfl⟩

/-- Settings whose times are whole seconds. -/
structure AreWhole (s : Settings) : Prop where
  timeout : IsWhole s.worker.timeout
  progressInterval : IsWhole s.analysis.progressInterval

theorem areWhole_default (env : Environment) : (default env).AreWhole :=
  ⟨⟨60, by decide, rfl⟩, ⟨10, by decide, rfl⟩⟩

theorem isWhole_checkWorker {env : Environment} {f : WorkerFields} {s : WorkerSettings}
    (h : checkWorker env f = .ok s) : IsWhole s.timeout := by
  simp only [checkWorker, bind, Except.bind] at h
  split at h
  · cases h
  next timeout checked =>
    split at h
    · cases h
    · split at h
      · cases h
      · cases h
        exact isWhole_checkNonZero (by decide) checked

theorem isWhole_checkAnalysis {env : Environment} {f : AnalysisFields} {s : AnalysisSettings}
    (h : checkAnalysis env f = .ok s) : IsWhole s.progressInterval := by
  simp only [checkAnalysis, bind, Except.bind] at h
  split at h
  · cases h
  · split at h
    · cases h
    next interval checked =>
      cases h
      exact isWhole_checkNonZero (by decide) checked

theorem areWhole_ofText {env : Environment} {text : String} {s : Settings}
    (h : ofText env text = .ok s) : s.AreWhole := by
  unfold ofText at h
  split at h
  · cases h
  next d _ =>
    split at h
    · cases h
    next checked =>
      cases h
      obtain ⟨-, worker, analysis⟩ := sections_of_check checked
      exact ⟨isWhole_checkWorker worker, isWhole_checkAnalysis analysis⟩

theorem areWhole_ofFile {tree : FileTree} {env : Environment} {path : Path} {s : Settings}
    (h : ofFile tree env path = .ok s) : s.AreWhole := by
  unfold ofFile at h
  split at h
  · cases h
  next text _ =>
    cases read : ofText env text with
    | error e => simp [read, Except.mapError] at h
    | ok settings =>
      simp only [read, Except.mapError, Except.ok.injEq] at h
      exact h ▸ areWhole_ofText read

/-- The settings of a document are whole, wherever it comes from. -/
theorem areWhole_source {tree : FileTree} {env : Environment} {source : Option Path}
    {document : Settings}
    (h : source.elim (.ok (default env)) (ofFile tree env) = .ok document) :
    document.AreWhole := by
  cases source with
  | none =>
    cases h
    exact areWhole_default env
  | some path => exact areWhole_ofFile h

end LintBridge.Settings

namespace LintBridge.CommandLine

open LintBridge.Analysis LintBridge.Worker LintBridge.Worker.Supervised LintBridge.Settings

variable {σ : Type}

/-! ### With a clock that can tell -/

/-- A supervisor with a timeout, and the same with a clock that has told every deadline. -/
def Keeps (timeout : Duration) (v : Supervised σ) (w : Supervised (Timed σ)) : Prop :=
  v.supervisor.options.timeout = timeout ∧ w = v.timed false

section Told

variable {sys : System σ} {timeout : Duration} (told : IsTold sys.now timeout)
include told

theorem alike_timed (job : Job) (files : List SourceFile) :
    Alike (sys.surroundings job files) (sys.timed.surroundings job files) (Keeps timeout) where
  now := by
    rintro v w ⟨set, rfl⟩
    rfl
  isCancelled := by
    rintro v w ⟨set, rfl⟩
    rfl
  files := by
    rintro v w ⟨set, rfl⟩
    exact ⟨rfl, set, rfl⟩
  workDir := by
    rintro v w ⟨set, rfl⟩
    exact ⟨rfl, set, rfl⟩
  store := by
    rintro path text v w ⟨set, rfl⟩
    exact ⟨rfl, set, rfl⟩
  readText := by
    rintro file v w ⟨set, rfl⟩
    exact ⟨rfl, set, rfl⟩
  save := by
    rintro issue v w ⟨set, rfl⟩
    exact ⟨set, rfl⟩
  ensureRunning := by
    rintro v w ⟨set, rfl⟩
    have same := ensureRunning_timed told (p := sys.platform) v false set
    have kept := (finishes_checking (p := sys.platform) (s := v)).options
    exact ⟨congrArg Prod.fst same.symm, (congrArg LaunchOptions.timeout kept).trans set,
      congrArg Prod.snd same⟩
  takeNotices := by
    rintro v w ⟨set, rfl⟩
    exact ⟨rfl, set, rfl⟩
  commandInfo := by
    rintro v w ⟨set, rfl⟩
    exact ⟨rfl, set, rfl⟩
  isAlive := by
    rintro v w ⟨set, rfl⟩ -
    cases held : v.supervisor.worker <;>
      simp only [System.surroundings, Host.surroundings, supervisor_timed, held] <;>
      exact ⟨rfl, set, rfl⟩
  analyze := by
    rintro request v w ⟨set, rfl⟩ -
    cases held : v.supervisor.worker <;>
      simp only [System.surroundings, Host.surroundings, supervisor_timed, held] <;>
      exact ⟨rfl, set, rfl⟩

/-- The run of an invocation is the same with a clock that tells every deadline. -/
theorem ran_timed (env : Environment) (prepared : Prepared) (world : σ)
    (set : prepared.supervisor.options.timeout = timeout) :
    Agree (Run.Like (Keeps timeout)) (prepared.ran sys env world)
      (prepared.ran sys.timed env ⟨world, false⟩) :=
  execute_alike (alike_timed told _ _) _ _ _ ⟨set, rfl⟩

theorem stop_timed (v : Supervised σ) (set : v.supervisor.options.timeout = timeout) :
    (v.timed false).stop sys.timed.platform = (v.stop sys.platform).timed false :=
  (finishes_stopping.unique (Finishes.timed told finishes_stopping false set)).2

theorem analyze_timed (env : Environment) (prepared : Prepared) (world : σ)
    (set : prepared.supervisor.options.timeout = timeout) :
    analyze sys.timed env prepared ⟨world, false⟩ =
      ((analyze sys env prepared world).1,
        ⟨(analyze sys env prepared world).2.worker.timed false,
          (analyze sys env prepared world).2.warnings⟩) := by
  obtain ⟨result, r, q, here, there, w, ⟨still, rfl⟩, rfl⟩ :=
    (ran_timed told env prepared world set).exists
  have stopped : (r.inWorld (r.world.timed false)).world.stop sys.timed.platform =
      (r.world.stop sys.platform).timed false := stop_timed told r.world still
  rw [Prepared.ran, Prepared.files] at here there
  simp only [analyze, Session.run, here, there, stopped]
  rfl

end Told

theorem prepare_timed (sys : System σ) (env : Environment) (a : Arguments) (world : σ) (b : Bool) :
    prepare sys.timed env a ⟨world, b⟩ =
      ((prepare sys env a world).1, (prepare sys env a world).2.1,
        ⟨(prepare sys env a world).2.2, b⟩) := by
  unfold prepare
  simp only [System.timed, Timed.enter]
  split
  · rfl
  next project found =>
    split
    · rfl
    next logs loaded read =>
      split
      · rfl
      next more rules active => split <;> rfl

/-! ### With a clock that cannot tell -/

section Untold

variable {sys : System σ} {timeout : Duration} (untold : IsUntold sys.now timeout)
include untold

theorem isFated_call {job : Job} {files : List SourceFile} {w w' : Supervised (Timed σ)}
    {call : Surroundings.Call} (leads : (sys.timed.surroundings job files).Leads w call w')
    (fated : IsFated timeout none w) : IsFated timeout none w' := by
  cases leads with
  | ensureRunning => exact isFated_ensureRunning untold fated
  | isAlive | analyze =>
    simp only [System.surroundings, Host.surroundings]
    split <;> exact ⟨fated.set, nofun, fated.broken⟩
  | _ => exact ⟨fated.set, nofun, fated.broken⟩

/-- At the exit the program has broken down just if the worker was ever a process. -/
theorem isFated_final (env : Environment) (prepared : Prepared) (world : σ)
    (set : prepared.supervisor.options.timeout = timeout)
    (fresh : prepared.supervisor.spawned = 0) :
    IsFated timeout none (prepared.final sys.timed env ⟨world, false⟩) := by
  have fated : IsFated timeout none
      (⟨prepared.supervisor, ⟨world, false⟩, []⟩ : Supervised (Timed σ)) :=
    ⟨set, nofun, fun _ => by simp [fresh]⟩
  exact isFated_stop untold
    (execute_preserves (fun _ _ _ leads => isFated_call untold leads) _ _ _ fated)

end Untold

/-! ### Runs with a clock -/

theorem exit_conclude_ne (a : Arguments) (project : Path) (logs : List Log.Record) (f : Findings) :
    (conclude a project logs f).exit ≠ breakdownCode := by
  have failed : failureCode ≠ breakdownCode := by decide
  unfold conclude
  split
  · exact failed
  · simp only [exitCode]
    split
    · exact failed
    · split <;> decide

section Prepared

variable {sys : System σ} {env : Environment} {a : Arguments} {world w : σ}
  {logs : List Log.Record}

theorem runTimed_of_trouble {trouble : Trouble}
    (unprepared : prepare sys env a world = (logs, .error trouble, w)) :
    runTimed sys env a world = runArguments sys env a world := by
  simp only [runTimed, runArguments, prepare_timed, unprepared]
  rfl

variable {p : Prepared} (prepared : prepare sys env a world = (logs, .ok p, w))
include prepared

theorem runTimed_of_told {timeout : Duration} (told : IsTold sys.now timeout)
    (set : p.supervisor.options.timeout = timeout) :
    runTimed sys env a world = runArguments sys env a world := by
  simp only [runTimed, runArguments, prepare_timed, prepared, analyze_timed told env p w set]
  rfl

/-- A program breaks down just if it has done so at its exit, and then it gives no report. -/
theorem runTimed_broken :
    let last := p.final sys.timed env ⟨w, false⟩
    ((runTimed sys env a world).1.exit = breakdownCode ↔ last.world.isBroken = true) ∧
      (last.world.isBroken = true → (runTimed sys env a world).1.stdout = "") := by
  intro last
  have ended : runTimed sys env a world =
      (if last.world.isBroken then
        (conclude a p.job.project logs (analyze sys.timed env p ⟨w, false⟩).1).brokenOff
      else conclude a p.job.project logs (analyze sys.timed env p ⟨w, false⟩).1,
        last.world.world) := by
    simp only [runTimed, runArguments, prepare_timed, prepared]
    rfl
  rw [ended]
  cases broken : last.world.isBroken with
  | true => exact ⟨iff_of_true rfl rfl, fun _ => rfl⟩
  | false =>
    exact ⟨iff_of_false (exit_conclude_ne a _ _ _) Bool.false_ne_true,
      fun broken => absurd broken Bool.false_ne_true⟩

end Prepared

/-! ### The points in time of a run -/

/-- What a run that was prepared in some world needs of the clock: the deadline of its timeout of
`n` seconds, and the end of its first interval of `m` seconds.  It ends as without a clock if the
deadline can always be told.  If it never can, the program breaks down when there is a worker to
wait for, and so without a report. -/
structure Deadlines (sys : System σ) (env : Environment) (a : Arguments) (p : Prepared) (w : σ)
    (n m : Nat) (ends without : Outcome × σ) : Prop where
  timeout : p.supervisor.options.timeout = .ofSecs n
  interval : p.job.options.progressInterval = .ofSecs m
  positive : n ≠ 0 ∧ m ≠ 0
  given : ∀ k, a.timeout = some k → n = k
  deadline : ∀ now, (Listener.deadline? now p.supervisor.options.timeout).isSome = true ↔
    now.sinceStart.secs + n < 2 ^ 63
  tick : ∀ now total, (Progress.start now total p.job.options.progressInterval).ticking = true ↔
    now.sinceStart.secs + m < 2 ^ 63
  silent : ∀ now total life, 2 ^ 63 ≤ now.sinceStart.secs + m → (∀ step ∈ life, step.continues) →
    Progress.logged (some (Progress.start now total p.job.options.progressInterval)) life = []
  steady : (∀ v, (sys.now v).sinceStart.secs + n < 2 ^ 63) → ends = without
  broken : (∀ v, 2 ^ 63 ≤ (sys.now v).sinceStart.secs + n) →
    (ends.1.exit = breakdownCode ↔
      0 < (p.final sys.timed env ⟨w, false⟩).supervisor.spawned) ∧
    (ends.1.exit = breakdownCode → ends.1.stdout = "")

section Prepared

variable {sys : System σ} {env : Environment} {a : Arguments} {world w : σ}
  {logs : List Log.Record} {p : Prepared}

/-- The times of a run are whole seconds, and the timeout is the one that is given, if any is. -/
theorem exists_times (timed : a.IsTimed) (prepared : prepare sys env a world = (logs, .ok p, w)) :
    ∃ n m, p.supervisor.options.timeout = .ofSecs n ∧
      p.job.options.progressInterval = .ofSecs m ∧ n ≠ 0 ∧ m ≠ 0 ∧
      (∀ k, a.timeout = some k → n = k) ∧ p.supervisor.spawned = 0 := by
  obtain ⟨project, document, rules, source, -, job, supervisor⟩ := settings_of_prepare prepared
  have whole := areWhole_source source
  have layers := layered timed document env.get?
  generalize applyArguments (document.applyEnvironment env.get?).1 a = s
    at job supervisor layers
  obtain ⟨m, some, spaced⟩ := whole.progressInterval
  have interval : p.job.options.progressInterval = .ofSecs m := by
    rw [job]
    exact layers.progressInterval.trans spaced
  have timeout : p.supervisor.options.timeout =
      (a.timeout.map Duration.ofSecs).getD document.worker.timeout := by
    rw [supervisor]
    exact layers.timeout
  have fresh : p.supervisor.spawned = 0 := by
    rw [supervisor]
    rfl
  cases given : a.timeout with
  | none =>
    obtain ⟨n, positive, set⟩ := whole.timeout
    rw [given] at timeout
    exact ⟨n, m, timeout.trans set, interval, positive, some, nofun, fresh⟩
  | some k =>
    rw [given] at timeout
    exact ⟨k, m, timeout, interval, fun zero => timed (zero ▸ given), some,
      fun _ => Option.some.inj, fresh⟩

theorem deadlines_of_prepare (timed : a.IsTimed)
    (prepared : prepare sys env a world = (logs, .ok p, w)) :
    ∃ n m, Deadlines sys env a p w n m
      (runTimed sys env a world) (runArguments sys env a world) := by
  obtain ⟨n, m, timeout, interval, positive, some, given, fresh⟩ := exists_times timed prepared
  have tick : ∀ now total,
      (Progress.start now total p.job.options.progressInterval).ticking = true ↔
        now.sinceStart.secs + m < 2 ^ 63 := by
    intro now total
    rw [interval]
    exact Instant.isSome_after?_ofSecs
  refine ⟨n, m, timeout, interval, ⟨positive, some⟩, given, fun now => ?_, tick, ?_, ?_, ?_⟩
  · rw [timeout]
    exact Instant.isSome_after?_ofSecs
  · intro now total life late living
    have still := mt (tick now total).mp (Nat.not_lt.mpr late)
    exact Progress.logged_of_not_ticking (Bool.eq_false_iff.mpr still) living
  · intro soon
    exact runTimed_of_told prepared (isTold_ofSecs.mpr soon) timeout
  · intro late
    obtain ⟨breaks, silent⟩ := runTimed_broken prepared
    have fated := isFated_final (isUntold_ofSecs.mpr late) env p w timeout fresh
    exact ⟨breaks.trans (fated.broken rfl), fun broken => silent (breaks.mp broken)⟩

end Prepared

/-- Whatever an invocation accepts, its times are whole seconds, and at least one.  That is all that
is asked of them: the clock, which counts fewer than 2^63 seconds, may be unable to tell the
deadline of a start, and then the program breaks down as soon as there is a worker to wait for; or
it is unable to tell the end of the first interval, and then nothing is logged in between.
Otherwise, and if nothing was prepared, an invocation ends as without a clock. -/
theorem run_deadlines (sys : System σ) (env : Environment) (arguments : List String) (world : σ) :
    match parse arguments with
    | .ok (.run a) =>
      match prepare sys env a world with
      | (_, .ok p, w) =>
        ∃ n m, Deadlines sys env a p w n m (run sys env arguments world)
          (runArguments sys env a world)
      | (_, .error _, _) => run sys env arguments world = runArguments sys env a world
    | _ => (run sys env arguments world).1.exit ≠ breakdownCode := by
  unfold run
  split
  next a parsed =>
    split
    next prepared =>
      simp only [parsed]
      exact deadlines_of_prepare (isTimed_parse parsed) prepared
    next unprepared =>
      simp only [parsed]
      exact runTimed_of_trouble unprepared
  next other =>
    split
    · exact nofun
    · exact nofun
    · exact nofun
    next a parsed => exact absurd parsed (other a)

/-- Times that pass every check.  With the timeout of the document a worker is started; with that of
the command line, which no clock can tell the end of, the program breaks down at the same start.
And a second after its own start a clock cannot tell the end of the first interval. -/
theorem deadlines_untold :
    let document : Document :=
      { worker := { checkVersion := some false }
        analysis := { progressIntervalSecs := some 9223372036854775807 } }
    let platform := (Platform.steady true).timed fun _ => .start
    let begun := fun s : Settings => (⟨supervisorFor s, ⟨[], false⟩, []⟩ : Supervised (Timed _))
    ∃ s a, document.check {} = .ok s ∧
      parse ["--timeout", "18446744073709551615"] = .ok (.run a) ∧
      ((begun s).ensureRunning platform).1 = .ok () ∧
      (∀ now, Listener.deadline? now (applyArguments s a).worker.timeout = none) ∧
      ((begun (applyArguments s a)).ensureRunning platform).2.world.isBroken = true ∧
      (Progress.start ⟨.ofSecs 1⟩ 1 (applyArguments s a).analysis.progressInterval).ticking =
        false := by
  intro document platform begun
  have checked : document.check {} = .ok (⟨{ defaultWorker {} with checkVersion := false },
      { defaultAnalysis with progressInterval := .ofSecs 9223372036854775807 }, []⟩) := rfl
  have parsed : parse ["--timeout", "18446744073709551615"] =
      .ok (.run { timeout := some 18446744073709551615 }) := by decide +kernel
  have untold : ∀ now, Listener.deadline? now (.ofSecs 18446744073709551615) = none :=
    isUntold_ofSecs.mpr fun now => by omega
  refine ⟨_, _, checked, parsed, ?_, untold, ?_, ?_⟩ <;> decide +kernel

end LintBridge.CommandLine
