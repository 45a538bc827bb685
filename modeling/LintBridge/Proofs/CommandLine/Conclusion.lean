import LintBridge.CommandLine.Run
import LintBridge.Proofs.Analysis.Interruption
import LintBridge.Proofs.Report.Listing
import LintBridge.Proofs.Worker.Standing

/-! How an invocation ends.  The report lists what the run has saved and what was imported before
it, and the exit code, though it is computed from counts, says whether the report lists anything;
a run that fails reports nothing.  In any case the worker is stopped last: `runArguments_ends`. -/

namespace LintBridge.Worker

variable {σ : Type}

/-- A supervisor has been stopped since some moment: it holds no worker, and the process of the one
that it held was put an end to. -/
structure Supervised.StoppedSince (before after : Supervised σ) : Prop where
  free : after.supervisor.worker = none
  history : ∃ more, after.history = before.history ++ .stopped :: more ∧
    ∀ worker, before.supervisor.worker = some worker → .terminated worker.process ∈ more

theorem Supervised.history_reset (s : Supervised σ) : s.reset.history = s.history := by
  unfold reset
  split <;> rfl

theorem Supervised.worker_reset (s : Supervised σ) :
    s.reset.supervisor.worker = s.supervisor.worker := by
  unfold reset
  split <;> rfl

theorem Supervised.stoppedSince_stop (p : Platform σ) (s : Supervised σ) :
    StoppedSince s (s.stop p) := by
  cases held : s.supervisor.worker with
  | none =>
    have stopped : s.stop p = (s.note .stopped).reset := by
      simp [stop, note, held]
    rw [stopped]
    refine ⟨(worker_reset _).trans held, [], history_reset _, fun worker other => ?_⟩
    cases held.symm.trans other
  | some worker =>
    have stopped : s.stop p = ((s.note .stopped).close p worker).reset := by
      simp [stop, note, held]
    rw [stopped]
    refine ⟨worker_reset _, ?_⟩
    rw [history_reset]
    simp only [close, ask, finish, setWorker, log, note, List.append_assoc, List.cons_append,
      List.nil_append]
    refine ⟨_, rfl, fun other same => ?_⟩
    cases held.symm.trans same
    simp

end LintBridge.Worker

namespace LintBridge.CommandLine

open LintBridge.Analysis LintBridge.Worker LintBridge.Report

variable {σ : Type}

/-! ### The run of an invocation -/

section

variable (sys : System σ) (env : Environment) (p : Prepared) (world : σ)

/-- The style sheets of the project that is analyzed. -/
def Prepared.files : List SourceFile :=
  Project.scanTree (sys.tree world) env p.job.project p.job.suffixes

/-- What is imported for a project, from its reports as they are before the run. -/
def Prepared.imported : List ExternalIssue :=
  (importAll p.job.rules (sys.tree world) p.job.project (p.files sys env world)
    p.job.reports).issues

/-- The run for a project, with a worker of its own. -/
def Prepared.ran : Except Failure Summary × Run (Supervised σ) :=
  execute (sys.surroundings p.job (p.files sys env world)) p.job.rules p.job.options {}
    ⟨p.supervisor, world, []⟩

/-- The supervisor at the exit. -/
def Prepared.final : Supervised σ := (p.ran sys env world).2.world.stop sys.platform

/-- The number that a run gives for the issues that it has saved is theirs. -/
theorem issuesSaved_ran {summary : Summary} (h : (p.ran sys env world).1 = .ok summary) :
    summary.issuesSaved = (p.ran sys env world).2.issues.length := by
  obtain ⟨done, -, -, issues, -, saved, -⟩ := accounts_execute
    (sys.surroundings p.job (p.files sys env world)) p.job.rules p.job.options {}
    ⟨p.supervisor, world, []⟩
  rw [summary_of_ok p.job.rules p.job.options {} _ h, Prepared.ran, saved, issues]

end

/-! ### The end of an invocation -/

/-- What is reported of a run that has come to its summary, and the exit code with it. -/
structure Reported (format : Format) (root : Path) (summary : Summary) (issues : List Issue)
    (external : List ExternalIssue) (out : Outcome) : Prop where
  lists : Lists root issues external format out.stdout
  degraded : summary.status = .degraded → out.exit = 2
  whole : summary.status ≠ .degraded → out.exit = if issues = [] ∧ external = [] then 0 else 1
  clean_iff : summary.status ≠ .degraded → (out.exit = 0 ↔ Lists root [] [] format out.stdout)

/-- How an invocation ends after a run. -/
inductive Ends (format : Format) (root : Path) (external : List ExternalIssue) (out : Outcome) :
    Except Failure Summary × Run σ → Prop
  | reported {summary : Summary} {r : Run σ}
      (h : Reported format root summary r.issues external out) :
      Ends format root external out (.ok summary, r)
  | failed {e : Failure} {r : Run σ} (silent : out.stdout = "") (exit : out.exit = 2) :
      Ends format root external out (.error e, r)

theorem exitCode_of_degraded {summary : Summary} (h : summary.status = .degraded) (n : Nat) :
    exitCode summary n = 2 := by
  rw [exitCode, if_pos h, failureCode]

/-- The counts of a run that is not degraded say whether there is anything to list. -/
theorem exitCode_of_not_degraded {summary : Summary} (h : summary.status ≠ .degraded)
    {issues : List Issue} (saved : summary.issuesSaved = issues.length)
    (external : List ExternalIssue) :
    exitCode summary external.length = if issues = [] ∧ external = [] then 0 else 1 := by
  rw [exitCode, if_neg h, saved]
  by_cases none : issues = [] ∧ external = []
  · rw [if_pos none, none.1, none.2]
    rfl
  · have some : 0 < issues.length + external.length := by
      rw [← List.length_eq_zero_iff, ← List.length_eq_zero_iff] at none
      omega
    rw [if_neg none, if_pos some]

theorem reported_write {format : Format} {root : Path} {summary : Summary} {issues : List Issue}
    {external : List ExternalIssue} {out : Outcome} (saved : summary.issuesSaved = issues.length)
    (exit : out.exit = exitCode summary external.length)
    (stdout : out.stdout = write format root issues external) :
    Reported format root summary issues external out where
  lists := stdout ▸ lists_write format
  degraded := fun h => exit.trans (exitCode_of_degraded h _)
  whole := fun h => exit.trans (exitCode_of_not_degraded h saved external)
  clean_iff := by
    intro h
    rw [exit, exitCode_of_not_degraded h saved, stdout, lists_nothing_iff (lists_write format)]
    split <;> simp [*]

theorem ends_conclude {a : Arguments} {root : Path} {logs : List Log.Record} {f : Findings}
    {run : Except Failure Summary × Run σ} (result : f.result = run.1)
    (issues : f.issues = run.2.issues)
    (saved : ∀ summary, run.1 = .ok summary → summary.issuesSaved = run.2.issues.length) :
    Ends a.format root f.imported.issues (conclude a root logs f) run := by
  obtain ⟨ended, r⟩ := run
  cases ended with
  | error e =>
    rw [conclude, result]
    exact .failed rfl rfl
  | ok summary =>
    rw [conclude, result]
    exact .reported (reported_write (saved summary rfl) rfl (congrArg (write _ _ · _) issues))

/-- An invocation that cannot be prepared reports nothing.  Any other reports what its run has saved
and then what was imported, which no worker can change, and it exits with 2 if the run is degraded,
else with 1 if it reports anything and with 0 if not; if its run fails it reports nothing and exits
with 2.  It ends when the worker has been stopped after the run. -/
theorem runArguments_ends (sys : System σ) (env : Environment) (a : Arguments) (world : σ) :
    match prepare sys env a world with
    | (_, .error _, _) =>
      (runArguments sys env a world).1.stdout = "" ∧ (runArguments sys env a world).1.exit = 2
    | (_, .ok p, w) => ∀ platform : Platform σ,
      let worked := { sys with platform }
      let out := runArguments worked env a world
      let run := p.ran worked env w
      Ends a.format p.job.project (p.imported sys env w) out.1 run ∧
      out.2 = (p.final worked env w).world ∧
      Supervised.StoppedSince run.2.world (p.final worked env w) := by
  split
  next logs trouble w unprepared => simp [runArguments, unprepared, failureCode]
  next logs p w prepared =>
    intro platform worked out run
    -- no worker has a part in the preparation
    have same : prepare worked env a world = (logs, .ok p, w) := prepared
    have concluded : out = (conclude a p.job.project logs (analyze worked env p w).1,
        (p.final worked env w).world) := by
      simp only [out, runArguments, same]
      rfl
    have ended : Ends a.format p.job.project (analyze worked env p w).1.imported.issues
        (conclude a p.job.project logs (analyze worked env p w).1) run :=
      ends_conclude rfl rfl fun _ => issuesSaved_ran worked env p w
    refine ⟨?_, congrArg Prod.snd concluded, Supervised.stoppedSince_stop platform _⟩
    rw [congrArg Prod.fst concluded]
    exact ended

end LintBridge.CommandLine
