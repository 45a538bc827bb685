import LintBridge.Analysis.Execute

/-! The stages of a run.  Before it comes to its files there are three things that can stop it
(`Proceeds`), and what has stopped it decides how it ends (`Concludes`).  What is true of every run
follows from the cases. -/

namespace LintBridge.Analysis

variable {σ : Type} {s : Surroundings σ}

/-! ### Starting the worker -/

namespace Run

variable (s) (r : Run σ)

/-- The run once it has asked for the worker and taken its notices. -/
def noticed : Run σ :=
  let started := s.ensureRunning r.world
  let asked := { r with world := started.2 }.note (.startedWorker started.1)
  let told := s.takeNotices started.2
  told.1.foldl Run.warn ({ asked with world := told.2 }.note (.tookNotices told.1))

/-- The run once it has asked which command was tried. -/
def inquired : Run σ :=
  let info := s.commandInfo r.world
  let asked := { r with world := info.2 }.note (.askedCommand info.1)
  info.1.elim asked (asked.say .error)

/-- The run once it has found that there is no worker, because of an error. -/
def unstarted (e : Worker.Error) : Run σ :=
  if e.isStartupFailure then (r.noticed s).inquired s else r.noticed s

theorem world_foldl_warn (texts : List String) : (texts.foldl Run.warn r).world = r.world := by
  induction texts generalizing r with
  | nil => rfl
  | cons text rest ih => exact ih (r.warn text)

theorem world_noticed :
    (r.noticed s).world = (s.takeNotices (s.ensureRunning r.world).2).2 := by
  simp only [noticed]
  exact world_foldl_warn _ _

theorem world_inquired : (r.inquired s).world = (s.commandInfo r.world).2 := by
  simp only [inquired]
  cases (s.commandInfo r.world).1 <;> rfl

end Run

theorem startWorker_of_ok {r : Run σ} (h : (s.ensureRunning r.world).1 = .ok ()) :
    startWorker s r = (.ok (), r.noticed s) := by
  simp only [startWorker, Run.noticed, h]
  rfl

theorem startWorker_of_error {r : Run σ} {e : Worker.Error}
    (h : (s.ensureRunning r.world).1 = .error e) :
    startWorker s r = (.error (.worker e), r.unstarted s e) := by
  simp only [startWorker, Run.unstarted, Run.noticed, h]
  cases e.isStartupFailure <;> rfl

/-! ### Before the files -/

/-- How far a run comes: it is stopped before it comes to its files, or it analyzes them. -/
inductive Proceeds (s : Surroundings σ) (rules : RuleSet) (options : Options)
    (files : List SourceFile) (r : Run σ) : Except Failure Unit × Run σ → Prop
  | cancelled (stopped : s.isCancelled r.world = true) :
      Proceeds s rules options files r (.error .cancelled, r)
  | unstored {e : Failure} {stored : Run σ} (going : s.isCancelled r.world = false)
      (storing : storeConfig s rules r = (.error e, stored)) :
      Proceeds s rules options files r (.error e, stored)
  | unstarted {config : Path} {stored : Run σ} {e : Worker.Error}
      (going : s.isCancelled r.world = false)
      (storing : storeConfig s rules r = (.ok config, stored))
      (starting : (s.ensureRunning stored.world).1 = .error e) :
      Proceeds s rules options files r (.error (.worker e), stored.unstarted s e)
  | started {config : Path} {stored : Run σ}
      (going : s.isCancelled r.world = false)
      (storing : storeConfig s rules r = (.ok config, stored))
      (starting : (s.ensureRunning stored.world).1 = .ok ()) :
      Proceeds s rules options files r
        (analyzeReporting s rules options config files (stored.noticed s))

theorem proceeds (rules : RuleSet) (options : Options) (files : List SourceFile) (r : Run σ) :
    Proceeds s rules options files r (runFiles s rules options files r) := by
  unfold runFiles
  split
  next stopped => exact .cancelled stopped
  next unstopped =>
    have going : s.isCancelled r.world = false := Bool.eq_false_iff.mpr unstopped
    rcases storing : storeConfig s rules r with ⟨result, stored⟩
    cases result with
    | error e => exact .unstored going storing
    | ok config =>
      cases starting : (s.ensureRunning stored.world).1 with
      | error e =>
        simp only [startWorker_of_error starting]
        exact .unstarted going storing starting
      | ok =>
        simp only [startWorker_of_ok starting]
        exact .started going storing starting

/-- The run once it has announced the files that it is going to analyze. -/
def Run.announced (s : Surroundings σ) (options : Options) (total : Nat) (r : Run σ) : Run σ :=
  let progress := Progress.start (s.now r.world) total options.progressInterval
  { r with progress := some progress }.log progress.startRecord

/-! ### The end -/

/-- The run once it has taken note that it was cancelled. -/
def Run.cancelled (r : Run σ) : Run σ :=
  (r.log (interrupted r.summary.filesAnalyzed)).setStatus .cancelled

/-- The run once it has warned of a failure that stopped it. -/
def Run.degraded (r : Run σ) (e : Failure) : Run σ :=
  ((r.say .error s!"Failure during analysis: {e.message}").warn (warningAbout e)).setStatus
    .degraded

/-- How a run ends, by what stopped it. -/
inductive Concludes (options : Options) :
    Except Failure Unit × Run σ → Except Failure Summary × Run σ → Prop
  | completed (r : Run σ) : Concludes options (.ok (), r) (.ok r.summary, r)
  | cancelled (r : Run σ) :
      Concludes options (.error .cancelled, r) (.ok r.cancelled.summary, r.cancelled)
  | raised {e : Failure} (r : Run σ) (failed : e ≠ .cancelled) (strict : options.failFast = true) :
      Concludes options (.error e, r) (.error e, r)
  | degraded {e : Failure} (r : Run σ) (failed : e ≠ .cancelled)
      (lenient : options.failFast = false) :
      Concludes options (.error e, r) (.ok (r.degraded e).summary, r.degraded e)

theorem concludes (options : Options) (out : Except Failure Unit × Run σ) :
    Concludes options out (conclude options out) := by
  unfold conclude
  split
  · exact .completed _
  · exact .cancelled _
  · split
    next strict => exact .raised _ (by assumption) strict
    next lenient => exact .degraded _ (by assumption) (Bool.eq_false_iff.mpr lenient)

/-- A run that was cancelled ends without an error. -/
theorem conclude_cancelled {options : Options} {out : Except Failure Unit × Run σ}
    (h : out.1 = .error .cancelled) :
    ∃ summary, (conclude options out).1 = .ok summary ∧ summary.status = .cancelled := by
  rcases out with ⟨_, r⟩
  cases h
  exact ⟨_, rfl, rfl⟩

end LintBridge.Analysis
