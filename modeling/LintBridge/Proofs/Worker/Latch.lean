import LintBridge.Proofs.Worker.Steps

/-! A start that fails is the last one.  Every way in which a start can fail is a startup failure
and leaves the supervisor failed and without a worker, and no operation leads out of that:
`failure_latches`. -/

namespace LintBridge.Worker

variable {σ : Type} {p : Platform σ}

/-! ### Whole operations -/

/-- An operation that goes to its end leaves the supervisor settled. -/
theorem Finishes.settled {point : Point} {s s' : Supervised σ} {reply : Reply}
    (run : Finishes p point s reply s') (fits : Fits (some point) s.standing) :
    s'.standing.IsSettled := by
  induction run with
  | done step => exact (advance_of_step step).fits fits
  | next step rest ih => exact ih ((advance_of_step step).fits fits)

namespace Supervised

variable {s : Supervised σ}

theorem isSettled_ensureRunning (settled : s.standing.IsSettled) :
    (s.ensureRunning p).2.standing.IsSettled :=
  finishes_checking.settled settled

theorem isSettled_stop (settled : s.standing.IsSettled) : (s.stop p).standing.IsSettled :=
  finishes_stopping.settled settled

theorem standing_perform_ask (errand : Errand) :
    (s.perform p (.ask errand)).2.standing = s.standing := by
  rw [perform_ask]
  cases s.supervisor.worker with
  | none => rfl
  | some worker => exact standing_ask p s worker errand.call

theorem isSettled_perform (settled : s.standing.IsSettled) (op : Operation) :
    (s.perform p op).2.standing.IsSettled := by
  cases op with
  | ensureRunning => exact isSettled_ensureRunning settled
  | stop => exact isSettled_stop settled
  | ask errand =>
    rw [standing_perform_ask]
    exact settled
  | state => exact settled
  | takeNotices =>
    rw [perform, Prod.map_snd, id, standing_takeNotices]
    exact settled
  | commandInfo => exact settled

theorem isSettled_performAll (settled : s.standing.IsSettled) (ops : List Operation) :
    (performAll p ops s).standing.IsSettled := by
  induction ops generalizing s with
  | nil => exact settled
  | cons op ops ih => exact ih (isSettled_perform settled op)

/-! ### A failed start -/

theorem ensureRunning_of_failed (failed : s.supervisor.phase = .failed) :
    s.ensureRunning p = (.error .failedBefore, s) := by
  rw [ensureRunning, if_pos failed]

theorem standing_stop_of_failed (failed : s.standing.phase = .failed)
    (free : s.standing.worker = none) : (s.stop p).standing = s.standing := by
  have idle : s.supervisor.worker = none := free
  have same : (s.note .stopped).standing = s.standing := standing_note s s.world _ rfl rfl
  have stopped : s.stop p = (s.note .stopped).reset := by
    simp [stop, note, idle]
  rw [stopped, standing_reset, same, if_pos failed, ← failed]

/-- Once a start has failed no operation changes the standing. -/
theorem standing_perform_of_failed (failed : s.standing.phase = .failed)
    (free : s.standing.worker = none) (op : Operation) :
    (s.perform p op).2.standing = s.standing := by
  cases op with
  | ensureRunning => rw [perform, ensureRunning_of_failed failed]; rfl
  | stop => exact standing_stop_of_failed failed free
  | ask errand => exact standing_perform_ask errand
  | state => rfl
  | takeNotices => exact standing_takeNotices s
  | commandInfo => rfl

theorem standing_performAll_of_failed (failed : s.standing.phase = .failed)
    (free : s.standing.worker = none) (ops : List Operation) :
    (performAll p ops s).standing = s.standing := by
  induction ops generalizing s with
  | nil => rfl
  | cons op ops ih =>
    have same := standing_perform_of_failed (p := p) failed free op
    rw [performAll, List.foldl_cons]
    exact (ih (same ▸ failed) (same ▸ free)).trans same

end Supervised

/-! ### The latch -/

/-- An operation that goes to its end with an error is a start that has failed, unless one had
failed before. -/
theorem Finishes.error {point : Point} {s s' : Supervised σ} {reply : Reply} {e : Error}
    (run : Finishes p point s reply s') (fits : Fits (some point) s.standing)
    (usable : point = .checking → s.standing.phase ≠ .failed)
    (failed : reply = .ensured (.error e)) :
    e.isStartupFailure = true ∧ s'.standing.phase = .failed := by
  induction run with
  | done step =>
    subst failed
    have advance := advance_of_step step
    exact ⟨advance.startup_of_error fits usable, advance.failed_of_error⟩
  | next step rest ih =>
    -- only the first step can find that a start had failed before
    have advance := advance_of_step step
    exact ih (advance.fits fits) (fun back => absurd back advance.next_ne_checking) failed

/-- A supervisor that could not be made to run has failed for good. -/
theorem Supervised.failed_of_error {s : Supervised σ} {e : Error} (settled : s.standing.IsSettled)
    (h : (s.ensureRunning p).1 = .error e) : (s.ensureRunning p).2.standing.phase = .failed := by
  by_cases failed : s.supervisor.phase = .failed
  · rw [Supervised.ensureRunning_of_failed failed]
    exact failed
  · have run := finishes_checking (p := p) (s := s)
    rw [h] at run
    exact (run.error settled (fun _ => failed) rfl).2

/-- Whatever a supervisor has done before, an attempt to make it run fails either because a start
had failed, and then nothing changes, or as a start that is the last one: no operation leads out of
that, and nothing is asked of a worker again. -/
theorem failure_latches (p : Platform σ) (bundle : Bundle) (options : LaunchOptions) (world : σ)
    (before : List Operation) :
    let s := Supervised.performAll p before (Supervised.fresh bundle options world)
    (∀ e s', s.ensureRunning p = (.error e, s') →
      (e = .failedBefore ∧ s.supervisor.phase = .failed ∧ s' = s) ∨
      (e.isStartupFailure = true ∧ s'.supervisor.phase = .failed ∧
        s'.supervisor.worker = none)) ∧
    (s.supervisor.phase = .failed → ∀ after : List Operation,
      let t := Supervised.performAll p after s
      t.supervisor.phase = .failed ∧
      t.ensureRunning p = (.error .failedBefore, t) ∧
      (∀ request, t.analyze p request = (.error .notRunning, t)) ∧
      t.isAlive p = (false, t)) := by
  intro s
  have settled : s.standing.IsSettled :=
    Supervised.isSettled_performAll (Supervised.isSettled_fresh bundle options world) before
  constructor
  · intro e s' ensured
    by_cases failed : s.supervisor.phase = .failed
    · rw [Supervised.ensureRunning_of_failed failed] at ensured
      cases ensured
      exact .inl ⟨rfl, failed, rfl⟩
    · have run := finishes_checking (p := p) (s := s)
      rw [ensured] at run
      obtain ⟨startup, latched⟩ := run.error settled (fun _ => failed) rfl
      exact .inr ⟨startup, latched, (run.settled settled).worker_of_failed latched⟩
  · intro failed after t
    have free : s.standing.worker = none := settled.worker_of_failed failed
    have same : t.standing = s.standing :=
      Supervised.standing_performAll_of_failed failed free after
    have latched : t.supervisor.phase = .failed := (congrArg Standing.phase same).trans failed
    have idle : t.supervisor.worker = none := (congrArg Standing.worker same).trans free
    refine ⟨latched, Supervised.ensureRunning_of_failed latched, ?_, ?_⟩
    · intro request
      rw [Supervised.analyze, idle]
    · rw [Supervised.isAlive, idle]

/-- Where the worker program is missing the first attempt is the last one, also after a stop. -/
theorem failure_latches_uninstalled :
    let s := Supervised.performAll (Platform.steady false) [.ensureRunning]
      (Supervised.fresh default {} [])
    s.supervisor.phase = .failed ∧
      (Supervised.performAll (Platform.steady false) [.stop, .takeNotices] s).ensureRunning
        (Platform.steady false) = (.error .failedBefore,
          Supervised.performAll (Platform.steady false) [.stop, .takeNotices] s) := by
  intro s
  have failed : s.supervisor.phase = .failed := rfl
  have latches := failure_latches (Platform.steady false) default {} [] [.ensureRunning]
  exact ⟨failed, (latches.2 failed [.stop, .takeNotices]).2.1⟩

end LintBridge.Worker
