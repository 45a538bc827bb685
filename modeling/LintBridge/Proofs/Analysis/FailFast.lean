import LintBridge.Proofs.Analysis.Dialogue

/-! What the option to fail fast decides: nothing but how a run ends that a failure has stopped.  Up
to its conclusion a run does not look at the option (`runFiles_failFast`), so that a run that fails
fast and one that does not are the same, or the one raises the failure of which the other warns:
`execute_failFast`. -/

namespace LintBridge.Analysis

variable {σ : Type} {s : Surroundings σ} (rules : RuleSet) (options : Options) (failFast : Bool)

/-! ### Up to the conclusion -/

theorem analyzeFile_failFast (config : Path) (total : Nat) (file : SourceFile) (path : Path)
    (r : Run σ) :
    analyzeFile s rules { options with failFast } config total file path r =
      analyzeFile s rules options config total file path r := rfl

theorem analyzeFiles_failFast (config : Path) (total : Nat) (files : List SourceFile) (r : Run σ) :
    analyzeFiles s rules { options with failFast } config total files r =
      analyzeFiles s rules options config total files r := by
  induction files generalizing r with
  | nil => rfl
  | cons file rest ih => simp only [analyzeFiles, analyzeFile_failFast, ih]

theorem analyzeReporting_failFast (config : Path) (files : List SourceFile) (r : Run σ) :
    analyzeReporting s rules { options with failFast } config files r =
      analyzeReporting s rules options config files r := by
  simp only [analyzeReporting, analyzeFiles_failFast]

/-- Until it is concluded a run does the same whether it fails fast or not. -/
theorem runFiles_failFast (files : List SourceFile) (r : Run σ) :
    runFiles s rules { options with failFast } files r = runFiles s rules options files r := by
  simp only [runFiles, analyzeReporting_failFast]

/-! ### The conclusion -/

/-- How a run that does not fail fast compares to one that does: they end the same, or the one warns
of the failure that the other raises. -/
inductive Escalates : Except Failure Summary × Run σ → Except Failure Summary × Run σ → Prop
  | same {summary : Summary} (r : Run σ) (h : summary.status ≠ .degraded) :
      Escalates (.ok summary, r) (.ok summary, r)
  | raised (e : Failure) (r : Run σ) (h : e ≠ .cancelled) :
      Escalates (.ok (r.degraded e).summary, r.degraded e) (.error e, r)

theorem escalates_conclude {out : Except Failure Unit × Run σ}
    (unharmed : out.2.summary.status ≠ .degraded) :
    Escalates (conclude { options with failFast := false } out)
      (conclude { options with failFast := true } out) := by
  obtain ⟨result, r⟩ := out
  match result with
  | .ok () => exact .same r unharmed
  | .error .cancelled => exact .same r.cancelled Status.noConfusion
  | .error (.worker e) => exact .raised _ r Failure.noConfusion
  | .error (.unresponsive analyzed total) => exact .raised _ r Failure.noConfusion
  | .error (.config e) => exact .raised _ r Failure.noConfusion

theorem escalates_execute (warnings : WarningList) (world : σ) :
    Escalates (execute s rules { options with failFast := false } warnings world)
      (execute s rules { options with failFast := true } warnings world) := by
  cases empty : rules.isEmpty with
  | true =>
    simp only [execute_of_isEmpty _ warnings empty]
    exact .same _ Status.noConfusion
  | false =>
    by_cases none : (s.files world).1.filter isEligible = []
    · simp only [execute_of_none _ warnings empty none]
      exact .same _ Status.noConfusion
    · simp only [execute_of_some _ warnings empty none, runFiles_failFast]
      refine escalates_conclude options ?_
      rw [status_runFiles]
      exact Status.noConfusion

theorem Run.events_degraded (r : Run σ) (e : Failure) :
    ∃ record, (r.degraded e).events = r.events ++ [.logged record, .warned (warningAbout e)] := by
  simp [degraded, setStatus, warn, say, log, note, events]

section Compared

variable {lenient strict : Except Failure Summary × Run σ} (h : Escalates lenient strict)
include h

/-- The two runs do the same, to the worker and to the host. -/
theorem Escalates.deeds :
    lenient.2.calls = strict.2.calls ∧ lenient.2.requests = strict.2.requests ∧
      lenient.2.issues = strict.2.issues ∧ lenient.2.world = strict.2.world := by
  cases h with
  | same r => exact ⟨rfl, rfl, rfl, rfl⟩
  | raised e r =>
    obtain ⟨record, events⟩ := r.events_degraded e
    simp only [Run.calls, Run.requests, Run.issues, callsIn, events, List.filter_append,
      List.filterMap_append]
    refine ⟨List.append_nil _, List.append_nil _, List.append_nil _, rfl⟩

/-- Failing fast raises a failure exactly where else the run is degraded. -/
theorem Escalates.raises_iff :
    (∃ e, strict.1 = .error e) ↔
      ∃ summary, lenient.1 = .ok summary ∧ summary.status = .degraded := by
  cases h with
  | same r unharmed =>
    refine ⟨nofun, ?_⟩
    rintro ⟨_, ⟨⟩, degraded⟩
    exact absurd degraded unharmed
  | raised e r => exact ⟨fun _ => ⟨_, rfl, rfl⟩, fun _ => ⟨e, rfl⟩⟩

theorem Escalates.warnings {e : Failure} (raised : strict.1 = .error e) :
    e ≠ .cancelled ∧ lenient.2.warnings = strict.2.warnings.add (warningAbout e) := by
  cases h with
  | same r => cases raised
  | raised e r failed =>
    cases raised
    exact ⟨failed, rfl⟩

theorem Escalates.eq_of_ok {summary : Summary} (ended : strict.1 = .ok summary) :
    lenient = strict := by
  cases h with
  | same r => rfl
  | raised e r => cases ended

end Compared

/-- A run that fails fast and one that does not make the same calls, send the same requests, save
the same issues and leave the same world.  The one raises a failure exactly if the other is
degraded; then that has given the same warnings and the one about the failure, which is never that
the run was cancelled.  Else the two come to the same. -/
theorem execute_failFast (s : Surroundings σ) (rules : RuleSet) (options : Options)
    (warnings : WarningList) (world : σ) :
    let lenient := execute s rules { options with failFast := false } warnings world
    let strict := execute s rules { options with failFast := true } warnings world
    (lenient.2.calls = strict.2.calls ∧ lenient.2.requests = strict.2.requests ∧
      lenient.2.issues = strict.2.issues ∧ lenient.2.world = strict.2.world) ∧
    ((∃ e, strict.1 = .error e) ↔
      ∃ summary, lenient.1 = .ok summary ∧ summary.status = .degraded) ∧
    (∀ e, strict.1 = .error e → e ≠ .cancelled ∧
      lenient.2.warnings = strict.2.warnings.add ("CSS files were not analyzed. " ++ e.message)) ∧
    ∀ summary, strict.1 = .ok summary → lenient = strict := by
  intro lenient strict
  have escalates : Escalates lenient strict := escalates_execute rules options warnings world
  exact ⟨escalates.deeds, escalates.raises_iff, fun _ => escalates.warnings,
    fun _ => escalates.eq_of_ok⟩

end LintBridge.Analysis
