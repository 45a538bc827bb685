import LintBridge.Proofs.Worker.History

/-! The analyses in the history of a supervisor: what a worker was asked for and what it answered.
None is asked for while it is made sure that a worker runs: `analyses_ensureRunning`. -/

namespace LintBridge.Worker

variable {σ : Type}

/-- What was asked for and the answer, if an event is an analysis. -/
def Event.analysis? : Event → Option (Request × Answer)
  | .asked _ (.analyze request) answer => some (request, answer)
  | _ => none

theorem Event.analysis?_of_isQuiet {e : Event} (h : e.isQuiet = true) : e.analysis? = none := by
  cases e with
  | asked worker call answer => cases call <;> first | rfl | cases h
  | _ => rfl

namespace Supervised

/-- The analyses that a worker was asked for, the first one first. -/
def analyses (s : Supervised σ) : List (Request × Answer) := s.history.filterMap Event.analysis?

theorem QuietTo.analyses {s t : Supervised σ} (quiet : QuietTo s t) : t.analyses = s.analyses := by
  obtain ⟨added, tells, quiet⟩ := quiet.history
  have none : added.filterMap Event.analysis? = [] :=
    List.filterMap_eq_nil_iff.mpr fun e member => Event.analysis?_of_isQuiet (quiet e member)
  rw [Supervised.analyses, tells, List.filterMap_append, none, List.append_nil]
  rfl

theorem Launches.analyses {s t : Supervised σ} {command : Command}
    {result : Except String ProcessId} (launch : Launches s command result t) :
    t.analyses = s.analyses := by
  rw [Supervised.analyses, launch.history, List.filterMap_append]
  exact List.append_nil _

theorem Comes.analyses {α : Type} {s : Supervised σ} {out : Except Error α × Supervised σ}
    (comes : Comes s out) : out.2.analyses = s.analyses := by
  cases comes with
  | unlaunched quiet fails => exact quiet.analyses
  | refused before launch after =>
    exact after.analyses.trans (launch.analyses.trans before.analyses)
  | created before launch after fails =>
    exact after.analyses.trans (launch.analyses.trans before.analyses)

variable (p : Platform σ) (s : Supervised σ)

theorem analyses_analyze (worker : Held) (request : Request) :
    (s.ask p worker (.analyze request)).2.analyses =
      s.analyses ++ [(request, (s.ask p worker (.analyze request)).1)] := by
  simp [ask, analyses, note, Event.analysis?]

theorem analyses_status (worker : Held) : (s.ask p worker .status).2.analyses = s.analyses :=
  (quiet_ask p s worker .status nofun).analyses

@[simp] theorem analyses_takeNotices : s.takeNotices.2.analyses = s.analyses :=
  (quiet_takeNotices s).analyses

@[simp] theorem analyses_ensureRunning : (s.ensureRunning p).2.analyses = s.analyses :=
  comes_ensureRunning.analyses

end Supervised

end LintBridge.Worker
