import LintBridge.Analysis.Execute
import LintBridge.Worker.Exchange
import LintBridge.Worker.Supervisor.Run

/-! Runs with one supervised worker.  A host has all that lies around a run but the worker, and
nothing that it does touches the supervisor. -/

namespace LintBridge.Analysis

open LintBridge.Worker

/-- A host in a system. -/
structure Host (σ : Type) where
  now : σ → Instant
  isCancelled : σ → Bool
  files : σ → List SourceFile × σ
  workDir : σ → Path × σ
  store : Path → String → σ → Except Fault Unit × σ
  readText : SourceFile → σ → Except String String × σ
  save : Issue → σ → σ

namespace Host

variable {σ : Type} (h : Host σ) (p : Platform σ)

/-- Sends a request to a worker. The request is given up, and has no answer, if it is left open
until the run is cancelled. -/
def ask? (worker : Held) (call : Worker.Call) (s : Supervised σ) : Option Answer × Supervised σ :=
  let (answer, s) := s.ask p worker call
  (if answer = .unanswered ∧ h.isCancelled s.world then none else some answer, s)

/-- A host and a supervised worker, as what lies around a run. -/
def surroundings : Surroundings (Supervised σ) where
  now s := h.now s.world
  isCancelled s := h.isCancelled s.world
  files s := ((h.files s.world).1, { s with world := (h.files s.world).2 })
  workDir s := ((h.workDir s.world).1, { s with world := (h.workDir s.world).2 })
  store path text s :=
    ((h.store path text s.world).1, { s with world := (h.store path text s.world).2 })
  readText file s := ((h.readText file s.world).1, { s with world := (h.readText file s.world).2 })
  save issue s := { s with world := h.save issue s.world }
  ensureRunning s := s.ensureRunning p
  takeNotices s := s.takeNotices
  commandInfo s := (some s.commandInfo, s)
  isAlive s :=
    match s.supervisor.worker with
    | none => (some false, s)
    | some worker =>
      let (answer, s) := h.ask? p worker .status s
      (answer.map fun a => Worker.isAlive a.reply?, s)
  analyze request s :=
    match s.supervisor.worker with
    | none => (some (.error .notRunning), s)
    | some worker =>
      let (answer, s) := h.ask? p worker (.analyze request) s
      (answer.map fun a => readReply request a.reply?, s)

end Host

end LintBridge.Analysis
