import LintBridge.Proofs.Analysis.Books

/-! Runs in surroundings that answer alike.  If related worlds answer every call in the same way and
go on to related worlds, then a run in the one comes to the same as a run in the other:
`execute_alike`.  The questions to the worker count only as far as a run asks them, that is in a
world that is not cancelled. -/

namespace LintBridge.Analysis

variable {σ τ α : Type}

/-- What a call gives in one world and in another: the same answer, and related worlds. -/
def Agree (R : σ → τ → Prop) (a : α × σ) (b : α × τ) : Prop := a.1 = b.1 ∧ R a.2 b.2

theorem Agree.exists {R : σ → τ → Prop} {a : α × σ} {b : α × τ} (agree : Agree R a b) :
    ∃ x v w, a = (x, v) ∧ b = (x, w) ∧ R v w :=
  ⟨a.1, a.2, b.2, rfl, Prod.ext agree.1.symm rfl, agree.2⟩

/-- Surroundings answer alike in related worlds, and lead to related worlds. -/
structure Alike (s : Surroundings σ) (t : Surroundings τ) (R : σ → τ → Prop) : Prop where
  now : ∀ {v w}, R v w → s.now v = t.now w
  isCancelled : ∀ {v w}, R v w → s.isCancelled v = t.isCancelled w
  files : ∀ {v w}, R v w → Agree R (s.files v) (t.files w)
  workDir : ∀ {v w}, R v w → Agree R (s.workDir v) (t.workDir w)
  store : ∀ path text {v w}, R v w → Agree R (s.store path text v) (t.store path text w)
  readText : ∀ file {v w}, R v w → Agree R (s.readText file v) (t.readText file w)
  save : ∀ issue {v w}, R v w → R (s.save issue v) (t.save issue w)
  ensureRunning : ∀ {v w}, R v w → Agree R (s.ensureRunning v) (t.ensureRunning w)
  takeNotices : ∀ {v w}, R v w → Agree R (s.takeNotices v) (t.takeNotices w)
  commandInfo : ∀ {v w}, R v w → Agree R (s.commandInfo v) (t.commandInfo w)
  isAlive : ∀ {v w}, R v w → s.isCancelled v = false → Agree R (s.isAlive v) (t.isAlive w)
  analyze : ∀ request {v w}, R v w → s.isCancelled v = false →
    Agree R (s.analyze request v) (t.analyze request w)

namespace Run

theorem world_note (r : Run σ) (e : Event) : (r.note e).world = r.world := rfl

/-- The run with another world. -/
def inWorld (r : Run σ) (w : τ) : Run τ :=
  { world := w, warnings := r.warnings, summary := r.summary, progress := r.progress,
    history := r.history }

/-- Two runs that differ in their worlds only, and these are related. -/
def Like (R : σ → τ → Prop) (r : Run σ) (q : Run τ) : Prop :=
  ∃ w, R r.world w ∧ q = r.inWorld w

variable {R : σ → τ → Prop} {r : Run σ} {q : Run τ}

theorem Like.world (like : Like R r q) : R r.world q.world := by
  obtain ⟨w, rel, rfl⟩ := like
  exact rel

/-- A call, whose answer is noted. -/
theorem Like.call (like : Like R r q) {v : σ} {w : τ} (rel : R v w) (e : Event) :
    Like R ({ r with world := v }.note e) ({ q with world := w }.note e) := by
  obtain ⟨_, -, rfl⟩ := like
  exact ⟨w, rel, rfl⟩

theorem Like.note (like : Like R r q) (e : Event) : Like R (r.note e) (q.note e) :=
  like.call like.world e

theorem Like.say (like : Like R r q) (level : Log.Level) (text cause : String) :
    Like R (r.say level text cause) (q.say level text cause) := like.note _

theorem Like.warn (like : Like R r q) (text : String) : Like R (r.warn text) (q.warn text) := by
  obtain ⟨w, rel, rfl⟩ := like
  exact ⟨w, rel, rfl⟩

theorem Like.foldl_warn (texts : List String) (like : Like R r q) :
    Like R (texts.foldl Run.warn r) (texts.foldl Run.warn q) := by
  induction texts generalizing r q with
  | nil => exact like
  | cons text rest ih => exact ih (like.warn text)

theorem Like.showFile (like : Like R r q) (file : SourceFile) :
    Like R (showFile file r) (showFile file q) := by
  obtain ⟨w, rel, rfl⟩ := like
  exact ⟨w, rel, rfl⟩

theorem Like.countFile (like : Like R r q) : Like R (countFile r) (countFile q) := by
  obtain ⟨w, rel, rfl⟩ := like
  exact ⟨w, rel, rfl⟩

theorem Like.summary (like : Like R r q) : r.summary = q.summary := by
  obtain ⟨w, rel, rfl⟩ := like
  rfl

end Run

section Calls

variable {s : Surroundings σ} {t : Surroundings τ} {R : σ → τ → Prop} (alike : Alike s t R)
  {r : Run σ} {q : Run τ}
include alike

theorem like_saveFinding (rules : RuleSet) (file : SourceFile) (like : Run.Like R r q)
    (d : Diagnostic) :
    Run.Like R (saveFinding s rules file r d) (saveFinding t rules file q d) := by
  obtain ⟨w, rel, rfl⟩ := like
  unfold saveFinding
  split
  · exact ⟨w, rel, rfl⟩
  · exact ⟨_, alike.save _ rel, rfl⟩

theorem like_saveOutcome (rules : RuleSet) (file : SourceFile) (like : Run.Like R r q)
    (outcome : Outcome) :
    Run.Like R (saveOutcome s rules file r outcome) (saveOutcome t rules file q outcome) := by
  cases outcome with
  | diagnostics items =>
    show Run.Like R (items.foldl (saveFinding s rules file) r)
      (items.foldl (saveFinding t rules file) q)
    induction items generalizing r q with
    | nil => exact like
    | cons d rest ih => exact ih (like_saveFinding alike rules file like d)
  | parseFailure line message =>
    obtain ⟨w, rel, rfl⟩ := like
    exact ⟨w, rel, rfl⟩

theorem agree_askAlive (like : Run.Like R r q) :
    Agree (Run.Like R) (askAlive s r) (askAlive t q) := by
  have cancelled := alike.isCancelled like.world
  unfold askAlive
  rw [← cancelled]
  split
  · exact ⟨rfl, like⟩
  next going =>
    obtain ⟨answer, v, w, here, there, rel⟩ :=
      (alike.isAlive like.world (Bool.eq_false_iff.mpr going)).exists
    rw [here, there]
    cases answer <;> exact ⟨rfl, like.call rel _⟩

theorem agree_askAnalysis (like : Run.Like R r q) (request : Request) :
    Agree (Run.Like R) (askAnalysis s request r) (askAnalysis t request q) := by
  have cancelled := alike.isCancelled like.world
  unfold askAnalysis
  rw [← cancelled]
  split
  · exact ⟨rfl, like⟩
  next going =>
    obtain ⟨answer, v, w, here, there, rel⟩ :=
      (alike.analyze request like.world (Bool.eq_false_iff.mpr going)).exists
    rw [here, there]
    rcases answer with _ | ⟨_ | _⟩ <;> exact ⟨rfl, like.call rel _⟩

theorem agree_requestFor (options : Options) (config : Path) (file : SourceFile) (path : Path)
    (like : Run.Like R r q) :
    Agree (Run.Like R) (requestFor s options config file path r)
      (requestFor t options config file path q) := by
  obtain ⟨result, v, w, here, there, rel⟩ := (alike.readText file like.world).exists
  unfold requestFor
  rw [here, there]
  split
  · cases result with
    | ok text => exact ⟨rfl, like.call rel _⟩
    | error cause => exact ⟨rfl, (like.call rel _).say _ _ _⟩
  · exact ⟨rfl, like⟩

variable (rules : RuleSet) (options : Options)

theorem agree_analyzeFile (config : Path) (total : Nat) (file : SourceFile) (path : Path)
    (like : Run.Like R r q) :
    Agree (Run.Like R) (analyzeFile s rules options config total file path r)
      (analyzeFile t rules options config total file path q) := by
  obtain ⟨alive, r1, q1, here, there, like1⟩ := (agree_askAlive alike like).exists
  unfold analyzeFile
  rw [here, there]
  match alive with
  | .error e => exact ⟨rfl, like1⟩
  | .ok false => exact ⟨by simp only [like1.summary], like1⟩
  | .ok true =>
    obtain ⟨request, r2, q2, here, there, like2⟩ :=
      (agree_requestFor alike options config file path (like1.showFile file)).exists
    dsimp only
    rw [here, there]
    obtain ⟨result, r3, q3, here, there, like3⟩ := (agree_askAnalysis alike like2 request).exists
    dsimp only
    rw [here, there]
    cases result with
    | error e => exact ⟨rfl, like3⟩
    | ok outcome => exact ⟨rfl, (like_saveOutcome alike rules file like3 outcome).countFile⟩

theorem agree_analyzeFiles (config : Path) (total : Nat) (files : List SourceFile)
    (like : Run.Like R r q) :
    Agree (Run.Like R) (analyzeFiles s rules options config total files r)
      (analyzeFiles t rules options config total files q) := by
  induction files generalizing r q with
  | nil => exact ⟨rfl, like⟩
  | cons file rest ih =>
    unfold analyzeFiles
    rw [← alike.isCancelled like.world]
    split
    · exact ⟨rfl, like⟩
    · cases file.path? with
      | none => exact ih (like.say _ _ _)
      | some path =>
        obtain ⟨result, r1, q1, here, there, like1⟩ :=
          (agree_analyzeFile alike rules options config total file path like).exists
        simp only [here, there]
        cases result with
        | error e => exact ⟨rfl, like1⟩
        | ok => exact ih like1

theorem agree_analyzeReporting (config : Path) (files : List SourceFile)
    (like : Run.Like R r q) :
    Agree (Run.Like R) (analyzeReporting s rules options config files r)
      (analyzeReporting t rules options config files q) := by
  have closed : ∀ {r : Run σ} {q : Run τ} (record : Option Log.Record), Run.Like R r q →
      Run.Like R (record.elim r r.log) (record.elim q q.log) := by
    intro r q record like
    cases record with
    | none => exact like
    | some record => exact like.note _
  have now := alike.now like.world
  unfold analyzeReporting
  rw [now]
  generalize Progress.start (t.now q.world) files.length options.progressInterval = progress
  have started : Run.Like R ({ r with progress := some progress }.log progress.startRecord)
      ({ q with progress := some progress }.log progress.startRecord) := by
    obtain ⟨w, rel, rfl⟩ := like
    exact ⟨w, rel, rfl⟩
  obtain ⟨result, r1, q1, here, there, ⟨w, rel, rfl⟩⟩ :=
    (agree_analyzeFiles alike rules options config files.length files started).exists
  simp only [here, there]
  exact ⟨rfl, closed _ ⟨w, rel, rfl⟩⟩

theorem agree_storeConfig (like : Run.Like R r q) :
    Agree (Run.Like R) (storeConfig s rules r) (storeConfig t rules q) := by
  obtain ⟨workDir, v, w, here, there, rel⟩ := (alike.workDir like.world).exists
  obtain ⟨result, v1, w1, here1, there1, rel⟩ :=
    (alike.store (RuleSet.configPath workDir) rules.documentText rel).exists
  simp only [storeConfig, here, there, here1, there1]
  cases result <;> exact ⟨rfl, like.call rel _⟩

theorem agree_startWorker (like : Run.Like R r q) :
    Agree (Run.Like R) (startWorker s r) (startWorker t q) := by
  obtain ⟨started, v, w, here, there, rel⟩ := (alike.ensureRunning like.world).exists
  obtain ⟨notices, v1, w1, here1, there1, rel1⟩ := (alike.takeNotices rel).exists
  have told := ((like.call rel (.startedWorker started)).call rel1
    (.tookNotices notices)).foldl_warn notices
  simp only [startWorker, here, there, Run.world_note, here1, there1]
  cases started with
  | ok => exact ⟨rfl, told⟩
  | error e =>
    obtain ⟨info, v2, w2, here2, there2, rel2⟩ := (alike.commandInfo told.world).exists
    simp only [here2, there2]
    split
    · cases info with
      | none => exact ⟨rfl, told.call rel2 _⟩
      | some text => exact ⟨rfl, (told.call rel2 _).say _ _ _⟩
    · exact ⟨rfl, told⟩

theorem agree_runFiles (files : List SourceFile) (like : Run.Like R r q) :
    Agree (Run.Like R) (runFiles s rules options files r) (runFiles t rules options files q) := by
  unfold runFiles
  rw [← alike.isCancelled like.world]
  split
  · exact ⟨rfl, like⟩
  · obtain ⟨stored, r1, q1, here, there, like1⟩ := (agree_storeConfig alike rules like).exists
    rw [here, there]
    cases stored with
    | error e => exact ⟨rfl, like1⟩
    | ok config =>
      obtain ⟨started, r2, q2, here, there, like2⟩ := (agree_startWorker alike like1).exists
      dsimp only
      rw [here, there]
      cases started with
      | error e => exact ⟨rfl, like2⟩
      | ok => exact agree_analyzeReporting alike rules options config files like2

end Calls

theorem agree_conclude {R : σ → τ → Prop} (options : Options) {a : Except Failure Unit × Run σ}
    {b : Except Failure Unit × Run τ} (agree : Agree (Run.Like R) a b) :
    Agree (Run.Like R) (conclude options a) (conclude options b) := by
  obtain ⟨result, r, _, rfl, rfl, w, rel, rfl⟩ := agree.exists
  match result with
  | .ok () => exact ⟨rfl, w, rel, rfl⟩
  | .error .cancelled => exact ⟨rfl, w, rel, rfl⟩
  | .error (.worker e) | .error (.unresponsive analyzed total) | .error (.config e) =>
    unfold conclude
    dsimp only
    split <;> exact ⟨rfl, w, rel, rfl⟩

/-- In surroundings that answer alike a run has the same result, gives the same warnings and counts
and does the same, and the worlds that it leaves are related. -/
theorem execute_alike {s : Surroundings σ} {t : Surroundings τ} {R : σ → τ → Prop}
    (alike : Alike s t R) (rules : RuleSet) (options : Options) (warnings : WarningList)
    {v : σ} {w : τ} (rel : R v w) :
    Agree (Run.Like R) (execute s rules options warnings v)
      (execute t rules options warnings w) := by
  obtain ⟨listed, rel1⟩ := alike.files rel
  cases empty : rules.isEmpty with
  | true =>
    rw [execute_of_isEmpty options warnings empty, execute_of_isEmpty options warnings empty]
    exact ⟨rfl, w, rel, rfl⟩
  | false =>
    by_cases none : (s.files v).1.filter isEligible = []
    · rw [execute_of_none options warnings empty none,
        execute_of_none options warnings empty (listed ▸ none), ← listed]
      exact ⟨rfl, _, rel1, rfl⟩
    · rw [execute_of_some options warnings empty none,
        execute_of_some options warnings empty (listed ▸ none), ← listed]
      refine agree_conclude options (agree_runFiles alike rules options _ ⟨_, rel1, ?_⟩)
      rw [Run.opened, ← listed]
      rfl

end LintBridge.Analysis
