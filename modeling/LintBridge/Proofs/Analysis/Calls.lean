import LintBridge.Proofs.Analysis.Likeness

/-! The calls of a run.  `Surroundings.Leads` says where a call leads, and what every call keeps
true is true after a run (`execute_preserves`).  A run can be watched: every call is written down,
and being watched makes no difference to it (`alike_watched`); so the accounts of a run hold with
any host, also one that keeps nothing of what it is given (`accounts_execute`). -/

namespace LintBridge.Analysis

variable {σ : Type}

namespace Surroundings

/-- A call to what lies around a run. -/
inductive Call where
  | files
  | workDir
  | store (path : Path) (text : String)
  | readText (file : SourceFile)
  | save (issue : Issue)
  | ensureRunning
  | takeNotices
  | commandInfo
  | isAlive
  | analyze (request : Request)

def Call.isAnalysis : Call → Bool
  | analyze _ => true
  | _ => false

def Call.saved? : Call → Option Issue
  | save issue => some issue
  | _ => none

/-- The world that a call of a run leads to.  Only a run that is not cancelled asks the worker. -/
inductive Leads (s : Surroundings σ) (v : σ) : Call → σ → Prop
  | files : Leads s v .files (s.files v).2
  | workDir : Leads s v .workDir (s.workDir v).2
  | store (path : Path) (text : String) : Leads s v (.store path text) (s.store path text v).2
  | readText (file : SourceFile) : Leads s v (.readText file) (s.readText file v).2
  | save (issue : Issue) : Leads s v (.save issue) (s.save issue v)
  | ensureRunning : Leads s v .ensureRunning (s.ensureRunning v).2
  | takeNotices : Leads s v .takeNotices (s.takeNotices v).2
  | commandInfo : Leads s v .commandInfo (s.commandInfo v).2
  | isAlive (going : s.isCancelled v = false) : Leads s v .isAlive (s.isAlive v).2
  | analyze (request : Request) (going : s.isCancelled v = false) :
      Leads s v (.analyze request) (s.analyze request v).2

/-- A run that was cancelled stays so, whatever it calls. -/
def StaysCancelled (s : Surroundings σ) : Prop :=
  ∀ ⦃v call v'⦄, s.Leads v call v' → s.isCancelled v = true → s.isCancelled v' = true

theorem Leads.going {s : Surroundings σ} {v v' : σ} {call : Call} (leads : s.Leads v call v')
    (h : call.isAnalysis = true) : s.isCancelled v = false := by
  cases leads with
  | analyze request going => exact going
  | _ => cases h

end Surroundings

/-! ### A watched run -/

/-- What is written down of a call, or when the run begins. -/
structure Watched.Sight where
  call : Option Surroundings.Call
  /-- Whether the run was cancelled when the call had ended. -/
  cancelled : Bool

def Watched.Sight.isAnalysis (c : Sight) : Bool := c.call.any (·.isAnalysis)

/-- A world, and what was seen in it, the first call first. -/
structure Watched (σ : Type) where
  world : σ
  seen : List Watched.Sight

namespace Watched

variable (s : Surroundings σ)

def begin (world : σ) : Watched σ := ⟨world, [⟨none, s.isCancelled world⟩]⟩

/-- The world that a call has led to. -/
def after (w : Watched σ) (call : Surroundings.Call) (world : σ) : Watched σ :=
  ⟨world, w.seen ++ [⟨some call, s.isCancelled world⟩]⟩

/-- The issues that were handed to the host. -/
def saved (w : Watched σ) : List Issue := w.seen.filterMap (·.call.bind (·.saved?))

theorem saved_after (w : Watched σ) (call : Surroundings.Call) (world : σ) :
    (w.after s call world).saved = w.saved ++ call.saved?.toList := by
  simp only [saved, after, List.filterMap_append]
  cases h : call.saved? <;> simp [h]

end Watched

/-- Surroundings in which every call is written down. -/
def Surroundings.watched (s : Surroundings σ) : Surroundings (Watched σ) where
  now w := s.now w.world
  isCancelled w := s.isCancelled w.world
  files w :=
    let (files, world) := s.files w.world
    (files, w.after s .files world)
  workDir w :=
    let (path, world) := s.workDir w.world
    (path, w.after s .workDir world)
  store path text w :=
    let (result, world) := s.store path text w.world
    (result, w.after s (.store path text) world)
  readText file w :=
    let (result, world) := s.readText file w.world
    (result, w.after s (.readText file) world)
  save issue w := w.after s (.save issue) (s.save issue w.world)
  ensureRunning w :=
    let (result, world) := s.ensureRunning w.world
    (result, w.after s .ensureRunning world)
  takeNotices w :=
    let (notices, world) := s.takeNotices w.world
    (notices, w.after s .takeNotices world)
  commandInfo w :=
    let (info, world) := s.commandInfo w.world
    (info, w.after s .commandInfo world)
  isAlive w :=
    let (answer, world) := s.isAlive w.world
    (answer, w.after s .isAlive world)
  analyze request w :=
    let (answer, world) := s.analyze request w.world
    (answer, w.after s (.analyze request) world)

/-- Being watched makes no difference to a run, and what every call keeps true stays true. -/
theorem alike_watched {s : Surroundings σ} {P : Watched σ → Prop}
    (step : ∀ ⦃w : Watched σ⦄ ⦃call v'⦄, s.Leads w.world call v' → P w → P (w.after s call v')) :
    Alike s s.watched fun v w => w.world = v ∧ P w where
  now := by
    rintro _ w ⟨rfl, holds⟩
    rfl
  isCancelled := by
    rintro _ w ⟨rfl, holds⟩
    rfl
  files := by
    rintro _ w ⟨rfl, holds⟩
    exact ⟨rfl, rfl, step .files holds⟩
  workDir := by
    rintro _ w ⟨rfl, holds⟩
    exact ⟨rfl, rfl, step .workDir holds⟩
  store := by
    rintro path text _ w ⟨rfl, holds⟩
    exact ⟨rfl, rfl, step (.store path text) holds⟩
  readText := by
    rintro file _ w ⟨rfl, holds⟩
    exact ⟨rfl, rfl, step (.readText file) holds⟩
  save := by
    rintro issue _ w ⟨rfl, holds⟩
    exact ⟨rfl, step (.save issue) holds⟩
  ensureRunning := by
    rintro _ w ⟨rfl, holds⟩
    exact ⟨rfl, rfl, step .ensureRunning holds⟩
  takeNotices := by
    rintro _ w ⟨rfl, holds⟩
    exact ⟨rfl, rfl, step .takeNotices holds⟩
  commandInfo := by
    rintro _ w ⟨rfl, holds⟩
    exact ⟨rfl, rfl, step .commandInfo holds⟩
  isAlive := by
    rintro _ w ⟨rfl, holds⟩ going
    exact ⟨rfl, rfl, step (.isAlive going) holds⟩
  analyze := by
    rintro request _ w ⟨rfl, holds⟩ going
    exact ⟨rfl, rfl, step (.analyze request going) holds⟩

/-! ### What is kept true -/

section Kept

variable {s : Surroundings σ} {P : σ → Prop} (step : ∀ ⦃v call v'⦄, s.Leads v call v' → P v → P v')
include step

/-- What every call keeps true of the world is true after a run, if it was before. -/
theorem execute_preserves (rules : RuleSet) (options : Options) (warnings : WarningList) {world : σ}
    (h : P world) : P (execute s rules options warnings world).2.world := by
  have alike := alike_watched (P := fun w => P w.world) fun _ _ _ leads => step leads
  obtain ⟨-, w, ⟨same, holds⟩, -⟩ := execute_alike alike rules options warnings
    (show (Watched.begin s world).world = world ∧ _ from ⟨rfl, h⟩)
  exact same ▸ holds

theorem storeConfig_preserves (rules : RuleSet) {r : Run σ} (h : P r.world) :
    P (storeConfig s rules r).2.world := by
  have alike := alike_watched (P := fun w => P w.world) fun _ _ _ leads => step leads
  have like : Run.Like (fun v (w : Watched σ) => w.world = v ∧ P w.world) r
      (r.inWorld (Watched.begin s r.world)) := ⟨_, ⟨rfl, h⟩, rfl⟩
  obtain ⟨-, w, ⟨same, holds⟩, -⟩ := agree_storeConfig alike rules like
  exact same ▸ holds

end Kept

/-! ### What is saved -/

/-- The issues that are seen to be handed over are a sink. -/
def Watched.sink (s : Surroundings σ) : Sink s.watched where
  contents := saved
  save _ w := w.saved_after s _ _
  files w := (w.saved_after s _ _).trans (List.append_nil _)
  workDir w := (w.saved_after s _ _).trans (List.append_nil _)
  store _ _ w := (w.saved_after s _ _).trans (List.append_nil _)
  readText _ w := (w.saved_after s _ _).trans (List.append_nil _)
  ensureRunning w := (w.saved_after s _ _).trans (List.append_nil _)
  takeNotices w := (w.saved_after s _ _).trans (List.append_nil _)
  commandInfo w := (w.saved_after s _ _).trans (List.append_nil _)
  isAlive w := (w.saved_after s _ _).trans (List.append_nil _)
  analyze _ w := (w.saved_after s _ _).trans (List.append_nil _)

/-- What a run gives to its host and what it counts is from the analyses that were answered with an
outcome, and from nothing else.  They are of local files, and of all of them if the run that is
watched is completed. -/
theorem watched_books {s : Surroundings σ} {rules : RuleSet} {options : Options}
    {warnings : WarningList} {world : σ} {w : Watched σ}
    (watched : (execute s.watched rules options warnings (Watched.begin s world)).2 =
      (execute s rules options warnings world).2.inWorld w) :
    let here := localFiles ((s.files world).1.filter isEligible)
    let r := (execute s rules options warnings world).2
    ∃ done : List Analyzed,
      done.map Analyzed.place <+: here ∧
      (∀ summary, (execute s.watched rules options warnings (Watched.begin s world)).1 =
        .ok summary → summary.status = .completed → done.map Analyzed.place = here) ∧
      r.answered = done.map (fun a => (a.path, a.outcome)) ∧
      r.issues = done.flatMap (Analyzed.issues rules) ∧
      w.saved = done.flatMap (Analyzed.issues rules) ∧
      r.summary.filesAnalyzed = done.length ∧
      r.summary.issuesSaved = (done.flatMap (Analyzed.issues rules)).length ∧
      r.summary.parseFailures = done.countP fun a => isFailure a.outcome := by
  obtain ⟨eligible, done, books, places, complete⟩ :=
    books_execute (Watched.sink s) rules options warnings (Watched.begin s world)
  rw [watched, Books.foldl_enter] at books
  simp only [Run.books, List.nil_append, Nat.zero_add, Books.mk.injEq] at books
  obtain ⟨answered, issues, held, -, counted⟩ := books
  exact ⟨done, places, complete, answered, issues, held, counted⟩

theorem watched_accounts {s : Surroundings σ} {rules : RuleSet} {options : Options}
    {warnings : WarningList} {world : σ} {w : Watched σ}
    (watched : (execute s.watched rules options warnings (Watched.begin s world)).2 =
      (execute s rules options warnings world).2.inWorld w) :
    let r := (execute s rules options warnings world).2
    ∃ done : List Analyzed,
      r.answered = done.map (fun a => (a.path, a.outcome)) ∧
      r.issues = done.flatMap (Analyzed.issues rules) ∧
      w.saved = done.flatMap (Analyzed.issues rules) ∧
      r.summary.filesAnalyzed = done.length ∧
      r.summary.issuesSaved = (done.flatMap (Analyzed.issues rules)).length ∧
      r.summary.parseFailures = done.countP fun a => isFailure a.outcome := by
  obtain ⟨done, -, -, accounts⟩ := watched_books watched
  exact ⟨done, accounts⟩

/-! ### Accounts without a sink -/

section Accounts

variable (s : Surroundings σ) (rules : RuleSet) (options : Options)

/-- Being watched makes no difference, so that what the books of a watched run say is true of one
that is not. -/
theorem alike_unseen : Alike s s.watched fun v w => w.world = v ∧ True :=
  alike_watched fun _ _ _ _ h => h

/-- Analyzing a file adds nothing to the accounts of a run, if it fails, or the outcome for that
file. -/
theorem accounts_analyzeFile (config : Path) (total : Nat) (file : SourceFile) (path : Path)
    (r : Run σ) :
    let out := analyzeFile s rules options config total file path r
    ((∃ e, out.1 = .error e) ∧ out.2.answered = r.answered) ∨
    ∃ outcome, out.1 = .ok () ∧ out.2.answered = r.answered ++ [(path, outcome)] ∧
      out.2.issues = r.issues ++ issuesOf rules file outcome ∧
      out.2.summary.filesAnalyzed = r.summary.filesAnalyzed + 1 ∧
      out.2.summary.issuesSaved = r.summary.issuesSaved + (issuesOf rules file outcome).length ∧
      out.2.summary.parseFailures =
        r.summary.parseFailures + if isFailure outcome then 1 else 0 := by
  intro out
  obtain ⟨same, w, -, watched⟩ := agree_analyzeFile (alike_unseen s) rules options config total file
    path ⟨Watched.begin s r.world, ⟨rfl, trivial⟩, rfl⟩
  have step := books_analyzeFile (Watched.sink s) rules options config total file path
    (r.inWorld (Watched.begin s r.world))
  rw [← same, watched] at step
  obtain ⟨e, failed, kept⟩ | ⟨outcome, passed, entered⟩ := step
  · exact .inl ⟨⟨e, failed⟩, congrArg Books.answered kept⟩
  · refine .inr ⟨outcome, passed, ?_⟩
    exact ⟨congrArg Books.answered entered, congrArg Books.issues entered,
      congrArg Books.analyzed entered, congrArg Books.saved entered,
      congrArg Books.failures entered⟩

/-- The accounts of a run, whatever its host does with the issues. -/
theorem accounts_execute (warnings : WarningList) (world : σ) :
    let eligible := (s.files world).1.filter isEligible
    let out := execute s rules options warnings world
    ∃ done : List Analyzed,
      out.2.answered = done.map (fun a => (a.path, a.outcome)) ∧
      done.map Analyzed.place <+: localFiles eligible ∧
      out.2.issues = done.flatMap (Analyzed.issues rules) ∧
      out.2.summary.filesAnalyzed = done.length ∧
      out.2.summary.issuesSaved = (done.flatMap (Analyzed.issues rules)).length ∧
      out.2.summary.parseFailures = done.countP (fun a => isFailure a.outcome) ∧
      ∀ summary, out.1 = .ok summary → summary.status = .completed →
        done.map Analyzed.place = localFiles eligible := by
  intro eligible out
  obtain ⟨same, w, -, watched⟩ := execute_alike (alike_unseen s) rules options warnings
    (show (Watched.begin s world).world = world ∧ _ from ⟨rfl, trivial⟩)
  obtain ⟨done, places, complete, answered, issues, -, analyzed, saved, failures⟩ :=
    watched_books watched
  rw [← same] at complete
  exact ⟨done, answered, places, issues, analyzed, saved, failures, complete⟩

/-- The issues of a run are those of the analyses that were answered with an outcome. -/
theorem issues_execute (warnings : WarningList) (world : σ) :
    ∃ done : List Analyzed,
      (execute s rules options warnings world).2.answered =
        done.map (fun a => (a.path, a.outcome)) ∧
      (execute s rules options warnings world).2.issues =
        done.flatMap (Analyzed.issues rules) := by
  obtain ⟨done, answered, -, issues, -⟩ := accounts_execute s rules options warnings world
  exact ⟨done, answered, issues⟩

end Accounts

end LintBridge.Analysis
