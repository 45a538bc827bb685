import LintBridge.Proofs.Analysis.Books
import LintBridge.Proofs.Analysis.Stages

/-! A run as a passage through worlds.  `Surroundings.Yields` says which event a call to what lies
around a run comes to and where the call leads; what a run logs or warns of leads nowhere.
`passes_execute` says that the events of a run, in their order, lead from the world in which it
began to the one in which it ended, so that an induction on them relates the two. -/

namespace LintBridge.Analysis

variable {σ : Type}

namespace Surroundings

/-- An event that can happen in a world, and the world to which it leads. -/
inductive Yields (s : Surroundings σ) (v : σ) : Event → σ → Prop
  | listedFiles : Yields s v (.listedFiles (s.files v).1) (s.files v).2
  | storedConfig (text : String) :
      Yields s v
        (.storedConfig (RuleSet.configPath (s.workDir v).1) text
          (s.store (RuleSet.configPath (s.workDir v).1) text (s.workDir v).2).1)
        (s.store (RuleSet.configPath (s.workDir v).1) text (s.workDir v).2).2
  | startedWorker : Yields s v (.startedWorker (s.ensureRunning v).1) (s.ensureRunning v).2
  | tookNotices : Yields s v (.tookNotices (s.takeNotices v).1) (s.takeNotices v).2
  | askedCommand : Yields s v (.askedCommand (s.commandInfo v).1) (s.commandInfo v).2
  | askedAlive (going : s.isCancelled v = false) :
      Yields s v (.askedAlive (s.isAlive v).1) (s.isAlive v).2
  | readText (file : SourceFile) :
      Yields s v (.readText file (s.readText file v).1) (s.readText file v).2
  | askedAnalysis (request : Request) (going : s.isCancelled v = false) :
      Yields s v (.askedAnalysis request (s.analyze request v).1) (s.analyze request v).2
  | saved (issue : Issue) : Yields s v (.saved issue) (s.save issue v)
  | logged (record : Log.Record) : Yields s v (.logged record) v
  | warned (text : String) : Yields s v (.warned text) v

/-- Events that happen one after the other, and the world to which they lead. -/
inductive Passes (s : Surroundings σ) : σ → List Event → σ → Prop
  | nil (v : σ) : Passes s v [] v
  | cons {v w v' : σ} {e : Event} {events : List Event} (first : s.Yields v e w)
      (rest : Passes s w events v') : Passes s v (e :: events) v'

theorem Passes.append {s : Surroundings σ} {v w v' : σ} {xs ys : List Event}
    (first : s.Passes v xs w) (rest : s.Passes w ys v') : s.Passes v (xs ++ ys) v' := by
  induction first with
  | nil => exact rest
  | cons step _ ih => exact .cons step (ih rest)

end Surroundings

/-- A run goes on from one state to another by events that happen in its surroundings.  What it
counts and reports may change on the way. -/
def Run.Goes (s : Surroundings σ) (r r' : Run σ) : Prop :=
  ∃ moments : List Moment, r'.history = r.history ++ moments ∧
    s.Passes r.world (moments.map (·.event)) r'.world

namespace Run.Goes

variable {s : Surroundings σ} {r r1 r2 : Run σ}

theorem events (h : Goes s r r1) :
    ∃ events, r1.events = r.events ++ events ∧ s.Passes r.world events r1.world := by
  obtain ⟨moments, history, leads⟩ := h
  exact ⟨moments.map (·.event), by rw [Run.events, history, List.map_append, ← Run.events], leads⟩

theorem refl (r : Run σ) : Goes s r r := ⟨[], (List.append_nil _).symm, .nil _⟩

theorem trans (first : Goes s r r1) (rest : Goes s r1 r2) : Goes s r r2 := by
  obtain ⟨xs, history, leads⟩ := first
  obtain ⟨ys, history', leads'⟩ := rest
  refine ⟨xs ++ ys, by rw [history', history, List.append_assoc], ?_⟩
  rw [List.map_append]
  exact leads.append leads'

/-- A call, and the event that it comes to. -/
theorem call {e : Event} {w : σ} (yields : s.Yields r.world e w) :
    Goes s r ({ r with world := w }.note e) :=
  ⟨[⟨e, r.progress⟩], rfl, .cons yields (.nil _)⟩

theorem log (r : Run σ) (record : Log.Record) : Goes s r (r.log record) := call (.logged record)

theorem say (r : Run σ) (level : Log.Level) (text cause : String) :
    Goes s r (r.say level text cause) := log r _

theorem warn (r : Run σ) (text : String) : Goes s r (r.warn text) :=
  ⟨[⟨.warned text, r.progress⟩], rfl, .cons (.warned text) (.nil _)⟩

theorem foldl_warn (texts : List String) (r : Run σ) : Goes s r (texts.foldl Run.warn r) := by
  induction texts generalizing r with
  | nil => exact refl r
  | cons text rest ih => exact (warn r text).trans (ih _)

end Run.Goes

/-! ### One file -/

section

variable {s : Surroundings σ} (rules : RuleSet) (options : Options) (config : Path) (total : Nat)

theorem goes_saveFinding (file : SourceFile) (r : Run σ) (d : Diagnostic) :
    r.Goes s (saveFinding s rules file r d) := by
  unfold saveFinding
  split
  · exact .say _ _ _ _
  · exact .call (.saved _)

theorem goes_saveOutcome (file : SourceFile) (r : Run σ) (outcome : Outcome) :
    r.Goes s (saveOutcome s rules file r outcome) := by
  cases outcome with
  | diagnostics items =>
    show r.Goes s (items.foldl (saveFinding s rules file) r)
    induction items generalizing r with
    | nil => exact .refl r
    | cons d rest ih => exact (goes_saveFinding rules file r d).trans (ih _)
  | parseFailure line message =>
    exact .say r .error s!"Failed to parse {file.display}, line {line}, {message}" ""

theorem goes_askAlive (r : Run σ) : r.Goes s (askAlive s r).2 := by
  unfold askAlive
  split
  · exact .refl r
  next going =>
    have asked : r.Goes s ({ r with world := (s.isAlive r.world).2 }.note
      (.askedAlive (s.isAlive r.world).1)) := .call (.askedAlive (Bool.eq_false_iff.mpr going))
    dsimp only
    split <;> exact asked

theorem goes_askAnalysis (request : Request) (r : Run σ) :
    r.Goes s (askAnalysis s request r).2 := by
  unfold askAnalysis
  split
  · exact .refl r
  next going =>
    have asked : r.Goes s ({ r with world := (s.analyze request r.world).2 }.note
        (.askedAnalysis request (s.analyze request r.world).1)) :=
      .call (.askedAnalysis request (Bool.eq_false_iff.mpr going))
    dsimp only
    split <;> exact asked

theorem goes_requestFor (file : SourceFile) (path : Path) (r : Run σ) :
    r.Goes s (requestFor s options config file path r).2 := by
  unfold requestFor
  split
  · have read : r.Goes s ({ r with world := (s.readText file r.world).2 }.note
      (.readText file (s.readText file r.world).1)) := .call (.readText file)
    dsimp only
    split
    · exact read
    · exact read.trans (.say _ _ _ _)
  · exact .refl r

theorem goes_analyzeFile (file : SourceFile) (path : Path) (r : Run σ) :
    r.Goes s (analyzeFile s rules options config total file path r).2 := by
  have asked := goes_askAlive (s := s) r
  unfold analyzeFile
  rcases alive : askAlive s r with ⟨answer, r1⟩
  rw [alive] at asked
  match answer with
  | .error e => exact asked
  | .ok false => exact asked
  | .ok true =>
    have shown : r1.Goes s (requestFor s options config file path (showFile file r1)).2 :=
      goes_requestFor options config file path (showFile file r1)
    dsimp only
    generalize requestFor s options config file path (showFile file r1) = q at shown
    have answered := goes_askAnalysis (s := s) q.1 q.2
    rcases analyzed : askAnalysis s q.1 q.2 with ⟨result, r2⟩
    rw [analyzed] at answered
    have before : r.Goes s r2 := (asked.trans shown).trans answered
    cases result with
    | error e => exact before
    | ok outcome => exact before.trans (goes_saveOutcome rules file r2 outcome)

/-! ### The run -/

theorem goes_analyzeFiles (files : List SourceFile) (r : Run σ) :
    r.Goes s (analyzeFiles s rules options config total files r).2 := by
  induction files generalizing r with
  | nil => exact .refl r
  | cons file rest ih =>
    unfold analyzeFiles
    split
    · exact .refl r
    · cases file.path? with
      | none => exact (Run.Goes.say r _ _ _).trans (ih _)
      | some path =>
        have step := goes_analyzeFile (s := s) rules options config total file path r
        rcases analyzed : analyzeFile s rules options config total file path r with ⟨result, r1⟩
        rw [analyzed] at step
        simp only [analyzed]
        cases result with
        | error e => exact step
        | ok => exact step.trans (ih r1)

/-- What comes after the first line of a report. -/
theorem goes_announced (files : List SourceFile) (r : Run σ) :
    (r.announced s options files.length).Goes s
      (analyzeReporting s rules options config files r).2 := by
  have closed : ∀ (r : Run σ) (record : Option Log.Record), r.Goes s (record.elim r r.log) := by
    intro r record
    cases record with
    | none => exact .refl r
    | some record => exact .log r record
  have gone := goes_analyzeFiles (s := s) rules options config files.length files
    (r.announced s options files.length)
  exact gone.trans (closed { (analyzeFiles s rules options config files.length files
    (r.announced s options files.length)).2 with progress := none } _)

theorem goes_analyzeReporting (files : List SourceFile) (r : Run σ) :
    r.Goes s (analyzeReporting s rules options config files r).2 := by
  have announced : r.Goes s (r.announced s options files.length) :=
    .log { r with progress := some _ } _
  exact announced.trans (goes_announced rules options config files r)

theorem goes_storeConfig (r : Run σ) : r.Goes s (storeConfig s rules r).2 := by
  have stored := Run.Goes.call (r := r) (.storedConfig (s := s) rules.documentText)
  unfold storeConfig
  dsimp only
  split <;> exact stored

theorem goes_startWorker (r : Run σ) : r.Goes s (startWorker s r).2 := by
  have told : ∀ (r : Run σ) (info : Option String), r.Goes s (info.elim r (r.say .error)) := by
    intro r info
    cases info with
    | none => exact .refl r
    | some text => exact .say r _ _ _
  have started := Run.Goes.call (r := r) (.startedWorker (s := s))
  have noticed := (started.trans (.call .tookNotices)).trans
    (.foldl_warn (s.takeNotices (s.ensureRunning r.world).2).1 _)
  unfold startWorker
  dsimp only
  split
  · exact noticed
  · split
    · exact (noticed.trans (.call .askedCommand)).trans (told _ _)
    · exact noticed

theorem goes_runFiles (files : List SourceFile) (r : Run σ) :
    r.Goes s (runFiles s rules options files r).2 := by
  have stored := goes_storeConfig (s := s) rules r
  unfold runFiles
  split
  · exact .refl r
  · rcases storing : storeConfig s rules r with ⟨result, r1⟩
    rw [storing] at stored
    cases result with
    | error e => exact stored
    | ok config =>
      have started := stored.trans (goes_startWorker r1)
      rcases starting : startWorker s r1 with ⟨result, r2⟩
      rw [starting] at started
      simp only [starting]
      cases result with
      | error e => exact started
      | ok => exact started.trans (goes_analyzeReporting rules options config files r2)

theorem goes_conclude (out : Except Failure Unit × Run σ) :
    out.2.Goes s (conclude options out).2 := by
  unfold conclude
  split
  · exact .refl _
  · exact .log _ _
  · split
    · exact .refl _
    · exact (Run.Goes.say _ _ _ _).trans (.warn _ _)

/-- The events of a run lead from the world in which it begins to the one in which it ends. -/
theorem passes_execute (s : Surroundings σ) (rules : RuleSet) (options : Options)
    (warnings : WarningList) (world : σ) :
    s.Passes world (execute s rules options warnings world).2.events
      (execute s rules options warnings world).2.world := by
  let begun : Run σ := { world, warnings }
  have listed : begun.Goes s ({ begun with world := (s.files world).2 }.note
    (.listedFiles (s.files world).1)) := .call .listedFiles
  have gone : begun.Goes s (execute s rules options warnings world).2 := by
    cases empty : rules.isEmpty with
    | true =>
      rw [execute_of_isEmpty options warnings empty]
      exact .say begun _ _ _
    | false =>
      by_cases none : (s.files world).1.filter isEligible = []
      · rw [execute_of_none options warnings empty none]
        exact listed.trans (.say _ _ _ _)
      · rw [execute_of_some options warnings empty none]
        generalize (s.files world).1.filter isEligible = files
        have opened : begun.Goes s (Run.opened s warnings world files.length) := listed
        exact (opened.trans (goes_runFiles rules options files _)).trans (goes_conclude options _)
  obtain ⟨events, happened, leads⟩ := gone.events
  rw [show (execute s rules options warnings world).2.events = events from happened]
  exact leads

end

end LintBridge.Analysis
