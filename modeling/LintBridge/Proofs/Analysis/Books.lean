import LintBridge.Analysis.Execute

/-! The books of a run: which analyses were answered with an outcome, which issues were saved, what
the sink of the host holds, and what the summary counts.  `Books.enter` enters the outcome for one
file, and every other thing that a run does leaves its books as they are.  So the books after a run
are those before it with the analyzed files entered one by one, and these are a prefix of the local
ones among the eligible files: `execute_accounts`. -/

namespace LintBridge.Analysis

variable {σ : Type}

/-! ### The sink -/

/-- A sink of issues among what lies around a run: an issue that is saved goes to its end, and no
other call touches it. -/
structure Sink (s : Surroundings σ) where
  contents : σ → List Issue
  save : ∀ issue w, contents (s.save issue w) = contents w ++ [issue]
  files : ∀ w, contents (s.files w).2 = contents w
  workDir : ∀ w, contents (s.workDir w).2 = contents w
  store : ∀ path text w, contents (s.store path text w).2 = contents w
  readText : ∀ file w, contents (s.readText file w).2 = contents w
  ensureRunning : ∀ w, contents (s.ensureRunning w).2 = contents w
  takeNotices : ∀ w, contents (s.takeNotices w).2 = contents w
  commandInfo : ∀ w, contents (s.commandInfo w).2 = contents w
  isAlive : ∀ w, contents (s.isAlive w).2 = contents w
  analyze : ∀ request w, contents (s.analyze request w).2 = contents w

/-- Surroundings with a list of issues beside them, to which issues are saved. -/
def Surroundings.withList (s : Surroundings σ) : Surroundings (σ × List Issue) where
  now w := s.now w.1
  isCancelled w := s.isCancelled w.1
  files w := ((s.files w.1).1, (s.files w.1).2, w.2)
  workDir w := ((s.workDir w.1).1, (s.workDir w.1).2, w.2)
  store path text w := ((s.store path text w.1).1, (s.store path text w.1).2, w.2)
  readText file w := ((s.readText file w.1).1, (s.readText file w.1).2, w.2)
  save issue w := (s.save issue w.1, w.2 ++ [issue])
  ensureRunning w := ((s.ensureRunning w.1).1, (s.ensureRunning w.1).2, w.2)
  takeNotices w := ((s.takeNotices w.1).1, (s.takeNotices w.1).2, w.2)
  commandInfo w := ((s.commandInfo w.1).1, (s.commandInfo w.1).2, w.2)
  isAlive w := ((s.isAlive w.1).1, (s.isAlive w.1).2, w.2)
  analyze request w := ((s.analyze request w.1).1, (s.analyze request w.1).2, w.2)

/-- The list beside surroundings is a sink, whatever they do. -/
def Sink.ofList (s : Surroundings σ) : Sink s.withList where
  contents := Prod.snd
  save _ _ := rfl
  files _ := rfl
  workDir _ := rfl
  store _ _ _ := rfl
  readText _ _ := rfl
  ensureRunning _ := rfl
  takeNotices _ := rfl
  commandInfo _ := rfl
  isAlive _ := rfl
  analyze _ _ := rfl

/-! ### What is entered -/

structure Analyzed where
  file : SourceFile
  path : Path
  outcome : Outcome

/-- The local ones among files, with their paths. -/
def localFiles (files : List SourceFile) : List (SourceFile × Path) :=
  files.filterMap fun file => file.path?.map fun path => (file, path)

/-- The issue that a finding for a file becomes, if its rule is active. -/
def issueOf? (rules : RuleSet) (file : SourceFile) (d : Diagnostic) : Option Issue :=
  (rules.hostKey? d.rule).map fun key => ⟨file, key, d.line, Message.core d.message⟩

def issuesOf (rules : RuleSet) (file : SourceFile) : Outcome → List Issue
  | .diagnostics items => items.filterMap (issueOf? rules file)
  | .parseFailure _ _ => []

def Analyzed.issues (rules : RuleSet) (a : Analyzed) : List Issue := issuesOf rules a.file a.outcome

def Analyzed.place (a : Analyzed) : SourceFile × Path := (a.file, a.path)

def isFailure : Outcome → Bool
  | .parseFailure _ _ => true
  | .diagnostics _ => false

/-- The analyses that were answered with an outcome: the paths that were asked for, and the
outcomes. -/
def Run.answered (r : Run σ) : List (Path × Outcome) :=
  r.events.filterMap fun e => match e with
    | .askedAnalysis request (some (.ok outcome)) => some (request.file, outcome)
    | _ => none

/-! ### The books -/

structure Books where
  answered : List (Path × Outcome)
  issues : List Issue
  sink : List Issue
  eligible : Nat
  analyzed : Nat
  saved : Nat
  failures : Nat

def Run.books {s : Surroundings σ} (sink : Sink s) (r : Run σ) : Books where
  answered := r.answered
  issues := r.issues
  sink := sink.contents r.world
  eligible := r.summary.filesEligible
  analyzed := r.summary.filesAnalyzed
  saved := r.summary.issuesSaved
  failures := r.summary.parseFailures

namespace Books

def enterIssues (b : Books) (issues : List Issue) : Books :=
  { b with
    issues := b.issues ++ issues
    sink := b.sink ++ issues
    saved := b.saved + issues.length }

def enterAnswer (b : Books) (path : Path) (outcome : Outcome) : Books :=
  { b with answered := b.answered ++ [(path, outcome)] }

def enter (rules : RuleSet) (b : Books) (a : Analyzed) : Books :=
  { (b.enterAnswer a.path a.outcome).enterIssues (a.issues rules) with
    analyzed := b.analyzed + 1
    failures := b.failures + if isFailure a.outcome then 1 else 0 }

@[simp] theorem enterIssues_nil (b : Books) : b.enterIssues [] = b := by
  simp [enterIssues]

theorem enterIssues_append (b : Books) (xs ys : List Issue) :
    (b.enterIssues xs).enterIssues ys = b.enterIssues (xs ++ ys) := by
  simp [enterIssues, Nat.add_assoc]

theorem foldl_enter (rules : RuleSet) (done : List Analyzed) (b : Books) :
    done.foldl (enter rules) b =
      { answered := b.answered ++ done.map fun a => (a.path, a.outcome)
        issues := b.issues ++ done.flatMap (Analyzed.issues rules)
        sink := b.sink ++ done.flatMap (Analyzed.issues rules)
        eligible := b.eligible
        analyzed := b.analyzed + done.length
        saved := b.saved + (done.flatMap (Analyzed.issues rules)).length
        failures := b.failures + done.countP fun a => isFailure a.outcome } := by
  induction done generalizing b with
  | nil => simp
  | cons a rest ih =>
    rw [List.foldl_cons, ih]
    simp only [enter, enterIssues, enterAnswer, List.map_cons, List.flatMap_cons,
      List.append_assoc, List.singleton_append, List.length_append, List.length_cons,
      List.countP_cons, Books.mk.injEq, true_and]
    omega

end Books

/-! ### What leaves the books as they are -/

section Unchanged

variable {s : Surroundings σ} (sink : Sink s)

def Event.isEntered : Event → Bool
  | .saved _ | .askedAnalysis _ (some (.ok _)) => true
  | _ => false

theorem Run.events_note (r : Run σ) (e : Event) : (r.note e).events = r.events ++ [e] := by
  simp [Run.note, Run.events]

theorem Run.books_note (r : Run σ) {e : Event} (h : e.isEntered = false) :
    (r.note e).books sink = r.books sink := by
  have answered : (r.note e).answered = r.answered := by
    unfold Run.answered
    rw [Run.events_note, List.filterMap_append]
    cases e with
    | askedAnalysis request answer =>
      match answer, h with
      | none, _ | some (.error _), _ => simp
    | _ => simp
  have issues : (r.note e).issues = r.issues := by
    unfold Run.issues
    rw [Run.events_note, List.filterMap_append]
    cases e with
    | saved issue => cases h
    | _ => simp
  simp only [Run.books, answered, issues]
  rfl

/-- A call that does not touch the sink leaves the books as they are. -/
theorem Run.books_world (r : Run σ) {world : σ}
    (h : sink.contents world = sink.contents r.world) :
    ({ r with world } : Run σ).books sink = r.books sink := by
  simp only [Run.books, h]
  rfl

@[simp] theorem Run.books_log (r : Run σ) (record : Log.Record) :
    (r.log record).books sink = r.books sink := r.books_note sink rfl

@[simp] theorem Run.books_say (r : Run σ) (level : Log.Level) (text cause : String) :
    (r.say level text cause).books sink = r.books sink := r.books_log sink _

@[simp] theorem Run.books_warn (r : Run σ) (text : String) :
    (r.warn text).books sink = r.books sink :=
  Run.books_note sink { r with warnings := r.warnings.add text } rfl

@[simp] theorem Run.books_progress (r : Run σ) (progress : Option Progress) :
    ({ r with progress } : Run σ).books sink = r.books sink := rfl

@[simp] theorem Run.books_setStatus (r : Run σ) (status : Status) :
    (r.setStatus status).books sink = r.books sink := rfl

theorem Run.books_foldl_warn (notices : List String) (r : Run σ) :
    (notices.foldl Run.warn r).books sink = r.books sink := by
  induction notices generalizing r with
  | nil => rfl
  | cons text rest ih => rw [List.foldl_cons, ih, books_warn]

/-- A call that does not touch the sink, and an event that is not entered. -/
theorem Run.books_call (r : Run σ) {world : σ} {e : Event}
    (h : sink.contents world = sink.contents r.world) (he : e.isEntered = false) :
    (({ r with world } : Run σ).note e).books sink = r.books sink := by
  rw [Run.books_note sink _ he, Run.books_world sink r h]

theorem books_askAlive (r : Run σ) : (askAlive s r).2.books sink = r.books sink := by
  have call := fun e he => r.books_call sink (e := e) (sink.isAlive r.world) he
  unfold askAlive
  split
  · rfl
  · dsimp only
    split <;> exact call _ rfl

theorem books_requestFor (options : Options) (config : Path) (file : SourceFile) (path : Path)
    (r : Run σ) : (requestFor s options config file path r).2.books sink = r.books sink := by
  have call := fun e he => r.books_call sink (e := e) (sink.readText file r.world) he
  unfold requestFor
  split
  · dsimp only
    split
    · exact call _ rfl
    · rw [Run.books_say]
      exact call _ rfl
  · rfl

theorem books_storeConfig (rules : RuleSet) (r : Run σ) :
    (storeConfig s rules r).2.books sink = r.books sink := by
  unfold storeConfig
  dsimp only
  split <;>
  · refine r.books_call sink ?_ rfl
    rw [sink.store, sink.workDir]

theorem books_startWorker (r : Run σ) : (startWorker s r).2.books sink = r.books sink := by
  have told : ∀ (r : Run σ) (info : Option String),
      (info.elim r (r.say .error)).books sink = r.books sink := by
    intro r info
    cases info <;> simp
  let started : Run σ := { r with world := (s.ensureRunning r.world).2 }.note
    (.startedWorker (s.ensureRunning r.world).1)
  let notices := (s.takeNotices started.world).1
  have noticed : (notices.foldl Run.warn ({ started with
      world := (s.takeNotices started.world).2 }.note (.tookNotices notices))).books sink =
      r.books sink := by
    rw [Run.books_foldl_warn, Run.books_call sink started (sink.takeNotices _) rfl]
    exact Run.books_call sink r (sink.ensureRunning _) rfl
  unfold startWorker
  dsimp only
  split
  · exact noticed
  · split
    · rw [told, Run.books_call sink _ (sink.commandInfo _) rfl]
      exact noticed
    · exact noticed

end Unchanged

/-! ### What is entered by a run -/

section Entered

variable {s : Surroundings σ} (sink : Sink s) (rules : RuleSet)

theorem books_saveFinding (file : SourceFile) (r : Run σ) (d : Diagnostic) :
    (saveFinding s rules file r d).books sink =
      (r.books sink).enterIssues (issueOf? rules file d).toList := by
  unfold saveFinding issueOf?
  split
  next absent => simp [absent]
  next key found =>
    simp [found, Run.books, Run.answered, Run.issues, Run.note, Run.events, Books.enterIssues,
      sink.save]

theorem books_saveFindings (file : SourceFile) (items : List Diagnostic) (r : Run σ) :
    (items.foldl (saveFinding s rules file) r).books sink =
      (r.books sink).enterIssues (items.filterMap (issueOf? rules file)) := by
  induction items generalizing r with
  | nil => simp
  | cons d rest ih =>
    rw [List.foldl_cons, ih, books_saveFinding, Books.enterIssues_append]
    cases h : issueOf? rules file d <;> simp [h]

/-- Taking over an outcome enters its issues and whether it is a failure. -/
theorem books_saveOutcome (file : SourceFile) (r : Run σ) (outcome : Outcome) :
    (saveOutcome s rules file r outcome).books sink =
      { (r.books sink).enterIssues (issuesOf rules file outcome) with
        failures := (r.books sink).failures + if isFailure outcome then 1 else 0 } := by
  cases outcome with
  | diagnostics items => exact books_saveFindings sink rules file items r
  | parseFailure line message =>
    have said := r.books_say sink .error
      s!"Failed to parse {file.display}, line {line}, {message}" ""
    simp only [saveOutcome, issuesOf, Books.enterIssues_nil, ← said]
    rfl

theorem books_countFile (r : Run σ) :
    (countFile r).books sink = { r.books sink with analyzed := (r.books sink).analyzed + 1 } := rfl

/-- Asking for an analysis enters the answer if it is an outcome, and else nothing. -/
theorem books_askAnalysis (request : Request) (r : Run σ) :
    (∃ e, (askAnalysis s request r).1 = .error e ∧
      (askAnalysis s request r).2.books sink = r.books sink) ∨
    ∃ outcome, (askAnalysis s request r).1 = .ok outcome ∧
      (askAnalysis s request r).2.books sink =
        (r.books sink).enterAnswer request.file outcome := by
  have call := fun e he => r.books_call sink (e := e) (sink.analyze request r.world) he
  unfold askAnalysis
  split
  · exact .inl ⟨_, rfl, rfl⟩
  · dsimp only
    split
    next outcome answered =>
      refine .inr ⟨outcome, rfl, ?_⟩
      simp [answered, Run.books, Run.answered, Run.issues, Run.note, Run.events,
        Books.enterAnswer, sink.analyze]
    next e answered =>
      exact .inl ⟨_, rfl, call _ (by rw [answered]; rfl)⟩
    next unanswered =>
      exact .inl ⟨_, rfl, call _ (by rw [unanswered]; rfl)⟩

theorem requestFor_file (options : Options) (config : Path) (file : SourceFile) (path : Path)
    (r : Run σ) : (requestFor s options config file path r).1.file = path := by
  unfold requestFor
  split
  · dsimp only
    split <;> rfl
  · rfl

/-- Analyzing a file enters it if that comes to its end, and else nothing. -/
theorem books_analyzeFile (options : Options) (config : Path) (total : Nat) (file : SourceFile)
    (path : Path) (r : Run σ) :
    (∃ e, (analyzeFile s rules options config total file path r).1 = .error e ∧
      (analyzeFile s rules options config total file path r).2.books sink = r.books sink) ∨
    ∃ outcome, (analyzeFile s rules options config total file path r).1 = .ok () ∧
      (analyzeFile s rules options config total file path r).2.books sink =
        (r.books sink).enter rules ⟨file, path, outcome⟩ := by
  have alive := books_askAlive sink r
  unfold analyzeFile
  split
  next e r1 asked =>
    rw [asked] at alive
    exact .inl ⟨_, rfl, alive⟩
  next r1 asked =>
    rw [asked] at alive
    exact .inl ⟨_, rfl, alive⟩
  next r1 asked =>
    rw [asked] at alive
    dsimp only
    have shown := books_requestFor sink options config file path (showFile file r1)
    have named := requestFor_file (s := s) options config file path (showFile file r1)
    generalize requestFor s options config file path (showFile file r1) = q at shown named
    have answered := books_askAnalysis sink q.1 q.2
    cases asked : askAnalysis s q.1 q.2 with
    | mk answer r3 =>
      rw [asked] at answered
      obtain ⟨e, refused, kept⟩ | ⟨outcome, given, entered⟩ := answered
      · obtain rfl : answer = .error e := refused
        exact .inl ⟨e, rfl, kept.trans (shown.trans alive)⟩
      · obtain rfl : answer = .ok outcome := given
        refine .inr ⟨outcome, rfl, ?_⟩
        have before : q.2.books sink = r.books sink := shown.trans alive
        rw [named, before] at entered
        show (countFile (saveOutcome s rules file r3 outcome)).books sink = _
        rw [books_countFile, books_saveOutcome, entered]
        rfl

/-- What is entered by a part of a run that analyzes files: local ones among them, in their order
and as far as the part comes, and all of them if it comes to its end. -/
def Enters (files : List SourceFile) (before : Books) (out : Except Failure Unit × Run σ) : Prop :=
  ∃ done : List Analyzed, done.map Analyzed.place <+: localFiles files ∧
    out.2.books sink = done.foldl (Books.enter rules) before ∧
    (out.1 = .ok () → done.map Analyzed.place = localFiles files)

/-- A part of a run that fails before it has analyzed a file. -/
theorem Enters.nothing {files : List SourceFile} {before : Books} {e : Failure} {r : Run σ}
    (h : r.books sink = before) : Enters sink rules files before (.error e, r) :=
  ⟨[], List.nil_prefix, h, nofun⟩

theorem enters_analyzeFiles (options : Options) (config : Path) (total : Nat)
    (files : List SourceFile) (r : Run σ) :
    Enters sink rules files (r.books sink)
      (analyzeFiles s rules options config total files r) := by
  induction files generalizing r with
  | nil => exact ⟨[], List.prefix_refl _, rfl, fun _ => rfl⟩
  | cons file rest ih =>
    unfold analyzeFiles
    split
    · exact .nothing sink rules rfl
    · cases located : file.path? with
      | none =>
        have passed : localFiles (file :: rest) = localFiles rest := by
          simp [localFiles, located]
        have skipped := ih (r.say .debug s!"Skipping {file.display}, it is not a local file")
        rw [Run.books_say] at skipped
        rwa [Enters, passed]
      | some path =>
        have here : localFiles (file :: rest) = (file, path) :: localFiles rest := by
          simp [localFiles, located]
        have step := books_analyzeFile (s := s) sink rules options config total file path r
        cases analyzed : analyzeFile s rules options config total file path r with
        | mk result r1 =>
          rw [analyzed] at step
          simp only [analyzed]
          obtain ⟨e, failed, kept⟩ | ⟨outcome, passed, entered⟩ := step
          · obtain rfl : result = .error e := failed
            exact .nothing sink rules kept
          · obtain rfl : result = .ok () := passed
            obtain ⟨done, within, books, complete⟩ := ih r1
            rw [show r1.books sink = _ from entered] at books
            rw [Enters, here]
            refine ⟨⟨file, path, outcome⟩ :: done, ?_, books, fun ended => ?_⟩
            · exact List.cons_prefix_cons.mpr ⟨rfl, within⟩
            · exact congrArg _ (complete ended)

theorem enters_analyzeReporting (options : Options) (config : Path) (files : List SourceFile)
    (r : Run σ) :
    Enters sink rules files (r.books sink)
      (analyzeReporting s rules options config files r) := by
  have closed : ∀ (r : Run σ) (record : Option Log.Record),
      (record.elim r r.log).books sink = r.books sink := by
    intro r record
    cases record <;> simp
  unfold analyzeReporting
  dsimp only
  obtain ⟨done, within, books, complete⟩ := enters_analyzeFiles (s := s) sink rules options config
    files.length files (Run.log
      { r with progress := some (Progress.start (s.now r.world) files.length
        options.progressInterval) }
      (Progress.start (s.now r.world) files.length options.progressInterval).startRecord)
  refine ⟨done, within, ?_, complete⟩
  rw [closed, Run.books_progress, books, Run.books_log, Run.books_progress]

theorem enters_runFiles (options : Options) (files : List SourceFile) (r : Run σ) :
    Enters sink rules files (r.books sink) (runFiles s rules options files r) := by
  have stored := books_storeConfig sink rules r
  unfold runFiles
  split
  · exact .nothing sink rules rfl
  · cases storing : storeConfig s rules r with
    | mk result r1 =>
      rw [storing] at stored
      cases result with
      | error e => exact .nothing sink rules stored
      | ok config =>
        have started := (books_startWorker sink r1).trans stored
        cases starting : startWorker s r1 with
        | mk result r2 =>
          rw [starting] at started
          simp only [starting]
          cases result with
          | error e => exact .nothing sink rules started
          | ok =>
            rw [← show r2.books sink = r.books sink from started]
            exact enters_analyzeReporting sink rules options config files r2

/-! ### The whole run -/

theorem books_conclude (options : Options) (out : Except Failure Unit × Run σ) :
    (conclude options out).2.books sink = out.2.books sink := by
  unfold conclude
  split
  · rfl
  · simp
  · split
    · rfl
    · simp

/-- A run that ends without an error gives its summary, and it is complete only if nothing stopped
it. -/
theorem conclude_ok {options : Options} {out : Except Failure Unit × Run σ} {summary : Summary}
    (h : (conclude options out).1 = .ok summary) :
    summary = (conclude options out).2.summary ∧
      (summary.status = .completed → out.1 = .ok ()) := by
  unfold conclude at h ⊢
  split at h
  · cases h
    exact ⟨rfl, fun _ => rfl⟩
  · cases h
    exact ⟨rfl, nofun⟩
  · split at h
    · cases h
    · cases h
      rw [if_neg ‹_›]
      exact ⟨rfl, nofun⟩

end Entered

/-- The run once the host has listed its files, of which some number are eligible. -/
def Run.opened (s : Surroundings σ) (warnings : WarningList) (world : σ) (eligible : Nat) : Run σ :=
  { ({ world := (s.files world).2, warnings } : Run σ).note (.listedFiles (s.files world).1) with
    summary := { filesEligible := eligible } }

theorem Run.books_opened {s : Surroundings σ} (sink : Sink s) (warnings : WarningList) (world : σ)
    (eligible : Nat) : (Run.opened s warnings world eligible).books sink =
      { answered := [], issues := [], sink := sink.contents world, eligible, analyzed := 0,
        saved := 0, failures := 0 } := by
  simp [Run.books, Run.opened, Run.answered, Run.issues, Run.events, Run.note, sink.files]

section Branches

variable {s : Surroundings σ} {rules : RuleSet} (options : Options) (warnings : WarningList)
  {world : σ}

theorem execute_of_isEmpty (h : rules.isEmpty = true) :
    execute s rules options warnings world =
      let r := (({ world, warnings } : Run σ).say .warn
        "No rules are activated in CSS Quality Profile").setStatus .skipped
      (.ok r.summary, r) := by
  rw [execute, if_pos h]

theorem execute_of_none (h : rules.isEmpty = false)
    (none : (s.files world).1.filter isEligible = []) :
    execute s rules options warnings world =
      let r := ((({ world := (s.files world).2, warnings } : Run σ).note
        (.listedFiles (s.files world).1)).say .info "No CSS files to analyze").setStatus .skipped
      (.ok r.summary, r) := by
  simp only [execute, h, Bool.false_eq_true, if_false, none]

theorem execute_of_some (h : rules.isEmpty = false)
    (some : (s.files world).1.filter isEligible ≠ []) :
    execute s rules options warnings world =
      let files := (s.files world).1.filter isEligible
      conclude options
        (runFiles s rules options files (Run.opened s warnings world files.length)) := by
  obtain ⟨file, rest, listed⟩ := List.exists_cons_of_ne_nil some
  simp only [execute, h, Bool.false_eq_true, if_false, listed]
  rfl

end Branches

/-- The books of a whole run: whatever stops it, there is nothing in them but the analyses that were
answered with an outcome.  These are of the local files among the eligible ones, in their order, and
of all of them if the run is completed. -/
theorem books_execute {s : Surroundings σ} (sink : Sink s) (rules : RuleSet) (options : Options)
    (warnings : WarningList) (world : σ) :
    let here := localFiles ((s.files world).1.filter isEligible)
    let out := execute s rules options warnings world
    ∃ (eligible : Nat) (done : List Analyzed),
      out.2.books sink =
        done.foldl (Books.enter rules) ⟨[], [], sink.contents world, eligible, 0, 0, 0⟩ ∧
      done.map Analyzed.place <+: here ∧
      ∀ summary, out.1 = .ok summary → summary.status = .completed →
        done.map Analyzed.place = here := by
  dsimp only
  cases empty : rules.isEmpty with
  | true =>
    rw [execute_of_isEmpty options warnings empty]
    refine ⟨0, [], rfl, List.nil_prefix, fun summary ended completed => ?_⟩
    cases ended
    cases completed
  | false =>
    by_cases none : (s.files world).1.filter isEligible = []
    · rw [execute_of_none options warnings empty none]
      refine ⟨0, [], ?_, List.nil_prefix, fun summary ended completed => ?_⟩
      · rw [Run.books_setStatus, Run.books_say, Run.books_call sink { world, warnings } _ rfl]
        · rfl
        · exact sink.files world
      · cases ended
        cases completed
    · rw [execute_of_some options warnings empty none]
      generalize (s.files world).1.filter isEligible = files
      obtain ⟨done, within, entered, complete⟩ := enters_runFiles sink rules options files
        (Run.opened s warnings world files.length)
      rw [Run.books_opened] at entered
      refine ⟨_, done, (books_conclude sink options _).trans entered, within, ?_⟩
      intro summary ended completed
      exact complete ((conclude_ok ended).2 completed)

/-- The accounts of a run, however it ends.  The files whose analysis was answered with an outcome
are a prefix of the local ones among the eligible files.  The sink holds what it held before, and
then the issues of these outcomes in order.  The summary of a run that is neither skipped nor fails
counts just that, and a completed run has analyzed all local files. -/
theorem execute_accounts (s : Surroundings σ) (sink : Sink s) (rules : RuleSet)
    (options : Options) (warnings : WarningList) (world : σ) :
    let eligible := (s.files world).1.filter isEligible
    let out := execute s rules options warnings world
    ∃ done : List Analyzed,
      out.2.answered = done.map (fun a => (a.path, a.outcome)) ∧
      done.map Analyzed.place <+: localFiles eligible ∧
      out.2.issues = done.flatMap (Analyzed.issues rules) ∧
      sink.contents out.2.world = sink.contents world ++ done.flatMap (Analyzed.issues rules) ∧
      ∀ summary, out.1 = .ok summary → summary.status ≠ .skipped →
        summary.filesEligible = eligible.length ∧
        summary.filesAnalyzed = done.length ∧
        summary.issuesSaved = (done.flatMap (Analyzed.issues rules)).length ∧
        summary.parseFailures = done.countP (fun a => isFailure a.outcome) ∧
        (summary.status = .completed → done.map Analyzed.place = localFiles eligible) := by
  dsimp only
  cases empty : rules.isEmpty with
  | true =>
    rw [execute_of_isEmpty options warnings empty]
    refine ⟨[], rfl, List.nil_prefix, rfl, (List.append_nil _).symm, fun summary h skipped => ?_⟩
    cases h
    exact absurd rfl skipped
  | false =>
    by_cases none : (s.files world).1.filter isEligible = []
    · rw [execute_of_none options warnings empty none]
      refine ⟨[], rfl, List.nil_prefix, rfl, ?_, fun summary h skipped => ?_⟩
      · exact (sink.files world).trans (List.append_nil _).symm
      · cases h
        exact absurd rfl skipped
    · rw [execute_of_some options warnings empty none]
      generalize (s.files world).1.filter isEligible = files
      have ran := enters_runFiles sink rules options files
        (Run.opened s warnings world files.length)
      dsimp only
      generalize runFiles s rules options files (Run.opened s warnings world files.length) = out
        at ran ⊢
      obtain ⟨done, within, entered, complete⟩ := ran
      have books : (conclude options out).2.books sink = _ :=
        ((books_conclude sink options out).trans entered).trans (Books.foldl_enter rules done _)
      rw [Run.books_opened] at books
      simp only [Run.books, List.nil_append, Nat.zero_add, Books.mk.injEq] at books
      obtain ⟨answered, issues, held, eligible, analyzed, saved, failures⟩ := books
      refine ⟨done, answered, within, issues, held, fun summary h _ => ?_⟩
      obtain ⟨rfl, ended⟩ := conclude_ok h
      exact ⟨eligible, analyzed, saved, failures, fun completed => complete (ended completed)⟩

end LintBridge.Analysis
