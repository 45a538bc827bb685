import LintBridge.Proofs.Analysis.Calls
import LintBridge.Proofs.Analysis.Stages
import LintBridge.Proofs.Analysis.Transcript

/-! What a run says to its worker.  Its minutes hold that, the warnings that it has given, and how
far it has come; each part of a run adds to them, and `execute_dialogue` says that no run leaves the
language of `IsDialogue` and which requests it makes. -/

namespace LintBridge.Analysis

variable {σ : Type}

/-! ### The minutes of a run -/

/-- What a run has said, the warnings that it has given, the files that it has analyzed, and how it
stands. -/
structure Minutes where
  transcript : List Event
  warnings : WarningList
  analyzed : Nat := 0
  status : Status := .completed

def Run.minutes (r : Run σ) : Minutes :=
  ⟨r.transcript, r.warnings, r.summary.filesAnalyzed, r.summary.status⟩

def Minutes.add (m : Minutes) (events : List Event) : Minutes :=
  { m with transcript := m.transcript ++ events }

@[simp] theorem Minutes.add_nil (m : Minutes) : m.add [] = m := by
  simp [add]

@[simp] theorem Minutes.add_add (m : Minutes) (xs ys : List Event) :
    (m.add xs).add ys = m.add (xs ++ ys) := by
  simp [add]

namespace Run

variable (r : Run σ)

/-- A call that is transcribed, whatever it does to the world. -/
theorem minutes_call (world : σ) {e : Event} (h : e.isTranscribed = true) :
    ({ r with world }.note e).minutes = r.minutes.add [e] := by
  simp only [minutes, transcript, events_note, List.filter_append, Minutes.add, List.filter_cons,
    h, if_true, List.filter_nil]
  rfl

theorem minutes_note {e : Event} (h : e.isTranscribed = false) :
    (r.note e).minutes = r.minutes := by
  simp only [minutes, transcript, events_note, List.filter_append, List.filter_cons, h,
    Bool.false_eq_true, if_false, List.filter_nil, List.append_nil]
  rfl

@[simp] theorem minutes_log (record : Log.Record) : (r.log record).minutes = r.minutes :=
  r.minutes_note rfl

@[simp] theorem minutes_say (level : Log.Level) (text cause : String) :
    (r.say level text cause).minutes = r.minutes := r.minutes_log _

@[simp] theorem minutes_warn (text : String) :
    (r.warn text).minutes = { r.minutes with warnings := r.minutes.warnings.add text } :=
  minutes_note { r with warnings := r.warnings.add text } rfl

@[simp] theorem minutes_progress (progress : Option Progress) :
    ({ r with progress } : Run σ).minutes = r.minutes := rfl

@[simp] theorem minutes_setStatus (status : Status) :
    (r.setStatus status).minutes = { r.minutes with status } := rfl

theorem minutes_foldl_warn (texts : List String) :
    (texts.foldl Run.warn r).minutes =
      { r.minutes with warnings := r.minutes.warnings.addAll texts } := by
  induction texts generalizing r with
  | nil => rfl
  | cons text rest ih =>
    rw [List.foldl_cons, ih, minutes_warn]
    rfl

end Run

/-! ### One file -/

section File

variable {s : Surroundings σ} (rules : RuleSet) (options : Options) (config : Path)

theorem minutes_saveFinding (file : SourceFile) (r : Run σ) (d : Diagnostic) :
    (saveFinding s rules file r d).minutes = r.minutes := by
  unfold saveFinding
  split
  · exact r.minutes_say _ _ _
  · exact Run.minutes_note _ rfl

theorem minutes_saveOutcome (file : SourceFile) (r : Run σ) (outcome : Outcome) :
    (saveOutcome s rules file r outcome).minutes = r.minutes := by
  cases outcome with
  | diagnostics items =>
    show (items.foldl (saveFinding s rules file) r).minutes = r.minutes
    induction items generalizing r with
    | nil => rfl
    | cons d rest ih => rw [List.foldl_cons, ih, minutes_saveFinding]
  | parseFailure line message => exact r.minutes_say _ _ _

theorem minutes_countFile (r : Run σ) :
    (countFile r).minutes = { r.minutes with analyzed := r.minutes.analyzed + 1 } := rfl

/-- Asking whether the worker is alive is refused, or it is said and the answer decides. -/
theorem minutes_askAlive (r : Run σ) :
    ((askAlive s r).1 = .error .cancelled ∧ (askAlive s r).2.minutes = r.minutes) ∨
    ∃ alive, (askAlive s r).2.minutes = r.minutes.add [.askedAlive alive] ∧
      (askAlive s r).1 = alive.elim (.error .cancelled) .ok := by
  unfold askAlive
  split
  · exact .inl ⟨rfl, rfl⟩
  · rcases s.isAlive r.world with ⟨alive, world⟩
    refine .inr ⟨alive, ?_⟩
    cases alive <;> exact ⟨r.minutes_call _ rfl, rfl⟩

/-- The request for a file, whose text is read if it is to be sent. -/
theorem minutes_requestFor (file : SourceFile) (path : Path) (r : Run σ) :
    ∃ reading : Option (Except String String),
      reading.isSome = options.contentPolicy.sends options.mode file ∧
      (requestFor s options config file path r).1 =
        ⟨path, reading.bind Except.toOption, config⟩ ∧
      (requestFor s options config file path r).2.minutes =
        r.minutes.add (reading.toList.map (.readText file)) := by
  have call := fun e he => r.minutes_call (s.readText file r.world).2 (e := e) he
  unfold requestFor
  cases sends : options.contentPolicy.sends options.mode file with
  | false => exact ⟨none, rfl, rfl, (Minutes.add_nil _).symm⟩
  | true =>
    refine ⟨some (s.readText file r.world).1, rfl, ?_⟩
    dsimp only [if_true]
    cases (s.readText file r.world).1 with
    | ok text => exact ⟨rfl, call _ rfl⟩
    | error cause => exact ⟨rfl, (Run.minutes_say _ _ _ _).trans (call _ rfl)⟩

theorem minutes_askAnalysis (request : Request) (r : Run σ) :
    ((askAnalysis s request r).1 = .error .cancelled ∧
      (askAnalysis s request r).2.minutes = r.minutes) ∨
    ∃ answer, (askAnalysis s request r).2.minutes = r.minutes.add [.askedAnalysis request answer] ∧
      (askAnalysis s request r).1 =
        answer.elim (.error .cancelled) (Except.mapError .worker) := by
  unfold askAnalysis
  split
  · exact .inl ⟨rfl, rfl⟩
  · rcases s.analyze request r.world with ⟨_ | ⟨_ | _⟩, world⟩ <;>
      exact .inr ⟨_, r.minutes_call _ rfl, rfl⟩

/-- Once the worker has said that it is alive, the inquiry about a file breaks off before the
analysis is asked for, or the analysis is answered with an outcome or not. -/
theorem minutes_inquiry (file : SourceFile) (path : Path) (r : Run σ) :
    let requested := requestFor s options config file path r
    let asked := askAnalysis s requested.1 requested.2
    (∃ reading : Option (Except String String), asked.1 = .error .cancelled ∧
      asked.2.minutes = r.minutes.add (reading.toList.map (.readText file))) ∨
    ∃ x : Exchange, x.place = (file, path) ∧ x.IsRead options ∧
      asked.2.minutes = r.minutes.add (x.inquiry config) ∧
      ((x.isAnswered = false ∧ ∃ e, asked.1 = .error e) ∨
        (x.isAnswered = true ∧ ∃ outcome, asked.1 = .ok outcome)) := by
  intro requested asked
  obtain ⟨reading, read, named, told⟩ :=
    minutes_requestFor (s := s) options config file path r
  obtain ⟨refused, same⟩ | ⟨answer, said, result⟩ :=
    minutes_askAnalysis (s := s) requested.1 requested.2
  · exact .inl ⟨reading, refused, same.trans told⟩
  · refine .inr ⟨⟨file, path, reading, answer⟩, rfl, read, ?_, ?_⟩
    · rw [said, named, told, Minutes.add_add]
      rfl
    · match answer, result with
      | none, result => exact .inl ⟨rfl, _, result⟩
      | some (.error e), result => exact .inl ⟨rfl, _, result⟩
      | some (.ok outcome), result => exact .inr ⟨rfl, _, result⟩

/-- What is said about the local ones among files, at some places, between two moments. -/
def Talks (places : List (SourceFile × Path)) (before after : Minutes) : Prop :=
  ∃ xs events, IsTalk config xs events ∧ xs.map Exchange.place <+: places ∧
    (∀ x ∈ xs, x.IsRead options) ∧
    after = { before.add events with
      analyzed := before.analyzed + xs.countP Exchange.isAnswered }

variable {options config} {places more : List (SourceFile × Path)} {before after : Minutes}

theorem Talks.mono (talks : Talks options config places before after) (h : places <+: more) :
    Talks options config more before after := by
  obtain ⟨xs, events, talk, placed, read, said⟩ := talks
  exact ⟨xs, events, talk, placed.trans h, read, said⟩

/-- A file that is given up before its analysis is asked for. -/
theorem Talks.short {events : List Event} (talk : IsTalk config [] events)
    (h : after = before.add events) : Talks options config places before after := by
  subst h
  exact ⟨[], events, talk, List.nil_prefix, fun _ h => (List.not_mem_nil h).elim, rfl⟩

/-- A file whose analysis is asked for and not answered with an outcome. -/
theorem Talks.last {x : Exchange} (read : x.IsRead options) (h : x.isAnswered = false)
    (said : after = before.add (x.events config)) :
    Talks options config [x.place] before after := by
  subst said
  refine ⟨[x], _, .unanswered h, List.prefix_refl _, ?_, ?_⟩
  · rintro _ (_ | ⟨_, ⟨⟩⟩)
    exact read
  · simp [h, Minutes.add]

variable (options config)

/-- Analyzing a file is one exchange, answered if that comes to its end; else the talk is over. -/
theorem talks_analyzeFile (total : Nat) (file : SourceFile) (path : Path) (r : Run σ) :
    (∃ e, (analyzeFile s rules options config total file path r).1 = .error e ∧
      Talks options config [(file, path)] r.minutes
        (analyzeFile s rules options config total file path r).2.minutes) ∨
    ∃ x : Exchange, (analyzeFile s rules options config total file path r).1 = .ok () ∧
      x.place = (file, path) ∧ x.IsRead options ∧ x.isAnswered = true ∧
      (analyzeFile s rules options config total file path r).2.minutes =
        { r.minutes.add (x.events config) with analyzed := r.minutes.analyzed + 1 } := by
  rcases asked : askAlive s r with ⟨answer, r1⟩
  have alive := minutes_askAlive (s := s) r
  rw [asked] at alive
  obtain ⟨refused, same⟩ | ⟨alive, said, answered⟩ := alive
  · obtain rfl : answer = .error .cancelled := refused
    simp only [analyzeFile, asked]
    exact .inl ⟨_, rfl, .short .nothing (same.trans (Minutes.add_nil _).symm)⟩
  obtain rfl : answer = alive.elim (.error .cancelled) .ok := answered
  match alive with
  | none =>
    simp only [analyzeFile, asked]
    exact .inl ⟨_, rfl, .short (.unasked none) said⟩
  | some false =>
    simp only [analyzeFile, asked]
    exact .inl ⟨_, rfl, .short (.unasked (some false)) said⟩
  | some true =>
    have said : (showFile file r1).minutes = r.minutes.add [.askedAlive (some true)] := said
    have inquired := minutes_inquiry (s := s) options config file path (showFile file r1)
    simp only [said, Minutes.add_add] at inquired
    simp only [analyzeFile, asked, Option.elim]
    generalize requestFor s options config file path (showFile file r1) = requested at inquired ⊢
    generalize askAnalysis s requested.1 requested.2 = answered at inquired ⊢
    rcases answered with ⟨result, r3⟩
    dsimp only at inquired ⊢
    obtain ⟨reading, rfl, told⟩ | ⟨x, placed, read, told, ⟨short, e, rfl⟩ | ⟨full, outcome, rfl⟩⟩ :=
      inquired
    · refine .inl ⟨_, rfl, ?_⟩
      cases reading with
      | none => exact .short (.unasked (some true)) told
      | some reading => exact .short (.withheld file reading) told
    · exact .inl ⟨_, rfl, placed ▸ .last read short told⟩
    · refine .inr ⟨x, rfl, placed, read, full, ?_⟩
      rw [minutes_countFile, minutes_saveOutcome, told]
      rfl

/-- Going through files, exchanges are added as long as they are answered. -/
theorem talks_analyzeFiles (total : Nat) (files : List SourceFile) (r : Run σ) :
    Talks options config (localFiles files) r.minutes
      (analyzeFiles s rules options config total files r).2.minutes := by
  induction files generalizing r with
  | nil => exact .short .nothing (Minutes.add_nil _).symm
  | cons file rest ih =>
    unfold analyzeFiles
    split
    · exact .short .nothing (Minutes.add_nil _).symm
    · cases located : file.path? with
      | none =>
        have passed : localFiles (file :: rest) = localFiles rest := by
          simp [localFiles, located]
        have skipped := ih (r.say .debug s!"Skipping {file.display}, it is not a local file")
        rwa [Run.minutes_say, ← passed] at skipped
      | some path =>
        have here : localFiles (file :: rest) = (file, path) :: localFiles rest := by
          simp [localFiles, located]
        have step := talks_analyzeFile (s := s) rules options config total file path r
        rcases analyzed : analyzeFile s rules options config total file path r with ⟨result, r1⟩
        rw [analyzed] at step
        simp only [analyzed, here]
        obtain ⟨e, failed, talks⟩ | ⟨x, passed, placed, read, full, said⟩ := step
        · obtain rfl : result = .error e := failed
          exact talks.mono (List.prefix_append [(file, path)] _)
        · obtain rfl : result = .ok () := passed
          obtain ⟨xs, events, talk, within, reads, later⟩ := ih r1
          refine ⟨x :: xs, _, .answered full talk, ?_, ?_, ?_⟩
          · rw [List.map_cons, placed]
            exact List.cons_prefix_cons.mpr ⟨rfl, within⟩
          · exact List.forall_mem_cons.mpr ⟨read, reads⟩
          · rw [later, show r1.minutes = _ from said]
            simp [Minutes.add, full]
            omega

theorem talks_analyzeReporting (files : List SourceFile) (r : Run σ) :
    Talks options config (localFiles files) r.minutes
      (analyzeReporting s rules options config files r).2.minutes := by
  have closed : ∀ (r : Run σ) (record : Option Log.Record),
      (record.elim r r.log).minutes = r.minutes := by
    intro r record
    cases record <;> simp
  have talks := talks_analyzeFiles (s := s) rules options config files.length files
    (r.announced s options files.length)
  rw [Run.announced, Run.minutes_log, Run.minutes_progress] at talks
  rw [analyzeReporting, closed, Run.minutes_progress]
  exact talks

end File

/-! ### The whole run -/

section Whole

variable {s : Surroundings σ} (rules : RuleSet) (options : Options)

/-- The configuration is stored in the work directory or not; there it is looked for. -/
theorem minutes_storeConfig (r : Run σ) :
    let config := RuleSet.configPath (s.workDir r.world).1
    (∃ fault, (storeConfig s rules r).1 = .error (.config ⟨config, fault⟩) ∧
      (storeConfig s rules r).2.minutes =
        r.minutes.add [.storedConfig config rules.documentText (.error fault)]) ∨
    (storeConfig s rules r).1 = .ok config ∧
      (storeConfig s rules r).2.minutes =
        r.minutes.add [.storedConfig config rules.documentText (.ok ())] := by
  dsimp only
  cases stored : (s.store (RuleSet.configPath (s.workDir r.world).1) rules.documentText
    (s.workDir r.world).2).1 with
  | error fault =>
    simp only [storeConfig, stored]
    exact .inl ⟨fault, rfl, r.minutes_call _ rfl⟩
  | ok =>
    simp only [storeConfig, stored, true_and]
    exact .inr (r.minutes_call _ rfl)

theorem minutes_noticed (r : Run σ) :
    ∃ notices, (r.noticed s).minutes =
      { r.minutes.add [.startedWorker (s.ensureRunning r.world).1, .tookNotices notices] with
        warnings := r.minutes.warnings.addAll notices } := by
  refine ⟨(s.takeNotices (s.ensureRunning r.world).2).1, ?_⟩
  simp only [Run.noticed]
  rw [Run.minutes_foldl_warn, Run.minutes_call _ _ rfl, Run.minutes_call r _ rfl]
  simp [Minutes.add]

theorem minutes_inquired (r : Run σ) :
    (r.inquired s).minutes = r.minutes.add [.askedCommand (s.commandInfo r.world).1] := by
  have told : ∀ (r : Run σ) (info : Option String),
      (info.elim r (r.say .error)).minutes = r.minutes := by
    intro r info
    cases info <;> simp
  exact (told _ _).trans (r.minutes_call _ rfl)

/-- What a run says while it goes through some files, and the warnings that this brings. -/
structure Converses (options : Options) (config : Path) (text : String)
    (places : List (SourceFile × Path)) (xs : List Exchange) (events : List Event)
    (before after : Minutes) : Prop where
  dialogue : IsDialogue config text xs events
  placed : xs.map Exchange.place <+: places
  read : ∀ x ∈ xs, x.IsRead options
  said : after =
    { before.add events with
      warnings := before.warnings.addAll (noticesIn events)
      analyzed := before.analyzed + xs.countP Exchange.isAnswered }

/-- A run that comes to no exchange. -/
theorem Converses.short {config : Path} {text : String} {places : List (SourceFile × Path)}
    {events : List Event} {before after : Minutes} (dialogue : IsDialogue config text [] events)
    (h : after = { before.add events with warnings := before.warnings.addAll (noticesIn events) }) :
    Converses options config text places [] events before after :=
  ⟨dialogue, List.nil_prefix, fun _ h => (List.not_mem_nil h).elim, h⟩

section Started

variable (files : List SourceFile) {config : Path} {text : String} {before : Minutes}
  {r : Run σ} (stored : r.minutes = before.add [.storedConfig config text (.ok ())])
include stored

/-- Once the worker runs, the run goes through its files. -/
theorem converses_of_ok (started : (s.ensureRunning r.world).1 = .ok ()) :
    ∃ xs events, Converses options config text (localFiles files) xs events before
      (analyzeReporting s rules options config files (r.noticed s)).2.minutes := by
  obtain ⟨notices, noticed⟩ := minutes_noticed (s := s) r
  obtain ⟨xs, events, talk, placed, read, said⟩ :=
    talks_analyzeReporting (s := s) rules options config files (r.noticed s)
  refine ⟨xs, _, .started notices talk, placed, read, ?_⟩
  rw [said, noticed, started, stored]
  have silent := talk.notices
  simp only [noticesIn] at silent
  simp [Minutes.add, noticesIn, silent]

/-- A worker that cannot be started ends the run. -/
theorem converses_of_error {e : Worker.Error} (started : (s.ensureRunning r.world).1 = .error e) :
    ∃ events, Converses options config text (localFiles files) [] events before
      (r.unstarted s e).minutes := by
  obtain ⟨notices, noticed⟩ := minutes_noticed (s := s) r
  rw [started, stored] at noticed
  unfold Run.unstarted
  cases startup : e.isStartupFailure with
  | false =>
    refine ⟨_, .short _ (.unstarted notices startup) ?_⟩
    rw [if_neg Bool.false_ne_true, noticed]
    simp [Minutes.add, noticesIn]
  | true =>
    have asked := minutes_inquired (s := s) (r.noticed s)
    generalize (s.commandInfo (r.noticed s).world).1 = info at asked
    refine ⟨_, .short _ (.failedStart notices info startup) ?_⟩
    rw [if_pos rfl, asked, noticed]
    simp [Minutes.add, noticesIn]

end Started

theorem converses_runFiles (files : List SourceFile) (r : Run σ) :
    ∃ xs events, (events ≠ [] → s.isCancelled r.world = false) ∧
      Converses options (RuleSet.configPath (s.workDir r.world).1) rules.documentText
        (localFiles files) xs events r.minutes (runFiles s rules options files r).2.minutes := by
  have saved := minutes_storeConfig (s := s) rules r
  have stages := proceeds (s := s) rules options files r
  generalize runFiles s rules options files r = out at stages ⊢
  cases stages with
  | cancelled stopped =>
    exact ⟨[], [], fun h => absurd rfl h, .short _ .silent (Minutes.add_nil _).symm⟩
  | unstored going storing =>
    rw [storing] at saved
    obtain ⟨fault, -, said⟩ | ⟨⟨⟩, -⟩ := saved
    exact ⟨[], _, fun _ => going, .short _ (.unstored fault) said⟩
  | unstarted going storing starting =>
    rw [storing] at saved
    obtain ⟨fault, ⟨⟩, -⟩ | ⟨-, said⟩ := saved
    obtain ⟨events, converses⟩ := converses_of_error options files said starting
    exact ⟨[], events, fun _ => going, converses⟩
  | started going storing starting =>
    rw [storing] at saved
    obtain ⟨fault, ⟨⟩, -⟩ | ⟨⟨⟩, said⟩ := saved
    obtain ⟨xs, events, converses⟩ := converses_of_ok rules options files said starting
    exact ⟨xs, events, fun _ => going, converses⟩

/-- Only its end gives a run another status. -/
theorem status_runFiles (files : List SourceFile) (r : Run σ) :
    (runFiles s rules options files r).2.summary.status = r.summary.status := by
  obtain ⟨_, _, -, converses⟩ := converses_runFiles (s := s) rules options files r
  exact congrArg Minutes.status converses.said

/-- What has been asked for the worker is in the minutes. -/
theorem Run.starts_of_minutes {r q : Run σ} {events : List Event}
    (h : q.minutes.transcript = r.minutes.transcript ++ events) :
    q.starts = r.starts ++ startsIn events := by
  rw [← startsIn_transcript, ← startsIn_transcript, show q.transcript = _ from h, startsIn,
    List.filterMap_append]
  rfl

/-- A run asks for the worker at most once, and if it does not get it that is its end. -/
theorem Proceeds.starts {files : List SourceFile} {r : Run σ} {out : Except Failure Unit × Run σ}
    (h : Proceeds s rules options files r out) :
    (out.2.starts = r.starts ∧ out.1 ≠ .ok ()) ∨
    ∃ config stored, storeConfig s rules r = (.ok config, stored) ∧
      out.2.starts = r.starts ++ [(s.ensureRunning stored.world).1] ∧
      ∀ e, (s.ensureRunning stored.world).1 = .error e →
        out = (.error (.worker e), stored.unstarted s e) := by
  have kept : (storeConfig s rules r).2.starts = r.starts := by
    obtain ⟨fault, -, said⟩ | ⟨-, said⟩ := minutes_storeConfig (s := s) rules r <;>
      exact (Run.starts_of_minutes (congrArg Minutes.transcript said)).trans (List.append_nil _)
  have asked : ∀ stored : Run σ,
      (stored.noticed s).starts = stored.starts ++ [(s.ensureRunning stored.world).1] := by
    intro stored
    obtain ⟨notices, said⟩ := minutes_noticed (s := s) stored
    exact Run.starts_of_minutes (congrArg Minutes.transcript said)
  cases h with
  | cancelled stopped => exact .inl ⟨rfl, nofun⟩
  | unstored going storing =>
    rw [storing] at kept
    exact .inl ⟨kept, nofun⟩
  | @unstarted config stored e going storing starting =>
    rw [storing] at kept
    refine .inr ⟨config, stored, storing, ?_, fun e' again => ?_⟩
    · rw [← show stored.starts = r.starts from kept, ← asked]
      unfold Run.unstarted
      split
      · exact (Run.starts_of_minutes (congrArg Minutes.transcript (minutes_inquired _))).trans
          (List.append_nil _)
      · rfl
    · cases starting.symm.trans again
      rfl
  | @started config stored going storing starting =>
    rw [storing] at kept
    refine .inr ⟨config, stored, storing, ?_, fun e failed => ?_⟩
    · obtain ⟨xs, events, talk, -, -, said⟩ := talks_analyzeReporting (s := s) rules options config
        files (stored.noticed s)
      rw [← show stored.starts = r.starts from kept, ← asked,
        Run.starts_of_minutes (congrArg Minutes.transcript said), talk.starts, List.append_nil]
    · cases starting.symm.trans failed

theorem Run.minutes_cancelled (r : Run σ) :
    r.cancelled.minutes = { r.minutes with status := .cancelled } := by
  rw [cancelled, minutes_setStatus, minutes_log]

theorem Run.minutes_degraded (r : Run σ) (e : Failure) :
    (r.degraded e).minutes =
      { r.minutes with
        warnings := r.minutes.warnings.add (warningAbout e)
        status := .degraded } := by
  rw [degraded, minutes_setStatus, minutes_warn, minutes_say]

section Concluded

variable {options} {out : Except Failure Unit × Run σ} {ended : Except Failure Summary × Run σ}

/-- The end of a run says nothing, though it may warn. -/
theorem Concludes.minutes (ends : Concludes options out ended) :
    ∃ warnings status, ended.2.minutes = { out.2.minutes with warnings, status } := by
  cases ends with
  | completed r => exact ⟨_, _, rfl⟩
  | cancelled r => exact ⟨_, _, r.minutes_cancelled⟩
  | raised r => exact ⟨_, _, rfl⟩
  | degraded r => exact ⟨_, _, r.minutes_degraded _⟩

theorem Concludes.transcript (ends : Concludes options out ended) :
    ended.2.transcript = out.2.transcript := by
  obtain ⟨_, _, minutes⟩ := ends.minutes
  exact congrArg Minutes.transcript minutes

theorem Concludes.starts (ends : Concludes options out ended) : ended.2.starts = out.2.starts := by
  rw [← startsIn_transcript, ends.transcript, startsIn_transcript]

theorem Concludes.summary (ends : Concludes options out ended) {summary : Summary}
    (h : ended.1 = .ok summary) : summary = ended.2.summary := by
  cases ends <;> cases h <;> rfl

theorem Concludes.analyzed (ends : Concludes options out ended) {summary : Summary}
    (h : ended.1 = .ok summary) : summary.filesAnalyzed = out.2.summary.filesAnalyzed := by
  obtain ⟨_, _, minutes⟩ := ends.minutes
  rw [ends.summary h]
  exact congrArg Minutes.analyzed minutes

end Concluded

/-- A run is skipped, and has not said anything, or it comes to the files that it is to analyze. -/
theorem execute_cases (warnings : WarningList) (world : σ) :
    let files := (s.files world).1.filter isEligible
    let out := execute s rules options warnings world
    (out.1 = .ok out.2.summary ∧
      out.2.minutes = { transcript := [], warnings, status := .skipped }) ∨
    (rules.isEmpty = false ∧ files ≠ [] ∧ out = conclude options
      (runFiles s rules options files (Run.opened s warnings world files.length))) := by
  dsimp only
  cases empty : rules.isEmpty with
  | true =>
    rw [execute_of_isEmpty options warnings empty]
    exact .inl ⟨rfl, rfl⟩
  | false =>
    by_cases none : (s.files world).1.filter isEligible = []
    · rw [execute_of_none options warnings empty none]
      exact .inl ⟨rfl, rfl⟩
    · exact .inr ⟨rfl, none, execute_of_some options warnings empty none⟩

/-- What a whole run says, until it comes to its conclusion. -/
theorem converses_execute (warnings : WarningList) (world : σ) :
    let listed := s.files world
    let eligible := listed.1.filter isEligible
    let ended := execute s rules options warnings world
    ∃ xs events status out,
      Converses options (RuleSet.configPath (s.workDir listed.2).1) rules.documentText
        (localFiles eligible) xs events { transcript := [], warnings, status } out.2.minutes ∧
      (events ≠ [] → rules.isEmpty = false ∧ eligible ≠ [] ∧ s.isCancelled listed.2 = false) ∧
      ended.2.transcript = events ∧ Concludes options out ended := by
  intro listed eligible ended
  obtain ⟨ok, minutes⟩ | ⟨active, some, ran⟩ := execute_cases (s := s) rules options warnings world
  · refine ⟨[], [], .skipped, (.ok (), ended.2), .short _ .silent minutes, fun h => absurd rfl h,
      congrArg Minutes.transcript minutes, ?_⟩
    rw [show ended = (.ok ended.2.summary, ended.2) from Prod.ext ok rfl]
    exact .completed _
  · obtain ⟨xs, events, going, converses⟩ := converses_runFiles (s := s) rules options eligible
      (Run.opened s warnings world eligible.length)
    have ends := concludes options
      (runFiles s rules options eligible (Run.opened s warnings world eligible.length))
    rw [← ran] at ends
    exact ⟨xs, events, .completed, _, converses, fun h => ⟨active, some, going h⟩,
      ends.transcript.trans (congrArg Minutes.transcript converses.said), ends⟩

/-- A run that has asked for the worker got there by storing the configuration, and if it did not
get the worker that was its end. -/
theorem started_execute {warnings : WarningList} {world : σ} {result : Except Worker.Error Unit}
    (h : result ∈ (execute s rules options warnings world).2.starts) :
    ∃ eligible config stored,
      storeConfig s rules (Run.opened s warnings world eligible) = (.ok config, stored) ∧
      (s.ensureRunning stored.world).1 = result ∧
      ∀ e, result = .error e →
        execute s rules options warnings world =
          conclude options (.error (.worker e), stored.unstarted s e) := by
  obtain ⟨-, minutes⟩ | ⟨-, -, ran⟩ := execute_cases (s := s) rules options warnings world
  · have quiet : (execute s rules options warnings world).2.transcript = [] :=
      congrArg Minutes.transcript minutes
    rw [← startsIn_transcript, quiet] at h
    cases h
  · generalize (s.files world).1.filter isEligible = files at ran
    have stages := proceeds (s := s) rules options files (Run.opened s warnings world files.length)
    rw [ran, (concludes options _).starts] at h
    obtain ⟨same, -⟩ | ⟨config, stored, storing, starts, stopped⟩ := stages.starts
    · rw [same] at h
      cases h
    · rw [starts] at h
      obtain rfl : result = _ := List.mem_singleton.mp h
      refine ⟨files.length, config, stored, storing, rfl, fun e failed => ?_⟩
      rw [ran, stopped e failed]

end Whole

/-- A run never leaves the dialogue that `IsDialogue` describes, and it says nothing unless some
rule is active, some file is eligible and it was not cancelled when it began.  It asks for the
analysis of the local ones among the eligible files, in their order and without leaving one out,
each time right after the worker has said that it is alive.  A request names the configuration that
was stored, and it carries the text of the file exactly if that is to be sent and could be read.  As
many exchanges are answered as files are counted as analyzed. -/
theorem execute_dialogue (s : Surroundings σ) (rules : RuleSet) (options : Options)
    (warnings : WarningList) (world : σ) :
    let listed := s.files world
    let eligible := listed.1.filter isEligible
    let config := RuleSet.configPath (s.workDir listed.2).1
    let out := execute s rules options warnings world
    ∃ xs : List Exchange,
      IsDialogue config rules.documentText xs out.2.transcript ∧
      (out.2.transcript ≠ [] → rules.isEmpty = false ∧ eligible ≠ [] ∧
        s.isCancelled listed.2 = false ∧ (s.StaysCancelled → s.isCancelled world = false)) ∧
      AliveFirst out.2.calls ∧
      xs.map Exchange.place <+: localFiles eligible ∧
      out.2.requests = xs.map (Exchange.request config) ∧
      (∀ x ∈ xs, ∀ text, (x.request config).content = some text ↔
        options.contentPolicy.sends options.mode x.file = true ∧ x.reading = some (.ok text)) ∧
      (∀ x ∈ xs, x.reading.isSome = options.contentPolicy.sends options.mode x.file) ∧
      ∀ summary, out.1 = .ok summary →
        summary.filesAnalyzed = xs.countP Exchange.isAnswered := by
  intro listed eligible config out
  obtain ⟨xs, events, _, _, converses, allowed, said, ends⟩ :=
    converses_execute (s := s) rules options warnings world
  refine ⟨xs, ?_, ?_, ?_, converses.placed, ?_, ?_, converses.read, ?_⟩
  · rw [show out.2.transcript = events from said]
    exact converses.dialogue
  · intro spoken
    obtain ⟨active, some, going⟩ := allowed (said ▸ spoken)
    refine ⟨active, some, going, fun stays => ?_⟩
    cases cancelled : s.isCancelled world with
    | false => rfl
    | true => exact absurd (stays .files cancelled) (Bool.eq_false_iff.mp going)
  · rw [← callsIn_transcript, said]
    exact converses.dialogue.aliveFirst
  · rw [← requestsIn_transcript, said]
    exact converses.dialogue.requests
  · intro x member text
    refine Exchange.text?_eq_some.trans ⟨fun read => ?_, And.right⟩
    exact ⟨(converses.read x member).sends read, read⟩
  · intro summary h
    rw [ends.analyzed h]
    exact (congrArg Minutes.analyzed converses.said).trans (Nat.zero_add _)

end LintBridge.Analysis
