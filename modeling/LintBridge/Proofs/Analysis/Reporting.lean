import LintBridge.Proofs.Analysis.Dialogue
import LintBridge.Proofs.Analysis.SyntaxErrors
import LintBridge.Proofs.Progress

/-! What a run reports of its progress.  The events of a run say where it stands (`Course`): how
many files are settled, which means that their analysis was answered with an outcome and the outcome
was taken over, and whether a file is at its request or its outcome is being taken over.
`IsReported` says what the report shows at each moment, and every moment of a run is as it says.
With its first line the report begins, and its last one counts what the summary counts:
`faithful_execute`. -/

namespace LintBridge.Analysis

variable {σ : Type} {s : Surroundings σ}

/-! ### The course of a run -/

/-- Where a run stands with its files: between two of them, at the request for one, or with a number
of things still to be told of its outcome. -/
inductive Stand where
  | between
  | asking
  | saving (left : Nat)
  deriving DecidableEq

structure Course where
  settled : Nat := 0
  stand : Stand := .between
  deriving DecidableEq

/-- How many events it takes to take over an outcome: one for each finding, or one that says that
the file cannot be parsed. -/
def sizeOf : Outcome → Nat
  | .diagnostics items => items.length
  | .parseFailure _ _ => 1

namespace Course

/-- The course while an outcome is taken over: with its last event the file is settled. -/
def saving (settled : Nat) : Nat → Course
  | 0 => { settled := settled + 1 }
  | left + 1 => { settled, stand := .saving (left + 1) }

def after (c : Course) (e : Event) : Course :=
  match c.stand, e with
  | .saving left, _ => saving c.settled (left - 1)
  | _, .askedAlive (some true) => { c with stand := .asking }
  | _, .askedAnalysis _ (some (.ok outcome)) => saving c.settled (sizeOf outcome)
  | _, _ => c

def of (events : List Event) : Course := events.foldl after {}

/-- The file that is at its request, or whose outcome is being taken over. -/
def current (files : List SourceFile) (c : Course) : Option SourceFile :=
  match c.stand with
  | .between => none
  | .asking | .saving _ => (localFiles files)[c.settled]?.map Prod.fst

theorem of_append (events : List Event) (e : Event) : of (events ++ [e]) = (of events).after e :=
  List.foldl_append

/-- Whether an event has to do with a file: the worker is asked about one, or an issue is saved. -/
def concerns : Event → Bool
  | .askedAlive _ | .askedAnalysis _ _ | .saved _ => true
  | _ => false

/-- Whether an outcome is being taken over. -/
def isSaving (c : Course) : Bool :=
  match c.stand with
  | .saving _ => true
  | .between | .asking => false

theorem after_aside {c : Course} {e : Event} (settled : c.isSaving = false)
    (aside : concerns e = false) : c.after e = c := by
  obtain ⟨_, stand⟩ := c
  cases stand with
  | saving left => cases settled
  | between => cases e <;> first | rfl | cases aside
  | asking => cases e <;> first | rfl | cases aside

end Course

/-! ### What is reported -/

def issuesIn (events : List Event) : List Issue :=
  events.filterMap fun e => match e with
    | .saved issue => some issue
    | _ => none

/-- Whether the worker is asked about a file, or whether it is alive. -/
def Event.isQuestion : Event → Bool
  | .askedAlive _ | .askedAnalysis _ _ => true
  | _ => false

theorem Event.quiet_of_aside {e : Event} (aside : Course.concerns e = false) :
    e.isQuestion = false ∧ e.isEntered = false := by
  cases e <;> first | exact ⟨rfl, rfl⟩ | cases aside

section Law

variable (rules : RuleSet) (options : Options) (files : List SourceFile)

/-- A report shows what the course of a run says. -/
structure Reports (c : Course) (p : Progress) : Prop where
  total : p.total = files.length
  interval : p.interval = options.progressInterval
  done : p.done = c.settled
  within : p.done ≤ p.total
  current : p.current = c.current files

/-- Some files are done: their analyses were answered with outcomes, whose issues were saved, and no
other analysis was answered and no other issue saved. -/
structure AreDone (events : List Event) (done : List Analyzed) : Prop where
  places : done.map Analyzed.place <+: localFiles files
  answered : answeredIn events = done.map fun a => (a.path, a.outcome)
  issues : issuesIn events = done.flatMap (Analyzed.issues rules)

/-- What is reported at a moment, after some events.  A report shows where the run stands.  There is
none while the worker is started, and there is one whenever the worker is asked about the files; it
then counts the files that are done.  No file is shown when the worker is asked whether it is alive,
and the file is shown for which an analysis is asked or an issue is saved. -/
structure IsReported (before : List Event) (m : Moment) : Prop where
  shows : ∀ p, m.progress = some p → Reports options files (Course.of before) p
  starts : m.event.isCall = true → m.event.isQuestion = false → m.progress = none
  counts : m.event.isQuestion = true →
    ∃ p done, m.progress = some p ∧ AreDone rules files before done ∧ p.done = done.length
  alive : ∀ answer, m.event = .askedAlive answer → (Course.of before).stand = .between
  asks : ∀ request answer, m.event = .askedAnalysis request answer →
    (Course.of before).stand = .asking ∧
      ∃ p file, m.progress = some p ∧ p.current = some file ∧ file.path? = some request.file
  saves : ∀ issue, m.event = .saved issue → ∃ p, m.progress = some p ∧ p.current = some issue.file

end Law

section Reported

variable {rules : RuleSet} {options : Options} {files : List SourceFile} {before : List Event}
  {m : Moment} {c : Course} {p : Progress}

/-- Where nothing is said about a file, all that counts is what the report shows. -/
theorem IsReported.aside (aside : Course.concerns m.event = false)
    (starts : m.event.isCall = true → m.progress = none)
    (shows : ∀ p, m.progress = some p → Reports options files (Course.of before) p) :
    IsReported rules options files before m := by
  have unasked := (Event.quiet_of_aside aside).1
  refine ⟨shows, fun call _ => starts call, fun asked => ?_, fun answer asked => ?_,
    fun request answer asked => ?_, fun issue saved => ?_⟩
  · exact absurd asked (Bool.eq_false_iff.mp unasked)
  · rw [asked] at aside
    cases aside
  · rw [asked] at aside
    cases aside
  · rw [saved] at aside
    cases aside

/-- Without a report nothing may be said about a file. -/
theorem IsReported.silent {e : Event} (aside : Course.concerns e = false) :
    IsReported rules options files before ⟨e, none⟩ :=
  .aside aside (fun _ => rfl) fun _ => nofun

theorem Reports.shows (h : Reports options files c p) :
    ∀ q, some p = some q → Reports options files c q := by
  rintro _ ⟨⟩
  exact h

theorem Reports.saving {left : Nat} {settled : Nat}
    (h : Reports options files ⟨settled, .asking⟩ p) :
    Reports options files ⟨settled, .saving left⟩ p :=
  ⟨h.total, h.interval, h.done, h.within, h.current⟩

theorem AreDone.note {done : List Analyzed} (h : AreDone rules files before done) {e : Event}
    (quiet : e.isEntered = false) : AreDone rules files (before ++ [e]) done := by
  have answered : answeredIn [e] = [] := by
    match e with
    | .askedAnalysis _ none | .askedAnalysis _ (some (.error _)) => rfl
    | .askedAnalysis _ (some (.ok _)) => cases quiet
    | .listedFiles _ | .storedConfig _ _ _ | .startedWorker _ | .tookNotices _ | .askedCommand _
    | .askedAlive _ | .readText _ _ | .saved _ | .logged _ | .warned _ => rfl
  have issues : issuesIn [e] = [] := by
    cases e with
    | saved issue => cases quiet
    | _ => rfl
  refine ⟨h.places, ?_, ?_⟩
  · rw [answeredIn_append, answered, List.append_nil, h.answered]
  · rw [issuesIn, List.filterMap_append, ← issuesIn, ← issuesIn, issues, List.append_nil, h.issues]

end Reported

/-! ### Runs -/

/-- Every moment of a run is reported as it should be, and the run has come to some course, has
counted some files and has some report. -/
structure Run.Stands (rules : RuleSet) (options : Options) (files : List SourceFile) (r : Run σ)
    (c : Course) (analyzed : Nat) (report : Option Progress) : Prop where
  lawful : ∀ before m after, r.history = before ++ m :: after →
    IsReported rules options files (before.map (·.event)) m
  course : Course.of r.events = c
  analyzed : r.summary.filesAnalyzed = analyzed
  progress : r.progress = report

section Steps

variable {rules : RuleSet} {options : Options} {files : List SourceFile} {r : Run σ} {c : Course}
  {n : Nat} {report : Option Progress}

namespace Run.Stands

theorem world (h : r.Stands rules options files c n report) (world : σ) :
    ({ r with world } : Run σ).Stands rules options files c n report :=
  ⟨h.lawful, h.course, h.analyzed, h.progress⟩

theorem note (h : r.Stands rules options files c n report) {e : Event}
    (reported : IsReported rules options files r.events ⟨e, report⟩) :
    (r.note e).Stands rules options files (c.after e) n report := by
  refine ⟨fun before m after split => ?_, ?_, h.analyzed, h.progress⟩
  · rw [Run.note, h.progress] at split
    obtain rfl | ⟨earlier, last, rfl⟩ := List.eq_nil_or_concat after
    · obtain ⟨same, last⟩ := List.append_inj' split rfl
      obtain rfl := (List.cons.inj last).1
      rw [← same]
      exact reported
    · rw [List.concat_eq_append, ← List.cons_append, ← List.append_assoc] at split
      exact h.lawful before m earlier (List.append_inj' split rfl).1
  · rw [Run.events_note, Course.of_append, h.course]

theorem shows {p : Progress} (h : r.Stands rules options files c n (some p))
    (reports : Reports options files c p) :
    ∀ q, some p = some q → Reports options files (Course.of r.events) q :=
  h.course.symm ▸ reports.shows

/-- An event that has nothing to do with a file, while no outcome is being taken over. -/
theorem aside (h : r.Stands rules options files c n report) {e : Event}
    (settled : c.isSaving = false) (aside : Course.concerns e = false)
    (starts : e.isCall = true → report = none)
    (shows : ∀ p, report = some p → Reports options files c p) :
    (r.note e).Stands rules options files c n report := by
  have noted := h.note (.aside aside starts (h.course.symm ▸ shows))
  rwa [Course.after_aside settled aside] at noted

theorem log (h : r.Stands rules options files c n report) (settled : c.isSaving = false)
    (shows : ∀ p, report = some p → Reports options files c p) (line : Log.Record) :
    (r.log line).Stands rules options files c n report :=
  h.aside settled rfl nofun shows

end Run.Stands

/-! ### One file -/

section File

variable {p : Progress} {k : Nat} {done : List Analyzed}

theorem stands_askAlive (h : r.Stands rules options files { settled := k } n (some p))
    (reports : Reports options files { settled := k } p)
    (areDone : AreDone rules files r.events done) (count : done.length = k) :
    (∃ e, (askAlive s r).1 = .error e ∨ (askAlive s r).1 = .ok false) ∧
        (∃ c, (askAlive s r).2.Stands rules options files c n (some p)) ∨
      (askAlive s r).1 = .ok true ∧
        (askAlive s r).2.Stands rules options files ⟨k, .asking⟩ n (some p) ∧
        AreDone rules files (askAlive s r).2.events done := by
  have asked : ∀ world answer, (({ r with world } : Run σ).note (.askedAlive answer)).Stands rules
      options files (Course.after { settled := k } (.askedAlive answer)) n (some p) := by
    intro world answer
    refine (h.world world).note ?_
    show IsReported rules options files r.events _
    refine ⟨h.shows reports, fun _ => nofun, fun _ => ?_, fun _ _ => ?_, fun _ _ => nofun,
      fun _ => nofun⟩
    · exact ⟨p, done, rfl, areDone, reports.done.trans count.symm⟩
    · rw [h.course]
  unfold askAlive
  split
  · exact .inl ⟨⟨_, .inl rfl⟩, _, h⟩
  · dsimp only
    split
    next alive told =>
      cases alive with
      | false => exact .inl ⟨⟨.cancelled, .inr rfl⟩, _, asked _ _⟩
      | true =>
        refine .inr ⟨rfl, ?_, ?_⟩
        · have stands := asked (s.isAlive r.world).2 (s.isAlive r.world).1
          rwa [told] at stands ⊢
        · rw [Run.events_note]
          exact areDone.note rfl
    next => exact .inl ⟨⟨_, .inl rfl⟩, _, asked _ _⟩

theorem stands_requestFor (h : r.Stands rules options files ⟨k, .asking⟩ n (some p))
    (reports : Reports options files ⟨k, .asking⟩ p) (areDone : AreDone rules files r.events done)
    (config : Path) (file : SourceFile) (path : Path) :
    (requestFor s options config file path r).2.Stands rules options files ⟨k, .asking⟩ n (some p) ∧
      AreDone rules files (requestFor s options config file path r).2.events done := by
  have read : ∀ world result,
      (({ r with world } : Run σ).note (.readText file result)).Stands rules options files
        ⟨k, .asking⟩ n (some p) :=
    fun world result => (h.world world).aside rfl rfl nofun reports.shows
  unfold requestFor
  split
  · dsimp only
    split
    · refine ⟨read _ _, ?_⟩
      rw [Run.events_note]
      exact areDone.note rfl
    · refine ⟨(read _ _).log rfl reports.shows _, ?_⟩
      rw [Run.say, Run.log, Run.events_note, Run.events_note]
      exact (areDone.note rfl).note rfl
  · exact ⟨h, areDone⟩

theorem stands_askAnalysis (h : r.Stands rules options files ⟨k, .asking⟩ n (some p))
    (reports : Reports options files ⟨k, .asking⟩ p) (areDone : AreDone rules files r.events done)
    (count : done.length = k) {file : SourceFile} {request : Request}
    (current : p.current = some file) (located : file.path? = some request.file) :
    (∃ e, (askAnalysis s request r).1 = .error e) ∧
        (∃ c, (askAnalysis s request r).2.Stands rules options files c n (some p)) ∨
      ∃ outcome, (askAnalysis s request r).1 = .ok outcome ∧
        (askAnalysis s request r).2.Stands rules options files
          (Course.saving k (sizeOf outcome)) n (some p) := by
  have asked : ∀ world answer,
      (({ r with world } : Run σ).note (.askedAnalysis request answer)).Stands rules options files
        (Course.after ⟨k, .asking⟩ (.askedAnalysis request answer)) n (some p) := by
    intro world answer
    refine (h.world world).note ?_
    show IsReported rules options files r.events _
    refine ⟨h.shows reports, fun _ => nofun, fun _ => ?_, fun _ => nofun, ?_, fun _ => nofun⟩
    · exact ⟨p, done, rfl, areDone, reports.done.trans count.symm⟩
    · rintro _ _ ⟨⟩
      rw [h.course]
      exact ⟨rfl, p, file, rfl, current, located⟩
  unfold askAnalysis
  split
  · exact .inl ⟨⟨_, rfl⟩, _, h⟩
  · dsimp only
    split
    next outcome told =>
      refine .inr ⟨outcome, rfl, ?_⟩
      have stands := asked (s.analyze request r.world).2 (s.analyze request r.world).1
      rwa [told] at stands ⊢
    next => exact .inl ⟨⟨_, rfl⟩, _, asked _ _⟩
    next => exact .inl ⟨⟨_, rfl⟩, _, asked _ _⟩

/-- While an outcome is taken over each event is a step towards the next file. -/
theorem stands_saveFinding {left : Nat}
    (h : r.Stands rules options files (Course.saving k (left + 1)) n (some p))
    (reports : Reports options files ⟨k, .asking⟩ p) {file : SourceFile}
    (current : p.current = some file) (d : Diagnostic) :
    (saveFinding s rules file r d).Stands rules options files (Course.saving k left) n
      (some p) := by
  have shows := h.shows reports.saving
  unfold saveFinding
  split
  · exact h.note (.aside rfl nofun shows)
  next key found =>
    let issue : Issue := ⟨file, key, d.line, Message.core d.message⟩
    have saved : ({ r with
        world := s.save issue r.world
        summary := { r.summary with issuesSaved := r.summary.issuesSaved + 1 } } : Run σ).Stands
        rules options files (Course.saving k (left + 1)) n (some p) :=
      ⟨h.lawful, h.course, h.analyzed, h.progress⟩
    refine saved.note ⟨shows, nofun, nofun, fun _ => nofun, fun _ _ => nofun, ?_⟩
    rintro _ ⟨⟩
    exact ⟨p, rfl, current⟩

theorem stands_saveOutcome {outcome : Outcome}
    (h : r.Stands rules options files (Course.saving k (sizeOf outcome)) n (some p))
    (reports : Reports options files ⟨k, .asking⟩ p) {file : SourceFile}
    (current : p.current = some file) :
    (saveOutcome s rules file r outcome).Stands rules options files { settled := k + 1 } n
      (some p) := by
  cases outcome with
  | parseFailure line message =>
    have said : (r.say .error s!"Failed to parse {file.display}, line {line}, {message}").Stands
        rules options files { settled := k + 1 } n (some p) :=
      h.note (.aside rfl nofun (h.shows reports.saving))
    exact ⟨said.lawful, said.course, said.analyzed, said.progress⟩
  | diagnostics items =>
    show (items.foldl (saveFinding s rules file) r).Stands rules options files _ n (some p)
    replace h : r.Stands rules options files (Course.saving k items.length) n (some p) := h
    induction items generalizing r with
    | nil => exact h
    | cons d rest ih => exact ih (stands_saveFinding h reports current d)

theorem Run.Stands.showFile {file : SourceFile}
    (h : r.Stands rules options files c n (some p)) :
    (showFile file r).Stands rules options files c n (some (p.startFile file)) :=
  ⟨h.lawful, h.course, h.analyzed, by rw [Analysis.showFile, h.progress]; rfl⟩

theorem Run.Stands.countFile (h : r.Stands rules options files c n (some p)) :
    (countFile r).Stands rules options files c (n + 1) (some p.finishFile) :=
  ⟨h.lawful, h.course, congrArg (· + 1) h.analyzed, by rw [Analysis.countFile, h.progress]; rfl⟩

theorem Reports.startFile {file : SourceFile} {path : Path}
    (h : Reports options files { settled := k } p)
    (next : (localFiles files)[k]? = some (file, path)) :
    Reports options files ⟨k, .asking⟩ (p.startFile file) :=
  ⟨h.total, h.interval, h.done, h.within, by rw [Course.current, next]; rfl⟩

theorem Reports.finishFile (h : Reports options files ⟨k, .asking⟩ p) (more : k < files.length) :
    Reports options files { settled := k + 1 } p.finishFile where
  total := h.total
  interval := h.interval
  done := congrArg (· + 1) h.done
  within := by
    show p.done + 1 ≤ p.total
    rw [h.total, h.done]
    exact more
  current := rfl

theorem stands_analyzeFile (h : r.Stands rules options files { settled := k } n (some p))
    (reports : Reports options files { settled := k } p)
    (areDone : AreDone rules files r.events done) (count : done.length = k)
    {file : SourceFile} {path : Path} (located : file.path? = some path)
    (next : (localFiles files)[k]? = some (file, path)) (config : Path) (total : Nat) :
    let out := analyzeFile s rules options config total file path r
    (∃ e, out.1 = .error e) ∧ (∃ c q, out.2.Stands rules options files c n (some q) ∧
        q.done = p.done ∧ q.total = p.total) ∨
      out.1 = .ok () ∧ out.2.Stands rules options files { settled := k + 1 } (n + 1)
        (some (p.startFile file).finishFile) := by
  intro out
  have alive := stands_askAlive (s := s) h reports areDone count
  have shows := reports.startFile next
  simp only [out]
  unfold analyzeFile
  split
  next e r1 asked =>
    rw [asked] at alive
    obtain ⟨-, c, stopped⟩ | ⟨lives, -⟩ := alive
    · exact .inl ⟨⟨_, rfl⟩, c, p, stopped, rfl, rfl⟩
    · cases lives
  next r1 asked =>
    rw [asked] at alive
    obtain ⟨-, c, stopped⟩ | ⟨lives, -⟩ := alive
    · exact .inl ⟨⟨_, rfl⟩, c, p, stopped, rfl, rfl⟩
    · cases lives
  next r1 asked =>
    rw [asked] at alive
    obtain ⟨⟨e, dead⟩, -⟩ | ⟨-, stands, areDone⟩ := alive
    · obtain failed | failed := dead <;> cases failed
    · dsimp only
      have requested := stands_requestFor (s := s) stands.showFile shows areDone config file path
      have named := requestFor_file (s := s) options config file path (showFile file r1)
      dsimp only at requested
      generalize requestFor s options config file path (showFile file r1) = q at requested named
      obtain ⟨stands, areDone⟩ := requested
      have answered := stands_askAnalysis (s := s) stands shows areDone count rfl
        (named ▸ located)
      cases told : askAnalysis s q.1 q.2 with
      | mk answer r3 =>
        rw [told] at answered
        obtain ⟨⟨e, failed⟩, c, stopped⟩ | ⟨outcome, given, stands⟩ := answered
        · obtain rfl : answer = .error e := failed
          exact .inl ⟨⟨e, rfl⟩, c, _, stopped, rfl, rfl⟩
        · obtain rfl : answer = .ok outcome := given
          exact .inr ⟨rfl, (stands_saveOutcome stands shows rfl).countFile⟩

end File

/-! ### All files -/

/-- A run is between two files: it has so many done, and shows none. -/
def Run.IsBetween (rules : RuleSet) (options : Options) (files : List SourceFile) (r : Run σ)
    (done : List Analyzed) : Prop :=
  ∃ p, r.Stands rules options files { settled := done.length } done.length (some p) ∧
    Reports options files { settled := done.length } p ∧ AreDone rules files r.events done

/-- A run has stopped: what it reports to be done is what it has counted. -/
def Run.Halts (rules : RuleSet) (options : Options) (files : List SourceFile) (r : Run σ) : Prop :=
  ∃ c p, r.Stands rules options files c p.done (some p) ∧ p.total = files.length

theorem Run.IsBetween.halts {done : List Analyzed} (h : r.IsBetween rules options files done) :
    r.Halts rules options files := by
  obtain ⟨p, stands, reports, -⟩ := h
  have counted : p.done = done.length := reports.done
  exact ⟨_, p, counted ▸ stands, reports.total⟩

theorem between_analyzeFile {done : List Analyzed} (h : r.IsBetween rules options files done)
    {file : SourceFile} {path : Path} (located : file.path? = some path)
    {more : List (SourceFile × Path)}
    (places : done.map Analyzed.place ++ (file, path) :: more = localFiles files)
    (config : Path) (total : Nat) :
    let out := analyzeFile s rules options config total file path r
    (∃ e, out.1 = .error e) ∧ out.2.Halts rules options files ∨
      out.1 = .ok () ∧ ∃ outcome,
        out.2.IsBetween rules options files (done ++ [⟨file, path, outcome⟩]) := by
  intro out
  obtain ⟨p, stands, reports, areDone⟩ := h
  have next : (localFiles files)[done.length]? = some (file, path) := by
    rw [← places, List.getElem?_append_right (by rw [List.length_map]), List.length_map,
      Nat.sub_self]
    rfl
  obtain ⟨failed, c, q, stopped, count, sum⟩ | ⟨passed, ended⟩ :=
    stands_analyzeFile (s := s) stands reports areDone rfl located next config total
  · have counted : q.done = done.length := count.trans reports.done
    exact .inl ⟨failed, c, q, counted ▸ stopped, sum.trans reports.total⟩
  · refine .inr ⟨passed, ?_⟩
    obtain ⟨⟨e, failed⟩, -⟩ | ⟨outcome, -, answered, issues, -⟩ :=
      accounts_analyzeFile s rules options config total file path r
    · cases failed.symm.trans passed
    · have fewer : done.length < files.length := by
        have within : (localFiles files).length ≤ files.length := List.length_filterMap_le _ _
        rw [← places, List.length_append, List.length_map, List.length_cons] at within
        omega
      refine ⟨outcome, (p.startFile file).finishFile, ?_, ?_, ?_, ?_, ?_⟩
      · rw [List.length_append, List.length_singleton]
        exact ended
      · rw [List.length_append, List.length_singleton]
        exact (reports.startFile next).finishFile fewer
      · rw [List.map_append, List.map_singleton, ← places]
        exact ⟨more, List.append_assoc _ _ _⟩
      · rw [List.map_append, List.map_singleton, ← areDone.answered]
        exact answered
      · rw [List.flatMap_append, List.flatMap_singleton, ← areDone.issues]
        exact issues

theorem halts_analyzeFiles (config : Path) (total : Nat) {rest : List SourceFile}
    {done : List Analyzed} (h : r.IsBetween rules options files done)
    (places : done.map Analyzed.place ++ localFiles rest = localFiles files) :
    (analyzeFiles s rules options config total rest r).2.Halts rules options files := by
  induction rest generalizing r done with
  | nil => exact h.halts
  | cons file rest ih =>
    unfold analyzeFiles
    split
    · exact h.halts
    · cases located : file.path? with
      | none =>
        have passed : localFiles (file :: rest) = localFiles rest := by
          simp [localFiles, located]
        rw [passed] at places
        obtain ⟨p, stands, reports, areDone⟩ := h
        refine ih ⟨p, stands.log rfl reports.shows _, reports, ?_⟩ places
        rw [Run.say, Run.log, Run.events_note]
        exact areDone.note rfl
      | some path =>
        have here : localFiles (file :: rest) = (file, path) :: localFiles rest := by
          simp [localFiles, located]
        rw [here] at places
        have step := between_analyzeFile (s := s) h located places config total
        cases analyzed : analyzeFile s rules options config total file path r with
        | mk result r1 =>
          rw [analyzed] at step
          simp only [analyzed]
          obtain ⟨⟨e, failed⟩, halts⟩ | ⟨passed, outcome, between⟩ := step
          · obtain rfl : result = .error e := failed
            exact halts
          · obtain rfl : result = .ok () := passed
            refine ih between ?_
            rw [List.map_append, List.append_assoc]
            exact places

/-! ### Before the files -/

/-- A run has not come to its files: it has reported nothing, and nothing is said about a file. -/
structure Run.IsIdle (rules : RuleSet) (options : Options) (files : List SourceFile) (r : Run σ) :
    Prop where
  stands : r.Stands rules options files {} 0 none
  areDone : AreDone rules files r.events []
  unreported : ∀ m ∈ r.history, m.progress = none

namespace Run.IsIdle

theorem note (h : r.IsIdle rules options files) {e : Event} (aside : Course.concerns e = false) :
    (r.note e).IsIdle rules options files := by
  refine ⟨h.stands.aside rfl aside (fun _ => rfl) fun _ => nofun, ?_, fun m member => ?_⟩
  · rw [Run.events_note]
    exact h.areDone.note (Event.quiet_of_aside aside).2
  · obtain earlier | last := List.mem_append.mp member
    · exact h.unreported m earlier
    · rw [List.mem_singleton.mp last]
      exact h.stands.progress

theorem say (h : r.IsIdle rules options files) (level : Log.Level) (text : String) :
    (r.say level text).IsIdle rules options files := h.note rfl

theorem world (h : r.IsIdle rules options files) (world : σ) :
    ({ r with world } : Run σ).IsIdle rules options files :=
  ⟨h.stands.world world, h.areDone, h.unreported⟩

theorem warn (h : r.IsIdle rules options files) (text : String) :
    (r.warn text).IsIdle rules options files := by
  have warned : ({ r with warnings := r.warnings.add text } : Run σ).IsIdle rules options files :=
    ⟨⟨h.stands.lawful, h.stands.course, h.stands.analyzed, h.stands.progress⟩, h.areDone,
      h.unreported⟩
  exact warned.note rfl

theorem foldl_warn (h : r.IsIdle rules options files) (texts : List String) :
    (texts.foldl Run.warn r).IsIdle rules options files := by
  induction texts generalizing r with
  | nil => exact h
  | cons text rest ih => exact ih (h.warn text)

theorem noticed (h : r.IsIdle rules options files) : (r.noticed s).IsIdle rules options files :=
  foldl_warn ((((h.world _).note rfl).world _).note rfl) _

theorem inquired (h : r.IsIdle rules options files) :
    (r.inquired s).IsIdle rules options files := by
  have told : ∀ {q : Run σ} (info : Option String), q.IsIdle rules options files →
      (info.elim q (q.say .error)).IsIdle rules options files := by
    intro q info idle
    cases info with
    | none => exact idle
    | some text => exact idle.say _ _
  exact told _ ((h.world _).note rfl)

theorem unstarted (h : r.IsIdle rules options files) (e : Worker.Error) :
    (r.unstarted s e).IsIdle rules options files := by
  rw [Run.unstarted]
  split
  · exact h.noticed.inquired
  · exact h.noticed

end Run.IsIdle

theorem idle_storeConfig (h : r.IsIdle rules options files) :
    (storeConfig s rules r).2.IsIdle rules options files := by
  unfold storeConfig
  dsimp only
  split <;> exact (h.world _).note rfl

/-! ### The end of a report -/

/-- A run has come to its end: it reports nothing, and has counted some files. -/
def Run.IsOver (rules : RuleSet) (options : Options) (files : List SourceFile) (r : Run σ) : Prop :=
  ∃ c n, r.Stands rules options files c n none

theorem Run.IsIdle.ended (h : r.IsIdle rules options files) : r.IsOver rules options files :=
  ⟨_, _, h.stands⟩

theorem Run.IsOver.note (h : r.IsOver rules options files) {e : Event}
    (aside : Course.concerns e = false) : (r.note e).IsOver rules options files := by
  obtain ⟨c, n, stands⟩ := h
  exact ⟨_, n, stands.note (.silent aside)⟩

/-- What the last line of a report says, by what has stopped the run: there is such a line if
nothing has, or if it was cancelled.  It counts the files that the run has counted. -/
inductive Closes (total : Nat) : Except Failure Unit × Run σ → Prop
  | stopped {r : Run σ} (before : List Moment)
      (h : r.history =
        before ++ [⟨.logged (Progress.stopLine r.summary.filesAnalyzed total), none⟩]) :
      Closes total (.ok (), r)
  | cancelled {r : Run σ} (before : List Moment)
      (h : r.history =
        before ++ [⟨.logged (Progress.cancelLine r.summary.filesAnalyzed total), none⟩]) :
      Closes total (.error .cancelled, r)
  | failed {e : Failure} (r : Run σ) (other : e ≠ .cancelled) : Closes total (.error e, r)

/-- If a history has a report at all, that begins with its first line. -/
def Opens (total : Nat) (history : List Moment) : Prop :=
  (∀ m ∈ history, m.progress = none) ∨
  ∃ before p after, history = before ++ ⟨.logged (Progress.openingLine total), some p⟩ :: after ∧
    ∀ m ∈ before, m.progress = none

theorem Opens.append {total : Nat} {history more : List Moment} (h : Opens total history)
    (silent : ∀ m ∈ more, m.progress = none) : Opens total (history ++ more) := by
  obtain none | ⟨before, p, after, rfl, none⟩ := h
  · exact .inl (List.forall_mem_append.mpr ⟨none, silent⟩)
  · exact .inr ⟨before, p, after ++ more, by rw [List.append_assoc, List.cons_append], none⟩

theorem opens_analyzeReporting (h : r.IsIdle rules options files) (config : Path) :
    Opens files.length (analyzeReporting s rules options config files r).2.history := by
  obtain ⟨after, history, -⟩ := goes_announced (s := s) rules options config files r
  let p := Progress.start (s.now r.world) files.length options.progressInterval
  have announced : (r.announced s options files.length).history =
      r.history ++ [⟨.logged (Progress.openingLine files.length), some p⟩] := by
    rw [← show p.startRecord = Progress.openingLine files.length from Progress.startRecord_eq p]
    rfl
  refine .inr ⟨r.history, p, after, ?_, h.unreported⟩
  rw [history, announced, List.append_assoc, List.singleton_append]

theorem closes_analyzeReporting (h : r.IsIdle rules options files) (config : Path) :
    (analyzeReporting s rules options config files r).2.IsOver rules options files ∧
      Closes files.length (analyzeReporting s rules options config files r) := by
  let p := Progress.start (s.now r.world) files.length options.progressInterval
  have reports : Reports options files {} p := ⟨rfl, rfl, rfl, Nat.zero_le _, rfl⟩
  have started : (Run.log { r with progress := some p } p.startRecord).IsBetween rules options
      files [] := by
    have stands : ({ r with progress := some p } : Run σ).Stands rules options files {} 0
        (some p) :=
      ⟨h.stands.lawful, h.stands.course, h.stands.analyzed, rfl⟩
    refine ⟨p, stands.log rfl reports.shows _, reports, ?_⟩
    rw [Run.log, Run.events_note]
    exact h.areDone.note rfl
  have halts := halts_analyzeFiles (s := s) config files.length started rfl
  unfold analyzeReporting
  dsimp only
  cases ran : analyzeFiles s rules options config files.length files
      (Run.log { r with progress := some p } p.startRecord) with
  | mk result r1 =>
    rw [ran] at halts
    obtain ⟨c, q, stands, total⟩ := halts
    have progress : r1.progress = some q := stands.progress
    have counted : r1.summary.filesAnalyzed = q.done := stands.analyzed
    have ended : ({ r1 with progress := none } : Run σ).IsOver rules options files :=
      ⟨c, q.done, stands.lawful, stands.course, stands.analyzed, rfl⟩
    rw [progress]
    cases result with
    | ok =>
      have line : q.stopRecord = Progress.stopLine r1.summary.filesAnalyzed files.length := by
        rw [counted, ← total, Progress.stopRecord_eq]
      refine ⟨ended.note rfl, .stopped r1.history ?_⟩
      show r1.history ++ [⟨.logged q.stopRecord, none⟩] = _
      rw [line]
      rfl
    | error e =>
      cases e with
      | cancelled =>
        have line : q.cancelRecord =
            Progress.cancelLine r1.summary.filesAnalyzed files.length := by
          rw [counted, ← total, Progress.cancelRecord_eq]
        refine ⟨ended.note rfl, .cancelled r1.history ?_⟩
        show r1.history ++ [⟨.logged q.cancelRecord, none⟩] = _
        rw [line]
        rfl
      | _ => exact ⟨ended, .failed _ nofun⟩

/-! ### Whole runs -/

/-- How a run over files ends: it never came to report anything, or its report begins and ends with
the lines that it should. -/
theorem over_runFiles (h : r.IsIdle rules options files) :
    (runFiles s rules options files r).2.IsOver rules options files ∧
      Opens files.length (runFiles s rules options files r).2.history ∧
      (Closes files.length (runFiles s rules options files r) ∨
        (runFiles s rules options files r).1 ≠ .ok () ∧
          (runFiles s rules options files r).2.IsIdle rules options files) := by
  have way := proceeds (s := s) rules options files r
  generalize runFiles s rules options files r = out at way
  have stored := idle_storeConfig (s := s) h
  cases way with
  | cancelled stopped => exact ⟨h.ended, .inl h.unreported, .inr ⟨nofun, h⟩⟩
  | unstored going storing =>
    rw [storing] at stored
    exact ⟨stored.ended, .inl stored.unreported, .inr ⟨nofun, stored⟩⟩
  | unstarted going storing starting =>
    rw [storing] at stored
    have idle := stored.unstarted (s := s) ‹_›
    exact ⟨idle.ended, .inl idle.unreported, .inr ⟨nofun, idle⟩⟩
  | @started config stored' going storing starting =>
    rw [storing] at stored
    have noticed := stored.noticed (s := s)
    obtain ⟨ended, closes⟩ := closes_analyzeReporting (s := s) noticed config
    exact ⟨ended, opens_analyzeReporting noticed config, .inl closes⟩

theorem idle_start (rules : RuleSet) (options : Options) (files : List SourceFile) (world : σ)
    (warnings : WarningList) : ({ world, warnings } : Run σ).IsIdle rules options files := by
  refine ⟨⟨fun before m after split => ?_, rfl, rfl, rfl⟩, ⟨List.nil_prefix, rfl, rfl⟩, ?_⟩
  · exact absurd split.symm (List.append_ne_nil_of_right_ne_nil _ (List.cons_ne_nil _ _))
  · exact fun _ member => absurd member List.not_mem_nil

theorem Run.IsIdle.summary (h : r.IsIdle rules options files) {summary : Summary}
    (none : summary.filesAnalyzed = 0) : ({ r with summary } : Run σ).IsIdle rules options files :=
  ⟨⟨h.stands.lawful, h.stands.course, none, h.stands.progress⟩, h.areDone, h.unreported⟩

theorem Run.IsOver.summary (h : r.IsOver rules options files) (summary : Summary) :
    ({ r with summary } : Run σ).IsOver rules options files := by
  obtain ⟨c, n, stands⟩ := h
  exact ⟨c, _, stands.lawful, stands.course, rfl, stands.progress⟩

theorem Run.IsOver.degraded (h : r.IsOver rules options files) (e : Failure) :
    (r.degraded e).IsOver rules options files := by
  obtain ⟨c, n, stands⟩ := h.note (e := .logged
    { level := .error, origin := .analysis, text := s!"Failure during analysis: {e.message}" }) rfl
  have warned : ({ r.say .error s!"Failure during analysis: {e.message}" with
      warnings := r.warnings.add (warningAbout e) } : Run σ).IsOver rules options files :=
    ⟨c, n, stands.lawful, stands.course, stands.analyzed, stands.progress⟩
  exact (warned.note (e := .warned (warningAbout e)) rfl).summary _

/-- The line that says that a run over files was cancelled. -/
def interruptedLine (analyzed : Nat) : Log.Record where
  level := .info
  origin := .analysis
  text := "Analysis interrupted because the host cancelled it"
  cause := ""
  fields := [("analyzed", .number analyzed)]

/-- What is reported in a run over some files, however it ends.  The last line of the report of a
run that is completed, and of one that is cancelled once it has begun to report, counts the files
that the summary counts. -/
structure IsFaithful (rules : RuleSet) (options : Options) (files : List SourceFile)
    (out : Except Failure Summary × Run σ) : Prop where
  moments : ∀ before m after, out.2.history = before ++ m :: after →
    IsReported rules options files (before.map (·.event)) m
  opened : Opens files.length out.2.history
  completed : ∀ summary, out.1 = .ok summary → summary.status = .completed →
    ∃ before, out.2.history =
      before ++ [⟨.logged (Progress.stopLine summary.filesAnalyzed files.length), none⟩]
  cancelled : ∀ summary, out.1 = .ok summary → summary.status = .cancelled →
    (∀ m ∈ out.2.history, m.progress = none) ∨
    ∃ before, out.2.history =
      before ++ [⟨.logged (Progress.cancelLine summary.filesAnalyzed files.length), none⟩,
        ⟨.logged (interruptedLine summary.filesAnalyzed), none⟩]

/-- The line that says that a run was cancelled comes after the last one of its report, if it has
begun to report. -/
theorem faithful_cancelled (ended : r.IsOver rules options files)
    (opened : Opens files.length r.history)
    (ending : Closes files.length (.error .cancelled, r) ∨ r.IsIdle rules options files) :
    IsFaithful rules options files (.ok r.cancelled.summary, r.cancelled) := by
  obtain ⟨c, n, stands⟩ := (ended.note (e := .logged (interrupted r.summary.filesAnalyzed))
    rfl).summary { r.summary with status := .cancelled }
  have progress : r.progress = none := stands.progress
  have last : r.cancelled.history =
      r.history ++ [⟨.logged (interruptedLine r.summary.filesAnalyzed), none⟩] := by
    rw [← progress]
    rfl
  refine ⟨stands.lawful, ?_, ?_, ?_⟩
  · rw [last]
    exact opened.append (List.forall_mem_singleton.mpr rfl)
  · rintro _ ⟨⟩ ⟨⟩
  · rintro _ ⟨⟩ -
    rw [last]
    obtain closes | idle := ending
    · cases closes with
      | cancelled before h =>
        refine .inr ⟨before, ?_⟩
        rw [h, List.append_assoc]
        rfl
      | failed _ other => exact absurd rfl other
    · exact .inl (List.forall_mem_append.mpr
        ⟨idle.unreported, List.forall_mem_singleton.mpr rfl⟩)

/-- A run over files is faithful if its report is and if it has no status of its own yet. -/
theorem faithful_conclude {out : Except Failure Unit × Run σ}
    (ended : out.2.IsOver rules options files) (opened : Opens files.length out.2.history)
    (ending : Closes files.length out ∨ out.1 ≠ .ok () ∧ out.2.IsIdle rules options files)
    (status : out.2.summary.status = .completed) :
    IsFaithful rules options files (conclude options out) := by
  have ends := concludes options out
  generalize conclude options out = result at ends ⊢
  cases ends with
  | completed r =>
    obtain ⟨c, n, stands⟩ := ended
    refine ⟨stands.lawful, opened, ?_, ?_⟩
    · rintro _ ⟨⟩ -
      obtain ⟨⟨before, h⟩⟩ | ⟨failed, -⟩ := ending
      · exact ⟨before, h⟩
      · exact absurd rfl failed
    · rintro _ ⟨⟩ cancelled
      cases status.symm.trans cancelled
  | cancelled r => exact faithful_cancelled ended opened (ending.imp_right And.right)
  | raised r failed =>
    obtain ⟨c, n, stands⟩ := ended
    exact ⟨stands.lawful, opened, nofun, nofun⟩
  | @degraded e r failed =>
    have progress : r.progress = none := by
      obtain ⟨c, n, stands⟩ := ended
      exact stands.progress
    obtain ⟨c, n, stands⟩ := Run.IsOver.degraded ended e
    have warned : Opens files.length (r.degraded e).history := by
      have silent {event : Event} : (⟨event, r.progress⟩ : Moment).progress = none := progress
      exact (opened.append (List.forall_mem_singleton.mpr silent)).append
        (List.forall_mem_singleton.mpr silent)
    refine ⟨stands.lawful, warned, ?_, ?_⟩ <;> rintro _ ⟨⟩ ⟨⟩

theorem faithful_execute (s : Surroundings σ) (rules : RuleSet) (options : Options)
    (warnings : WarningList) (world : σ) :
    IsFaithful rules options ((s.files world).1.filter isEligible)
      (execute s rules options warnings world) := by
  let files := (s.files world).1.filter isEligible
  let out := execute s rules options warnings world
  show IsFaithful rules options files out
  have start := idle_start rules options files (s.files world).2 warnings
  have listed := start.note (e := .listedFiles (s.files world).1) rfl
  cases empty : rules.isEmpty with
  | true =>
    have idle := idle_start rules options files world warnings
    simp only [out, execute_of_isEmpty options warnings empty]
    have said := idle.say .warn "No rules are activated in CSS Quality Profile"
    refine ⟨said.stands.lawful, .inl said.unreported, ?_, ?_⟩ <;> rintro _ ⟨⟩ ⟨⟩
  | false =>
    by_cases some : files = []
    · simp only [out, execute_of_none options warnings empty some]
      have said := listed.say .info "No CSS files to analyze"
      refine ⟨said.stands.lawful, .inl said.unreported, ?_, ?_⟩ <;> rintro _ ⟨⟩ ⟨⟩
    · have opened : (Run.opened s warnings world files.length).IsIdle rules options files :=
        listed.summary rfl
      obtain ⟨ended, begun, ending⟩ := over_runFiles (s := s) opened
      have status := status_runFiles (s := s) rules options files
        (Run.opened s warnings world files.length)
      rw [show out = conclude options _ from execute_of_some options warnings empty some]
      exact faithful_conclude ended begun ending status

/-- A report strikes when the time has come and not otherwise, shows what is done and what is
current, and ends when it is to; and a run reports what it has done.  No interval passes in a life
that is beyond what the clock can tell. -/
theorem progress_faithful (before : List Progress.Step) (total : Nat) (interval : Duration)
    (life : List Progress.Step) (living : ∀ step ∈ life, step.continues)
    (tellable : Progress.IsTellable interval (Progress.waited life)) (s : Surroundings σ)
    (rules : RuleSet) (options : Options) (warnings : WarningList) (world : σ) :
    Progress.IsTimely (Progress.after none (before ++ [.start total interval])) total interval
        life ∧
      IsFaithful rules options ((s.files world).1.filter isEligible)
        (execute s rules options warnings world) :=
  ⟨Progress.timely before total interval living tellable,
    faithful_execute s rules options warnings world⟩

end Steps

/-- One file is started, and three intervals pass in two waits, before and after it is finished; and
a run is cancelled while its worker starts. -/
theorem progress_faithful_cutShort :
    let file : SourceFile := { url := ⟨"untitled", none, "1", none, none⟩ }
    let life : List Progress.Step := [.startFile file, .wait ⟨25⟩, .finishFile, .wait ⟨7⟩]
    let rules : RuleSet :=
      ⟨⟨[("block-no-empty", ⟨"css", "S4658"⟩)]⟩, ⟨[("block-no-empty", .bool true)]⟩⟩
    (∀ step ∈ life, step.continues) ∧ Progress.IsTellable ⟨10⟩ (Progress.waited life) ∧
      Progress.IsTimely (Progress.after none [.start 1 ⟨10⟩]) 1 ⟨10⟩ life ∧
      IsFaithful rules {} Script.cutShort.files
        (execute Script.surroundings rules {} {} Script.cutShort) := by
  intro file life rules
  have living : ∀ step ∈ life, step.continues := by decide
  have tellable : Progress.IsTellable ⟨10⟩ (Progress.waited life) := fun _ => by decide
  exact ⟨living, tellable, progress_faithful [] 1 ⟨10⟩ life living tellable Script.surroundings
    rules {} {} Script.cutShort⟩

end LintBridge.Analysis
