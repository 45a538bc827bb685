import LintBridge.Proofs.Analysis.Interruption
import LintBridge.Proofs.Analysis.Passage
import LintBridge.Proofs.Analysis.Succession
import LintBridge.Proofs.Worker.Verdicts

/-! Syntax errors in a run.  A run has one sheet for each answer of its worker, in order.  A sheet
whose findings say that it cannot be parsed is counted, adds no issue, and the run goes on with the
file after it: `syntaxErrors_kept_apart`. -/

namespace LintBridge.Analysis

open LintBridge.Worker (Supervised Platform HasSyntaxError Verdict outcomeOf)

variable {σ : Type}

/-! ### Sheets -/

/-- A style sheet that was analyzed, and the findings with which the worker answered. -/
structure Sheet where
  file : SourceFile
  path : Path
  findings : List Diagnostic

namespace Sheet

def place (a : Sheet) : SourceFile × Path := (a.file, a.path)

def answer (a : Sheet) : Path × List Diagnostic := (a.path, a.findings)

/-- The issues of a sheet: those of its findings whose rules are active, if it can be parsed. -/
def issues (rules : RuleSet) (a : Sheet) : List Issue :=
  if HasSyntaxError a.findings then [] else a.findings.filterMap (issueOf? rules a.file)

def analyzed (a : Sheet) : Analyzed := ⟨a.file, a.path, outcomeOf a.findings⟩

theorem issues_analyzed (rules : RuleSet) (a : Sheet) :
    a.analyzed.issues rules = a.issues rules := by
  unfold issues
  split
  next bad =>
    obtain ⟨line, message, failed⟩ := Worker.outcomeOf_of_hasSyntaxError bad
    simp only [analyzed, Analyzed.issues, failed, issuesOf]
  next fine => simp only [analyzed, Analyzed.issues, Worker.outcomeOf_of_not fine, issuesOf]

theorem isFailure_analyzed (a : Sheet) :
    isFailure a.analyzed.outcome = decide (HasSyntaxError a.findings) := by
  by_cases bad : HasSyntaxError a.findings
  · obtain ⟨line, message, failed⟩ := Worker.outcomeOf_of_hasSyntaxError bad
    simp only [analyzed, failed, isFailure, bad, decide_true]
  · simp only [analyzed, Worker.outcomeOf_of_not bad, isFailure, bad, decide_false]

/-- Every issue of a sheet is that of a finding, and none of its findings is a syntax error. -/
theorem mem_issues {rules : RuleSet} {a : Sheet} {issue : Issue} (h : issue ∈ a.issues rules) :
    ¬ HasSyntaxError a.findings ∧ ∃ d ∈ a.findings, issueOf? rules a.file d = some issue := by
  unfold issues at h
  split at h
  · cases h
  next fine => exact ⟨fine, List.mem_filterMap.mp h⟩

end Sheet

/-- Outcomes that come from findings are those of sheets with these findings. -/
theorem exists_sheets {done : List Analyzed} {given : List (Path × List Diagnostic)}
    (h : done.map (fun a => (a.path, a.outcome)) = given.map fun g => (g.1, outcomeOf g.2)) :
    ∃ sheets : List Sheet, done = sheets.map Sheet.analyzed ∧ given = sheets.map Sheet.answer := by
  induction done generalizing given with
  | nil =>
    rw [List.map_nil, eq_comm, List.map_eq_nil_iff] at h
    exact ⟨[], rfl, h⟩
  | cons a done ih =>
    cases given with
    | nil => cases h
    | cons g given =>
      obtain ⟨here, rest⟩ := List.cons.inj h
      obtain ⟨path, outcome⟩ := Prod.mk.inj here
      obtain ⟨sheets, rfl, rfl⟩ := ih rest
      obtain ⟨file, path', outcome'⟩ := a
      dsimp only at path outcome
      subst path outcome
      exact ⟨⟨file, g.1, g.2⟩ :: sheets, rfl, rfl⟩

/-! ### What the worker answers -/

/-- The analyses among events that were answered with an outcome. -/
def answeredIn (events : List Event) : List (Path × Outcome) :=
  events.filterMap fun e => match e with
    | .askedAnalysis request (some (.ok outcome)) => some (request.file, outcome)
    | _ => none

theorem answered_eq_answeredIn (r : Run σ) : r.answered = answeredIn r.events := rfl

/-- The outcome of an analysis that was answered with one. -/
def outcome? (answer : Option (Except Worker.Error Outcome)) : Option Outcome :=
  answer.bind Except.toOption

theorem answeredIn_analysis (request : Request) (answer : Option (Except Worker.Error Outcome)) :
    answeredIn [.askedAnalysis request answer] =
      ((outcome? answer).map fun outcome => (request.file, outcome)).toList := by
  match answer with
  | none | some (.error e) | some (.ok outcome) => rfl

theorem answeredIn_append (xs ys : List Event) :
    answeredIn (xs ++ ys) = answeredIn xs ++ answeredIn ys := List.filterMap_append

/-- What a worker answered while some events happened, and what the run made of it. -/
def Tells (v : Supervised σ) (events : List Event) (v' : Supervised σ) : Prop :=
  ∃ given : List (Path × List Diagnostic), v'.answers = v.answers ++ given ∧
    answeredIn events = given.map fun g => (g.1, outcomeOf g.2)

theorem Tells.nothing {v v' : Supervised σ} {events : List Event}
    (kept : v'.analyses = v.analyses) (none : answeredIn events = []) : Tells v events v' := by
  refine ⟨[], ?_, none⟩
  rw [Supervised.answers, kept, List.append_nil]
  rfl

theorem Tells.append {v w v' : Supervised σ} {xs ys : List Event} (first : Tells v xs w)
    (rest : Tells w ys v') : Tells v (xs ++ ys) v' := by
  obtain ⟨given, answers, told⟩ := first
  obtain ⟨given', answers', told'⟩ := rest
  refine ⟨given ++ given', ?_, ?_⟩
  · rw [answers', answers, List.append_assoc]
  · rw [answeredIn_append, told, told', List.map_append]

section Host

variable (h : Host σ) (p : Platform σ)

/-- An analysis that is asked for is answered by findings, or the run has no outcome for it. -/
theorem tells_analyze (request : Request) (v : Supervised σ) :
    Tells v [.askedAnalysis request ((h.surroundings p).analyze request v).1]
      ((h.surroundings p).analyze request v).2 := by
  simp only [Host.surroundings]
  cases held : v.supervisor.worker with
  | none => exact .nothing rfl rfl
  | some worker =>
    simp only [Host.ask?]
    have asked := Supervised.analyses_analyze p v worker request
    generalize v.ask p worker (.analyze request) = q at asked ⊢
    refine ⟨(q.1.findings?.map fun findings => (request.file, findings)).toList, ?_, ?_⟩
    · rw [Supervised.answers, asked, List.filterMap_append]
      cases found : q.1.findings? <;> simp [Supervised.answers, found]
    · have taken := Worker.readReply_findings request q.1
      rw [answeredIn_analysis]
      split
      next open_ =>
        rw [open_.1]
        rfl
      next =>
        simp only [outcome?, Option.map_some, Option.bind_some, taken]
        cases q.1.findings? <;> rfl

theorem tells_yields {v w : Supervised σ} {e : Event} (yields : (h.surroundings p).Yields v e w) :
    Tells v [e] w := by
  cases yields with
  | startedWorker => exact .nothing (by simp [Host.surroundings]) rfl
  | tookNotices => exact .nothing (by simp [Host.surroundings]) rfl
  | askedAlive going =>
    refine .nothing ?_ rfl
    simp only [Host.surroundings]
    cases v.supervisor.worker with
    | none => rfl
    | some worker => exact Supervised.analyses_status p v worker
  | askedAnalysis request going => exact tells_analyze h p request v
  | _ => exact .nothing rfl rfl

/-- The outcomes of a run are what the findings of the worker come to, answer by answer. -/
theorem tells_passes {v v' : Supervised σ} {events : List Event}
    (passes : (h.surroundings p).Passes v events v') : Tells v events v' := by
  induction passes with
  | nil v => exact .nothing rfl rfl
  | cons first rest ih => exact (tells_yields h p first).append ih

end Host

/-! ### Sheet by sheet -/

/-- A file whose analysis comes to its end is followed by the files after it. -/
theorem analyzeFiles_cons {s : Surroundings σ} {rules : RuleSet} {options : Options} {config : Path}
    {total : Nat} {file : SourceFile} {path : Path} {r : Run σ} (located : file.path? = some path)
    (passed : (analyzeFile s rules options config total file path r).1 = .ok ())
    (rest : List SourceFile) :
    analyzeFiles s rules options config total (file :: rest) r =
      analyzeFiles s rules options config total rest
        (analyzeFile s rules options config total file path r).2 := by
  have going : ¬ s.isCancelled r.world = true := by
    intro cancelled
    simp only [analyzeFile, askAlive, if_pos cancelled] at passed
    cases passed
  rw [analyzeFiles, if_neg going, located]
  rcases analyzed : analyzeFile s rules options config total file path r with ⟨result, r'⟩
  rw [analyzed] at passed
  obtain rfl : result = .ok () := passed
  simp only [analyzed]

/-- A sheet is entered in the accounts of a run. -/
structure Sheet.Entered (rules : RuleSet) (a : Sheet) (r r' : Run σ) : Prop where
  issues : r'.issues = r.issues ++ a.issues rules
  analyzed : r'.summary.filesAnalyzed = r.summary.filesAnalyzed + 1
  saved : r'.summary.issuesSaved = r.summary.issuesSaved + (a.issues rules).length
  failures : r'.summary.parseFailures =
    r.summary.parseFailures + if HasSyntaxError a.findings then 1 else 0

section Sheets

variable (h : Host σ) (p : Platform σ) (rules : RuleSet) (options : Options)

/-- A file for which the worker answers with findings is analyzed and entered. -/
theorem entered_analyzeFile (config : Path) (total : Nat) (a : Sheet) (r : Run (Supervised σ)) :
    let out := analyzeFile (h.surroundings p) rules options config total a.file a.path r
    out.2.world.answers = r.world.answers ++ [a.answer] →
    out.1 = .ok () ∧ a.Entered rules r out.2 := by
  intro out told
  obtain ⟨events, happened, passes⟩ :=
    (goes_analyzeFile (s := h.surroundings p) rules options config total a.file a.path r).events
  obtain ⟨given, answers, outcomes⟩ := tells_passes h p passes
  obtain rfl : given = [a.answer] := List.append_cancel_left (answers.symm.trans told)
  have answered : out.2.answered = r.answered ++ [(a.path, outcomeOf a.findings)] := by
    rw [answered_eq_answeredIn, happened, answeredIn_append, outcomes]
    rfl
  obtain ⟨-, same⟩ | ⟨outcome, passed, told, issues, analyzed, saved, failures⟩ :=
    accounts_analyzeFile (h.surroundings p) rules options config total a.file a.path r
  · -- there is one answer more, so there is one outcome more
    rw [same] at answered
    simp at answered
  · obtain rfl : outcome = outcomeOf a.findings := by
      have last := List.append_cancel_left (told.symm.trans answered)
      simpa using last
    rw [show issuesOf rules a.file (outcomeOf a.findings) = a.issues rules from
      a.issues_analyzed rules] at issues saved
    rw [show isFailure (outcomeOf a.findings) = _ from a.isFailure_analyzed] at failures
    exact ⟨passed, issues, analyzed, saved, by simpa using failures⟩

/-- The accounts of a run are those of its sheets, one for each answer with findings. -/
theorem sheets_execute (warnings : WarningList) (s : Supervised σ) :
    let eligible := (h.files s.world).1.filter isEligible
    let out := execute (h.surroundings p) rules options warnings s
    ∃ sheets : List Sheet,
      out.2.world.answers = s.answers ++ sheets.map Sheet.answer ∧
      sheets.map Sheet.place <+: localFiles eligible ∧
      out.2.issues = sheets.flatMap (Sheet.issues rules) ∧
      out.2.summary.filesAnalyzed = sheets.length ∧
      out.2.summary.issuesSaved = (sheets.flatMap (Sheet.issues rules)).length ∧
      out.2.summary.parseFailures = sheets.countP (fun a => HasSyntaxError a.findings) ∧
      ∀ summary, out.1 = .ok summary → summary.status = .completed →
        sheets.map Sheet.place = localFiles eligible := by
  intro eligible out
  obtain ⟨given, answers, outcomes⟩ :=
    tells_passes h p (passes_execute (h.surroundings p) rules options warnings s)
  obtain ⟨done, answered, accounts⟩ :=
    accounts_execute (h.surroundings p) rules options warnings s
  obtain ⟨sheets, rfl, rfl⟩ := exists_sheets (answered.symm.trans outcomes)
  have issues : (sheets.map Sheet.analyzed).flatMap (Analyzed.issues rules) =
      sheets.flatMap (Sheet.issues rules) := by
    rw [List.flatMap_map]
    exact congrArg (sheets.flatMap ·) (funext (Sheet.issues_analyzed rules))
  have failures : (sheets.map Sheet.analyzed).countP (fun a => isFailure a.outcome) =
      sheets.countP fun a => HasSyntaxError a.findings := by
    rw [List.countP_map]
    exact congrArg (sheets.countP ·) (funext Sheet.isFailure_analyzed)
  have places : (sheets.map Sheet.analyzed).map Analyzed.place = sheets.map Sheet.place := by
    rw [List.map_map]
    rfl
  rw [issues, failures, places, List.length_map] at accounts
  exact ⟨sheets, answers, accounts⟩

end Sheets

/-- A syntax error, wherever it stands among the findings in an answer, is all that they come to.
Whatever the worker answers and whichever rules are active, a file for which it answers is counted
as analyzed, and the run goes on with the files after it; if there is a syntax error in the answer
the file is counted as one that cannot be parsed, and no issue comes from it.  So all issues of a
run come from answers in which there is none. -/
theorem syntaxErrors_kept_apart :
    (∀ findings, Verdict findings (outcomeOf findings)) ∧
    ∀ {σ : Type} (h : Host σ) (p : Platform σ) (rules : RuleSet) (options : Options),
      (∀ (config : Path) (total : Nat) (a : Sheet) (r : Run (Supervised σ)),
        let out := analyzeFile (h.surroundings p) rules options config total a.file a.path r
        a.file.path? = some a.path → out.2.world.answers = r.world.answers ++ [a.answer] →
        a.Entered rules r out.2 ∧
        (HasSyntaxError a.findings → out.2.issues = r.issues) ∧
        ∀ rest, analyzeFiles (h.surroundings p) rules options config total (a.file :: rest) r =
          analyzeFiles (h.surroundings p) rules options config total rest out.2) ∧
      ∀ (warnings : WarningList) (s : Supervised σ),
        let eligible := (h.files s.world).1.filter isEligible
        let out := execute (h.surroundings p) rules options warnings s
        ∃ sheets : List Sheet,
          out.2.world.answers = s.answers ++ sheets.map Sheet.answer ∧
          sheets.map Sheet.place <+: localFiles eligible ∧
          out.2.issues = sheets.flatMap (Sheet.issues rules) ∧
          (∀ issue ∈ out.2.issues, ∃ a ∈ sheets, ¬ HasSyntaxError a.findings ∧
            ∃ d ∈ a.findings, issueOf? rules a.file d = some issue) ∧
          out.2.summary.filesAnalyzed = sheets.length ∧
          out.2.summary.issuesSaved = (sheets.flatMap (Sheet.issues rules)).length ∧
          out.2.summary.parseFailures = sheets.countP (fun a => HasSyntaxError a.findings) ∧
          ∀ summary, out.1 = .ok summary → summary = out.2.summary ∧
            (summary.status = .completed → sheets.map Sheet.place = localFiles eligible) := by
  refine ⟨Worker.verdict_outcomeOf, fun h p rules options => ⟨?_, fun warnings s => ?_⟩⟩
  · intro config total a r out located told
    obtain ⟨passed, entered⟩ := entered_analyzeFile h p rules options config total a r told
    refine ⟨entered, fun bad => ?_, analyzeFiles_cons located passed⟩
    rw [entered.issues, Sheet.issues, if_pos bad, List.append_nil]
  · intro eligible out
    obtain ⟨sheets, answers, places, issues, analyzed, saved, failures, complete⟩ :=
      sheets_execute h p rules options warnings s
    refine ⟨sheets, answers, places, issues, fun issue given => ?_, analyzed, saved, failures,
      fun summary ended => ⟨summary_of_ok rules options warnings s ended, complete summary ended⟩⟩
    rw [issues] at given
    obtain ⟨a, member, own⟩ := List.mem_flatMap.mp given
    exact ⟨a, member, a.mem_issues own⟩

/-! ### A broken sheet -/

/-- A system in which every process comes up and answers every analysis alike. -/
def repeating (text : String) : Platform Unit where
  isDir _ w := (true, w)
  isFile _ w := (true, w)
  freePort w := (.ok 40000, w)
  checkRuntime command w := (.error (.notFound command), w)
  newClient _ w := (.ok (), w)
  spawn _ _ w := (.ok (), w)
  awaitStartup _ _ _ w := (.listening, w)
  exitStatus _ w := (none, w)
  kill _ w := w
  terminate _ w := w
  send _ call w :=
    match call with
    | .analyze _ => (.reply ⟨200, some text⟩, w)
    | .status | .close => (.reply ⟨200, some Worker.aliveText⟩, w)

def brokenAnswer : String := "[[1,\"r\",\"t\"],[3,\"CssSyntaxError\",\"(CssSyntaxError)\"]]"

def brokenSheet : Sheet where
  file := { url := ⟨"file", none, "/a.css", none, none⟩ }
  path := .ofString "/a.css"
  findings := [⟨1, "r", "t"⟩, ⟨3, "CssSyntaxError", "(CssSyntaxError)"⟩]

theorem parse?_brokenAnswer : Json.parse? brokenAnswer = some (.array
    [.array [.nat 1, .text "r", .text "t"],
      .array [.nat 3, .text "CssSyntaxError", .text "(CssSyntaxError)"]]) := by
  unfold Json.parse? brokenAnswer
  rw [← String.length_toList]
  simp only [String.reduceToList]
  rfl

theorem isAnswer_brokenAnswer : Worker.IsAnswer brokenAnswer brokenSheet.findings := by
  refine Worker.isAnswer_iff.mp ?_
  rw [parse?_brokenAnswer]
  rfl

/-- A run that has started a worker. -/
def begunRun : Run (Supervised Unit) where
  world := { supervisor := { bundle := default, phase := .running, worker := some ⟨0, 40000⟩ }
             world := () }
  warnings := {}

/-- Though the rule of one finding is active, nothing comes of a sheet with a syntax error but that
it is counted, and the run goes on. -/
theorem syntaxErrors_kept_apart_brokenSheet :
    let s := (Host.patient []).surroundings (repeating brokenAnswer)
    let rules : RuleSet :=
      ⟨⟨[("r", ⟨"css", "S1"⟩)]⟩, ⟨[("r", .bool true)]⟩⟩
    ∀ rest, ∃ r, r.issues = [] ∧ r.summary.parseFailures = 1 ∧
      analyzeFiles s rules {} brokenSheet.path 2 (brokenSheet.file :: rest) begunRun =
        analyzeFiles s rules {} brokenSheet.path 2 rest r := by
  intro s rules rest
  have bad : HasSyntaxError brokenSheet.findings := by decide
  let request : Request := ⟨brokenSheet.path, none, brokenSheet.path⟩
  let answer : Worker.Answer := .reply ⟨200, some brokenAnswer⟩
  let asking := showFile brokenSheet.file (askAlive s begunRun).2
  have told : (analyzeFile s rules {} brokenSheet.path 2 brokenSheet.file brokenSheet.path
      begunRun).2.world.answers = begunRun.world.answers ++ [brokenSheet.answer] := by
    have ran : analyzeFile s rules {} brokenSheet.path 2 brokenSheet.file brokenSheet.path
        begunRun =
        match askAnalysis s request asking with
        | (.error e, r) => (.error e, r)
        | (.ok outcome, r) =>
          (.ok (), countFile (saveOutcome s rules brokenSheet.file r outcome)) := rfl
    have replied : s.analyze request asking.world =
        (some (Worker.readReply request answer.reply?), _) := rfl
    have taken : Worker.readReply request answer.reply? = .ok (outcomeOf brokenSheet.findings) :=
      Worker.readAnswer_of_isAnswer request isAnswer_brokenAnswer
    have found : answer.findings? = some brokenSheet.findings :=
      Worker.Answer.findings?_eq_some.mpr ⟨_, rfl, isAnswer_brokenAnswer⟩
    obtain ⟨line, message, failed⟩ := Worker.outcomeOf_of_hasSyntaxError bad
    rw [ran, askAnalysis, replied, taken, failed]
    show [(request, answer)].filterMap (fun a => a.2.findings?.map fun findings =>
      (a.1.file, findings)) = _
    rw [List.filterMap_cons, found]
    rfl
  obtain ⟨entered, silent, onward⟩ := (syntaxErrors_kept_apart.2 (Host.patient [])
    (repeating brokenAnswer) rules {}).1 brokenSheet.path 2 brokenSheet begunRun (by decide) told
  exact ⟨_, silent bad, entered.failures.trans (by rw [if_pos bad]; rfl), onward rest⟩

end LintBridge.Analysis
