import LintBridge.Analysis.Script
import LintBridge.Proofs.Analysis.Dialogue

/-! What cancelling a run comes to, wherever that happens.  A watched run shows no analysis after a
call that left it cancelled (`Timeline`), and a run that is found cancelled ends without an error
and without a warning of its own: `execute_interrupted`. -/

namespace LintBridge.Analysis

variable {σ : Type}

/-! ### What was seen -/

/-- What can be seen of a run that stays cancelled: after a call that left it so, no analysis. -/
structure Timeline (s : Surroundings σ) (w : Watched σ) : Prop where
  lasting : ∀ c ∈ w.seen, c.cancelled = true → s.isCancelled w.world = true
  ordered : w.seen.Pairwise fun c d => c.cancelled = true → d.isAnalysis = false

theorem timeline_begin (s : Surroundings σ) (world : σ) : Timeline s (Watched.begin s world) where
  lasting := by
    intro c member cancelled
    obtain rfl := List.mem_singleton.mp member
    exact cancelled
  ordered := List.pairwise_singleton _ _

theorem Timeline.after {s : Surroundings σ} (stays : s.StaysCancelled) {w : Watched σ}
    {call : Surroundings.Call} {v : σ} (leads : s.Leads w.world call v) (line : Timeline s w) :
    Timeline s (w.after s call v) where
  lasting := by
    intro c member cancelled
    rcases List.mem_append.mp member with old | new
    · exact stays leads (line.lasting c old cancelled)
    · obtain rfl := List.mem_singleton.mp new
      exact cancelled
  ordered := by
    refine List.pairwise_append.mpr ⟨line.ordered, List.pairwise_singleton _ _, ?_⟩
    intro c old d new cancelled
    obtain rfl := List.mem_singleton.mp new
    -- an analysis is a call of a run that is not cancelled, and this one has been since `c`
    refine Bool.eq_false_iff.mpr fun analysis => ?_
    exact absurd (line.lasting c old cancelled) (Bool.eq_false_iff.mp (leads.going analysis))

/-! ### Where the run is cancelled -/

section Reached

variable {s : Surroundings σ} {rules : RuleSet} {options : Options} {config : Path} {total : Nat}

/-- A run of some files comes to the end of the first ones, as the state in which it goes on from
there. -/
def Reaches (s : Surroundings σ) (rules : RuleSet) (options : Options) (files : List SourceFile)
    (r : Run σ) (before : List SourceFile) (reached : Run σ) : Prop :=
  s.isCancelled r.world = false ∧
  ∃ config stored started, storeConfig s rules r = (.ok config, stored) ∧
    startWorker s stored = (.ok (), started) ∧
    analyzeFiles s rules options config files.length before
      (started.announced s options files.length) = (.ok (), reached)

/-- Files that are gone through to their end are followed by the other ones. -/
theorem analyzeFiles_append {before : List SourceFile} (after : List SourceFile) {r reached : Run σ}
    (h : analyzeFiles s rules options config total before r = (.ok (), reached)) :
    analyzeFiles s rules options config total (before ++ after) r =
      analyzeFiles s rules options config total after reached := by
  induction before generalizing r with
  | nil =>
    cases h
    rfl
  | cons file before ih =>
    rw [List.cons_append, analyzeFiles]
    rw [analyzeFiles] at h
    split at h
    · cases h
    next going =>
      rw [if_neg going]
      cases located : file.path? with
      | none =>
        rw [located] at h
        exact ih h
      | some path =>
        rw [located] at h
        dsimp only at h ⊢
        split at h
        · cases h
        · exact ih h

theorem analyzeFiles_of_cancelled (file : SourceFile) (after : List SourceFile) {r : Run σ}
    (h : s.isCancelled r.world = true) :
    analyzeFiles s rules options config total (file :: after) r = (.error .cancelled, r) := by
  rw [analyzeFiles, if_pos h]

/-- A run that is cancelled when it comes to a file is stopped. -/
theorem Reaches.stopped {before after : List SourceFile} {file : SourceFile} {r reached : Run σ}
    (h : Reaches s rules options (before ++ file :: after) r before reached)
    (cancelled : s.isCancelled reached.world = true) :
    (runFiles s rules options (before ++ file :: after) r).1 = .error .cancelled := by
  obtain ⟨going, config, stored, started, storing, starting, through⟩ := h
  have analyzed := analyzeFiles_append (file :: after) through
  rw [analyzeFiles_of_cancelled file after cancelled] at analyzed
  unfold runFiles
  rw [if_neg (Bool.eq_false_iff.mp going), storing]
  dsimp only
  rw [starting]
  exact congrArg Prod.fst analyzed

end Reached

/-! ### The whole run -/

section Whole

variable {s : Surroundings σ} (rules : RuleSet) (options : Options) (warnings : WarningList)
  (world : σ)

theorem summary_of_ok {summary : Summary}
    (h : (execute s rules options warnings world).1 = .ok summary) :
    summary = (execute s rules options warnings world).2.summary := by
  obtain ⟨_, _, _, _, -, -, -, ends⟩ := converses_execute (s := s) rules options warnings world
  exact ends.summary h

theorem execute_ne_cancelled : (execute s rules options warnings world).1 ≠ .error .cancelled := by
  obtain ⟨_, _, _, _, -, -, -, ends⟩ := converses_execute (s := s) rules options warnings world
  generalize execute s rules options warnings world = out at ends ⊢
  cases ends with
  | completed r => exact nofun
  | cancelled r => exact nofun
  | raised r failed => exact fun h => failed (Except.error.inj h)
  | degraded r => exact nofun

/-- A run that ends as cancelled gives no warning but the notices of the worker. -/
theorem warnings_of_cancelled {summary : Summary}
    (ended : (execute s rules options warnings world).1 = .ok summary)
    (cancelled : summary.status = .cancelled) :
    (execute s rules options warnings world).2.warnings =
      warnings.addAll (noticesIn (execute s rules options warnings world).2.transcript) := by
  obtain ⟨_, events, _, out, converses, -, said, ends⟩ :=
    converses_execute (s := s) rules options warnings world
  have noticed : out.2.warnings = warnings.addAll (noticesIn events) :=
    congrArg Minutes.warnings converses.said
  rw [said, ← noticed]
  generalize execute s rules options warnings world = conclusion at ends ended ⊢
  cases ends with
  | completed r => rfl
  | cancelled r => rfl
  | raised r => cases ended
  | degraded r =>
    cases ended
    cases cancelled

end Whole

/-- What cancelling a run comes to, if a run that was cancelled stays so.  No analysis starts after
a call that left the run cancelled, nor if it was cancelled when it began.  The issues that the host
is given and the files that are counted are those of the analyses that were answered with an
outcome, so an aborted one adds nothing.  Being cancelled is never an error; a run that is cancelled
when it has found files to analyze, or when it comes to any of them, ends as cancelled; and a run
that ends so has given no warning but the notices of the worker. -/
theorem execute_interrupted (s : Surroundings σ) (stays : s.StaysCancelled) (rules : RuleSet)
    (options : Options) (warnings : WarningList) (world : σ) :
    let listed := s.files world
    let eligible := listed.1.filter isEligible
    let out := execute s rules options warnings world
    (∃ (w : Watched σ) (done : List Analyzed), w.world = out.2.world ∧
      execute s.watched rules options warnings (Watched.begin s world) =
        (out.1, out.2.inWorld w) ∧
      (w.seen.Pairwise fun c d => c.cancelled = true → d.isAnalysis = false) ∧
      out.2.answered = done.map (fun a => (a.path, a.outcome)) ∧
      w.saved = done.flatMap (Analyzed.issues rules) ∧
      ∀ summary, out.1 = .ok summary →
        summary.filesAnalyzed = done.length ∧
        summary.issuesSaved = (done.flatMap (Analyzed.issues rules)).length ∧
        summary.parseFailures = done.countP (fun a => isFailure a.outcome)) ∧
    out.1 ≠ .error .cancelled ∧
    (rules.isEmpty = false → eligible ≠ [] →
      (s.isCancelled listed.2 = true ∨ ∃ before file after reached,
        eligible = before ++ file :: after ∧
        Reaches s rules options eligible (Run.opened s warnings world eligible.length) before
          reached ∧
        s.isCancelled reached.world = true) →
      ∃ summary, out.1 = .ok summary ∧ summary.status = .cancelled) ∧
    ∀ summary, out.1 = .ok summary → summary.status = .cancelled →
      out.2.warnings = warnings.addAll (noticesIn out.2.transcript) := by
  intro listed eligible out
  refine ⟨?_, execute_ne_cancelled rules options warnings world, ?_,
    fun summary => warnings_of_cancelled rules options warnings world⟩
  · obtain ⟨same, w, ⟨last, line⟩, watched⟩ :=
      execute_alike (alike_watched fun _ _ _ => Timeline.after stays) rules options warnings
        (show (Watched.begin s world).world = world ∧ _ from ⟨rfl, timeline_begin s world⟩)
    obtain ⟨done, answered, -, saved, counted⟩ := watched_accounts watched
    refine ⟨w, done, last, Prod.ext same.symm watched, line.ordered, answered, saved, ?_⟩
    intro summary ended
    obtain rfl : summary = out.2.summary := summary_of_ok rules options warnings world ended
    exact counted
  · intro active some cancelled
    simp only [out]
    rw [execute_of_some options warnings active some]
    refine conclude_cancelled ?_
    rcases cancelled with early | ⟨before, file, after, reached, split, reaches, cancelled⟩
    · exact congrArg Prod.fst (if_pos early)
    · rw [split] at reaches
      rw [show (s.files world).1.filter isEligible = before ++ file :: after from split]
      exact reaches.stopped cancelled

/-! ### A script -/

namespace Script

theorem cancelled_call {s : Script} (name : CallName) (h : s.cancelled = true) :
    (s.call name).cancelled = true := by
  simp [call, h]

/-- No script takes back that the run was cancelled. -/
theorem staysCancelled : surroundings.StaysCancelled := by
  intro s call s' leads cancelled
  cases leads with
  | workDir => exact cancelled
  | store path text => exact cancelled
  | isAlive going => cases going.symm.trans cancelled
  | analyze request going => cases going.symm.trans cancelled
  | _ => exact cancelled_call _ cancelled

/-- One file, and the run is cancelled while the worker starts. -/
def cutShort : Script where
  files := [{ url := ⟨"untitled", none, "1", none, none⟩ }]
  workDir := .ofString "/work"
  cancelOn := some (.ensureRunning, 1)

end Script

/-- A run that is cancelled while its worker starts ends as cancelled when it comes to its file. -/
theorem execute_interrupted_cutShort :
    let rules : RuleSet :=
      ⟨⟨[("block-no-empty", ⟨"css", "S4658"⟩)]⟩, ⟨[("block-no-empty", .bool true)]⟩⟩
    ∃ summary, (execute Script.surroundings rules { failFast := true } {} Script.cutShort).1 =
      .ok summary ∧ summary.status = .cancelled := by
  intro rules
  have found : ∃ reached, Reaches Script.surroundings rules { failFast := true }
      Script.cutShort.files (Run.opened Script.surroundings {} Script.cutShort 1) [] reached ∧
      reached.world.cancelled = true := ⟨_, ⟨rfl, _, _, _, rfl, rfl, rfl⟩, rfl⟩
  obtain ⟨reached, reaches, cancelled⟩ := found
  have interrupted := execute_interrupted Script.surroundings Script.staysCancelled rules
    { failFast := true } {} Script.cutShort
  exact interrupted.2.2.1 rfl (by decide) (.inr ⟨[], _, [], reached, rfl, reaches, cancelled⟩)

end LintBridge.Analysis
