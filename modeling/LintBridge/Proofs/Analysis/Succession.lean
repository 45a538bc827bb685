import LintBridge.Analysis.Session
import LintBridge.Proofs.Analysis.Dialogue
import LintBridge.Proofs.Worker.Latch

/-! Runs that follow one another with one supervisor and one list of warnings.  A run that does not
get its worker leaves the supervisor failed for good, so that no later one gets further than to its
notices, and the list of warnings remembers what it was told, so that no text comes twice:
`session_after_failure`. -/

namespace LintBridge.Analysis

open LintBridge.Worker (Supervised Platform Operation Standing Held Answer Bundle LaunchOptions)

variable {σ : Type}

/-! ### Warnings -/

/-- A run adds to the warnings one by one. -/
theorem nodup_warnings_execute (s : Surroundings σ) (rules : RuleSet) (options : Options)
    {warnings : WarningList} (world : σ) (h : warnings.messages.Nodup) :
    (execute s rules options warnings world).2.warnings.messages.Nodup := by
  obtain ⟨_, events, _, out, converses, -, -, ends⟩ :=
    converses_execute (s := s) rules options warnings world
  have noticed : out.2.warnings = warnings.addAll (noticesIn events) :=
    congrArg Minutes.warnings converses.said
  have plain : out.2.warnings.messages.Nodup := by
    rw [noticed]
    exact WarningList.nodup_addAll h _
  generalize execute s rules options warnings world = ended at ends ⊢
  cases ends with
  | completed r => exact plain
  | cancelled r => exact plain
  | raised r => exact plain
  | degraded r => exact WarningList.nodup_add plain _

/-! ### Runs that do not get their worker -/

theorem answered_of_requests {r : Run σ} (h : r.requests = []) : r.answered = [] := by
  refine List.filterMap_eq_nil_iff.mpr fun e member => ?_
  have unasked := List.filterMap_eq_nil_iff.mp h e member
  cases e <;> first | rfl | cases unasked

/-- A failure that is not returned is warned of. -/
theorem conclude_worker {options : Options} (lenient : options.failFast = false) (e : Worker.Error)
    (r : Run σ) : conclude options (.error (.worker e), r) =
      (.ok (r.degraded (.worker e)).summary, r.degraded (.worker e)) := by
  simp only [conclude, lenient]
  rfl

section Missing

variable {s : Surroundings σ} {P : σ → Prop} (step : ∀ ⦃v call v'⦄, s.Leads v call v' → P v → P v')
  {e : Worker.Error} (missing : ∀ v, P v → (s.ensureRunning v).1 = .error e)
  {rules : RuleSet} {options : Options} {warnings : WarningList} {world : σ} (h : P world)
include step h

/-- Where a run asks for its worker what is always true still is. -/
theorem holds_of_started {eligible : Nat} {config : Path} {stored : Run σ}
    (storing : storeConfig s rules (Run.opened s warnings world eligible) = (.ok config, stored)) :
    P stored.world := by
  have listed : P (Run.opened s warnings world eligible).world := step .files h
  have kept := storeConfig_preserves step rules listed
  rwa [storing] at kept

include missing

/-- A run that asks for a worker that cannot be had is degraded. -/
theorem degraded_of_missing (lenient : options.failFast = false)
    {result : Except Worker.Error Unit}
    (started : result ∈ (execute s rules options warnings world).2.starts) :
    result = .error e ∧
      (∃ summary, (execute s rules options warnings world).1 = .ok summary ∧
        summary.status = .degraded) ∧
      warningAbout (.worker e) ∈ (execute s rules options warnings world).2.warnings.messages := by
  obtain ⟨_, _, stored, storing, asked, stopped⟩ := started_execute rules options started
  have none : (s.ensureRunning stored.world).1 = .error e :=
    missing _ (holds_of_started step h storing)
  obtain rfl : result = .error e := asked.symm.trans none
  rw [stopped e rfl, conclude_worker lenient]
  exact ⟨rfl, ⟨_, rfl, rfl⟩, WarningList.mem_add _ _⟩

/-- A run without a worker comes to no exchange. -/
theorem requests_of_missing : (execute s rules options warnings world).2.requests = [] := by
  obtain ⟨xs, events, _, out, converses, -, said, -⟩ :=
    converses_execute (s := s) rules options warnings world
  have dialogue := converses.dialogue
  rw [← requestsIn_transcript, said]
  cases dialogue with
  | started notices talk =>
    have started : .ok () ∈ (execute s rules options warnings world).2.starts := by
      rw [← startsIn_transcript, said]
      exact List.mem_cons_self
    obtain ⟨_, _, stored, storing, asked, -⟩ := started_execute rules options started
    cases asked.symm.trans (missing _ (holds_of_started step h storing))
  | _ => rfl

theorem issues_of_missing : (execute s rules options warnings world).2.issues = [] := by
  obtain ⟨done, answered, issues⟩ := issues_execute s rules options warnings world
  rw [answered_of_requests (requests_of_missing step missing h)] at answered
  rw [issues, List.map_eq_nil_iff.mp answered.symm]
  rfl

/-- A run without a worker analyzes nothing, and it ends as one that does so. -/
theorem status_of_missing (lenient : options.failFast = false) :
    ∃ summary, (execute s rules options warnings world).1 = .ok summary ∧
      (summary.status = .skipped ∨ summary.status = .cancelled ∨ summary.status = .degraded) := by
  obtain ⟨ok, minutes⟩ | ⟨-, -, ran⟩ := execute_cases (s := s) rules options warnings world
  · exact ⟨_, ok, .inl (congrArg Minutes.status minutes)⟩
  · rw [ran]
    generalize (s.files world).1.filter isEligible = files
    have stages := proceeds (s := s) rules options files (Run.opened s warnings world files.length)
    generalize runFiles s rules options files (Run.opened s warnings world files.length) = out
      at stages ⊢
    have unfinished : out.1 ≠ .ok () := by
      obtain ⟨-, unfinished⟩ | ⟨_, stored, storing, -, stopped⟩ := stages.starts
      · exact unfinished
      · rw [stopped e (missing _ (holds_of_started step h storing))]
        exact nofun
    have ends := concludes options out
    generalize conclude options out = ended at ends ⊢
    cases ends with
    | completed r => exact absurd rfl unfinished
    | cancelled r => exact ⟨_, rfl, .inr (.inl rfl)⟩
    | raised r failed strict => cases strict.symm.trans lenient
    | degraded r => exact ⟨_, rfl, .inr (.inr rfl)⟩

end Missing

/-! ### Hosts -/

/-- What a host cannot change is true after each call of a run, if what the supervisor does keeps it
true. -/
theorem Host.step_preserves (h : Host σ) {p : Platform σ} {P : Supervised σ → Prop}
    (world : ∀ ⦃v⦄ w, P v → P { v with world := w })
    (ensured : ∀ ⦃v⦄, P v → P (v.ensureRunning p).2)
    (noticed : ∀ ⦃v⦄, P v → P v.takeNotices.2)
    (asked : ∀ ⦃v worker⦄ call, v.supervisor.worker = some worker → P v → P (v.ask p worker call).2)
    ⦃v : Supervised σ⦄ ⦃call : Surroundings.Call⦄ ⦃v' : Supervised σ⦄
    (leads : (h.surroundings p).Leads v call v') (holds : P v) : P v' := by
  cases leads with
  | ensureRunning => exact ensured holds
  | takeNotices => exact noticed holds
  | commandInfo => exact holds
  | isAlive going =>
    simp only [Host.surroundings]
    cases held : v.supervisor.worker with
    | none => exact holds
    | some worker => exact asked _ held holds
  | analyze request going =>
    simp only [Host.surroundings]
    cases held : v.supervisor.worker with
    | none => exact holds
    | some worker => exact asked _ held holds
  | _ => exact world _ holds

theorem Host.isSettled_step (h : Host σ) {p : Platform σ} ⦃v : Supervised σ⦄
    ⦃call : Surroundings.Call⦄ ⦃v' : Supervised σ⦄ (leads : (h.surroundings p).Leads v call v')
    (settled : v.standing.IsSettled) : v'.standing.IsSettled := by
  refine h.step_preserves (P := fun v => v.standing.IsSettled) (fun _ _ settled => settled)
    (fun _ => Supervised.isSettled_ensureRunning) ?_ ?_ leads settled
  · intro v settled
    rw [Supervised.standing_takeNotices]
    exact settled
  · intro v worker call held settled
    rw [Supervised.standing_ask]
    exact settled

/-- Nothing has happened to a supervisor since some moment, but that its notices were taken. -/
structure QuietSince (before after : Supervised σ) : Prop where
  standing : after.standing = before.standing
  history : ∃ told : List (List String), after.history = before.history ++ told.map .tookNotices

theorem QuietSince.refl (s : Supervised σ) : QuietSince s s :=
  ⟨rfl, [], (List.append_nil _).symm⟩

theorem QuietSince.takeNotices {before after : Supervised σ} (quiet : QuietSince before after) :
    QuietSince before after.takeNotices.2 := by
  obtain ⟨standing, told, history⟩ := quiet
  refine ⟨(Supervised.standing_takeNotices after).trans standing,
    told ++ [after.supervisor.notices], ?_⟩
  rw [List.map_append, ← List.append_assoc, ← history]
  rfl

/-- A supervisor that has failed is left alone by a run. -/
theorem Host.quiet_step (h : Host σ) {p : Platform σ} {before : Supervised σ}
    (failed : before.standing.phase = .failed) (free : before.standing.worker = none)
    ⦃v : Supervised σ⦄ ⦃call : Surroundings.Call⦄ ⦃v' : Supervised σ⦄
    (leads : (h.surroundings p).Leads v call v') (quiet : QuietSince before v) :
    QuietSince before v' := by
  refine h.step_preserves (fun _ _ quiet => ⟨quiet.standing, quiet.history⟩) ?_
    (fun _ => QuietSince.takeNotices) ?_ leads quiet
  · intro v quiet
    rw [Supervised.ensureRunning_of_failed ((congrArg Standing.phase quiet.standing).trans failed)]
    exact quiet
  · intro v worker call held quiet
    have idle : v.supervisor.worker = none := (congrArg Standing.worker quiet.standing).trans free
    cases held.symm.trans idle

/-! ### Sessions -/

/-- What happens in a session: a run, or an operation of the supervisor, such as a stop. -/
inductive Turn (σ : Type) where
  | analyze (host : Host σ) (rules : RuleSet) (options : Options)
  | operate (op : Operation)

namespace Session

variable (p : Platform σ)

/-- A session that begins. -/
def opened (bundle : Bundle) (launch : LaunchOptions) (world : σ) : Session σ where
  worker := Supervised.fresh bundle launch world

/-- A run in a session, which does not fail fast. -/
def analyze (host : Host σ) (rules : RuleSet) (options : Options) (t : Session σ) :
    Except Failure Summary × Run (Supervised σ) :=
  execute (host.surroundings p) rules { options with failFast := false } t.warnings t.worker

def play (t : Session σ) : Turn σ → Session σ
  | .analyze host rules options =>
    let out := t.analyze p host rules options
    ⟨out.2.world, out.2.warnings⟩
  | .operate op => { t with worker := (t.worker.perform p op).2 }

def playAll (turns : List (Turn σ)) (t : Session σ) : Session σ := turns.foldl (play p) t

variable {p} {t : Session σ}

/-- What every turn keeps true is true after any number of them. -/
theorem playAll_preserves {Q : Session σ → Prop} (step : ∀ ⦃t⦄ turn, Q t → Q (t.play p turn))
    (turns : List (Turn σ)) (h : Q t) : Q (t.playAll p turns) := by
  induction turns generalizing t with
  | nil => exact h
  | cons turn turns ih => exact ih (step turn h)

theorem nodup_play ⦃t : Session σ⦄ (turn : Turn σ) (h : t.warnings.messages.Nodup) :
    (t.play p turn).warnings.messages.Nodup := by
  cases turn with
  | analyze host rules options => exact nodup_warnings_execute _ _ _ _ h
  | operate op => exact h

theorem isSettled_play ⦃t : Session σ⦄ (turn : Turn σ) (h : t.worker.standing.IsSettled) :
    (t.play p turn).worker.standing.IsSettled := by
  cases turn with
  | analyze host rules options => exact execute_preserves host.isSettled_step rules _ t.warnings h
  | operate op => exact Supervised.isSettled_perform h op

/-- A run that does not get its worker leaves the supervisor failed. -/
theorem failed_of_started (settled : t.worker.standing.IsSettled) {host : Host σ} {rules : RuleSet}
    {options : Options} {e : Worker.Error}
    (h : .error e ∈ (t.analyze p host rules options).2.starts) :
    (t.play p (.analyze host rules options)).worker.standing.phase = .failed := by
  obtain ⟨_, _, stored, storing, asked, stopped⟩ := started_execute rules _ h
  have ready : stored.world.standing.IsSettled :=
    holds_of_started host.isSettled_step settled storing
  have failed : ((stored.noticed (host.surroundings p)).world).standing.phase = .failed := by
    rw [Run.world_noticed]
    exact (congrArg Standing.phase (Supervised.standing_takeNotices _)).trans
      (Supervised.failed_of_error ready asked)
  have last : (stored.unstarted (host.surroundings p) e).world =
      (stored.noticed (host.surroundings p)).world := by
    unfold Run.unstarted
    split
    · exact Run.world_inquired _ _
    · rfl
  simp only [play, analyze, stopped e rfl, conclude_worker]
  show ((stored.unstarted _ e).world).standing.phase = .failed
  rw [last]
  exact failed

section Failed

variable (failed : t.worker.standing.phase = .failed) (free : t.worker.standing.worker = none)
include failed free

/-- In a session whose supervisor has failed a run leaves it alone. -/
theorem quiet_analyze (host : Host σ) (rules : RuleSet) (options : Options) :
    QuietSince t.worker (t.analyze p host rules options).2.world :=
  execute_preserves (host.quiet_step failed free) rules _ t.warnings (.refl t.worker)

theorem standing_play_of_failed (turn : Turn σ) :
    (t.play p turn).worker.standing = t.worker.standing := by
  cases turn with
  | analyze host rules options => exact (quiet_analyze failed free host rules options).standing
  | operate op => exact Supervised.standing_perform_of_failed failed free op

theorem standing_playAll_of_failed (turns : List (Turn σ)) :
    (t.playAll p turns).worker.standing = t.worker.standing := by
  refine playAll_preserves (Q := fun u => u.worker.standing = t.worker.standing) ?_ turns rfl
  intro u turn same
  exact (standing_play_of_failed (same ▸ failed) (same ▸ free) turn).trans same

end Failed

end Session

/-- In a session no warning is given twice, so there is at most one that a start had failed before.
Once a run has not got its worker, no process is launched or put an end to, nor any worker held, by
whatever follows; a later run does nothing to the supervisor but to take its notices, asks for no
analysis and saves no issue, and it ends as skipped, cancelled or degraded: as degraded if it asks
for the worker, since the start had failed before. -/
theorem session_after_failure (p : Platform σ) (bundle : Bundle) (launch : LaunchOptions)
    (world : σ) (turns : List (Turn σ)) :
    let t := (Session.opened bundle launch world).playAll p turns
    t.warnings.messages.Nodup ∧
    t.warnings.messages.count (warningAbout (.worker .failedBefore)) ≤ 1 ∧
    ∀ host rules options e, .error e ∈ (t.analyze p host rules options).2.starts →
      ∀ between host' rules' options',
        let failed := t.play p (.analyze host rules options)
        let u := failed.playAll p between
        let out := u.analyze p host' rules' options'
        out.2.world.standing = failed.worker.standing ∧
        QuietSince u.worker out.2.world ∧
        out.2.requests = [] ∧ out.2.issues = [] ∧
        (∃ summary, out.1 = .ok summary ∧ (summary.status = .skipped ∨
          summary.status = .cancelled ∨ summary.status = .degraded)) ∧
        ∀ result ∈ out.2.starts, result = .error .failedBefore ∧
          (∃ summary, out.1 = .ok summary ∧ summary.status = .degraded) ∧
          warningAbout (.worker .failedBefore) ∈ out.2.warnings.messages := by
  intro t
  have distinct : t.warnings.messages.Nodup :=
    Session.playAll_preserves Session.nodup_play turns List.nodup_nil
  have settled : t.worker.standing.IsSettled :=
    Session.playAll_preserves Session.isSettled_play turns
      (Supervised.isSettled_fresh bundle launch world)
  refine ⟨distinct, List.nodup_iff_count.mp distinct _, ?_⟩
  intro host rules options e started between host' rules' options' failed u out
  have latched : failed.worker.standing.phase = .failed := Session.failed_of_started settled started
  have free : failed.worker.standing.worker = none :=
    (Session.isSettled_play _ settled).worker_of_failed latched
  have same : u.worker.standing = failed.worker.standing :=
    Session.standing_playAll_of_failed latched free between
  have later : u.worker.standing.phase = .failed := (congrArg Standing.phase same).trans latched
  have idle : u.worker.standing.worker = none := (congrArg Standing.worker same).trans free
  have step := host'.quiet_step (p := p) later idle
  have missing := fun (v : Supervised σ) (quiet : QuietSince u.worker v) =>
    show (v.ensureRunning p).1 = .error .failedBefore by
      rw [Supervised.ensureRunning_of_failed ((congrArg Standing.phase quiet.standing).trans later)]
  have quiet : QuietSince u.worker out.2.world := Session.quiet_analyze later idle _ _ _
  exact ⟨quiet.standing.trans same, quiet, requests_of_missing step missing (.refl _),
    issues_of_missing step missing (.refl _), status_of_missing step missing (.refl _) rfl,
    fun _ => degraded_of_missing step missing (.refl _) rfl⟩

/-- A host that has files and never cancels. -/
def Host.patient (files : List SourceFile) : Host σ where
  now _ := .start
  isCancelled _ := false
  files world := (files, world)
  workDir world := (.ofString "/work", world)
  store _ _ world := (.ok (), world)
  readText _ world := (.error "", world)
  save _ world := world

/-- Where the worker program is missing the first run does not get its worker, and a second one is
degraded because of that, also after a stop. -/
theorem session_after_failure_uninstalled :
    let p := Platform.steady false
    let host : Host (List Nat) := .patient [{ url := ⟨"untitled", none, "1", none, none⟩ }]
    let rules : RuleSet :=
      ⟨⟨[("block-no-empty", ⟨"css", "S4658"⟩)]⟩, ⟨[("block-no-empty", .bool true)]⟩⟩
    let t := Session.opened default {} []
    let u := (t.play p (.analyze host rules {})).playAll p [.operate .stop]
    (u.analyze p host rules {}).2.issues = [] ∧
      ∃ summary, (u.analyze p host rules {}).1 = .ok summary ∧ summary.status = .degraded := by
  intro p host rules t u
  have first : ∃ e, .error e ∈ (t.analyze p host rules {}).2.starts :=
    ⟨_, List.mem_singleton.mpr rfl⟩
  have second : ∃ result, result ∈ (u.analyze p host rules {}).2.starts :=
    ⟨_, List.mem_singleton.mpr rfl⟩
  obtain ⟨e, first⟩ := first
  obtain ⟨result, second⟩ := second
  obtain ⟨-, -, -, issues, -, asked⟩ := (session_after_failure p default {} [] []).2.2 host rules {}
    e first [.operate .stop] host rules {}
  exact ⟨issues, (asked result second).2.1⟩

end LintBridge.Analysis
