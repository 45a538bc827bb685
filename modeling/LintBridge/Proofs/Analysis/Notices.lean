import LintBridge.Proofs.Analysis.Succession
import LintBridge.Proofs.Worker.Notices

/-! The notices of a supervisor on their way to the user.  Between any operations and runs what
callers have taken of them and what is pending are the notices of all starts; and a run that has
asked for its worker, whether it got it or not, leaves every notice that was then pending among its
warnings, once: `notices_conserved`. -/

namespace LintBridge.Analysis

open LintBridge.Worker (Supervised Platform Operation Bundle LaunchOptions Crowd noticesOf startsOf
  toldIn)

variable {σ : Type}

/-! ### A run -/

section Execute

variable {s : Surroundings σ}

theorem warnings_noticed (r : Run σ) : (r.noticed s).warnings =
    r.warnings.addAll (s.takeNotices (s.ensureRunning r.world).2).1 :=
  congrArg Minutes.warnings (Run.minutes_foldl_warn _ _)

theorem warnings_unstarted (r : Run σ) (e : Worker.Error) :
    (r.unstarted s e).warnings = (r.noticed s).warnings := by
  unfold Run.unstarted
  split
  · exact congrArg Minutes.warnings (minutes_inquired _)
  · rfl

variable (rules : RuleSet) (options : Options)

theorem warnings_storeConfig (r : Run σ) : (storeConfig s rules r).2.warnings = r.warnings := by
  obtain ⟨fault, -, said⟩ | ⟨-, said⟩ := minutes_storeConfig (s := s) rules r <;>
    exact congrArg Minutes.warnings said

/-- A run that comes to ask for its worker warns of the notices that are pending then, and of
nothing else before its end. -/
theorem noticed_execute {warnings : WarningList} {world : σ} {result : Except Worker.Error Unit}
    (h : result ∈ (execute s rules options warnings world).2.starts) :
    ∃ eligible config stored out,
      storeConfig s rules (Run.opened s warnings world eligible) = (.ok config, stored) ∧
      (s.ensureRunning stored.world).1 = result ∧
      out.2.warnings = warnings.addAll (s.takeNotices (s.ensureRunning stored.world).2).1 ∧
      Concludes options out (execute s rules options warnings world) := by
  obtain ⟨-, minutes⟩ | ⟨-, -, ran⟩ := execute_cases (s := s) rules options warnings world
  · have quiet : (execute s rules options warnings world).2.transcript = [] :=
      congrArg Minutes.transcript minutes
    rw [← startsIn_transcript, quiet] at h
    cases h
  generalize (s.files world).1.filter isEligible = files at ran
  have stages := proceeds (s := s) rules options files (Run.opened s warnings world files.length)
  have ends := concludes options
    (runFiles s rules options files (Run.opened s warnings world files.length))
  rw [← ran] at ends
  rw [ends.starts] at h
  generalize runFiles s rules options files (Run.opened s warnings world files.length) = out
    at stages ends h
  have kept := warnings_storeConfig (s := s) rules (Run.opened s warnings world files.length)
  obtain ⟨same, -⟩ | ⟨config, stored, storing, starts, -⟩ := stages.starts
  · rw [same] at h
    cases h
  rw [starts] at h
  obtain rfl : result = _ := List.mem_singleton.mp h
  refine ⟨files.length, config, stored, out, storing, rfl, ?_, ends⟩
  rw [storing] at kept
  rw [← show stored.warnings = warnings from kept, ← warnings_noticed]
  cases stages with
  | cancelled stopped => cases List.self_eq_append_right.mp starts
  | unstored going failing => cases failing.symm.trans storing
  | unstarted going storing' starting =>
    obtain ⟨-, rfl⟩ := Prod.mk.inj (storing'.symm.trans storing)
    exact warnings_unstarted _ _
  | started going storing' starting =>
    obtain ⟨-, rfl⟩ := Prod.mk.inj (storing'.symm.trans storing)
    obtain ⟨_, _, -, -, -, said⟩ := talks_analyzeReporting (s := s) rules options _ files _
    exact congrArg Minutes.warnings said

end Execute

/-- What is added to warnings at the end of a run, if anything is. -/
theorem Concludes.warnings {options : Options} {out : Except Failure Unit × Run σ}
    {ended : Except Failure Summary × Run σ} (ends : Concludes options out ended) :
    ended.2.warnings = out.2.warnings ∨
      ∃ e, ended.2.warnings = out.2.warnings.add (warningAbout e) := by
  cases ends with
  | completed r => exact .inl rfl
  | cancelled r => exact .inl rfl
  | raised r => exact .inl rfl
  | degraded r => exact .inr ⟨_, rfl⟩

/-! ### Sessions -/

section Session

variable {p : Platform σ}

/-- Until it asks for the worker a run leaves the supervisor alone. -/
theorem Host.world_stored (host : Host σ) {rules : RuleSet} {warnings : WarningList}
    {v : Supervised σ} {eligible : Nat} {config : Path} {stored : Run (Supervised σ)}
    (storing : storeConfig (host.surroundings p) rules
      (Run.opened (host.surroundings p) warnings v eligible) = (.ok config, stored)) :
    ∃ world, stored.world = { v with world } := by
  unfold storeConfig at storing
  dsimp only at storing
  split at storing
  next =>
    obtain ⟨-, rfl⟩ := Prod.mk.inj storing
    exact ⟨_, rfl⟩
  next => cases storing

/-- The notices that callers of a supervisor took, and those that are pending, are those of its
starts.  The starts are those that have begun, and they have the runtimes that passed a check. -/
structure IsConserved (v : Supervised σ) : Prop where
  notices : toldIn v.history ++ v.supervisor.notices = noticesOf (startsOf v.history)
  begun : (startsOf v.history).length = v.history.countP Worker.Event.begins
  passed : (startsOf v.history).filterMap id = v.history.filterMap Worker.Event.passed?

theorem isConserved_iff {v : Supervised σ} :
    IsConserved v ↔ ∃ texts, v.ledger.Balances texts := by
  constructor
  · exact fun h => ⟨_, rfl, h.notices, h.begun, h.passed⟩
  · rintro ⟨texts, rfl, balance, begun, passed⟩
    exact ⟨balance, begun, passed⟩

theorem isConserved_perform {v : Supervised σ} (h : IsConserved v) (op : Operation) :
    IsConserved (v.perform p op).2 := by
  obtain ⟨texts, balances⟩ := isConserved_iff.mp h
  exact isConserved_iff.mpr ⟨_, Supervised.balances_perform balances op⟩

theorem Host.isConserved_step (host : Host σ) ⦃v : Supervised σ⦄ ⦃call : Surroundings.Call⦄
    ⦃v' : Supervised σ⦄ (leads : (host.surroundings p).Leads v call v') (h : IsConserved v) :
    IsConserved v' := by
  refine host.step_preserves (P := IsConserved)
    (fun _ _ h => ⟨h.notices, h.begun, h.passed⟩) ?_ ?_ ?_ leads h
  · exact fun v h => isConserved_perform h .ensureRunning
  · exact fun v h => isConserved_perform (p := p) h .takeNotices
  · intro v worker call held h
    obtain ⟨texts, balances⟩ := isConserved_iff.mp h
    refine isConserved_iff.mpr ⟨texts, ?_⟩
    rw [Supervised.ledger_ask]
    exact balances

theorem Session.isConserved_play ⦃t : Session σ⦄ (turn : Turn σ) (h : IsConserved t.worker) :
    IsConserved (t.play p turn).worker := by
  cases turn with
  | analyze host rules options =>
    exact execute_preserves host.isConserved_step rules _ t.warnings h
  | operate op => exact isConserved_perform h op

end Session

/-- However the callers of a supervisor make their moves, what they were told of its notices and
what is pending are the notices of all starts whose runtime passed its check, in order, whatever
became of the start; and so it is in a session of runs and operations.  A run that has asked for its
worker, with whatever result, has each notice that was pending then among its warnings, in order and
once, and nothing else is new there but what it says of its own failure. -/
theorem notices_conserved (p : Platform σ) (bundle : Bundle) (launch : LaunchOptions) (world : σ) :
    (∀ moves, let c := (Crowd.opened bundle launch world).run p moves
      c.told ++ c.server.supervisor.notices = noticesOf (startsOf c.server.history) ∧
        IsConserved c.server) ∧
    (∀ turns, IsConserved ((Session.opened bundle launch world).playAll p turns).worker) ∧
    ∀ (host : Host σ) rules options warnings v,
      let out := execute (host.surroundings p) rules options warnings v
      ∀ result ∈ out.2.starts, ∃ w,
        let asked := Supervised.ensureRunning p { v with world := w }
        let told := warnings.addAll asked.2.supervisor.notices
        asked.1 = result ∧
        (out.2.warnings = told ∨ ∃ e, out.2.warnings = told.add (warningAbout e)) ∧
        ∀ text ∈ asked.2.supervisor.notices, text ∈ out.2.warnings.messages ∧
          (warnings.messages.Nodup → out.2.warnings.messages.count text = 1) := by
  refine ⟨?_, ?_, ?_⟩
  · intro moves c
    have balances := (Worker.balances_run p bundle launch world moves).balances
    exact ⟨balances.balance, isConserved_iff.mpr ⟨_, balances⟩⟩
  · exact fun turns => Session.playAll_preserves Session.isConserved_play turns ⟨rfl, rfl, rfl⟩
  · intro host rules options warnings v out result started
    obtain ⟨_, _, stored, ran, storing, asked, told, ends⟩ :=
      noticed_execute (s := host.surroundings p) rules options started
    obtain ⟨w, same⟩ := host.world_stored storing
    rw [same] at asked told
    have added : out.2.warnings = warnings.addAll _ ∨
        ∃ e, out.2.warnings = (warnings.addAll _).add (warningAbout e) := told ▸ ends.warnings
    refine ⟨w, asked, added, fun text member => ?_⟩
    have reaches : text ∈ out.2.warnings.messages := by
      have there := WarningList.mem_addAll (w := warnings) (.inr member)
      obtain same | ⟨e, same⟩ := added
      · rw [same]
        exact there
      · rw [same]
        exact WarningList.mem_add_of_mem there _
    refine ⟨reaches, fun distinct => ?_⟩
    have once := nodup_warnings_execute (host.surroundings p) rules options v distinct
    rw [once.count, if_pos reaches]

/-- A system whose runtime is deprecated, and on which no worker comes up in time. -/
def agedPlatform : Platform Unit where
  isDir _ w := (true, w)
  isFile _ w := (true, w)
  freePort w := (.ok 40000, w)
  checkRuntime _ w := (.ok ⟨.ofString "/node", 9⟩, w)
  newClient _ w := (.ok (), w)
  spawn _ _ w := (.ok (), w)
  awaitStartup _ _ _ w := (.timedOut, w)
  exitStatus _ w := (none, w)
  kill _ w := w
  terminate _ w := w
  send _ _ w := (.failed, w)

/-- The notice of a start that fails is told in the middle of it, and a run that does not get its
worker warns of it. -/
theorem notices_conserved_aged :
    let notice := (Worker.NodeVersion.deprecationNotice? 9).getD ""
    let c := (Crowd.opened default {} ()).run agedPlatform
      (.call 0 .ensureRunning :: List.replicate 5 .proceed ++ .call 1 .takeNotices ::
        List.replicate 4 .proceed)
    let host : Host Unit := .patient [{ url := ⟨"untitled", none, "1", none, none⟩ }]
    let rules : RuleSet :=
      ⟨⟨[("block-no-empty", ⟨"css", "S4658"⟩)]⟩, ⟨[("block-no-empty", .bool true)]⟩⟩
    let out := execute (host.surroundings agedPlatform) rules {} {} (Supervised.fresh default {} ())
    c.replies = [(1, .notices [notice]), (0, .ensured (.error (.startTimeout (.ofSecs 60))))] ∧
    IsConserved c.server ∧
    out.2.starts = [.error (.startTimeout (.ofSecs 60))] ∧
    notice ∈ out.2.warnings.messages := by
  intro notice c host rules out
  obtain ⟨callers, -, runs⟩ := notices_conserved agedPlatform default {} ()
  have started : out.2.starts = [.error (.startTimeout (.ofSecs 60))] := rfl
  obtain ⟨w, -, -, reach⟩ := runs host rules {} {} (Supervised.fresh default {} ()) _
    (started ▸ List.mem_singleton_self _)
  exact ⟨rfl, (callers _).2, started, (reach notice (List.mem_singleton_self _)).1⟩

end LintBridge.Analysis
