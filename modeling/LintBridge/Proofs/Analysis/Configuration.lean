import LintBridge.Proofs.Analysis.Calls
import LintBridge.Proofs.Analysis.Dialogue
import LintBridge.Proofs.Analysis.Passage
import LintBridge.Proofs.FileTree.Holding
import LintBridge.Proofs.Path.Join
import LintBridge.Proofs.RuleSet.Document

/-! What the worker finds where a request says that its configuration is.  A run stores the
configuration once, before it asks for any analysis (`split_storing`); the file that has landed in
the work directory stays there as long as nobody else writes to that (`KeepsFiles.passes`).  So each
request leads to the whole configuration: `configuration_served`.  The one exception is a work
directory whose path goes by a link that the file replaces: `configuration_crossed`. -/

namespace LintBridge

open LintBridge.Text LintBridge.FileTree

namespace RuleSet

theorem components_configPath (workDir : Path) :
    (configPath workDir).components =
      workDir.components ++ [.normal (Utf8.ofString configName)] := by
  have name : (Path.ofString configName).components =
      [Utf8.ofString configName].map .normal := by decide +kernel
  exact Path.components_join_normal name workDir

theorem fileName?_configPath (workDir : Path) :
    (configPath workDir).fileName? = some (Utf8.ofString configName) := by
  rw [Path.fileName?_eq_some, components_configPath, List.getLast?_concat]

theorem lands_configPath {c : Conditions} {t : FileTree} {workDir : Path} {bytes : List UInt8}
    (h : (t.replace c (configPath workDir) bytes).result = .ok ()) :
    ∃ made dir, Lands t ((t.replace c (configPath workDir) bytes).final t) (configPath workDir)
      bytes made dir (Utf8.ofString configName) := by
  obtain ⟨made, dir, n, lands⟩ := lands_of_ok h
  have named := lands.puts.named
  rw [fileName?_configPath] at named
  cases named
  exact ⟨made, dir, lands⟩

theorem store_ok {rules : RuleSet} {tree tree' : FileTree} {workDir path : Path}
    (h : rules.store tree workDir = (tree', .ok path)) :
    path = configPath workDir ∧ ∃ made dir, Lands tree tree' path
      (Utf8.ofString rules.documentText) made dir (Utf8.ofString configName) := by
  simp only [store, write] at h
  split at h
  next done =>
    cases h
    exact ⟨rfl, lands_configPath done⟩
  next => cases h

end RuleSet

namespace Analysis

variable {σ : Type}

/-! ### The place of the storing among the events -/

/-- Whether an event is that the configuration is stored, or that it cannot be. -/
def Event.isStoring : Event → Bool
  | .storedConfig _ _ _ => true
  | _ => false

section Storing

variable {config : Path} {text : String} {xs : List Exchange} {events : List Event}

theorem IsDialogue.stored (dialogue : IsDialogue config text xs events) {e : Event}
    (asked : e ∈ events) (analysis : e.isAnalysis = true) :
    ∃ rest, events = .storedConfig config text (.ok ()) :: rest ∧
      ∀ e ∈ rest, e.isStoring = false := by
  cases dialogue with
  | started notices talk =>
    refine ⟨_, rfl, fun e member => ?_⟩
    simp only [List.mem_cons] at member
    obtain rfl | rfl | member := member
    · rfl
    · rfl
    · have exchanged := talk.exchanged e member
      cases e <;> first | rfl | cases exchanged
  | _ => grind [Event.isAnalysis]

/-- An analysis that is asked for comes after the configuration was stored, once and for all. -/
theorem split_storing {front back : List Event} {request : Request}
    {answer : Option (Except Worker.Error Outcome)}
    (dialogue : IsDialogue config text xs
      ((front ++ .askedAnalysis request answer :: back).filter Event.isTranscribed)) :
    request.config = config ∧ ∃ before between,
      front = before ++ .storedConfig config text (.ok ()) :: between ∧
        ∀ e ∈ between, e.isStoring = false := by
  let asked : Event := .askedAnalysis request answer
  have member : asked ∈ (front ++ asked :: back).filter Event.isTranscribed :=
    List.mem_filter.mpr ⟨List.mem_append_cons_self, rfl⟩
  have named : request ∈ xs.map (Exchange.request config) := by
    rw [← dialogue.requests]
    exact List.mem_filterMap.mpr ⟨asked, member, rfl⟩
  obtain ⟨x, -, rfl⟩ := List.mem_map.mp named
  obtain ⟨rest, said, quiet⟩ := dialogue.stored member rfl
  obtain ⟨before, after, split, aside, -, later⟩ := List.filter_eq_cons_iff.mp said
  refine ⟨rfl, before, ?_⟩
  obtain ⟨more, rfl, tail⟩ | ⟨more, rfl, tail⟩ := List.append_eq_append_iff.mp split
  · -- The analysis is part of the dialogue, so it is not among the events before the storing.
    obtain ⟨rfl, other⟩ | ⟨_, rfl, -⟩ := List.cons_eq_append_iff.mp tail
    · cases other
    · exact absurd rfl (aside asked List.mem_append_cons_self)
  · obtain ⟨rfl, other⟩ | ⟨between, rfl, rfl⟩ := List.cons_eq_append_iff.mp tail
    · cases other
    · refine ⟨between, rfl, fun e within => ?_⟩
      cases storing : e.isStoring with
      | false => rfl
      | true =>
        have told : e.isTranscribed = true := by cases e <;> first | rfl | cases storing
        have among : e ∈ rest := later ▸ List.mem_filter.mpr ⟨List.mem_append_left _ within, told⟩
        exact storing.symm.trans (quiet e among)

end Storing

/-! ### Passages -/

namespace Surroundings

variable {s : Surroundings σ} {v w : σ}

theorem Passes.split {xs ys : List Event} (h : s.Passes v (xs ++ ys) w) :
    ∃ u, s.Passes v xs u ∧ s.Passes u ys w := by
  induction xs generalizing v with
  | nil => exact ⟨v, .nil v, h⟩
  | cons e xs ih =>
    cases h with
    | cons first rest =>
      obtain ⟨u, passed, left⟩ := ih rest
      exact ⟨u, .cons first passed, left⟩

/-- Where the storing of a configuration leads. -/
theorem Yields.stored {config : Path} {text : String} {result : Except Fault Unit}
    (h : s.Yields v (.storedConfig config text result) w) :
    config = RuleSet.configPath (s.workDir v).1 ∧
      result = (s.store config text (s.workDir v).2).1 ∧
      w = (s.store config text (s.workDir v).2).2 := by
  cases h
  exact ⟨rfl, rfl, rfl⟩

/-- Surroundings whose files form a tree, with a work directory to which nobody but the run itself
writes.  What a write meets with is left open. -/
structure KeepsFiles (s : Surroundings σ) (tree : σ → FileTree) (workDir : Path) : Prop where
  named : ∀ v, (s.workDir v).1 = workDir
  store : ∀ path text v, ∃ c unsynced,
    let written := (tree v).replaceSynced c unsynced path (Utf8.ofString text)
    (s.store path text v).1 = written.result ∧
      tree (s.store path text v).2 = written.final (tree v)
  alone : ∀ ⦃v call v'⦄, s.Leads v call v' → (∀ path text, call ≠ .store path text) →
    KeepsDir (directoryOf (RuleSet.configPath workDir)) (tree v) (tree v')

namespace KeepsFiles

variable {tree : σ → FileTree} {workDir : Path} (files : s.KeepsFiles tree workDir)
include files

theorem yields {e : Event} (yields : s.Yields v e w) (other : e.isStoring = false) :
    KeepsDir (directoryOf (RuleSet.configPath workDir)) (tree v) (tree w) := by
  cases yields with
  | storedConfig text => cases other
  | listedFiles => exact files.alone .files nofun
  | startedWorker => exact files.alone .ensureRunning nofun
  | tookNotices => exact files.alone .takeNotices nofun
  | askedCommand => exact files.alone .commandInfo nofun
  | askedAlive going => exact files.alone (.isAlive going) nofun
  | readText file => exact files.alone (.readText file) nofun
  | askedAnalysis request going => exact files.alone (.analyze request going) nofun
  | saved issue => exact files.alone (.save issue) nofun
  | logged | warned => exact .refl _ _

/-- As long as no configuration is stored the work directory is left alone. -/
theorem passes {events : List Event} (passes : s.Passes v events w)
    (others : ∀ e ∈ events, e.isStoring = false) :
    KeepsDir (directoryOf (RuleSet.configPath workDir)) (tree v) (tree w) := by
  induction passes with
  | nil v => exact .refl _ _
  | cons first rest ih =>
    obtain ⟨here, later⟩ := List.forall_mem_cons.mp others
    exact (files.yields first here).trans (ih later)

/-- A configuration that could be stored has landed in the work directory. -/
theorem lands {text : String}
    (stored : (s.store (RuleSet.configPath workDir) text v).1 = .ok ()) :
    ∃ made dir, Lands (tree v) (tree (s.store (RuleSet.configPath workDir) text v).2)
      (RuleSet.configPath workDir) (Utf8.ofString text) made dir
      (Utf8.ofString RuleSet.configName) := by
  obtain ⟨c, unsynced, result, final⟩ := files.store (RuleSet.configPath workDir) text v
  rw [final]
  exact RuleSet.lands_configPath (result.symm.trans stored)

end KeepsFiles

end Surroundings

/-! ### The configuration of a run -/

/-- What there is to read when an analysis is asked for in some world, after some events of a run.
The request names the configuration in the work directory, which was stored earlier on: it landed
there and is read there still, unless its path was crossed by that. -/
structure IsServed (s : Surroundings σ) (tree : σ → FileTree) (workDir : Path) (text : String)
    (world : σ) (before : List Event) (request : Request) (v : σ) : Prop where
  config : request.config = RuleSet.configPath workDir
  stored : ∃ earlier later u,
    before = earlier ++ .storedConfig request.config text (.ok ()) :: later ∧
    s.Passes world earlier u ∧
    let began := tree (s.workDir u).2
    let ended := tree (s.store request.config text (s.workDir u).2).2
    let name := Utf8.ofString RuleSet.configName
    ∃ made dir, Lands began ended request.config (Utf8.ofString text) made dir name ∧
      ((tree v).read request.config = .ok (Utf8.ofString text) ∨
        Crosses began ended request.config dir name)

theorem served_execute {s : Surroundings σ} {tree : σ → FileTree} {workDir : Path}
    (files : s.KeepsFiles tree workDir) (rules : RuleSet) (options : Options)
    (warnings : WarningList) (world : σ) {before after : List Event} {request : Request}
    {answer : Option (Except Worker.Error Outcome)}
    (split : (execute s rules options warnings world).2.events =
      before ++ .askedAnalysis request answer :: after) {v : σ} (passed : s.Passes world before v) :
    IsServed s tree workDir rules.documentText world before request v := by
  obtain ⟨xs, events, _, _, converses, -, said, -⟩ :=
    converses_execute (s := s) rules options warnings world
  have dialogue := converses.dialogue
  rw [← said, Run.transcript, split, files.named] at dialogue
  obtain ⟨config, earlier, later, rfl, quiet⟩ := split_storing dialogue
  obtain ⟨u, began, rest⟩ := passed.split
  cases rest with
  | cons storing left =>
    obtain ⟨-, result, rfl⟩ := storing.stored
    obtain ⟨made, dir, lands⟩ := files.lands result.symm
    refine ⟨config, earlier, later, u, by rw [config], began, made, dir, ?_⟩
    rw [config]
    exact ⟨lands, lands.held.imp_left fun holds => (holds.keep (files.passes left quiet)).read⟩

/-- Whatever the active rules are, the octets that are stored are a JSON document of their
configuration, an object with one member, and of nothing else.  A store that succeeds gives the path
of the file in the work directory, where they have landed.  And in a run that alone writes to the
work directory they are what each request finds under the path that it names. -/
theorem configuration_served {active : List ActiveRule} {rules : RuleSet}
    (resolved : (RuleSet.ofActive active).2 = .ok rules) :
    let bytes := Utf8.ofString rules.documentText
    let name := Utf8.ofString "stylelintconfig.json"
    (∀ v, RuleSet.Decodes bytes v ↔ v = rules.document) ∧
    (∃ members, rules.document = .record [("rules", .record members)]) ∧
    (∀ tree workDir tree' path, rules.store tree workDir = (tree', .ok path) →
      path.components = workDir.components ++ [.normal name] ∧
      ∃ made dir, Lands tree tree' path bytes made dir name) ∧
    ∀ {σ : Type} (s : Surroundings σ) (tree : σ → FileTree) (workDir : Path),
      s.KeepsFiles tree workDir → ∀ options warnings world,
      let out := (execute s rules options warnings world).2
      ∀ before request answer after,
        out.events = before ++ .askedAnalysis request answer :: after →
        (∃ v, s.Passes world before v) ∧ ∀ v, s.Passes world before v →
          IsServed s tree workDir rules.documentText world before request v := by
  intro bytes name
  refine ⟨fun v => RuleSet.decodes_ofActive resolved, ⟨_, rfl⟩, ?_, ?_⟩
  · intro tree workDir tree' path stored
    obtain ⟨rfl, landed⟩ := RuleSet.store_ok stored
    exact ⟨RuleSet.components_configPath workDir, landed⟩
  · intro σ s tree workDir files options warnings world out before request answer after split
    have passes := passes_execute s rules options warnings world
    rw [show (execute s rules options warnings world).2.events = _ from split] at passes
    obtain ⟨v, passed, -⟩ := passes.split
    exact ⟨⟨v, passed⟩, fun v passed =>
      served_execute files rules options warnings world split passed⟩

/-! ### A small host -/

def shelfSheet : SourceFile := ⟨⟨"file", some {}, "/a.css", none, none⟩, "css", .main, .utf8⟩

/-- A host that is all files, with one style sheet, and a worker that runs and finds nothing. -/
def shelf (workDir : Path) : Surroundings FileTree where
  now _ := .start
  isCancelled _ := false
  files tree := ([shelfSheet], tree)
  workDir tree := (workDir, tree)
  store path text tree :=
    let (tree, result) := tree.write path (Utf8.ofString text)
    (result, tree)
  readText _ tree := (.error "", tree)
  save _ tree := tree
  ensureRunning tree := (.ok (), tree)
  takeNotices tree := ([], tree)
  commandInfo tree := (none, tree)
  isAlive tree := (some true, tree)
  analyze _ tree := (some (.ok (.diagnostics [])), tree)

theorem keepsFiles_shelf (workDir : Path) : (shelf workDir).KeepsFiles id workDir where
  named _ := rfl
  store _ _ _ := ⟨{}, none, rfl, rfl⟩
  alone := by
    rintro v call v' leads other
    cases leads with
    | store path text => exact absurd rfl (other path text)
    | _ => exact .refl _ _

/-- If the configuration can be stored, one analysis is asked for in the tree that this leaves. -/
theorem events_shelf {workDir : Path} {tree : FileTree} (rules : RuleSet)
    (active : rules.isEmpty = false)
    (stored : (tree.write (RuleSet.configPath workDir) (Utf8.ofString rules.documentText)).2 =
      .ok ()) :
    ∃ before after,
      (execute (shelf workDir) rules {} {} tree).2.events = before ++ .askedAnalysis
        ⟨.ofString "/a.css", none, RuleSet.configPath workDir⟩ (some (.ok (.diagnostics []))) ::
          after ∧
      (shelf workDir).Passes tree before
        (tree.write (RuleSet.configPath workDir) (Utf8.ofString rules.documentText)).1 := by
  have sent : execute (shelf workDir) rules {} {} tree =
      conclude {} (runFiles (shelf workDir) rules {} [shelfSheet]
        (Run.opened (shelf workDir) {} tree 1)) :=
    execute_of_some {} {} active (List.cons_ne_nil _ _)
  have found : shelfSheet.path? = some (.ofString "/a.css") := rfl
  have storing := Surroundings.Yields.storedConfig (s := shelf workDir) (v := tree)
    rules.documentText
  let progress := Progress.start .start 1 (.ofSecs 10)
  rcases written : tree.write (RuleSet.configPath workDir) (Utf8.ofString rules.documentText)
    with ⟨tree', _⟩
  simp only [written] at stored
  subst stored
  simp only [shelf, written] at storing
  refine ⟨[.listedFiles [shelfSheet],
      .storedConfig (RuleSet.configPath workDir) rules.documentText (.ok ()),
      .startedWorker (.ok ()), .tookNotices [], .logged progress.startRecord,
      .askedAlive (some true)],
    [.logged (progress.startFile shelfSheet).finishFile.stopRecord], ?_, ?_⟩
  · rw [sent]
    simp only [shelf, runFiles, storeConfig, Run.opened, Run.world_note, written,
      analyzeReporting, analyzeFiles, found]
    rfl
  · exact .cons .listedFiles (.cons storing (.cons .startedWorker (.cons .tookNotices
      (.cons (.logged _) (.cons (.askedAlive rfl) (.nil _))))))

/-- A tree with a work directory. -/
def workTree : FileTree := { entries := [([[119]], .dir)] }

theorem write_workTree (bytes : List UInt8) :
    (workTree.write (RuleSet.configPath (.ofString "/w")) bytes).2 = .ok () := by
  have dirs : (workTree.makeDirs Refusals.none
      (directoryOf (RuleSet.configPath (.ofString "/w")))).result = .ok () := by decide +kernel
  refine result_replace workTree bytes dirs ⟨fun _ => rfl, ⟨?_, List.cons_ne_nil _ _, ?_⟩, ?_,
    [[119]], Utf8.ofString RuleSet.configName, ?_, ?_, ?_, ?_, ?_, 0, ?_, ?_⟩ <;> decide +kernel

/-- A parameter with a quote, a backslash, a control character and a character beyond ASCII. -/
theorem configuration_served_awkward :
    let active : List ActiveRule := [⟨"S4670", [("ignoreTypes", "\"a\\b\", \x01é")]⟩]
    let rules : RuleSet := ⟨⟨[("selector-type-no-unknown", ⟨"css", "S4670"⟩)]⟩,
      ⟨[("selector-type-no-unknown", withOptions "ignoreTypes" ["\"a\\b\"", "\x01é"])]⟩⟩
    let workDir := Path.ofString "/w"
    (RuleSet.ofActive active).2 = .ok rules ∧ (shelf workDir).KeepsFiles id workDir ∧
      ∃ before request answer after v,
        (execute (shelf workDir) rules {} {} workTree).2.events =
          before ++ .askedAnalysis request answer :: after ∧
        (shelf workDir).Passes workTree before v ∧
        IsServed (shelf workDir) id workDir rules.documentText workTree before request v := by
  intro active rules workDir
  have resolved : (RuleSet.ofActive active).2 = .ok rules := rfl
  have files := keepsFiles_shelf workDir
  obtain ⟨before, after, split, passed⟩ := events_shelf rules rfl (write_workTree _)
  obtain ⟨-, -, -, served⟩ := configuration_served resolved
  obtain ⟨-, finds⟩ := served (shelf workDir) id workDir files {} {} workTree before _ _ after split
  exact ⟨resolved, files, before, _, _, after, _, split, passed, finds _ passed⟩

/-! ### A work directory that is crossed -/

/-- A link with the name of the configuration. -/
def crossedTree : FileTree :=
  { entries := [([[100]], .dir),
      ([Utf8.ofString RuleSet.configName], .link (Path.ofString "d"))] }

/-- A work directory whose own way passes the link. -/
def crossedDir : Path := Path.ofString "/stylelintconfig.json/.."

theorem write_crossedTree (bytes : List UInt8) :
    (crossedTree.write (RuleSet.configPath crossedDir) bytes).2 = .ok () := by
  have dirs : (crossedTree.makeDirs Refusals.none
      (directoryOf (RuleSet.configPath crossedDir))).result = .ok () := by decide +kernel
  refine result_replace crossedTree bytes dirs ⟨fun _ => rfl, ⟨?_, List.cons_ne_nil _ _, ?_⟩, ?_,
    [], Utf8.ofString RuleSet.configName, ?_, ?_, ?_, ?_, ?_, 0, ?_, ?_⟩ <;> decide +kernel

theorem read_crossedDir {t : FileTree} {bytes : List UInt8}
    (file : t.entry? [Utf8.ofString RuleSet.configName] = some (.file bytes false)) :
    t.read (RuleSet.configPath crossedDir) = .error .notADirectory := by
  have components : (RuleSet.configPath crossedDir).components =
      [.root, .normal (Utf8.ofString RuleSet.configName), .up,
        .normal (Utf8.ofString RuleSet.configName)] := by decide +kernel
  obtain ⟨unbroken, written, fits, short⟩ :
      0 ∉ (RuleSet.configPath crossedDir).bytes ∧
        (RuleSet.configPath crossedDir).bytes ≠ [] ∧
        (RuleSet.configPath crossedDir).bytes.length ≤ pathLimit ∧
        (Utf8.ofString RuleSet.configName).length ≤ nameLimit := by decide +kernel
  simp [FileTree.read, find, locate, unbroken, written, Nat.not_lt.mpr fits, components, walk,
    walkOn, Nat.not_lt.mpr short, file, bind, Except.bind]

theorem entry_crossedTree {t : FileTree} {bytes : List UInt8} {made : FileTree} {dir : Place}
    (lands : Lands crossedTree t (RuleSet.configPath crossedDir) bytes made dir
      (Utf8.ofString RuleSet.configName)) :
    t.entry? [Utf8.ofString RuleSet.configName] = some (.file bytes false) := by
  have before : crossedTree.locate (directoryOf (RuleSet.configPath crossedDir)) true = .ok [] := by
    decide +kernel
  have root : dir = [] := locate_unique lands.puts.directory
    (lands.makes.keepsWays.locate_some before rfl)
  rw [lands.puts.entry, root, List.nil_append, if_pos rfl]

/-- The store succeeds, and then the request names a path at which nothing can be read. -/
theorem configuration_crossed :
    let rules : RuleSet :=
      ⟨⟨[("block-no-empty", ⟨"css", "S4658"⟩)]⟩, ⟨[("block-no-empty", .bool true)]⟩⟩
    (RuleSet.ofActive [⟨"S4658", []⟩]).2 = .ok rules ∧
      (shelf crossedDir).KeepsFiles id crossedDir ∧
      ∃ before request answer after v,
        (execute (shelf crossedDir) rules {} {} crossedTree).2.events =
          before ++ .askedAnalysis request answer :: after ∧
        (shelf crossedDir).Passes crossedTree before v ∧
        request.config = RuleSet.configPath crossedDir ∧
        v.read request.config = .error .notADirectory := by
  intro rules
  obtain ⟨before, after, split, passed⟩ := events_shelf rules rfl (write_crossedTree _)
  obtain ⟨made, dir, lands⟩ := RuleSet.lands_configPath (write_crossedTree
    (Utf8.ofString rules.documentText))
  exact ⟨rfl, keepsFiles_shelf crossedDir, before, _, _, after, _, split, passed, rfl,
    read_crossedDir (entry_crossedTree lands)⟩

end Analysis

end LintBridge
