import LintBridge.Proofs.Settings.Expansion
import LintBridge.Settings.Load

/-! Where settings come from, and what they depend on.  The first place that applies is the source:
`ComesFrom`.  Two situations that have the same source and agree on what it says, on the variables
and the home directory that it refers to and on the variable that has the last word load the same
settings: `load_of_source`.  Nothing is asked of what lies in the other places. -/

namespace LintBridge.Settings

open LintBridge.Text

/-! ### The source -/

/-- A path leads to a regular file, links followed. -/
def IsRegular (tree : FileTree) (p : Path) : Prop :=
  ∃ bytes executable, tree.find p = .ok (.file bytes executable)

theorem isFile_iff {tree : FileTree} {p : Path} : tree.isFile p = true ↔ IsRegular tree p := by
  simp only [FileTree.isFile, IsRegular]
  split
  next bytes executable found => exact ⟨fun _ => ⟨bytes, executable, found⟩, fun _ => rfl⟩
  next other =>
    refine ⟨nofun, ?_⟩
    rintro ⟨bytes, executable, found⟩
    exact absurd found (other bytes executable)

/-- The settings file of a project. -/
def ofProject (project : Path) : Path := project.joinString ".stylebridge.toml"

/-- The settings file in a home directory. -/
def ofHome (home : Path) : Path := (home.joinString ".stylebridge").joinString "config.toml"

/-- The source of the settings: the path that is given, if one is; else the file of the project if
it is a regular file, else the one in the home directory if it is, else none. -/
inductive ComesFrom (tree : FileTree) (env : Environment) :
    Option Path → Path → Option Path → Prop
  | given (path project : Path) : ComesFrom tree env (some path) project (some path)
  | project {project : Path} (here : IsRegular tree (ofProject project)) :
      ComesFrom tree env none project (some (ofProject project))
  | home {project home : Path} (absent : ¬ IsRegular tree (ofProject project))
      (known : env.home? = some home) (here : IsRegular tree (ofHome home)) :
      ComesFrom tree env none project (some (ofHome home))
  | nowhere {project : Path} (absent : ¬ IsRegular tree (ofProject project))
      (absent' : ∀ home, env.home? = some home → ¬ IsRegular tree (ofHome home)) :
      ComesFrom tree env none project none

theorem find?_homeFile? {tree : FileTree} {env : Environment} :
    (homeFile? env).toList.find? tree.isFile = (homeFile? env).filter tree.isFile := by
  cases homeFile? env with
  | none => rfl
  | some path => cases here : tree.isFile path <;> simp [Option.filter, here]

variable {tree tree' : FileTree} {env env' : Environment} {explicit explicit' source : Option Path}
  {project project' : Path}

theorem comesFrom_source? (tree : FileTree) (env : Environment) (explicit : Option Path)
    (project : Path) : ComesFrom tree env explicit project (source? tree env explicit project) := by
  cases explicit with
  | some path => exact .given path project
  | none =>
    rw [source?, List.find?_cons, find?_homeFile?]
    split
    next here => exact .project (isFile_iff.mp here)
    next missing =>
      have absent : ¬ IsRegular tree (ofProject project) := by
        rw [← isFile_iff]
        exact Bool.eq_false_iff.mp missing
      cases known : env.home? with
      | none =>
        rw [homeFile?, known]
        exact .nowhere absent fun home other => by cases known.symm.trans other
      | some home =>
        have path : homeFile? env = some (ofHome home) := by rw [homeFile?, known]; rfl
        rw [path, Option.filter_some]
        split
        next here => exact .home absent known (isFile_iff.mp here)
        next missing =>
          refine .nowhere absent fun home' known' => ?_
          obtain rfl := Option.some.inj (known.symm.trans known')
          exact fun here => missing (isFile_iff.mpr here)

/-- There is just one source. -/
theorem ComesFrom.unique {source' : Option Path} (h : ComesFrom tree env explicit project source)
    (h' : ComesFrom tree env explicit project source') : source = source' := by
  cases h with
  | given => cases h'; rfl
  | project here =>
    cases h' with
    | project => rfl
    | home absent => exact absurd here absent
    | nowhere absent => exact absurd here absent
  | home absent known here =>
    cases h' with
    | project here' => exact absurd here' absent
    | home _ known' =>
      obtain rfl := Option.some.inj (known.symm.trans known')
      rfl
    | nowhere _ absent' => exact absurd here (absent' _ known)
  | nowhere absent absent' =>
    cases h' with
    | project here => exact absurd here absent
    | home _ known here => exact absurd here (absent' _ known)
    | nowhere => rfl

/-! ### What the source gives -/

/-- The settings of a source before the environment has its word.  A file that cannot be read, or
that is refused, is an error about its path. -/
inductive Gives (tree : FileTree) (env : Environment) :
    Option Path → Except LoadError Settings → Prop
  | defaults : Gives tree env none (.ok (default env))
  | unreadable {path : Path} {reason : Fault} (failed : tree.readText path = .error reason) :
      Gives tree env (some path) (.error (.unreadable path reason))
  | refused {path : Path} {text : String} {reason : Refusal} (read : tree.readText path = .ok text)
      (failed : ofText env text = .error reason) :
      Gives tree env (some path) (.error (.refused path reason))
  | taken {path : Path} {text : String} {s : Settings} (read : tree.readText path = .ok text)
      (passed : ofText env text = .ok s) : Gives tree env (some path) (.ok s)

theorem gives_of_source (tree : FileTree) (env : Environment) (source : Option Path) :
    Gives tree env source (source.elim (.ok (default env)) (ofFile tree env)) := by
  cases source with
  | none => exact .defaults
  | some path =>
    rw [Option.elim_some, ofFile]
    split
    next reason failed => exact .unreadable failed
    next text read =>
      cases checked : ofText env text with
      | error reason => exact .refused read checked
      | ok s => exact .taken read checked

/-- What is logged and what comes out when settings are loaded from a source: its error, with a
record of it, or its settings after the environment's word, together with the source. -/
inductive Loads (tree : FileTree) (env : Environment) (source : Option Path) :
    List Log.Record × Except LoadError Loaded → Prop
  | failed {e : LoadError} (given : Gives tree env source (.error e)) :
      Loads tree env source ([e.record], .error e)
  | loaded {s s' : Settings} {logs : List Log.Record} (given : Gives tree env source (.ok s))
      (overridden : s.applyEnvironment env.get? = (s', logs)) :
      Loads tree env source (logs, .ok ⟨s', source⟩)

theorem Loads.path_of_error {result : List Log.Record × Except LoadError Loaded} {e : LoadError}
    (h : Loads tree env source result) (failed : result.2 = .error e) : source = some e.path := by
  cases h with
  | failed given =>
    obtain rfl := Except.error.inj failed
    cases given <;> rfl
  | loaded => cases failed

theorem Loads.source_of_ok {result : List Log.Record × Except LoadError Loaded} {loaded : Loaded}
    (h : Loads tree env source result) (passed : result.2 = .ok loaded) :
    loaded.source = source := by
  cases h with
  | failed => cases passed
  | loaded =>
    obtain rfl := Except.ok.inj passed
    rfl

theorem loads_load (tree : FileTree) (env : Environment) (explicit : Option Path)
    (project : Path) :
    Loads tree env (source? tree env explicit project) (load tree env explicit project) := by
  have given := gives_of_source tree env (source? tree env explicit project)
  rw [load]
  split
  next e failed =>
    rw [failed] at given
    exact .failed given
  next s passed =>
    rw [passed] at given
    exact .loaded given rfl

/-! ### What a document refers to -/

/-- A text refers to a variable if its name stands in one of the references that it is cut into. -/
def Refers (s name : String) : Prop :=
  ∃ parts, Factors charMarks s.toList parts ∧ .reference name.toList ∈ parts

theorem Becomes.congr {part : Part Char} {piece : List Char} (h : Becomes env part piece)
    (same : ∀ name, part = .reference name →
      env.get? (String.ofList name) = env'.get? (String.ofList name)) :
    Becomes env' part piece := by
  cases part with
  | literal => cases h; exact .literal _
  | unclosed => cases h; exact .unclosed _
  | reference name =>
    rw [h.unique (becomes_reference name), same name rfl]
    exact becomes_reference name

theorem becomes_congr {parts : List (Part Char)} {pieces : List (List Char)}
    (h : List.Forall₂ (Becomes env) parts pieces)
    (same : ∀ name, .reference name ∈ parts →
      env.get? (String.ofList name) = env'.get? (String.ofList name)) :
    List.Forall₂ (Becomes env') parts pieces := by
  induction h with
  | nil => exact .nil
  | cons here later ih =>
    refine .cons (here.congr ?_) (ih fun name member => same name (List.mem_cons_of_mem _ member))
    rintro name rfl
    exact same name List.mem_cons_self

/-- What a text becomes depends only on the variables that it refers to. -/
theorem expandChars_congr {s : String}
    (same : ∀ name, Refers s name → env.get? name = env'.get? name) :
    expandChars env s.toList = expandChars env' s.toList := by
  obtain ⟨parts, factors⟩ := exists_factors s.toList
  obtain ⟨pieces, become⟩ := exists_pieces env parts
  have become' : List.Forall₂ (Becomes env') parts pieces := by
    refine becomes_congr become fun name member => same _ ⟨parts, factors, ?_⟩
    rwa [String.toList_ofList]
  rw [factors.filled become, factors.filled become']

/-- A text stands for a path in the home directory. -/
def InHome (env : Environment) (s : String) : Prop := ['~', '/'] <+: expandChars env s.toList

theorem expandPath_congr {s : String}
    (same : ∀ name, Refers s name → env.get? name = env'.get? name)
    (home : InHome env s → env.home? = env'.home?) : expandPath env s = expandPath env' s := by
  have chars := expandChars_congr same
  by_cases inside : InHome env s
  · rw [expandPath, expandPath, chars, home inside]
  · have apart : ∀ {e : Environment}, expandChars e s.toList = expandChars env s.toList →
        expandPath e s = Path.ofString (String.ofList (expandChars env s.toList)) := by
      intro e equal
      rw [expandPath, equal]
      split
      next rest home begins _ => exact absurd ⟨rest, begins.symm⟩ inside
      next => rfl
    rw [apart rfl, apart chars.symm]

namespace Document

/-- The texts of a document that stand for paths. -/
def pathTexts (d : Document) : List String :=
  d.worker.bundleDir.toList ++ (d.worker.entryPoint.map trim).toList ++ d.analysis.reports.map trim

/-- A document refers to the home directory if it leaves the bundle directory at its default, which
lies there, or if one of its paths does. -/
def RefersHome (d : Document) (env : Environment) : Prop :=
  d.worker.bundleDir = none ∨ ∃ s ∈ d.pathTexts, InHome env s

/-- Two environments agree on what a document refers to. -/
structure AgreeOn (d : Document) (env env' : Environment) : Prop where
  values : ∀ s ∈ d.pathTexts, ∀ name, Refers s name → env.get? name = env'.get? name
  home : d.RefersHome env → env.home? = env'.home?

variable {d : Document}

theorem AgreeOn.path (h : d.AgreeOn env env') {s : String} (member : s ∈ d.pathTexts) :
    expandPath env s = expandPath env' s :=
  expandPath_congr (h.values s member) fun inside => h.home (.inr ⟨s, member, inside⟩)

theorem AgreeOn.bundleDir (h : d.AgreeOn env env') :
    (d.worker.bundleDir.map (expandPath env)).getD (defaultBundleDir env) =
      (d.worker.bundleDir.map (expandPath env')).getD (defaultBundleDir env') := by
  cases named : d.worker.bundleDir with
  | none =>
    rw [defaultBundleDir, defaultBundleDir, h.home (.inl named)]
    rfl
  | some s =>
    have member : s ∈ d.pathTexts := by simp [pathTexts, named]
    simp only [Option.map_some, Option.getD_some, h.path member]

theorem AgreeOn.entryPoint (h : d.AgreeOn env env') :
    checkEntryPoint env d.worker.entryPoint = checkEntryPoint env' d.worker.entryPoint := by
  cases named : d.worker.entryPoint with
  | none => rfl
  | some s =>
    have member : trim s ∈ d.pathTexts := by simp [pathTexts, named]
    simp only [checkEntryPoint, h.path member]

theorem AgreeOn.reports (h : d.AgreeOn env env') :
    reportPaths env d.analysis.reports = reportPaths env' d.analysis.reports := by
  refine List.map_congr_left fun s member => h.path ?_
  exact List.mem_append_right _ (List.mem_filter.mp member).1

/-- Checking a document depends only on what it refers to. -/
theorem AgreeOn.check (h : d.AgreeOn env env') : d.check env = d.check env' := by
  have worker : checkWorker env d.worker = checkWorker env' d.worker := by
    simp only [checkWorker, defaultWorker, h.bundleDir, h.entryPoint]
  have analysis : checkAnalysis env d.analysis = checkAnalysis env' d.analysis := by
    simp only [checkAnalysis, h.reports]
  simp only [Document.check, worker, analysis]

end Document

/-- Two environments agree on what a settings text refers to. -/
def AgreeOnText (text : String) (env env' : Environment) : Prop :=
  ∀ d, Document.parse? text = some d → d.AgreeOn env env'

theorem ofText_congr {text : String} (h : AgreeOnText text env env') :
    ofText env text = ofText env' text := by
  rw [ofText, ofText]
  cases parsed : Document.parse? text with
  | none => rfl
  | some d => simp only [(h d parsed).check]

/-! ### What settings depend on -/

/-- Two situations agree on a source: on the text of the file and what it refers to, or on the home
directory if the defaults are taken. -/
inductive Agree (tree : FileTree) (env : Environment) (tree' : FileTree) (env' : Environment) :
    Option Path → Prop
  | defaults (home : env.home? = env'.home?) : Agree tree env tree' env' none
  | file {path : Path} (same : tree.readText path = tree'.readText path)
      (referred : ∀ text, tree.readText path = .ok text → AgreeOnText text env env') :
      Agree tree env tree' env' (some path)

theorem Agree.given (h : Agree tree env tree' env' source) :
    source.elim (.ok (default env)) (ofFile tree env) =
      source.elim (.ok (default env')) (ofFile tree' env') := by
  cases h with
  | defaults home =>
    have same : default env = default env' := by
      simp only [default, defaultWorker, defaultBundleDir, home]
    rw [Option.elim_none, Option.elim_none, same]
  | @file path same referred =>
    rw [Option.elim_some, Option.elim_some, ofFile, ofFile, ← same]
    cases read : tree.readText path with
    | error reason => rfl
    | ok text => simp only [ofText_congr (referred text read)]

/-- The environment has its word through one variable. -/
theorem applyEnvironment_congr (s : Settings) {lookup lookup' : String → Option String}
    (same : lookup failFastVariable = lookup' failFastVariable) :
    s.applyEnvironment lookup = s.applyEnvironment lookup' := by
  rw [applyEnvironment, applyEnvironment, same]

theorem load_congr (sources : source? tree env explicit project = source)
    (sources' : source? tree' env' explicit' project' = source)
    (agree : Agree tree env tree' env' source)
    (override : env.get? failFastVariable = env'.get? failFastVariable) :
    load tree env explicit project = load tree' env' explicit' project' := by
  rw [load, load, sources, sources', agree.given]
  split
  next => rfl
  next s _ => rw [applyEnvironment_congr s override]

/-- Settings have one source, the first place that applies, and what is logged and what comes out is
what that place gives; a file that cannot be read or is refused is an error about its path.  In all
situations with this source that agree on it and on the variable that has the last word the same is
logged and the same comes out, whatever the other places hold. -/
theorem load_of_source (tree : FileTree) (env : Environment) (explicit : Option Path)
    (project : Path) :
    ∃ source, (∀ other, ComesFrom tree env explicit project other ↔ other = source) ∧
      Loads tree env source (load tree env explicit project) ∧
      (∀ e, (load tree env explicit project).2 = .error e → source = some e.path) ∧
      (∀ loaded, (load tree env explicit project).2 = .ok loaded → loaded.source = source) ∧
      ∀ tree' env' explicit' project', ComesFrom tree' env' explicit' project' source →
        Agree tree env tree' env' source →
        env.get? failFastVariable = env'.get? failFastVariable →
        load tree' env' explicit' project' = load tree env explicit project := by
  have comes := comesFrom_source? tree env explicit project
  have loads := loads_load tree env explicit project
  refine ⟨source? tree env explicit project, fun other => ⟨?_, ?_⟩, loads,
    fun e failed => loads.path_of_error failed, fun loaded passed => loads.source_of_ok passed, ?_⟩
  · exact fun h => h.unique comes
  · rintro rfl
    exact comes
  · intro tree' env' explicit' project' comes' agree override
    have sources' := (comesFrom_source? tree' env' explicit' project').unique comes'
    exact (load_congr rfl sources' agree override).symm

end LintBridge.Settings
