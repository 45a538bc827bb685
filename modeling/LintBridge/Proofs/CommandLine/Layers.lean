import LintBridge.CommandLine.Run
import LintBridge.Proofs.Settings.Validity

/-! The layers of the settings: what a document says, what the environment says, and what the
command line says.  Each setting is taken from the highest layer that has it, and every other one
stays as the document has it; changes of different settings do not depend on their order. -/

namespace LintBridge.Settings

open LintBridge.Text

/-! ### What the environment says -/

/-- The words that say yes, and those that say no. -/
def words : Bool → List String
  | true => ["1", "true", "yes"]
  | false => ["0", "false", "no"]

/-- A value says yes or no: without white space around it, and but for case, it is a word for it. -/
def Means (raw : String) (answer : Bool) : Prop :=
  ∃ word ∈ words answer, eqIgnoringAsciiCase (trim raw) word = true

/-- No word says both. -/
theorem words_apart {s : String} (yes : s ∈ words true) : s ∉ words false := by
  simp only [words, List.mem_cons, List.not_mem_nil, or_false] at yes
  obtain rfl | rfl | rfl := yes <;> decide

theorem truth?_eq_some {s : String} {answer : Bool} :
    truth? s = some answer ↔ s ∈ words answer := by
  have read : truth? s =
      if s ∈ words true then some true else if s ∈ words false then some false else none := by
    simp only [truth?, List.contains_iff_mem]
    rfl
  by_cases yes : s ∈ words true
  · rw [read, if_pos yes]
    cases answer <;> simp [yes, words_apart yes]
  · rw [read, if_neg yes]
    cases answer <;> simp [yes]

/-- The words are in lower case. -/
theorem asciiLower_word {answer : Bool} {word : String} (h : word ∈ words answer) :
    asciiLower word = word := by
  rw [← String.toList_inj, asciiLower, String.toList_map]
  cases answer <;> simp only [words, List.mem_cons, List.not_mem_nil, or_false] at h <;>
    obtain rfl | rfl | rfl := h <;> decide

theorem means_iff {raw : String} {answer : Bool} :
    Means raw answer ↔ truth? (asciiLower (trim raw)) = some answer := by
  rw [truth?_eq_some]
  constructor
  · rintro ⟨word, listed, same⟩
    rw [eqIgnoringAsciiCase, beq_iff_eq, asciiLower_word listed] at same
    exact same ▸ listed
  · intro listed
    refine ⟨_, listed, ?_⟩
    rw [eqIgnoringAsciiCase, asciiLower_word listed, beq_self_eq_true]

variable {s : Settings} {lookup : String → Option String}

theorem applyEnvironment_of_means {raw : String} {answer : Bool}
    (set : lookup failFastVariable = some raw) (means : Means raw answer) :
    s.applyEnvironment lookup = (s.setFailFast answer, []) := by
  simp only [applyEnvironment, set, means_iff.mp means]

/-- Where the environment says neither yes nor no, the settings stay as they are. -/
theorem applyEnvironment_of_silent
    (silent : ∀ raw answer, lookup failFastVariable = some raw → ¬ Means raw answer) :
    (s.applyEnvironment lookup).1 = s := by
  unfold applyEnvironment
  split
  next => rfl
  next raw set =>
    dsimp only
    split
    next answer value => exact absurd (means_iff.mpr value) (silent raw answer set)
    next => rfl

theorem applyEnvironment_cases (lookup : String → Option String) :
    (∃ raw answer, lookup failFastVariable = some raw ∧ Means raw answer ∧
      ∀ s : Settings, s.applyEnvironment lookup = (s.setFailFast answer, [])) ∨
    ∀ s : Settings, (s.applyEnvironment lookup).1 = s := by
  by_cases said : ∃ raw answer, lookup failFastVariable = some raw ∧ Means raw answer
  · obtain ⟨raw, answer, set, means⟩ := said
    exact .inl ⟨raw, answer, set, means, fun _ => applyEnvironment_of_means set means⟩
  · refine .inr fun _ => applyEnvironment_of_silent fun raw answer set means => ?_
    exact said ⟨raw, answer, set, means⟩

/-- The environment sets one field: as it says, or to what it was. -/
theorem exists_setFailFast (s : Settings) (lookup : String → Option String) :
    ∃ failFast, (s.applyEnvironment lookup).1 = s.setFailFast failFast ∧
      (∀ raw answer, lookup failFastVariable = some raw → Means raw answer → failFast = answer) ∧
      ((∀ raw answer, lookup failFastVariable = some raw → ¬ Means raw answer) →
        failFast = s.worker.failFast) := by
  obtain ⟨raw, answer, set, means, answers⟩ | silent := applyEnvironment_cases lookup
  · refine ⟨answer, congrArg Prod.fst (answers s), fun raw' answer' set' means' => ?_,
      fun silent => absurd means (silent raw answer set)⟩
    obtain rfl := Option.some.inj (set.symm.trans set')
    exact Option.some.inj ((means_iff.mp means).symm.trans (means_iff.mp means'))
  · refine ⟨s.worker.failFast, silent s, fun raw answer set means => ?_, fun _ => rfl⟩
    have same := silent s
    rw [applyEnvironment_of_means set means] at same
    exact congrArg (·.worker.failFast) same.symm

theorem applyEnvironment_twice (s : Settings) (lookup : String → Option String) :
    (s.applyEnvironment lookup).1.applyEnvironment lookup = s.applyEnvironment lookup := by
  obtain ⟨_, answer, -, -, answers⟩ | silent := applyEnvironment_cases lookup
  · rw [answers, answers]
    rfl
  · rw [silent]

/-! ### Changes of different settings -/

/-- The settings that can be changed once a document was read. -/
inductive Setting where
  | failFast
  | timeout
  | bundleDir
  | mode
  | reports
  deriving DecidableEq

def Change.setting : Change → Setting
  | .failFast _ | .environment _ => .failFast
  | .timeout _ => .timeout
  | .bundleDir _ => .bundleDir
  | .mode _ => .mode
  | .reports _ => .reports

/-- A change of one setting, by what it was before: no other is read or written. -/
inductive Alters : Setting → (Settings → Settings) → Prop
  | failFast (f : Bool → Bool) :
      Alters .failFast fun s =>
        { s with worker := { s.worker with failFast := f s.worker.failFast } }
  | timeout (f : Duration → Duration) :
      Alters .timeout fun s => { s with worker := { s.worker with timeout := f s.worker.timeout } }
  | bundleDir (f : Path → Path) :
      Alters .bundleDir fun s =>
        { s with worker := { s.worker with bundleDir := f s.worker.bundleDir } }
  | mode (f : HostMode → HostMode) :
      Alters .mode fun s => { s with analysis := { s.analysis with mode := f s.analysis.mode } }
  | reports (f : List Path → List Path) :
      Alters .reports fun s =>
        { s with analysis := { s.analysis with reports := f s.analysis.reports } }

theorem Alters.comm {x y : Setting} {f g : Settings → Settings} (first : Alters x f)
    (second : Alters y g) (apart : x ≠ y) (s : Settings) : f (g s) = g (f s) := by
  cases first <;> cases second <;> first | rfl | exact absurd rfl apart

theorem alters_change (c : Change) : Alters c.setting (change · c) := by
  cases c with
  | failFast failFast => exact .failFast fun _ => failFast
  | bundleDir dir => exact .bundleDir fun _ => dir
  | mode mode => exact .mode fun _ => mode
  | reports reports => exact .reports fun _ => reports
  | timeout timeout =>
    by_cases zero : timeout.nanos = 0
    · have same : (change · (.timeout timeout)) = id := funext fun s => if_pos zero
      rw [same]
      exact .timeout id
    · have set : (change · (.timeout timeout)) =
          fun s => { s with worker := { s.worker with timeout } } := funext fun s => if_neg zero
      rw [set]
      exact .timeout fun _ => timeout
  | environment lookup =>
    obtain ⟨_, answer, -, -, answers⟩ | silent := applyEnvironment_cases lookup
    · have set : (change · (.environment lookup)) = fun s => s.setFailFast answer :=
        funext fun s => congrArg Prod.fst (answers s)
      rw [set]
      exact .failFast fun _ => answer
    · have same : (change · (.environment lookup)) = id := funext silent
      rw [same]
      exact .failFast id

theorem change_comm {c d : Change} (apart : c.setting ≠ d.setting) (s : Settings) :
    (s.change c).change d = (s.change d).change c :=
  (alters_change d).comm (alters_change c) apart.symm s

/-- A change can be made before changes of other settings. -/
theorem changeAll_front {c : Change} {before : List Change}
    (others : ∀ b ∈ before, b.setting ≠ c.setting) (after : List Change) (s : Settings) :
    s.changeAll (before ++ c :: after) = (s.change c).changeAll (before ++ after) := by
  induction before generalizing s with
  | nil => rfl
  | cons b before ih =>
    obtain ⟨other, others⟩ := List.forall_mem_cons.mp others
    calc s.changeAll (b :: before ++ c :: after)
        = (s.change b).changeAll (before ++ c :: after) := rfl
      _ = ((s.change b).change c).changeAll (before ++ after) := ih others _
      _ = ((s.change c).change b).changeAll (before ++ after) := by rw [change_comm other]

/-- The changes of one setting among some. -/
def changesOf (x : Setting) (changes : List Change) : List Change :=
  changes.filter fun c => c.setting = x

theorem changesOf_append (x : Setting) (cs ds : List Change) :
    changesOf x (cs ++ ds) = changesOf x cs ++ changesOf x ds := List.filter_append ..

/-- It only matters in which order the changes of one and the same setting are made. -/
theorem changeAll_congr {cs ds : List Change} (same : ∀ x, changesOf x cs = changesOf x ds)
    (s : Settings) : s.changeAll cs = s.changeAll ds := by
  induction cs generalizing ds s with
  | nil =>
    cases ds with
    | nil => rfl
    | cons d ds =>
      have none := same d.setting
      simp [changesOf] at none
  | cons c cs ih =>
    have first := same c.setting
    rw [changesOf, List.filter_cons_of_pos (by simp), eq_comm, changesOf,
      List.filter_eq_cons_iff] at first
    obtain ⟨before, after, rfl, others, -, rest⟩ := first
    have others : ∀ b ∈ before, b.setting ≠ c.setting := by simpa using others
    rw [changeAll_front others]
    refine ih (fun x => ?_) (s.change c)
    by_cases here : c.setting = x
    · subst here
      have none : changesOf c.setting before = [] := by
        simpa [changesOf, List.filter_eq_nil_iff] using others
      rw [changesOf_append, none]
      exact rest.symm
    · have kept := same x
      rw [changesOf_append] at kept ⊢
      simpa [changesOf, List.filter_cons, here] using kept

end LintBridge.Settings

namespace LintBridge.CommandLine

open LintBridge.Settings LintBridge.Analysis LintBridge.Text

/-! ### What arguments can be -/

/-- A timeout among arguments is not zero. -/
def Arguments.IsTimed (a : Arguments) : Prop := a.timeout ≠ some 0

theorem readDigits_ne_zero {n m : Nat} {s : List Char} (h : readDigits n s = .ok m) : m ≠ 0 := by
  fun_induction readDigits n s with
  | case1 => cases h
  | case2 n some => exact Except.ok.inj h ▸ some
  | case3 => cases h
  | case4 => cases h
  | case5 n c r digit fits ih => exact ih h

theorem readSeconds_ne_zero {s : String} {m : Nat} (h : readSeconds s = .ok m) : m ≠ 0 := by
  unfold readSeconds at h
  split at h
  · cases h
  · cases h
  · exact readDigits_ne_zero h
  · exact readDigits_ne_zero h

/-- A value that is read changes arguments in its own field. -/
theorem exists_of_map {ε α : Type} {read : Except ε α} {put : α → Arguments} {b : Arguments}
    (h : read.map put = .ok b) : ∃ value, put value = b := by
  cases read with
  | error e => cases h
  | ok value => exact ⟨value, Except.ok.inj h⟩

theorem isTimed_set {a b : Arguments} {field : Field} {value : String} (timed : a.IsTimed)
    (h : a.set field value = .ok b) : b.IsTimed := by
  cases field with
  | timeout =>
    simp only [Arguments.set] at h
    split at h
    next n read =>
      cases h
      exact fun zero => readSeconds_ne_zero read (Option.some.inj zero)
    next => cases h
  | project | config | bundleDir | report | format =>
    obtain ⟨_, rfl⟩ := exists_of_map h
    exact timed
  | failFast | interactive | verbose | help | version =>
    cases h
    exact timed

/-- Whatever is read, the timeout among the arguments is not zero. -/
def Times (read : Except Stop Reading) : Prop := ∀ r, read = .ok r → r.arguments.IsTimed

theorem Times.error (e : Stop) : Times (.error e) := fun _ => nofun

theorem Times.bind {read : Except Stop Reading} {more : Reading → Except Stop Reading}
    (first : Times read) (rest : ∀ r, r.arguments.IsTimed → Times (more r)) :
    Times (read >>= more) := by
  cases read with
  | error e => exact .error e
  | ok r => exact rest r (first r rfl)

theorem Times.ok {r : Reading} (timed : r.arguments.IsTimed) : Times (.ok r) := by
  rintro _ ⟨⟩
  exact timed

namespace Reading

variable {r : Reading} (timed : r.arguments.IsTimed)
include timed

theorem times_accept (field : Field) (value : String) : Times (r.accept field value) := by
  unfold accept
  split
  · exact .error _
  · split
    next arguments set => exact .ok (isTimed_set timed set)
    next => exact .error _

theorem times_resolve : Times r.resolve := by
  unfold resolve
  split
  · exact .ok timed
  · exact .error _
  · exact times_accept (r := { r with pending := none }) timed _ _

theorem times_flag (field : Field) : Times (r.flag field) := by
  unfold flag
  refine (times_resolve timed).bind fun r timed => ?_
  split
  · exact .error _
  · exact .error _
  · exact times_accept timed _ _

theorem times_letters (cs : List Char) : Times (r.letters cs) := by
  induction cs generalizing r with
  | nil => exact .ok timed
  | cons c cs ih =>
    unfold letters
    split
    · exact .error _
    · exact (times_flag timed _).bind fun r timed => ih timed

theorem times_option (name : String) (value : Option String) : Times (r.option name value) := by
  unfold option
  split
  · exact .error _
  · split
    · exact (times_resolve timed).bind fun r timed => times_accept timed _ _
    · exact (times_resolve timed).bind fun r timed => .ok timed
    · exact .error _
    · exact times_flag timed _

theorem times_plain (ended : Bool) (argument : String) : Times (r.plain ended argument) := by
  unfold plain
  split
  · exact .ok timed
  · split
    · exact .error _
    · exact (times_resolve timed).bind fun r timed => .ok timed

theorem times_all (ended : Bool) (arguments : List String) : Times (r.all ended arguments) := by
  induction arguments generalizing r ended with
  | nil => exact times_resolve timed
  | cons argument rest ih =>
    unfold all
    split
    · exact ih timed true
    · exact (times_option timed _ _).bind fun r timed => ih timed false
    · exact (times_letters timed _).bind fun r timed => ih timed false
    · exact (times_plain timed _ _).bind fun r timed => ih timed _

end Reading

theorem isTimed_parse {arguments : List String} {a : Arguments}
    (h : parse arguments = .ok (.run a)) : a.IsTimed := by
  unfold parse at h
  split at h
  next r read =>
    cases h
    exact Reading.times_all (r := {}) nofun false arguments r read
  all_goals cases h

/-! ### The layers -/

/-- Settings in which each field is from the highest layer that has it: the command line, then the
environment, then a document. -/
structure Layered (document : Settings) (lookup : String → Option String) (a : Arguments)
    (s : Settings) : Prop where
  failFast_given : a.failFast = true → s.worker.failFast = true
  failFast_said : ∀ raw answer, a.failFast = false → lookup failFastVariable = some raw →
    Means raw answer → s.worker.failFast = answer
  failFast_kept : a.failFast = false →
    (∀ raw answer, lookup failFastVariable = some raw → ¬ Means raw answer) →
    s.worker.failFast = document.worker.failFast
  timeout : s.worker.timeout = (a.timeout.map Duration.ofSecs).getD document.worker.timeout
  bundleDir : s.worker.bundleDir = a.bundleDir.getD document.worker.bundleDir
  mode : s.analysis.mode = if a.interactive then .interactive else document.analysis.mode
  reports : s.analysis.reports = if a.reports = [] then document.analysis.reports else a.reports
  memoryHint : s.worker.memoryHint = document.worker.memoryHint
  runtime : s.worker.runtime = document.worker.runtime
  checkVersion : s.worker.checkVersion = document.worker.checkVersion
  entryPoint : s.worker.entryPoint = document.worker.entryPoint
  suffixes : s.analysis.suffixes = document.analysis.suffixes
  contentPolicy : s.analysis.contentPolicy = document.analysis.contentPolicy
  progressInterval : s.analysis.progressInterval = document.analysis.progressInterval
  rules : s.rules = document.rules

section Arguments

variable {a : Arguments} (timed : a.IsTimed)
include timed

/-- What arguments make of settings, field by field. -/
theorem applyArguments_eq (s : Settings) : applyArguments s a =
    { s with
      worker := { s.worker with
        failFast := a.failFast || s.worker.failFast
        timeout := (a.timeout.map Duration.ofSecs).getD s.worker.timeout
        bundleDir := a.bundleDir.getD s.worker.bundleDir }
      analysis := { s.analysis with
        mode := if a.interactive then .interactive else s.analysis.mode
        reports := if a.reports = [] then s.analysis.reports else a.reports } } := by
  have failFast : ∀ s : Settings, (if a.failFast then s.setFailFast true else s) =
      { s with worker := { s.worker with failFast := a.failFast || s.worker.failFast } } := by
    intro s
    cases a.failFast <;> rfl
  have timeout : ∀ s : Settings, a.timeout.elim s (fun n => s.setTimeout (.ofSecs n)) =
      { s with worker := { s.worker with
        timeout := (a.timeout.map Duration.ofSecs).getD s.worker.timeout } } := by
    intro s
    cases given : a.timeout with
    | none => rfl
    | some n =>
      have nonzero : n ≠ 0 := by
        rintro rfl
        exact timed given
      have set : s.setTimeout (.ofSecs n) =
          { s with worker := { s.worker with timeout := .ofSecs n } } := by
        rw [setTimeout, if_neg (nanos_ofSecs nonzero)]
      rw [Option.elim_some, set, Option.map_some, Option.getD_some]
  have bundleDir : ∀ s : Settings, a.bundleDir.elim s s.setBundleDir =
      { s with worker := { s.worker with
        bundleDir := a.bundleDir.getD s.worker.bundleDir } } := by
    intro s
    cases a.bundleDir <;> rfl
  have mode : ∀ s : Settings, (if a.interactive then s.setMode .interactive else s) =
      { s with analysis := { s.analysis with
        mode := if a.interactive then .interactive else s.analysis.mode } } := by
    intro s
    cases a.interactive <;> rfl
  have reports : ∀ s : Settings, (if a.reports = [] then s else s.setReports a.reports) =
      { s with analysis := { s.analysis with
        reports := if a.reports = [] then s.analysis.reports else a.reports } } := by
    intro s
    by_cases none : a.reports = [] <;> simp only [none, if_true, if_false, setReports]
  simp only [applyArguments, failFast, timeout, bundleDir, mode, reports]

theorem applyArguments_twice (s : Settings) :
    applyArguments (applyArguments s a) a = applyArguments s a := by
  rw [applyArguments_eq timed, applyArguments_eq timed]
  cases a.failFast <;> cases a.timeout <;> cases a.bundleDir <;> cases a.interactive <;>
    by_cases none : a.reports = [] <;> simp [none]

theorem layered (document : Settings) (lookup : String → Option String) :
    Layered document lookup a (applyArguments (document.applyEnvironment lookup).1 a) := by
  obtain ⟨failFast, same, said, kept⟩ := exists_setFailFast document lookup
  rw [same, applyArguments_eq timed]
  exact
    { failFast_given := fun given => by simp [given]
      failFast_said := fun raw answer given set means => by
        simp [given, setFailFast, said raw answer set means]
      failFast_kept := fun given silent => by simp [given, setFailFast, kept silent]
      timeout := rfl
      bundleDir := rfl
      mode := rfl
      reports := rfl
      memoryHint := rfl
      runtime := rfl
      checkVersion := rfl
      entryPoint := rfl
      suffixes := rfl
      contentPolicy := rfl
      progressInterval := rfl
      rules := rfl }

end Arguments

/-- A program that gets as far as its project runs with its document, with what the environment says
put over that, and with its arguments over both. -/
theorem settings_of_prepare {σ : Type} {sys : System σ} {env : Environment} {a : Arguments}
    {world w : σ} {logs : List Log.Record} {p : Prepared}
    (h : prepare sys env a world = (logs, .ok p, w)) :
    ∃ project document rules,
      (source? (sys.tree world) env a.config project).elim (.ok (default env))
        (ofFile (sys.tree world) env) = .ok document ∧
      let s := applyArguments (document.applyEnvironment env.get?).1 a
      (RuleSet.ofActive (profile s)).2 = .ok rules ∧
      p.job = jobFor s project rules ∧ p.supervisor = supervisorFor s := by
  unfold prepare at h
  split at h
  · cases h
  next project found =>
  split at h
  · cases h
  next logs' loaded read =>
  dsimp only at h
  split at h
  · cases h
  next more rules active =>
  split at h
  · cases h
  cases h
  unfold load at read
  dsimp only at read
  split at read
  · cases read
  next document given =>
    cases read
    exact ⟨project, document, rules, given, congrArg Prod.snd active, rfl, rfl⟩

/-- The settings of a run take each field from the highest layer that has it: the command line over
the environment over the document.  The program runs with just these.  Putting a layer on twice is
putting it on once, every change touches its own setting only, and so changes can be made in any
order that keeps those of one setting in theirs. -/
theorem settings_layered {arguments : List String} {a : Arguments}
    (parsed : parse arguments = .ok (.run a)) :
    (∀ document lookup,
      Layered document lookup a (applyArguments (document.applyEnvironment lookup).1 a)) ∧
    (∀ (s : Settings) lookup,
      (s.applyEnvironment lookup).1.applyEnvironment lookup = s.applyEnvironment lookup) ∧
    (∀ s, applyArguments (applyArguments s a) a = applyArguments s a) ∧
    (∀ c : Change, Alters c.setting (change · c)) ∧
    (∀ cs ds, (∀ x, changesOf x cs = changesOf x ds) →
      ∀ s : Settings, s.changeAll cs = s.changeAll ds) ∧
    ∀ {σ : Type} (sys : System σ) env world logs p w,
      prepare sys env a world = (logs, .ok p, w) →
      ∃ project document s rules,
        (source? (sys.tree world) env a.config project).elim (.ok (default env))
          (ofFile (sys.tree world) env) = .ok document ∧
        Layered document env.get? a s ∧
        p.job = jobFor s project rules ∧ p.supervisor = supervisorFor s := by
  have timed := isTimed_parse parsed
  refine ⟨layered timed, applyEnvironment_twice, applyArguments_twice timed, alters_change,
    fun _ _ same => changeAll_congr same, ?_⟩
  intro σ sys env world logs p w prepared
  obtain ⟨project, document, rules, given, -, job, supervisor⟩ := settings_of_prepare prepared
  exact ⟨project, document, _, rules, given, layered timed document env.get?, job, supervisor⟩

/-- Arguments that say nothing of failing fast, an environment that says no to it, and a document
that says yes; the arguments name one report, and the document another. -/
theorem settings_layered_mixed :
    let arguments := ["--timeout=5", "--stylelint-report", "b.json", "proj"]
    let document := ((Settings.default {}).setFailFast true).setReports [.ofString "a.json"]
    let lookup := fun _ => some " No "
    ∃ a, parse arguments = .ok (.run a) ∧
      let s := applyArguments (document.applyEnvironment lookup).1 a
      Layered document lookup a s ∧
      s.worker.failFast = false ∧ s.worker.timeout = .ofSecs 5 ∧
      s.analysis.reports = [.ofString "b.json"] := by
  intro arguments document lookup
  have parsed : parse arguments = .ok (.run
      { project := .ofString "proj", timeout := some 5, reports := [.ofString "b.json"] }) := by
    decide +kernel
  refine ⟨_, parsed, ?_⟩
  have layered := (settings_layered parsed).1 document lookup
  refine ⟨layered, ?_, layered.timeout, layered.reports⟩
  refine layered.failFast_said " No " false rfl rfl ⟨"no", by decide, ?_⟩
  rw [eqIgnoringAsciiCase, beq_iff_eq, ← String.toList_inj]
  simp only [asciiLower, trim, String.toList_map, String.toList_ofList]
  decide

end LintBridge.CommandLine
