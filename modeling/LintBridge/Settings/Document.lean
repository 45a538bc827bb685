import LintBridge.Decimal.Shortest
import LintBridge.Settings.Basic
import LintBridge.Toml.Reader

/-! The settings document: what a TOML document says, field by field, and the settings that it gives
once it is checked. Keys that are not known are passed over. Types are checked first, in the whole
document; then the rules, the worker's settings and those of the analysis, in that order. -/

namespace LintBridge.Settings

open LintBridge.Text

/-! ### Fields -/

/-- The settings of the worker as the document gives them. -/
structure WorkerFields where
  timeoutSecs : Option Nat := none
  memoryHint : Option Nat := none
  runtime : Option String := none
  checkVersion : Option Bool := none
  bundleDir : Option String := none
  entryPoint : Option String := none
  failFast : Bool := false

/-- The settings of the analysis as the document gives them. -/
structure AnalysisFields where
  suffixes : Option (List String) := none
  contentPolicy : Option ContentPolicy := none
  mode : Option HostMode := none
  progressIntervalSecs : Option Nat := none
  reports : List String := []

abbrev RuleFields := String × List (String × Toml.Value)

structure Document where
  worker : WorkerFields := {}
  analysis : AnalysisFields := {}
  /-- The rules in the order of their keys, with their parameters in the order of their names. -/
  rules : List RuleFields := []

/-! ### Types of fields -/

def string? : Toml.Value → Option String
  | .string s => some s
  | _ => none

def bool? : Toml.Value → Option Bool
  | .bool b => some b
  | _ => none

def natOfBits? (bits : Nat) : Toml.Value → Option Nat
  | .integer n => if 0 ≤ n ∧ n < Nat.pow 2 bits then some n.toNat else none
  | _ => none

def strings? : Toml.Value → Option (List String)
  | .array items => items.mapM string?
  | _ => none

/-- A name out of a choice of them; it may be written as a table whose one key it is. -/
def choice? (ofName? : String → Option α) : Toml.Value → Option α
  | .string s => ofName? s
  | .table [(s, .table [])] => ofName? s
  | .table [(s, .array [])] => ofName? s
  | _ => none

/-- The value of a field, if it is there; nothing at all if it has the wrong type. -/
def field? (read : Toml.Value → Option α) (v : Option Toml.Value) : Option (Option α) :=
  match v with
  | none => some none
  | some v => (read v).map some

/-- The values of the fields of a section, which is a table, or an array of the fields in order. In
an array the fields up to the last that has no default must be there. -/
def sectionFields? (names : List String) (needed : Nat) :
    Toml.Value → Option (List (Option Toml.Value))
  | .table members => some (names.map fun name => members.lookup name)
  | .array items =>
    if needed ≤ items.length then
      some ((items.take names.length).map some ++
        List.replicate (names.length - items.length) none)
    else none
  | _ => none

def workerFields? (v : Toml.Value) : Option WorkerFields := do
  let names := ["timeout_secs", "max_old_space_size", "runtime", "check_runtime_version",
    "bundle_dir", "entry_point", "fail_fast"]
  match ← sectionFields? names 6 v with
  | [timeout, memory, runtime, check, bundle, entry, failFast] =>
    some
      { timeoutSecs := ← field? (natOfBits? 64) timeout
        memoryHint := ← field? (natOfBits? 32) memory
        runtime := ← field? string? runtime
        checkVersion := ← field? bool? check
        bundleDir := ← field? string? bundle
        entryPoint := ← field? string? entry
        failFast := (← field? bool? failFast).getD false }
  | _ => none

def analysisFields? (v : Toml.Value) : Option AnalysisFields := do
  let names := ["file_suffixes", "send_file_content", "mode", "progress_interval_secs",
    "stylelint_report_paths"]
  match ← sectionFields? names 4 v with
  | [suffixes, policy, mode, interval, reports] =>
    some
      { suffixes := ← field? strings? suffixes
        contentPolicy := ← field? (choice? ContentPolicy.ofName?) policy
        mode := ← field? (choice? HostMode.ofName?) mode
        progressIntervalSecs := ← field? (natOfBits? 64) interval
        reports := (← field? strings? reports).getD [] }
  | _ => none

mutual

def fits : Toml.Value → Bool
  | .integer n => -Nat.pow 2 63 ≤ n && n < Nat.pow 2 63
  | .array items => allFit items
  | .table members => membersFit members
  | _ => true

/-- Whether every integer in a list of values has 64 bits with its sign. -/
def allFit : List Toml.Value → Bool
  | [] => true
  | v :: vs => fits v && allFit vs

def membersFit : List (String × Toml.Value) → Bool
  | [] => true
  | m :: ms => fits m.2 && membersFit ms

end

/-- The order of keys, octet by octet. -/
def keyLe (a b : String) : Bool :=
  (Path.compareBytes (Utf8.ofString a) (Utf8.ofString b)).isLE

def sortMembers (members : List (String × α)) : List (String × α) :=
  members.mergeSort fun a b => keyLe a.1 b.1

def ruleFields? : String × Toml.Value → Option RuleFields
  | (key, .table params) => if membersFit params then some (key, sortMembers params) else none
  | _ => none

def rulesFields? : Toml.Value → Option (List RuleFields)
  | .table rules => (sortMembers rules).mapM ruleFields?
  | _ => none

def Document.ofMembers? (members : List (String × Toml.Value)) : Option Document := do
  some
    { worker := (← field? workerFields? (members.lookup "bridge")).getD {}
      analysis := (← field? analysisFields? (members.lookup "analysis")).getD {}
      rules := (← field? rulesFields? (members.lookup "rules")).getD [] }

def Document.parse? (text : String) : Option Document :=
  (Toml.parse? text).bind Document.ofMembers?

/-! ### Checks -/

mutual

/-- A rule parameter as text; the items of an array are joined by commas, and a table is none. -/
def paramText? : Toml.Value → Option String
  | .string s => some s
  | .integer n => some (toString n)
  | .float x => some (Decimal.doubleText x)
  | .bool b => some (if b then "true" else "false")
  | .moment m => some m.text
  | .array items => (paramTexts? items).map (",".intercalate ·)
  | .table _ => none

def paramTexts? : List Toml.Value → Option (List String)
  | [] => some []
  | v :: vs => do
    let t ← paramText? v
    let ts ← paramTexts? vs
    some (t :: ts)

end

def addParams (key : String) (rule : ActiveRule) :
    List (String × Toml.Value) → Except Invalid ActiveRule
  | [] => .ok rule
  | (name, v) :: rest =>
    match paramText? v with
    | some text => addParams key (rule.withParam name text) rest
    | none => .error (.nestedRuleParam key name)

/-- The rule that the document names; white space around its key does not count. -/
def checkRule (fields : RuleFields) : Except Invalid ActiveRule :=
  addParams fields.1 { key := trim fields.1 } fields.2

/-- A number that must not be zero, with its default. -/
def checkNonZero (e : Invalid) (default : α) (make : Nat → α) : Option Nat → Except Invalid α
  | none => .ok default
  | some 0 => .error e
  | some n => .ok (make n)

/-- The entry point: not blank, and with references filled in. -/
def checkEntryPoint (env : Environment) : Option String → Except Invalid Path
  | none => .ok (defaultWorker env).entryPoint
  | some s => if isAllBlank s then .error .emptyEntryPoint else .ok (expandPath env (trim s))

/-- The runtime: a blank one means that the entry point runs itself. -/
def checkRuntime : Option String → Option String
  | none => some "node"
  | some s => if isAllBlank s then none else some (trim s)

def checkWorker (env : Environment) (f : WorkerFields) : Except Invalid WorkerSettings := do
  let base := defaultWorker env
  let timeout ← checkNonZero .zeroTimeout base.timeout Duration.ofSecs f.timeoutSecs
  let memoryHint ← checkNonZero .zeroMemoryHint base.memoryHint some f.memoryHint
  let entryPoint ← checkEntryPoint env f.entryPoint
  return {
    timeout, memoryHint, entryPoint
    runtime := checkRuntime f.runtime
    checkVersion := f.checkVersion.getD base.checkVersion
    bundleDir := (f.bundleDir.map (expandPath env)).getD base.bundleDir
    failFast := f.failFast }

/-- A suffix in lower case, without white space around it and without dots before it. -/
def normalSuffix (s : String) : String :=
  asciiLower (String.ofList ((trimChars s.toList).dropWhile (· == '.')))

/-- The suffixes, of which at least one must be left once they are normal. -/
def checkSuffixes : Option (List String) → Except Invalid (List String)
  | none => .ok defaultAnalysis.suffixes
  | some suffixes =>
    match (suffixes.map normalSuffix).filter (· ≠ "") with
    | [] => .error .noSuffixes
    | s :: ss => .ok (s :: ss)

/-- The reports: blank paths are dropped, and references filled in. -/
def reportPaths (env : Environment) (reports : List String) : List Path :=
  ((reports.map trim).filter (· ≠ "")).map (expandPath env)

def checkAnalysis (env : Environment) (f : AnalysisFields) : Except Invalid AnalysisSettings := do
  let suffixes ← checkSuffixes f.suffixes
  let progressInterval ←
    checkNonZero .zeroProgressInterval defaultAnalysis.progressInterval Duration.ofSecs
      f.progressIntervalSecs
  return {
    suffixes, progressInterval
    contentPolicy := f.contentPolicy.getD defaultAnalysis.contentPolicy
    mode := f.mode.getD defaultAnalysis.mode
    reports := reportPaths env f.reports }

def checkRules : List RuleFields → Except Invalid (List ActiveRule)
  | [] => .ok []
  | f :: fs => do
    let rule ← checkRule f
    let rules ← checkRules fs
    return rule :: rules

def Document.check (env : Environment) (d : Document) : Except Invalid Settings := do
  let rules ← checkRules d.rules
  let worker ← checkWorker env d.worker
  let analysis ← checkAnalysis env d.analysis
  return ⟨worker, analysis, rules⟩

/-- The settings of a document that passes are those of its sections, each of which passes. -/
theorem sections_of_check {env : Environment} {d : Document} {s : Settings}
    (h : d.check env = .ok s) : checkRules d.rules = .ok s.rules ∧
      checkWorker env d.worker = .ok s.worker ∧ checkAnalysis env d.analysis = .ok s.analysis := by
  simp only [Document.check, bind, Except.bind] at h
  split at h
  · cases h
  next rules checked =>
    split at h
    · cases h
    next worker checked' =>
      split at h
      · cases h
      next analysis checked'' =>
        cases h
        exact ⟨checked, checked', checked''⟩

inductive Refusal where
  /-- It is no TOML document, or a field has the wrong type. -/
  | malformed
  | invalid (e : Invalid)
  deriving DecidableEq, Repr

def Refusal.message : Refusal → String
  | .malformed => "the document is malformed or a value in it has the wrong type"
  | .invalid e => e.message

def ofText (env : Environment) (text : String) : Except Refusal Settings :=
  match Document.parse? text with
  | none => .error .malformed
  | some d =>
    match d.check env with
    | .error e => .error (.invalid e)
    | .ok s => .ok s

end LintBridge.Settings
