import LintBridge.Proofs.Text.Trim
import LintBridge.Settings.Load
import Mathlib.Data.List.TakeWhile

/-! Which settings there can be.  `Valid` is what every document that is accepted gives, and what
every change keeps; `Rejects` has the reasons for which a document that is well formed and well
typed can be refused.  A check gives either what is valid, where there is no reason against it, or a
reason that there is (`Judged`); so these are the only reasons, and each of them suffices
(`settings_valid`). -/

namespace LintBridge

open LintBridge.Text

/-! ### Valid settings -/

/-- A suffix by which files are chosen. -/
structure IsSuffix (s : String) : Prop where
  nonempty : s ≠ ""
  undotted : s.toList.head? ≠ some '.'
  lower : ∀ c ∈ s.toList, c.isUpper = false

structure WorkerSettings.Valid (s : WorkerSettings) : Prop where
  timeout : s.timeout.nanos ≠ 0
  memoryHint : s.memoryHint ≠ some 0
  runtime : ∀ r, s.runtime = some r → r ≠ "" ∧ IsBare r.toList

structure AnalysisSettings.Valid (s : AnalysisSettings) : Prop where
  suffixes : s.suffixes ≠ []
  suffix : ∀ t ∈ s.suffixes, IsSuffix t
  progressInterval : s.progressInterval.nanos ≠ 0

namespace Settings

structure Valid (s : Settings) : Prop where
  worker : s.worker.Valid
  analysis : s.analysis.Valid

/-! ### Changes -/

/-- A change of settings after they were loaded. -/
inductive Change where
  | failFast (failFast : Bool)
  | timeout (timeout : Duration)
  | bundleDir (dir : Path)
  | mode (mode : HostMode)
  | reports (reports : List Path)
  | environment (lookup : String → Option String)

def change (s : Settings) : Change → Settings
  | .failFast failFast => s.setFailFast failFast
  | .timeout timeout => s.setTimeout timeout
  | .bundleDir dir => s.setBundleDir dir
  | .mode mode => s.setMode mode
  | .reports reports => s.setReports reports
  | .environment lookup => (s.applyEnvironment lookup).1

/-- The settings after changes, one after the other. -/
def changeAll (s : Settings) (changes : List Change) : Settings := changes.foldl change s

theorem Valid.setFailFast {s : Settings} (valid : s.Valid) (failFast : Bool) :
    (s.setFailFast failFast).Valid := ⟨{ valid.worker with }, valid.analysis⟩

/-- No change breaks valid settings: a timeout of zero is not taken over, and no other one touches
what has to be valid. -/
theorem Valid.change {s : Settings} (valid : s.Valid) (c : Change) : (s.change c).Valid := by
  cases c with
  | failFast failFast => exact valid.setFailFast failFast
  | timeout timeout =>
    simp only [Settings.change, setTimeout]
    split
    · exact valid
    next nonzero => exact ⟨{ valid.worker with timeout := nonzero }, valid.analysis⟩
  | bundleDir dir => exact ⟨{ valid.worker with }, valid.analysis⟩
  | mode mode => exact ⟨valid.worker, { valid.analysis with }⟩
  | reports reports => exact ⟨valid.worker, { valid.analysis with }⟩
  | environment lookup =>
    simp only [Settings.change, applyEnvironment]
    split
    · exact valid
    · split
      next failFast _ => exact valid.setFailFast failFast
      · exact valid

theorem Valid.changeAll {s : Settings} (valid : s.Valid) (changes : List Change) :
    (s.changeAll changes).Valid := by
  induction changes generalizing s with
  | nil => exact valid
  | cons c changes ih => exact ih (valid.change c)

/-! ### Suffixes -/

/-- A character in lower case is as it was, and no capital letter, or it is a small letter. -/
theorem toLower_cases (c : Char) : (c.toLower = c ∧ c.isUpper = false) ∨
    (97 ≤ c.toLower.val.toNat ∧ c.toLower.val.toNat ≤ 122) := by
  by_cases upper : c.isUpper = true
  · have range := of_decide_eq_true upper
    have above := UInt32.le_iff_toNat_le.mp range.1
    have below := UInt32.le_iff_toNat_le.mp range.2
    delta Char.toLower
    rw [dif_pos range]
    simp [UInt32.toNat_add] at above below ⊢
    omega
  · exact .inl ⟨dif_neg (of_decide_eq_false (Bool.eq_false_iff.mpr upper)),
      Bool.eq_false_iff.mpr upper⟩

theorem isUpper_toLower (c : Char) : c.toLower.isUpper = false := by
  rcases toLower_cases c with ⟨same, none⟩ | ⟨above, -⟩
  · rw [same, none]
  · refine decide_eq_false fun range => ?_
    have below : c.toLower.val.toNat ≤ 90 := UInt32.le_iff_toNat_le.mp range.2
    omega

theorem eq_of_toLower_eq_dot {c : Char} (h : c.toLower = '.') : c = '.' := by
  rcases toLower_cases c with ⟨same, -⟩ | ⟨above, -⟩
  · exact same.symm.trans h
  · rw [h] at above
    exact absurd above (by decide)

theorem toList_normalSuffix (s : String) :
    (normalSuffix s).toList = ((trimChars s.toList).dropWhile (· == '.')).map Char.toLower := by
  rw [normalSuffix, asciiLower, String.toList_map, String.toList_ofList]

/-- Nothing is left of a suffix just if it has nothing but dots once it is trimmed. -/
theorem normalSuffix_eq_empty {s : String} :
    normalSuffix s = "" ↔ ∀ c ∈ trimChars s.toList, c = '.' := by
  rw [← String.toList_eq_nil_iff, toList_normalSuffix, List.map_eq_nil_iff,
    List.dropWhile_eq_nil_iff]
  simp

theorem isSuffix_normalSuffix {s : String} (h : normalSuffix s ≠ "") :
    IsSuffix (normalSuffix s) where
  nonempty := h
  undotted := by
    rw [toList_normalSuffix, List.head?_map]
    intro dotted
    obtain ⟨c, first, lowered⟩ := Option.map_eq_some_iff.mp dotted
    have found := List.head?_dropWhile_not (· == '.') (trimChars s.toList)
    rw [first] at found
    simp [eq_of_toLower_eq_dot lowered] at found
  lower := by
    rw [toList_normalSuffix]
    intro c member
    obtain ⟨d, -, rfl⟩ := List.mem_map.mp member
    exact isUpper_toLower d

/-! ### Checks -/

/-- What a check gives: something good where there is no reason against it, or else a reason. -/
inductive Judged {α : Type} (Good : α → Prop) (Bad : Invalid → Prop) : Except Invalid α → Prop
  | ok {a : α} (good : Good a) (fine : ∀ e, ¬ Bad e) : Judged Good Bad (.ok a)
  | error {e : Invalid} (bad : Bad e) : Judged Good Bad (.error e)

namespace Judged

variable {α β : Type} {Good : α → Prop} {Good' : β → Prop} {Bad Bad' : Invalid → Prop}
  {x : Except Invalid α}

/-- A check after another: there are the reasons of the one and of the other. -/
theorem bind {f : α → Except Invalid β} (first : Judged Good Bad x)
    (rest : ∀ a, Good a → Judged Good' Bad' (f a)) :
    Judged Good' (fun e => Bad e ∨ Bad' e) (x >>= f) := by
  cases first with
  | error bad => exact .error (.inl bad)
  | @ok a good fine =>
    have judged := rest a good
    show Judged Good' _ (f a)
    generalize f a = y at judged ⊢
    cases judged with
    | error bad => exact .error (.inr bad)
    | ok good' fine' => exact .ok good' fun e bad => bad.elim (fine e) (fine' e)

theorem pure {a : α} (good : Good a) : Judged Good (fun _ => False) (Pure.pure a) :=
  .ok good fun _ => id

theorem imp {Better : α → Prop} (h : Judged Good Bad x) (good : ∀ a, Good a → Better a)
    (bad : ∀ e, Bad e ↔ Bad' e) : Judged Better Bad' x := by
  cases h with
  | error b => exact .error ((bad _).mp b)
  | ok g fine => exact .ok (good _ g) fun e b => fine e ((bad e).mpr b)

end Judged

/-! ### The worker -/

theorem nanos_ofSecs {n : Nat} (h : n ≠ 0) : (Duration.ofSecs n).nanos ≠ 0 := by
  simp only [Duration.ofSecs]
  omega

theorem judged_checkNonZero {α : Type} (Good : α → Prop) (e : Invalid) (make : Nat → α)
    {default : α} (base : Good default) (made : ∀ n, n ≠ 0 → Good (make n)) (given : Option Nat) :
    Judged Good (fun e' => e' = e ∧ given = some 0) (checkNonZero e default make given) := by
  match given with
  | none => exact .ok base nofun
  | some 0 => exact .error ⟨rfl, rfl⟩
  | some (n + 1) => exact .ok (made _ n.succ_ne_zero) nofun

theorem judged_seconds (e : Invalid) {default : Nat} (base : default ≠ 0) (given : Option Nat) :
    Judged (fun t => t.nanos ≠ 0) (fun e' => e' = e ∧ given = some 0)
      (checkNonZero e (Duration.ofSecs default) Duration.ofSecs given) :=
  judged_checkNonZero (fun t : Duration => t.nanos ≠ 0) e Duration.ofSecs (nanos_ofSecs base)
    (fun _ => nanos_ofSecs) given

theorem judged_memoryHint (given : Option Nat) :
    Judged (fun m => m ≠ some 0) (fun e => e = .zeroMemoryHint ∧ given = some 0)
      (checkNonZero .zeroMemoryHint none some given) :=
  judged_checkNonZero (fun m : Option Nat => m ≠ some 0) .zeroMemoryHint some
    (Option.some_ne_none 0).symm (fun _ => mt Option.some.inj) given

theorem judged_checkEntryPoint (env : Environment) (given : Option String) :
    Judged (fun _ => True)
      (fun e => e = .emptyEntryPoint ∧ ∃ s, given = some s ∧ s.toList.all isBlank = true)
      (checkEntryPoint env given) := by
  cases given with
  | none => exact .ok trivial (by simp)
  | some s =>
    by_cases blank : isAllBlank s = true
    · rw [checkEntryPoint, if_pos blank]
      exact .error ⟨rfl, s, rfl, blank⟩
    · rw [checkEntryPoint, if_neg blank]
      refine .ok trivial ?_
      rintro e ⟨-, _, ⟨⟩, blank'⟩
      exact blank blank'

/-- A runtime that is kept is trimmed, and something is left of it. -/
theorem isBare_checkRuntime (given : Option String) :
    ∀ r, checkRuntime given = some r → r ≠ "" ∧ IsBare r.toList := by
  intro r kept
  cases given with
  | none =>
    obtain rfl := Option.some.inj kept
    exact ⟨by decide, isBare_iff.mpr (by decide)⟩
  | some s =>
    by_cases blank : isAllBlank s = true
    · rw [checkRuntime, if_pos blank] at kept
      cases kept
    · rw [checkRuntime, if_neg blank] at kept
      obtain rfl := Option.some.inj kept
      rw [← String.toList_eq_nil_iff.ne, trim, String.toList_ofList]
      exact ⟨mt trimChars_eq_nil.mp blank, isBare_trimChars s.toList⟩

/-- Why the settings of a worker can be refused. -/
inductive RejectsWorker (f : WorkerFields) : Invalid → Prop
  | timeout (zero : f.timeoutSecs = some 0) : RejectsWorker f .zeroTimeout
  | memoryHint (zero : f.memoryHint = some 0) : RejectsWorker f .zeroMemoryHint
  | entryPoint {s : String} (given : f.entryPoint = some s)
      (blank : s.toList.all isBlank = true) : RejectsWorker f .emptyEntryPoint

theorem judged_checkWorker (env : Environment) (f : WorkerFields) :
    Judged WorkerSettings.Valid (RejectsWorker f) (checkWorker env f) := by
  -- the checks one after the other; what they are all about follows from what each is about
  have judged : Judged WorkerSettings.Valid _ (checkWorker env f) :=
    (judged_seconds .zeroTimeout (by decide) f.timeoutSecs).bind fun _ nonzero =>
    (judged_memoryHint f.memoryHint).bind fun _ hint =>
    (judged_checkEntryPoint env f.entryPoint).bind fun _ _ =>
      .pure ⟨nonzero, hint, isBare_checkRuntime f.runtime⟩
  refine judged.imp (fun _ => id) fun e => ⟨?_, ?_⟩
  · rintro (⟨rfl, zero⟩ | ⟨rfl, zero⟩ | ⟨rfl, s, given, blank⟩ | none)
    · exact .timeout zero
    · exact .memoryHint zero
    · exact .entryPoint given blank
    · exact none.elim
  · rintro (zero | zero | ⟨given, blank⟩)
    · exact .inl ⟨rfl, zero⟩
    · exact .inr (.inl ⟨rfl, zero⟩)
    · exact .inr (.inr (.inl ⟨rfl, _, given, blank⟩))

/-! ### The analysis -/

/-- Why the settings of the analysis can be refused. -/
inductive RejectsAnalysis (f : AnalysisFields) : Invalid → Prop
  | suffixes {suffixes : List String} (given : f.suffixes = some suffixes)
      (none : ∀ s ∈ suffixes, ∃ kept, Trims s.toList kept ∧ ∀ c ∈ kept, c = '.') :
      RejectsAnalysis f .noSuffixes
  | progressInterval (zero : f.progressIntervalSecs = some 0) :
      RejectsAnalysis f .zeroProgressInterval

theorem isSuffix_default : ∀ t ∈ defaultAnalysis.suffixes, IsSuffix t := by
  have each : ∀ t ∈ ["css", "less", "scss"], t ≠ "" ∧ t.toList.head? ≠ some '.' ∧
      ∀ c ∈ t.toList, c.isUpper = false := by simp
  exact fun t member => ⟨(each t member).1, (each t member).2.1, (each t member).2.2⟩

theorem normalSuffix_eq_empty_iff_trims {s : String} :
    normalSuffix s = "" ↔ ∃ kept, Trims s.toList kept ∧ ∀ c ∈ kept, c = '.' := by
  simp only [normalSuffix_eq_empty, trims_iff, exists_eq_left]

theorem judged_checkSuffixes (given : Option (List String)) :
    Judged (fun suffixes => suffixes ≠ [] ∧ ∀ t ∈ suffixes, IsSuffix t)
      (fun e => e = .noSuffixes ∧ ∃ suffixes, given = some suffixes ∧
        ∀ s ∈ suffixes, ∃ kept, Trims s.toList kept ∧ ∀ c ∈ kept, c = '.')
      (checkSuffixes given) := by
  cases given with
  | none => exact .ok ⟨List.cons_ne_nil _ _, isSuffix_default⟩ (by simp)
  | some suffixes =>
    have left : ∀ t ∈ (suffixes.map normalSuffix).filter (· ≠ ""), IsSuffix t := by
      intro t member
      obtain ⟨normal, kept⟩ := List.mem_filter.mp member
      obtain ⟨s, -, rfl⟩ := List.mem_map.mp normal
      exact isSuffix_normalSuffix (of_decide_eq_true kept)
    have none_iff : (suffixes.map normalSuffix).filter (· ≠ "") = [] ↔
        ∀ s ∈ suffixes, normalSuffix s = "" := by
      simp [List.filter_eq_nil_iff]
    simp only [← normalSuffix_eq_empty_iff_trims]
    simp only [checkSuffixes]
    split
    next none => exact .error ⟨rfl, suffixes, rfl, none_iff.mp none⟩
    next t ts some =>
      refine .ok ⟨List.cons_ne_nil t ts, some ▸ left⟩ ?_
      rintro e ⟨-, _, ⟨⟩, none⟩
      cases some.symm.trans (none_iff.mpr none)

theorem judged_checkAnalysis (env : Environment) (f : AnalysisFields) :
    Judged AnalysisSettings.Valid (RejectsAnalysis f) (checkAnalysis env f) := by
  have judged : Judged AnalysisSettings.Valid _ (checkAnalysis env f) :=
    (judged_checkSuffixes f.suffixes).bind fun _ suffixes =>
    (judged_seconds .zeroProgressInterval (by decide) f.progressIntervalSecs).bind
      fun _ nonzero => .pure ⟨suffixes.1, suffixes.2, nonzero⟩
  refine judged.imp (fun _ => id) fun e => ⟨?_, ?_⟩
  · rintro (⟨rfl, suffixes, given, none⟩ | ⟨rfl, zero⟩ | none)
    · exact .suffixes given none
    · exact .progressInterval zero
    · exact none.elim
  · rintro (⟨given, none⟩ | zero)
    · exact .inl ⟨rfl, _, given, none⟩
    · exact .inr (.inl ⟨rfl, zero⟩)

/-! ### The rules -/

/-- A value is a table, or an array that contains one. -/
inductive HasTable : Toml.Value → Prop
  | table (members : List (String × Toml.Value)) : HasTable (.table members)
  | item {items : List Toml.Value} {v : Toml.Value} (member : v ∈ items) (inner : HasTable v) :
      HasTable (.array items)

mutual

/-- A parameter has a text just if it contains no table. -/
theorem paramText?_eq_none : ∀ {v : Toml.Value}, paramText? v = none ↔ HasTable v
  | .string _ | .integer _ | .float _ | .bool _ | .moment _ =>
    ⟨fun none => by simp [paramText?] at none, nofun⟩
  | .table members => ⟨fun _ => .table members, fun _ => by rw [paramText?]⟩
  | .array items => by
    rw [paramText?, Option.map_eq_none_iff, paramTexts?_eq_none]
    constructor
    · rintro ⟨v, member, inner⟩
      exact .item member inner
    · rintro (_ | ⟨member, inner⟩)
      exact ⟨_, member, inner⟩

theorem paramTexts?_eq_none : ∀ {vs : List Toml.Value},
    paramTexts? vs = none ↔ ∃ v ∈ vs, HasTable v
  | [] => by simp [paramTexts?]
  | v :: vs => by
    have here : paramText? v = none ↔ HasTable v := paramText?_eq_none
    have later : paramTexts? vs = none ↔ ∃ v ∈ vs, HasTable v := paramTexts?_eq_none
    simp only [List.mem_cons, exists_eq_or_imp]
    rw [← here, ← later, paramTexts?]
    cases paramText? v <;> cases paramTexts? vs <;> simp

end

/-- Why a rule can be refused. -/
inductive RejectsRule (rule : RuleFields) : Invalid → Prop
  | param {name : String} {v : Toml.Value} (member : (name, v) ∈ rule.2) (table : HasTable v) :
      RejectsRule rule (.nestedRuleParam rule.1 name)

theorem judged_addParams (key : String) (params : List (String × Toml.Value)) (rule : ActiveRule) :
    Judged (fun _ => True) (RejectsRule (key, params)) (addParams key rule params) := by
  induction params generalizing rule with
  | nil =>
    refine .ok trivial ?_
    rintro e ⟨member, -⟩
    cases member
  | cons param rest ih =>
    obtain ⟨name, v⟩ := param
    rw [addParams]
    cases text : paramText? v with
    | none => exact .error (.param List.mem_cons_self (paramText?_eq_none.mp text))
    | some text' =>
      refine (ih (rule.withParam name text')).imp (fun _ => id) fun e => ⟨?_, ?_⟩
      · rintro ⟨member, table⟩
        exact .param (List.mem_cons_of_mem _ member) table
      · rintro ⟨member, table⟩
        rcases List.mem_cons.mp member with same | member
        · cases same
          cases text.symm.trans (paramText?_eq_none.mpr table)
        · exact .param member table

theorem judged_checkRules (rules : List RuleFields) :
    Judged (fun _ => True) (fun e => ∃ rule ∈ rules, RejectsRule rule e) (checkRules rules) := by
  induction rules with
  | nil => exact .ok trivial (by simp)
  | cons rule rules ih =>
    have judged : Judged (fun _ => True) _ (checkRules (rule :: rules)) :=
      (judged_addParams rule.1 rule.2 { key := trim rule.1 }).bind fun _ _ =>
      ih.bind fun _ _ => .pure trivial
    refine judged.imp (fun _ => id) fun e => ?_
    simp only [List.mem_cons, exists_eq_or_imp, or_false]

/-! ### The document -/

/-- Why a document can be refused that is well formed and well typed. -/
inductive Rejects (d : Document) (e : Invalid) : Prop
  | rule {rule : RuleFields} (member : rule ∈ d.rules) (h : RejectsRule rule e)
  | worker (h : RejectsWorker d.worker e)
  | analysis (h : RejectsAnalysis d.analysis e)

theorem judged_check (env : Environment) (d : Document) :
    Judged Valid (Rejects d) (d.check env) := by
  have judged : Judged Valid _ (d.check env) :=
    (judged_checkRules d.rules).bind fun _ _ =>
    (judged_checkWorker env d.worker).bind fun _ worker =>
    (judged_checkAnalysis env d.analysis).bind fun _ analysis => .pure ⟨worker, analysis⟩
  refine judged.imp (fun _ => id) fun e => ⟨?_, ?_⟩
  · rintro (⟨rule, member, h⟩ | h | h | none)
    · exact .rule member h
    · exact .worker h
    · exact .analysis h
    · exact none.elim
  · rintro (⟨member, h⟩ | h | h)
    · exact .inl ⟨_, member, h⟩
    · exact .inr (.inl h)
    · exact .inr (.inr (.inl h))

theorem judged_ofText (env : Environment) {text : String} {d : Document}
    (parsed : Document.parse? text = some d) :
    (∃ s, ofText env text = .ok s ∧ s.Valid ∧ ∀ e, ¬ Rejects d e) ∨
      ∃ e, ofText env text = .error (.invalid e) ∧ Rejects d e := by
  simp only [ofText, parsed]
  have judged := judged_check env d
  generalize d.check env = result at judged ⊢
  cases judged with
  | @ok s valid fine => exact .inl ⟨s, rfl, valid, fine⟩
  | @error e bad => exact .inr ⟨e, rfl, bad⟩

/-- A text gives settings that are valid, and stay so whatever is changed in them, just if it is a
document against which there is no reason; any other text is refused as no document, or for a
reason that there is. -/
theorem settings_valid (env : Environment) (text : String) :
    match Document.parse? text with
    | none => ofText env text = .error .malformed
    | some d =>
      (∃ s, ofText env text = .ok s ∧ (∀ changes, (s.changeAll changes).Valid) ∧
        ∀ e, ¬ Rejects d e) ∨
      ∃ e, ofText env text = .error (.invalid e) ∧ Rejects d e := by
  cases parsed : Document.parse? text with
  | none => simp only [ofText, parsed]
  | some d =>
    rcases judged_ofText env parsed with ⟨s, given, valid, fine⟩ | refused
    · exact .inl ⟨s, given, valid.changeAll, fine⟩
    · exact .inr refused

/-- One of the suffixes is left, so that only the timeout speaks against the document. -/
example : ofText {} "[bridge]\ntimeout_secs = 0\n[analysis]\nfile_suffixes = [\".\", \"CSS\"]" =
    .error (.invalid .zeroTimeout) := by
  simp only [ofText, Document.parse?, Toml.parse?, String.reduceToList]
  rfl

end Settings

end LintBridge
