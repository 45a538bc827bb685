import LintBridge.Proofs.RuleSet.Resolution
import LintBridge.Proofs.Text.Trim

/-! What a rule set is determined by.  Active rules are taken one by one, and those that the catalog
does not have are passed over, so only the order of rules with one key can make a difference:
`ofActive_eq_of_same`.  And only one thing can be wrong with a rule, which is that its parameter for
fallback values says neither yes nor no; the first such rule ends it, whichever rule with that key
would have counted in the end: `ofActive_eq_error`. -/

namespace LintBridge

open LintBridge.Text LintBridge.Json

/-! ### Truth values -/

/-- A text says yes or no: without the white space around it, it is one of the two words, in capital
letters, small ones, or both. -/
def IsTruth (raw : String) : Prop :=
  ∃ kept, Trims raw.toList kept ∧
    (kept.map Char.toLower = "true".toList ∨ kept.map Char.toLower = "false".toList)

theorem eqIgnoringAsciiCase_trim {raw t : String} : eqIgnoringAsciiCase (trim raw) t = true ↔
    ∃ kept, Trims raw.toList kept ∧ kept.map Char.toLower = t.toList.map Char.toLower := by
  simp only [trims_iff, exists_eq_left]
  rw [eqIgnoringAsciiCase, beq_iff_eq, ← String.toList_inj, asciiLower, asciiLower,
    String.toList_map, String.toList_map, trim, String.toList_ofList]

theorem isTruth_iff {raw : String} : IsTruth raw ↔
    eqIgnoringAsciiCase (trim raw) "true" = true ∨
      eqIgnoringAsciiCase (trim raw) "false" = true := by
  have yes : "true".toList.map Char.toLower = "true".toList := by decide
  have no : "false".toList.map Char.toLower = "false".toList := by decide
  rw [eqIgnoringAsciiCase_trim, eqIgnoringAsciiCase_trim, yes, no]
  simp only [IsTruth, and_or_left, exists_or]

theorem ActiveRule.boolParam_eq_error {rule : ActiveRule} {name : String} {default : Bool}
    {e : ParamError} : rule.boolParam name default = .error e ↔
      ∃ raw, rule.param? name = some raw ∧ ¬ IsTruth raw ∧ e = .notABoolean rule.key name raw := by
  cases given : rule.param? name with
  | none => simp [boolParam, given]
  | some raw =>
    simp only [boolParam, given, isTruth_iff, Option.some.injEq, exists_eq_left']
    split_ifs with yes no
    · simp [yes]
    · simp [no]
    · simp [yes, no, eq_comm]

namespace RuleSet

/-! ### What can be wrong with a rule -/

/-- A rule is refused for a value of its parameter. -/
structure Refuses (rule : ActiveRule) (raw : String) : Prop where
  key : rule.key = "S4656"
  given : rule.param? "ignoreFallbacks" = some raw
  other : ¬ IsTruth raw

/-- The first one of some rules that is refused is refused for a value. -/
def RefusesFirst (active : List ActiveRule) (raw : String) : Prop :=
  ∃ before rule after, active = before ++ rule :: after ∧ Refuses rule raw ∧
    ∀ earlier ∈ before, ∀ other, ¬ Refuses earlier other

theorem options_eq_ignoreFallbacks_iff :
    ∀ c ∈ catalog, c.options = .ignoreFallbacks ↔ c.key = "S4656" := by
  decide +kernel

theorem refuses_congr {rule : ActiveRule} {raw other : String} (h : Refuses rule raw)
    (h' : Refuses rule other) : raw = other := Option.some.inj (h.given.symm.trans h'.given)

/-- Only the parameter for fallback values can be wrong. -/
theorem render_eq_error {c : CatalogEntry} {rule : ActiveRule} (inCatalog : c ∈ catalog)
    (same : c.key = rule.key) {e : ParamError} : c.render rule = .error e ↔
      ∃ raw, Refuses rule raw ∧ e = .notABoolean "S4656" "ignoreFallbacks" raw := by
  have map_eq_error {α β : Type} {f : α → β} {x : Except ParamError α} :
      x.map f = .error e ↔ x = .error e := by
    cases x <;> simp [Except.map]
  rw [CatalogEntry.render]
  have fallbacks := options_eq_ignoreFallbacks_iff c inCatalog
  rw [same] at fallbacks
  have never (other : c.options ≠ .ignoreFallbacks) : ∀ raw, ¬ Refuses rule raw :=
    fun raw refused => other (fallbacks.mpr refused.key)
  cases options : c.options with
  | ignoreFallbacks =>
    have key := fallbacks.mp options
    rw [map_eq_error, ActiveRule.boolParam_eq_error, key]
    constructor
    · rintro ⟨raw, given, other, rfl⟩
      exact ⟨raw, ⟨key, given, other⟩, rfl⟩
    · rintro ⟨raw, ⟨-, given, other⟩, rfl⟩
      exact ⟨raw, given, other, rfl⟩
  | none => simp [never (by simp [options])]
  | ignoreList => simp [never (by simp [options])]
  | ignorePseudoClasses => simp [never (by simp [options])]

theorem refusesFirst_cons {rule : ActiveRule} {rest : List ActiveRule} {raw : String} :
    RefusesFirst (rule :: rest) raw ↔
      Refuses rule raw ∨ ((∀ other, ¬ Refuses rule other) ∧ RefusesFirst rest raw) := by
  constructor
  · rintro ⟨_ | ⟨first, before⟩, found, after, split, refused, none⟩
    · obtain ⟨rfl, rfl⟩ := List.cons.inj split
      exact .inl refused
    · obtain ⟨rfl, rfl⟩ := List.cons.inj split
      obtain ⟨here, later⟩ := List.forall_mem_cons.mp none
      exact .inr ⟨here, before, found, after, rfl, refused, later⟩
  · rintro (refused | ⟨here, before, found, after, rfl, refused, later⟩)
    · exact ⟨[], rule, rest, rfl, refused, nofun⟩
    · exact ⟨rule :: before, found, after, rfl, refused, List.forall_mem_cons.mpr ⟨here, later⟩⟩

theorem addAll_eq_error {active : List ActiveRule} {before : RuleSet} {e : ParamError} :
    (addAll before active).2 = .error e ↔
      ∃ raw, RefusesFirst active raw ∧ e = .notABoolean "S4656" "ignoreFallbacks" raw := by
  induction active generalizing before with
  | nil => simp [addAll, RefusesFirst]
  | cons rule rest ih =>
    simp only [refusesFirst_cons]
    cases known : catalogEntry? rule.key with
    | none =>
      have never : ∀ raw, ¬ Refuses rule raw := by
        intro raw refused
        rw [refused.key] at known
        exact absurd known (by decide +kernel)
      simp only [addAll, known]
      rw [ih]
      simp [never]
    | some c =>
      obtain ⟨inCatalog, same⟩ := catalogEntry?_eq_some.mp known
      cases rendered : c.render rule with
      | error e' =>
        obtain ⟨raw, refused, rfl⟩ := (render_eq_error inCatalog same).mp rendered
        simp only [addAll, known, rendered, Except.error.injEq]
        constructor
        · rintro rfl
          exact ⟨raw, .inl refused, rfl⟩
        · rintro ⟨other, again | ⟨none, -⟩, rfl⟩
          · rw [refuses_congr refused again]
          · exact absurd refused (none raw)
      | ok value =>
        have never : ∀ raw, ¬ Refuses rule raw := by
          intro raw refused
          have failed := (render_eq_error inCatalog same).mpr ⟨raw, refused, rfl⟩
          cases rendered.symm.trans failed
        simp only [addAll, known, rendered]
        rw [ih]
        simp [never]

/-- Active rules are refused just for the value of the first one of them that is refused. -/
theorem ofActive_eq_error {active : List ActiveRule} {e : ParamError} :
    (ofActive active).2 = .error e ↔
      ∃ raw, RefusesFirst active raw ∧ e = .notABoolean "S4656" "ignoreFallbacks" raw :=
  addAll_eq_error

/-- One of some rules is refused just if there is a first one. -/
theorem exists_refusesFirst {active : List ActiveRule} :
    (∃ raw, RefusesFirst active raw) ↔ ∃ rule ∈ active, ∃ raw, Refuses rule raw := by
  induction active with
  | nil => simp [RefusesFirst]
  | cons rule rest ih =>
    simp only [refusesFirst_cons, exists_or, exists_and_left, ih, List.mem_cons, exists_eq_or_imp]
    by_cases here : ∃ raw, Refuses rule raw
    · simp [here]
    · simp [not_exists.mp here]

/-! ### Rules with one key -/

/-- The active rules with a key, in their order. -/
def under (key : String) (active : List ActiveRule) : List ActiveRule :=
  active.filter (·.key = key)

/-- Two lists of active rules have the same rules in the same order under each key of the catalog,
however these stand among each other and among rules that the catalog does not have. -/
def SameUnderKeys (active other : List ActiveRule) : Prop :=
  ∀ c ∈ catalog, under c.key active = under c.key other

theorem SameUnderKeys.symm {active other : List ActiveRule} (h : SameUnderKeys active other) :
    SameUnderKeys other active := fun c inCatalog => (h c inCatalog).symm

theorem refusesFirst_under {active : List ActiveRule} {raw : String} :
    RefusesFirst (under "S4656" active) raw ↔ RefusesFirst active raw := by
  induction active with
  | nil => rfl
  | cons rule rest ih =>
    by_cases here : rule.key = "S4656"
    · rw [under, List.filter_cons_of_pos (by simpa using here), refusesFirst_cons,
        refusesFirst_cons, ← under, ih]
    · have never : ∀ other, ¬ Refuses rule other := fun _ refused => here refused.key
      rw [under, List.filter_cons_of_neg (by simpa using here), refusesFirst_cons, ← under, ih]
      simp [never]

theorem SameUnderKeys.refusesFirst {active other : List ActiveRule} {raw : String}
    (h : SameUnderKeys active other) (first : RefusesFirst active raw) :
    RefusesFirst other raw := by
  obtain ⟨c, inCatalog, key⟩ : ∃ c ∈ catalog, c.key = "S4656" := by decide +kernel
  rw [← refusesFirst_under, ← key, ← h c inCatalog, key, refusesFirst_under]
  exact first

theorem IsLast.getLast? {active : List ActiveRule} {key : String} {rule : ActiveRule}
    (h : IsLast active key rule) : (under key active).getLast? = some rule := by
  obtain ⟨before, after, rfl, same, last⟩ := h
  have alone : under key after = [] := by
    simpa [under] using last
  rw [under, List.filter_append, List.filter_cons_of_pos (by simpa using same), ← under, ← under,
    alone, List.getLast?_concat]

section Same

variable {active other : List ActiveRule} {rules rules' : RuleSet} {c : CatalogEntry}

/-- A rule of the catalog that one list of active rules takes in is taken in by the other. -/
theorem SameUnderKeys.stands (h : SameUnderKeys active other)
    (resolved' : (ofActive other).2 = .ok rules') (stands : Stands active rules c) :
    Stands other rules' c := by
  obtain ⟨rule, -, last, -⟩ := stands.value
  have listed := last.getLast?
  rw [h c stands.inCatalog] at listed
  obtain ⟨member, same⟩ := List.mem_filter.mp (List.mem_of_getLast? listed)
  exact stands_of_active resolved' member stands.inCatalog (of_decide_eq_true same).symm

/-- It has the same value there, since that comes of the same last rule. -/
theorem SameUnderKeys.value_eq (h : SameUnderKeys active other) (stands : Stands active rules c)
    (stands' : Stands other rules' c) :
    rules.config.get? c.linterKey = rules'.config.get? c.linterKey := by
  obtain ⟨rule, v, last, rendered, found⟩ := stands.value
  obtain ⟨rule', v', last', rendered', found'⟩ := stands'.value
  have listed := last.getLast?
  rw [h c stands.inCatalog] at listed
  obtain rfl := Option.some.inj (listed.symm.trans last'.getLast?)
  rw [found, found', Except.ok.inj (rendered.symm.trans rendered')]

/-- Each key of the linter leads to the same in both rule sets. -/
theorem SameUnderKeys.get?_eq (h : SameUnderKeys active other)
    (resolved : (ofActive active).2 = .ok rules) (resolved' : (ofActive other).2 = .ok rules')
    (s : String) :
    rules.keys.get? s = rules'.keys.get? s ∧ rules.config.get? s = rules'.config.get? s := by
  rcases adds_ofActive resolved s with ⟨c, rfl, stands⟩ | ⟨-, keys, config⟩
  · have stands' := h.stands resolved' stands
    exact ⟨stands.key.trans stands'.key.symm, h.value_eq stands stands'⟩
  rcases adds_ofActive resolved' s with ⟨c, rfl, stands'⟩ | ⟨-, keys', config'⟩
  · cases keys.symm.trans (h.symm.stands resolved stands').key
  · exact ⟨keys.trans keys'.symm, config.trans config'.symm⟩

end Same

/-- What active rules resolve to does not depend on how rules with different keys stand among each
other, nor on those that the catalog does not have. -/
theorem ofActive_eq_of_same {active other : List ActiveRule} (h : SameUnderKeys active other) :
    (ofActive active).2 = (ofActive other).2 := by
  cases resolved : (ofActive active).2 with
  | error e =>
    obtain ⟨raw, first, named⟩ := ofActive_eq_error.mp resolved
    exact (ofActive_eq_error.mpr ⟨raw, h.refusesFirst first, named⟩).symm
  | ok rules =>
    cases resolved' : (ofActive other).2 with
    | error e =>
      obtain ⟨raw, first, named⟩ := ofActive_eq_error.mp resolved'
      cases resolved.symm.trans (ofActive_eq_error.mpr ⟨raw, h.symm.refusesFirst first, named⟩)
    | ok rules' =>
      have ordered := isOrdered_ofActive resolved
      have ordered' := isOrdered_ofActive resolved'
      have keys := ordered.keys.ext ordered'.keys fun s => (h.get?_eq resolved resolved' s).1
      have config := ordered.config.ext ordered'.config fun s => (h.get?_eq resolved resolved' s).2
      rw [Except.ok.injEq]
      exact RuleSet.ext keys config

/-- Active rules that are the same under each key of the catalog resolve to the same rule set, with
the same keys of the host and the same configuration, or are refused for the same value.  They are
refused just if one of them is, even if a later one with its key would count, and then for the value
of the first one. -/
theorem ofActive_determined {active other : List ActiveRule} (same : SameUnderKeys active other) :
    (ofActive active).2 = (ofActive other).2 ∧
    ((∃ e, (ofActive active).2 = .error e) ↔ ∃ rule ∈ active, ∃ raw, Refuses rule raw) ∧
    ∀ e, (ofActive active).2 = .error e ↔
      ∃ raw, RefusesFirst active raw ∧ e = .notABoolean "S4656" "ignoreFallbacks" raw := by
  refine ⟨ofActive_eq_of_same same, ?_, fun _ => ofActive_eq_error⟩
  rw [← exists_refusesFirst]
  constructor
  · rintro ⟨e, refused⟩
    obtain ⟨raw, first, -⟩ := ofActive_eq_error.mp refused
    exact ⟨raw, first⟩
  · rintro ⟨raw, first⟩
    exact ⟨_, ofActive_eq_error.mpr ⟨raw, first, rfl⟩⟩

/-- A value that is wrong is found although a later rule with its key would count, and a rule that
the catalog does not have and the place of other rules make no difference. -/
theorem ofActive_determined_shadowed :
    let wrong : ActiveRule := ⟨"S4656", [("ignoreFallbacks", " Yes ")]⟩
    let right : ActiveRule := ⟨"S4656", [("ignoreFallbacks", " FALSE ")]⟩
    let active : List ActiveRule := [wrong, ⟨"S9999", []⟩, ⟨"S4647", []⟩, right]
    let other : List ActiveRule := [⟨"S4647", []⟩, wrong, right]
    SameUnderKeys active other ∧ (ofActive active).2 = (ofActive other).2 ∧
      (ofActive active).2 = .error (.notABoolean "S4656" "ignoreFallbacks" " Yes ") := by
  intro wrong right active other
  have same : SameUnderKeys active other := by
    unfold SameUnderKeys
    decide +kernel
  obtain ⟨equal, -, first⟩ := ofActive_determined same
  have refused : Refuses wrong " Yes " := by
    refine ⟨rfl, rfl, ?_⟩
    rintro ⟨kept, trimmed, word⟩
    rw [trims_iff.mp trimmed] at word
    exact absurd word (by decide)
  exact ⟨same, equal, (first _).mpr ⟨_, ⟨[], wrong, _, rfl, refused, nofun⟩, rfl⟩⟩

end RuleSet

end LintBridge
