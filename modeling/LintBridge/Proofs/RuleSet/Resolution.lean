import LintBridge.Proofs.KeyMap
import LintBridge.RuleSet
import Mathlib.Data.List.Dedup

/-! What a rule set holds of the active rules that it was resolved from.  Its two maps are filled
side by side, so that at every moment the same rules of the linter have a key in the host and a
value in the configuration: `isPaired_ofActive`.  Under each key of the linter the maps hold what
the last active rule with that key asks for, and else nothing: `adds_ofActive`.  So the
configuration of the linter and the way back from its keys to those of the host agree:
`ofActive_agrees`. -/

namespace LintBridge

open LintBridge.Text LintBridge.Json

/-! ### The catalog -/

/-- No two rules of the catalog share a key of the host. -/
theorem nodup_catalogKeys : (catalog.map (·.key)).Nodup := by decide +kernel

/-- No two rules of the catalog share a key of the linter. -/
theorem nodup_catalogLinterKeys : (catalog.map (·.linterKey)).Nodup := by decide +kernel

/-- A rule of the catalog is known by either of its keys. -/
theorem catalog_unique {c d : CatalogEntry} (hc : c ∈ catalog) (hd : d ∈ catalog)
    (h : d.linterKey = c.linterKey ∨ d.key = c.key) : d = c :=
  h.elim (List.inj_on_of_nodup_map nodup_catalogLinterKeys hd hc)
    (List.inj_on_of_nodup_map nodup_catalogKeys hd hc)

theorem catalogEntry?_eq_some {key : String} {c : CatalogEntry} :
    catalogEntry? key = some c ↔ c ∈ catalog ∧ c.key = key :=
  find?_key_eq_some nodup_catalogKeys

theorem catalogEntry?_eq_none {key : String} :
    catalogEntry? key = none ↔ ∀ c ∈ catalog, c.key ≠ key := by
  unfold catalogEntry?
  simp

namespace RuleSet

/-! ### Taking rules in -/

section Adding

variable {rules before after : RuleSet} {c : CatalogEntry} {v : Value} {rule : ActiveRule}
  {rest active : List ActiveRule} {s : String}

theorem keys_add (rules : RuleSet) (c : CatalogEntry) (v : Value) (s : String) :
    (rules.add c v).keys.get? s =
      if c.linterKey = s then some ⟨repository, c.key⟩ else rules.keys.get? s :=
  KeyMap.get?_insert ..

theorem config_add (rules : RuleSet) (c : CatalogEntry) (v : Value) (s : String) :
    (rules.add c v).config.get? s = if c.linterKey = s then some v else rules.config.get? s :=
  KeyMap.get?_insert ..

/-- What one active rule does where no parameter is wrong: it is passed over, or it is taken in. -/
theorem addAll_cons_eq_ok : (addAll before (rule :: rest)).2 = .ok after ↔
    catalogEntry? rule.key = none ∧ (addAll before rest).2 = .ok after ∨
    ∃ c v, catalogEntry? rule.key = some c ∧ c.render rule = .ok v ∧
      (addAll (before.add c v) rest).2 = .ok after := by
  cases known : catalogEntry? rule.key with
  | none => simp [addAll, known]
  | some c => cases rendered : c.render rule <;> simp [addAll, known, rendered]

/-- What taking in one rule preserves holds after any active rules. -/
theorem addAll_preserves {P : RuleSet → Prop} (step : ∀ rules c v, P rules → P (rules.add c v))
    (h : (addAll before active).2 = .ok after) (start : P before) : P after := by
  induction active generalizing before with
  | nil =>
    cases h
    exact start
  | cons rule rest ih =>
    rcases addAll_cons_eq_ok.mp h with ⟨-, below⟩ | ⟨c, v, -, -, below⟩
    · exact ih below start
    · exact ih below (step before c v start)

/-- The same rules of the linter have a key in the host and a value in the configuration. -/
def IsPaired (rules : RuleSet) : Prop :=
  ∀ s, (rules.keys.get? s).isSome = (rules.config.get? s).isSome

theorem isPaired_empty : IsPaired {} := fun _ => rfl

theorem IsPaired.add (h : IsPaired rules) (c : CatalogEntry) (v : Value) :
    IsPaired (rules.add c v) := by
  intro s
  rw [keys_add, config_add]
  split
  · rfl
  · exact h s

/-- Both maps are in the order of the linter's keys. -/
structure IsOrdered (rules : RuleSet) : Prop where
  keys : rules.keys.IsOrdered
  config : rules.config.IsOrdered

theorem isOrdered_empty : IsOrdered {} := ⟨KeyMap.isOrdered_empty, KeyMap.isOrdered_empty⟩

theorem IsOrdered.add (h : IsOrdered rules) (c : CatalogEntry) (v : Value) :
    IsOrdered (rules.add c v) := ⟨h.keys.insert _ _, h.config.insert _ _⟩

/-- A rule is the last one with its key among active rules. -/
def IsLast (active : List ActiveRule) (key : String) (rule : ActiveRule) : Prop :=
  ∃ before after, active = before ++ rule :: after ∧ rule.key = key ∧
    ∀ later ∈ after, later.key ≠ key

theorem IsLast.cons (h : IsLast rest s rule) (first : ActiveRule) :
    IsLast (first :: rest) s rule := by
  obtain ⟨before, after, rfl, last⟩ := h
  exact ⟨first :: before, after, rfl, last⟩

/-- A rule of the catalog is in a rule set as the last active rule with its key asks for it. -/
structure Stands (active : List ActiveRule) (rules : RuleSet) (c : CatalogEntry) : Prop where
  inCatalog : c ∈ catalog
  key : rules.keys.get? c.linterKey = some ⟨repository, c.key⟩
  value : ∃ rule v, IsLast active c.key rule ∧ c.render rule = .ok v ∧
    rules.config.get? c.linterKey = some v

theorem Stands.exists_active (h : Stands active rules c) : ∃ rule ∈ active, rule.key = c.key := by
  obtain ⟨rule, -, ⟨before, after, rfl, same, -⟩, -⟩ := h.value
  exact ⟨rule, List.mem_append_cons_self, same⟩

/-- No active rule has the key of a rule of the catalog that the linter knows by a name. -/
def AsksNone (active : List ActiveRule) (s : String) : Prop :=
  ∀ rule ∈ active, ∀ c ∈ catalog, c.linterKey = s → rule.key ≠ c.key

/-- What adding active rules does under each key of the linter: what the last of them with that key
asks for stands there, or, where none has that key, what stood there before. -/
def Adds (active : List ActiveRule) (before after : RuleSet) : Prop :=
  ∀ s, (∃ c, c.linterKey = s ∧ Stands active after c) ∨
    (AsksNone active s ∧ after.keys.get? s = before.keys.get? s ∧
      after.config.get? s = before.config.get? s)

theorem Stands.cons (h : Stands rest rules c) (first : ActiveRule) :
    Stands (first :: rest) rules c where
  inCatalog := h.inCatalog
  key := h.key
  value := by
    obtain ⟨rule, v, last, found⟩ := h.value
    exact ⟨rule, v, last.cons first, found⟩

theorem Adds.unknown (h : Adds rest before after) (absent : catalogEntry? rule.key = none) :
    Adds (rule :: rest) before after := by
  intro s
  rcases h s with ⟨c, linter, stands⟩ | ⟨none, kept⟩
  · exact .inl ⟨c, linter, stands.cons rule⟩
  · have passed : ∀ c ∈ catalog, c.linterKey = s → rule.key ≠ c.key :=
      fun c inCatalog _ same => catalogEntry?_eq_none.mp absent c inCatalog same.symm
    exact .inr ⟨List.forall_mem_cons.mpr ⟨passed, none⟩, kept⟩

theorem Adds.known (h : Adds rest (before.add c v) after) (known : catalogEntry? rule.key = some c)
    (rendered : c.render rule = .ok v) : Adds (rule :: rest) before after := by
  obtain ⟨inCatalog, same⟩ := catalogEntry?_eq_some.mp known
  intro s
  rcases h s with ⟨d, linter, stands⟩ | ⟨none, keys, config⟩
  · exact .inl ⟨d, linter, stands.cons rule⟩
  rw [keys_add] at keys
  rw [config_add] at config
  -- no later rule has this key, so here is what this rule asks for or what was here before
  by_cases here : c.linterKey = s
  · subst here
    rw [if_pos rfl] at keys config
    have last : IsLast (rule :: rest) c.key rule :=
      ⟨[], rest, rfl, same.symm, fun later member => none later member c inCatalog rfl⟩
    exact .inl ⟨c, rfl, inCatalog, keys, rule, v, last, rendered, config⟩
  · rw [if_neg here] at keys config
    refine .inr ⟨List.forall_mem_cons.mpr ⟨fun d inCatalog' linter again => here ?_, none⟩,
      keys, config⟩
    rw [← linter, catalog_unique inCatalog inCatalog' (.inr (again.symm.trans same.symm))]

theorem adds_addAll (h : (addAll before active).2 = .ok after) : Adds active before after := by
  -- on the active rules, over any rules that were taken in before them
  induction active generalizing before with
  | nil =>
    cases h
    exact fun s => .inr ⟨List.forall_mem_nil _, rfl, rfl⟩
  | cons rule rest ih =>
    rcases addAll_cons_eq_ok.mp h with ⟨absent, below⟩ | ⟨c, v, known, rendered, below⟩
    · exact (ih below).unknown absent
    · exact (ih below).known known rendered

end Adding

/-! ### The configuration and the way back -/

/-- The keys of active rules that the catalog has. -/
def catalogKeysOf (active : List ActiveRule) : List String :=
  (active.map (·.key)).filter fun key => catalogEntry? key |>.isSome

/-- The configuration of the linter and the keys of the host say the same of active rules. -/
structure Agrees (active : List ActiveRule) (rules : RuleSet) (members : List (String × Value)) :
    Prop where
  document : rules.document = .record [("rules", .record members)]
  /-- The rules that are configured are those with a key in the host. -/
  configured : ∀ s, (∃ value, (s, value) ∈ members) ↔ (rules.hostKey? s).isSome = true
  /-- A key in the host is that of the only rule of the catalog under either key.  An active rule
  has it, and the configuration holds what the last one of these asks for, and that alone. -/
  origin : ∀ s key, rules.hostKey? s = some key →
    ∃ c ∈ catalog, c.linterKey = s ∧ key = ⟨"css", c.key⟩ ∧
      (∀ d ∈ catalog, d.linterKey = s ∨ d.key = c.key → d = c) ∧
      ∃ before rule after, active = before ++ rule :: after ∧ rule.key = c.key ∧
        (∀ later ∈ after, later.key ≠ c.key) ∧
        ∃ value, c.render rule = .ok value ∧ ∀ v, (s, v) ∈ members ↔ v = value
  /-- A rule of the linter that is configured comes back to an active rule, and no other does. -/
  returns : ∀ s, (∃ value, (s, value) ∈ members) ↔
    ∃ rule ∈ active, rules.hostKey? s = some ⟨"css", rule.key⟩
  /-- Every active rule of the catalog is configured. -/
  complete : ∀ rule ∈ active, ∀ c ∈ catalog, c.key = rule.key →
    rules.hostKey? c.linterKey = some ⟨"css", rule.key⟩
  ordered : members.Pairwise fun a b => Utf8.ofString a.1 < Utf8.ofString b.1
  size : rules.size = (catalogKeysOf active).dedup.length
  isEmpty : rules.isEmpty = true ↔ ∀ rule ∈ active, ∀ c ∈ catalog, c.key ≠ rule.key

section Resolved

variable {active : List ActiveRule} {rules : RuleSet} {s : String} {key : RuleKey} {v : Value}
  {rule : ActiveRule} {c : CatalogEntry}

theorem adds_ofActive (h : (ofActive active).2 = .ok rules) : Adds active {} rules := adds_addAll h

theorem isPaired_ofActive (h : (ofActive active).2 = .ok rules) : IsPaired rules :=
  addAll_preserves (fun _ c v paired => paired.add c v) h isPaired_empty

theorem isOrdered_ofActive (h : (ofActive active).2 = .ok rules) : IsOrdered rules :=
  addAll_preserves (fun _ c v ordered => ordered.add c v) h isOrdered_empty

/-- Each key of the host stands for a rule of the catalog. -/
theorem stands_of_hostKey? (h : (ofActive active).2 = .ok rules)
    (mapped : rules.hostKey? s = some key) :
    ∃ c, c.linterKey = s ∧ key = ⟨repository, c.key⟩ ∧ Stands active rules c := by
  rcases adds_ofActive h s with ⟨c, rfl, stands⟩ | ⟨-, kept, -⟩
  · exact ⟨c, rfl, Option.some.inj (mapped.symm.trans stands.key), stands⟩
  · cases mapped.symm.trans kept

/-- So does each value of the configuration. -/
theorem stands_of_value (h : (ofActive active).2 = .ok rules)
    (configured : rules.config.get? s = some v) :
    ∃ c, c.linterKey = s ∧ Stands active rules c := by
  have paired := isPaired_ofActive h s
  rw [configured, Option.isSome_some, Option.isSome_iff_exists] at paired
  obtain ⟨key, mapped⟩ := paired
  obtain ⟨c, linter, -, stands⟩ := stands_of_hostKey? h mapped
  exact ⟨c, linter, stands⟩

theorem stands_of_active (h : (ofActive active).2 = .ok rules) (member : rule ∈ active)
    (inCatalog : c ∈ catalog) (same : c.key = rule.key) : Stands active rules c := by
  rcases adds_ofActive h c.linterKey with ⟨d, linter, stands⟩ | ⟨none, -⟩
  · rwa [catalog_unique inCatalog stands.inCatalog (.inl linter)] at stands
  · exact absurd same.symm (none rule member c inCatalog rfl)

theorem hostKey?_of_active (h : (ofActive active).2 = .ok rules) (member : rule ∈ active)
    (inCatalog : c ∈ catalog) (same : c.key = rule.key) :
    rules.hostKey? c.linterKey = some ⟨repository, rule.key⟩ :=
  same ▸ (stands_of_active h member inCatalog same).key

/-- The members of the configuration are what its keys lead to. -/
theorem mem_config (h : (ofActive active).2 = .ok rules) :
    (s, v) ∈ rules.config.entries ↔ rules.config.get? s = some v :=
  (isOrdered_ofActive h).config.get?_eq_some.symm

theorem exists_value_iff (h : (ofActive active).2 = .ok rules) :
    (∃ v, (s, v) ∈ rules.config.entries) ↔ (rules.hostKey? s).isSome = true := by
  rw [hostKey?, isPaired_ofActive h s, Option.isSome_iff_exists]
  exact exists_congr fun _ => mem_config h

/-- A rule of the linter has a key in the host just if that is the key of an active rule. -/
theorem isSome_hostKey?_iff (h : (ofActive active).2 = .ok rules) :
    (rules.hostKey? s).isSome = true ↔
      ∃ rule ∈ active, rules.hostKey? s = some ⟨repository, rule.key⟩ := by
  constructor
  · intro mapped
    obtain ⟨key, mapped⟩ := Option.isSome_iff_exists.mp mapped
    obtain ⟨c, -, rfl, stands⟩ := stands_of_hostKey? h mapped
    obtain ⟨rule, member, same⟩ := stands.exists_active
    exact ⟨rule, member, by rw [mapped, same]⟩
  · rintro ⟨rule, -, mapped⟩
    rw [mapped]
    rfl

/-- The keys of the host are those of the active rules that the catalog has. -/
theorem mem_hostKeys (h : (ofActive active).2 = .ok rules) {key : String} :
    key ∈ rules.keys.entries.map (·.2.rule) ↔ key ∈ catalogKeysOf active := by
  have found {s : String} {k : RuleKey} : (s, k) ∈ rules.keys.entries ↔ rules.hostKey? s = some k :=
    (isOrdered_ofActive h).keys.get?_eq_some.symm
  constructor
  · intro reported
    obtain ⟨⟨s, k⟩, entered, rfl⟩ := List.mem_map.mp reported
    obtain ⟨c, -, host, stands⟩ := stands_of_hostKey? h (found.mp entered)
    obtain ⟨rule, member, same⟩ := stands.exists_active
    refine List.mem_filter.mpr ⟨List.mem_map.mpr ⟨rule, member, by rw [host, same]⟩, ?_⟩
    rw [host]
    rw [catalogEntry?_eq_some.mpr ⟨stands.inCatalog, rfl⟩]
    rfl
  · intro listed
    obtain ⟨named, known⟩ := List.mem_filter.mp listed
    obtain ⟨rule, member, rfl⟩ := List.mem_map.mp named
    obtain ⟨c, looked⟩ := Option.isSome_iff_exists.mp known
    obtain ⟨inCatalog, same⟩ := catalogEntry?_eq_some.mp looked
    exact List.mem_map.mpr ⟨_, found.mpr (hostKey?_of_active h member inCatalog same), rfl⟩

theorem nodup_hostKeys (h : (ofActive active).2 = .ok rules) :
    (rules.keys.entries.map (·.2.rule)).Nodup := by
  have ordered := (isOrdered_ofActive h).keys
  refine List.pairwise_map.mpr ((List.pairwise_map.mp ordered.nodup).imp_of_mem ?_)
  intro a b here there differ same
  obtain ⟨c, linter, host, stands⟩ := stands_of_hostKey? h (ordered.get?_eq_some.mpr here)
  obtain ⟨d, linter', host', stands'⟩ := stands_of_hostKey? h (ordered.get?_eq_some.mpr there)
  rw [host, host'] at same
  rw [← linter, ← linter', catalog_unique stands'.inCatalog stands.inCatalog (.inr same)] at differ
  exact differ rfl

theorem size_ofActive (h : (ofActive active).2 = .ok rules) :
    rules.size = (catalogKeysOf active).dedup.length := by
  have same : (rules.keys.entries.map (·.2.rule)).Perm (catalogKeysOf active).dedup := by
    refine (List.perm_ext_iff_of_nodup (nodup_hostKeys h) (List.nodup_dedup _)).mpr fun key => ?_
    rw [List.mem_dedup, mem_hostKeys h]
  rw [← same.length_eq, List.length_map]
  rfl

theorem isEmpty_ofActive (h : (ofActive active).2 = .ok rules) :
    rules.isEmpty = true ↔ ∀ rule ∈ active, ∀ c ∈ catalog, c.key ≠ rule.key := by
  rw [isEmpty, KeyMap.isEmpty_iff]
  constructor
  · intro none rule member c inCatalog same
    cases (none c.linterKey).symm.trans (hostKey?_of_active h member inCatalog same)
  · intro absent s
    rw [Option.eq_none_iff_forall_ne_some]
    intro key mapped
    obtain ⟨c, -, -, stands⟩ := stands_of_hostKey? h mapped
    obtain ⟨rule, member, same⟩ := stands.exists_active
    exact absent rule member c stands.inCatalog same.symm

end Resolved

/-- The configuration of the linter and the way back from its keys agree, whichever active rules
were resolved. -/
theorem ofActive_agrees (active : List ActiveRule) (rules : RuleSet)
    (resolved : (ofActive active).2 = .ok rules) : ∃ members, Agrees active rules members := by
  refine ⟨rules.config.entries, rfl, fun _ => exists_value_iff resolved, ?origin, ?returns,
    ?complete, (isOrdered_ofActive resolved).config, size_ofActive resolved,
    isEmpty_ofActive resolved⟩
  case origin =>
    intro s key mapped
    obtain ⟨c, rfl, rfl, stands⟩ := stands_of_hostKey? resolved mapped
    obtain ⟨rule, value, ⟨before, after, split, same, last⟩, rendered, configured⟩ := stands.value
    refine ⟨c, stands.inCatalog, rfl, rfl, fun d other => catalog_unique stands.inCatalog other,
      before, rule, after, split, same, last, value, rendered, fun v => ?_⟩
    rw [mem_config resolved, configured, Option.some.injEq, eq_comm]
  case returns =>
    intro s
    exact (exists_value_iff resolved).trans (isSome_hostKey?_iff resolved)
  case complete =>
    intro rule member c inCatalog same
    exact hostKey?_of_active resolved member inCatalog same

/-- A rule that the catalog does not have counts for nothing, and of two rules with one key the
later one counts. -/
theorem ofActive_agrees_repeated :
    let active : List ActiveRule :=
      [⟨"S4670", [("ignoreTypes", "/^mat-/")]⟩, ⟨"S9999", []⟩, ⟨"S4647", []⟩,
        ⟨"S4670", [("ignoreTypes", " x-a ,x-b,, ")]⟩]
    let rules : RuleSet :=
      { keys := ⟨[("color-no-invalid-hex", ⟨"css", "S4647"⟩),
          ("selector-type-no-unknown", ⟨"css", "S4670"⟩)]⟩
        config := ⟨[("color-no-invalid-hex", .bool true),
          ("selector-type-no-unknown", withOptions "ignoreTypes" ["x-a", "x-b"])]⟩ }
    (ofActive active).2 = .ok rules ∧ ∃ members, Agrees active rules members := by
  intro active rules
  have resolved : (ofActive active).2 = .ok rules := rfl
  exact ⟨resolved, ofActive_agrees active rules resolved⟩

end RuleSet

end LintBridge
