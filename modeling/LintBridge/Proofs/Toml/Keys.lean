import LintBridge.Toml.Reader
import Mathlib.Data.List.Nodup
import Mathlib.Tactic.SplitIfs

/-! The keys of tables.  Whatever a document says, no table of it comes to have a key twice, however
deep it lies: each step of the reader keeps the keys of all tables apart, since it adds a member
only where a key leads nowhere and changes a member only in its place (`Members.Keyed`,
`Draft.Keyed`).  So in a document that was read a key of a table has one value: `keyed_parse?`. -/

namespace LintBridge.Toml

/-- No table in a value has a key twice. -/
inductive Value.Keyed : Value → Prop
  | string (s : String) : Keyed (.string s)
  | integer (n : Int) : Keyed (.integer n)
  | float (x : Float) : Keyed (.float x)
  | bool (b : Bool) : Keyed (.bool b)
  | moment (m : Moment) : Keyed (.moment m)
  | array {items : List Value} (each : ∀ v ∈ items, v.Keyed) : Keyed (.array items)
  | table {members : List (String × Value)} (distinct : (members.map (·.1)).Nodup)
      (each : ∀ m ∈ members, m.2.Keyed) : Keyed (.table members)

/-- No table in a node has a key twice. -/
inductive Node.Keyed : Node → Prop
  | value {v : Value} (h : v.Keyed) : Keyed (.value v)
  | table (origin : Origin) {members : List (String × Node)}
      (distinct : (members.map (·.1)).Nodup) (each : ∀ m ∈ members, m.2.Keyed) :
      Keyed (.table origin members)
  | tables {items : List (List (String × Node))} (distinct : ∀ t ∈ items, (t.map (·.1)).Nodup)
      (each : ∀ t ∈ items, ∀ m ∈ t, m.2.Keyed) : Keyed (.tables items)

/-- Members with different keys, and with no table below them that has a key twice. -/
structure Members.Keyed (members : Members) : Prop where
  distinct : (members.map (·.1)).Nodup
  each : ∀ m ∈ members, m.2.Keyed

/-! ### Values of nodes -/

theorem membersToValues_eq_map (members : List (String × Node)) :
    membersToValues members = members.map fun m => (m.1, m.2.toValue) := by
  induction members with
  | nil => rw [membersToValues, List.map_nil]
  | cons m rest ih => rw [membersToValues, ih, List.map_cons]

theorem itemsToValues_eq_map (items : List (List (String × Node))) :
    itemsToValues items = items.map fun t => .table (membersToValues t) := by
  induction items with
  | nil => rw [itemsToValues, List.map_nil]
  | cons t rest ih => rw [itemsToValues, ih, List.map_cons]

theorem keyed_membersToValues {members : List (String × Node)}
    (distinct : (members.map (·.1)).Nodup) (each : ∀ m ∈ members, m.2.toValue.Keyed) :
    (Value.table (membersToValues members)).Keyed := by
  rw [membersToValues_eq_map]
  refine .table (by rwa [List.map_map]) fun m member => ?_
  obtain ⟨node, stands, rfl⟩ := List.mem_map.mp member
  exact each node stands

theorem Node.Keyed.toValue {node : Node} (h : node.Keyed) : node.toValue.Keyed := by
  induction h with
  | value h => rwa [Node.toValue]
  | table origin distinct _ ih =>
    rw [Node.toValue]
    exact keyed_membersToValues distinct ih
  | tables distinct _ ih =>
    rw [Node.toValue, itemsToValues_eq_map]
    refine .array fun v member => ?_
    obtain ⟨t, stands, rfl⟩ := List.mem_map.mp member
    exact keyed_membersToValues (distinct t stands) (ih t stands)

namespace Members.Keyed

variable {members after : Members} {key : String} {node : Node}

theorem values (h : Keyed members) : (Value.table (membersToValues members)).Keyed :=
  keyed_membersToValues h.distinct fun m member => (h.each m member).toValue

theorem table (h : Keyed members) (origin : Origin) : (Node.table origin members).Keyed :=
  .table origin h.distinct h.each

theorem tables {items : List Members} (h : ∀ t ∈ items, Keyed t) : (Node.tables items).Keyed :=
  .tables (fun t member => (h t member).distinct) fun t member => (h t member).each

/-! ### Changes of members -/

theorem nil : Keyed [] := ⟨List.nodup_nil, nofun⟩

theorem of_lookup (h : Keyed members) (found : members.lookup key = some node) : node.Keyed := by
  obtain ⟨before, rest, rfl, -⟩ := List.lookup_eq_some_iff.mp found
  exact h.each (key, node) List.mem_append_cons_self

theorem of_table {origin : Origin} {inner : Members} (h : Keyed members)
    (found : members.lookup key = some (.table origin inner)) : Keyed inner := by
  cases h.of_lookup found with
  | table _ distinct each => exact ⟨distinct, each⟩

theorem of_tables {items : List Members} (h : Keyed members)
    (found : members.lookup key = some (.tables items)) : ∀ t ∈ items, Keyed t := by
  cases h.of_lookup found with
  | tables distinct each => exact fun t member => ⟨distinct t member, each t member⟩

/-- A member may be added under a key that leads nowhere. -/
theorem concat (h : Keyed members) (absent : members.lookup key = none) (new : node.Keyed) :
    Keyed (members ++ [(key, node)]) where
  distinct := by
    rw [List.map_append, List.map_singleton, List.nodup_append]
    refine ⟨h.distinct, List.nodup_singleton key, ?_⟩
    rintro k known _ (_ | ⟨_, ⟨⟩⟩) rfl
    obtain ⟨m, member, same⟩ := List.mem_map.mp known
    have other := List.lookup_eq_none_iff.mp absent m member
    simp [same] at other
  each m member := by
    rcases List.mem_append.mp member with before | last
    · exact h.each m before
    · obtain rfl := List.mem_singleton.mp last
      exact new

theorem replace (h : Keyed members) (new : node.Keyed) : Keyed (members.replace key node) where
  distinct := by
    have kept : (members.replace key node).map (·.1) = members.map (·.1) := by
      rw [Members.replace, List.map_map]
      refine List.map_congr_left fun m _ => ?_
      rw [Function.comp_apply]
      split
      next same => exact (beq_iff_eq.mp same).symm
      next => rfl
    rw [kept]
    exact h.distinct
  each m member := by
    obtain ⟨old, stands, changed⟩ := List.mem_map.mp member
    split at changed
    · rw [← changed]
      exact new
    · exact changed ▸ h.each old stands

theorem within {change : Members → Option Members}
    (keeps : ∀ {ms after}, Keyed ms → change ms = some after → Keyed after) {path : List String}
    (h : Keyed members) (changed : Members.within? change path members = some after) :
    Keyed after := by
  induction path generalizing members after with
  | nil => exact keeps h changed
  | cons key path ih =>
    rw [Members.within?] at changed
    split at changed
    next absent =>
      obtain ⟨inner, below, same⟩ := Option.bind_eq_some_iff.mp changed
      cases same
      exact h.concat absent ((ih nil below).table .implied)
    next origin inner found =>
      obtain ⟨inner', below, same⟩ := Option.bind_eq_some_iff.mp changed
      cases same
      exact h.replace ((ih (h.of_table found) below).table origin)
    next items found =>
      split at changed
      next last before split =>
        obtain ⟨last', below, same⟩ := Option.bind_eq_some_iff.mp changed
        cases same
        have each : ∀ t ∈ last :: before, Keyed t := by
          rw [← split]
          exact fun t member => h.of_tables found t (List.mem_reverse.mp member)
        obtain ⟨last_keyed, before_keyed⟩ := List.forall_mem_cons.mp each
        refine h.replace (tables fun t member => ?_)
        rcases List.mem_append.mp member with there | here
        · exact before_keyed t (List.mem_reverse.mp there)
        · obtain rfl := List.mem_singleton.mp here
          exact ih last_keyed below
      next => cases changed
    next => cases changed

theorem openTable (h : Keyed members) (opened : Members.openTable? key members = some after) :
    Keyed after := by
  rw [Members.openTable?] at opened
  split at opened
  next absent =>
    cases opened
    exact h.concat absent (nil.table .header)
  next inner found =>
    cases opened
    exact h.replace ((h.of_table found).table .header)
  next => cases opened

theorem openItem (h : Keyed members) (opened : Members.openItem? key members = some after) :
    Keyed after := by
  rw [Members.openItem?] at opened
  split at opened
  next absent =>
    cases opened
    exact h.concat absent (tables (List.forall_mem_singleton.mpr nil))
  next items found =>
    cases opened
    refine h.replace (tables (List.forall_mem_append.mpr ⟨h.of_tables found, ?_⟩))
    exact List.forall_mem_singleton.mpr nil
  next => cases opened

theorem assign {v : Value} {path : List String} (h : Keyed members) (new : v.Keyed)
    (assigned : Members.assign? v key path members = some after) : Keyed after := by
  induction path generalizing members after with
  | nil =>
    rw [Members.assign?, Members.add?] at assigned
    split at assigned
    next => cases assigned
    next absent =>
      cases assigned
      exact h.concat (Option.not_isSome_iff_eq_none.mp absent) (.value new)
  | cons first path ih =>
    rw [Members.assign?] at assigned
    split at assigned
    next absent =>
      obtain ⟨inner, below, same⟩ := Option.bind_eq_some_iff.mp assigned
      cases same
      exact h.concat absent ((ih nil below).table .dotted)
    next origin inner found =>
      split at assigned
      next => cases assigned
      next =>
        obtain ⟨inner', below, same⟩ := Option.bind_eq_some_iff.mp assigned
        cases same
        exact h.replace ((ih (h.of_table found) below).table origin)
    next => cases assigned

end Members.Keyed

/-! ### What is read -/

theorem keyed_scalar? {s : List Char} {v : Value} (h : scalar? s = some v) : v.Keyed := by
  unfold scalar? at h
  split_ifs at h
  · exact Option.some.inj h ▸ .bool true
  · exact Option.some.inj h ▸ .bool false
  · simp only [Option.or_eq_some_iff, Option.map_eq_some_iff] at h
    obtain ⟨n, -, rfl⟩ | ⟨-, ⟨x, -, rfl⟩ | ⟨-, ⟨x, -, rfl⟩ | ⟨-, m, -, rfl⟩⟩⟩ := h
    · exact .integer n
    · exact .float x
    · exact .float x
    · exact .moment m

mutual

theorem keyed_readValue? : ∀ {fuel depth : Nat} {s rest : List Char} {v : Value},
    readValue? fuel depth s = some (v, rest) → v.Keyed
  | 0, _, _, _, _, h => by simp [readValue?] at h
  | fuel + 1, depth, s, rest, v, h => by
    unfold readValue? at h
    split at h
    -- either quote
    iterate 2
      next =>
        obtain ⟨⟨t, r⟩, -, same⟩ := Option.map_eq_some_iff.mp h
        cases same
        exact .string _
    next =>
      split at h
      next => cases h
      next =>
        obtain ⟨⟨items, r⟩, read, same⟩ := Option.bind_eq_some_iff.mp h
        cases same
        exact .array (keyed_readItems? read)
    next =>
      split at h
      next => cases h
      next =>
        obtain ⟨⟨members, r⟩, read, same⟩ := Option.bind_eq_some_iff.mp h
        cases same
        exact (keyed_readInline? .nil read).values
    next =>
      obtain ⟨v', read, same⟩ := Option.map_eq_some_iff.mp h
      cases same
      exact keyed_scalar? read

theorem keyed_readItems? : ∀ {fuel depth : Nat} {s rest : List Char} {items : List Value},
    readItems? fuel depth s = some (items, rest) → ∀ v ∈ items, v.Keyed
  | 0, _, _, _, _, h => by simp [readItems?] at h
  | fuel + 1, depth, s, rest, items, h => by
    rw [readItems?] at h
    obtain ⟨front, -, h⟩ := Option.bind_eq_some_iff.mp h
    split at h
    next => cases h; nofun
    next =>
      obtain ⟨⟨v, r⟩, first, h⟩ := Option.bind_eq_some_iff.mp h
      obtain ⟨next, -, h⟩ := Option.bind_eq_some_iff.mp h
      split at h
      next =>
        obtain ⟨⟨more, r'⟩, later, same⟩ := Option.bind_eq_some_iff.mp h
        cases same
        exact List.forall_mem_cons.mpr ⟨keyed_readValue? first, keyed_readItems? later⟩
      next =>
        cases h
        exact List.forall_mem_singleton.mpr (keyed_readValue? first)
      next => cases h

theorem keyed_readInline? : ∀ {fuel depth : Nat} {s rest : List Char} {members after : Members},
    Members.Keyed members → readInline? fuel depth members s = some (after, rest) →
      Members.Keyed after
  | 0, _, _, _, _, _, _, h => by simp [readInline?] at h
  | fuel + 1, depth, s, rest, members, after, keyed, h => by
    rw [readInline?] at h
    obtain ⟨front, -, h⟩ := Option.bind_eq_some_iff.mp h
    split at h
    next =>
      cases h
      exact keyed
    next =>
      obtain ⟨⟨path, key, r⟩, -, h⟩ := Option.bind_eq_some_iff.mp h
      obtain ⟨r, -, h⟩ := Option.bind_eq_some_iff.mp h
      obtain ⟨⟨v, r⟩, read, h⟩ := Option.bind_eq_some_iff.mp h
      obtain ⟨members', assigned, h⟩ := Option.bind_eq_some_iff.mp h
      obtain ⟨next, -, h⟩ := Option.bind_eq_some_iff.mp h
      have more := keyed.assign (keyed_readValue? read) assigned
      split at h
      next => exact keyed_readInline? more h
      next =>
        cases h
        exact more
      next => cases h

end

/-- A statement gives no value with a table that has a key twice. -/
def Statement.Keyed : Statement → Prop
  | .assign _ _ v => v.Keyed
  | _ => True

/-- What every draft of a document keeps. -/
def Draft.Keyed (d : Draft) : Prop := Members.Keyed d.root

theorem Draft.Keyed.add {d after : Draft} {statement : Statement} (h : d.Keyed)
    (new : statement.Keyed) (added : d.add? statement = some after) : after.Keyed := by
  cases statement with
  | table path key =>
    obtain ⟨root, changed, same⟩ := Option.bind_eq_some_iff.mp added
    cases same
    exact Members.Keyed.within Members.Keyed.openTable h changed
  | item path key =>
    obtain ⟨root, changed, same⟩ := Option.bind_eq_some_iff.mp added
    cases same
    exact Members.Keyed.within Members.Keyed.openItem h changed
  | assign path key v =>
    obtain ⟨root, changed, same⟩ := Option.bind_eq_some_iff.mp added
    cases same
    exact Members.Keyed.within (fun keyed => keyed.assign new) h changed

end LintBridge.Toml
