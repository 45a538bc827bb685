import LintBridge.Json.Reader
import LintBridge.Proofs.Lists

/-! Records in JSON.  A record is an object that gives each field once, or leaves it out if it may
be left out, and whatever else it gives does not count; or it is an array of the fields in their
order. -/

namespace LintBridge.Json

namespace Value

theorem text?_eq_some {v : Value} {s : String} : v.text? = some s ↔ v = .text s := by
  cases v with
  | string t => simp [text?, text]
  | _ => simp [text?, text]

theorem word?_eq_some {v : Value} {n : Nat} : v.word? = some n ↔ v = .nat n ∧ n < Nat.pow 2 32 := by
  unfold word? nat
  split
  next m =>
    split
    next small =>
      simp only [Option.some.injEq, number.injEq, Number.nat.injEq]
      exact ⟨fun same => ⟨same, same ▸ small⟩, And.left⟩
    next large =>
      simp only [number.injEq, Number.nat.injEq]
      refine ⟨nofun, ?_⟩
      rintro ⟨rfl, small⟩
      exact absurd small large
  next other =>
    refine ⟨nofun, ?_⟩
    rintro ⟨rfl, -⟩
    exact absurd rfl (other n)

end Value

/-! ### Members -/

/-- Members of an object do not have a name among them. -/
def Lacks (members : List (Text × Value)) (name : String) : Prop :=
  ∀ m ∈ members, m.1 ≠ some name

/-- One of the members of an object has a name, and only that one. -/
def GivesOnce (members : List (Text × Value)) (name : String) (v : Value) : Prop :=
  ∃ before after, members = before ++ (some name, v) :: after ∧ Lacks (before ++ after) name

/-- The names of all members of an object are texts. -/
def HasTextNames (members : List (Text × Value)) : Prop := ∀ m ∈ members, m.1.isSome = true

/-- The members of an object give a field, or leave it out if it may be left out. -/
def GivesField (members : List (Text × Value)) (field : Field) (v : Value) : Prop :=
  GivesOnce members field.name v ∨ (Lacks members field.name ∧ field.default = some v)

theorem lacks_append {before after : List (Text × Value)} {name : String} :
    Lacks (before ++ after) name ↔ Lacks before name ∧ Lacks after name := by
  simp only [Lacks, List.mem_append, or_imp, forall_and]

theorem filter_eq_nil_iff_lacks {members : List (Text × Value)} {name : String} :
    members.filter (·.1 == some name) = [] ↔ Lacks members name := by
  simp only [List.filter_eq_nil_iff, beq_iff_eq, Lacks, ne_eq]

theorem filter_eq_singleton_iff {members : List (Text × Value)} {name : String} {v : Value} :
    (∃ m, members.filter (·.1 == some name) = [m] ∧ m.2 = v) ↔ GivesOnce members name v := by
  simp only [List.filter_eq_cons_iff, filter_eq_nil_iff_lacks]
  constructor
  · rintro ⟨⟨found, _⟩, ⟨before, after, split, none, here, below⟩, rfl⟩
    obtain rfl : found = some name := eq_of_beq here
    exact ⟨before, after, split, lacks_append.mpr ⟨by simpa [Lacks] using none, below⟩⟩
  · rintro ⟨before, after, split, none⟩
    obtain ⟨earlier, later⟩ := lacks_append.mp none
    exact ⟨(some name, v), ⟨before, after, split, by simpa [Lacks] using earlier,
      beq_self_eq_true _, later⟩, rfl⟩

theorem givesField_iff {members : List (Text × Value)} {field : Field} {v : Value} :
    (match members.filter (·.1 == some field.name) with
      | [] => field.default
      | [m] => some m.2
      | _ => none) = some v ↔ GivesField members field v := by
  rw [GivesField, ← filter_eq_singleton_iff, ← filter_eq_nil_iff_lacks]
  generalize members.filter (·.1 == some field.name) = found
  match found with
  | [] => simp
  | [m] => simp
  | m :: m' :: rest => simp

theorem givesField_required {members : List (Text × Value)} {name : String} {v : Value} :
    GivesField members ⟨name, none⟩ v ↔ GivesOnce members name v := by
  simp [GivesField]

theorem fieldsOfMembers?_eq_some {fields : List Field} {members : List (Text × Value)}
    {values : List Value} :
    fieldsOfMembers? fields members = some values ↔
      HasTextNames members ∧ List.Forall₂ (GivesField members) fields values := by
  unfold fieldsOfMembers?
  split
  next named =>
    rw [mapM_eq_some]
    constructor
    · exact fun given => ⟨List.all_eq_true.mp named, given.imp fun _ _ => givesField_iff.mp⟩
    · exact fun given => given.2.imp fun _ _ => givesField_iff.mpr
  next unnamed =>
    refine ⟨nofun, fun given => ?_⟩
    exact absurd (List.all_eq_true.mpr given.1) unnamed

/-- A record without fields that may be left out, as an array. -/
theorem fieldsOfItems?_eq_some {fields : List Field} {items values : List Value}
    (required : ∀ field ∈ fields, field.default = none) :
    fieldsOfItems? fields items = some values ↔ items.length = fields.length ∧ values = items := by
  induction fields generalizing items values with
  | nil => cases items <;> simp [fieldsOfItems?, eq_comm]
  | cons field fields ih =>
    have required_fields : ∀ f ∈ fields, f.default = none := fun f member =>
      required f (List.mem_cons_of_mem field member)
    cases items with
    | nil => simp [fieldsOfItems?, required field List.mem_cons_self]
    | cons v vs =>
      simp only [fieldsOfItems?, Option.map_eq_some_iff, ih required_fields, List.length_cons,
        Nat.add_right_cancel_iff]
      constructor
      · rintro ⟨rest, ⟨enough, rfl⟩, rfl⟩
        exact ⟨enough, rfl⟩
      · rintro ⟨enough, rfl⟩
        exact ⟨vs, ⟨enough, rfl⟩, rfl⟩

end LintBridge.Json
