import Mathlib.Data.List.Forall2
import Mathlib.Data.List.Nodup

/-! Lists that hold values under keys, lists in order, and lists that go with each other item by
item. -/

namespace LintBridge

/-! ### Values under keys -/

section

variable {α β : Type} [BEq α] [LawfulBEq α] {entries : List (α × β)} {key other : α} {v : β}

theorem lookup_filter_ne (h : key ≠ other) :
    (entries.filter (·.1 != other)).lookup key = entries.lookup key := by
  induction entries with
  | nil => rfl
  | cons entry entries ih =>
    obtain ⟨k, w⟩ := entry
    by_cases here : k = other
    · rw [List.filter_cons_of_neg (by simpa using here), ih, List.lookup_cons, here,
        beq_eq_false_iff_ne.mpr h]
    · rw [List.filter_cons_of_pos (by simpa using here), List.lookup_cons, List.lookup_cons, ih]

/-- Among values whose keys differ, a key leads to the value that stands under it. -/
theorem lookup_eq_some_iff_mem (distinct : (entries.map (·.1)).Nodup) :
    entries.lookup key = some v ↔ (key, v) ∈ entries := by
  have stands {w : β} (found : entries.lookup key = some w) : (key, w) ∈ entries := by
    obtain ⟨before, after, rfl, -⟩ := List.lookup_eq_some_iff.mp found
    exact List.mem_append_cons_self
  constructor
  · exact stands
  · intro member
    cases found : entries.lookup key with
    | none =>
      have differs := List.lookup_eq_none_iff.mp found (key, v) member
      simp at differs
    | some w =>
      cases List.inj_on_of_nodup_map distinct (stands found) member rfl
      rfl

end

/-- Among records whose keys differ, a key leads to the record that has it. -/
theorem find?_key_eq_some {α : Type} {key : α → String} {xs : List α}
    (distinct : (xs.map key).Nodup) {k : String} {x : α} :
    xs.find? (key · == k) = some x ↔ x ∈ xs ∧ key x = k := by
  constructor
  · intro found
    exact ⟨List.mem_of_find?_eq_some found, by simpa using List.find?_some found⟩
  · rintro ⟨member, rfl⟩
    cases found : xs.find? (key · == key x) with
    | none => exact absurd (List.find?_eq_none.mp found x member) (by simp)
    | some y =>
      have same : key y = key x := by simpa using List.find?_some found
      rw [List.inj_on_of_nodup_map distinct (List.mem_of_find?_eq_some found) member same]

/-! ### Order -/

section

variable {α β : Type} {xs : List α} {ys : List β}

theorem mapM_eq_some {f : α → Option β} :
    xs.mapM f = some ys ↔ List.Forall₂ (fun x y => f x = some y) xs ys := by
  induction xs generalizing ys with
  | nil =>
    rw [List.mapM_nil, List.forall₂_nil_left_iff]
    exact ⟨fun h => (Option.some.inj h).symm, fun h => h ▸ rfl⟩
  | cons x xs ih =>
    rw [List.mapM_cons]
    simp only [Option.bind_eq_bind, Option.bind_eq_some_iff, Option.pure_def, Option.some.injEq]
    constructor
    · rintro ⟨y, here, rest, below, rfl⟩
      exact .cons here (ih.mp below)
    · rintro (_ | ⟨here, below⟩)
      exact ⟨_, here, _, ih.mpr below, rfl⟩

/-- Two lists go with one list each.  They are the same if these lists go with each other, and that
settles what goes with their items. -/
theorem eq_of_forall₂ {γ : Type} {Same : α → β → Prop} {R : α → γ → Prop} {S : β → γ → Prop}
    {ps qs : List γ} (same : List.Forall₂ Same xs ys) (each : List.Forall₂ R xs ps)
    (each' : List.Forall₂ S ys qs)
    (settled : ∀ x y p q, Same x y → R x p → S y q → p = q) : ps = qs := by
  induction same generalizing ps qs with
  | nil => cases each; cases each'; rfl
  | cons here _ ih =>
    obtain _ | ⟨part, rest⟩ := each
    obtain _ | ⟨part', rest'⟩ := each'
    rw [settled _ _ _ _ here part part', ih rest rest']

end

/-! ### Places -/

theorem getElem?_append_toList {α : Type} (xs : List α) (last : Option α) (i : Nat) :
    (xs ++ last.toList)[i]? = if i = xs.length then last else xs[i]? := by
  cases last <;> grind

end LintBridge
