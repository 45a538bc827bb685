import LintBridge.KeyMap
import LintBridge.Proofs.Lists
import LintBridge.Proofs.Path.Order
import LintBridge.Proofs.Text.Utf8

/-! Maps from texts.  What is put under a key is found there, whether or not the map is in order,
and other keys lead where they led: `get?_insert`.  A map that is built up from nothing is in order,
and then it is determined by where its keys lead: `IsOrdered.ext`. -/

namespace LintBridge.KeyMap

open LintBridge.Text

variable {α : Type} {m n : KeyMap α} {key s : String} {value v : α}

theorem get?_eq_none : m.get? s = none ↔ ∀ entry ∈ m.entries, entry.1 ≠ s := by
  rw [get?, List.lookup_eq_none_iff]
  exact forall₂_congr fun entry _ => by rw [bne_iff_ne, ne_comm]

theorem isEmpty_iff : m.isEmpty = true ↔ ∀ s, m.get? s = none := by
  rw [isEmpty, List.isEmpty_iff, List.eq_nil_iff_forall_not_mem]
  simp only [get?_eq_none]
  exact ⟨fun none s entry member => absurd member (none entry),
    fun never entry member => never entry.1 entry member rfl⟩

/-! ### Insertion -/

theorem lookup_cons (key : String) (value : α) (entries : List (String × α)) (s : String) :
    ((key, value) :: entries).lookup s = if key = s then some value else entries.lookup s := by
  rw [List.lookup_cons]
  by_cases here : key = s
  · simp [here]
  · simp [here, beq_eq_false_iff_ne.mpr (Ne.symm here)]

theorem lookup_insertEntry (key : String) (value : α) (entries : List (String × α)) (s : String) :
    (insertEntry key value entries).lookup s =
      if key = s then some value else entries.lookup s := by
  induction entries with
  | nil => exact lookup_cons key value [] s
  | cons entry rest ih =>
    obtain ⟨other, held⟩ := entry
    rw [insertEntry]
    split
    next => exact lookup_cons key value _ s
    next equal =>
      obtain rfl : key = other := Utf8.ofString_injective (Path.compareBytes_eq_eq.mp equal)
      rw [lookup_cons, lookup_cons]
      split <;> rfl
    next greater =>
      have differ : key ≠ other := by
        rintro rfl
        cases greater.symm.trans (Path.compareBytes_eq_eq.mpr rfl)
      rw [lookup_cons, lookup_cons, ih]
      split
      next here => rw [if_neg (here ▸ differ)]
      next => rfl

/-- What is put under a key is found there, and any other key leads where it led before. -/
@[simp]
theorem get?_insert (m : KeyMap α) (key : String) (value : α) (s : String) :
    (m.insert key value).get? s = if key = s then some value else m.get? s :=
  lookup_insertEntry key value m.entries s

theorem mem_insertEntry {entry : String × α} {entries : List (String × α)}
    (h : entry ∈ insertEntry key value entries) : entry = (key, value) ∨ entry ∈ entries := by
  induction entries with
  | nil => exact .inl (List.mem_singleton.mp h)
  | cons first rest ih =>
    rw [insertEntry] at h
    split at h <;> grind

/-! ### Order -/

/-- Each entry has a greater key than those before it. -/
def IsOrdered (m : KeyMap α) : Prop :=
  m.entries.Pairwise fun a b => Utf8.ofString a.1 < Utf8.ofString b.1

theorem isOrdered_empty : IsOrdered ({} : KeyMap α) := List.Pairwise.nil

theorem pairwise_insertEntry {entries : List (String × α)}
    (h : entries.Pairwise fun a b => Utf8.ofString a.1 < Utf8.ofString b.1) :
    (insertEntry key value entries).Pairwise fun a b => Utf8.ofString a.1 < Utf8.ofString b.1 := by
  induction entries with
  | nil => exact List.pairwise_singleton _ _
  | cons first rest ih =>
    obtain ⟨above, ordered⟩ := List.pairwise_cons.mp h
    rw [insertEntry]
    split
    next less =>
      have below := Path.compareBytes_eq_lt.mp less
      refine List.pairwise_cons.mpr ⟨fun x member => ?_, h⟩
      rcases List.mem_cons.mp member with rfl | member
      · exact below
      · exact List.lt_trans below (above x member)
    next equal =>
      refine List.pairwise_cons.mpr ⟨fun x member => ?_, ordered⟩
      rw [Path.compareBytes_eq_eq.mp equal]
      exact above x member
    next greater =>
      refine List.pairwise_cons.mpr ⟨fun x member => ?_, ih ordered⟩
      rcases mem_insertEntry member with rfl | member
      · exact Path.compareBytes_eq_gt.mp greater
      · exact above x member

theorem IsOrdered.insert (h : IsOrdered m) (key : String) (value : α) :
    IsOrdered (m.insert key value) := pairwise_insertEntry h

/-- The keys of a map in order differ. -/
theorem IsOrdered.nodup (h : IsOrdered m) : (m.entries.map (·.1)).Nodup := by
  refine List.pairwise_map.mpr (h.imp fun {a b} below same => ?_)
  rw [same] at below
  exact List.lt_irrefl _ below

theorem IsOrdered.get?_eq_some (h : IsOrdered m) : m.get? s = some v ↔ (s, v) ∈ m.entries :=
  lookup_eq_some_iff_mem h.nodup

/-- Maps in order are the same if each key leads to the same in both. -/
theorem IsOrdered.ext (h : IsOrdered m) (h' : IsOrdered n) (same : ∀ s, m.get? s = n.get? s) :
    m = n := by
  have members : m.entries.Perm n.entries := by
    refine (List.perm_ext_iff_of_nodup (.of_map _ h.nodup) (.of_map _ h'.nodup)).mpr fun entry => ?_
    rw [← h.get?_eq_some, ← h'.get?_eq_some, same]
  have entries := members.eq_of_pairwise
    (fun _ _ _ _ below above => absurd (List.lt_trans below above) (List.lt_irrefl _)) h h'
  exact congrArg KeyMap.mk entries

end LintBridge.KeyMap
