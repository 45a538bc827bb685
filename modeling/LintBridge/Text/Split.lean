/-! A list cut at every mark in it. -/

namespace LintBridge.Text

section

variable {α : Type} (isMark : α → Bool)

/-- The parts of a list between its marks; there is one more part than marks. -/
def splitWhere : List α → List (List α)
  | [] => [[]]
  | c :: r =>
    if isMark c then [] :: splitWhere r
    else
      match splitWhere r with
      | [] => [[c]]
      | w :: ws => (c :: w) :: ws

/-- The parts of a list between occurrences of an item. -/
def splitAtEach [BEq α] (d : α) (s : List α) : List (List α) := splitWhere (· == d) s

variable {isMark}

theorem splitWhere_ne_nil (s : List α) : splitWhere isMark s ≠ [] := by
  induction s with
  | nil => simp [splitWhere]
  | cons c r ih =>
    simp only [splitWhere]
    split
    · simp
    · split <;> simp

theorem splitWhere_cons_of_mark {c : α} (h : isMark c = true) (r : List α) :
    splitWhere isMark (c :: r) = [] :: splitWhere isMark r := by
  rw [splitWhere, if_pos h]

theorem splitWhere_cons_of_not_mark {c : α} (h : isMark c = false) (r : List α) :
    ∃ w ws, splitWhere isMark r = w :: ws ∧ splitWhere isMark (c :: r) = (c :: w) :: ws := by
  obtain ⟨w, ws, parts⟩ := List.exists_cons_of_ne_nil (splitWhere_ne_nil r)
  refine ⟨w, ws, parts, ?_⟩
  rw [splitWhere, if_neg (by simp [h])]
  simp only [parts]

theorem splitWhere_append_mark (s : List α) {d : α} (h : isMark d = true) (r : List α) :
    splitWhere isMark (s ++ d :: r) = splitWhere isMark s ++ splitWhere isMark r := by
  induction s with
  | nil => rw [List.nil_append, splitWhere_cons_of_mark h, splitWhere, List.singleton_append]
  | cons c s ih =>
    cases mark : isMark c with
    | true =>
      rw [List.cons_append, splitWhere_cons_of_mark mark, splitWhere_cons_of_mark mark, ih,
        List.cons_append]
    | false =>
      obtain ⟨w, ws, whole, longer⟩ := splitWhere_cons_of_not_mark mark (s ++ d :: r)
      obtain ⟨w', ws', front, longer'⟩ := splitWhere_cons_of_not_mark mark s
      rw [ih, front, List.cons_append, List.cons.injEq] at whole
      rw [List.cons_append, longer, longer', ← whole.1, ← whole.2, List.cons_append]

theorem splitWhere_of_not_mark {s : List α} (h : ∀ c ∈ s, isMark c = false) :
    splitWhere isMark s = [s] := by
  induction s with
  | nil => rfl
  | cons c s ih =>
    obtain ⟨w, ws, parts, longer⟩ := splitWhere_cons_of_not_mark (h c List.mem_cons_self) s
    rw [ih fun d hd => h d (List.mem_cons_of_mem _ hd), List.cons.injEq] at parts
    rw [longer, ← parts.1, ← parts.2]

theorem not_mark_of_mem_splitWhere {s part : List α} (h : part ∈ splitWhere isMark s) :
    ∀ c ∈ part, isMark c = false := by
  induction s generalizing part with
  | nil =>
    rw [splitWhere, List.mem_singleton] at h
    simp [h]
  | cons c s ih =>
    cases mark : isMark c with
    | true =>
      rw [splitWhere_cons_of_mark mark, List.mem_cons] at h
      obtain rfl | h := h
      · simp
      · exact ih h
    | false =>
      obtain ⟨w, ws, parts, longer⟩ := splitWhere_cons_of_not_mark mark s
      rw [longer, List.mem_cons] at h
      obtain rfl | h := h
      · intro d hd
        obtain rfl | hd := List.mem_cons.mp hd
        · exact mark
        · exact ih (parts ▸ List.mem_cons_self) d hd
      · exact ih (parts ▸ List.mem_cons_of_mem _ h)

end

section

variable {α : Type} [BEq α] [LawfulBEq α] {d : α}

theorem splitAtEach_append (s r : List α) :
    splitAtEach d (s ++ d :: r) = splitAtEach d s ++ splitAtEach d r :=
  splitWhere_append_mark s (by simp) r

theorem splitAtEach_cons_self (r : List α) : splitAtEach d (d :: r) = [] :: splitAtEach d r :=
  splitAtEach_append [] r

theorem splitAtEach_of_not_mem {s : List α} (h : d ∉ s) : splitAtEach d s = [s] :=
  splitWhere_of_not_mark fun _ hc => beq_eq_false_iff_ne.mpr fun same => h (same ▸ hc)

theorem not_mem_of_mem_splitAtEach {s part : List α} (h : part ∈ splitAtEach d s) : d ∉ part := by
  intro inside
  have kept := not_mark_of_mem_splitWhere h d inside
  simp at kept

/-- There is one more part than marks. -/
theorem length_splitAtEach (s : List α) : (splitAtEach d s).length = s.count d + 1 := by
  induction s with
  | nil => rfl
  | cons c s ih =>
    by_cases same : c = d
    · rw [same, splitAtEach_cons_self, List.length_cons, ih, List.count_cons_self]
    · have other : (· == d) c = false := beq_eq_false_iff_ne.mpr same
      obtain ⟨w, ws, parts, longer⟩ := @splitWhere_cons_of_not_mark _ (· == d) _ other s
      rw [splitAtEach, parts] at ih
      rw [splitAtEach, longer, List.count_cons_of_ne same]
      exact ih

/-- Parts that are written one after another, each after a mark, are parts again. -/
theorem splitAtEach_append_flatMap (s : List α) {parts : List (List α)}
    (h : ∀ part ∈ parts, d ∉ part) :
    splitAtEach d (s ++ parts.flatMap (d :: ·)) = splitAtEach d s ++ parts := by
  induction parts generalizing s with
  | nil => simp
  | cons part rest ih =>
    obtain ⟨whole, more⟩ := List.forall_mem_cons.mp h
    rw [List.flatMap_cons, List.cons_append, splitAtEach_append, ih part more,
      splitAtEach_of_not_mem whole, List.singleton_append]

theorem splitAtEach_flatMap {parts : List (List α)} (h : ∀ part ∈ parts, d ∉ part) :
    splitAtEach d (parts.flatMap (d :: ·)) = [] :: parts :=
  splitAtEach_append_flatMap [] h

/-- Lists that are written one after another, each before a mark, have the parts of each. -/
theorem splitAtEach_flatMap_concat {β : Type} (f : β → List α) (xs : List β) :
    splitAtEach d (xs.flatMap fun x => f x ++ [d]) =
      xs.flatMap (fun x => splitAtEach d (f x)) ++ [[]] := by
  induction xs with
  | nil => rfl
  | cons x xs ih =>
    rw [List.flatMap_cons, List.append_assoc, List.singleton_append, splitAtEach_append, ih,
      List.flatMap_cons, List.append_assoc]

/-- Lists that are joined by marks have the parts of each. -/
theorem splitAtEach_intercalate {lists : List (List α)} (some : lists ≠ []) :
    splitAtEach d (List.intercalate [d] lists) = lists.flatMap (splitAtEach d) := by
  induction lists with
  | nil => exact absurd rfl some
  | cons s rest ih =>
    cases rest with
    | nil => rw [List.intercalate_singleton, List.flatMap_singleton]
    | cons t rest =>
      rw [List.intercalate_cons_cons, List.append_assoc, List.singleton_append,
        splitAtEach_append, ih (List.cons_ne_nil t rest), ← List.flatMap_cons]

end

end LintBridge.Text
