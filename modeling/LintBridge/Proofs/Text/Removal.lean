import LintBridge.Text.Remove

/-! What removing a word from a text comes to.  `Removes` reads the text from its start: where the
word stands it is passed over as a whole, and every other character is kept.  `removes_iff` says
that `remove` comes to just that. -/

namespace LintBridge.Text

variable {word : List Char}

/-- A text without the occurrences of a word, from left to right and without overlap. -/
inductive Removes (word : List Char) : List Char → List Char → Prop
  | nil : Removes word [] []
  | occurrence {rest kept : List Char} (others : Removes word rest kept) :
      Removes word (word ++ rest) kept
  | other {c : Char} {rest kept : List Char} (absent : ¬ word <+: c :: rest)
      (others : Removes word rest kept) : Removes word (c :: rest) (c :: kept)

/-- Characters that are to be skipped might as well not be there. -/
theorem removeAfter_eq_drop (n : Nat) (s : List Char) :
    removeAfter word n s = remove word (s.drop n) := by
  induction n generalizing s with
  | zero => rfl
  | succ n ih =>
    cases s with
    | nil => rfl
    | cons c s => exact ih s

theorem remove_append (nonempty : word ≠ []) (rest : List Char) :
    remove word (word ++ rest) = remove word rest := by
  obtain ⟨c, tail, rfl⟩ := List.exists_cons_of_ne_nil nonempty
  have here : (c :: tail).isPrefixOf (c :: (tail ++ rest)) = true :=
    List.isPrefixOf_iff_prefix.mpr (List.prefix_append (c :: tail) rest)
  rw [remove, List.cons_append, removeAfter, if_pos here, removeAfter_eq_drop]
  simp

theorem remove_cons {c : Char} {rest : List Char} (absent : ¬ word <+: c :: rest) :
    remove word (c :: rest) = c :: remove word rest := by
  rw [remove, removeAfter, if_neg (mt List.isPrefixOf_iff_prefix.mp absent)]
  rfl

theorem removes_removeAfter (nonempty : word ≠ []) (n : Nat) (s : List Char) :
    Removes word (s.drop n) (removeAfter word n s) := by
  fun_induction removeAfter word n s with
  | case1 n =>
    rw [List.drop_nil]
    exact .nil
  | case2 c rest n ih => exact ih
  | case3 c rest here ih =>
    -- the first character is passed over here, and the rest of the word is skipped
    obtain ⟨after, split⟩ := List.isPrefixOf_iff_prefix.mp here
    have tail : rest.drop (word.length - 1) = after := by
      obtain ⟨d, more, rfl⟩ := List.exists_cons_of_ne_nil nonempty
      obtain rfl : more ++ after = rest := (List.cons.inj split).2
      simp
    rw [tail] at ih
    rw [List.drop_zero, ← split]
    exact .occurrence ih
  | case4 c rest absent ih =>
    exact .other (mt List.isPrefixOf_iff_prefix.mpr absent) ih

/-- Reading a text from its start, passing over the word where it stands, gives what `remove`
gives. -/
theorem removes_iff (nonempty : word ≠ []) {s kept : List Char} :
    Removes word s kept ↔ kept = remove word s := by
  constructor
  · intro removed
    induction removed with
    | nil => rfl
    | occurrence others ih => rw [remove_append nonempty, ih]
    | other absent others ih => rw [remove_cons absent, ih]
  · rintro rfl
    exact removes_removeAfter nonempty 0 s

end LintBridge.Text
