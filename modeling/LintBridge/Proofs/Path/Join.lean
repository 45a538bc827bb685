import LintBridge.Proofs.Path.Below

/-! The components of a path that is joined to a directory.  A relative path that is made of names
adds just these, whatever the directory: `components_join_normal`. -/

namespace LintBridge.Path

open LintBridge.Text

variable {dir p : Path} {cs : List Name}

/-! ### How it is written -/

/-- A path below a directory that is not empty is written after the directory and a slash, which the
directory may already end in. -/
theorem exists_bytes_join (h : p.isAbsolute = false) (some : dir.bytes ≠ []) :
    ∃ front, (dir.bytes = front ∨ dir.bytes = front ++ [slash]) ∧
      (dir.join p).bytes = front ++ slash :: p.bytes := by
  simp only [join, h, Bool.false_eq_true, if_false, some, false_or]
  split
  next ends =>
    obtain ⟨front, split⟩ := List.getLast?_eq_some_iff.mp ends
    exact ⟨front, .inr split, by rw [split, List.append_assoc, List.singleton_append]⟩
  next => exact ⟨dir.bytes, .inl rfl, rfl⟩

theorem isAbsolute_join_of_relative (h : p.isAbsolute = false) (some : dir.bytes ≠ []) :
    (dir.join p).isAbsolute = dir.isAbsolute := by
  obtain ⟨front, same | slashed, bytes⟩ := exists_bytes_join h some
  · rw [isAbsolute, isAbsolute, bytes, ← same, List.head?_append_of_ne_nil _ some]
  · rw [isAbsolute, isAbsolute, bytes, slashed, List.head?_append, List.head?_append]
    rfl

theorem head?_splitAtEach_append (s r : List UInt8) :
    (splitAtEach slash (s ++ slash :: r)).head? = (splitAtEach slash s).head? := by
  rw [splitAtEach_append]
  exact List.head?_append_of_ne_nil _ (splitWhere_ne_nil s)

theorem head?_names_join (h : p.isAbsolute = false) (some : dir.bytes ≠ []) :
    (dir.join p).names.head? = dir.names.head? := by
  obtain ⟨front, same | slashed, bytes⟩ := exists_bytes_join h some
  · rw [names, names, bytes, head?_splitAtEach_append, same]
  · rw [names, names, bytes, slashed, head?_splitAtEach_append, head?_splitAtEach_append]

/-! ### Names -/

theorem relative_of_normal (made : p.components = cs.map .normal) :
    p.isAbsolute = false ∧ properOf p.bytes = cs.map .normal := by
  have relative : p.isAbsolute = false := by
    cases absolute : p.isAbsolute with
    | false => rfl
    | true =>
      rw [components_of_isAbsolute absolute] at made
      cases cs <;> cases made
  refine ⟨relative, ?_⟩
  rw [components_of_relative relative] at made
  split at made
  next => cases cs <;> cases made
  next => exact made

/-- Below any directory, be it absolute or relative, names are the components after its own. -/
theorem components_join_normal (made : p.components = cs.map .normal) (dir : Path) :
    (dir.join p).components = dir.components ++ cs.map .normal := by
  obtain ⟨relative, proper⟩ := relative_of_normal made
  by_cases empty : dir.bytes = []
  · obtain rfl : dir = ⟨[]⟩ := congrArg Path.mk empty
    have alone : Path.join ⟨[]⟩ p = p := by simp [join, relative]
    rw [alone, made]
    rfl
  · cases absolute : dir.isAbsolute with
    | true => rw [components_join absolute relative, proper]
    | false =>
      have below := isAbsolute_join_of_relative relative empty
      rw [components_of_relative (below.trans absolute), components_of_relative absolute,
        head?_names_join relative empty, properOf_join relative empty, proper]
      split <;> rfl

end LintBridge.Path
