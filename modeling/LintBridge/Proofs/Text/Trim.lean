import LintBridge.Text.Blank

/-! What trimming leaves of a text: the one part of it that neither begins nor ends with white
space and has nothing but white space around it, `trims_iff`. -/

namespace LintBridge.Text

/-- A text neither begins nor ends with white space. -/
structure IsBare (s : List Char) : Prop where
  start : ∀ c ∈ s.head?, isBlank c = false
  stop : ∀ c ∈ s.getLast?, isBlank c = false

/-- A part of a text is what is left of it without the white space around it. -/
structure Trims (s kept : List Char) : Prop where
  within : ∃ before after, s = before ++ kept ++ after ∧
    before.all isBlank = true ∧ after.all isBlank = true
  bare : IsBare kept

theorem isBare_nil : IsBare [] := ⟨nofun, nofun⟩

theorem trimEndChars_eq_reverse (s : List Char) :
    trimEndChars s = (trimStartChars s.reverse).reverse := rfl

theorem trimStartChars_eq_self {s : List Char} (h : ∀ c ∈ s.head?, isBlank c = false) :
    trimStartChars s = s := by
  cases s with
  | nil => rfl
  | cons c s =>
    have filled : isBlank c = false := h c rfl
    rw [trimStartChars, List.dropWhile_cons_of_neg (by simp [filled])]

theorem trimEndChars_eq_self {s : List Char} (h : ∀ c ∈ s.getLast?, isBlank c = false) :
    trimEndChars s = s := by
  rw [← List.head?_reverse] at h
  rw [trimEndChars_eq_reverse, trimStartChars_eq_self h, List.reverse_reverse]

theorem trimStartChars_of_all {s : List Char} (h : s.all isBlank = true) :
    trimStartChars s = [] := by
  simpa [trimStartChars] using trimStartChars_append_of_all h []

/-- White space at the end does not count, whatever stands before it. -/
theorem trimEndChars_append_of_all {w : List Char} (h : w.all isBlank = true) (s : List Char) :
    trimEndChars (s ++ w) = trimEndChars s := by
  have reversed : w.reverse.all isBlank = true := by rwa [List.all_reverse]
  rw [trimEndChars_eq_reverse, List.reverse_append, trimStartChars_append_of_all reversed]
  rfl

theorem exists_trimStartChars (s : List Char) :
    ∃ before, before.all isBlank = true ∧ s = before ++ trimStartChars s :=
  ⟨s.takeWhile isBlank, List.all_takeWhile, List.takeWhile_append_dropWhile.symm⟩

theorem exists_trimEndChars (s : List Char) :
    ∃ after, after.all isBlank = true ∧ s = trimEndChars s ++ after := by
  obtain ⟨before, blank, split⟩ := exists_trimStartChars s.reverse
  refine ⟨before.reverse, by rwa [List.all_reverse], ?_⟩
  have back := congrArg List.reverse split
  rwa [List.reverse_reverse, List.reverse_append] at back

theorem head?_trimStartChars (s : List Char) :
    ∀ c ∈ (trimStartChars s).head?, isBlank c = false := by
  intro c first
  have found := List.head?_dropWhile_not isBlank s
  rw [← trimStartChars, Option.mem_def.mp first] at found
  simpa using found

theorem getLast?_trimEndChars (s : List Char) :
    ∀ c ∈ (trimEndChars s).getLast?, isBlank c = false := by
  rw [trimEndChars_eq_reverse, List.getLast?_reverse]
  exact head?_trimStartChars s.reverse

/-- What is left without the white space at the end begins as before. -/
theorem head?_trimEndChars {s : List Char} (h : ∀ c ∈ s.head?, isBlank c = false) :
    ∀ c ∈ (trimEndChars s).head?, isBlank c = false := by
  obtain ⟨after, -, split⟩ := exists_trimEndChars s
  intro c first
  cases kept : trimEndChars s with
  | nil =>
    rw [kept] at first
    cases first
  | cons d rest =>
    rw [kept] at first split
    rw [split] at h
    exact h c first

theorem isBare_trimChars (s : List Char) : IsBare (trimChars s) where
  start := head?_trimEndChars (head?_trimStartChars s)
  stop := getLast?_trimEndChars _

theorem trims_trimChars (s : List Char) : Trims s (trimChars s) where
  within := by
    obtain ⟨before, blank, split⟩ := exists_trimStartChars s
    obtain ⟨after, blank', split'⟩ := exists_trimEndChars (trimStartChars s)
    refine ⟨before, after, ?_, blank, blank'⟩
    rw [List.append_assoc, trimChars, ← split', ← split]
  bare := isBare_trimChars s

/-- Trimming leaves just the part of a text that is bare and stands between white space. -/
theorem trims_iff {s kept : List Char} : Trims s kept ↔ kept = trimChars s := by
  constructor
  · rintro ⟨⟨before, after, rfl, blank, blank'⟩, bare⟩
    rw [List.append_assoc, trimChars, trimStartChars_append_of_all blank]
    -- if nothing is kept, the white space at the end is taken away from the start
    by_cases none : kept = []
    · subst none
      rw [List.nil_append, trimStartChars_of_all blank']
      rfl
    · have start : ∀ c ∈ (kept ++ after).head?, isBlank c = false := by
        rw [List.head?_append, Option.or_of_isSome (List.isSome_head?.mpr none)]
        exact bare.start
      rw [trimStartChars_eq_self start, trimEndChars_append_of_all blank',
        trimEndChars_eq_self bare.stop]
  · rintro rfl
    exact trims_trimChars s

theorem isBare_iff {s : List Char} : IsBare s ↔ trimChars s = s := by
  constructor
  · intro bare
    exact (trims_iff.mp ⟨⟨[], [], by simp, rfl, rfl⟩, bare⟩).symm
  · intro same
    exact same ▸ isBare_trimChars s

/-- Nothing is left of a text just if it is all white space. -/
theorem trimChars_eq_nil {s : List Char} : trimChars s = [] ↔ s.all isBlank = true := by
  constructor
  · intro none
    obtain ⟨⟨before, after, split, blank, blank'⟩, -⟩ := trims_trimChars s
    rw [split, none, List.append_nil, List.all_append, blank, blank']
    rfl
  · intro blank
    exact (trims_iff.mp ⟨⟨s, [], by simp, blank, rfl⟩, isBare_nil⟩).symm

end LintBridge.Text
