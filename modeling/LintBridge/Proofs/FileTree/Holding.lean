import LintBridge.Proofs.FileTree.Replacement

/-! A file that has been put in its place, and how long it is there.  It is read at its path unless
the path goes by a link that the file has replaced (`lands_of_ok`), and as long as its directory is
left alone (`Holds.keep`). -/

namespace LintBridge.FileTree

variable {c : Conditions} {t s u made : FileTree} {p target : Path} {dir : Place} {n : Name}
  {bytes : List UInt8}

/-! ### A directory that is left alone -/

/-- A path leads where it led before, and what is there and below has not changed. -/
structure KeepsDir (p : Path) (t s : FileTree) : Prop where
  leads : s.locate p true = t.locate p true
  below : ∀ dir, t.locate p true = .ok dir → ∀ place, dir <+: place →
    s.entry? place = t.entry? place

namespace KeepsDir

theorem refl (p : Path) (t : FileTree) : KeepsDir p t t := ⟨rfl, fun _ _ _ _ => rfl⟩

theorem trans (first : KeepsDir p t s) (second : KeepsDir p s u) : KeepsDir p t u := by
  refine ⟨second.leads.trans first.leads, fun dir led place inside => ?_⟩
  have leads : s.locate p true = .ok dir := first.leads.trans led
  exact (second.below dir leads place inside).trans (first.below dir led place inside)

end KeepsDir

theorem Holds.keep (h : Holds t target bytes dir n) (keeps : KeepsDir (directoryOf target) t s) :
    Holds s target bytes dir n where
  usable := h.usable
  named := h.named
  short := h.short
  plain := h.plain
  directory := keeps.leads.trans h.directory
  isDir := by
    rw [isDirAt_iff, keeps.below dir h.directory dir (List.prefix_refl dir)]
    exact isDirAt_iff.mp h.isDir
  entry := by
    rw [keeps.below dir h.directory _ (List.prefix_append dir [n])]
    exact h.entry

/-! ### A file that has been put in its place -/

/-- What stood in the place of a target was a link on the way to its directory: now that it is gone
the path of the directory does not lead there. -/
structure Crosses (t s : FileTree) (target : Path) (dir : Place) (n : Name) : Prop where
  link : ∃ link, t.entry? (dir ++ [n]) = some (.link link)
  lost : s.locate (directoryOf target) true ≠ .ok dir

/-- A write has put a file in its place, in the directory of its target, and all directories that
were missing have been made.  The file is read there, unless the target is crossed. -/
structure Lands (t s : FileTree) (target : Path) (bytes : List UInt8) (made : FileTree)
    (dir : Place) (n : Name) : Prop where
  makes : Makes (waysTo target) t made
  puts : Puts target bytes made s dir n
  held : Holds s target bytes dir n ∨ Crosses t s target dir n

theorem lands_of_fits {m : Name} {place : Place} (makes : Makes (waysTo target) t made)
    (directory : made.locate (directoryOf target) true = .ok dir)
    (isDir : made.isDirAt dir = true) (free : made.entry? (dir ++ [m]) = none)
    (fits : (made.insert (dir ++ [m]) (.file bytes false)).placeToReplace target = .ok place) :
    ∃ n, Lands t (made.insert place (.file bytes false)) target bytes made dir n := by
  obtain ⟨n, rfl, named, -, held⟩ := holds_of_fits directory isDir free fits
  obtain ⟨n', puts⟩ := puts_of_fits directory isDir free fits
  obtain rfl : n' = n := Option.some.inj (puts.named.symm.trans named)
  refine ⟨n', makes, puts, held.imp_right fun ⟨⟨link, there⟩, lost⟩ => ⟨⟨link, ?_⟩, lost⟩⟩
  -- Only directories have been made before the write, so the link was there.
  obtain same | new := makes.entry (dir ++ [n'])
  · exact same.symm.trans there
  · cases new.there.symm.trans there

/-- Whatever conditions a write meets with, if it succeeds the file is in its place. -/
theorem lands_of_ok (h : (t.replace c target bytes).result = .ok ()) :
    ∃ made dir n, Lands t ((t.replace c target bytes).final t) target bytes made dir n := by
  obtain ⟨states, builds, ⟨e, steps⟩ | ⟨dir, w, directory, isDir, goes, steps⟩⟩ :=
    replace_cases c t target bytes
  · rw [steps] at h
    cases h
  · rw [steps] at h ⊢
    cases goes with
    | unstaged | removed => cases h
    | renamed free each fits => exact ⟨_, dir, lands_of_fits builds.whole directory isDir free fits⟩

end LintBridge.FileTree
