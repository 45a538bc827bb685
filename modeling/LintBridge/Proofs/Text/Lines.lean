import LintBridge.Proofs.Text.Utf8
import LintBridge.Text.Lines

/-! Octets cut into lines.  `IsCut` says what the lines of a list of octets are, and `lines` finds
just these: `isCut_iff`.  Of them the texts are taken up to the first line that is not UTF-8:
`exists_textsOf`. -/

namespace LintBridge.Text

/-- Octets cut into lines.  A line ends before a line feed, and before the carriage return that may
stand before that, or else at the end. -/
inductive IsCut : List UInt8 → List (List UInt8) → Prop
  | nothing : IsCut [] []
  | last {line : List UInt8} (written : line ≠ []) (whole : 10 ∉ line) : IsCut line [line]
  | feed {line rest : List UInt8} {lines : List (List UInt8)} (whole : 10 ∉ line)
      (bare : line.getLast? ≠ some 13) (more : IsCut rest lines) :
      IsCut (line ++ 10 :: rest) (line :: lines)
  | returnFeed {line rest : List UInt8} {lines : List (List UInt8)} (whole : 10 ∉ line)
      (more : IsCut rest lines) : IsCut (line ++ 13 :: 10 :: rest) (line :: lines)

theorem dropReturn_of_bare {line : List UInt8} (bare : line.getLast? ≠ some 13) :
    dropReturn line = line := by
  rw [dropReturn, if_neg bare]

theorem dropReturn_append_return (line : List UInt8) : dropReturn (line ++ [13]) = line := by
  simp [dropReturn]

/-- A line without a carriage return at its end is left as it is, and from any other one goes. -/
theorem eq_dropReturn_append {line : List UInt8} (h : line.getLast? = some 13) :
    line = dropReturn line ++ [13] := by
  obtain ⟨front, rfl⟩ := List.getLast?_eq_some_iff.mp h
  rw [dropReturn_append_return]

section

variable {front : List UInt8} (whole : 10 ∉ front)
include whole

theorem linesFrom_whole (backwards : List UInt8) :
    linesFrom backwards front =
      if backwards.reverse ++ front = [] then [] else [backwards.reverse ++ front] := by
  induction front generalizing backwards with
  | nil => simp [linesFrom]
  | cons b front ih =>
    have ordinary : b ≠ 10 := fun feed => whole (feed ▸ List.mem_cons_self)
    rw [linesFrom, if_neg ordinary, ih fun h => whole (List.mem_cons_of_mem _ h)]
    simp

theorem linesFrom_feed (backwards rest : List UInt8) :
    linesFrom backwards (front ++ 10 :: rest) =
      dropReturn (backwards.reverse ++ front) :: lines rest := by
  induction front generalizing backwards with
  | nil => simp [linesFrom, lines]
  | cons b front ih =>
    have ordinary : b ≠ 10 := fun feed => whole (feed ▸ List.mem_cons_self)
    rw [List.cons_append, linesFrom, if_neg ordinary, ih fun h => whole (List.mem_cons_of_mem _ h)]
    simp

theorem lines_whole (written : front ≠ []) : lines front = [front] := by
  rw [lines, linesFrom_whole whole]
  simp [written]

theorem lines_feed (rest : List UInt8) :
    lines (front ++ 10 :: rest) = dropReturn front :: lines rest := by
  rw [lines, linesFrom_feed whole]
  simp

end

theorem IsCut.lines_eq {stream : List UInt8} {cut : List (List UInt8)} (h : IsCut stream cut) :
    lines stream = cut := by
  induction h with
  | nothing => rfl
  | last written whole => exact lines_whole whole written
  | feed whole bare more ih => rw [lines_feed whole, dropReturn_of_bare bare, ih]
  | @returnFeed line rest cut whole more ih =>
    have ended : 10 ∉ line ++ [13] := by simpa using whole
    have split : line ++ 13 :: 10 :: rest = (line ++ [13]) ++ 10 :: rest := by simp
    rw [split, lines_feed ended, dropReturn_append_return, ih]

theorem isCut_lines (stream : List UInt8) : IsCut stream (lines stream) := by
  -- On the length: what is left after the first line feed is shorter.
  induction h : stream.length using Nat.strongRecOn generalizing stream with
  | _ n ih =>
    by_cases feeds : 10 ∈ stream
    · obtain ⟨line, rest, rfl, whole⟩ := List.eq_append_cons_of_mem feeds
      have shorter : rest.length < n := by
        rw [← h, List.length_append, List.length_cons]
        omega
      have more := ih rest.length shorter rest rfl
      rw [lines_feed whole]
      by_cases returned : line.getLast? = some 13
      · have split := eq_dropReturn_append returned
        have within : 10 ∉ dropReturn line := by
          intro inside
          rw [split] at whole
          exact whole (List.mem_append_left _ inside)
        have cut := IsCut.returnFeed within more
        rwa [List.append_cons, ← split] at cut
      · rw [dropReturn_of_bare returned]
        exact .feed whole returned more
    · by_cases written : stream = []
      · subst written
        exact .nothing
      · rw [lines_whole feeds written]
        exact .last written feeds

/-- Octets have one list of lines, and it is the one that is found. -/
theorem isCut_iff {stream : List UInt8} {cut : List (List UInt8)} :
    IsCut stream cut ↔ lines stream = cut :=
  ⟨IsCut.lines_eq, fun h => h ▸ isCut_lines stream⟩

/-- The texts are those of the first lines, up to one that is not UTF-8. -/
theorem exists_textsOf (cut : List (List UInt8)) :
    ∃ rest, cut = (textsOf cut).map Utf8.ofString ++ rest ∧
      ∀ line ∈ rest.head?, ∀ text, Utf8.ofString text ≠ line := by
  induction cut with
  | nil => exact ⟨[], rfl, by simp⟩
  | cons line cut ih =>
    cases read : Utf8.strict? line with
    | none =>
      refine ⟨line :: cut, by simp [textsOf, read], ?_⟩
      rintro _ ⟨rfl⟩ text same
      rw [Utf8.strict?_eq_some.mpr same.symm] at read
      cases read
    | some text =>
      obtain ⟨rest, split, broken⟩ := ih
      refine ⟨rest, ?_, broken⟩
      simp only [textsOf, read, List.map_cons, List.cons_append, ← split,
        ← Utf8.strict?_eq_some.mp read]

end LintBridge.Text
