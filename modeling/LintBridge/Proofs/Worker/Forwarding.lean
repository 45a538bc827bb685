import LintBridge.Proofs.Text.Lines
import LintBridge.Proofs.Text.Trim
import LintBridge.Worker.OutputLine
import Mathlib.Data.List.Forall2

/-! What becomes of the output of a worker.  `IsEntry` says how a line is read, and `forward` reads
the lines of a stream in their order, each as one entry, but only up to the first line that is not
UTF-8: `forward_accounts`. -/

namespace LintBridge.Worker

open LintBridge.Log LintBridge.Text

/-! ### One line -/

/-- The words by which the worker marks a line, with the levels that they stand for. -/
def marks : List (Level × List Char) := [(.debug, "DEBUG".toList), (.warn, "WARN".toList)]

theorem debug_mem_marks : (.debug, "DEBUG".toList) ∈ marks := List.mem_cons_self

theorem warn_mem_marks : (.warn, "WARN".toList) ∈ marks :=
  List.mem_cons_of_mem _ List.mem_cons_self

/-- How a line is read: as information, unless it starts with a mark, and then without the mark and
the white space that follows. -/
inductive IsEntry (line : String) : Level × String → Prop
  | marked {level : Level} {lead blank rest : List Char} (mark : (level, lead) ∈ marks)
      (split : line.toList = lead ++ (blank ++ rest)) (skipped : blank.all isBlank = true)
      (start : ∀ c ∈ rest.head?, isBlank c = false) : IsEntry line (level, String.ofList rest)
  | plain (unmarked : ∀ mark ∈ marks, ¬ mark.2 <+: line.toList) : IsEntry line (.info, line)

theorem afterLead?_eq_some {lead s rest : List Char} :
    afterLead? lead s = some rest ↔ s = lead ++ rest := by
  unfold afterLead?
  constructor
  · intro found
    split at found
    next leads =>
      obtain ⟨after, rfl⟩ := List.isPrefixOf_iff_prefix.mp leads
      rw [List.drop_left, Option.some.injEq] at found
      rw [found]
    next => cases found
  · rintro rfl
    rw [if_pos (List.isPrefixOf_iff_prefix.mpr (List.prefix_append lead rest)), List.drop_left]

theorem afterLead?_eq_none {lead s : List Char} : afterLead? lead s = none ↔ ¬ lead <+: s := by
  unfold afterLead?
  split
  next leads => simpa using List.isPrefixOf_iff_prefix.mp leads
  next other => simpa [List.isPrefixOf_iff_prefix] using other

theorem isEntry_of_mark {line : String} {level : Level} {lead after : List Char}
    (mark : (level, lead) ∈ marks) (found : afterLead? lead line.toList = some after) :
    IsEntry line (level, String.ofList (trimStartChars after)) := by
  obtain ⟨blank, skipped, split⟩ := exists_trimStartChars after
  refine .marked mark ?_ skipped (head?_trimStartChars after)
  rw [← split]
  exact afterLead?_eq_some.mp found

theorem isEntry_readLine (line : String) : IsEntry line (readLine line) := by
  unfold readLine
  split
  next after found => exact isEntry_of_mark debug_mem_marks found
  next undebugged =>
    split
    next after found => exact isEntry_of_mark warn_mem_marks found
    next unwarned =>
      refine .plain ?_
      simpa [marks] using ⟨afterLead?_eq_none.mp undebugged, afterLead?_eq_none.mp unwarned⟩

/-! ### A whole stream -/

/-- The lines of a stream are texts, each of which is read as one entry, and then, if there are any
more of them, one that is not UTF-8 and others: nothing of these is read.  If every line is UTF-8,
every line is read. -/
theorem forward_accounts (stream : List UInt8) :
    ∃ (texts : List String) (unread : List (List UInt8)),
      IsCut stream (texts.map Utf8.ofString ++ unread) ∧
      List.Forall₂ IsEntry texts (forward stream) ∧
      (∀ line ∈ unread.head?, ∀ text, Utf8.ofString text ≠ line) ∧
      ((∀ line ∈ lines stream, ∃ text, Utf8.ofString text = line) → unread = []) := by
  obtain ⟨unread, split, broken⟩ := exists_textsOf (lines stream)
  refine ⟨textLines stream, unread, ?_, ?_, broken, fun readable => ?_⟩
  · rw [isCut_iff]
    exact split
  · rw [forward, List.forall₂_map_right_iff]
    exact List.forall₂_same.mpr fun text _ => isEntry_readLine text
  · cases unread with
    | nil => rfl
    | cons line unread =>
      obtain ⟨text, same⟩ := readable line (by rw [split]; simp)
      exact absurd same (broken line rfl text)

/-- A line that is not UTF-8 keeps a later one from being read. -/
theorem forward_broken :
    IsCut [255, 10, 111, 107, 10] [[255], Utf8.ofString "ok"] ∧
      forward [255, 10, 111, 107, 10] = [] := by
  have cut : lines [255, 10, 111, 107, 10] = [[255], [111, 107]] := by decide
  have broken : Utf8.strict? [255] = none := by
    rw [Utf8.strict?, Utf8.decode]
    rfl
  refine ⟨isCut_iff.mpr (cut.trans (by decide)), ?_⟩
  rw [forward, textLines, cut, textsOf, broken]
  rfl

end LintBridge.Worker
