import LintBridge.Proofs.Report.Channels
import LintBridge.Proofs.Report.Listing

/-! The lines of a report in text.  Each issue is written as one line with a line feed after it, but
what the line says is written as it is, so an issue takes a line more for each line feed in its
path, its message or its rule.  A report of a run and of an import has a line for each issue just if
no issue has a line feed in it, `reported_lines`; and one can have it, since a message of the worker
is kept as it comes, `reported_broken`. -/

namespace LintBridge.Report

open LintBridge.Analysis LintBridge.Text

/-! ### Lines -/

/-- The line feeds in what is said of an issue. -/
def breaks (root : Path) (i : Issue) : Nat :=
  (shownPath root i.file).toList.count '\n' + i.message.toList.count '\n' +
    (i.rule.repository.toList.count '\n' + i.rule.rule.toList.count '\n')

/-- There is no line feed in what is said of an issue. -/
structure IsUnbroken (root : Path) (i : Issue) : Prop where
  path : '\n' ∉ (shownPath root i.file).toList
  message : '\n' ∉ i.message.toList
  repository : '\n' ∉ i.rule.repository.toList
  rule : '\n' ∉ i.rule.rule.toList

variable {root : Path}

theorem breaks_eq_zero {i : Issue} : breaks root i = 0 ↔ IsUnbroken root i := by
  simp only [breaks, Nat.add_eq_zero_iff, List.count_eq_zero]
  exact ⟨fun ⟨⟨path, message⟩, repository, rule⟩ => ⟨path, message, repository, rule⟩,
    fun h => ⟨⟨h.path, h.message⟩, h.repository, h.rule⟩⟩

theorem count_natChars (n : Nat) : (natChars n).count '\n' = 0 := by
  refine List.count_eq_zero.mpr fun member => ?_
  have digit := Nat.isDigit_of_mem_toDigits (by decide) (by decide) member
  exact absurd digit (by decide)

theorem count_lineChars (i : Issue) : (lineChars root i).count '\n' = breaks root i := by
  simp [lineChars, breaks, count_natChars]
  omega

/-! ### Texts -/

/-- The issues and external issues of a report, in the order in which they are written. -/
def listed (issues : List Issue) (external : List ExternalIssue) : List Issue :=
  issues ++ external.map (·.issue)

/-- The lines of a text: what stands before each of its line feeds, and after the last one. -/
def linesOf (text : String) : List (List Char) := splitAtEach '\n' text.toList

section

variable (root : Path) (issues : List Issue) (external : List ExternalIssue)

theorem toList_write_text : (write .text root issues external).toList =
    (listed issues external).flatMap fun i => lineChars root i ++ ['\n'] := by
  have written : Lists root issues external .text _ := lists_write .text
  cases written with
  | text lines => exact lines

/-- Every issue takes the lines that its own text has, and nothing stands after the last one. -/
theorem linesOf_write_text : linesOf (write .text root issues external) =
    (listed issues external).flatMap (fun i => splitAtEach '\n' (lineChars root i)) ++ [[]] := by
  rw [linesOf, toList_write_text, splitAtEach_flatMap_concat]

theorem length_linesOf (text : String) : (linesOf text).length = text.toList.count '\n' + 1 :=
  length_splitAtEach _

theorem count_write_text : (write .text root issues external).toList.count '\n' =
    (listed issues external).length + ((listed issues external).map (breaks root)).sum := by
  rw [toList_write_text]
  induction listed issues external with
  | nil => rfl
  | cons i rest ih =>
    simp only [List.flatMap_cons, List.count_append, ih, List.map_cons, List.sum_cons,
      List.length_cons, List.count_singleton_self, count_lineChars]
    omega

theorem count_write_text_iff :
    (write .text root issues external).toList.count '\n' = (listed issues external).length ↔
      ∀ i ∈ listed issues external, IsUnbroken root i := by
  rw [count_write_text, Nat.add_eq_left, List.sum_eq_zero_iff_forall_eq_nat, List.forall_mem_map]
  exact forall₂_congr fun _ _ => breaks_eq_zero

/-- The lines are those of the issues, one for each, just if no issue is broken. -/
theorem linesOf_write_text_iff :
    linesOf (write .text root issues external) =
        (listed issues external).map (lineChars root) ++ [[]] ↔
      ∀ i ∈ listed issues external, IsUnbroken root i := by
  constructor
  · intro same
    have counted := congrArg List.length same
    rw [length_linesOf, List.length_append, List.length_map, List.length_singleton,
      Nat.add_right_cancel_iff] at counted
    exact (count_write_text_iff root issues external).mp counted
  · intro unbroken
    rw [linesOf_write_text, ← List.flatMap_pure_eq_map]
    refine congrArg (· ++ [[]]) (List.flatMap_congr fun i member => ?_)
    refine splitAtEach_of_not_mem (List.count_eq_zero.mp ?_)
    rw [count_lineChars]
    exact breaks_eq_zero.mpr (unbroken i member)

end

/-! ### Reports of runs -/

theorem newline_not_mem_catalogKey : ∀ c ∈ catalog, '\n' ∉ c.key.toList := by
  decide +kernel

/-- An issue that a run saves is of a rule of the catalog, so that only its path and its message can
have a line feed in them. -/
theorem isUnbroken_of_saved {σ : Type} {active : List ActiveRule} {rules : RuleSet}
    (resolved : (RuleSet.ofActive active).2 = .ok rules) {s : Surroundings σ} {options : Options}
    {warnings : WarningList} {world : σ} {i : Issue}
    (saved : i ∈ (execute s rules options warnings world).2.issues) :
    IsUnbroken root i ↔ '\n' ∉ (shownPath root i.file).toList ∧ '\n' ∉ i.message.toList := by
  obtain ⟨done, -, issues⟩ := issues_execute s rules options warnings world
  rw [issues] at saved
  obtain ⟨a, -, own⟩ := List.mem_flatMap.mp saved
  rw [issues_eq_filterMap] at own
  obtain ⟨f, -, became⟩ := List.mem_filterMap.mp own
  obtain ⟨c, inCatalog, rfl⟩ := eq_of_issueOf? resolved became
  have repository : '\n' ∉ "css".toList := by decide
  exact ⟨fun unbroken => ⟨unbroken.path, unbroken.message⟩,
    fun ⟨path, message⟩ => ⟨path, message, repository, newline_not_mem_catalogKey c inCatalog⟩⟩

/-- The report of a run and of an import with one rule set.  Every issue takes the lines that its
own text has, in their order, so the report has a line feed for each issue and one for each line
feed in an issue; and it has one line for each issue, which is that of the issue, just if no issue
has a line feed in it.  A saved issue can have one in its path and its message only. -/
theorem reported_lines {σ : Type} {active : List ActiveRule} {rules : RuleSet}
    (resolved : (RuleSet.ofActive active).2 = .ok rules) (s : Surroundings σ) (options : Options)
    (warnings : WarningList) (world : σ) (tree : FileTree) (base : Path) (files : List SourceFile)
    (reports : List Path) (root : Path) :
    let saved := (execute s rules options warnings world).2.issues
    let imported := (importAll rules tree base files reports).issues
    let all := saved ++ imported.map (·.issue)
    let text := write .text root saved imported
    linesOf text = all.flatMap (fun i => splitAtEach '\n' (lineChars root i)) ++ [[]] ∧
    text.toList.count '\n' = saved.length + imported.length + (all.map (breaks root)).sum ∧
    (text.toList.count '\n' = saved.length + imported.length ↔ ∀ i ∈ all, IsUnbroken root i) ∧
    (linesOf text = all.map (lineChars root) ++ [[]] ↔ ∀ i ∈ all, IsUnbroken root i) ∧
    ∀ i ∈ saved, IsUnbroken root i ↔
      '\n' ∉ (shownPath root i.file).toList ∧ '\n' ∉ i.message.toList := by
  intro saved imported all text
  have length : saved.length + imported.length = (listed saved imported).length := by
    rw [listed, List.length_append, List.length_map]
  rw [length]
  exact ⟨linesOf_write_text root saved imported, count_write_text root saved imported,
    count_write_text_iff root saved imported, linesOf_write_text_iff root saved imported,
    fun _ => isUnbroken_of_saved resolved⟩

/-! ### A message over two lines -/

def brokenSheet : SourceFile := ⟨⟨"file", some {}, "/w/a.css", none, none⟩, "css", .main, .utf8⟩

/-- A worker that says over two lines what it finds in a style sheet. -/
def brokenScript : Script :=
  { files := [brokenSheet]
    workDir := .ofString "/w/.work"
    answers := [.answer (.ok (.diagnostics
      [⟨3, "block-no-empty", "Unexpected\nempty block (block-no-empty)"⟩]))] }

def brokenRules : RuleSet :=
  ⟨⟨[("block-no-empty", ⟨"css", "S4658"⟩)]⟩, ⟨[("block-no-empty", .bool true)]⟩⟩

theorem resolved_brokenRules : (RuleSet.ofActive [⟨"S4658", []⟩]).2 = .ok brokenRules := rfl

theorem issues_brokenScript :
    (execute Script.surroundings brokenRules {} {} brokenScript).2.issues =
      [⟨brokenSheet, ⟨"css", "S4658"⟩, 3, "Unexpected\nempty block"⟩] := rfl

/-- Where an issue has a line feed in it, the report has more lines than issues. -/
theorem reported_lines_brokenSheet :
    let saved := (execute Script.surroundings brokenRules {} {} brokenScript).2.issues
    let imported := (importAll brokenRules {} (.ofString "/w") [brokenSheet] []).issues
    let text := write .text (.ofString "/w") saved imported
    (RuleSet.ofActive [⟨"S4658", []⟩]).2 = .ok brokenRules ∧
      linesOf text = (saved ++ imported.map (·.issue)).flatMap
        (fun i => splitAtEach '\n' (lineChars (.ofString "/w") i)) ++ [[]] ∧
      text.toList.count '\n' ≠ saved.length + imported.length := by
  intro saved imported text
  obtain ⟨lines, -, counted, -⟩ := reported_lines resolved_brokenRules Script.surroundings {} {}
    brokenScript {} (.ofString "/w") [brokenSheet] [] (.ofString "/w")
  refine ⟨resolved_brokenRules, lines, fun same => ?_⟩
  have member : ⟨brokenSheet, ⟨"css", "S4658"⟩, 3, "Unexpected\nempty block"⟩ ∈ saved :=
    List.mem_of_mem_head? (congrArg List.head? issues_brokenScript)
  have unbroken := counted.mp same _ (List.mem_append_left _ member)
  exact absurd unbroken.message (by decide)

/-- The one issue of a style sheet takes two lines of the report. -/
theorem reported_broken :
    let saved := (execute Script.surroundings brokenRules {} {} brokenScript).2.issues
    (RuleSet.ofActive [⟨"S4658", []⟩]).2 = .ok brokenRules ∧ saved.length = 1 ∧
      write .text (.ofString "/w") saved [] = "a.css:3: Unexpected\nempty block [css:S4658]\n" ∧
      (write .text (.ofString "/w") saved []).toList.count '\n' = 2 := by
  intro saved
  have shown : shownPath (.ofString "/w") brokenSheet = "a.css" := by
    have path : brokenSheet.path? = some (.ofString "/w/a.css") := by decide +kernel
    have below : (Path.ofString "/w").below? (.ofString "/w/a.css") = some (.ofString "a.css") := by
      decide +kernel
    have display : (Path.ofString "a.css").display = "a.css" := by decide +kernel
    simp only [shownPath, path, below, Option.getD_some, display]
    decide +kernel
  have written : write .text (.ofString "/w") saved [] =
      "a.css:3: Unexpected\nempty block [css:S4658]\n" := by
    show write .text _ (execute Script.surroundings brokenRules {} {} brokenScript).2.issues [] = _
    simp only [issues_brokenScript, write, issueLine, shown, RuleKey.display, List.map_cons,
      List.map_nil, List.append_nil, intercalate_empty]
    decide +kernel
  refine ⟨resolved_brokenRules, congrArg List.length issues_brokenScript, written, ?_⟩
  rw [written]
  decide +kernel

end LintBridge.Report
