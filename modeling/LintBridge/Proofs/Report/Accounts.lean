import LintBridge.Proofs.Text.Utf8
import LintBridge.Proofs.Worker.Answers
import LintBridge.Report.Import

/-! What an import of reports does, as the sum of what its parts do.  `IsReport` says which texts
are reports and which entries they hold, in the terms of the grammar of JSON.  `OfWarning`,
`OfEntry` and `OfReport` say what each part adds to the counts and which issues it saves, and that
is done for all reports in their order: `importAll_accounts`. -/

namespace LintBridge.Report

open LintBridge.Json LintBridge.Text LintBridge.Worker

/-! ### Reports -/

/-- A JSON value holds warnings: it is an array of just these findings, in their order. -/
def HoldsWarnings (warnings : List Diagnostic) (v : Value) : Prop :=
  ∃ items, v = .array items ∧ List.Forall₂ IsFinding warnings items

/-- A JSON value is an entry of a report: an object whose members are named by texts, or an array.
Either may leave out the warnings if there are none. -/
inductive IsEntry (e : ReportedFile) : Value → Prop
  | object {members : List (Json.Text × Value)} {warnings : Value} (named : HasTextNames members)
      (source : GivesOnce members "source" (.text e.source))
      (warned : GivesOnce members "warnings" warnings) (each : HoldsWarnings e.warnings warnings) :
      IsEntry e (.object members)
  | bareObject {members : List (Json.Text × Value)} (named : HasTextNames members)
      (source : GivesOnce members "source" (.text e.source)) (lacks : Lacks members "warnings")
      (none : e.warnings = []) : IsEntry e (.object members)
  | array {warnings : Value} (each : HoldsWarnings e.warnings warnings) :
      IsEntry e (.array [.text e.source, warnings])
  | bareArray (none : e.warnings = []) : IsEntry e (.array [.text e.source])

/-- A text is a report with entries: it is a JSON array of just these, in their order. -/
def IsReport (text : String) (entries : List ReportedFile) : Prop :=
  ∃ items, IsDocument text (.array items) ∧ List.Forall₂ IsEntry entries items

theorem warning?_eq_finding? : warning? = finding? := rfl

theorem allItems?_eq_some {α : Type} {read : Value → Option α} {v : Value} {xs : List α} :
    allItems? read v = some xs ↔
      ∃ items, v = .array items ∧ List.Forall₂ (fun x item => read item = some x) xs items := by
  cases v with
  | array items =>
    simp only [allItems?, mapM_eq_some, Value.array.injEq]
    constructor
    · exact fun each => ⟨items, rfl, each.flip⟩
    · rintro ⟨_, rfl, each⟩
      exact each.flip
  | _ => simp [allItems?]

theorem allItems?_warning?_eq_some {v : Value} {warnings : List Diagnostic} :
    allItems? warning? v = some warnings ↔ HoldsWarnings warnings v := by
  simp only [allItems?_eq_some, warning?_eq_finding?, finding?_eq_some, HoldsWarnings]

theorem holdsWarnings_nil {warnings : List Diagnostic} :
    HoldsWarnings warnings (.array []) ↔ warnings = [] := by
  simp [HoldsWarnings, List.forall₂_nil_right_iff]

theorem fieldsOfItems?_fileFields {items : List Value} {source warnings : Value} :
    fieldsOfItems? fileFields items = some [source, warnings] ↔
      items = [source, warnings] ∨ items = [source] ∧ warnings = .array [] := by
  match items with
  | [] => simp [fieldsOfItems?, fileFields]
  | [_] => simp [fieldsOfItems?, fileFields, eq_comm]
  | [_, _] => simp [fieldsOfItems?, fileFields]
  | _ :: _ :: _ :: _ => simp [fieldsOfItems?, fileFields]

theorem reportedFile?_eq_fields {v : Value} {e : ReportedFile} :
    reportedFile? v = some e ↔ ∃ warnings, fields? fileFields v = some [.text e.source, warnings] ∧
      HoldsWarnings e.warnings warnings := by
  unfold reportedFile?
  simp only [Option.bind_eq_bind, Option.bind_eq_some_iff]
  constructor
  · rintro ⟨fields, given, parts⟩
    split at parts
    next source warnings =>
      simp only [Option.bind_eq_some_iff, Option.some.injEq, Value.text?_eq_some,
        allItems?_warning?_eq_some] at parts
      obtain ⟨_, rfl, _, each, rfl⟩ := parts
      exact ⟨warnings, given, each⟩
    next => cases parts
  · rintro ⟨warnings, given, each⟩
    refine ⟨_, given, ?_⟩
    simp only [Value.text?_eq_some.mpr rfl, allItems?_warning?_eq_some.mpr each, Option.bind_some]

/-- The entries that are read are those that the grammar of entries has. -/
theorem reportedFile?_eq_some {v : Value} {e : ReportedFile} :
    reportedFile? v = some e ↔ IsEntry e v := by
  rw [reportedFile?_eq_fields]
  constructor
  · rintro ⟨warnings, given, each⟩
    cases v with
    | object members =>
      obtain ⟨named, fields⟩ := fieldsOfMembers?_eq_some.mp given
      simp only [fileFields, List.forall₂_cons, givesField_required] at fields
      obtain ⟨source, warned | ⟨lacks, same⟩, -⟩ := fields
      · exact .object named source warned each
      · obtain rfl := Option.some.inj same
        exact .bareObject named source lacks (holdsWarnings_nil.mp each)
    | array items =>
      rcases fieldsOfItems?_fileFields.mp given with rfl | ⟨rfl, rfl⟩
      · exact .array each
      · exact .bareArray (holdsWarnings_nil.mp each)
    | _ => cases given
  · intro entry
    cases entry with
    | object named source warned each =>
      refine ⟨_, fieldsOfMembers?_eq_some.mpr ⟨named, ?_⟩, each⟩
      exact .cons (givesField_required.mpr source) (.cons (.inl warned) .nil)
    | bareObject named source lacks none =>
      refine ⟨.array [], fieldsOfMembers?_eq_some.mpr ⟨named, ?_⟩, holdsWarnings_nil.mpr none⟩
      exact .cons (givesField_required.mpr source) (.cons (.inr ⟨lacks, rfl⟩) .nil)
    | array each => exact ⟨_, fieldsOfItems?_fileFields.mpr (.inl rfl), each⟩
    | bareArray none =>
      exact ⟨_, fieldsOfItems?_fileFields.mpr (.inr ⟨rfl, rfl⟩), holdsWarnings_nil.mpr none⟩

theorem readText_eq_ok {tree : FileTree} {path : Path} {text : String} :
    tree.readText path = .ok text ↔ tree.read path = .ok (Utf8.ofString text) := by
  unfold FileTree.readText
  cases tree.read path with
  | error e => simp [bind, Except.bind]
  | ok bytes =>
    simp only [bind, Except.bind, Except.ok.injEq, ← Utf8.strict?_eq_some]
    cases Utf8.strict? bytes <;> simp

theorem entries?_eq_some {text : String} {entries : List ReportedFile} :
    entries? text = some entries ↔ IsReport text entries := by
  simp only [entries?, Option.bind_eq_some_iff, parse?_eq_some, allItems?_eq_some,
    reportedFile?_eq_some, IsReport]
  constructor
  · rintro ⟨_, document, items, rfl, each⟩
    exact ⟨items, document, each⟩
  · rintro ⟨items, document, each⟩
    exact ⟨_, document, items, rfl, each⟩

/-! ### Accounts -/

/-- What a part of an import adds to each count, and the issues that it saves. -/
@[ext]
structure Account where
  counts : ImportSummary := {}
  issues : List ExternalIssue := []

namespace Account

instance : Zero Account where
  zero := {}

instance : Add Account where
  add a b :=
    { counts :=
        { reportsRead := a.counts.reportsRead + b.counts.reportsRead
          reportsFailed := a.counts.reportsFailed + b.counts.reportsFailed
          issuesImported := a.counts.issuesImported + b.counts.issuesImported
          skippedActive := a.counts.skippedActive + b.counts.skippedActive
          unknownFiles := a.counts.unknownFiles + b.counts.unknownFiles }
      issues := a.issues ++ b.issues }

theorem add_def (a b : Account) : a + b =
    ⟨⟨a.counts.reportsRead + b.counts.reportsRead, a.counts.reportsFailed + b.counts.reportsFailed,
      a.counts.issuesImported + b.counts.issuesImported,
      a.counts.skippedActive + b.counts.skippedActive,
      a.counts.unknownFiles + b.counts.unknownFiles⟩, a.issues ++ b.issues⟩ := rfl

theorem add_zero (a : Account) : a + 0 = a :=
  Account.ext rfl (List.append_nil a.issues)

theorem zero_add (a : Account) : 0 + a = a := by
  rw [add_def]
  exact Account.ext (by simp [OfNat.ofNat, Zero.zero]) rfl

theorem add_assoc (a b c : Account) : a + b + c = a + (b + c) := by
  simp only [add_def, Nat.add_assoc, List.append_assoc]

end Account

/-- What an import has done so far. -/
def Import.account (i : Import) : Account := ⟨i.summary, i.issues⟩

section Parts

variable (rules : RuleSet)

/-- A warning whose rule is active is passed over, and any other one is saved as one issue. -/
inductive OfWarning (file : SourceFile) (w : Diagnostic) : Account → Prop
  | active {key : RuleKey} (h : rules.hostKey? w.rule = some key) :
      OfWarning file w { counts := { skippedActive := 1 } }
  | other (h : rules.hostKey? w.rule = none) :
      OfWarning file w
        { counts := { issuesImported := 1 }
          issues := [⟨⟨file, ⟨"stylelint", w.rule⟩, w.line, w.message⟩, typeOf w.rule, .major, 5⟩] }

variable (base : Path) (files : List SourceFile)

/-- The local path of a file is the path of an entry, which is below a base directory unless it is
absolute. -/
def IsSource (e : ReportedFile) (file : SourceFile) : Prop :=
  ∃ path, file.path? = some path ∧ (base.joinString e.source).components = path.components

def IsIndexed (e : ReportedFile) : Prop := ∃ file ∈ files, IsSource base e file

/-- An entry counts once if its file is not indexed, and else its warnings count, for the first file
that it is an entry of. -/
inductive OfEntry (e : ReportedFile) : Account → Prop
  | unknown (h : ¬ IsIndexed base files e) : OfEntry e { counts := { unknownFiles := 1 } }
  | known {before after : List SourceFile} {file : SourceFile} {parts : List Account}
      (split : files = before ++ file :: after) (here : IsSource base e file)
      (first : ∀ other ∈ before, ¬ IsSource base e other)
      (each : List.Forall₂ (OfWarning rules file) e.warnings parts) : OfEntry e parts.sum

variable (tree : FileTree)

/-- A report has entries: it can be read, and its octets encode a text that is a report with these.
-/
def HasEntries (report : Path) (entries : List ReportedFile) : Prop :=
  ∃ text, tree.read (base.join report) = .ok (Utf8.ofString text) ∧ IsReport text entries

/-- A report that does not have entries only counts as failed. -/
inductive OfReport (report : Path) : Account → Prop
  | failed (h : ∀ entries, ¬ HasEntries base tree report entries) :
      OfReport report { counts := { reportsFailed := 1 } }
  | read {entries : List ReportedFile} {parts : List Account}
      (h : HasEntries base tree report entries)
      (each : List.Forall₂ (OfEntry rules base files) entries parts) :
      OfReport report ({ counts := { reportsRead := 1 } } + parts.sum)

end Parts

/-! ### The import -/

/-- A loop does the sum of what its steps do. -/
theorem account_foldl {α : Type} {f : Import → α → Import} {Of : α → Account → Prop}
    (step : ∀ i x, ∃ part, Of x part ∧ (f i x).account = i.account + part) (xs : List α)
    (i : Import) :
    ∃ parts, List.Forall₂ Of xs parts ∧ (xs.foldl f i).account = i.account + parts.sum := by
  -- What a step does depends on what it steps over, not on what was imported before.
  induction xs generalizing i with
  | nil => exact ⟨[], .nil, (Account.add_zero _).symm⟩
  | cons x xs ih =>
    obtain ⟨part, here, now⟩ := step i x
    obtain ⟨parts, below, later⟩ := ih (f i x)
    refine ⟨part :: parts, .cons here below, ?_⟩
    rw [List.foldl_cons, later, now, List.sum_cons, Account.add_assoc]

/-- An import that only counts. -/
theorem account_of_counts {i j : Import} {counts : ImportSummary}
    (counted : j.summary = (i.account + { counts }).counts) (same : j.issues = i.issues) :
    j.account = i.account + { counts } :=
  Account.ext counted (same.trans (List.append_nil i.issues).symm)

section Steps

variable (rules : RuleSet) (base : Path) (files : List SourceFile) (tree : FileTree)

theorem account_addWarning (file : SourceFile) (i : Import) (w : Diagnostic) :
    ∃ part, OfWarning rules file w part ∧
      (i.addWarning rules file w).account = i.account + part := by
  unfold Import.addWarning
  split
  next key active => exact ⟨_, .active active, account_of_counts rfl rfl⟩
  next inactive => exact ⟨_, .other inactive, rfl⟩

theorem any_same_iff {e : ReportedFile} {file : SourceFile} :
    (file.path?.any (base.joinString e.source).same) = true ↔ IsSource base e file := by
  simp only [Option.any_eq_true, Path.same, beq_iff_eq, IsSource]

instance (e : ReportedFile) (file : SourceFile) : Decidable (IsSource base e file) :=
  decidable_of_iff _ (any_same_iff base)

instance (e : ReportedFile) : Decidable (IsIndexed base files e) :=
  inferInstanceAs (Decidable (∃ file ∈ files, IsSource base e file))

theorem account_addFile (i : Import) (e : ReportedFile) :
    ∃ part, OfEntry rules base files e part ∧
      (i.addFile rules base files e).account = i.account + part := by
  unfold Import.addFile Import.fileAt?
  split
  next none =>
    refine ⟨_, .unknown fun ⟨file, member, source⟩ => ?_, account_of_counts rfl rfl⟩
    exact List.find?_eq_none.mp none file member ((any_same_iff base).mpr source)
  next file found =>
    obtain ⟨here, before, after, split, first⟩ := List.find?_eq_some_iff_append.mp found
    obtain ⟨parts, each, total⟩ := account_foldl (account_addWarning rules file) e.warnings i
    refine ⟨_, .known split ((any_same_iff base).mp here) (fun other member source => ?_) each,
      total⟩
    simpa [(any_same_iff base).mpr source] using first other member

theorem account_addReport (i : Import) (report : Path) :
    ∃ part, OfReport rules base files tree report part ∧
      (i.addReport rules tree base files report).account = i.account + part := by
  unfold Import.addReport
  dsimp only
  split
  next e unreadable =>
    refine ⟨_, .failed fun entries ⟨text, readable, _⟩ => ?_, account_of_counts rfl rfl⟩
    rw [readText_eq_ok.mpr readable] at unreadable
    cases unreadable
  next text readable =>
    split
    next bad =>
      refine ⟨_, .failed fun entries ⟨text', readable', holds⟩ => ?_, account_of_counts rfl rfl⟩
      have readable' := readText_eq_ok.mpr readable'
      obtain rfl : text' = text := Except.ok.inj (readable'.symm.trans readable)
      rw [entries?_eq_some.mpr holds] at bad
      cases bad
    next entries good =>
      let opened : Import :=
        { i.log .info s!"Importing {(base.join report).display}" with
          summary := { i.summary with reportsRead := i.summary.reportsRead + 1 } }
      have counted : opened.account = i.account + { counts := { reportsRead := 1 } } :=
        account_of_counts rfl rfl
      obtain ⟨parts, each, total⟩ := account_foldl (account_addFile rules base files) entries opened
      refine ⟨_, .read ⟨text, readText_eq_ok.mp readable, entries?_eq_some.mp good⟩ each, ?_⟩
      rw [← Account.add_assoc, ← counted]
      exact total

end Steps

/-! ### Conservation -/

/-- What an account settles: each report is read or fails, each warning is saved or passed over, and
as many issues are saved as are counted. -/
structure Settles (reports warnings unknown : Nat) (a : Account) : Prop where
  reports : a.counts.reportsRead + a.counts.reportsFailed = reports
  saved : a.counts.issuesImported = a.issues.length
  warnings : a.counts.issuesImported + a.counts.skippedActive = warnings
  unknown : a.counts.unknownFiles = unknown

namespace Settles

theorem zero : Settles 0 0 0 0 := ⟨rfl, rfl, rfl, rfl⟩

theorem add {r w u r' w' u' : Nat} {a a' : Account} (h : Settles r w u a)
    (h' : Settles r' w' u' a') : Settles (r + r') (w + w') (u + u') (a + a') := by
  obtain ⟨reports, saved, warnings, unknown⟩ := h
  obtain ⟨reports', saved', warnings', unknown'⟩ := h'
  rw [Account.add_def]
  constructor <;> dsimp only
  case saved => rw [List.length_append, saved, saved']
  all_goals omega

end Settles

section Conservation

variable {rules : RuleSet} {base : Path} {files : List SourceFile} {tree : FileTree}

theorem OfWarning.settles {file : SourceFile} {w : Diagnostic} {part : Account}
    (h : OfWarning rules file w part) : Settles 0 1 0 part := by
  cases h <;> exact ⟨rfl, rfl, rfl, rfl⟩

theorem settles_warnings {file : SourceFile} {warnings : List Diagnostic} {parts : List Account}
    (each : List.Forall₂ (OfWarning rules file) warnings parts) :
    Settles 0 warnings.length 0 parts.sum := by
  induction each with
  | nil => exact .zero
  | cons here _ ih =>
    rw [List.length_cons, Nat.add_comm, List.sum_cons]
    exact here.settles.add ih

variable (base files) in
/-- The warnings of entries whose files are indexed. -/
def warningsOn (entries : List ReportedFile) : List Diagnostic :=
  (entries.filter fun e => IsIndexed base files e).flatMap (·.warnings)

variable (base files) in
/-- The entries whose files are not indexed. -/
def unindexed (entries : List ReportedFile) : List ReportedFile :=
  entries.filter fun e => ¬ IsIndexed base files e

theorem warningsOn_append (entries others : List ReportedFile) :
    warningsOn base files (entries ++ others) =
      warningsOn base files entries ++ warningsOn base files others := by
  simp [warningsOn]

theorem unindexed_append (entries others : List ReportedFile) :
    unindexed base files (entries ++ others) =
      unindexed base files entries ++ unindexed base files others :=
  List.filter_append entries others

theorem OfEntry.settles {e : ReportedFile} {part : Account} (h : OfEntry rules base files e part) :
    Settles 0 (warningsOn base files [e]).length (unindexed base files [e]).length part := by
  cases h with
  | unknown absent =>
    have counted : Settles 0 0 1 { counts := { unknownFiles := 1 } } := ⟨rfl, rfl, rfl, rfl⟩
    simpa [warningsOn, unindexed, absent] using counted
  | known split here first each =>
    have indexed : IsIndexed base files e := ⟨_, split ▸ List.mem_append_cons_self, here⟩
    simpa [warningsOn, unindexed, indexed] using settles_warnings each

theorem settles_entries {entries : List ReportedFile} {parts : List Account}
    (each : List.Forall₂ (OfEntry rules base files) entries parts) :
    Settles 0 (warningsOn base files entries).length (unindexed base files entries).length
      parts.sum := by
  induction each with
  | nil => exact .zero
  | @cons e _ entries _ here _ ih =>
    rw [← List.singleton_append, warningsOn_append, unindexed_append, List.length_append,
      List.length_append, List.sum_cons]
    exact here.settles.add ih

variable (base tree) in
/-- What is taken from a report: the entries that it has, or none if it fails. -/
def TakenFrom (report : Path) (entries : List ReportedFile) : Prop :=
  HasEntries base tree report entries ∨
    (∀ others, ¬ HasEntries base tree report others) ∧ entries = []

theorem OfReport.settles {report : Path} {part : Account}
    (h : OfReport rules base files tree report part) :
    ∃ entries, TakenFrom base tree report entries ∧
      Settles 1 (warningsOn base files entries).length (unindexed base files entries).length
        part := by
  cases h with
  | failed none => exact ⟨[], .inr ⟨none, rfl⟩, ⟨rfl, rfl, rfl, rfl⟩⟩
  | read has each =>
    refine ⟨_, .inl has, ?_⟩
    have counted : Settles 1 0 0 { counts := { reportsRead := 1 } } := ⟨rfl, rfl, rfl, rfl⟩
    simpa using counted.add (settles_entries each)

theorem settles_reports {reports : List Path} {parts : List Account}
    (each : List.Forall₂ (OfReport rules base files tree) reports parts) :
    ∃ taken, List.Forall₂ (TakenFrom base tree) reports taken ∧
      Settles reports.length (warningsOn base files taken.flatten).length
        (unindexed base files taken.flatten).length parts.sum := by
  induction each with
  | nil => exact ⟨[], .nil, .zero⟩
  | cons here _ ih =>
    obtain ⟨entries, from_, settled⟩ := here.settles
    obtain ⟨taken, each, settles⟩ := ih
    refine ⟨entries :: taken, .cons from_ each, ?_⟩
    rw [List.length_cons, Nat.add_comm, List.flatten_cons, warningsOn_append, unindexed_append,
      List.length_append, List.length_append, List.sum_cons]
    exact settled.add settles

end Conservation

/-- An import does what its reports do, in their order, and loses and repeats nothing. -/
theorem importAll_accounts (rules : RuleSet) (tree : FileTree) (base : Path)
    (files : List SourceFile) (reports : List Path) :
    ∃ parts taken, List.Forall₂ (OfReport rules base files tree) reports parts ∧
      List.Forall₂ (TakenFrom base tree) reports taken ∧
      (importAll rules tree base files reports).account = parts.sum ∧
      Settles reports.length (warningsOn base files taken.flatten).length
        (unindexed base files taken.flatten).length
        (importAll rules tree base files reports).account := by
  obtain ⟨parts, each, total⟩ := account_foldl (account_addReport rules base files tree) reports {}
  obtain ⟨taken, from_, settles⟩ := settles_reports each
  have total : (importAll rules tree base files reports).account = parts.sum :=
    total.trans (Account.zero_add parts.sum)
  exact ⟨parts, taken, each, from_, total, total ▸ settles⟩

end LintBridge.Report
