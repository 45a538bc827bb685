import LintBridge.Proofs.Analysis.Location
import LintBridge.Proofs.Lists
import LintBridge.Proofs.Path.Below
import LintBridge.Proofs.Report.Accounts
import Mathlib.Logic.Relation

/-! How a report may spell the paths of its files.  A source is looked up by the components of its
path, below the base directory if it is relative, and by nothing else: `fileAt?_spelled`.  Reports
that only differ in how their sources are spelled therefore come to the same account. -/

namespace LintBridge.Report

open LintBridge.Path LintBridge.Text

/-! ### Spellings -/

/-- The components that a source names: those of its own text, which stand below the base directory
unless the text starts with a slash.  A name `..` is a component like any other. -/
def componentsOf (base : Path) (source : String) : List Component :=
  (if (Path.ofString source).isAbsolute then [.root] else base.components) ++
    properOf (Utf8.ofString source)

/-- Another way to write a source. -/
inductive Respells (base : Path) : String → String → Prop
  | rooted {top source : String} (dir : base = .ofString top)
      (relative : (Path.ofString source).isAbsolute = false) :
      Respells base source (top ++ "/" ++ source)
  | here {source : String} (relative : (Path.ofString source).isAbsolute = false) :
      Respells base source ("./" ++ source)
  | dot (front back : String) : Respells base (front ++ "/" ++ back) (front ++ "/./" ++ back)
  | slash (front back : String) : Respells base (front ++ "/" ++ back) (front ++ "//" ++ back)
  | slashAtEnd {source : String} (some : source ≠ "") : Respells base source (source ++ "/")

variable {base : Path} {source other : String}

theorem ofString_slashed (front back : String) :
    Utf8.ofString (front ++ "/" ++ back) = Utf8.ofString front ++ slash :: Utf8.ofString back := by
  rw [Utf8.ofString_append, Utf8.ofString_append, List.append_assoc]
  rfl

theorem properOf_slashed (front back : String) :
    properOf (Utf8.ofString (front ++ "/" ++ back)) =
      properOf (Utf8.ofString front) ++ properOf (Utf8.ofString back) := by
  rw [ofString_slashed, properOf_append_slash]

theorem isAbsolute_slashed (front back : String) :
    (Path.ofString (front ++ "/" ++ back)).isAbsolute =
      (front == "" || (Path.ofString front).isAbsolute) := by
  rw [isAbsolute, Path.ofString, ofString_slashed]
  by_cases empty : front = ""
  · subst empty
    rfl
  · have some : Utf8.ofString front ≠ [] := fun none => empty (Utf8.ofString_injective none)
    rw [List.head?_append_of_ne_nil _ some, beq_eq_false_iff_ne.mpr empty, Bool.false_or]
    rfl

/-- What follows a slash may be written in any way that has the same names. -/
theorem componentsOf_slashed {back back' : String}
    (same : properOf (Utf8.ofString back) = properOf (Utf8.ofString back')) (front : String) :
    componentsOf base (front ++ "/" ++ back) = componentsOf base (front ++ "/" ++ back') := by
  simp only [componentsOf, isAbsolute_slashed, properOf_slashed, same]

theorem componentsOf_of_respells (absolute : base.isAbsolute = true)
    (h : Respells base source other) : componentsOf base source = componentsOf base other := by
  cases h with
  | @rooted top _ dir relative =>
    subst dir
    rw [componentsOf, componentsOf, isAbsolute_slashed, absolute, relative, properOf_slashed,
      components_of_isAbsolute absolute, Bool.or_true, if_pos rfl, if_neg Bool.false_ne_true]
    rfl
  | here relative =>
    have split : "./" ++ source = "." ++ "/" ++ source := rfl
    rw [split, componentsOf, componentsOf, relative, isAbsolute_slashed, properOf_slashed]
    rfl
  | dot front back =>
    have split : front ++ "/./" ++ back = front ++ "/" ++ ("." ++ "/" ++ back) := by
      simp only [String.append_assoc]
      rfl
    rw [split]
    exact componentsOf_slashed (properOf_slashed "." back).symm front
  | slash front back =>
    have split : front ++ "//" ++ back = front ++ "/" ++ ("" ++ "/" ++ back) := by
      simp only [String.append_assoc]
      rfl
    rw [split]
    exact componentsOf_slashed (properOf_slashed "" back).symm front
  | slashAtEnd some =>
    have split : source ++ "/" = source ++ "/" ++ "" := String.append_empty.symm
    rw [split, componentsOf, componentsOf, isAbsolute_slashed, properOf_slashed,
      beq_eq_false_iff_ne.mpr some, Bool.false_or]
    exact congrArg _ (List.append_nil _).symm

/-- However often a source is written anew, it names the same components. -/
theorem componentsOf_of_eqvGen (absolute : base.isAbsolute = true)
    (h : Relation.EqvGen (Respells base) source other) :
    componentsOf base source = componentsOf base other := by
  induction h with
  | rel _ _ step => exact componentsOf_of_respells absolute step
  | refl _ => rfl
  | symm _ _ _ ih => exact ih.symm
  | trans _ _ _ _ _ ih ih' => exact ih.trans ih'

theorem components_joinString (absolute : base.isAbsolute = true) (source : String) :
    (base.joinString source).components = componentsOf base source := by
  rw [joinString, componentsOf]
  cases rooted : (Path.ofString source).isAbsolute with
  | true => rw [join_of_isAbsolute rooted, components_of_isAbsolute rooted]; rfl
  | false => rw [components_join absolute rooted]; rfl

/-! ### Lookup -/

variable {files : List SourceFile} {file : SourceFile}

/-- The local path of a file has these components. -/
def StandsAt (cs : List Component) (file : SourceFile) : Prop :=
  ∃ path, file.path? = some path ∧ path.components = cs

theorem isSource_iff (absolute : base.isAbsolute = true) {e : ReportedFile} :
    IsSource base e file ↔ StandsAt (componentsOf base e.source) file := by
  simp only [IsSource, StandsAt, components_joinString absolute,
    eq_comm (a := componentsOf base e.source)]

theorem any_same_iff_standsAt (absolute : base.isAbsolute = true) :
    (file.path?.any (base.joinString source).same) = true ↔
      StandsAt (componentsOf base source) file :=
  (any_same_iff base (e := ⟨source, []⟩)).trans (isSource_iff absolute)

theorem fileAt?_congr (absolute : base.isAbsolute = true)
    (same : componentsOf base source = componentsOf base other) (files : List SourceFile) :
    Import.fileAt? base files source = Import.fileAt? base files other := by
  rw [Import.fileAt?, Import.fileAt?]
  congr 1
  funext f
  exact Bool.eq_iff_iff.mpr (by
    rw [any_same_iff_standsAt absolute, any_same_iff_standsAt absolute, same])

/-- The first file at the path of a source is the one that is found. -/
theorem fileAt?_eq_some (absolute : base.isAbsolute = true) :
    Import.fileAt? base files source = some file ↔
      ∃ before after, files = before ++ file :: after ∧
        StandsAt (componentsOf base source) file ∧
        ∀ f ∈ before, ¬ StandsAt (componentsOf base source) f := by
  rw [Import.fileAt?, List.find?_eq_some_iff_append, any_same_iff_standsAt absolute]
  constructor
  · rintro ⟨here, before, after, split, first⟩
    refine ⟨before, after, split, here, fun f member there => ?_⟩
    simpa [(any_same_iff_standsAt absolute).mpr there] using first f member
  · rintro ⟨before, after, split, here, first⟩
    refine ⟨here, before, after, split, fun f member => ?_⟩
    simpa using mt (any_same_iff_standsAt absolute).mp (first f member)

/-- What else is declared of the files plays no part. -/
theorem fileAt?_map {declare : SourceFile → SourceFile} (kept : ∀ f, (declare f).url = f.url)
    (base : Path) (files : List SourceFile) (source : String) :
    Import.fileAt? base (files.map declare) source =
      (Import.fileAt? base files source).map declare := by
  have same (f : SourceFile) : (declare f).path? = f.path? := congrArg Url.toPath? (kept f)
  simp only [Import.fileAt?, List.find?_map, Function.comp_def, same]

theorem StandsAt.unique {cs ds : List Component} (h : StandsAt cs file) (h' : StandsAt ds file) :
    cs = ds := by
  obtain ⟨p, here, rfl⟩ := h
  obtain ⟨q, here', rfl⟩ := h'
  exact congrArg components (Option.some.inj (here.symm.trans here'))

/-- Sources that name different components are told apart by a file at the path of one of them. -/
theorem componentsOf_eq_of_fileAt? (absolute : base.isAbsolute = true)
    (same : ∀ files, Import.fileAt? base files source = Import.fileAt? base files other) :
    componentsOf base source = componentsOf base other := by
  obtain ⟨cs, proper, read⟩ := isAbsolute_iff.mp (isAbsolute_join absolute (p := .ofString source))
  let f : SourceFile := { url := Url.ofComponents cs }
  have stands : StandsAt (componentsOf base source) f := by
    rw [← components_joinString absolute]
    exact SourceFile.isAt_of_url proper read rfl
  have found : Import.fileAt? base [f] source = some f :=
    (fileAt?_eq_some absolute).mpr ⟨[], [], rfl, stands, by simp⟩
  rw [same] at found
  obtain ⟨_, _, -, stands', -⟩ := (fileAt?_eq_some absolute).mp found
  exact stands.unique stands'

/-! ### Accounts of reports -/

section Accounts

variable {rules : RuleSet} {tree tree' : FileTree}

/-- Entries with the same warnings whose sources are written in two ways. -/
def SameEntry (base : Path) (e e' : ReportedFile) : Prop :=
  e.warnings = e'.warnings ∧ Relation.EqvGen (Respells base) e.source e'.source

/-- Reports whose entries only differ in how their sources are written, or that both fail. -/
inductive SameReport (base : Path) (tree tree' : FileTree) (report report' : Path) : Prop
  | failed (h : ∀ entries, ¬ HasEntries base tree report entries)
      (h' : ∀ entries, ¬ HasEntries base tree' report' entries)
  | read {entries entries' : List ReportedFile} (h : HasEntries base tree report entries)
      (h' : HasEntries base tree' report' entries')
      (each : List.Forall₂ (SameEntry base) entries entries')

theorem OfWarning.unique {w : Diagnostic} {part part' : Account} (h : OfWarning rules file w part)
    (h' : OfWarning rules file w part') : part = part' := by
  cases h with
  | active found =>
    cases h' with
    | active => rfl
    | other none => cases found.symm.trans none
  | other none =>
    cases h' with
    | active found => cases none.symm.trans found
    | other => rfl

/-- What an entry comes to is told by the file that is found for it. -/
theorem OfEntry.found {e : ReportedFile} {part : Account} (h : OfEntry rules base files e part) :
    (Import.fileAt? base files e.source = none ∧ part = { counts := { unknownFiles := 1 } }) ∨
      ∃ f parts, Import.fileAt? base files e.source = some f ∧
        List.Forall₂ (OfWarning rules f) e.warnings parts ∧ part = parts.sum := by
  cases h with
  | unknown absent =>
    refine .inl ⟨List.find?_eq_none.mpr fun f member here => absent ⟨f, member, ?_⟩, rfl⟩
    exact (any_same_iff base).mp here
  | @known before after f parts split here first each =>
    refine .inr ⟨f, parts, List.find?_eq_some_iff_append.mpr ?_, each, rfl⟩
    refine ⟨(any_same_iff base).mpr here, before, after, split, fun g member => ?_⟩
    simpa using mt (any_same_iff base).mp (first g member)

theorem OfEntry.unique (absolute : base.isAbsolute = true) {e e' : ReportedFile}
    {part part' : Account} (same : SameEntry base e e') (h : OfEntry rules base files e part)
    (h' : OfEntry rules base files e' part') : part = part' := by
  obtain ⟨warned, spelled⟩ := same
  have looked : Import.fileAt? base files e.source = Import.fileAt? base files e'.source :=
    fileAt?_congr absolute (componentsOf_of_eqvGen absolute spelled) files
  obtain ⟨none, rfl⟩ | ⟨f, parts, found, each, rfl⟩ := h.found <;>
    obtain ⟨none', rfl⟩ | ⟨f', parts', found', each', rfl⟩ := h'.found
  · rfl
  · cases none.symm.trans (looked.trans found')
  · cases none'.symm.trans (looked.symm.trans found)
  · obtain rfl : f = f' := Option.some.inj (found.symm.trans (looked.trans found'))
    have warnings : List.Forall₂ (· = ·) e.warnings e'.warnings :=
      warned ▸ List.forall₂_refl e.warnings
    refine congrArg _ (eq_of_forall₂ warnings each each' ?_)
    rintro w _ p q rfl
    exact OfWarning.unique

theorem HasEntries.unique {report : Path} {entries entries' : List ReportedFile}
    (h : HasEntries base tree report entries) (h' : HasEntries base tree report entries') :
    entries = entries' := by
  obtain ⟨text, readable, holds⟩ := h
  obtain ⟨text', readable', holds'⟩ := h'
  obtain rfl := Utf8.ofString_injective (Except.ok.inj (readable.symm.trans readable'))
  exact Option.some.inj ((entries?_eq_some.mpr holds).symm.trans (entries?_eq_some.mpr holds'))

theorem OfReport.unique (absolute : base.isAbsolute = true) {report report' : Path}
    {part part' : Account} (same : SameReport base tree tree' report report')
    (h : OfReport rules base files tree report part)
    (h' : OfReport rules base files tree' report' part') : part = part' := by
  cases same with
  | failed none none' =>
    cases h with
    | read has => exact absurd has (none _)
    | failed =>
      cases h' with
      | read has' => exact absurd has' (none' _)
      | failed => rfl
  | read has has' each =>
    cases h with
    | failed none => exact absurd has (none _)
    | read given parts =>
      cases h' with
      | failed none' => exact absurd has' (none' _)
      | read given' parts' =>
        obtain rfl := has.unique given
        obtain rfl := has'.unique given'
        rw [eq_of_forall₂ each parts parts' fun _ _ _ _ => OfEntry.unique absolute]

theorem account_importAll_congr (absolute : base.isAbsolute = true) {reports reports' : List Path}
    (same : List.Forall₂ (SameReport base tree tree') reports reports') :
    (importAll rules tree base files reports).account =
      (importAll rules tree' base files reports').account := by
  obtain ⟨parts, each, total⟩ := account_foldl (account_addReport rules base files tree) reports {}
  obtain ⟨parts', each', total'⟩ :=
    account_foldl (account_addReport rules base files tree') reports' {}
  have unique := eq_of_forall₂ same each each' fun _ _ _ _ => OfReport.unique absolute
  rw [importAll, importAll, total, total', unique]

end Accounts

/-- The file of a source is the first one whose local path has the components that the source names,
whatever else is declared of the files.  Two sources find the same files just if they name the same
components, as all spellings of a source do.  So reports that differ in how their sources are
spelled come to the same counts and issues. -/
theorem fileAt?_spelled (absolute : base.isAbsolute = true) (files : List SourceFile)
    (source : String) :
    (∀ file, Import.fileAt? base files source = some file ↔
      ∃ before after, files = before ++ file :: after ∧
        StandsAt (componentsOf base source) file ∧
        ∀ f ∈ before, ¬ StandsAt (componentsOf base source) f) ∧
    (∀ declare : SourceFile → SourceFile, (∀ f, (declare f).url = f.url) →
      Import.fileAt? base (files.map declare) source =
        (Import.fileAt? base files source).map declare) ∧
    (∀ other, Relation.EqvGen (Respells base) source other →
      Import.fileAt? base files source = Import.fileAt? base files other) ∧
    (∀ other, (∀ files, Import.fileAt? base files source = Import.fileAt? base files other) ↔
      componentsOf base source = componentsOf base other) ∧
    ∀ rules tree tree' reports reports',
      List.Forall₂ (SameReport base tree tree') reports reports' →
        (importAll rules tree base files reports).account =
          (importAll rules tree' base files reports').account := by
  refine ⟨fun file => fileAt?_eq_some absolute,
    fun declare kept => fileAt?_map kept base files source, fun other spelled => ?_,
    fun other => ⟨componentsOf_eq_of_fileAt? absolute, ?_⟩, ?_⟩
  · exact fileAt?_congr absolute (componentsOf_of_eqvGen absolute spelled) files
  · exact fileAt?_congr absolute
  · exact fun _ _ _ _ _ same => account_importAll_congr absolute same

/-- Two reports of one finding: the first writes a relative source, the second an absolute one. -/
def twoReports : FileTree where
  entries :=
    [([[112]], .dir),
     ([[112], [114]], .file (Utf8.ofString "[[\"a\", [[1, \"x\", \"t\"]]]]") false),
     ([[112], [115]], .file (Utf8.ofString "[[\"/p/./a\", [[1, \"x\", \"t\"]]]]") false)]

theorem fileAt?_spelled_twoReports :
    let base := Path.ofString "/p"
    let file : SourceFile := { url := Url.ofComponents [.normal [112], .normal [97]] }
    let test : SourceFile := { file with kind := .test }
    Relation.EqvGen (Respells base) "a" "/p/./a" ∧
    Import.fileAt? base [file] "a" = some file ∧
    Import.fileAt? base [file] "a" = Import.fileAt? base [file] "/p/./a" ∧
    Import.fileAt? base [test] "a" =
      (Import.fileAt? base [file] "a").map ({ · with kind := .test }) ∧
    (importAll {} twoReports base [file] [.ofString "r"]).account =
      (importAll {} twoReports base [file] [.ofString "s"]).account := by
  intro base file test
  have absolute : base.isAbsolute = true := by decide +kernel
  have rooted : Respells base "a" "/p/a" := .rooted rfl (by decide +kernel)
  have spelled : Relation.EqvGen (Respells base) "a" "/p/./a" :=
    .trans _ "/p/a" _ (.rel _ _ rooted) (.rel _ _ (.dot "/p" "a"))
  have stands : StandsAt (componentsOf base "a") file :=
    ⟨.ofString "/p/a", by decide +kernel, by decide +kernel⟩
  have relative : HasEntries base twoReports (.ofString "r") [⟨"a", [⟨1, "x", "t"⟩]⟩] :=
    ⟨"[[\"a\", [[1, \"x\", \"t\"]]]]", rfl, entries?_eq_some.mp (by decide +kernel)⟩
  have full : HasEntries base twoReports (.ofString "s") [⟨"/p/./a", [⟨1, "x", "t"⟩]⟩] :=
    ⟨"[[\"/p/./a\", [[1, \"x\", \"t\"]]]]", rfl, entries?_eq_some.mp (by decide +kernel)⟩
  have reports : List.Forall₂ (SameReport base twoReports twoReports) [.ofString "r"]
      [.ofString "s"] :=
    .cons (.read relative full (.cons ⟨rfl, spelled⟩ .nil)) .nil
  obtain ⟨first, declared, same, -, run⟩ := fileAt?_spelled absolute [file] "a"
  exact ⟨spelled, (first file).mpr ⟨[], [], rfl, stands, by simp⟩, same _ spelled,
    declared ({ · with kind := .test }) fun _ => rfl, run _ _ _ _ _ reports⟩

/-- A name `..` stays where it is. -/
example : componentsOf (.ofString "/p") "b/../a" =
    [.root, .normal [112], .normal [98], .up, .normal [97]] := by
  decide +kernel

end LintBridge.Report
