import LintBridge.Proofs.Settings.Expansion
import LintBridge.Proofs.Text.Trim
import LintBridge.Settings.Document

/-! Blank paths in settings.  The entry point and the reports are checked as they are written in the
document, and only then are references filled in.  So a path is blank in the settings just if it is
not blank in the document, but vanishes: all its parts become white space.  What a document's paths
become is said by `paths_filled`, and `paths_vanish` has paths that do vanish. -/

namespace LintBridge

open LintBridge.Text

/-- An empty path, or one of white space only. -/
def Path.IsBlank (p : Path) : Prop :=
  ∃ s : List Char, s.all isBlank = true ∧ p.bytes = Utf8.encode s

namespace Path

theorem isBlank_ofList {s : List Char} :
    (Path.ofString (String.ofList s)).IsBlank ↔ s.all isBlank = true := by
  constructor
  · rintro ⟨t, blank, same⟩
    have same : String.ofList s = String.ofList t := by
      apply Utf8.ofString_injective
      rw [Utf8.ofString, Utf8.ofString, String.toList_ofList, String.toList_ofList, ← same]
      rw [Path.ofString, Utf8.ofString, String.toList_ofList]
    rw [String.ofList_inj.mp same]
    exact blank
  · intro blank
    exact ⟨s, blank, by rw [Path.ofString, Utf8.ofString, String.toList_ofList]⟩

theorem IsBlank.slash_not_mem {p : Path} (h : p.IsBlank) : slash ∉ p.bytes := by
  obtain ⟨s, blank, octets⟩ := h
  rw [octets]
  intro member
  obtain ⟨before, after, split⟩ := List.append_of_mem member
  obtain ⟨front, c, back, rfl, number, -⟩ := Utf8.exists_of_encode_eq split (by decide)
  have blank : isBlank c = true := by
    rw [List.all_append, List.all_cons, Bool.and_eq_true, Bool.and_eq_true] at blank
    exact blank.2.1
  have slash : c = '/' := by
    rw [← Char.ofNat_toNat c, number]
    rfl
  rw [slash] at blank
  exact absurd blank (by decide)

/-- What is named below a directory has a slash in it. -/
theorem slash_mem_join {dir p : Path} (some : dir.bytes ≠ []) : slash ∈ (dir.join p).bytes := by
  unfold join
  split
  next absolute =>
    have first : p.bytes.head? = Option.some slash := by simpa [isAbsolute] using absolute
    exact List.mem_of_head? first
  next =>
    split
    next ends =>
      have last := ends.resolve_left some
      exact List.mem_append_left _ (List.mem_of_getLast? last)
    next => exact List.mem_append_right _ List.mem_cons_self

end Path

theorem Environment.home?_nonempty {env : Environment} {home : Path} (h : env.home? = some home) :
    home.bytes ≠ [] := by
  unfold home? at h
  obtain ⟨bytes, chosen, rfl⟩ := Option.map_eq_some_iff.mp h
  obtain named | ⟨-, known⟩ := Option.or_eq_some_iff.mp chosen
  · exact of_decide_eq_true (Option.filter_eq_some_iff.mp named).2
  · exact of_decide_eq_true (Option.filter_eq_some_iff.mp known).2

namespace Settings

/-! ### Paths -/

/-- A text of which nothing but white space is left: each of its parts becomes white space, or
nothing. -/
def Vanishes (env : Environment) (s : String) : Prop :=
  ∃ parts, Factors charMarks s.toList parts ∧
    ∀ part ∈ parts, ∃ piece, Becomes env part piece ∧ piece.all isBlank = true

variable {env : Environment} {s : String}

theorem all_isBlank_flatten {parts : List (Part Char)} {pieces : List (List Char)}
    (become : List.Forall₂ (Becomes env) parts pieces) : pieces.flatten.all isBlank = true ↔
      ∀ part ∈ parts, ∃ piece, Becomes env part piece ∧ piece.all isBlank = true := by
  induction become with
  | nil => simp
  | @cons part piece parts pieces here later ih =>
    have first : piece.all isBlank = true ↔
        ∃ piece, Becomes env part piece ∧ piece.all isBlank = true := by
      constructor
      · exact fun blank => ⟨piece, here, blank⟩
      · rintro ⟨piece', becomes, blank⟩
        rw [here.unique becomes]
        exact blank
    rw [List.flatten_cons, List.all_append, Bool.and_eq_true, ih, first, List.forall_mem_cons]

theorem vanishes_iff : Vanishes env s ↔ (expandChars env s.toList).all isBlank = true := by
  constructor
  · rintro ⟨parts, factors, blank⟩
    obtain ⟨pieces, become⟩ := exists_pieces env parts
    rw [factors.filled become, all_isBlank_flatten become]
    exact blank
  · intro blank
    obtain ⟨parts, factors⟩ := exists_factors s.toList
    obtain ⟨pieces, become⟩ := exists_pieces env parts
    rw [factors.filled become, all_isBlank_flatten become] at blank
    exact ⟨parts, factors, blank⟩

/-- A path is blank just if the text that names it vanishes; the home directory is never blank. -/
theorem isBlank_expandPath : (expandPath env s).IsBlank ↔ Vanishes env s := by
  rw [vanishes_iff, expandPath]
  split
  next rest home filled found =>
    constructor
    · intro blank
      have some := Environment.home?_nonempty found
      exact absurd (Path.slash_mem_join some) blank.slash_not_mem
    · intro blank
      rw [filled] at blank
      exact absurd blank (by simp [isBlank, inRanges, blankRanges])
  next => exact Path.isBlank_ofList

/-! ### Documents -/

/-- A path in the settings is what a text in the document says: the text is not blank, and the path
is it with its references filled in, which is blank just if the text vanishes. -/
structure Fills (env : Environment) (given : String) (p : Path) : Prop where
  visible : isAllBlank given = false
  filled : p = expandPath env (trim given)
  blank_iff : p.IsBlank ↔ Vanishes env (trim given)

theorem fills_expandPath {given : String} (visible : isAllBlank given = false) :
    Fills env given (expandPath env (trim given)) := ⟨visible, rfl, isBlank_expandPath⟩

theorem not_isBlank_default : ¬ (defaultWorker env).entryPoint.IsBlank := by
  intro blank
  exact absurd blank.slash_not_mem (by simp [defaultWorker]; decide)

theorem entryPoint_of_checkWorker {f : WorkerFields} {w : WorkerSettings}
    (h : checkWorker env f = .ok w) : checkEntryPoint env f.entryPoint = .ok w.entryPoint := by
  simp only [checkWorker, bind, Except.bind] at h
  split at h
  · cases h
  · split at h
    · cases h
    · split at h
      · cases h
      next entry checked =>
        cases h
        exact checked

theorem reports_of_checkAnalysis {f : AnalysisFields} {a : AnalysisSettings}
    (h : checkAnalysis env f = .ok a) : a.reports = reportPaths env f.reports := by
  simp only [checkAnalysis, bind, Except.bind] at h
  split at h
  · cases h
  · split at h
    · cases h
    · cases h
      rfl

theorem fills_checkEntryPoint {given : String} {p : Path}
    (h : checkEntryPoint env (some given) = .ok p) : Fills env given p := by
  rw [checkEntryPoint] at h
  split at h
  · cases h
  next visible =>
    obtain rfl := Except.ok.inj h
    exact fills_expandPath (Bool.eq_false_iff.mpr visible)

theorem trim_ne_empty_iff {given : String} : trim given ≠ "" ↔ isAllBlank given = false := by
  rw [ne_eq, ← String.toList_eq_nil_iff, trim, String.toList_ofList, trimChars_eq_nil, isAllBlank,
    Bool.not_eq_true]

/-- The reports are those that are not blank in the document, each filled in. -/
theorem fills_reportPaths (given : List String) :
    List.Forall₂ (Fills env) (given.filter (isAllBlank · = false)) (reportPaths env given) := by
  rw [reportPaths]
  induction given with
  | nil => exact .nil
  | cons t given ih =>
    by_cases visible : isAllBlank t = false
    · have kept : trim t ≠ "" := trim_ne_empty_iff.mpr visible
      rw [List.map_cons, List.filter_cons_of_pos (by simpa using visible),
        List.filter_cons_of_pos (by simpa using kept)]
      exact .cons (fills_expandPath visible) ih
    · have dropped : ¬ trim t ≠ "" := mt trim_ne_empty_iff.mp visible
      rw [List.map_cons, List.filter_cons_of_neg (by simpa using visible),
        List.filter_cons_of_neg (by simpa using dropped)]
      exact ih

/-- The paths of settings that a document gives.  An entry point that the document names is not
blank there, and is blank in the settings just if it vanishes.  Of the reports that it names those
that are blank there are left out, and each other one is blank in the settings just if it
vanishes. -/
theorem paths_filled (env : Environment) {text : String} {s : Settings}
    (accepted : ofText env text = .ok s) :
    ∃ d, Document.parse? text = some d ∧
      (d.worker.entryPoint = none → ¬ s.worker.entryPoint.IsBlank) ∧
      (∀ given, d.worker.entryPoint = some given → Fills env given s.worker.entryPoint) ∧
      List.Forall₂ (Fills env) (d.analysis.reports.filter (isAllBlank · = false))
        s.analysis.reports := by
  unfold ofText at accepted
  split at accepted
  next => cases accepted
  next d parsed =>
    split at accepted
    next => cases accepted
    next s' checked =>
      obtain rfl := Except.ok.inj accepted
      obtain ⟨-, worker, analysis⟩ := sections_of_check checked
      have entry := entryPoint_of_checkWorker worker
      refine ⟨d, parsed, fun none => ?_, fun given named => ?_, ?_⟩
      · rw [none, checkEntryPoint] at entry
        rw [← Except.ok.inj entry]
        exact not_isBlank_default
      · rw [named] at entry
        exact fills_checkEntryPoint entry
      · rw [reports_of_checkAnalysis analysis]
        exact fills_reportPaths _

/-- A document with an entry point of which something is left where a variable is blank, and with a
report of which nothing is left where a variable is no text. -/
def partlyBlank : String :=
  "bridge.entry_point = \" $\x7bA\x7dx\"\nanalysis.stylelint_report_paths = [\" \", \"$\x7bB\x7d\"]"

theorem parse?_partlyBlank : Document.parse? partlyBlank =
    some { worker := { entryPoint := some " $\x7bA\x7dx" },
           analysis := { reports := [" ", "$\x7bB\x7d"] } } := by
  simp only [Document.parse?, Toml.parse?, partlyBlank, String.reduceToList]
  rfl

theorem paths_filled_partlyBlank :
    let env : Environment := { vars := [("A", " ")], octets := [("B", [255])] }
    ∃ s, ofText env partlyBlank = .ok s ∧ Fills env " $\x7bA\x7dx" s.worker.entryPoint ∧
      List.Forall₂ (Fills env) ["$\x7bB\x7d"] s.analysis.reports := by
  intro env
  obtain ⟨s, accepted⟩ : ∃ s, ofText env partlyBlank = .ok s := by
    rw [ofText, parse?_partlyBlank]
    exact ⟨_, rfl⟩
  obtain ⟨d, parsed, -, entry, reports⟩ := paths_filled env accepted
  obtain rfl := Option.some.inj (parse?_partlyBlank.symm.trans parsed)
  exact ⟨s, accepted, entry _ rfl, reports⟩

/-- A document whose paths are references alone. -/
def bareReferences : String :=
  "bridge.entry_point = \"$\x7bA\x7d\"\nanalysis.stylelint_report_paths = [\"$\x7bA\x7d\"]"

/-- Where the variable is not set, both paths are empty, and the document is accepted. -/
theorem paths_vanish : ∃ s, ofText {} bareReferences = .ok s ∧
    s.worker.entryPoint = ⟨[]⟩ ∧ s.analysis.reports = [⟨[]⟩] := by
  have parsed : Document.parse? bareReferences = some
      { worker := { entryPoint := some "$\x7bA\x7d" },
        analysis := { reports := ["$\x7bA\x7d"] } } := by
    simp only [Document.parse?, Toml.parse?, bareReferences, String.reduceToList]
    rfl
  have bare : trim "$\x7bA\x7d" = "$\x7bA\x7d" := by decide
  have gone : expandPath {} (trim "$\x7bA\x7d") = ⟨[]⟩ := by
    have unset (name : String) : ({} : Environment).get? name = none := by
      simp [Environment.get?, Environment.value?]
    have closed : charMarks.close ∉ ['A'] := by decide
    have expanded : expandChars {} "$\x7bA\x7d".toList = [] := by
      simp only [String.reduceToList]
      refine (expandChars_reference closed).trans ?_
      rw [unset, expandChars]
      rfl
    rw [bare, expandPath, expanded]
    rfl
  refine ⟨_, by rw [ofText, parsed]; rfl, gone, ?_⟩
  exact congrArg (fun p => [p]) gone

end Settings

end LintBridge
