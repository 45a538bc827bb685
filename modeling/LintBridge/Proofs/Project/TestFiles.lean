import LintBridge.Project.Files
import LintBridge.Proofs.Path.Extension
import LintBridge.Proofs.Path.Join
import LintBridge.Proofs.Project.Listing
import LintBridge.Proofs.Text.Lossy

/-! Which files are test files.  That is decided by the names that lead to a file from the root of
its project, and by nothing above the root: `isTest_below`. -/

namespace LintBridge.Project

open LintBridge.Path LintBridge.Text

/-! ### Names -/

/-- Octets encode a word, in whatever case. -/
def Spells (word : String) (n : Name) : Prop :=
  ∃ t, n = Utf8.ofString t ∧ eqIgnoringAsciiCase t word = true

def IsTestDir (n : Name) : Prop := Spells "test" n ∨ Spells "tests" n

/-- Before the last dot of a name stands `test`, and before that another dot that is not the first
character. -/
def IsNamedTest (n : Name) : Prop :=
  ∃ front mark back, n = front ++ dot :: mark ++ dot :: back ∧ front ≠ [] ∧ Spells "test" mark ∧
    dot ∉ back

/-- Names lead to a test file: through a directory of tests, or to a name of a test. -/
def LeadsToTest (names : List Name) : Prop :=
  (∃ n ∈ names.dropLast, IsTestDir n) ∨ ∃ n, names.getLast? = some n ∧ IsNamedTest n

variable {n : Name}

theorem spells_iff {word : String} (whole : '\uFFFD' ∉ word.toList.map Char.toLower) :
    eqIgnoringAsciiCase (Utf8.lossy n) word = true ↔ Spells word n :=
  Utf8.eqIgnoringAsciiCase_lossy whole

theorem isTestName_iff : isTestName n = true ↔ IsTestDir n := by
  have test : '\uFFFD' ∉ "test".toList.map Char.toLower := by decide
  have tests : '\uFFFD' ∉ "tests".toList.map Char.toLower := by decide
  simp [isTestName, testNames, spells_iff test, spells_iff tests, IsTestDir]

theorem Spells.dot_not_mem (h : Spells "test" n) : dot ∉ n := by
  obtain ⟨t, rfl, same⟩ := h
  intro inside
  have read : Utf8.lossy (Utf8.ofString t) = t :=
    Utf8.lossy_of_strict? (Utf8.strict?_eq_some.mpr rfl)
  have member : '.' ∈ t.toList := by
    rw [← read]
    exact (Utf8.mem_lossy_iff (by decide)).mpr inside
  exact absurd (Utf8.toLower_mem_of_eqIgnoringAsciiCase same member) (by decide)

/-! ### Paths -/

section Paths

variable {root p : Path} {names : List Name}

theorem fileName?_join_normal (made : p.components = names.map .normal) (filled : names ≠ [])
    (root : Path) : (root.join p).fileName? = names.getLast? := by
  obtain ⟨front, last, rfl⟩ := (List.eq_nil_or_concat' names).resolve_left filled
  rw [fileName?, components_join_normal made, List.map_append, ← List.append_assoc,
    List.getLast?_append_of_ne_nil _ (by simp), List.getLast?_append_of_ne_nil _ (by simp)]
  rfl

theorem componentsBelow_join (made : p.components = names.map .normal) (root : Path) :
    componentsBelow root (root.join p) = names.map .normal := by
  rw [componentsBelow, components_join_normal made,
    if_pos (List.isPrefixOf_iff_prefix.mpr (List.prefix_append _ _)), List.drop_left]

theorem isTestDir_normal {names : List Name} :
    (names.map Component.normal).any isTestDir = true ↔ ∃ n ∈ names, IsTestDir n := by
  rw [List.any_map, List.any_eq_true]
  exact exists_congr fun n => and_congr_right fun _ => isTestName_iff

theorem isNamedTest_iff {n : Name} (named : p.fileName? = some n) :
    ((p.stem?.bind fun stem => (splitExtension stem).2).any fun mark =>
      eqIgnoringAsciiCase (Utf8.lossy mark) "test") = true ↔ IsNamedTest n := by
  have test : '\uFFFD' ∉ "test".toList.map Char.toLower := by decide
  simp only [Option.any_eq_true, stem?_extension_eq_some, named, Option.some.injEq,
    spells_iff test]
  constructor
  · rintro ⟨mark, ⟨front, back, rfl, filled, -, last⟩, spelled⟩
    exact ⟨front, mark, back, rfl, filled, spelled, last⟩
  · rintro ⟨front, mark, back, rfl, filled, spelled, last⟩
    exact ⟨mark, ⟨front, back, rfl, filled, spelled.dot_not_mem, last⟩, spelled⟩

/-- Whether a file is a test file is decided by the names that lead to it from the root. -/
theorem isTest_join_iff (made : p.components = names.map .normal) (filled : names ≠ [])
    (root : Path) : isTest root (root.join p) = true ↔ LeadsToTest names := by
  have last := fileName?_join_normal made filled root
  rw [List.getLast?_eq_some_getLast filled] at last
  rw [isTest, componentsBelow_join made, Bool.or_eq_true, ← List.map_dropLast, isTestDir_normal,
    isNamedTest_iff last, LeadsToTest, List.getLast?_eq_some_getLast filled]
  simp only [Option.some.injEq, exists_eq_left']

theorem kind_of_fileAt? {f : SourceFile} (made : fileAt? root p = some f) :
    f.kind = .test ↔ isTest root p = true := by
  obtain ⟨g, -, rfl⟩ := Option.map_eq_some_iff.mp made
  cases isTest root p <;> simp

/-- A path that is made of names is that of a test file below one root just if it is below any
other: if it leads through a directory of tests or to a name of a test.  A file that is listed for
it is declared so. -/
theorem isTest_below (made : p.components = names.map .normal) (filled : names ≠ []) :
    (∀ r r', isTest r (r.join p) = isTest r' (r'.join p)) ∧
    (∀ r, isTest r (r.join p) = true ↔ LeadsToTest names) ∧
    ∀ r f, fileAt? r (r.join p) = some f → (f.kind = .test ↔ LeadsToTest names) := by
  have below := isTest_join_iff made filled
  refine ⟨fun r r' => ?_, below, fun r f listed => (kind_of_fileAt? listed).trans (below r)⟩
  exact Bool.eq_iff_iff.mpr ((below r).trans (below r').symm)

theorem isTest_below_button :
    (Path.ofString "src//Button.Test.css/").components =
      [Utf8.ofString "src", Utf8.ofString "Button.Test.css"].map .normal ∧
    isTest ⟨[]⟩ (Path.ofString "src//Button.Test.css/") = true ∧
    isTest (.ofString "/tests") ((Path.ofString "/tests").joinString "src//Button.Test.css/") =
      isTest ⟨[]⟩ (Path.ofString "src//Button.Test.css/") ∧
    ∃ f, fileAt? (.ofString "/tests")
        ((Path.ofString "/tests").joinString "src//Button.Test.css/") = some f ∧
      f.kind = .test := by
  have made : (Path.ofString "src//Button.Test.css/").components =
      [Utf8.ofString "src", Utf8.ofString "Button.Test.css"].map .normal := by decide +kernel
  obtain ⟨same, below, kinds⟩ := isTest_below made (List.cons_ne_nil _ _)
  have spelled : eqIgnoringAsciiCase "Test" "test" = true := by
    rw [eqIgnoringAsciiCase, beq_iff_eq, ← String.toList_inj, Utf8.toList_asciiLower,
      Utf8.toList_asciiLower]
    decide
  have named : IsNamedTest (Utf8.ofString "Button.Test.css") :=
    ⟨Utf8.ofString "Button", Utf8.ofString "Test", Utf8.ofString "css", by decide +kernel,
      by decide +kernel, ⟨"Test", rfl, spelled⟩, by decide +kernel⟩
  have leads : LeadsToTest [Utf8.ofString "src", Utf8.ofString "Button.Test.css"] :=
    .inr ⟨_, rfl, named⟩
  have rooted : (Path.ofString "/tests").isAbsolute = true := by decide +kernel
  obtain ⟨f, listed⟩ : ∃ f, fileAt? (.ofString "/tests")
      ((Path.ofString "/tests").joinString "src//Button.Test.css/") = some f :=
    exists_fileAt? (isAbsolute_join rooted)
  exact ⟨made, (below ⟨[]⟩).mpr leads, same (.ofString "/tests") ⟨[]⟩, f, listed,
    (kinds _ f listed).mpr leads⟩

/-- Neither a root called `tests` nor a name with `test` in another place makes a test file. -/
example : ∀ name ∈ ["contest.css", "my.tests.css", "test.css", ".test.css"],
    isTest (.ofString "/tests") ((Path.ofString "/tests").joinString name) = false := by
  decide +kernel

end Paths

end LintBridge.Project
