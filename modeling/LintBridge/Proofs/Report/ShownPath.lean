import LintBridge.Proofs.Path.Below
import LintBridge.Report.Writer

/-! The path under which a report shows a file.  A file below the root is shown by what is left of
its path, but a backslash, which a name can have like any other octet, is shown as a slash.  So what
is shown leads from the root to the file just if no name below the root has a backslash,
`shownPath_leads`, and a file with one can be shown as another file is, `shownPath_confused`. -/

namespace LintBridge.Report

open LintBridge.Path LintBridge.Text

/-! ### Backslashes -/

def backslash : UInt8 := 92

/-- The octet that is shown for an octet of a path. -/
def shownOctet (b : UInt8) : UInt8 := if b = backslash then slash else b

def shownChar (c : Char) : Char := if c == '\\' then '/' else c

theorem backslash_not_mem_shown (s : List UInt8) : backslash ∉ s.map shownOctet := by
  intro inside
  obtain ⟨b, -, shown⟩ := List.mem_map.mp inside
  unfold shownOctet at shown
  split at shown
  next => cases shown
  next other => exact other shown

theorem map_shownOctet {s : List UInt8} (h : backslash ∉ s) : s.map shownOctet = s := by
  have same : ∀ b ∈ s, shownOctet b = id b := fun b member =>
    if_neg fun (marked : b = backslash) => h (marked ▸ member)
  rw [List.map_congr_left same, List.map_id]

theorem map_shownChar_eq_self {t : String} : t.map shownChar = t ↔ '\\' ∉ t.toList := by
  rw [← String.toList_inj, String.toList_map]
  generalize t.toList = chars
  induction chars with
  | nil => simp
  | cons c chars ih =>
    by_cases same : c = '\\'
    · subst same
      simp [shownChar]
    · simp [shownChar, same, Ne.symm same, ih]

theorem utf8EncodeChar_shownChar (c : Char) :
    String.utf8EncodeChar (shownChar c) = (String.utf8EncodeChar c).map shownOctet := by
  by_cases inside : backslash ∈ String.utf8EncodeChar c
  · obtain ⟨alone, rfl⟩ := Utf8.eq_of_mem_utf8EncodeChar inside (by decide)
    decide
  · have other : ¬ (c == '\\') = true := by
      intro same
      obtain rfl := beq_iff_eq.mp same
      exact inside (by decide)
    rw [shownChar, if_neg other, map_shownOctet inside]

/-- A text is shown with other characters just where its octets are shown as other ones. -/
theorem encode_shown (t : List Char) :
    Utf8.encode (t.map shownChar) = (Utf8.encode t).map shownOctet := by
  induction t with
  | nil => rfl
  | cons c t ih =>
    rw [List.map_cons, Utf8.encode_cons, Utf8.encode_cons, List.map_append, ih,
      utf8EncodeChar_shownChar]

/-! ### What is shown -/

/-- A local file below a root; its path is a text. -/
structure IsBelow (root : Path) (file : SourceFile) (p : Path) : Prop where
  path : file.path? = some p
  text : ∃ t, p.toString? = some t
  below : root.components <+: p.components

/-- No name of a path has a backslash after the names of the root. -/
def IsPlainBelow (root p : Path) : Prop :=
  ∀ c ∈ p.components.drop root.components.length, backslash ∉ c.bytes

section

variable {root p rest : Path} {file : SourceFile}

theorem isAbsolute_of_path? (h : file.path? = some p) : p.isAbsolute = true := by
  simp only [SourceFile.path?, Url.toPath?] at h
  split at h
  next =>
    obtain ⟨segments, cut, rfl⟩ := Option.map_eq_some_iff.mp h
    have filled : segments ≠ [] := by
      unfold Url.segments? at cut
      split at cut
      next => exact Option.some.inj cut ▸ splitWhere_ne_nil _
      next => cases cut
    obtain ⟨s, more, rfl⟩ := List.exists_cons_of_ne_nil filled
    unfold Url.bytesOfSegments
    dsimp only
    split <;> rfl
  next => cases h

/-- A text that is shown is shown octet by octet. -/
theorem ofString_shownPath (here : file.path? = some p) (left : (root.below? p).getD p = rest)
    (text : Utf8.IsText rest.bytes) :
    Path.ofString (shownPath root file) = ⟨rest.bytes.map shownOctet⟩ := by
  obtain ⟨t, read⟩ := Utf8.isText_iff.mp text
  have display : rest.display = t := Utf8.lossy_of_strict? read
  have shown : shownPath root file = t.map shownChar := by
    simp only [shownPath, here, left, display]
    rfl
  rw [Path.ofString, shown, Utf8.ofString, String.toList_map, encode_shown,
    Utf8.strict?_eq_some.mp read]
  rfl

theorem IsBelow.exists_left (below : IsBelow root file p) :
    ∃ rest, IsLeft root p rest ∧
      Path.ofString (shownPath root file) = ⟨rest.bytes.map shownOctet⟩ := by
  have found := (isSome_below? (isAbsolute_of_path? below.path)).mpr below.below
  obtain ⟨rest, left⟩ := Option.isSome_iff_exists.mp found
  have text := isText_below? left (Utf8.isText_iff.mpr below.text)
  refine ⟨rest, isLeft_of_below? left, ofString_shownPath below.path ?_ text⟩
  rw [left, Option.getD_some]

theorem isAbsolute_map_shown (h : rest.isAbsolute = true) :
    (Path.mk (rest.bytes.map shownOctet)).isAbsolute = true := by
  obtain ⟨_ | ⟨b, s⟩⟩ := rest
  · cases h
  · obtain rfl : b = slash := by simpa [isAbsolute] using h
    rfl

/-- A path that is shown as it is leads back, and one that leads back has no backslash below the
root. -/
theorem leads_iff (left : IsLeft root p rest) :
    (root.join ⟨rest.bytes.map shownOctet⟩).components = p.components ↔ IsPlainBelow root p := by
  have octets : ∀ q : Path, (∃ c ∈ q.components, backslash ∈ c.bytes) ↔ backslash ∈ q.bytes :=
    fun q => exists_mem_components (by decide) (by decide)
  have unshown := backslash_not_mem_shown rest.bytes
  rw [IsPlainBelow, left.components, List.drop_left]
  constructor
  · intro leads c member inside
    cases absolute : (Path.mk (rest.bytes.map shownOctet)).isAbsolute with
    | true =>
      -- what is shown is taken for a path of its own, and all names of the file are in it
      rw [join_of_isAbsolute absolute] at leads
      refine unshown ((octets _).mp ⟨c, ?_, inside⟩)
      rw [leads]
      exact List.mem_append_right _ member
    | false =>
      have relative : rest.isAbsolute = false := by
        cases other : rest.isAbsolute with
        | false => rfl
        | true => exact absurd (isAbsolute_map_shown other) (by simp [absolute])
      obtain ⟨rooted, -⟩ := left.rooted relative
      rw [components_join rooted absolute, List.append_cancel_left_eq] at leads
      exact unshown ((exists_mem_properOf (by decide) (by decide)).mp ⟨c, leads ▸ member, inside⟩)
  · intro plain
    have kept : backslash ∉ rest.bytes := fun inside => by
      obtain ⟨c, member, within⟩ := (octets rest).mpr inside
      exact plain c member within
    rw [map_shownOctet kept, left.join, left.components]

end

/-- What is shown of a file below the root leads from the root to the file just if no name on the
way has a backslash, so two such files are shown differently.  Of a file elsewhere the whole path is
shown, with slashes for backslashes, and of a file that is not local the URL. -/
theorem shownPath_leads (root : Path) :
    (∀ file p, IsBelow root file p →
      ((root.join (.ofString (shownPath root file))).components = p.components ↔
        IsPlainBelow root p)) ∧
    (∀ f g p q, IsBelow root f p → IsBelow root g q → IsPlainBelow root p → IsPlainBelow root q →
      shownPath root f = shownPath root g → p.components = q.components) ∧
    (∀ file p t, file.path? = some p → p.toString? = some t → ¬ root.components <+: p.components →
      shownPath root file = t.map shownChar ∧ (shownPath root file = t ↔ '\\' ∉ t.toList)) ∧
    ∀ file, file.path? = none → shownPath root file = file.url.text := by
  have leads : ∀ file p, IsBelow root file p →
      ((root.join (.ofString (shownPath root file))).components = p.components ↔
        IsPlainBelow root p) := by
    intro file p below
    obtain ⟨rest, left, shown⟩ := below.exists_left
    rw [shown]
    exact leads_iff left
  refine ⟨leads, ?_, ?_, ?_⟩
  · intro f g p q below below' plain plain' same
    rw [← (leads f p below).mpr plain, ← (leads g q below').mpr plain', same]
  · intro file p t here text outside
    have unfound : root.below? p = none := by
      rw [← Option.not_isSome_iff_eq_none, isSome_below? (isAbsolute_of_path? here)]
      exact outside
    have display : p.display = t := Utf8.lossy_of_strict? text
    have shown : shownPath root file = t.map shownChar := by
      simp only [shownPath, here, unfound, Option.getD_none, display]
      rfl
    rw [shown]
    exact ⟨rfl, map_shownChar_eq_self⟩
  · intro file elsewhere
    simp only [shownPath, elsewhere]
    rfl

/-- A file in a directory, and one whose name has a backslash where the path of the other has a
slash. -/
def nestedSheet : SourceFile := ⟨⟨"file", some {}, "/w/a/b.css", none, none⟩, "css", .main, .utf8⟩

def slantedSheet : SourceFile :=
  ⟨⟨"file", some {}, "/w/a%5Cb.css", none, none⟩, "css", .main, .utf8⟩

theorem isBelow_nestedSheet : IsBelow (.ofString "/w") nestedSheet (.ofString "/w/a/b.css") where
  path := by decide +kernel
  text := ⟨"/w/a/b.css", by decide +kernel⟩
  below := by decide +kernel

theorem isBelow_slantedSheet :
    IsBelow (.ofString "/w") slantedSheet (.ofString "/w/a\\b.css") where
  path := by decide +kernel
  text := ⟨"/w/a\\b.css", by decide +kernel⟩
  below := by decide +kernel

theorem shownPath_leads_nested :
    IsBelow (.ofString "/w") nestedSheet (.ofString "/w/a/b.css") ∧
    IsPlainBelow (.ofString "/w") (.ofString "/w/a/b.css") ∧
    ((Path.ofString "/w").join (.ofString (shownPath (.ofString "/w") nestedSheet))).components =
      (Path.ofString "/w/a/b.css").components := by
  have plain : IsPlainBelow (.ofString "/w") (.ofString "/w/a/b.css") := by
    unfold IsPlainBelow
    decide +kernel
  exact ⟨isBelow_nestedSheet, plain,
    ((shownPath_leads (.ofString "/w")).1 _ _ isBelow_nestedSheet).mpr plain⟩

/-- Two files below the root that are shown by one path. -/
theorem shownPath_confused :
    SourceFile.ofPath? (.ofString "/w/a/b.css") "css" = some nestedSheet ∧
    SourceFile.ofPath? (.ofString "/w/a\\b.css") "css" = some slantedSheet ∧
    IsBelow (.ofString "/w") nestedSheet (.ofString "/w/a/b.css") ∧
    IsBelow (.ofString "/w") slantedSheet (.ofString "/w/a\\b.css") ∧
    (Path.ofString "/w/a/b.css").components ≠ (Path.ofString "/w/a\\b.css").components ∧
    shownPath (.ofString "/w") nestedSheet = "a/b.css" ∧
    shownPath (.ofString "/w") slantedSheet = "a/b.css" ∧
    ((Path.ofString "/w").join (.ofString (shownPath (.ofString "/w") slantedSheet))).components ≠
      (Path.ofString "/w/a\\b.css").components := by
  have shown : shownPath (.ofString "/w") slantedSheet = "a/b.css" := by decide +kernel
  refine ⟨by decide +kernel, by decide +kernel, isBelow_nestedSheet, isBelow_slantedSheet,
    by decide +kernel, by decide +kernel, shown, ?_⟩
  rw [shown]
  decide +kernel

end LintBridge.Report
