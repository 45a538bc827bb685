import LintBridge.Proofs.Path.Extension
import LintBridge.Proofs.Project.Listing
import LintBridge.Proofs.Settings.Validity
import LintBridge.Proofs.Text.Lossy

/-! Which files the suffixes of accepted settings choose.  A suffix without a dot chooses the files
whose names end in it after a dot.  A suffix with a dot in it is accepted too, but it is compared
with what follows the last dot of a name, and so it chooses none: `scan_by_suffix`, `suffix_dead`.
-/

namespace LintBridge.Project

open LintBridge.Path LintBridge.Text

variable {suffixes : List String} {p : Path}

/-- A name ends in a dot and a suffix, in whatever case, with something before the dot. -/
def EndsIn (suffix : String) (n : Name) : Prop :=
  ∃ front back, n = front ++ dot :: back ∧ front ≠ [] ∧
    eqIgnoringAsciiCase (Utf8.lossy back) suffix = true

/-- A suffix of a single part: there is no dot in it. -/
def IsSingle (suffix : String) : Prop := '.' ∉ suffix.toList

instance (suffix : String) : Decidable (IsSingle suffix) :=
  inferInstanceAs (Decidable ('.' ∉ suffix.toList))

/-! ### Dots -/

theorem dot_mem_asciiLower {t : String} : '.' ∈ (asciiLower t).toList ↔ '.' ∈ t.toList := by
  rw [Utf8.toList_asciiLower, List.mem_map]
  constructor
  · rintro ⟨c, member, lowered⟩
    exact Settings.eq_of_toLower_eq_dot lowered ▸ member
  · exact fun member => ⟨'.', member, rfl⟩

/-- What is read as a suffix has a dot just where the suffix has one. -/
theorem isSingle_iff {suffix : String} {back : Name}
    (same : eqIgnoringAsciiCase (Utf8.lossy back) suffix = true) :
    IsSingle suffix ↔ dot ∉ back := by
  have read : '.' ∈ (Utf8.lossy back).toList ↔ dot ∈ back := Utf8.mem_lossy_iff (by decide)
  rw [IsSingle, ← dot_mem_asciiLower, ← beq_iff_eq.mp same, dot_mem_asciiLower, read]

/-! ### Suffixes of settings -/

theorem asciiLower_of_isSuffix {s : String} (h : IsSuffix s) : asciiLower s = s := by
  rw [← String.toList_inj, Utf8.toList_asciiLower]
  refine (List.map_congr_left fun c member => ?_).trans (List.map_id _)
  exact dif_neg (of_decide_eq_false (h.lower c member))

theorem hasSuffix_iff_endsIn (lower : ∀ s ∈ suffixes, asciiLower s = s) :
    HasSuffix suffixes p ↔
      ∃ n, p.fileName? = some n ∧ ∃ s ∈ suffixes, IsSingle s ∧ EndsIn s n := by
  constructor
  · rintro ⟨back, found, member⟩
    obtain ⟨front, named, filled, last⟩ := extension?_eq_some.mp found
    have same : eqIgnoringAsciiCase (Utf8.lossy back) (asciiLower (Utf8.lossy back)) = true := by
      rw [eqIgnoringAsciiCase, lower _ member, beq_self_eq_true]
    exact ⟨_, named, _, member, (isSingle_iff same).mpr last, front, back, rfl, filled, same⟩
  · rintro ⟨n, named, s, member, single, front, back, rfl, filled, same⟩
    refine ⟨back, extension?_eq_some.mpr ⟨front, named, filled, (isSingle_iff same).mp single⟩, ?_⟩
    rw [beq_iff_eq.mp same, lower s member]
    exact member

theorem isSuffix_of_accepted {given : Option (List String)}
    (accepted : Settings.checkSuffixes given = .ok suffixes) : ∀ s ∈ suffixes, IsSuffix s := by
  have judged := Settings.judged_checkSuffixes given
  rw [accepted] at judged
  cases judged with
  | ok good _ => exact good.2

/-! ### Listed files -/

theorem HasSuffix.congr {q : Path} (same : q.components = p.components) :
    HasSuffix suffixes q ↔ HasSuffix suffixes p := by
  simp only [HasSuffix, extension?, fileName?, same]

/-- A file is listed just if its path is absolute and has one of the suffixes. -/
theorem listed_iff {root : Path} {paths : List Path} (walked : p ∈ paths) :
    (∃ f ∈ listing root suffixes paths, f.IsAt p) ↔
      p.isAbsolute = true ∧ HasSuffix suffixes p := by
  constructor
  · rintro ⟨f, listed, q, here, same⟩
    obtain ⟨walked', -, chosen, made⟩ := mem_listing.mp listed
    obtain ⟨_, here', same'⟩ := (isListedFor_of_fileAt? made).here
    obtain rfl := Option.some.inj (here.symm.trans here')
    obtain ⟨_, given, -⟩ := Option.map_eq_some_iff.mp made
    obtain ⟨cs, proper, rooted, -⟩ := SourceFile.url_of_ofPath? given
    have read : p.components = walked'.components := same.symm.trans same'
    exact ⟨isAbsolute_of_components (read.trans rooted), (HasSuffix.congr read).mpr chosen⟩
  · rintro ⟨absolute, chosen⟩
    obtain ⟨f, made⟩ : ∃ f, fileAt? root p = some f := exists_fileAt? absolute
    exact ⟨f, mem_listing.mpr ⟨p, walked, chosen, made⟩, (isListedFor_of_fileAt? made).here⟩

/-- Of accepted suffixes those with a dot in them might as well not be there. -/
theorem listing_single (lower : ∀ s ∈ suffixes, asciiLower s = s) (root : Path)
    (paths : List Path) :
    listing root (suffixes.filter fun s => IsSingle s) paths = listing root suffixes paths := by
  have lower' : ∀ s ∈ suffixes.filter fun s => IsSingle s, asciiLower s = s := fun s member =>
    lower s (List.mem_of_mem_filter member)
  have same : ∀ p, HasSuffix (suffixes.filter fun s => IsSingle s) p ↔ HasSuffix suffixes p := by
    intro p
    rw [hasSuffix_iff_endsIn lower', hasSuffix_iff_endsIn lower]
    simp [List.mem_filter, and_assoc]
  have chosen : (fun p => (suffix? p).any (suffixes.filter fun s => IsSingle s).contains) =
      fun p => (suffix? p).any suffixes.contains := by
    funext p
    exact Bool.eq_iff_iff.mpr (by rw [hasSuffix_iff, hasSuffix_iff, same p])
  rw [listing, listing, chosen]

/-- Of the regular files that a walk delivers, but for those in directories to be skipped, the ones
under an absolute path are listed whose names end, in whatever case, in a dot and one of the
accepted suffixes in which there is no dot.  The other suffixes, which have one, are accepted and
choose nothing. -/
theorem scan_by_suffix {given : Option (List String)}
    (accepted : Settings.checkSuffixes given = .ok suffixes) (root : Path) (walked : List Walked) :
    (∀ p ∈ filePaths root walked, (∃ f ∈ scan root suffixes walked, f.IsAt p) ↔
      p.isAbsolute = true ∧
        ∃ n, p.fileName? = some n ∧ ∃ s ∈ suffixes, IsSingle s ∧ EndsIn s n) ∧
    scan root (suffixes.filter fun s => IsSingle s) walked = scan root suffixes walked := by
  have lower : ∀ s ∈ suffixes, asciiLower s = s := fun s member =>
    asciiLower_of_isSuffix (isSuffix_of_accepted accepted s member)
  refine ⟨fun p walked => ?_, listing_single lower root _⟩
  rw [scan, listed_iff walked, hasSuffix_iff_endsIn lower]

/-- A directory with a style sheet whose name ends in `.module.css`. -/
def moduleTree : FileTree where
  entries := [([[112]], .dir), ([[112], Utf8.ofString "card.module.css"], .file [] false)]

theorem scan_by_suffix_module :
    Settings.checkSuffixes (some [" .CSS", "module.css"]) = .ok ["css", "module.css"] ∧
    Path.ofString "/p/card.module.css" ∈ filePaths ⟨[47, 112]⟩ (walk moduleTree {} ⟨[47, 112]⟩) ∧
    (∃ f ∈ scanTree moduleTree {} ⟨[47, 112]⟩ ["css", "module.css"],
      f.IsAt (.ofString "/p/card.module.css")) ∧
    scanTree moduleTree {} ⟨[47, 112]⟩ ["css"] =
      scanTree moduleTree {} ⟨[47, 112]⟩ ["css", "module.css"] := by
  have accepted : Settings.checkSuffixes (some [" .CSS", "module.css"]) =
      .ok ["css", "module.css"] := by decide +kernel
  have walked : filePaths ⟨[47, 112]⟩ (walk moduleTree {} ⟨[47, 112]⟩) =
      [.ofString "/p/card.module.css"] := by decide +kernel
  have member := walked ▸ List.mem_singleton_self (Path.ofString "/p/card.module.css")
  have single : ["css", "module.css"].filter (fun s => decide (IsSingle s)) = ["css"] := by
    decide +kernel
  obtain ⟨chosen, ignored⟩ := scan_by_suffix accepted ⟨[47, 112]⟩ (walk moduleTree {} ⟨[47, 112]⟩)
  have ends : EndsIn "css" (Utf8.ofString "card.module.css") :=
    ⟨Utf8.ofString "card.module", Utf8.ofString "css", by decide +kernel, by decide +kernel,
      by decide +kernel⟩
  have named : (Path.ofString "/p/card.module.css").fileName? =
      some (Utf8.ofString "card.module.css") := by decide +kernel
  refine ⟨accepted, member, (chosen _ member).mpr ⟨by decide +kernel, ?_⟩, single ▸ ignored⟩
  exact ⟨_, named, "css", List.mem_cons_self, by decide +kernel, ends⟩

/-- The suffix `module.css` is accepted, a file named with it is come to, and nothing is listed. -/
theorem suffix_dead :
    Settings.checkSuffixes (some ["module.css"]) = .ok ["module.css"] ∧
    filePaths ⟨[47, 112]⟩ (walk moduleTree {} ⟨[47, 112]⟩) = [.ofString "/p/card.module.css"] ∧
    EndsIn "module.css" (Utf8.ofString "card.module.css") ∧
    scanTree moduleTree {} ⟨[47, 112]⟩ ["module.css"] = [] := by
  refine ⟨by decide +kernel, by decide +kernel, ?_, by decide +kernel⟩
  exact ⟨Utf8.ofString "card", Utf8.ofString "module.css", by decide +kernel, by decide +kernel,
    by decide +kernel⟩

end LintBridge.Project
