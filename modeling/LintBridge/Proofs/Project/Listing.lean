import LintBridge.Proofs.Analysis.Location
import LintBridge.Proofs.Path.Order
import LintBridge.Proofs.Project.Walk
import LintBridge.Proofs.Text.Lossy

/-! The style sheets of a project.  They come in the order of their paths, each once, and which they
are depends on what a walk delivers and not on the order in which it does so: `scan_ordered`.  So do
the order in which a run asks for them and the order of its issues. -/

namespace LintBridge.Project

open LintBridge.Text LintBridge.Analysis

variable {tree other : FileTree} {env : Environment} {root : Path} {suffixes : List String}

/-! ### Order -/

theorem precedes_iff {p q : Path} :
    precedes p q = true ↔ p.compare q = .lt ∨ p.components = q.components := by
  rw [precedes, bne_iff_ne, Path.compare_ne_gt]

theorem precedes_trans {p q r : Path} (h : precedes p q = true) (h' : precedes q r = true) :
    precedes p r = true := by
  rw [precedes_iff] at *
  obtain before | same := h
  · obtain before' | same' := h'
    · exact .inl (Path.compare_lt_trans before before')
    · exact .inl (Path.compare_congr rfl same' ▸ before)
  · obtain before' | same' := h'
    · exact .inl (Path.compare_congr same.symm rfl ▸ before')
    · exact .inr (same.trans same')

theorem precedes_total (p q : Path) : (precedes p q || precedes q p) = true := by
  rw [precedes, precedes, ← Path.compare_swap p q]
  cases p.compare q <;> rfl

/-- Paths that differ stand one strictly after the other once they are sorted. -/
theorem sorted_of_distinct {paths : List Path}
    (distinct : paths.Pairwise fun p q => p.components ≠ q.components) :
    (paths.mergeSort precedes).Pairwise fun p q => p.compare q = .lt := by
  have sorted : (paths.mergeSort precedes).Pairwise fun p q => precedes p q = true := by
    refine List.pairwise_mergeSort (fun p q r first next => ?_) (fun p q => ?_) paths
    · exact precedes_trans first next
    · exact precedes_total p q
  have differ : (paths.mergeSort precedes).Pairwise fun p q => p.components ≠ q.components :=
    ((List.mergeSort_perm paths precedes).pairwise_iff fun h => h.symm).mpr distinct
  exact sorted.imp₂ (fun p q le other => (precedes_iff.mp le).resolve_right other) differ

/-- What is strictly in order is so in one way only. -/
theorem eq_of_perm_of_ordered {paths paths' : List Path} (perm : paths.Perm paths')
    (ordered : paths.Pairwise fun p q => p.compare q = .lt)
    (ordered' : paths'.Pairwise fun p q => p.compare q = .lt) : paths = paths' := by
  refine List.Perm.eq_of_pairwise (fun p q _ _ below above => ?_) ordered ordered' perm
  rw [← Path.compare_swap p q, below] at above
  cases above

/-! ### Listing -/

/-- A path has one of some suffixes, whatever the case in which it is written. -/
def HasSuffix (suffixes : List String) (p : Path) : Prop :=
  ∃ extension, p.extension? = some extension ∧ asciiLower (Utf8.lossy extension) ∈ suffixes

theorem hasSuffix_iff {p : Path} :
    (suffix? p).any suffixes.contains = true ↔ HasSuffix suffixes p := by
  rw [suffix?, HasSuffix]
  cases p.extension? <;> simp

/-- A file that is listed for a path. -/
structure IsListedFor (root p : Path) (f : SourceFile) : Prop where
  language : f.language = "css"
  charset : f.charset = .utf8
  kind : f.kind = if isTest root p then .test else .main
  here : f.IsAt p

theorem isListedFor_of_fileAt? {p : Path} {f : SourceFile} (h : fileAt? root p = some f) :
    IsListedFor root p f := by
  obtain ⟨g, made, rfl⟩ := Option.map_eq_some_iff.mp h
  obtain ⟨cs, proper, read, url⟩ := SourceFile.url_of_ofPath? made
  obtain ⟨url', -, rfl⟩ := Option.map_eq_some_iff.mp made
  exact ⟨rfl, rfl, rfl, SourceFile.isAt_of_url proper read url⟩

theorem exists_fileAt? {p : Path} (absolute : p.isAbsolute = true) :
    ∃ f, fileAt? root p = some f := by
  obtain ⟨cs, -, read⟩ := Path.isAbsolute_iff.mp absolute
  exact ⟨_, by rw [fileAt?, SourceFile.ofPath?, Url.ofPath?_of_components read]; rfl⟩

/-- A file comes before another in the order of paths. -/
def Before (f g : SourceFile) : Prop :=
  ∃ p q, f.path? = some p ∧ g.path? = some q ∧ p.compare q = .lt

theorem Before.ne {f g : SourceFile} (h : Before f g) : f ≠ g := by
  rintro rfl
  obtain ⟨p, q, here, here', before⟩ := h
  obtain rfl := Option.some.inj (here.symm.trans here')
  cases before.symm.trans (Path.compare_self p)

theorem pairwise_listing {paths : List Path}
    (distinct : paths.Pairwise fun p q => p.components ≠ q.components) :
    (listing root suffixes paths).Pairwise Before := by
  rw [listing, List.pairwise_filterMap]
  refine (sorted_of_distinct (distinct.filter _)).imp ?_
  intro p q before f listed g listed'
  obtain ⟨p', here, same⟩ := (isListedFor_of_fileAt? listed).here
  obtain ⟨q', here', same'⟩ := (isListedFor_of_fileAt? listed').here
  exact ⟨p', q', here, here', Path.compare_congr same same' ▸ before⟩

theorem mem_listing {paths : List Path} {f : SourceFile} : f ∈ listing root suffixes paths ↔
    ∃ p ∈ paths, HasSuffix suffixes p ∧ fileAt? root p = some f := by
  simp only [listing, List.mem_filterMap, List.mem_mergeSort, List.mem_filter, hasSuffix_iff,
    and_assoc]

/-! ### What is delivered -/

/-- A name is that of a directory in which nothing is looked for. -/
def NamesSkipped (n : Name) : Prop :=
  n = Utf8.ofString ".git" ∨ n = Utf8.ofString "node_modules" ∨ n = Utf8.ofString "target"

theorem isSkipped_iff {n : Name} : isSkipped n = true ↔ NamesSkipped n := by
  simp only [isSkipped, skippedNames, List.contains_iff_mem, List.mem_cons, List.not_mem_nil,
    or_false, NamesSkipped]
  refine or_congr ?_ (or_congr ?_ ?_) <;> exact Utf8.lossy_eq_iff (by decide)

theorem mem_filePaths {walked : List Walked} {p : Path} : p ∈ filePaths root walked ↔
    ∃ w ∈ walked, w.isFile = true ∧ (∀ n ∈ w.names, ¬ NamesSkipped n) ∧ w.path root = p := by
  simp only [filePaths, List.mem_map, List.mem_filter, Bool.and_eq_true, Bool.not_eq_true',
    List.any_eq_false, isSkipped_iff, and_assoc]

theorem scan_perm (absolute : root.isAbsolute = true) {walked walked' : List Walked}
    (delivery : IsDelivery walked) (perm : walked'.Perm walked) (suffixes : List String) :
    scan root suffixes walked' = scan root suffixes walked := by
  have distinct := delivery.distinct_filePaths absolute
  have distinct' := (delivery.perm perm).distinct_filePaths absolute
  have paths : (filePaths root walked').Perm (filePaths root walked) := (perm.filter _).map _
  have chosen := paths.filter fun p => (suffix? p).any suffixes.contains
  rw [scan, scan, listing, listing, eq_of_perm_of_ordered
    ((List.mergeSort_perm _ _).trans (chosen.trans (List.mergeSort_perm _ _).symm))
    (sorted_of_distinct (distinct'.filter _)) (sorted_of_distinct (distinct.filter _))]

/-! ### Runs -/

section Run

variable {σ : Type} {s : Surroundings σ}

theorem map_snd_localFiles (files : List SourceFile) :
    (localFiles files).map Prod.snd = files.filterMap SourceFile.path? := by
  rw [localFiles, List.map_filterMap]
  refine List.filterMap_congr fun file _ => ?_
  cases file.path? <;> rfl

theorem pairwise_localFiles {files : List SourceFile} (ordered : files.Pairwise Before) :
    (localFiles files).Pairwise fun a b => Before a.1 b.1 ∧ a.2.compare b.2 = .lt := by
  rw [localFiles, List.pairwise_filterMap]
  refine ordered.imp ?_
  rintro f g ⟨p, q, here, here', before⟩ a located b located'
  rw [here] at located
  rw [here'] at located'
  obtain rfl := Option.some.inj located
  obtain rfl := Option.some.inj located'
  exact ⟨⟨p, q, here, here', before⟩, before⟩

/-- A run over files in order asks for the first ones among them in that order, and its issues are
in it. -/
structure IsInOrder (files : List SourceFile) (r : Run σ) : Prop where
  asked : r.requests.map (·.file) <+: (files.filter isEligible).filterMap SourceFile.path?
  requests : (r.requests.map (·.file)).Pairwise fun p q => p.compare q = .lt
  issues : r.issues.Pairwise fun i j => i.file = j.file ∨ Before i.file j.file
  listed : ∀ issue ∈ r.issues, issue.file ∈ files.filter isEligible

theorem inOrder_execute {files : List SourceFile} (ordered : files.Pairwise Before) {world : σ}
    (listed : (s.files world).1 = files) (rules : RuleSet) (options : Options)
    (warnings : WarningList) : IsInOrder files (execute s rules options warnings world).2 := by
  have places := pairwise_localFiles (ordered.filter isEligible)
  obtain ⟨asked, requests, within, -⟩ := asked_execute s rules options warnings world
  obtain ⟨done, -, analyzed, issues, -⟩ := accounts_execute s rules options warnings world
  rw [listed] at within analyzed
  have fileOf : ∀ a : Analyzed, ∀ issue ∈ a.issues rules, issue.file = a.file := by
    rintro ⟨file, path, outcome⟩ issue member
    cases outcome with
    | parseFailure line message => cases member
    | diagnostics items =>
      obtain ⟨d, -, made⟩ := List.mem_filterMap.mp member
      obtain ⟨key, -, rfl⟩ := Option.map_eq_some_iff.mp made
      rfl
  refine ⟨?_, ?_, ?_, ?_⟩
  · rw [requests, ← map_snd_localFiles]
    exact within.map Prod.snd
  · rw [requests, List.pairwise_map]
    exact (places.sublist within.sublist).imp fun h => h.2
  · rw [issues, List.pairwise_flatMap]
    refine ⟨fun a _ => List.pairwise_of_forall_mem_list fun i first j last => ?_, ?_⟩
    · exact .inl ((fileOf a i first).trans (fileOf a j last).symm)
    · refine (List.pairwise_map.mp (places.sublist analyzed.sublist)).imp ?_
      intro a b before i first j last
      rw [fileOf a i first, fileOf b j last]
      exact .inr before.1
  · intro issue member
    rw [issues] at member
    obtain ⟨a, within, of⟩ := List.mem_flatMap.mp member
    obtain ⟨file, eligible, located⟩ := List.mem_filterMap.mp
      (analyzed.subset (List.mem_map_of_mem within))
    obtain ⟨path, -, place⟩ := Option.map_eq_some_iff.mp located
    rw [fileOf a issue of, ← show file = a.file from congrArg Prod.fst place]
    exact eligible

end Run

/-! ### The whole project -/

/-- The style sheets of a project are listed in the order of their paths, each once: of what a walk
delivers those regular files which have one of the suffixes and no name below the root that is to be
skipped.  It makes no difference in which order they are delivered, and so a run asks for the same
files, and has its issues, in the same order.  A walk through a tree of files delivers each thing
once, and the order in which the tree keeps its entries makes no difference either. -/
theorem scan_ordered (root : Path) (absolute : root.isAbsolute = true) (suffixes : List String)
    (walked : List Walked) (delivery : IsDelivery walked) :
    let files := scan root suffixes walked
    (∀ walked', walked'.Perm walked → scan root suffixes walked' = files) ∧
    files.Pairwise Before ∧ files.Nodup ∧
    (∀ f, f ∈ files ↔ ∃ w ∈ walked, w.isFile = true ∧ (∀ n ∈ w.names, ¬ NamesSkipped n) ∧
      HasSuffix suffixes (w.path root) ∧ fileAt? root (w.path root) = some f) ∧
    (∀ w ∈ walked, (w.path root).components = root.components ++ w.names.map .normal ∧
      ∃ f, fileAt? root (w.path root) = some f ∧ IsListedFor root (w.path root) f) ∧
    (∀ walked', walked'.Perm walked →
      ∀ (σ : Type) (s : Surroundings σ) rules options warnings world,
        (s.files world).1 = scan root suffixes walked' →
        IsInOrder files (execute s rules options warnings world).2) ∧
    ∀ tree : FileTree, tree.IsSound → ∀ env, IsDelivery (walk tree env root) ∧
      ∀ other, tree.Reorders other →
        scanTree other env root suffixes = scanTree tree env root suffixes := by
  intro files
  have same : ∀ walked', walked'.Perm walked → scan root suffixes walked' = files :=
    fun walked' perm => scan_perm absolute delivery perm suffixes
  have ordered : files.Pairwise Before := pairwise_listing (delivery.distinct_filePaths absolute)
  refine ⟨same, ordered, ordered.imp Before.ne, fun f => ?listed, ?paths, ?run, ?walk⟩
  case listed =>
    simp only [files, scan, mem_listing, mem_filePaths]
    constructor
    · rintro ⟨_, ⟨w, member, file, unskipped, rfl⟩, chosen⟩
      exact ⟨w, member, file, unskipped, chosen⟩
    · rintro ⟨w, member, file, unskipped, chosen⟩
      exact ⟨_, ⟨w, member, file, unskipped, rfl⟩, chosen⟩
  case paths =>
    intro w member
    obtain ⟨f, made⟩ : ∃ f, fileAt? root (w.path root) = some f :=
      exists_fileAt? (isAbsolute_pathBelow absolute w.names)
    exact ⟨components_pathBelow absolute (delivery.named w member), f, made,
      isListedFor_of_fileAt? made⟩
  case run =>
    intro walked' perm σ s rules options warnings world listed
    exact inOrder_execute ordered (listed.trans (same walked' perm)) rules options warnings
  case walk =>
    intro tree sound env
    refine ⟨isDelivery_walk sound, fun other h => ?_⟩
    exact scan_perm absolute (isDelivery_walk sound) (walk_perm sound h env root) suffixes

/-- A project with `a-b.css` beside a directory `a` with `x.css`: as texts the paths stand in one
order, and by their components in the other. -/
def sheetTree : FileTree where
  entries := [([[112]], .dir), ([[112], [97, 45, 98, 46, 99, 115, 115]], .file [] false),
    ([[112], [97]], .dir), ([[112], [97], [120, 46, 99, 115, 115]], .file [] false)]

theorem isSound_sheetTree : sheetTree.IsSound where
  distinct := by decide
  named := by
    have proper : ∀ entry ∈ sheetTree.entries, ∀ n ∈ entry.1,
        Path.slash ∉ (Path.Component.normal n).bytes ∧
          Path.Component.ofName? (Path.Component.normal n).bytes = some (.normal n) := by decide
    intro place e member n inside
    obtain ⟨whole, named⟩ := proper (place, e) member n inside
    exact ⟨whole, named⟩

/-- What a walk delivers there, and a file in a directory that is to be skipped. -/
def sheetsWalked : List Walked :=
  [⟨[], false⟩, ⟨[[97]], false⟩, ⟨[[97], [120, 46, 99, 115, 115]], true⟩,
    ⟨[[97, 45, 98, 46, 99, 115, 115]], true⟩,
    ⟨[Utf8.ofString "target", [120, 46, 99, 115, 115]], true⟩]

theorem isDelivery_sheetsWalked : IsDelivery sheetsWalked where
  distinct := by decide
  named := by
    have proper : ∀ w ∈ sheetsWalked, ∀ n ∈ w.names,
        Path.slash ∉ (Path.Component.normal n).bytes ∧
          Path.Component.ofName? (Path.Component.normal n).bytes = some (.normal n) := by
      decide +kernel
    intro w member n inside
    obtain ⟨whole, named⟩ := proper w member n inside
    exact ⟨whole, named⟩

/-- The file in the directory comes first, whichever way it is delivered. -/
theorem scan_ordered_sheets :
    (Path.mk [47, 112]).isAbsolute = true ∧ IsDelivery sheetsWalked ∧
      scan ⟨[47, 112]⟩ ["css"] sheetsWalked.reverse = scan ⟨[47, 112]⟩ ["css"] sheetsWalked ∧
      (scan ⟨[47, 112]⟩ ["css"] sheetsWalked).map SourceFile.path? =
        [some (.ofString "/p/a/x.css"), some (.ofString "/p/a-b.css")] ∧
      (scan ⟨[47, 112]⟩ ["css"] sheetsWalked).Pairwise Before ∧
      sheetTree.IsSound ∧ IsDelivery (walk sheetTree {} ⟨[47, 112]⟩) ∧
      scanTree { sheetTree with entries := sheetTree.entries.reverse } {} ⟨[47, 112]⟩ ["css"] =
        scanTree sheetTree {} ⟨[47, 112]⟩ ["css"] := by
  have absolute : (Path.mk [47, 112]).isAbsolute = true := rfl
  obtain ⟨same, ordered, -, -, -, -, trees⟩ :=
    scan_ordered ⟨[47, 112]⟩ absolute ["css"] sheetsWalked isDelivery_sheetsWalked
  obtain ⟨delivery, reordered⟩ := trees sheetTree isSound_sheetTree {}
  have paths : (scan ⟨[47, 112]⟩ ["css"] sheetsWalked).map SourceFile.path? =
      [some (.ofString "/p/a/x.css"), some (.ofString "/p/a-b.css")] := by
    rw [scan, listing, List.mergeSort_of_pairwise (by decide +kernel)]
    decide +kernel
  exact ⟨absolute, isDelivery_sheetsWalked, same _ (List.reverse_perm _), paths, ordered,
    isSound_sheetTree, delivery, reordered _ ⟨rfl, List.reverse_perm _⟩⟩

end LintBridge.Project
