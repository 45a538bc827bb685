import LintBridge.FileTree.Write
import LintBridge.Proofs.FileTree.Walk
import LintBridge.Proofs.Path.Components

/-! What the replacement of a file leaves, and what a reader sees while it goes on.  First the
missing directories are made, and no more than that changes (`Makes`); then a staging file comes and
goes (`Goes`).  All these trees keep the ways of the first one, so that the target shows what it
showed before, until the file takes its place as a whole: `replace_accounts`. -/

namespace LintBridge.FileTree

open LintBridge.Path

variable {c : Conditions} {refusals : Refusals} {t s u made : FileTree} {p target : Path}
  {ways above : List Path} {dir place staging q : Place} {bytes : List UInt8} {w : Steps Unit}

/-! ### Missing directories -/

/-- A directory that was missing, and to which one of some paths leads. -/
structure IsNewDir (ways : List Path) (t s : FileTree) (place : Place) : Prop where
  missing : t.entry? place = none
  there : s.entry? place = some .dir
  wanted : ∃ p ∈ ways, s.locate p true = .ok place

theorem IsNewDir.keep (new : IsNewDir ways t s place) (keeps : KeepsWays s u) :
    IsNewDir ways t u place := by
  obtain ⟨missing, there, p, wanted, leads⟩ := new
  exact ⟨missing, keeps.kept there nofun, p, wanted, keeps.locate_some leads there⟩

/-- Nothing has changed but that directories have been made that were missing. -/
structure Makes (ways : List Path) (t s : FileTree) : Prop where
  workingDir : s.workingDir = t.workingDir
  entry : ∀ place, s.entry? place = t.entry? place ∨ IsNewDir ways t s place

namespace Makes

theorem refl (ways : List Path) (t : FileTree) : Makes ways t t := ⟨rfl, fun _ => .inl rfl⟩

theorem keepsWays (h : Makes ways t s) : KeepsWays t s :=
  ⟨h.workingDir, fun place => (h.entry place).imp_right fun new =>
    ⟨.inl new.missing, fun _ link => by cases new.there.symm.trans link⟩⟩

theorem trans (first : Makes ways t s) (second : Makes ways s u) : Makes ways t u := by
  refine ⟨second.workingDir.trans first.workingDir, fun place => ?_⟩
  obtain same | new := first.entry place
  · obtain same' | ⟨missing, there, wanted⟩ := second.entry place
    · exact .inl (same'.trans same)
    · exact .inr ⟨same ▸ missing, there, wanted⟩
  · exact .inr (new.keep second.keepsWays)

theorem mono (h : Makes above t s) (more : above ⊆ ways) : Makes ways t s :=
  ⟨h.workingDir, fun place => (h.entry place).imp_right fun new =>
    ⟨new.missing, new.there, new.wanted.imp fun _ wanted => wanted.imp_left (more ·)⟩⟩

end Makes

theorem makeDir_ok (h : t.makeDir refusals p = .ok s) :
    ∃ place, t.locate p false = .ok place ∧ t.entry? place = none ∧ s = t.insert place .dir := by
  obtain ⟨place, new, h⟩ := bind_eq_ok.mp h
  obtain ⟨found, located, new⟩ := bind_eq_ok.mp new
  split at new
  · split at new
    · cases new
    next free =>
      cases new
      split at h
      · cases h
      · cases h
        exact ⟨place, located, by simpa using free, rfl⟩
  · cases new

theorem makes_makeDir (h : t.makeDir refusals p = .ok s) : Makes [p] t s := by
  obtain ⟨place, located, missing, rfl⟩ := makeDir_ok h
  have below : place ≠ [] := by
    rintro rfl
    cases missing
  have found := entry?_insert (t := t) below .dir
  have keeps : KeepsWays t (t.insert place .dir) :=
    keepsWays_insert below (.inl missing) (by simp)
  have leads : (t.insert place .dir).locate p true = .ok place := by
    obtain ⟨usable, leads, -⟩ := locate_eq_ok.mp located
    refine locate_eq_ok.mpr ⟨usable, keeps.leads ?_, by simp [found]⟩
    cases asks : asksForDir p with
    | true => rwa [asks] at leads
    | false =>
      rw [asks] at leads
      exact leads.follow (by simp [missing])
  refine ⟨rfl, fun q => ?_⟩
  by_cases here : q = place
  · subst here
    exact .inr ⟨missing, by simp [found], p, List.mem_singleton_self p, leads⟩
  · exact .inl (by rw [found, if_neg here])

/-- States of a tree, the last one first, of which each has only more directories than the one
before. -/
structure Builds (ways : List Path) (t : FileTree) (states : List FileTree) : Prop where
  whole : Makes ways t (states.head?.getD t)
  each : ∀ s ∈ states, Makes ways t s ∧ Makes ways s (states.head?.getD t)

theorem builds_nil (ways : List Path) (t : FileTree) : Builds ways t [] := ⟨.refl ways t, by simp⟩

theorem Builds.mono {states : List FileTree} (h : Builds above t states) (more : above ⊆ ways) :
    Builds ways t states :=
  ⟨h.whole.mono more, fun s member => (h.each s member).imp (·.mono more) (·.mono more)⟩

theorem Builds.cons {states : List FileTree} (h : Builds ways t states)
    (step : Makes ways (states.head?.getD t) s) : Builds ways t (s :: states) := by
  have whole := h.whole.trans step
  refine ⟨whole, fun u member => ?_⟩
  obtain rfl | earlier := List.mem_cons.mp member
  · exact ⟨whole, .refl ways u⟩
  · exact (h.each u earlier).imp_right (·.trans step)

theorem builds_makeDirsFrom (refusals : Refusals) (t : FileTree) (ways : List Path) :
    Builds ways t (t.makeDirsFrom refusals ways).states := by
  fun_induction t.makeDirsFrom refusals ways with
  | case1 => exact builds_nil [] t
  | case2 p above made makes =>
    exact (builds_nil _ t).cons ((makes_makeDir makes).mono (by simp))
  | case3 => exact builds_nil _ t
  | case4 p above missing some parents e refused ih => exact ih.mono (List.subset_cons_self p above)
  | case5 p above missing some parents done t' made makes ih =>
    exact (ih.mono (List.subset_cons_self p above)).cons ((makes_makeDir makes).mono (by simp))
  | case6 p above missing some parents done t' e refused ih =>
    exact ih.mono (List.subset_cons_self p above)
  | case7 => exact builds_nil _ t

/-- The paths of the directories that a write makes if they are missing. -/
def waysTo (target : Path) : List Path :=
  directoryOf target :: (ancestors (directoryOf target)).drop 1

/-! ### The directory of a path -/

theorem components_directoryOf {cs : List Component} {last : Component}
    (whole : target.components = cs ++ [last]) (below : last ≠ .root) :
    (directoryOf target).components = if cs = [] then [.here] else cs := by
  have spelled : IsSpelled (cs ++ [last]) := whole ▸ isSpelled_components target
  have read := components_ofComponents spelled.front
  have parent : target.parent? = some (ofComponents cs) := by
    unfold parent?
    rw [whole, List.getLast?_concat, List.dropLast_concat]
    cases last <;> first | rfl | exact absurd rfl below
  rw [directoryOf, parent]
  by_cases none : cs = []
  · subst none
    rfl
  · have bytes : (ofComponents cs).bytes ≠ [] := by
      intro empty
      refine none (read.symm.trans ?_)
      unfold components names
      rw [isAbsolute, empty]
      rfl
    simp only [if_neg bytes, if_neg none]
    exact read

theorem leads_directoryOf {cs : List Component} {last : Component} {followLast : Bool}
    {links : Nat} {at_ : Place} (whole : target.components = cs ++ [last]) (below : last ≠ .root) :
    Leads t followLast links at_ (directoryOf target).components q ↔
      Leads t followLast links at_ cs q := by
  rw [components_directoryOf whole below]
  by_cases none : cs = []
  · subst none
    constructor
    · rintro (_ | _ | rest)
      exact rest
    · exact .here
  · rw [if_neg none]

/-- Where a path leads, once it is known where that of its directory does. -/
theorem locate_beside (directory : t.locate (directoryOf target) true = .ok dir)
    (isDir : t.isDirAt dir = true) (h : t.locate target false = .ok q) :
    (∃ n, target.fileName? = some n ∧ n.length ≤ nameLimit ∧
      (q = dir ++ [n] ∨ asksForDir target = true)) ∨ target.fileName? = none ∧ q <+: dir := by
  obtain ⟨-, front, -⟩ := locate_eq_ok.mp directory
  obtain ⟨-, leads, -⟩ := locate_eq_ok.mp h
  rw [fileName?]
  obtain none | ⟨cs, last, whole⟩ := List.eq_nil_or_concat' target.components
  · -- An empty path has the working directory for its directory.
    have working : (directoryOf target).components = [.here] := by
      rw [directoryOf, parent?, none]
      rfl
    rw [working] at front
    rw [none] at leads ⊢
    obtain _ | _ | ⟨⟨⟩⟩ := front
    cases leads
    exact .inr ⟨rfl, List.prefix_refl _⟩
  · rw [whole] at leads
    rw [whole, List.getLast?_concat]
    by_cases root : last = .root
    · subst root
      obtain rfl := (whole ▸ isSpelled_components target).eq_nil_of_root
      obtain _ | ⟨⟨⟩⟩ := leads
      exact .inr ⟨rfl, List.nil_prefix⟩
    · rw [leads_directoryOf whole root] at front
      obtain ⟨links, leads⟩ := front.of_append isDir (by simp) leads
      obtain ⟨n, rfl, short, there⟩ | ⟨other, above⟩ := leads.last
      · exact .inl ⟨n, rfl, short, by simpa using there⟩
      · refine .inr ⟨?_, above⟩
        cases last with
        | normal n => exact absurd rfl (other n)
        | _ => rfl

theorem locate_of_directory {n : Name} {followLast : Bool} (usable : IsUsable target)
    (named : target.fileName? = some n) (plain : asksForDir target = false)
    (directory : t.locate (directoryOf target) true = .ok dir) (isDir : t.isDirAt dir = true)
    (rest : ∀ links, Leads t followLast links dir [.normal n] q) :
    t.locate target followLast = .ok q := by
  obtain ⟨-, front, -⟩ := locate_eq_ok.mp directory
  have whole := (List.dropLast_append_getLast? _ (fileName?_eq_some.mp named)).symm
  rw [leads_directoryOf whole nofun, Bool.true_or] at front
  refine locate_eq_ok.mpr ⟨usable, ?_, by simp [plain]⟩
  rw [whole, plain, Bool.or_false]
  exact front.append isDir (List.cons_ne_nil _ _) rest

/-! ### The staging file -/

theorem drawName?_eq_some {draws : Nat → Name} {tries : Nat} {n : Name}
    (h : t.drawName? dir draws tries = some n) :
    t.entry? (dir ++ [n]) = none ∧ ∃ k, n = draws k := by
  fun_induction t.drawName? dir draws tries with
  | case1 => cases h
  | case2 draws tries free =>
    cases h
    exact ⟨by simpa using free, 0, rfl⟩
  | case3 draws tries taken ih =>
    obtain ⟨free, k, drawn⟩ := ih h
    exact ⟨free, k + 1, drawn⟩

/-- Nothing has changed but that a staging file has come. -/
def IsStaged (t : FileTree) (staging : Place) (s : FileTree) : Prop :=
  ∃ octets, s = t.insert staging (.file octets false)

theorem isStaged_fillStaging (c : Conditions) (t : FileTree) (staging : Place)
    (written octets : List UInt8) :
    ∀ s ∈ (fillStaging c t staging written octets).states, IsStaged t staging s := by
  fun_induction fillStaging c t staging written octets with
  | case1 => simp
  | case2 => simp
  | case3 written b rest granted longer later ih =>
    intro s member
    obtain earlier | last := List.mem_append.mp member
    · exact ih s earlier
    · exact ⟨longer, List.mem_singleton.mp last⟩

theorem useStaging_cases (c : Conditions) (t : FileTree) (staging : Place) (target : Path)
    (bytes : List UInt8) : ∃ staged, (∀ s ∈ staged, IsStaged t staging s) ∧
      ((∃ e, t.useStaging c staging target bytes = ⟨staged, .error e⟩) ∨
        ∃ place, (t.insert staging (.file bytes false)).placeToReplace target = .ok place ∧
          t.useStaging c staging target bytes =
            ⟨t.insert place (.file bytes false) :: staged, .ok ()⟩) := by
  refine ⟨(fillStaging c t staging [] bytes).states ++ [t.insert staging (.file [] false)], ?_, ?_⟩
  · intro s member
    obtain filled | first := List.mem_append.mp member
    · exact isStaged_fillStaging c t staging [] bytes s filled
    · exact ⟨[], List.mem_singleton.mp first⟩
  · unfold useStaging
    dsimp only
    split
    next e failed => exact .inl ⟨e, rfl⟩
    split
    next e refused => exact .inl ⟨e, rfl⟩
    split
    next e misfit => exact .inl ⟨e, rfl⟩
    next place fits =>
      split
      next e refused => exact .inl ⟨e, rfl⟩
      next => exact .inr ⟨place, fits, rfl⟩

/-- How a write goes on from a tree that has the directory of its target. -/
inductive Goes (c : Conditions) (t : FileTree) (dir : Place) (target : Path) (bytes : List UInt8) :
    Steps Unit → Prop
  | unstaged (e : Fault) : Goes c t dir target bytes ⟨[], .error e⟩
  | removed {k : Nat} {staged : List FileTree} (free : t.entry? (dir ++ [c.draws k]) = none)
      (each : ∀ s ∈ staged, IsStaged t (dir ++ [c.draws k]) s) (e : Fault) :
      Goes c t dir target bytes ⟨t :: staged, .error e⟩
  | renamed {k : Nat} {staged : List FileTree} {place : Place}
      (free : t.entry? (dir ++ [c.draws k]) = none)
      (each : ∀ s ∈ staged, IsStaged t (dir ++ [c.draws k]) s)
      (fits : (t.insert (dir ++ [c.draws k]) (.file bytes false)).placeToReplace target =
        .ok place) :
      Goes c t dir target bytes ⟨t.insert place (.file bytes false) :: staged, .ok ()⟩

theorem goes_replaceVia (c : Conditions) (t : FileTree) (dir : Place) (target : Path)
    (bytes : List UInt8) : Goes c t dir target bytes (t.replaceVia c dir target bytes) := by
  unfold replaceVia
  split
  next => exact .unstaged _
  next name drawn =>
    obtain ⟨free, k, rfl⟩ := drawName?_eq_some drawn
    dsimp only
    split
    next e refused => exact .unstaged e
    next =>
      obtain ⟨staged, each, ⟨e, used⟩ | ⟨place, fits, used⟩⟩ :=
        useStaging_cases c t (dir ++ [c.draws k]) target bytes
      · rw [used]
        exact .removed free each e
      · rw [used]
        exact .renamed free each fits

theorem replace_cases (c : Conditions) (t : FileTree) (target : Path) (bytes : List UInt8) :
    ∃ states, Builds (waysTo target) t states ∧
      ((∃ e, t.replace c target bytes = ⟨states, .error e⟩) ∨
        ∃ dir w, (states.head?.getD t).locate (directoryOf target) true = .ok dir ∧
          (states.head?.getD t).isDirAt dir = true ∧
          Goes c (states.head?.getD t) dir target bytes w ∧
          t.replace c target bytes = ⟨w.states ++ states, w.result⟩) := by
  refine ⟨_, builds_makeDirsFrom c.refusals t (waysTo target), ?_⟩
  unfold replace makeDirs
  dsimp only
  split
  next e failed => exact .inl ⟨e, rfl⟩
  split
  next e lost => exact .inl ⟨e, rfl⟩
  next dir located =>
    split
    next isDir => exact .inr ⟨dir, _, located, isDir, goes_replaceVia c _ dir target bytes, rfl⟩
    next => exact .inl ⟨_, rfl⟩

/-! ### What a reader sees -/

/-- What a path shows in a state of some steps: what was there, the whole file that is put there or,
if the steps fail, a directory that has been made. What was there is shown until it is replaced. -/
structure Shows (t : FileTree) (target : Path) (bytes : List UInt8) (w : Steps Unit)
    (s : FileTree) : Prop where
  whole : ∀ q, s.locate target false = .ok q →
    s.entry? q = t.entry? q ∨ s.entry? q = some (.file bytes false) ∨
      IsNewDir (waysTo target) t s q ∧ w.result ≠ .ok ()
  still : ∀ q e, t.locate target false = .ok q → t.entry? q = some e →
    s.locate target false = .ok q ∨ w.result = .ok () ∧ s = w.final t ∧ ∃ link, e = .link link

/-- A state in which the file has not been put there yet. -/
structure IsBefore (t : FileTree) (target : Path) (s : FileTree) : Prop where
  keeps : KeepsWays t s
  shown : ∀ q, s.locate target false = .ok q →
    s.entry? q = t.entry? q ∨ IsNewDir (waysTo target) t s q

theorem Makes.isBefore (h : Makes (waysTo target) t s) : IsBefore t target s :=
  ⟨h.keepsWays, fun q _ => h.entry q⟩

theorem IsBefore.shows (before : IsBefore t target s)
    (fails : ∀ q, s.locate target false = .ok q → s.isDirAt q = true → w.result ≠ .ok ()) :
    Shows t target bytes w s := by
  refine ⟨fun q leads => ?_, fun q e leads found => .inl (before.keeps.locate_some leads found)⟩
  obtain same | new := before.shown q leads
  · exact .inl same
  · exact .inr (.inr ⟨new, fails q leads (isDirAt_iff.mpr new.there)⟩)

theorem IsStaged.keepsWays {n : Name} (free : t.entry? (dir ++ [n]) = none)
    (h : IsStaged t (dir ++ [n]) s) : KeepsWays t s := by
  obtain ⟨octets, rfl⟩ := h
  exact keepsWays_insert_file (ne_root dir n) (.inl free) octets false

theorem IsStaged.keepsWays_written {n : Name} (h : IsStaged t (dir ++ [n]) s)
    (bytes : List UInt8) : KeepsWays s (t.insert (dir ++ [n]) (.file bytes false)) := by
  obtain ⟨octets, rfl⟩ := h
  have found := entry?_insert (t := t) (ne_root dir n) (.file octets false)
  have keeps := keepsWays_insert_file (t := t.insert (dir ++ [n]) (.file octets false))
    (ne_root dir n) (.inr ⟨octets, false, by simp [found]⟩) bytes false
  rwa [insert_insert] at keeps

/-- No name is drawn for the staging file that the target has. -/
def Conditions.Spares (c : Conditions) (target : Path) : Prop :=
  ∀ k, target.fileName? ≠ some (c.draws k)

theorem IsStaged.isBefore {k : Nat} (made : Makes (waysTo target) t u)
    (directory : u.locate (directoryOf target) true = .ok dir) (isDir : u.isDirAt dir = true)
    (free : u.entry? (dir ++ [c.draws k]) = none) (spares : c.Spares target)
    (h : IsStaged u (dir ++ [c.draws k]) s) : IsBefore t target s := by
  have keeps := h.keepsWays free
  refine ⟨made.keepsWays.trans keeps, fun q leads => ?_⟩
  have directory' := keeps.locate_some directory (isDirAt_iff.mp isDir)
  have isDir' := keeps.isDirAt isDir
  obtain ⟨octets, rfl⟩ := h
  have found := entry?_insert (t := u) (ne_root dir (c.draws k)) (.file octets false)
  -- The staging file has another name, and a path that asks for a directory shows no file.
  have aside : q ≠ dir ++ [c.draws k] := by
    rintro rfl
    obtain ⟨n, named, -, there⟩ | ⟨-, above⟩ := locate_beside directory' isDir' leads
    · obtain there | asks := there
      · exact spares k (by simpa [named] using there.symm)
      · exact (locate_eq_ok.mp leads).2.2 asks octets false (by simp [found])
    · exact absurd above.length_le (by simp)
  rw [found, if_neg aside]
  exact (made.entry q).imp_right (·.keep keeps)

/-! ### The file takes the place of the target -/

theorem placeToReplace_eq_ok : t.placeToReplace p = .ok q ↔
    t.locate p false = .ok q ∧ (∃ n, p.fileName? = some n) ∧ asksForDir p = false ∧
      t.isDirAt q = false := by
  unfold placeToReplace
  constructor
  · intro h
    obtain ⟨place, located, h⟩ := bind_eq_ok.mp h
    split at h
    next n last =>
      split at h
      · cases h
      next plain =>
        split at h
        · cases h
        next other =>
          cases h
          exact ⟨located, ⟨n, fileName?_eq_some.mpr last⟩, by simpa using plain,
            by simpa using other⟩
    · cases h
  · rintro ⟨located, ⟨n, named⟩, plain, other⟩
    simp [located, fileName?_eq_some.mp named, plain, other, bind, Except.bind]

/-- From every tree with ways to the place that a file may take, the path leads there. -/
theorem place_of_keepsWays (fits : u.placeToReplace target = .ok place) (keeps : KeepsWays s u)
    (h : s.locate target false = .ok q) : q = place ∧ s.isDirAt q = false := by
  obtain ⟨leads, -, plain, other⟩ := placeToReplace_eq_ok.mp fits
  have same := locate_unique (keeps.locate h (by simp [plain])) leads
  refine ⟨same, Bool.eq_false_iff.mpr fun inside => ?_⟩
  rw [← same, keeps.isDirAt inside] at other
  cases other

/-- A file has taken the place that a path names in its directory. The path leads there, unless
what was there is a link on the way to the directory. -/
structure Puts (target : Path) (bytes : List UInt8) (made final : FileTree) (dir : Place)
    (n : Name) : Prop where
  named : target.fileName? = some n
  directory : made.locate (directoryOf target) true = .ok dir
  isDir : made.isDirAt dir = true
  replaceable : made.isDirAt (dir ++ [n]) = false
  entry : ∀ q, final.entry? q =
    if q = dir ++ [n] then some (.file bytes false) else made.entry? q
  read : final.read target = .ok bytes ∨
    (∃ link, made.entry? (dir ++ [n]) = some (.link link)) ∧
      final.locate (directoryOf target) true ≠ .ok dir

/-- A path leads to a file, by way of its directory. -/
structure Holds (t : FileTree) (target : Path) (bytes : List UInt8) (dir : Place) (n : Name) :
    Prop where
  usable : IsUsable target
  named : target.fileName? = some n
  short : n.length ≤ nameLimit
  plain : asksForDir target = false
  directory : t.locate (directoryOf target) true = .ok dir
  isDir : t.isDirAt dir = true
  entry : t.entry? (dir ++ [n]) = some (.file bytes false)

theorem Holds.read {n : Name} (h : Holds t target bytes dir n) : t.read target = .ok bytes := by
  have leads : t.locate target true = .ok (dir ++ [n]) :=
    locate_of_directory h.usable h.named h.plain h.directory h.isDir fun _ =>
      .ends h.short (.inr ⟨bytes, false, h.entry⟩)
  simp [FileTree.read, find, leads, h.entry, bind, Except.bind]

section Renamed

variable {m : Name} (directory : t.locate (directoryOf target) true = .ok dir)
  (isDir : t.isDirAt dir = true) (free : t.entry? (dir ++ [m]) = none)
  (fits : (t.insert (dir ++ [m]) (.file bytes false)).placeToReplace target = .ok place)

include directory isDir free fits

theorem place_of_fits : ∃ n, target.fileName? = some n ∧ n.length ≤ nameLimit ∧ place = dir ++ [n] ∧
    t.isDirAt place = false := by
  obtain ⟨leads, ⟨n, name⟩, plain, other⟩ := placeToReplace_eq_ok.mp fits
  have keeps := keepsWays_insert_file (ne_root dir m) (.inl free) bytes false
  have found := isDirAt_iff.mp isDir
  obtain ⟨n, named, short, there | asks⟩ | ⟨unnamed, -⟩ := locate_beside
    (keeps.locate_some directory found) (keeps.isDirAt isDir) leads
  · refine ⟨n, named, short, there, Bool.eq_false_iff.mpr fun inside => ?_⟩
    rw [keeps.isDirAt inside] at other
    cases other
  · rw [plain] at asks
    cases asks
  · cases name.symm.trans unnamed

/-- The file is there, unless it has taken the place of a link without which the path of the
directory does not lead there. -/
theorem holds_of_fits : ∃ n, place = dir ++ [n] ∧ target.fileName? = some n ∧
    t.isDirAt place = false ∧ (Holds (t.insert place (.file bytes false)) target bytes dir n ∨
      (∃ link, t.entry? place = some (.link link)) ∧
        (t.insert place (.file bytes false)).locate (directoryOf target) true ≠ .ok dir) := by
  obtain ⟨leads, -, plain, -⟩ := placeToReplace_eq_ok.mp fits
  obtain ⟨usable, -, -⟩ := locate_eq_ok.mp leads
  obtain ⟨n, named, short, rfl, replaceable⟩ := place_of_fits directory isDir free fits
  have entry := entry?_insert (t := t) (ne_root dir n) (.file bytes false)
  refine ⟨n, rfl, named, replaceable, ?_⟩
  by_cases kept : (t.insert (dir ++ [n]) (.file bytes false)).locate (directoryOf target) true =
      .ok dir
  · have isDir' : (t.insert (dir ++ [n]) (.file bytes false)).isDirAt dir = true := by
      rw [isDirAt_iff, entry, if_neg (by simp)]
      exact isDirAt_iff.mp isDir
    exact .inl ⟨usable, named, short, plain, kept, isDir', by rw [entry, if_pos rfl]⟩
  · refine .inr ⟨?_, kept⟩
    have unended : ¬ t.EndsAt (dir ++ [n]) := fun ends =>
      kept ((keepsWays_insert_file (ne_root dir n) ends bytes false).locate_some directory
        (isDirAt_iff.mp isDir))
    cases there : t.entry? (dir ++ [n]) with
    | none => exact absurd (.inl there) unended
    | some e =>
      cases e with
      | file octets executable => exact absurd (.inr ⟨octets, executable, there⟩) unended
      | dir => simp [isDirAt, there] at replaceable
      | link link => exact ⟨link, rfl⟩

theorem puts_of_fits : ∃ n, Puts target bytes t (t.insert place (.file bytes false)) dir n := by
  obtain ⟨n, rfl, named, replaceable, held⟩ := holds_of_fits directory isDir free fits
  exact ⟨n, named, directory, isDir, replaceable, entry?_insert (ne_root dir n) _,
    held.imp_left Holds.read⟩

theorem shows_of_fits (made : Makes (waysTo target) s t) {w : Steps Unit} (done : w.result = .ok ())
    (last : w.final s = t.insert place (.file bytes false)) :
    Shows s target bytes w (t.insert place (.file bytes false)) := by
  have keeps := keepsWays_insert_file (ne_root dir m) (.inl free) bytes false
  obtain ⟨-, -, plain, -⟩ := placeToReplace_eq_ok.mp fits
  obtain ⟨n, -, -, rfl, -⟩ := place_of_fits directory isDir free fits
  have entry := entry?_insert (t := t) (ne_root dir n) (.file bytes false)
  refine ⟨fun q leads => .inr (.inl ?_), fun q e leads found => ?_⟩
  · obtain ⟨usable, way, -⟩ := locate_eq_ok.mp leads
    -- A way that does not end at the new file was there while the staging file was, too.
    obtain there | way := way.of_insert_file (ne_root dir n)
    · rw [entry, if_pos there]
    · have led := locate_eq_ok.mpr ⟨usable, way, by simp [plain]⟩
      rw [entry, if_pos (place_of_keepsWays fits keeps led).1]
  · obtain ⟨rfl, other⟩ := place_of_keepsWays fits (made.keepsWays.trans keeps) leads
    -- The ways to a file end there, as they do at the new one. A link may have led further.
    cases e with
    | file octets executable =>
      obtain same | new := made.entry (dir ++ [n])
      · have ends : t.EndsAt (dir ++ [n]) := .inr ⟨octets, executable, same.trans found⟩
        have kept := made.keepsWays.trans (keepsWays_insert_file (ne_root dir n) ends bytes false)
        exact .inl (kept.locate_some leads found)
      · cases new.missing.symm.trans found
    | dir => simp [isDirAt, found] at other
    | link link => exact .inr ⟨done, last.symm, link, rfl⟩

end Renamed

/-! ### The whole write -/

/-- A tree with all that a file needs to be put at a path. -/
structure IsReady (c : Conditions) (t : FileTree) (target : Path) : Prop where
  granted : ∀ operation, c.refusals operation = none
  usable : IsUsable target
  plain : asksForDir target = false
  place : ∃ dir n, t.locate (directoryOf target) true = .ok dir ∧ t.isDirAt dir = true ∧
    target.fileName? = some n ∧ n.length ≤ nameLimit ∧ t.isDirAt (dir ++ [n]) = false ∧
    ∃ k < drawLimit, t.entry? (dir ++ [c.draws k]) = none

theorem isSome_drawName? {draws : Nat → Name} {k tries : Nat} (within : k < tries)
    (free : t.entry? (dir ++ [draws k]) = none) : ∃ n, t.drawName? dir draws tries = some n := by
  fun_induction t.drawName? dir draws tries generalizing k with
  | case1 => cases within
  | case2 draws tries first => exact ⟨_, rfl⟩
  | case3 draws tries taken ih =>
    cases k with
    | zero => simp [free] at taken
    | succ k => exact ih (Nat.lt_of_succ_lt_succ within) free

theorem result_fillStaging (granted : ∀ operation, c.refusals operation = none) (t : FileTree)
    (staging : Place) (written octets : List UInt8) :
    (fillStaging c t staging written octets).result = .ok () := by
  fun_induction fillStaging c t staging written octets with
  | case1 => rfl
  | case2 written b rest e refused => cases (granted _).symm.trans refused
  | case3 written b rest granted longer later ih => exact ih

theorem IsReady.result_replaceVia (ready : IsReady c t target) (bytes : List UInt8) :
    ∃ dir, t.locate (directoryOf target) true = .ok dir ∧ t.isDirAt dir = true ∧
      (t.replaceVia c dir target bytes).result = .ok () := by
  obtain ⟨granted, usable, plain, dir, n, directory, isDir, named, short, other, k, within, free⟩ :=
    ready
  obtain ⟨m, name⟩ := isSome_drawName? within free
  obtain ⟨vacant, -⟩ := drawName?_eq_some name
  have keeps := keepsWays_insert_file (ne_root dir m) (.inl vacant) bytes false
  have entry := entry?_insert (t := t) (ne_root dir m) (.file bytes false)
  have found := isDirAt_iff.mp isDir
  have other' : (t.insert (dir ++ [m]) (.file bytes false)).isDirAt (dir ++ [n]) = false := by
    rw [isDirAt, entry]
    split
    · rfl
    · exact other
  have fits := placeToReplace_eq_ok.mpr ⟨locate_of_directory usable named plain
    (keeps.locate_some directory found) (keeps.isDirAt isDir) fun _ =>
      leads_of_not_dir short other', ⟨n, named⟩, plain, other'⟩
  refine ⟨dir, directory, isDir, ?_⟩
  simp [replaceVia, useStaging, name, granted, fits, result_fillStaging granted]

theorem result_replace (t : FileTree) (bytes : List UInt8)
    (dirs : (t.makeDirs c.refusals (directoryOf target)).result = .ok ())
    (ready : IsReady c ((t.makeDirs c.refusals (directoryOf target)).final t) target) :
    (t.replace c target bytes).result = .ok () := by
  obtain ⟨dir, directory, isDir, done⟩ := ready.result_replaceVia bytes
  simp only [replace, dirs, directory, isDir, if_true, done]

/-- What some steps leave, given the tree with all directories that are made on the way: if they
succeed, the file is there in addition. -/
structure Replaces (t : FileTree) (target : Path) (bytes : List UInt8) (made : FileTree)
    (w : Steps Unit) : Prop where
  makes : Makes (waysTo target) t made
  done : w.result = .ok () → ∃ dir n, Puts target bytes made (w.final t) dir n
  failed : ∀ e, w.result = .error e → w.final t = made

theorem replaces_replace (c : Conditions) (t : FileTree) (target : Path) (bytes : List UInt8) :
    ∃ made, Replaces t target bytes made (t.replace c target bytes) := by
  obtain ⟨states, builds, ⟨e, steps⟩ | ⟨dir, w, directory, isDir, goes, steps⟩⟩ :=
    replace_cases c t target bytes
  all_goals
    rw [steps]
    refine ⟨states.head?.getD t, builds.whole, ?_, ?_⟩
  · nofun
  · exact fun _ _ => rfl
  · intro done
    cases goes with
    | unstaged | removed => cases done
    | renamed free each fits => exact ⟨dir, puts_of_fits directory isDir free fits⟩
  · intro e failed
    cases goes with
    | unstaged | removed => rfl
    | renamed => cases failed

theorem shows_replace (t : FileTree) (bytes : List UInt8) (spares : c.Spares target) :
    ∀ s ∈ (t.replace c target bytes).states, Shows t target bytes (t.replace c target bytes) s := by
  obtain ⟨states, builds, ⟨e, steps⟩ | ⟨dir, w, directory, isDir, goes, steps⟩⟩ :=
    replace_cases c t target bytes
  · rw [steps]
    exact fun s member => (builds.each s member).1.isBefore.shows nofun
  rw [steps]
  intro s member
  obtain later | earlier := List.mem_append.mp member
  · cases goes with
    | unstaged => cases later
    | removed free each e =>
      obtain rfl | staged := List.mem_cons.mp later
      · exact builds.whole.isBefore.shows nofun
      · exact ((each s staged).isBefore builds.whole directory isDir free spares).shows nofun
    | renamed free each fits =>
      obtain rfl | staged := List.mem_cons.mp later
      · exact shows_of_fits directory isDir free fits builds.whole rfl rfl
      · refine ((each s staged).isBefore builds.whole directory isDir free spares).shows ?_
        intro q leads inside
        obtain ⟨-, other⟩ := place_of_keepsWays fits ((each s staged).keepsWays_written bytes) leads
        cases inside.symm.trans other
  · -- Where a directory shows, one stands in the way of the file: the rename is refused.
    refine (builds.each s earlier).1.isBefore.shows fun q leads inside => ?_
    cases goes with
    | unstaged | removed => nofun
    | @renamed k _ _ free each fits =>
      have keeps := (builds.each s earlier).2.keepsWays.trans
        (keepsWays_insert_file (ne_root dir (c.draws k)) (.inl free) bytes false)
      cases inside.symm.trans (place_of_keepsWays fits keeps leads).2

/-- A write that succeeds leaves the file in the place of its target, and one that fails changes no
more than to make missing directories; it succeeds if nothing is in its way. At every moment the
path shows what was there or the whole file, or a missing directory that has been made. Whether the
directory can be synced changes nothing. -/
theorem replace_accounts (c : Conditions) (unsynced : Option Fault) (t : FileTree) (target : Path)
    (bytes : List UInt8) :
    (∃ made, Replaces t target bytes made (t.replaceSynced c unsynced target bytes).toSteps) ∧
    ((t.makeDirs c.refusals (directoryOf target)).result = .ok () →
      IsReady c ((t.makeDirs c.refusals (directoryOf target)).final t) target →
      (t.replaceSynced c unsynced target bytes).result = .ok ()) ∧
    (c.Spares target → ∀ s ∈ (t.replaceSynced c unsynced target bytes).states,
      Shows t target bytes (t.replaceSynced c unsynced target bytes).toSteps s) ∧
    ∀ other, (t.replaceSynced c other target bytes).toSteps =
      (t.replaceSynced c unsynced target bytes).toSteps :=
  ⟨replaces_replace c t target bytes, result_replace t bytes, shows_replace t bytes, fun _ => rfl⟩

def linkedDir : FileTree :=
  { entries := [([[100]], .dir), ([[108]], .link (Path.ofString "d"))] }

/-- Two paths that pass their own targets. One shows the directory that is made on its way, where
nothing was. The other leads nowhere once a file stands for the link that it goes through, although
the write has succeeded. -/
theorem replace_crossing :
    ((({} : FileTree).replaceSynced {} none (Path.ofString "/x/../x") [110]).result =
        .error .isADirectory ∧
      ((({} : FileTree).replaceSynced {} none (Path.ofString "/x/../x") [110]).final {}).locate
        (Path.ofString "/x/../x") false = .ok [[120]] ∧
      entry? {} [[120]] = none ∧
      entry? ((({} : FileTree).replaceSynced {} none (Path.ofString "/x/../x") [110]).final {})
        [[120]] = some .dir) ∧
    (linkedDir.replaceSynced {} none (Path.ofString "/l/../l") [110]).result = .ok () ∧
      ((linkedDir.replaceSynced {} none (Path.ofString "/l/../l") [110]).final linkedDir).read
        (Path.ofString "/l/../l") = .error .notADirectory := by
  refine ⟨⟨?_, ?_, ?_, ?_⟩, ?_, ?_⟩ <;> decide +kernel

end LintBridge.FileTree
