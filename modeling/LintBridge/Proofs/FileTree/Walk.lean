import LintBridge.FileTree.Basic
import LintBridge.Proofs.Lists

/-! Where paths lead in a tree.  `Leads` says how components are followed from a directory, and
`walk` goes just that way: `leads_of_walk`, `Leads.walk`.  What lies on a way stays on it when other
entries are added, or files are put in the place of files: `KeepsWays.leads`. -/

namespace LintBridge.FileTree

open LintBridge.Path

variable {t s u : FileTree} {followLast : Bool} {links : Nat} {at_ dir place q : Place}
  {cs ds : List Component}

/-! ### Entries -/

/-- Nothing is at a place, or a file: no way goes on from there. -/
def EndsAt (t : FileTree) (place : Place) : Prop :=
  t.entry? place = none ∨ ∃ bytes executable, t.entry? place = some (.file bytes executable)

theorem isDirAt_iff : t.isDirAt place = true ↔ t.entry? place = some .dir := by simp [isDirAt]

theorem ne_root (dir : Place) (n : Name) : dir ++ [n] ≠ [] :=
  List.append_ne_nil_of_right_ne_nil dir (List.cons_ne_nil n [])

theorem entry?_insert (below : place ≠ []) (e : Entry) (q : Place) :
    entry? (t.insert place e) q = if q = place then some e else t.entry? q := by
  unfold entry? insert erase
  by_cases root : q = []
  · rw [if_pos root, if_neg (by rintro rfl; exact below root), if_pos root]
  · rw [if_neg root, if_neg root, List.lookup_cons]
    by_cases here : q = place
    · simp [here]
    · rw [if_neg here, beq_eq_false_iff_ne.mpr here]
      exact lookup_filter_ne here

theorem insert_insert (place : Place) (e e' : Entry) :
    (t.insert place e).insert place e' = t.insert place e' := by
  simp [insert, erase, List.filter_filter]

/-! ### Ways -/

/-- From a directory, components lead to a place, by way of no more than a number of links. -/
inductive Leads (t : FileTree) (followLast : Bool) : Nat → Place → List Component → Place → Prop
  | arrived {links : Nat} {at_ : Place} : Leads t followLast links at_ [] at_
  | root {links : Nat} {at_ q : Place} {cs : List Component}
      (rest : Leads t followLast links [] cs q) : Leads t followLast links at_ (.root :: cs) q
  | here {links : Nat} {at_ q : Place} {cs : List Component}
      (rest : Leads t followLast links at_ cs q) : Leads t followLast links at_ (.here :: cs) q
  | up {links : Nat} {at_ q : Place} {cs : List Component}
      (rest : Leads t followLast links at_.dropLast cs q) :
      Leads t followLast links at_ (.up :: cs) q
  | into {links : Nat} {at_ q : Place} {n : Name} {cs : List Component}
      (short : n.length ≤ nameLimit) (directory : t.entry? (at_ ++ [n]) = some .dir)
      (rest : Leads t followLast links (at_ ++ [n]) cs q) :
      Leads t followLast links at_ (.normal n :: cs) q
  | ends {links : Nat} {at_ : Place} {n : Name} (short : n.length ≤ nameLimit)
      (leaf : t.EndsAt (at_ ++ [n])) : Leads t followLast links at_ [.normal n] (at_ ++ [n])
  | stops {links : Nat} {at_ : Place} {n : Name} {target : Path} (short : n.length ≤ nameLimit)
      (link : t.entry? (at_ ++ [n]) = some (.link target)) (halt : followLast = false) :
      Leads t followLast links at_ [.normal n] (at_ ++ [n])
  | follows {links : Nat} {at_ q : Place} {n : Name} {target : Path} {cs : List Component}
      (short : n.length ≤ nameLimit) (link : t.entry? (at_ ++ [n]) = some (.link target))
      (goes : cs ≠ [] ∨ followLast = true)
      (rest : Leads t followLast links at_ (target.components ++ cs) q) :
      Leads t followLast (links + 1) at_ (.normal n :: cs) q

/-- As far as what is given for a link leads on by way of fewer links, components lead to where the
walk comes. -/
theorem leads_of_walkOn {follow : Place → List Component → Except Fault Place}
    (leads : ∀ {at_ cs q}, follow at_ cs = .ok q → ∃ k, links = k + 1 ∧
      Leads t followLast k at_ cs q)
    (h : t.walkOn followLast follow at_ cs = .ok q) : Leads t followLast links at_ cs q := by
  fun_induction t.walkOn followLast follow at_ cs with
  | case1 =>
    cases h
    exact .arrived
  | case2 at_ rest ih => exact .root (ih h)
  | case3 at_ rest ih => exact .here (ih h)
  | case4 at_ rest ih => exact .up (ih h)
  | case6 at_ n place short absent =>
    rw [← Except.ok.inj h]
    exact .ends (Nat.le_of_not_lt short) (.inl absent)
  | case8 at_ n rest place short directory ih =>
    exact .into (Nat.le_of_not_lt short) directory (ih h)
  | case9 at_ n place short bytes executable file =>
    rw [← Except.ok.inj h]
    exact .ends (Nat.le_of_not_lt short) (.inr ⟨bytes, executable, file⟩)
  | case11 at_ n rest place short target link last =>
    rw [← Except.ok.inj h]
    obtain ⟨rfl, halt⟩ := last
    exact .stops (Nat.le_of_not_lt short) link (by simpa using halt)
  | case12 at_ n rest place short target link going =>
    obtain ⟨k, rfl, onward⟩ := leads h
    refine .follows (Nat.le_of_not_lt short) link ?_ onward
    by_cases last : rest = []
    · exact .inr (by simpa [last] using going)
    · exact .inl last
  | _ => cases h

theorem leads_of_walk (h : t.walk followLast links at_ cs = .ok q) :
    Leads t followLast links at_ cs q := by
  induction links generalizing at_ cs q with
  | zero =>
    refine leads_of_walkOn (fun onward => ?_) h
    cases onward
  | succ links ih => exact leads_of_walkOn (fun onward => ⟨links, rfl, ih onward⟩) h

theorem Leads.walk (h : Leads t followLast links at_ cs q) :
    t.walk followLast links at_ cs = .ok q := by
  unfold FileTree.walk
  induction h with
  | arrived => rw [walkOn]
  | root rest ih => rw [walkOn, ih]
  | here rest ih => rw [walkOn, ih]
  | up rest ih => rw [walkOn, ih]
  | into short directory rest ih =>
    rw [walkOn, if_neg (Nat.not_lt.mpr short), directory]
    exact ih
  | ends short leaf =>
    rw [walkOn, if_neg (Nat.not_lt.mpr short)]
    obtain absent | ⟨bytes, executable, file⟩ := leaf
    · simp [absent]
    · simp [file]
  | stops short link halt =>
    rw [walkOn, if_neg (Nat.not_lt.mpr short), link]
    simp [halt]
  | @follows links at_ q n target cs short link goes rest ih =>
    have going : ¬ (cs = [] ∧ (!followLast) = true) := by
      rintro ⟨rfl, halt⟩
      obtain more | follow := goes
      · exact more rfl
      · simp [follow] at halt
    rw [walkOn, if_neg (Nat.not_lt.mpr short), link]
    simpa only [if_neg going, walkFrom] using ih

/-- Where the last component leads to no link, it does not matter whether that is followed. -/
theorem Leads.follow (h : Leads t false links at_ cs q)
    (plain : ∀ target, t.entry? q ≠ some (.link target)) : Leads t true links at_ cs q := by
  induction h with
  | arrived => exact .arrived
  | root rest ih => exact .root (ih plain)
  | here rest ih => exact .here (ih plain)
  | up rest ih => exact .up (ih plain)
  | into short directory rest ih => exact .into short directory (ih plain)
  | ends short leaf => exact .ends short leaf
  | stops short link halt => exact absurd link (plain _)
  | follows short link goes rest ih => exact .follows short link (.inr rfl) (ih plain)

theorem Leads.of_append (front : Leads t true links at_ cs dir) (directory : t.isDirAt dir = true)
    (more : ds ≠ []) (h : Leads t followLast links at_ (cs ++ ds) q) :
    ∃ links, Leads t followLast links dir ds q := by
  induction front with
  | arrived => exact ⟨_, h⟩
  | root rest ih =>
    cases h with
    | root h => exact ih directory h
  | here rest ih =>
    cases h with
    | here h => exact ih directory h
  | up rest ih =>
    cases h with
    | up h => exact ih directory h
  | @into links at_ q n cs short inside rest ih =>
    rw [List.cons_append] at h
    generalize whole : cs ++ ds = all at h
    cases h with
    | into _ _ h => exact ih directory (whole ▸ h)
    | ends _ leaf => simp_all
    | stops _ link halt => simp_all
    | follows _ link goes h => simp_all
  | ends short leaf =>
    rcases leaf with absent | ⟨bytes, executable, file⟩
    · simp [isDirAt, absent] at directory
    · simp [isDirAt, file] at directory
  | stops short link halt => cases halt
  | @follows links at_ q n target cs short link goes rest ih =>
    rw [List.cons_append] at h
    generalize whole : cs ++ ds = all at h
    cases h with
    | into _ inside h => cases link.symm.trans inside
    | ends _ leaf => simp_all
    | stops _ link' halt => simp_all
    | follows _ link' _ h =>
      cases link.symm.trans link'
      refine ih directory ?_
      rwa [List.append_assoc, whole]

/-- A way that leads to a directory, and goes on from there however many links it has followed. -/
theorem Leads.append (front : Leads t true links at_ cs dir) (directory : t.isDirAt dir = true)
    (more : ds ≠ []) (rest : ∀ links, Leads t followLast links dir ds q) :
    Leads t followLast links at_ (cs ++ ds) q := by
  induction front with
  | arrived => exact rest _
  | root _ ih => exact .root (ih directory rest)
  | here _ ih => exact .here (ih directory rest)
  | up _ ih => exact .up (ih directory rest)
  | into short inside _ ih => exact .into short inside (ih directory rest)
  | ends short leaf =>
    rcases leaf with absent | ⟨bytes, executable, file⟩
    · simp [isDirAt, absent] at directory
    · simp [isDirAt, file] at directory
  | stops short link halt => cases halt
  | follows short link goes _ ih =>
    have joined := ih directory rest
    rw [List.append_assoc] at joined
    exact .follows short link (.inl (by simp [more])) joined

/-- From a directory a name leads to what has it there, unless links are followed, and any other
component leads to the directory itself or to one above it. -/
theorem Leads.last {c : Component} (h : Leads t followLast links dir [c] q) :
    (∃ n, c = .normal n ∧ n.length ≤ nameLimit ∧ (q = dir ++ [n] ∨ followLast = true)) ∨
      (∀ n, c ≠ .normal n) ∧ q <+: dir := by
  cases h with
  | root rest =>
    cases rest
    exact .inr ⟨nofun, List.nil_prefix⟩
  | here rest =>
    cases rest
    exact .inr ⟨nofun, List.prefix_refl dir⟩
  | up rest =>
    cases rest
    exact .inr ⟨nofun, List.dropLast_prefix dir⟩
  | into short directory rest =>
    cases rest
    exact .inl ⟨_, rfl, short, .inl rfl⟩
  | ends short leaf => exact .inl ⟨_, rfl, short, .inl rfl⟩
  | stops short link halt => exact .inl ⟨_, rfl, short, .inl rfl⟩
  | follows short link goes rest => exact .inl ⟨_, rfl, short, .inr (goes.resolve_left (· rfl))⟩

theorem leads_of_not_dir {n : Name} (short : n.length ≤ nameLimit)
    (other : t.isDirAt (dir ++ [n]) = false) :
    Leads t false links dir [.normal n] (dir ++ [n]) := by
  cases there : t.entry? (dir ++ [n]) with
  | none => exact .ends short (.inl there)
  | some e =>
    cases e with
    | file bytes executable => exact .ends short (.inr ⟨bytes, executable, there⟩)
    | dir => simp [isDirAt, there] at other
    | link target => exact .stops short there rfl

/-- A file that is put at a place ends the ways to it, and leaves the others as they were. -/
theorem Leads.of_insert_file {bytes : List UInt8} {executable : Bool} (below : place ≠ [])
    (h : Leads (t.insert place (.file bytes executable)) followLast links at_ cs q) :
    q = place ∨ Leads t followLast links at_ cs q := by
  have found := entry?_insert (t := t) below (.file bytes executable)
  induction h with
  | arrived => exact .inr .arrived
  | root rest ih => exact ih.imp_right .root
  | here rest ih => exact ih.imp_right .here
  | up rest ih => exact ih.imp_right .up
  | @into links at_ q n cs short directory rest ih =>
    by_cases same : at_ ++ [n] = place
    · rw [found, if_pos same] at directory
      cases directory
    · rw [found, if_neg same] at directory
      exact ih.imp_right (.into short directory)
  | @ends links at_ n short leaf =>
    by_cases same : at_ ++ [n] = place
    · exact .inl same
    · rw [EndsAt, found, if_neg same] at leaf
      exact .inr (.ends short leaf)
  | @stops links at_ n target short link halt =>
    by_cases same : at_ ++ [n] = place
    · exact .inl same
    · rw [found, if_neg same] at link
      exact .inr (.stops short link halt)
  | @follows links at_ q n target cs short link goes rest ih =>
    by_cases same : at_ ++ [n] = place
    · rw [found, if_pos same] at link
      cases link
    · rw [found, if_neg same] at link
      exact ih.imp_right (.follows short link goes)

/-! ### Trees with the same ways -/

/-- Every way of one tree is there in another: it has the same directories and links, and no other
links. -/
structure KeepsWays (t s : FileTree) : Prop where
  workingDir : s.workingDir = t.workingDir
  entry : ∀ place, s.entry? place = t.entry? place ∨
    t.EndsAt place ∧ ∀ target, s.entry? place ≠ some (.link target)

namespace KeepsWays

theorem trans (first : KeepsWays t s) (second : KeepsWays s u) : KeepsWays t u := by
  refine ⟨second.workingDir.trans first.workingDir, fun place => ?_⟩
  obtain same | ⟨ends, plain⟩ := first.entry place
  · obtain same' | ⟨ends', plain'⟩ := second.entry place
    · exact .inl (same'.trans same)
    · exact .inr ⟨by rwa [EndsAt, same] at ends', plain'⟩
  · obtain same' | ⟨ends', plain'⟩ := second.entry place
    · exact .inr ⟨ends, by rwa [same']⟩
    · exact .inr ⟨ends, plain'⟩

/-- What is there and no file is still there. -/
theorem kept (keeps : KeepsWays t s) {e : Entry} (found : t.entry? place = some e)
    (other : ∀ bytes executable, e ≠ .file bytes executable) : s.entry? place = some e := by
  obtain same | ⟨absent | ⟨bytes, executable, file⟩, -⟩ := keeps.entry place
  · exact same.trans found
  · cases absent.symm.trans found
  · exact absurd (Option.some.inj (found.symm.trans file)) (other bytes executable)

theorem isDirAt (keeps : KeepsWays t s) (h : t.isDirAt place = true) :
    s.isDirAt place = true := isDirAt_iff.mpr (keeps.kept (isDirAt_iff.mp h) nofun)

theorem leads (keeps : KeepsWays t s) (h : Leads t followLast links at_ cs q) :
    Leads s followLast links at_ cs q := by
  induction h with
  | arrived => exact .arrived
  | root rest ih => exact .root ih
  | here rest ih => exact .here ih
  | up rest ih => exact .up ih
  | into short directory rest ih => exact .into short (keeps.kept directory nofun) ih
  | @ends links at_ n short leaf =>
    obtain same | ⟨-, plain⟩ := keeps.entry (at_ ++ [n])
    · exact .ends short (by rwa [EndsAt, same])
    · cases found : s.entry? (at_ ++ [n]) with
      | none => exact .ends short (.inl found)
      | some e =>
        cases e with
        | file bytes executable => exact .ends short (.inr ⟨bytes, executable, found⟩)
        | dir => exact .into short found .arrived
        | link target => exact absurd found (plain target)
  | stops short link halt => exact .stops short (keeps.kept link nofun) halt
  | follows short link goes rest ih => exact .follows short (keeps.kept link nofun) goes ih

end KeepsWays

/-! ### Paths -/

/-- The system takes the path for one. -/
structure IsUsable (p : Path) : Prop where
  unbroken : p.bytes.contains 0 = false
  some : p.bytes ≠ []
  short : p.bytes.length ≤ pathLimit

theorem bind_eq_ok {α β : Type} {x : Except Fault α} {f : α → Except Fault β} {b : β} :
    (x >>= f) = .ok b ↔ ∃ a, x = .ok a ∧ f a = .ok b := by
  cases x <;> simp [bind, Except.bind]

theorem locate_eq_ok {p : Path} : t.locate p followLast = .ok q ↔
    IsUsable p ∧ Leads t (followLast || asksForDir p) linkLimit t.workingDir p.components q ∧
      (asksForDir p = true → ∀ bytes executable, t.entry? q ≠ some (.file bytes executable)) := by
  unfold locate
  constructor
  · intro h
    split at h
    · cases h
    split at h
    · cases h
    split at h
    · cases h
    next unbroken some short =>
    obtain ⟨place, walked, h⟩ := bind_eq_ok.mp h
    split at h
    · cases h
    next fits =>
      cases h
      exact ⟨⟨by simpa using unbroken, some, Nat.le_of_not_lt short⟩, leads_of_walk walked,
        fun asks bytes executable => fits bytes executable asks⟩
  · rintro ⟨⟨unbroken, some, short⟩, leads, file⟩
    rw [if_neg (by simpa using unbroken), if_neg some, if_neg (Nat.not_lt.mpr short)]
    refine bind_eq_ok.mpr ⟨q, leads.walk, ?_⟩
    split
    next bytes executable asks found => exact absurd found (file asks bytes executable)
    next => rfl

theorem KeepsWays.locate (keeps : KeepsWays t s) {p : Path} (h : t.locate p followLast = .ok q)
    (leaf : asksForDir p = true → ∀ bytes executable,
      s.entry? q ≠ some (.file bytes executable)) : s.locate p followLast = .ok q := by
  obtain ⟨usable, leads, -⟩ := locate_eq_ok.mp h
  refine locate_eq_ok.mpr ⟨usable, ?_, leaf⟩
  rw [keeps.workingDir]
  exact keeps.leads leads

theorem KeepsWays.locate_some (keeps : KeepsWays t s) {p : Path} {e : Entry}
    (h : t.locate p followLast = .ok q) (found : t.entry? q = some e) :
    s.locate p followLast = .ok q := by
  obtain ⟨-, -, leaf⟩ := locate_eq_ok.mp h
  refine keeps.locate h fun asks bytes executable file => ?_
  have other : ∀ bytes executable, e ≠ .file bytes executable := fun b x same =>
    leaf asks b x (same ▸ found)
  exact other bytes executable (Option.some.inj ((keeps.kept found other).symm.trans file))

theorem locate_unique {p : Path} {q' : Place} (h : t.locate p followLast = .ok q)
    (h' : t.locate p followLast = .ok q') : q = q' := Except.ok.inj (h.symm.trans h')

theorem keepsWays_insert {e : Entry} (below : place ≠ []) (ends : t.EndsAt place)
    (plain : ∀ target, e ≠ .link target) : KeepsWays t (t.insert place e) := by
  refine ⟨rfl, fun q => ?_⟩
  rw [entry?_insert below]
  by_cases here : q = place
  · subst here
    exact .inr ⟨ends, by simpa using plain⟩
  · exact .inl (if_neg here)

theorem keepsWays_insert_file (below : place ≠ []) (ends : t.EndsAt place) (bytes : List UInt8)
    (executable : Bool) : KeepsWays t (t.insert place (.file bytes executable)) :=
  keepsWays_insert below ends (by simp)

end LintBridge.FileTree
