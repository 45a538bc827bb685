import LintBridge.Project.Files
import LintBridge.Proofs.FileTree.Entries
import LintBridge.Proofs.Path.Below

/-! What a walk through a project delivers.  `Delivers` says what that is, by the names that lead to
it from the root: `mem_walk`.  Each thing comes once and by names that files can have, and the order
in which the entries of the tree are kept decides only in which order they come, so that a walk is a
delivery as the listing of style sheets needs it: `isDelivery_walk`, `walk_perm`. -/

namespace LintBridge.Project

open LintBridge.Text

variable {tree other : FileTree} {env : Environment} {root : Path}

/-! ### What is looked at on the way -/

theorem rulesAt_eq (tree : FileTree) (path : Path) :
    rulesAt tree path = ((tree.read path).toOption.map IgnoreRule.ofBytes).getD [] := by
  rw [rulesAt]
  cases tree.read path <;> rfl

section Like

variable (like : tree.Like other)
include like

theorem rulesAt_like (path : Path) : rulesAt other path = rulesAt tree path := by
  rw [rulesAt_eq, rulesAt_eq, like.read]

theorem levelsAbove_like (place : Place) : levelsAbove other place = levelsAbove tree place := by
  simp only [levelsAbove, levelAt, rulesAt_like like, like.has]

theorem userListOf_like (env : Environment) : userListOf other env = userListOf tree env := by
  simp only [userListOf, userList?, like.read, like.workingDir]
  congr 3
  funext path
  exact rulesAt_like like path

theorem isSeen_like (user : UserList) (root : Path) (top : Place) (names : List Name) :
    isSeen other user root top names = isSeen tree user root top names := by
  simp only [isSeen, levelsAbove_like like, like.isDirAt]

end Like

/-! ### What is delivered -/

/-- What names lead to from a place is neither hidden nor ignored.  A list that takes a hidden one
back overrules that. -/
def IsVisible (tree : FileTree) (env : Environment) (root : Path) (top : Place)
    (names : List Name) : Prop :=
  match verdict? (userListOf tree env) (levelsAbove tree (top ++ names)) (top ++ names)
    (pathBelow root names) (tree.isDirAt (top ++ names)) with
  | some .ignored => False
  | some .kept => True
  | none => (names.getLast?.getD []).head? ≠ some Path.dot

/-- A walk from a root delivers what is there and below it, unless something on the way to it is
hidden or ignored. -/
inductive Delivers (tree : FileTree) (env : Environment) (root : Path) : Walked → Prop
  | entry {top : Place} {names : List Name} {e : Entry}
      (located : tree.locate root true = .ok top) (entry : (top ++ names, e) ∈ tree.entries)
      (visible : ∀ way, way <+: names → way ≠ [] → IsVisible tree env root top way) :
      Delivers tree env root ⟨names, e.isFile⟩

theorem isSeen_iff {top : Place} {names : List Name} :
    isSeen tree (userListOf tree env) root top names = true ↔
      IsVisible tree env root top names := by
  simp only [isSeen, IsVisible]
  cases verdict? (userListOf tree env) (levelsAbove tree (top ++ names)) (top ++ names)
    (pathBelow root names) (tree.isDirAt (top ++ names)) with
  | none => simp
  | some verdict => cases verdict <;> simp

theorem mem_waysTo {names way : List Name} : way ∈ waysTo names ↔ way <+: names ∧ way ≠ [] := by
  simp only [waysTo, List.mem_map, List.mem_range]
  constructor
  · rintro ⟨n, short, rfl⟩
    refine ⟨List.take_prefix _ _, ?_⟩
    rw [Ne, List.take_eq_nil_iff, not_or]
    exact ⟨Nat.succ_ne_zero n, List.length_pos_iff.mp (Nat.zero_lt_of_lt short)⟩
  · rintro ⟨within, filled⟩
    have long := List.length_pos_iff.mpr filled
    have short := within.length_le
    refine ⟨way.length - 1, by omega, ?_⟩
    rw [Nat.sub_add_cancel long, ← List.prefix_iff_eq_take.mp within]

/-- What a walk delivers for an entry of the tree, if it comes to it. -/
def delivered? (tree : FileTree) (env : Environment) (root : Path) (top : Place) :
    Place × Entry → Option Walked
  | (place, e) =>
    if top.isPrefixOf place ∧
        (waysTo (place.drop top.length)).all (isSeen tree (userListOf tree env) root top) then
      some ⟨place.drop top.length, e.isFile⟩
    else none

theorem walk_of_error {fault : Fault} (located : tree.locate root true = .error fault) :
    walk tree env root = [] := by
  rw [walk, located]

theorem walk_of_ok {top : Place} (located : tree.locate root true = .ok top) :
    walk tree env root = tree.entries.filterMap (delivered? tree env root top) := by
  rw [walk, located]
  rfl

theorem delivered?_eq_some {top place : Place} {e : Entry} {w : Walked} :
    delivered? tree env root top (place, e) = some w ↔
      place = top ++ w.names ∧ w.isFile = e.isFile ∧
        ∀ way, way <+: w.names → way ≠ [] → IsVisible tree env root top way := by
  simp only [delivered?, Option.ite_none_right_eq_some, Option.some.injEq, List.all_eq_true,
    mem_waysTo, isSeen_iff, List.isPrefixOf_iff_prefix, and_imp]
  constructor
  · rintro ⟨⟨⟨names, rfl⟩, visible⟩, rfl⟩
    rw [List.drop_left] at visible ⊢
    exact ⟨rfl, rfl, visible⟩
  · obtain ⟨names, isFile⟩ := w
    rintro ⟨rfl, kind, visible⟩
    rw [List.drop_left]
    obtain rfl : isFile = e.isFile := kind
    exact ⟨⟨⟨names, rfl⟩, visible⟩, rfl⟩

theorem mem_walk {w : Walked} : w ∈ walk tree env root ↔ Delivers tree env root w := by
  cases located : tree.locate root true with
  | error fault =>
    rw [walk_of_error located]
    refine ⟨nofun, ?_⟩
    rintro ⟨located', _, _⟩
    cases located.symm.trans located'
  | ok top =>
    rw [walk_of_ok located, List.mem_filterMap]
    constructor
    · rintro ⟨⟨place, e⟩, entry, taken⟩
      obtain ⟨names, isFile⟩ := w
      obtain ⟨rfl, rfl, visible⟩ := delivered?_eq_some.mp taken
      exact .entry located entry visible
    · rintro ⟨located', entry, visible⟩
      obtain rfl := Except.ok.inj (located.symm.trans located')
      exact ⟨_, entry, delivered?_eq_some.mpr ⟨rfl, rfl, visible⟩⟩

/-! ### Deliveries -/

/-- Things are delivered each once, by names that files can have. -/
structure IsDelivery (walked : List Walked) : Prop where
  distinct : (walked.map (·.names)).Nodup
  named : ∀ w ∈ walked, ∀ n ∈ w.names, (Path.Component.normal n).IsProper

theorem IsDelivery.perm {walked walked' : List Walked} (h : IsDelivery walked)
    (perm : walked'.Perm walked) : IsDelivery walked' where
  distinct := (perm.map _).nodup_iff.mpr h.distinct
  named w member := h.named w (perm.mem_iff.mp member)

theorem isDelivery_walk (sound : tree.IsSound) : IsDelivery (walk tree env root) where
  distinct := by
    cases located : tree.locate root true with
    | error fault =>
      rw [walk_of_error located]
      exact List.nodup_nil
    | ok top =>
      rw [walk_of_ok located]
      refine List.pairwise_map.mpr (List.pairwise_filterMap.mpr ?_)
      refine (List.pairwise_map.mp sound.distinct).imp ?_
      rintro ⟨place, e⟩ ⟨place', e'⟩ differ w taken w' taken' same
      obtain ⟨rfl, -⟩ := delivered?_eq_some.mp taken
      obtain ⟨rfl, -⟩ := delivered?_eq_some.mp taken'
      exact differ (congrArg (top ++ ·) same)
  named := by
    rintro w member n inside
    obtain ⟨located, entry, -⟩ := mem_walk.mp member
    exact sound.named _ _ entry n (List.mem_append_right _ inside)

/-- What a walk delivers does not depend on the order of the entries, but for its own order. -/
theorem walk_perm (sound : tree.IsSound) (h : tree.Reorders other) (env : Environment)
    (root : Path) : (walk other env root).Perm (walk tree env root) := by
  have like := h.like sound
  cases located : tree.locate root true with
  | error fault =>
    rw [walk_of_error located]
    cases located' : other.locate root true with
    | error fault' => rw [walk_of_error located']
    | ok top =>
      rw [like.locate] at located'
      cases located.symm.trans located'
  | ok top =>
    have same : delivered? other env root top = delivered? tree env root top := by
      funext ⟨place, e⟩
      rw [delivered?, delivered?, userListOf_like like,
        funext (isSeen_like like (userListOf tree env) root top)]
    rw [walk_of_ok located, walk_of_ok (like.locate.mpr located), same]
    exact h.entries.filterMap _

/-! ### Paths -/

section Absolute

variable (absolute : root.isAbsolute = true)
include absolute

theorem isAbsolute_pathBelow (names : List Name) : (pathBelow root names).isAbsolute = true := by
  rw [pathBelow]
  split
  · exact absolute
  · exact Path.isAbsolute_join absolute

theorem components_pathBelow {names : List Name}
    (proper : ∀ n ∈ names, (Path.Component.normal n).IsProper) :
    (pathBelow root names).components = root.components ++ names.map .normal := by
  rw [pathBelow]
  split
  next none => rw [none, List.map_nil, List.append_nil]
  next =>
    have whole : ∀ n ∈ names, Path.slash ∉ n := fun n member => (proper n member).whole
    have named : ∀ n ∈ names, Path.Component.ofName? n = some (.normal n) :=
      fun n member => (proper n member).named
    have first : ∀ n, names.head? = some n → Path.isComponent n = true := by
      intro n head
      rw [Path.isComponent, named n (List.mem_of_mem_head? head)]
      rfl
    have read : names.filterMap Path.Component.ofName? = names.map .normal := by
      rw [List.filterMap_congr named]
      exact congrFun (List.filterMap_eq_map (f := Path.Component.normal)) names
    rw [Path.components_join absolute (Path.components_joinNames whole first).1,
      Path.properOf_joinNames whole, read]

/-- No two paths of a delivery are spellings of one. -/
theorem IsDelivery.pairwise_components {walked : List Walked} (h : IsDelivery walked) :
    walked.Pairwise fun v w => (v.path root).components ≠ (w.path root).components := by
  refine (List.pairwise_map.mp h.distinct).imp_of_mem fun {v w} here there differ same => differ ?_
  rw [Walked.path, Walked.path, components_pathBelow absolute (h.named v here),
    components_pathBelow absolute (h.named w there), List.append_cancel_left_eq] at same
  have injective : Function.Injective Path.Component.normal :=
    fun _ _ => Path.Component.normal.inj
  exact injective.list_map same

theorem IsDelivery.distinct_filePaths {walked : List Walked} (h : IsDelivery walked) :
    (filePaths root walked).Pairwise fun p q => p.components ≠ q.components :=
  List.pairwise_map.mpr ((h.pairwise_components absolute).filter _)

end Absolute

end LintBridge.Project
