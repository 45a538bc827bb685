import LintBridge.Path
import Mathlib.Data.List.Basic

/-! The components of a path, and paths that are written from components.  `IsProper` says which
components can stand after the first one; when they are written one after another, each after a
slash, just these components are read again: `properOf_written`.  `IsSpelled` says which lists are
the components of a path, and such a list is read again from the path that is made of it:
`components_ofComponents`. -/

namespace LintBridge.Path

open LintBridge.Text

/-- A component that a name between slashes can be. -/
structure Component.IsProper (c : Component) : Prop where
  whole : slash ∉ c.bytes
  named : Component.ofName? c.bytes = some c

/-- The components that the names between slashes are. -/
def properOf (bytes : List UInt8) : List Component :=
  (splitAtEach slash bytes).filterMap Component.ofName?

/-- Components written one after another, each after a slash. -/
def written (cs : List Component) : List UInt8 := cs.flatMap fun c => slash :: c.bytes

theorem Component.bytes_of_ofName? {n : Name} {c : Component} (h : Component.ofName? n = some c) :
    c.bytes = n := by
  unfold Component.ofName? at h
  split at h
  next => cases h
  next =>
    split at h <;> cases h
    next up => exact up.symm
    next => rfl

theorem isProper_of_mem_properOf {bytes : List UInt8} {c : Component} (h : c ∈ properOf bytes) :
    c.IsProper := by
  obtain ⟨n, within, named⟩ := List.mem_filterMap.mp h
  rw [← Component.bytes_of_ofName? named] at within named
  exact ⟨not_mem_of_mem_splitAtEach within, named⟩

theorem properOf_append_slash (s r : List UInt8) :
    properOf (s ++ slash :: r) = properOf s ++ properOf r := by
  rw [properOf, splitAtEach_append, List.filterMap_append]
  rfl

theorem properOf_slash (r : List UInt8) : properOf (slash :: r) = properOf r :=
  properOf_append_slash [] r

theorem properOf_written {cs : List Component} (h : ∀ c ∈ cs, c.IsProper) :
    properOf (written cs) = cs := by
  have whole : ∀ n ∈ cs.map Component.bytes, slash ∉ n := by
    simpa using fun c hc => (h c hc).whole
  have split := splitAtEach_flatMap whole
  rw [List.flatMap_map] at split
  rw [properOf, written, split, List.filterMap_cons_none rfl, List.filterMap_map]
  exact (List.filterMap_congr fun c hc => (h c hc).named).trans List.filterMap_some

/-! ### Absolute paths -/

theorem components_slash (r : List UInt8) :
    (Path.mk (slash :: r)).components = .root :: properOf r :=
  congrArg (Component.root :: ·) (properOf_slash r)

theorem root_not_mem_of_relative {p : Path} (h : p.isAbsolute = false) :
    .root ∉ p.components := by
  have proper : .root ∉ properOf p.bytes := fun inside =>
    (isProper_of_mem_properOf inside).whole List.mem_cons_self
  simp only [components, h, Bool.false_eq_true, if_false]
  split
  · exact fun inside => (List.mem_cons.mp inside).elim nofun proper
  · exact proper

theorem isAbsolute_iff {p : Path} :
    p.isAbsolute = true ↔ ∃ cs, (∀ c ∈ cs, c.IsProper) ∧ p.components = .root :: cs := by
  constructor
  · intro absolute
    obtain ⟨_ | ⟨b, r⟩⟩ := p
    · cases absolute
    · obtain rfl : b = slash := by simpa [isAbsolute] using absolute
      exact ⟨properOf r, fun c => isProper_of_mem_properOf, components_slash r⟩
  · rintro ⟨cs, -, read⟩
    cases absolute : p.isAbsolute with
    | true => rfl
    | false => exact absurd (read ▸ List.mem_cons_self) (root_not_mem_of_relative absolute)

/-! ### Paths made of components -/

/-- Components as they can be those of a path. -/
inductive IsSpelled : List Component → Prop
  | rooted {cs : List Component} (proper : ∀ c ∈ cs, c.IsProper) : IsSpelled (.root :: cs)
  | here {cs : List Component} (proper : ∀ c ∈ cs, c.IsProper) : IsSpelled (.here :: cs)
  | plain {cs : List Component} (proper : ∀ c ∈ cs, c.IsProper) : IsSpelled cs

theorem isSpelled_components (p : Path) : IsSpelled p.components := by
  have proper : ∀ c ∈ properOf p.bytes, c.IsProper := fun _ => isProper_of_mem_properOf
  unfold components
  dsimp only
  split
  · exact .rooted proper
  · split
    · exact .here proper
    · exact .plain proper

theorem IsSpelled.front {cs ds : List Component} (h : IsSpelled (cs ++ ds)) : IsSpelled cs := by
  have kept : ∀ {cs}, (∀ c ∈ cs ++ ds, c.IsProper) → ∀ c ∈ cs, c.IsProper :=
    fun proper c member => proper c (List.mem_append_left _ member)
  cases cs with
  | nil => exact .plain (by simp)
  | cons c cs =>
    generalize whole : c :: cs ++ ds = all at h
    cases h with
    | rooted proper =>
      obtain ⟨rfl, rfl⟩ := List.cons.inj whole
      exact .rooted (kept proper)
    | here proper =>
      obtain ⟨rfl, rfl⟩ := List.cons.inj whole
      exact .here (kept proper)
    | plain proper => exact .plain (kept (whole ▸ proper))

theorem fileName?_eq_some {p : Path} {n : Name} :
    p.fileName? = some n ↔ p.components.getLast? = some (.normal n) := by
  unfold fileName?
  split
  next m last => simp [last]
  next unnamed => exact ⟨nofun, fun last => absurd last (unnamed n)⟩

theorem IsSpelled.eq_nil_of_root {cs : List Component} (h : IsSpelled (cs ++ [.root])) :
    cs = [] := by
  have improper : ¬ Component.root.IsProper := fun proper => proper.whole List.mem_cons_self
  cases cs with
  | nil => rfl
  | cons c cs =>
    generalize whole : c :: cs ++ [Component.root] = all at h
    have last : ∀ {d ds}, c :: cs ++ [Component.root] = d :: ds → Component.root ∈ ds := by
      rintro d ds same
      exact (List.cons.inj same).2 ▸ List.mem_append_right _ (List.mem_singleton_self _)
    cases h with
    | rooted proper => exact absurd (proper _ (last whole)) improper
    | here proper => exact absurd (proper _ (last whole)) improper
    | plain proper => exact absurd (proper .root (by simp [← whole])) improper

/-- Proper components are the names between the slashes of the path that is made of them. -/
theorem names_ofComponents {cs : List Component} (h : ∀ c ∈ cs, c.IsProper) (some : cs ≠ []) :
    (ofComponents cs).names = cs.map Component.bytes := by
  induction cs with
  | nil => exact absurd rfl some
  | cons c cs ih =>
    obtain ⟨proper, more⟩ := List.forall_mem_cons.mp h
    have unrooted : c ≠ .root := by
      rintro rfl
      exact proper.whole List.mem_cons_self
    cases cs with
    | nil =>
      have last : ofComponents [c] = ⟨c.bytes⟩ := by cases c <;> rfl
      rw [last, names, splitAtEach_of_not_mem proper.whole]
      rfl
    | cons d cs =>
      have front : ofComponents (c :: d :: cs) =
          ⟨c.bytes ++ slash :: (ofComponents (d :: cs)).bytes⟩ := by
        cases c <;> first | rfl | exact absurd rfl unrooted
      rw [front, names, splitAtEach_append, splitAtEach_of_not_mem proper.whole, ← names,
        ih more (List.cons_ne_nil d cs)]
      rfl

theorem properOf_ofComponents {cs : List Component} (h : ∀ c ∈ cs, c.IsProper) :
    properOf (ofComponents cs).bytes = cs := by
  by_cases some : cs = []
  · subst some
    rfl
  · rw [properOf, ← names, names_ofComponents h some, List.filterMap_map]
    exact (List.filterMap_congr fun c hc => (h c hc).named).trans List.filterMap_some

theorem head?_names_of_isAbsolute {p : Path} (h : p.isAbsolute = true) :
    p.names.head? = some [] := by
  obtain ⟨_ | ⟨b, r⟩⟩ := p
  · cases h
  · obtain rfl : b = slash := by simpa [isAbsolute] using h
    rw [names, splitAtEach_cons_self]
    rfl

theorem components_of_relative {p : Path} (h : p.isAbsolute = false) :
    p.components =
      if p.names.head? = some [dot] then .here :: properOf p.bytes else properOf p.bytes := by
  simp only [components, h, Bool.false_eq_true, if_false]
  rfl

theorem components_ofComponents {cs : List Component} (h : IsSpelled cs) :
    (ofComponents cs).components = cs := by
  cases h with
  | @rooted cs proper => exact (components_slash _).trans (by rw [properOf_ofComponents proper])
  | @here cs proper =>
    cases cs with
    | nil => rfl
    | cons c cs =>
      have written : ofComponents (.here :: c :: cs) =
          ⟨[dot] ++ slash :: (ofComponents (c :: cs)).bytes⟩ := rfl
      have front : (ofComponents (.here :: c :: cs)).names.head? = some [dot] := by
        rw [written, names, splitAtEach_append]
        rfl
      rw [components_of_relative rfl, if_pos front, written, properOf_append_slash,
        properOf_ofComponents proper]
      rfl
  | plain proper =>
    cases cs with
    | nil => rfl
    | cons c cs =>
      have spelled := names_ofComponents proper (List.cons_ne_nil c cs)
      have front : (ofComponents (c :: cs)).names.head? = some c.bytes := by rw [spelled]; rfl
      have named := (proper c List.mem_cons_self).named
      have relative : (ofComponents (c :: cs)).isAbsolute = false := by
        cases absolute : (ofComponents (c :: cs)).isAbsolute with
        | false => rfl
        | true =>
          rw [head?_names_of_isAbsolute absolute, Option.some.injEq] at front
          rw [← front] at named
          cases named
      have other : c.bytes ≠ [dot] := by
        intro dotted
        rw [dotted] at named
        cases named
      rw [components_of_relative relative, front, if_neg (by simpa using other)]
      exact properOf_ofComponents proper

end LintBridge.Path
