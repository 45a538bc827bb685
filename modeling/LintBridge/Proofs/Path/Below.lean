import LintBridge.Proofs.Path.Components
import LintBridge.Proofs.Text.Utf8
import Mathlib.Data.List.DropRight

/-! Paths below a directory.  A path is below a directory just if it starts with the components of
the directory, `isSome_below?`; what is then left of it has the other components and gives the path
back when it is joined to the directory, `below?_eq_some`.  What is left of a text is a text. -/

namespace LintBridge

open LintBridge.Text

namespace Text

variable {α : Type} [BEq α] [LawfulBEq α] {d : α}

theorem splitAtEach_cons_of_ne {c : α} (h : c ≠ d) (r : List α) :
    ∃ w ws, splitAtEach d r = w :: ws ∧ splitAtEach d (c :: r) = (c :: w) :: ws :=
  @splitWhere_cons_of_not_mark _ (· == d) c (beq_eq_false_iff_ne.mpr h) r

theorem splitAtEach_append_of_not_mem {s : List α} (whole : d ∉ s) (r : List α) :
    ∃ w ws, splitAtEach d r = w :: ws ∧ splitAtEach d (s ++ r) = (s ++ w) :: ws := by
  induction s with
  | nil =>
    have filled : splitAtEach d r ≠ [] := splitWhere_ne_nil r
    obtain ⟨w, ws, parts⟩ := List.exists_cons_of_ne_nil filled
    exact ⟨w, ws, parts, parts⟩
  | cons c s ih =>
    obtain ⟨other, rest⟩ := not_or.mp (List.mem_cons.not.mp whole)
    obtain ⟨w, ws, parts, longer⟩ := ih rest
    obtain ⟨v, vs, front, spread⟩ := splitAtEach_cons_of_ne (Ne.symm other) (s ++ r)
    obtain ⟨rfl, same⟩ := List.cons.inj (front.symm.trans longer)
    exact ⟨w, ws, parts, same ▸ spread⟩

/-- The items of a list that are no marks are those of its parts. -/
theorem exists_mem_splitAtEach {s : List α} {b : α} :
    (∃ part ∈ splitAtEach d s, b ∈ part) ↔ b ∈ s ∧ b ≠ d := by
  induction s with
  | nil => simp [splitAtEach, splitWhere]
  | cons c s ih =>
    by_cases same : c = d
    · subst same
      simp only [splitAtEach_cons_self, List.mem_cons, exists_eq_or_imp, List.not_mem_nil,
        false_or, ih]
      exact ⟨fun h => ⟨.inr h.1, h.2⟩, fun h => ⟨h.1.resolve_left h.2, h.2⟩⟩
    · obtain ⟨w, ws, parts, longer⟩ := splitAtEach_cons_of_ne same s
      simp only [parts, List.mem_cons, exists_eq_or_imp] at ih
      simp only [longer, List.mem_cons, exists_eq_or_imp, or_assoc, ih]
      constructor
      · rintro (rfl | h)
        · exact ⟨.inl rfl, same⟩
        · exact ⟨.inr h.1, h.2⟩
      · rintro ⟨rfl | h, other⟩
        · exact .inl rfl
        · exact .inr ⟨h, other⟩

namespace Utf8

/-- The only character with a slash in its octets is the slash. -/
theorem eq_of_mem_utf8EncodeChar {c : Char} {a : UInt8} (member : a ∈ String.utf8EncodeChar c)
    (ascii : a.toNat < 0x80) : String.utf8EncodeChar c = [a] ∧ c = Char.ofNat a.toNat := by
  obtain ⟨alone, number⟩ := (spellsChar_encode c).eq_singleton member ascii
  refine ⟨alone, ?_⟩
  rw [← number, Char.ofNat_toNat]

/-- Octets that encode a text. -/
def IsText (s : List UInt8) : Prop := ∃ t : List Char, s = encode t

theorem isText_append {s r : List UInt8} (hs : IsText s) (hr : IsText r) : IsText (s ++ r) := by
  obtain ⟨t, rfl⟩ := hs
  obtain ⟨u, rfl⟩ := hr
  exact ⟨t ++ u, (encode_append t u).symm⟩

theorem isText_iff {s : List UInt8} : IsText s ↔ ∃ t, strict? s = some t := by
  simp only [strict?_eq_some, ofString]
  constructor
  · rintro ⟨t, h⟩
    exact ⟨String.ofList t, by simpa using h⟩
  · rintro ⟨t, h⟩
    exact ⟨t.toList, h⟩

/-- The names between the slashes of a text are texts. -/
theorem isText_of_mem_splitAtEach {s : List UInt8} (text : IsText s) :
    ∀ n ∈ splitAtEach Path.slash s, IsText n := by
  obtain ⟨t, rfl⟩ := text
  induction t with
  | nil => simpa [encode, splitAtEach, splitWhere] using ⟨[], rfl⟩
  | cons c t ih =>
    rw [encode_cons]
    by_cases inside : Path.slash ∈ String.utf8EncodeChar c
    · obtain ⟨alone, -⟩ := eq_of_mem_utf8EncodeChar inside (by decide)
      rw [alone, List.singleton_append, splitAtEach_cons_self]
      exact List.forall_mem_cons.mpr ⟨⟨[], rfl⟩, ih⟩
    · obtain ⟨w, ws, parts, longer⟩ := splitAtEach_append_of_not_mem inside (encode t)
      rw [parts] at ih
      obtain ⟨first, more⟩ := List.forall_mem_cons.mp ih
      rw [longer]
      exact List.forall_mem_cons.mpr ⟨isText_append ⟨[c], by simp [encode]⟩ first, more⟩

end Utf8

end Text

namespace Path

/-! ### Joining -/

theorem components_of_isAbsolute {p : Path} (h : p.isAbsolute = true) :
    p.components = .root :: properOf p.bytes := by
  simp only [components, h, if_true]
  rfl

theorem isAbsolute_join {dir p : Path} (h : dir.isAbsolute = true) :
    (dir.join p).isAbsolute = true := by
  obtain ⟨_ | ⟨b, r⟩⟩ := dir
  · cases h
  · unfold join
    split
    next absolute => exact absolute
    next => split <;> exact h

theorem properOf_join {dir p : Path} (h : p.isAbsolute = false) (some : dir.bytes ≠ []) :
    properOf (dir.join p).bytes = properOf dir.bytes ++ properOf p.bytes := by
  simp only [join, h, Bool.false_eq_true, if_false, some, false_or]
  split
  next ends =>
    obtain ⟨front, split⟩ := List.getLast?_eq_some_iff.mp ends
    rw [split, List.append_assoc, List.singleton_append, properOf_append_slash,
      properOf_append_slash]
    simp [properOf, splitAtEach, splitWhere, Component.ofName?]
  next => exact properOf_append_slash _ _

theorem components_join {dir p : Path} (rooted : dir.isAbsolute = true)
    (h : p.isAbsolute = false) :
    (dir.join p).components = dir.components ++ properOf p.bytes := by
  have some : dir.bytes ≠ [] := by
    intro none
    rw [isAbsolute, none] at rooted
    cases rooted
  rw [components_of_isAbsolute (isAbsolute_join rooted), components_of_isAbsolute rooted,
    properOf_join h some, List.cons_append]

theorem join_of_isAbsolute {dir p : Path} (h : p.isAbsolute = true) : dir.join p = p := by
  rw [join, if_pos h]

/-! ### Names of a path -/

section Names

variable {names rest : List Name} {cs : List Component}

theorem prefix_dropTail (names : List Name) : dropTail names <+: names :=
  List.rdropWhile_prefix _ names

theorem filterMap_dropWhile (names : List Name) :
    (names.dropWhile (!isComponent ·)).filterMap Component.ofName? =
      names.filterMap Component.ofName? := by
  induction names with
  | nil => rfl
  | cons n names ih =>
    by_cases counts : isComponent n = true
    · rw [List.dropWhile_cons_of_neg (by simp [counts])]
    · have unnamed : Component.ofName? n = none := by simpa [isComponent] using counts
      rw [List.dropWhile_cons_of_pos (by simp [counts]), ih, List.filterMap_cons_none unnamed]

theorem filterMap_dropTail (names : List Name) :
    (dropTail names).filterMap Component.ofName? = names.filterMap Component.ofName? := by
  rw [dropTail, List.filterMap_reverse, filterMap_dropWhile, List.filterMap_reverse,
    List.reverse_reverse]

theorem filterMap_trimNames (names : List Name) :
    (trimNames names).filterMap Component.ofName? = names.filterMap Component.ofName? := by
  rw [trimNames, filterMap_dropTail, filterMap_dropWhile]

theorem subset_trimNames (names : List Name) : trimNames names ⊆ names :=
  fun _ member => (List.dropWhile_suffix _).subset ((prefix_dropTail _).subset member)

theorem isComponent_head_trimNames {n : Name} (first : (trimNames names).head? = some n) :
    isComponent n = true := by
  obtain ⟨back, split⟩ := prefix_dropTail (names.dropWhile (!isComponent ·))
  rw [trimNames] at first
  have head : (names.dropWhile (!isComponent ·)).head? = some n := by
    rw [← split, List.head?_append, first, Option.some_or]
  have counts := List.head?_dropWhile_not (!isComponent ·) names
  rw [head] at counts
  simpa using counts

/-- Names that are joined by slashes are the names of the path, if there are any. -/
theorem properOf_joinNames (whole : ∀ n ∈ names, slash ∉ n) :
    properOf (joinNames names).bytes = names.filterMap Component.ofName? := by
  cases names with
  | nil => rfl
  | cons n names =>
    have each : (n :: names).flatMap (splitAtEach slash) = n :: names := by
      rw [List.flatMap_congr fun m hm => splitAtEach_of_not_mem (whole m hm)]
      simp
    rw [properOf, joinNames, splitAtEach_intercalate (List.cons_ne_nil n names), each]

/-- Names the first of which is a component make a path that is relative and is not written with
`.` at its front. -/
theorem components_joinNames (whole : ∀ n ∈ names, slash ∉ n)
    (first : ∀ n, names.head? = some n → isComponent n = true) :
    (joinNames names).isAbsolute = false ∧
      (joinNames names).components = names.filterMap Component.ofName? := by
  have read := properOf_joinNames whole
  cases names with
  | nil => exact ⟨rfl, rfl⟩
  | cons n names =>
    have counts := first n rfl
    have spelled : (joinNames (n :: names)).names.head? = some n := by
      rw [Path.names, joinNames, splitAtEach_intercalate (List.cons_ne_nil n names),
        List.flatMap_cons, splitAtEach_of_not_mem (whole n List.mem_cons_self)]
      rfl
    have relative : (joinNames (n :: names)).isAbsolute = false := by
      cases absolute : (joinNames (n :: names)).isAbsolute with
      | false => rfl
      | true =>
        rw [head?_names_of_isAbsolute absolute, Option.some.injEq] at spelled
        rw [← spelled] at counts
        cases counts
    have other : n ≠ [dot] := by
      rintro rfl
      cases counts
    refine ⟨relative, ?_⟩
    rw [components_of_relative relative, spelled, if_neg (by simpa using other), read]

/-- Components that are read off leave the names that have the other ones. -/
theorem namesAfter?_eq_some (h : namesAfter? cs names = some rest) :
    names.filterMap Component.ofName? = cs ++ rest.filterMap Component.ofName? ∧
      rest ⊆ names := by
  induction names generalizing cs with
  | nil =>
    cases cs with
    | nil =>
      obtain rfl := Option.some.inj h
      exact ⟨rfl, List.Subset.refl _⟩
    | cons c cs => cases h
  | cons n names ih =>
    cases cs with
    | nil =>
      obtain rfl := Option.some.inj h
      exact ⟨rfl, List.Subset.refl _⟩
    | cons c cs =>
      rw [namesAfter?] at h
      cases named : Component.ofName? n with
      | none =>
        simp only [named] at h
        obtain ⟨read, within⟩ := ih h
        rw [List.filterMap_cons_none named, read]
        exact ⟨rfl, List.subset_cons_of_subset n within⟩
      | some d =>
        simp only [named] at h
        split at h
        next same =>
          obtain ⟨read, within⟩ := ih h
          rw [List.filterMap_cons_some named, read, same]
          exact ⟨rfl, List.subset_cons_of_subset n within⟩
        next => cases h

theorem isSome_namesAfter? :
    (namesAfter? cs names).isSome = true ↔ cs <+: names.filterMap Component.ofName? := by
  induction names generalizing cs with
  | nil => cases cs <;> simp [namesAfter?]
  | cons n names ih =>
    cases cs with
    | nil => simp [namesAfter?]
    | cons c cs =>
      rw [namesAfter?]
      cases named : Component.ofName? n with
      | none => rw [List.filterMap_cons_none named, ih]
      | some d =>
        rw [List.filterMap_cons_some named, List.cons_prefix_cons]
        by_cases same : c = d
        · simp only [same, if_true, true_and, ih]
        · simp [same]

end Names

/-! ### What is left below a directory -/

section Below

variable {dir p rest : Path}

theorem isAbsolute_of_components {cs : List Component} (h : p.components = .root :: cs) :
    p.isAbsolute = true := by
  cases absolute : p.isAbsolute with
  | true => rfl
  | false => exact absurd (h ▸ List.mem_cons_self) (root_not_mem_of_relative absolute)

theorem slash_not_mem_names (p : Path) : ∀ n ∈ p.names, slash ∉ n :=
  fun _ => not_mem_of_mem_splitAtEach

/-- What is left of a path has the components that follow those of the directory, and is relative
unless the directory is the empty path. -/
structure IsLeft (dir p rest : Path) : Prop where
  components : p.components = dir.components ++ rest.components
  rooted : rest.isAbsolute = false → dir.isAbsolute = true ∧
    rest.components = properOf rest.bytes
  empty : rest.isAbsolute = true → dir.components = []

theorem isLeft_of_below? (h : dir.below? p = some rest) : IsLeft dir p rest := by
  unfold below? at h
  split at h
  next absolute =>
    have read := components_of_isAbsolute absolute
    have slashed : p.names = [] :: p.names.tail := by
      have head := head?_names_of_isAbsolute absolute
      exact (List.cons_head?_tail head).symm
    split at h
    next none =>
      obtain rfl := Option.some.inj h
      have whole : ∀ n ∈ dropTail p.names.tail, slash ∉ n := fun n member =>
        slash_not_mem_names p n (List.mem_of_mem_tail ((prefix_dropTail _).subset member))
      refine ⟨?_, fun relative => Bool.noConfusion relative, fun _ => none⟩
      rw [none, components_slash, properOf_joinNames whole, filterMap_dropTail, read, properOf,
        ← names, slashed]
      rfl
    next cs rooted =>
      obtain ⟨left, after, rfl⟩ := Option.map_eq_some_iff.mp h
      obtain ⟨split, within⟩ := namesAfter?_eq_some after
      have whole : ∀ n ∈ trimNames left, slash ∉ n := fun n member =>
        slash_not_mem_names p n (within (subset_trimNames left member))
      obtain ⟨relative, components⟩ :=
        components_joinNames whole fun n first => isComponent_head_trimNames first
      refine ⟨?_, fun _ => ⟨isAbsolute_of_components rooted, ?_⟩, ?_⟩
      · rw [Function.comp_apply, components, filterMap_trimNames, rooted, List.cons_append,
          ← split]
        exact read
      · rw [Function.comp_apply, components, properOf_joinNames whole]
      · rw [Function.comp_apply, relative]
        exact fun absolute => Bool.noConfusion absolute
    next => cases h
  next => cases h

/-- A path is below a directory just if it starts with its components. -/
theorem isSome_below? (absolute : p.isAbsolute = true) :
    (dir.below? p).isSome = true ↔ dir.components <+: p.components := by
  rw [below?, if_pos absolute, components_of_isAbsolute absolute]
  split
  next none => simp [none]
  next cs rooted =>
    rw [rooted, List.cons_prefix_cons, Option.isSome_map, isSome_namesAfter?]
    exact ⟨fun h => ⟨rfl, h⟩, And.right⟩
  next some unrooted =>
    obtain ⟨c, cs, spelled⟩ := List.exists_cons_of_ne_nil some
    rw [spelled, List.cons_prefix_cons]
    refine ⟨fun isSome => Bool.noConfusion isSome, fun both => ?_⟩
    exact absurd (both.1 ▸ spelled) (unrooted cs)

theorem IsLeft.join (left : IsLeft dir p rest) : (dir.join rest).components = p.components := by
  cases absolute : rest.isAbsolute with
  | true =>
    rw [join_of_isAbsolute absolute, left.components, left.empty absolute, List.nil_append]
  | false =>
    obtain ⟨rooted, read⟩ := left.rooted absolute
    rw [components_join rooted absolute, left.components, read]

theorem isText_joinNames {names : List Name} (texts : ∀ n ∈ names, Utf8.IsText n) :
    Utf8.IsText (joinNames names).bytes := by
  induction names with
  | nil => exact ⟨[], rfl⟩
  | cons n names ih =>
    obtain ⟨first, more⟩ := List.forall_mem_cons.mp texts
    cases names with
    | nil => simpa [joinNames] using first
    | cons m names =>
      rw [joinNames, List.intercalate_cons_cons, List.append_assoc]
      exact Utf8.isText_append first (Utf8.isText_append ⟨['/'], by decide⟩ (ih more))

/-- What is left of a text is a text. -/
theorem isText_below? (h : dir.below? p = some rest) (text : Utf8.IsText p.bytes) :
    Utf8.IsText rest.bytes := by
  have texts : ∀ n ∈ p.names, Utf8.IsText n := Utf8.isText_of_mem_splitAtEach text
  unfold below? at h
  split at h
  next =>
    split at h
    next =>
      obtain rfl := Option.some.inj h
      refine Utf8.isText_append (s := [slash]) ⟨['/'], by decide⟩ (isText_joinNames ?_)
      exact fun n member => texts n (List.mem_of_mem_tail ((prefix_dropTail _).subset member))
    next =>
      obtain ⟨left, after, rfl⟩ := Option.map_eq_some_iff.mp h
      have within := (namesAfter?_eq_some after).2
      exact isText_joinNames fun n member => texts n (within (subset_trimNames left member))
    next => cases h
  next => cases h

end Below

/-! ### Octets of components -/

section Octets

variable {b : UInt8}

theorem exists_mem_properOf (noSlash : b ≠ slash) (noDot : b ≠ dot) {s : List UInt8} :
    (∃ c ∈ properOf s, b ∈ c.bytes) ↔ b ∈ s := by
  have parts := exists_mem_splitAtEach (d := slash) (s := s) (b := b)
  rw [and_iff_left noSlash] at parts
  rw [← parts]
  constructor
  · rintro ⟨c, member, inside⟩
    obtain ⟨n, within, named⟩ := List.mem_filterMap.mp member
    rw [Component.bytes_of_ofName? named] at inside
    exact ⟨n, within, inside⟩
  · rintro ⟨n, within, inside⟩
    have filled : n ≠ [] := List.ne_nil_of_mem inside
    have other : n ≠ [dot] := by
      rintro rfl
      exact noDot (List.mem_singleton.mp inside)
    obtain ⟨c, named⟩ : ∃ c, Component.ofName? n = some c := by
      unfold Component.ofName?
      rw [if_neg (not_or.mpr ⟨filled, other⟩)]
      split <;> exact ⟨_, rfl⟩
    refine ⟨c, List.mem_filterMap.mpr ⟨n, within, named⟩, ?_⟩
    rwa [Component.bytes_of_ofName? named]

/-- The octets of a path are those of its components, slashes and dots apart. -/
theorem exists_mem_components (noSlash : b ≠ slash) (noDot : b ≠ dot) {p : Path} :
    (∃ c ∈ p.components, b ∈ c.bytes) ↔ b ∈ p.bytes := by
  rw [← exists_mem_properOf noSlash noDot]
  cases absolute : p.isAbsolute with
  | true =>
    rw [components_of_isAbsolute absolute]
    simp [Component.bytes, noSlash]
  | false =>
    rw [components_of_relative absolute]
    split <;> simp [Component.bytes, noDot]

end Octets

end Path

end LintBridge
