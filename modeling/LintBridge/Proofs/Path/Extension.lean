import LintBridge.Path
import Mathlib.Data.List.TakeWhile

/-! The last dot of a name.  It divides the name into what `splitExtension` gives if something
stands before it, and then it is the only such place with no dot after it:
`splitExtension_eq_some`. -/

namespace LintBridge.Path

variable {n front back : Name}

theorem splitExtension_append (filled : front ≠ []) (last : dot ∉ back) :
    splitExtension (front ++ dot :: back) = (front, some back) := by
  have turned : (front ++ dot :: back).reverse = back.reverse ++ dot :: front.reverse := by simp
  have each : ∀ b ∈ back.reverse, (b != dot) = true := by
    intro b member
    exact bne_iff_ne.mpr fun same => last (same ▸ List.mem_reverse.mp member)
  obtain ⟨b, before, split⟩ := List.exists_cons_of_ne_nil (mt List.reverse_eq_nil_iff.mp filled)
  have found : (dot :: front.reverse).dropWhile (· != dot) = dot :: b :: before := by
    rw [split]
    rfl
  have stops : (dot :: front.reverse).takeWhile (· != dot) = [] := rfl
  rw [splitExtension, turned, List.takeWhile_append_of_pos each, List.dropWhile_append_of_pos each,
    found, stops]
  dsimp only
  rw [← split, List.append_nil, List.reverse_reverse, List.reverse_reverse]

/-- A name is divided at a dot with no other dot after it and with something before it. -/
theorem splitExtension_eq_some : splitExtension n = (front, some back) ↔
    n = front ++ dot :: back ∧ front ≠ [] ∧ dot ∉ back := by
  constructor
  · intro split
    have whole := List.takeWhile_append_dropWhile (p := (· != dot)) (l := n.reverse)
    have last : dot ∉ n.reverse.takeWhile (· != dot) := fun inside => by
      simpa using List.mem_takeWhile_imp inside
    have head := List.head?_dropWhile_not (· != dot) n.reverse
    unfold splitExtension at split
    dsimp only at split
    split at split
    next mark b before found =>
      obtain ⟨rfl, rfl⟩ : (b :: before).reverse = front ∧
          (n.reverse.takeWhile (· != dot)).reverse = back := by simpa using split
      rw [found] at head whole
      obtain rfl : mark = dot := by simpa using head
      refine ⟨?_, by simp, fun inside => last (List.mem_reverse.mp inside)⟩
      rw [← List.reverse_inj, ← whole, List.reverse_append, List.reverse_cons]
      simp [whole]
    next => simp at split
  · rintro ⟨rfl, filled, last⟩
    exact splitExtension_append filled last

/-- A name that is not divided stays as it is. -/
theorem splitExtension_eq_none (undivided : (splitExtension n).2 = none) :
    splitExtension n = (n, none) := by
  unfold splitExtension at undivided ⊢
  dsimp only at undivided ⊢
  split at undivided
  next => cases undivided
  next => rfl

theorem exists_splitExtension (last : (splitExtension n).2 = some back) :
    ∃ front, splitExtension n = (front, some back) :=
  ⟨(splitExtension n).1, Prod.ext rfl last⟩

theorem extension?_eq_some {p : Path} : p.extension? = some back ↔
    ∃ front, p.fileName? = some (front ++ dot :: back) ∧ front ≠ [] ∧ dot ∉ back := by
  rw [extension?, Option.bind_eq_some_iff]
  constructor
  · rintro ⟨n, named, last⟩
    obtain ⟨front, split⟩ := exists_splitExtension last
    obtain ⟨rfl, rest⟩ := splitExtension_eq_some.mp split
    exact ⟨front, named, rest⟩
  · rintro ⟨front, named, filled, last⟩
    exact ⟨_, named, congrArg Prod.snd (splitExtension_append filled last)⟩

/-- The stem of a path has an extension where its file name has two dots with no dot after either
of them but the other, and with something before them. -/
theorem stem?_extension_eq_some {p : Path} {middle : Name} :
    (p.stem?.bind fun stem => (splitExtension stem).2) = some middle ↔
      ∃ front back, p.fileName? = some (front ++ dot :: middle ++ dot :: back) ∧ front ≠ [] ∧
        dot ∉ middle ∧ dot ∉ back := by
  simp only [stem?, Option.bind_map, Option.bind_eq_some_iff, Function.comp_apply]
  constructor
  · rintro ⟨n, named, inner⟩
    cases outer : (splitExtension n).2 with
    | none =>
      rw [splitExtension_eq_none outer, outer] at inner
      cases inner
    | some back =>
      obtain ⟨stem, split⟩ := exists_splitExtension outer
      rw [split] at inner
      obtain ⟨front, split'⟩ := exists_splitExtension inner
      obtain ⟨rfl, -, plain'⟩ := splitExtension_eq_some.mp split
      obtain ⟨rfl, filled, plain⟩ := splitExtension_eq_some.mp split'
      exact ⟨front, back, named, filled, plain, plain'⟩
  · rintro ⟨front, back, named, filled, plain, plain'⟩
    have stem : front ++ dot :: middle ≠ [] := by simp
    exact ⟨_, named, by rw [splitExtension_append stem plain', splitExtension_append filled plain]⟩

end LintBridge.Path
