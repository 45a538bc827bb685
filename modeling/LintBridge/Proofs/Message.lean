import LintBridge.Catalog
import LintBridge.Message
import LintBridge.Proofs.Text.Trim
import Mathlib.Data.List.TakeWhile

/-! What is left of the text of a diagnostic.  `IsEnding` is what the linter puts at its end: a rule
key in parentheses, and perhaps white space.  `Strips` says what is left without it: what stands
before the white space in front of it, of which one character stays if there is nothing else, and
the whole text if it has no such ending or nothing before it.  `core_strips` says that this is what
`core` leaves, and that no less could be left. -/

namespace LintBridge.Message

open LintBridge.Text

/-- A rule key of the linter: small letters and hyphens. -/
structure IsKey (k : List Char) : Prop where
  some : k ≠ []
  letters : ∀ c ∈ k, 'a' ≤ c ∧ c ≤ 'z' ∨ c = '-'

/-- A rule key in parentheses, and white space after it. -/
inductive IsEnding : List Char → Prop
  | intro {k w : List Char} (key : IsKey k) (blank : w.all isBlank = true) :
      IsEnding ('(' :: (k ++ ')' :: w))

/-- A text consists of something, white space, and an ending. -/
def IsBody (text body : List Char) : Prop :=
  body ≠ [] ∧ ∃ w e, w.all isBlank = true ∧ IsEnding e ∧ text = body ++ (w ++ e)

/-- What is left of a text. -/
inductive Strips : List Char → List Char → Prop
  | ending {m w e : List Char} {c : Char} (last : m.getLast? = some c) (visible : isBlank c = false)
      (blank : w.all isBlank = true) (ending : IsEnding e) : Strips (m ++ (w ++ e)) m
  | blank {c : Char} {w e : List Char} (first : isBlank c = true) (blank : w.all isBlank = true)
      (ending : IsEnding e) : Strips (c :: (w ++ e)) [c]
  | whole {s : List Char} (other : ∀ p e, p ≠ [] → IsEnding e → s ≠ p ++ e) : Strips s s

/-! ### White space -/

theorem dropBlanks_cons {c : Char} {r : List Char} (blank : isBlank c = true) (some : r ≠ []) :
    dropBlanks (c :: r) = dropBlanks r := by
  obtain ⟨d, r, rfl⟩ := List.exists_cons_of_ne_nil some
  rw [dropBlanks, if_pos blank]

/-- White space in front does not count if something follows it. -/
theorem dropBlanks_append {w r : List Char} (blank : w.all isBlank = true) (some : r ≠ []) :
    dropBlanks (w ++ r) = dropBlanks r := by
  induction w with
  | nil => rfl
  | cons c w ih =>
    rw [List.all_cons, Bool.and_eq_true] at blank
    have more : w ++ r ≠ [] := List.append_ne_nil_of_right_ne_nil w some
    rw [List.cons_append, dropBlanks_cons blank.1 more, ih blank.2]

theorem dropBlanks_of_visible {c : Char} {r : List Char} (visible : isBlank c = false) :
    dropBlanks (c :: r) = c :: r := by
  cases r with
  | nil => rfl
  | cons d r => rw [dropBlanks, if_neg (Bool.eq_false_iff.mp visible)]

theorem dropBlanks_suffix (r : List Char) : dropBlanks r <:+ r := by
  fun_induction dropBlanks r with
  | case1 => exact List.suffix_rfl
  | case2 c => exact List.suffix_rfl
  | case3 c d r blank ih => exact ih.trans (List.suffix_cons c (d :: r))
  | case4 c d r visible => exact List.suffix_rfl

/-! ### Endings -/

theorem isKeyChar_iff {c : Char} : isKeyChar c = true ↔ 'a' ≤ c ∧ c ≤ 'z' ∨ c = '-' := by
  have lower : c.isLower = (decide ('a' ≤ c) && decide (c ≤ 'z')) := rfl
  rw [isKeyChar, lower]
  simp

theorem IsKey.all {k : List Char} (h : IsKey k) : ∀ c ∈ k.reverse, isKeyChar c = true :=
  fun c member => isKeyChar_iff.mpr (h.letters c (List.mem_reverse.mp member))

/-- Reading backwards, what stands before an ending is found, whatever it is. -/
theorem beforeKey?_append {p e : List Char} (ending : IsEnding e) :
    beforeKey? (p ++ e).reverse = if p = [] then none else some (dropBlanks p.reverse) := by
  obtain ⟨key, blank⟩ := ending
  rename_i k w
  have reversed : (p ++ '(' :: (k ++ ')' :: w)).reverse =
      w.reverse ++ ')' :: (k.reverse ++ '(' :: p.reverse) := by simp
  have blanks : ∀ c ∈ w.reverse, isBlank c = true :=
    fun c member => List.all_eq_true.mp blank c (List.mem_reverse.mp member)
  have visible : isBlank ')' = false := by decide
  have dropped : (w.reverse ++ ')' :: (k.reverse ++ '(' :: p.reverse)).dropWhile isBlank =
      ')' :: (k.reverse ++ '(' :: p.reverse) := by
    rw [List.dropWhile_append_of_pos blanks, List.dropWhile_cons_of_neg (by simp [visible])]
  have stop : isKeyChar '(' = false := by decide
  have taken : (k.reverse ++ '(' :: p.reverse).takeWhile isKeyChar = k.reverse := by
    rw [List.takeWhile_append_of_pos key.all, List.takeWhile_cons_of_neg (by simp [stop]),
      List.append_nil]
  have left : (k.reverse ++ '(' :: p.reverse).dropWhile isKeyChar = '(' :: p.reverse := by
    rw [List.dropWhile_append_of_pos key.all, List.dropWhile_cons_of_neg (by simp [stop])]
  have some : k.reverse ≠ [] := mt List.reverse_eq_nil_iff.mp key.some
  obtain ⟨c, tail, some⟩ := List.exists_cons_of_ne_nil some
  rw [beforeKey?, reversed, dropped]
  simp only [taken, left]
  rw [some]
  cases before : p.reverse with
  | nil =>
    rw [if_pos (List.reverse_eq_nil_iff.mp before)]
    rfl
  | cons d q =>
    have nonempty : p ≠ [] := by
      rintro rfl
      cases before
    rw [if_neg nonempty]
    rfl

/-- If something is found to stand before an ending, there is an ending. -/
theorem exists_of_beforeKey? {s q : List Char} (h : beforeKey? s.reverse = some q) :
    ∃ p e, p ≠ [] ∧ IsEnding e ∧ s = p ++ e := by
  unfold beforeKey? at h
  split at h
  next r dropped =>
    split at h
    next c tail d before taken left =>
      have blank : (s.reverse.takeWhile isBlank).reverse.all isBlank = true := by
        rw [List.all_reverse]
        exact List.all_takeWhile
      have key : IsKey (r.takeWhile isKeyChar).reverse := by
        refine ⟨by simp [taken], fun c member => ?_⟩
        exact isKeyChar_iff.mp (List.mem_takeWhile_imp (List.mem_reverse.mp member))
      refine ⟨(d :: before).reverse, _, by simp, .intro key blank, ?_⟩
      have split : s.reverse = s.reverse.takeWhile isBlank ++
          ')' :: (r.takeWhile isKeyChar ++ '(' :: d :: before) := by
        rw [← left, List.takeWhile_append_dropWhile, ← dropped, List.takeWhile_append_dropWhile]
      have back := congrArg List.reverse split
      rw [List.reverse_reverse] at back
      exact back.trans (by simp)
    next => cases h
  next => cases h

/-! ### What is left -/

theorem core_of_ending {p e : List Char} (some : p ≠ []) (ending : IsEnding e) {text : String}
    (split : text.toList = p ++ e) : (core text).toList = (dropBlanks p.reverse).reverse := by
  rw [core, split, beforeKey?_append ending, if_neg some]
  exact String.toList_ofList

theorem core_of_other {text : String} (other : ∀ p e, p ≠ [] → IsEnding e → text.toList ≠ p ++ e) :
    core text = text := by
  cases found : beforeKey? text.toList.reverse with
  | none => rw [core, found]
  | some q =>
    obtain ⟨p, e, nonempty, ending, split⟩ := exists_of_beforeKey? found
    exact absurd split (other p e nonempty ending)

theorem Strips.core_eq {text : String} {left : List Char} (h : Strips text.toList left) :
    left = (core text).toList := by
  generalize same : text.toList = s at h
  cases h with
  | @ending _ w e c last visible blank ending =>
    have some : left ≠ [] := by
      rintro rfl
      cases last
    have reversed : left.reverse.head? = Option.some c := by rwa [List.head?_reverse]
    obtain ⟨tail, back⟩ := List.head?_eq_some_iff.mp reversed
    rw [← List.append_assoc] at same
    rw [core_of_ending (List.append_ne_nil_of_left_ne_nil some w) ending same, List.reverse_append,
      dropBlanks_append (by rwa [List.all_reverse]) (by simp [back]), back,
      dropBlanks_of_visible visible, ← back, List.reverse_reverse]
  | @blank c w e first blank ending =>
    rw [← List.cons_append] at same
    rw [core_of_ending (List.cons_ne_nil c w) ending same, List.reverse_cons,
      dropBlanks_append (by rwa [List.all_reverse]) (List.cons_ne_nil c [])]
    rfl
  | whole other =>
    subst same
    rw [core_of_other other]

theorem strips_core (text : String) : Strips text.toList (core text).toList := by
  by_cases ends : ∃ p e, p ≠ [] ∧ IsEnding e ∧ text.toList = p ++ e
  · obtain ⟨p, e, some, ending, split⟩ := ends
    have strips : ∃ left, Strips text.toList left := by
      obtain ⟨w, blank, trimmed⟩ := exists_trimEndChars p
      cases last : (trimEndChars p).getLast? with
      | none =>
        rw [List.getLast?_eq_none_iff.mp last, List.nil_append] at trimmed
        subst trimmed
        obtain ⟨c, w, rfl⟩ := List.exists_cons_of_ne_nil some
        rw [List.all_cons, Bool.and_eq_true] at blank
        exact ⟨[c], split ▸ .blank blank.1 blank.2 ending⟩
      | some c =>
        have visible := getLast?_trimEndChars p c last
        rw [trimmed, List.append_assoc] at split
        exact ⟨trimEndChars p, split ▸ .ending last visible blank ending⟩
    obtain ⟨left, strips⟩ := strips
    rw [← strips.core_eq]
    exact strips
  · simp only [not_exists, not_and] at ends
    rw [core_of_other ends]
    exact .whole ends

/-- Nothing shorter than what is left could stand before the white space and the ending. -/
theorem core_prefix_of_isBody {text : String} {body : List Char} (h : IsBody text.toList body) :
    (core text).toList <+: body := by
  obtain ⟨some, w, e, blank, ending, split⟩ := h
  rw [← List.append_assoc] at split
  rw [core_of_ending (List.append_ne_nil_of_left_ne_nil some w) ending split, List.reverse_append,
    dropBlanks_append (by rwa [List.all_reverse]) (mt List.reverse_eq_nil_iff.mp some),
    ← List.reverse_suffix, List.reverse_reverse]
  exact dropBlanks_suffix body.reverse

theorem core_prefix (text : String) : (core text).toList <+: text.toList := by
  have strips := strips_core text
  generalize text.toList = s, (core text).toList = left at strips ⊢
  cases strips with
  | ending => exact List.prefix_append _ _
  | blank => exact List.prefix_append [_] _
  | whole => exact List.prefix_rfl

theorem core_ne_empty {text : String} (some : text ≠ "") : core text ≠ "" := by
  have strips := strips_core text
  rw [← String.toList_eq_nil_iff.ne] at some ⊢
  generalize text.toList = s, (core text).toList = left at some strips ⊢
  cases strips with
  | ending last =>
    rintro rfl
    cases last
  | blank => exact List.cons_ne_nil _ []
  | whole => exact some

theorem isKey_linterKey : ∀ entry ∈ catalog, IsKey entry.linterKey.toList := by
  intro entry member
  have each : (catalog.all fun entry =>
      !entry.linterKey.toList.isEmpty && entry.linterKey.toList.all isKeyChar) = true := by
    decide +kernel
  have own := List.all_eq_true.mp each entry member
  rw [Bool.and_eq_true, List.all_eq_true] at own
  exact ⟨by simpa using own.1, fun c letter => isKeyChar_iff.mp (own.2 c letter)⟩

/-- What is left of the text of a diagnostic is what `Strips` says, and nothing shorter could stand
before an ending.  It is a prefix of the text, and not empty unless the text is.  Every rule of the
catalog has a key that is dropped with its ending. -/
theorem core_strips (text : String) :
    (∀ left, Strips text.toList left ↔ left = (core text).toList) ∧
    (∀ body, IsBody text.toList body → (core text).toList <+: body) ∧
    (core text).toList <+: text.toList ∧ (text ≠ "" → core text ≠ "") ∧
    ∀ entry ∈ catalog, IsKey entry.linterKey.toList := by
  refine ⟨fun left => ⟨Strips.core_eq, ?_⟩, fun _ => core_prefix_of_isBody, core_prefix text,
    core_ne_empty, isKey_linterKey⟩
  rintro rfl
  exact strips_core text

/-- One ending is dropped, and another one before it stays. -/
example : core " a\n(b) (block-no-empty)\t" = " a\n(b)" := by decide

end LintBridge.Message
