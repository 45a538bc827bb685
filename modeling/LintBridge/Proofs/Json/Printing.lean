import LintBridge.Json.Printer
import LintBridge.Proofs.Json.Grammar
import Mathlib.Data.Nat.Digits.Defs

/-! What is printed is JSON.  Both ways to print a value spell that value, `isDocument_compact` and
`isDocument_pretty`: every character of a string is written as an element that stands for it, and
every number by its digits.  Only a number that is kept as it was written has to be a number. -/

namespace LintBridge.Json

open LintBridge.Text

/-! ### Numbers -/

theorem natOfDigits_natChars (n : Nat) : natOfDigits (natChars n) = n :=
  Nat.ofDigitChars_toDigits (by decide) (by decide)

/-- A number above zero is not written with a zero in front. -/
theorem head?_natChars {n : Nat} (h : n ≠ 0) : (natChars n).head? ≠ some '0' := by
  induction n using Nat.strongRecOn with
  | ind n ih =>
    by_cases small : n < 10
    · rw [natChars, Nat.toDigits_of_lt_base small]
      intro zero
      have digit := Nat.toNat_digitChar_of_lt_ten small
      rw [Option.some.inj zero] at digit
      have same : 48 = 48 + n := digit
      omega
    · -- the first of several digits is the first one of the tenth part
      have shorter := ih (n / 10) (by omega) (by omega)
      rw [natChars, Nat.toDigits_of_base_le (by decide) (by omega),
        List.head?_append_of_ne_nil _ Nat.toDigits_ne_nil]
      exact shorter

theorem isWhole_natChars (n : Nat) : IsWhole (natChars n) := by
  refine ⟨⟨Nat.toDigits_ne_nil, fun c => Nat.isDigit_of_mem_toDigits (by decide) (by decide)⟩, ?_⟩
  intro zero
  by_cases none : n = 0
  · rw [none]
    rfl
  · exact absurd zero (head?_natChars none)

theorem spellsNumber_natChars (n : Nat) : SpellsNumber (.nat n) (natChars n) := by
  have spelled := SpellsNumber.plain (isWhole_natChars n)
  rwa [natOfDigits_natChars] at spelled

/-! ### Strings -/

/-- The code of a control character spells it. -/
theorem readHex4?_control {n : Nat} (h : n < 32) :
    readHex4? ['0', '0', hexChar (n / 16), hexChar (n % 16)] = some (n, []) ∧ isHalf n = false := by
  have each : ∀ n < 32, readHex4? ['0', '0', hexChar (n / 16), hexChar (n % 16)] = some (n, []) ∧
      isHalf n = false := by decide
  exact each n h

theorem spellsElement_escapeChar (c : Char) : SpellsElement (.char c) (escapeChar c) := by
  unfold escapeChar
  split_ifs with quote slash back feed line return_ tab control
  · exact .escape (by rw [eq_of_beq quote]; rfl)
  · exact .escape (by rw [eq_of_beq slash]; rfl)
  · exact .escape (by rw [eq_of_beq back]; rfl)
  · exact .escape (by rw [eq_of_beq feed]; rfl)
  · exact .escape (by rw [eq_of_beq line]; rfl)
  · exact .escape (by rw [eq_of_beq return_]; rfl)
  · exact .escape (by rw [eq_of_beq tab]; rfl)
  · obtain ⟨read, whole⟩ := readHex4?_control control
    have spelled := SpellsElement.code read whole
    rwa [Char.ofNat_toNat] at spelled
  · exact .plain (by omega) (mt beq_of_eq quote) (mt beq_of_eq slash)

theorem denotes_chars (s : List Char) : Denotes (s.map .char) s := by
  induction s with
  | nil => exact .nil
  | cons c s ih => exact .char c ih

/-- A string is written as what stands for it, also one that is no text. -/
theorem spellsText_quoted (t : Text) : SpellsText t (quoted t) := by
  cases t with
  | some s =>
    have pieces : List.Forall₂ SpellsElement (s.toList.map .char) (s.toList.map escapeChar) := by
      rw [List.forall₂_map_left_iff, List.forall₂_map_right_iff]
      exact List.forall₂_same.mpr fun c _ => spellsElement_escapeChar c
    have denoted : DenotesText (s.toList.map .char) (some s) := denotes_chars s.toList
    have spelled := SpellsText.quoted pieces denoted
    rwa [← List.flatMap_def] at spelled
  | none =>
    have piece : SpellsElement (.unit 0xD800) ['\\', 'u', 'd', '8', '0', '0'] :=
      .half (by decide) (by decide)
    have alone : DenotesText [.unit 0xD800] none := fun chars denoted => nomatch denoted
    have written : quoted none = '"' :: ([['\\', 'u', 'd', '8', '0', '0']].flatten ++ ['"']) := by
      show "\"\\ud800\"".toList = _
      simp only [String.reduceToList]
      rfl
    rw [written]
    exact .quoted (.cons piece .nil) alone

/-! ### Values -/

theorem isSpaces_nil : IsSpaces [] := nofun

theorem isSpaces_space : IsSpaces [' '] := by simp [IsSpaces, isSpace]

theorem isSpaces_newLine (depth : Nat) : IsSpaces (Value.newLine depth) := by
  intro c member
  rcases List.mem_cons.mp member with rfl | indent
  · rfl
  · rw [List.eq_of_mem_replicate indent]
    rfl

/-- A member as it is printed, with or without a space before the value. -/
theorem spells_member {m : Text × Value} {w s : List Char} (hw : IsSpaces w)
    (value : Spells (.value m.2) s) : Spells (.member m) (quoted m.1 ++ ':' :: (w ++ s)) :=
  .member (spellsText_quoted m.1) isSpaces_nil hw value

namespace Value

mutual

/-- Each number in a value is one as it is written. -/
def HasNumbers : Value → Prop
  | .number n => SpellsNumber n n.chars
  | .array items => ItemsHaveNumbers items
  | .object members => MembersHaveNumbers members
  | .null | .bool _ | .string _ => True

def ItemsHaveNumbers : List Value → Prop
  | [] => True
  | v :: vs => v.HasNumbers ∧ ItemsHaveNumbers vs

def MembersHaveNumbers : List (Text × Value) → Prop
  | [] => True
  | m :: ms => m.2.HasNumbers ∧ MembersHaveNumbers ms

end

theorem itemsHaveNumbers_of_forall {vs : List Value} (h : ∀ v ∈ vs, v.HasNumbers) :
    ItemsHaveNumbers vs := by
  induction vs with
  | nil => trivial
  | cons v vs ih => exact ⟨h v List.mem_cons_self, ih fun w member => h w (.tail v member)⟩

theorem membersHaveNumbers_of_forall {ms : List (Text × Value)} (h : ∀ m ∈ ms, m.2.HasNumbers) :
    MembersHaveNumbers ms := by
  induction ms with
  | nil => trivial
  | cons m ms ih => exact ⟨h m List.mem_cons_self, ih fun x member => h x (.tail m member)⟩

mutual

theorem spells_compactChars : ∀ {v : Value}, v.HasNumbers → Spells (.value v) v.compactChars
  | .null, _ => .nullWord
  | .bool true, _ => .trueWord
  | .bool false, _ => .falseWord
  | .number _, numbers => .number numbers
  | .string t, _ => .string (spellsText_quoted t)
  | .array [], _ => .emptyArray isSpaces_nil
  | .array (_ :: _), numbers =>
    .array isSpaces_nil (spells_compactChars numbers.1) (spells_compactItems numbers.2)
  | .object [], _ => .emptyObject isSpaces_nil
  | .object (m :: ms), numbers => by
    have first := spells_member isSpaces_nil (spells_compactChars numbers.1)
    have spelled := Spells.object isSpaces_nil first (spells_compactMembers numbers.2)
    simpa only [compactChars, List.append_assoc, List.cons_append, List.nil_append] using spelled

theorem spells_compactItems : ∀ {vs : List Value}, ItemsHaveNumbers vs →
    Spells (.items vs) (compactItems vs)
  | [], _ => .endItems isSpaces_nil
  | _ :: _, numbers =>
    .items isSpaces_nil isSpaces_nil (spells_compactChars numbers.1)
      (spells_compactItems numbers.2)

theorem spells_compactMembers : ∀ {ms : List (Text × Value)}, MembersHaveNumbers ms →
    Spells (.members ms) (compactMembers ms)
  | [], _ => .endMembers isSpaces_nil
  | m :: ms, numbers => by
    have first := spells_member isSpaces_nil (spells_compactChars numbers.1)
    have spelled := Spells.members isSpaces_nil isSpaces_nil first
      (spells_compactMembers numbers.2)
    simpa only [compactMembers, List.append_assoc, List.cons_append, List.nil_append]
      using spelled

end

mutual

theorem spells_prettyChars : ∀ {v : Value} (depth : Nat), v.HasNumbers →
    Spells (.value v) (v.prettyChars depth)
  | .null, _, _ => .nullWord
  | .bool true, _, _ => .trueWord
  | .bool false, _, _ => .falseWord
  | .number _, _, numbers => .number numbers
  | .string t, _, _ => .string (spellsText_quoted t)
  | .array [], _, _ => .emptyArray isSpaces_nil
  | .array (_ :: _), depth, numbers => by
    have spelled := Spells.array (isSpaces_newLine (depth + 1))
      (spells_prettyChars (depth + 1) numbers.1) (spells_prettyItems depth numbers.2)
    simpa only [prettyChars, List.append_assoc, List.cons_append, List.nil_append] using spelled
  | .object [], _, _ => .emptyObject isSpaces_nil
  | .object (m :: ms), depth, numbers => by
    have first := spells_member isSpaces_space (spells_prettyChars (depth + 1) numbers.1)
    have spelled := Spells.object (isSpaces_newLine (depth + 1)) first
      (spells_prettyMembers depth numbers.2)
    simpa only [prettyChars, List.append_assoc, List.cons_append, List.nil_append] using spelled

theorem spells_prettyItems : ∀ {vs : List Value} (depth : Nat), ItemsHaveNumbers vs →
    Spells (.items vs) (prettyItems depth vs)
  | [], depth, _ => .endItems (isSpaces_newLine depth)
  | _ :: _, depth, numbers => by
    have spelled := Spells.items isSpaces_nil (isSpaces_newLine (depth + 1))
      (spells_prettyChars (depth + 1) numbers.1) (spells_prettyItems depth numbers.2)
    simpa only [prettyItems, List.append_assoc, List.cons_append, List.nil_append] using spelled

theorem spells_prettyMembers : ∀ {ms : List (Text × Value)} (depth : Nat), MembersHaveNumbers ms →
    Spells (.members ms) (prettyMembers depth ms)
  | [], depth, _ => .endMembers (isSpaces_newLine depth)
  | m :: ms, depth, numbers => by
    have first := spells_member isSpaces_space (spells_prettyChars (depth + 1) numbers.1)
    have spelled := Spells.members isSpaces_nil (isSpaces_newLine (depth + 1)) first
      (spells_prettyMembers depth numbers.2)
    simpa only [prettyMembers, List.append_assoc, List.cons_append, List.nil_append] using spelled

end

/-- A value in one line is a document of just this value. -/
theorem isDocument_compact {v : Value} (h : v.HasNumbers) : IsDocument v.compact v :=
  ⟨[], _, [], isSpaces_nil, isSpaces_nil, spells_compactChars h, by simp [compact]⟩

/-- A value laid out over lines is a document of just this value. -/
theorem isDocument_pretty {v : Value} (h : v.HasNumbers) : IsDocument v.pretty v :=
  ⟨[], _, [], isSpaces_nil, isSpaces_nil, spells_prettyChars 0 h, by simp [pretty]⟩

end Value

end LintBridge.Json
