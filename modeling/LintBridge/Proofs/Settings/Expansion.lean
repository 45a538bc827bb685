import LintBridge.Proofs.Text.Utf8
import LintBridge.Settings.Expand
import Mathlib.Data.List.Forall2

/-! Texts with references to variables.  `Factors` cuts a text into literals, references and perhaps
one reference at the end that is not closed; each text can be cut in just one way, and its octets
are cut where its characters are.  Filling in the references of a text gives what its parts become,
one after the other: `expand_factored`. -/

namespace LintBridge.Settings

open LintBridge.Text

/-! ### Parts -/

/-- The marks of a reference: two of them open it, and one closes it. -/
structure Marks (α : Type) where
  first : α
  second : α
  close : α

def Marks.opening {α : Type} (m : Marks α) : List α := [m.first, m.second]

def charMarks : Marks Char := ⟨'$', '\x7b', '\x7d'⟩

/-- The marks as octets. -/
def octetMarks : Marks UInt8 := ⟨36, 123, 125⟩

inductive Part (α : Type) where
  | literal (s : List α)
  | reference (name : List α)
  /-- What follows an opening after which nothing is closed. -/
  | unclosed (s : List α)
  deriving DecidableEq

def Part.map {α β : Type} (f : List α → List β) : Part α → Part β
  | literal s => literal (f s)
  | reference name => reference (f name)
  | unclosed s => unclosed (f s)

/-- A list is cut into parts.  No literal is empty, and none stands after another. -/
inductive Factors {α : Type} (m : Marks α) : List α → List (Part α) → Prop
  | nothing : Factors m [] []
  | literal {s rest : List α} {parts : List (Part α)} (written : s ≠ [])
      (plain : ¬ m.opening <:+: s) (whole : ∀ t, parts.head? ≠ some (.literal t))
      (more : Factors m rest parts) : Factors m (s ++ rest) (.literal s :: parts)
  | reference {name rest : List α} {parts : List (Part α)} (whole : m.close ∉ name)
      (more : Factors m rest parts) :
      Factors m (m.first :: m.second :: (name ++ m.close :: rest)) (.reference name :: parts)
  | unclosed {s : List α} (whole : m.close ∉ s) :
      Factors m (m.first :: m.second :: s) [.unclosed s]

section Marks

variable {α : Type} {m : Marks α} {s rest : List α} {parts : List (Part α)}

/-- After a literal there is nothing, or an opening. -/
theorem Factors.nil_or_opening (h : Factors m s parts)
    (whole : ∀ t, parts.head? ≠ some (.literal t)) :
    s = [] ∨ ∃ after, s = m.first :: m.second :: after := by
  cases h with
  | nothing => exact .inl rfl
  | literal => exact absurd rfl (whole _)
  | reference => exact .inr ⟨_, rfl⟩
  | unclosed => exact .inr ⟨_, rfl⟩

/-- What has no opening goes on having none when something is put before it that does not make one
with it. -/
theorem plain_cons {a : α} (plain : ¬ m.opening <:+: s)
    (apart : a = m.first → s.head? ≠ some m.second) : ¬ m.opening <:+: a :: s := by
  intro opened
  obtain here | later := List.infix_cons_iff.mp opened
  · obtain ⟨after, split⟩ := here
    obtain ⟨rfl, rfl⟩ := List.cons.inj split
    exact apart rfl rfl
  · exact plain later

theorem plain_of_append {front : List α} (plain : ¬ m.opening <:+: front ++ s) :
    ¬ m.opening <:+: s :=
  fun opened => plain (opened.trans (List.suffix_append front s).isInfix)

/-- A name ends at the first mark that closes it. -/
theorem append_close_inj {name name' rest' : List α} (whole : m.close ∉ name)
    (whole' : m.close ∉ name') (same : name ++ m.close :: rest = name' ++ m.close :: rest') :
    name = name' ∧ rest = rest' := by
  obtain ⟨more, rfl, split⟩ | ⟨more, rfl, split⟩ := List.append_eq_append_iff.mp same
  · cases more with
    | nil => exact ⟨by simp, (List.cons.inj split).2⟩
    | cons a more =>
      obtain ⟨rfl, -⟩ := List.cons.inj split
      exact absurd (List.mem_append_right _ List.mem_cons_self) whole'
  · cases more with
    | nil => exact ⟨by simp, (List.cons.inj split).2.symm⟩
    | cons a more =>
      obtain ⟨rfl, -⟩ := List.cons.inj split
      exact absurd (List.mem_append_right _ List.mem_cons_self) whole

section Distinct

variable (distinct : m.first ≠ m.second)
include distinct

/-- A literal goes on to the next opening: nothing that is opened begins within one. -/
theorem not_opening_of_plain {after : List α} (plain : ¬ m.opening <:+: s) (written : s ≠ [])
    (next : rest = [] ∨ ∃ after, rest = m.first :: m.second :: after) :
    s ++ rest ≠ m.first :: m.second :: after := by
  intro same
  match s, written with
  | [a], _ =>
    have tail : rest = m.second :: after := (List.cons.inj same).2
    obtain rfl | ⟨_, rfl⟩ := next
    · cases tail
    · exact distinct (List.cons.inj tail).1
  | a :: b :: s, _ =>
    simp only [List.cons_append, List.cons.injEq] at same
    obtain ⟨rfl, rfl, -⟩ := same
    exact plain (List.prefix_append m.opening s).isInfix

theorem literal_unique {s' rest' : List α} (plain : ¬ m.opening <:+: s)
    (plain' : ¬ m.opening <:+: s')
    (next : rest = [] ∨ ∃ after, rest = m.first :: m.second :: after)
    (next' : rest' = [] ∨ ∃ after, rest' = m.first :: m.second :: after)
    (same : s ++ rest = s' ++ rest') : s = s' ∧ rest = rest' := by
  -- were one literal longer, what it has more would begin with an opening
  have no_more : ∀ {t t' u u' : List α}, ¬ m.opening <:+: t' →
      (u = [] ∨ ∃ after, u = m.first :: m.second :: after) →
      (u' = [] ∨ ∃ after, u' = m.first :: m.second :: after) →
      ∀ more, t' = t ++ more → u = more ++ u' → more = [] := by
    intro t t' u u' plain next next' more longer split
    by_contra some
    have plain : ¬ m.opening <:+: more := plain_of_append (longer ▸ plain)
    obtain rfl | ⟨after, rfl⟩ := next
    · exact some (List.append_eq_nil_iff.mp split.symm).1
    · exact not_opening_of_plain distinct plain some next' split.symm
  obtain ⟨more, longer, split⟩ | ⟨more, longer, split⟩ := List.append_eq_append_iff.mp same
  · obtain rfl := no_more plain' next next' more longer split
    exact ⟨by simpa using longer.symm, split⟩
  · obtain rfl := no_more plain next' next more longer split
    exact ⟨by simpa using longer, split.symm⟩

theorem Factors.unique {parts' : List (Part α)} (h : Factors m s parts)
    (h' : Factors m s parts') : parts = parts' := by
  generalize same : s = s' at h'
  induction h generalizing s' parts' with
  | nothing =>
    cases h' with
    | nothing => rfl
    | literal written => exact absurd (List.append_eq_nil_iff.mp same.symm).1 written
    | reference => cases same
    | unclosed => cases same
  | literal written plain whole more ih =>
    have next := more.nil_or_opening whole
    cases h' with
    | nothing => exact absurd (List.append_eq_nil_iff.mp same).1 written
    | literal written' plain' whole' more' =>
      obtain ⟨rfl, rest⟩ :=
        literal_unique distinct plain plain' next (more'.nil_or_opening whole') same
      rw [ih _ rest more']
    | reference => exact absurd same (not_opening_of_plain distinct plain written next)
    | unclosed => exact absurd same (not_opening_of_plain distinct plain written next)
  | @reference name rest parts whole more ih =>
    cases h' with
    | nothing => cases same
    | literal written' plain' whole' more' =>
      have next := more'.nil_or_opening whole'
      exact absurd same.symm (not_opening_of_plain distinct plain' written' next)
    | @reference name' rest' parts' whole' more' =>
      simp only [List.cons.injEq, true_and] at same
      obtain ⟨rfl, rest⟩ := append_close_inj whole whole' same
      rw [ih _ rest more']
    | unclosed whole' =>
      simp only [List.cons.injEq, true_and] at same
      exact absurd (same ▸ List.mem_append_right _ List.mem_cons_self) whole'
  | unclosed whole =>
    cases h' with
    | nothing => cases same
    | literal written' plain' whole' more' =>
      have next := more'.nil_or_opening whole'
      exact absurd same.symm (not_opening_of_plain distinct plain' written' next)
    | reference whole' =>
      simp only [List.cons.injEq, true_and] at same
      exact absurd (same.symm ▸ List.mem_append_right _ List.mem_cons_self) whole
    | unclosed =>
      simp only [List.cons.injEq, true_and] at same
      rw [same]

end Distinct

/-- Something that makes no opening with what follows belongs to a literal. -/
theorem Factors.cons {a : α} (h : Factors m s parts)
    (apart : a = m.first → s.head? ≠ some m.second) : ∃ parts', Factors m (a :: s) parts' := by
  have alone : ¬ m.opening <:+: [a] := fun opened => by simpa [Marks.opening] using opened.length_le
  by_cases next : ∀ t, parts.head? ≠ some (.literal t)
  · exact ⟨_, .literal (s := [a]) (List.cons_ne_nil a []) alone next h⟩
  · obtain ⟨t, first⟩ := not_forall_not.mp next
    cases h with
    | literal written plain whole more =>
      rw [List.head?_append_of_ne_nil _ written] at apart
      exact ⟨_, .literal (List.cons_ne_nil a _) (plain_cons plain apart) whole more⟩
    | nothing => cases first
    | reference => cases first
    | unclosed => cases first

end Marks

/-! ### Filling in -/

/-- What a part becomes: a reference becomes the value of its variable if that is a text, and
nothing if there is no such variable or its value is no text; all else stays as it is. -/
inductive Becomes (env : Environment) : Part Char → List Char → Prop
  | literal (s : List Char) : Becomes env (.literal s) s
  | value {name : List Char} {v : String}
      (set : env.value? (String.ofList name) = some (Utf8.ofString v)) :
      Becomes env (.reference name) v.toList
  | nothing {name : List Char}
      (unset : ∀ v, env.value? (String.ofList name) ≠ some (Utf8.ofString v)) :
      Becomes env (.reference name) []
  | unclosed (s : List Char) : Becomes env (.unclosed s) (charMarks.opening ++ s)

variable {env : Environment} {s rest : List Char} {parts : List (Part Char)}

theorem becomes_reference (name : List Char) :
    Becomes env (.reference name) ((env.get? (String.ofList name)).getD "").toList := by
  cases set : env.get? (String.ofList name) with
  | some v =>
    obtain ⟨octets, found, text⟩ := Option.bind_eq_some_iff.mp set
    rw [Utf8.strict?_eq_some.mp text] at found
    exact .value found
  | none =>
    refine .nothing fun v found => ?_
    rw [Environment.get?, found, Option.bind_some, Utf8.strict?_eq_some.mpr rfl] at set
    cases set

theorem Becomes.unique {part : Part Char} {piece piece' : List Char}
    (h : Becomes env part piece) (h' : Becomes env part piece') : piece = piece' := by
  cases h with
  | literal => cases h'; rfl
  | unclosed => cases h'; rfl
  | value set =>
    cases h' with
    | value set' => rw [Utf8.ofString_injective (Option.some.inj (set.symm.trans set'))]
    | nothing unset => exact absurd set (unset _)
  | nothing unset =>
    cases h' with
    | value set => exact absurd set (unset _)
    | nothing => rfl

theorem exists_pieces (env : Environment) (parts : List (Part Char)) :
    ∃ pieces, List.Forall₂ (Becomes env) parts pieces := by
  have each : ∀ part, ∃ piece, Becomes env part piece := by
    intro part
    cases part with
    | literal s => exact ⟨s, .literal s⟩
    | reference name => exact ⟨_, becomes_reference name⟩
    | unclosed s => exact ⟨_, .unclosed s⟩
  induction parts with
  | nil => exact ⟨[], .nil⟩
  | cons part parts ih =>
    obtain ⟨piece, here⟩ := each part
    obtain ⟨pieces, later⟩ := ih
    exact ⟨piece :: pieces, .cons here later⟩

theorem splitReference?_of_not_mem (whole : charMarks.close ∉ s) : splitReference? s = none := by
  induction s with
  | nil => rfl
  | cons c s ih =>
    obtain ⟨other, whole⟩ := not_or.mp (mt List.mem_cons.mpr whole)
    rw [splitReference?, ih whole]
    · rfl
    · exact fun same => other same.symm

theorem splitReference?_append {name : List Char} (whole : charMarks.close ∉ name) :
    splitReference? (name ++ charMarks.close :: rest) = some (name, rest) := by
  induction name with
  | nil => rfl
  | cons c name ih =>
    obtain ⟨other, whole⟩ := not_or.mp (mt List.mem_cons.mpr whole)
    rw [List.cons_append, splitReference?, ih whole]
    · rfl
    · exact fun same => other same.symm

theorem expandChars_reference {name : List Char} (whole : charMarks.close ∉ name) :
    expandChars env (charMarks.first :: charMarks.second :: (name ++ charMarks.close :: rest)) =
      ((env.get? (String.ofList name)).getD "").toList ++ expandChars env rest := by
  have found : splitReference? (name ++ charMarks.close :: rest) = some (name, rest) :=
    splitReference?_append whole
  simp only [charMarks] at found ⊢
  rw [expandChars]
  split
  next name' rest' found' =>
    obtain ⟨rfl, rfl⟩ := Prod.mk.inj (Option.some.inj (found.symm.trans found'))
    rfl
  next none => cases found.symm.trans none

theorem expandChars_unclosed (whole : charMarks.close ∉ s) :
    expandChars env (charMarks.opening ++ s) = charMarks.opening ++ s := by
  have none := splitReference?_of_not_mem whole
  simp only [Marks.opening, charMarks, List.cons_append, List.nil_append]
  rw [expandChars]
  split
  next found => cases none.symm.trans found
  next => rfl

theorem expandChars_cons {c : Char}
    (apart : c = charMarks.first → s.head? ≠ some charMarks.second) :
    expandChars env (c :: s) = c :: expandChars env s := by
  rw [expandChars]
  rintro rest rfl rfl
  exact apart rfl rfl

theorem expandChars_plain (plain : ¬ charMarks.opening <:+: s)
    (apart : s.getLast? = some charMarks.first → rest.head? ≠ some charMarks.second) :
    expandChars env (s ++ rest) = s ++ expandChars env rest := by
  induction s with
  | nil => rfl
  | cons c s ih =>
    have unopened : c = charMarks.first → (s ++ rest).head? ≠ some charMarks.second := by
      rintro rfl
      cases s with
      | nil => exact apart rfl
      | cons d s =>
        intro second
        obtain rfl := Option.some.inj second
        exact plain (List.prefix_append charMarks.opening s).isInfix
    have later : s.getLast? = some charMarks.first → rest.head? ≠ some charMarks.second := by
      intro last
      exact apart (by rw [List.getLast?_cons, last]; rfl)
    have plain : ¬ charMarks.opening <:+: [c] ++ s := plain
    rw [List.cons_append, expandChars_cons unopened, ih (plain_of_append plain) later,
      List.cons_append]

theorem splitReference?_eq_some {name : List Char} (h : splitReference? s = some (name, rest)) :
    charMarks.close ∉ name ∧ s = name ++ charMarks.close :: rest := by
  by_cases closed : charMarks.close ∈ s
  · obtain ⟨name', rest', rfl, whole⟩ := List.eq_append_cons_of_mem closed
    rw [splitReference?_append whole] at h
    obtain ⟨rfl, rfl⟩ := Prod.mk.inj (Option.some.inj h)
    exact ⟨whole, rfl⟩
  · rw [splitReference?_of_not_mem closed] at h
    cases h

theorem splitReference?_eq_none (h : splitReference? s = none) : charMarks.close ∉ s := by
  intro closed
  obtain ⟨name, rest, rfl, whole⟩ := List.eq_append_cons_of_mem closed
  rw [splitReference?_append whole] at h
  cases h

/-- After a literal no second mark of an opening stands first. -/
theorem Factors.head?_ne (h : Factors charMarks s parts)
    (whole : ∀ t, parts.head? ≠ some (.literal t)) : s.head? ≠ some charMarks.second := by
  obtain rfl | ⟨_, rfl⟩ := h.nil_or_opening whole
  · exact nofun
  · simp [charMarks]

theorem exists_factors (s : List Char) : ∃ parts, Factors charMarks s parts := by
  -- On how the text is read, which does not depend on the environment.
  fun_induction expandChars ({} : Environment) s with
  | case1 => exact ⟨[], .nothing⟩
  | case2 r name rest found _ ih =>
    obtain ⟨parts, more⟩ := ih
    obtain ⟨whole, rfl⟩ := splitReference?_eq_some found
    exact ⟨.reference name :: parts, .reference whole more⟩
  | case3 r none => exact ⟨[.unclosed r], .unclosed (splitReference?_eq_none none)⟩
  | case4 c r other ih =>
    obtain ⟨parts, more⟩ := ih
    refine more.cons ?_
    rintro rfl second
    obtain ⟨tail, rfl⟩ := List.head?_eq_some_iff.mp second
    exact other tail rfl rfl

/-- Filling in the references of a text gives what its parts become. -/
theorem Factors.filled (h : Factors charMarks s parts) {pieces : List (List Char)}
    (become : List.Forall₂ (Becomes env) parts pieces) : expandChars env s = pieces.flatten := by
  induction h generalizing pieces with
  | nothing =>
    cases become
    simp [expandChars]
  | @literal s rest parts written plain whole more ih =>
    obtain _ | ⟨here, later⟩ := become
    have within : s.getLast? = some charMarks.first → rest.head? ≠ some charMarks.second :=
      fun _ => more.head?_ne whole
    rw [expandChars_plain plain within, ih later, List.flatten_cons, here.unique (.literal s)]
  | @reference name rest parts whole more ih =>
    obtain _ | ⟨here, later⟩ := become
    rw [expandChars_reference whole, ih later, List.flatten_cons,
      here.unique (becomes_reference name)]
  | @unclosed s whole =>
    obtain _ | ⟨here, ⟨⟩⟩ := become
    rw [List.flatten_singleton, here.unique (.unclosed s)]
    exact expandChars_unclosed whole

/-- Texts are filled in one after the other if the first leaves nothing open and no opening begins
in the one and ends in the other. -/
theorem Factors.filled_append (h : Factors charMarks s parts) {more : List Char}
    (closed : ∀ t, .unclosed t ∉ parts)
    (apart : s.getLast? = some charMarks.first → more.head? ≠ some charMarks.second) :
    expandChars env (s ++ more) =
      expandChars env s ++ expandChars env more := by
  induction h with
  | nothing => simp [expandChars]
  | @literal s rest parts written plain whole factors ih =>
    have closed : ∀ t, .unclosed t ∉ parts :=
      fun t member => closed t (List.mem_cons_of_mem _ member)
    have later : rest.getLast? = some charMarks.first → more.head? ≠ some charMarks.second := by
      intro last
      exact apart (by rw [List.getLast?_append, last]; rfl)
    have within : s.getLast? = some charMarks.first → rest.head? ≠ some charMarks.second :=
      fun _ => factors.head?_ne whole
    have beyond : s.getLast? = some charMarks.first →
        (rest ++ more).head? ≠ some charMarks.second := by
      intro last
      obtain rfl | ⟨_, rfl⟩ := factors.nil_or_opening whole
      · rw [List.append_nil] at apart
        exact apart last
      · simp [charMarks]
    rw [List.append_assoc, expandChars_plain plain beyond, expandChars_plain plain within,
      ih closed later, List.append_assoc]
  | @reference name rest parts whole factors ih =>
    have closed : ∀ t, .unclosed t ∉ parts :=
      fun t member => closed t (List.mem_cons_of_mem _ member)
    have apart : rest.getLast? = some charMarks.first → more.head? ≠ some charMarks.second := by
      intro last
      refine apart ?_
      simp [List.getLast?_cons, List.getLast?_append, last]
    rw [List.cons_append, List.cons_append, List.append_assoc, List.cons_append,
      expandChars_reference whole, expandChars_reference whole, ih closed apart, List.append_assoc]
  | @unclosed s whole => exact absurd List.mem_cons_self (closed s)

/-! ### Octets -/

theorem char_of_toNat {c : Char} {n : Nat} (h : c.toNat = n) : c = Char.ofNat n := by
  rw [← h, Char.ofNat_toNat]

theorem close_not_mem_encode (whole : charMarks.close ∉ s) :
    octetMarks.close ∉ Utf8.encode s := by
  intro closed
  obtain ⟨before, after, split⟩ := List.append_of_mem closed
  obtain ⟨front, c, back, rfl, number, -⟩ := Utf8.exists_of_encode_eq split (by decide)
  obtain rfl : c = charMarks.close := char_of_toNat number
  exact whole (List.mem_append_right _ List.mem_cons_self)

theorem plain_encode (plain : ¬ charMarks.opening <:+: s) :
    ¬ octetMarks.opening <:+: Utf8.encode s := by
  rintro ⟨before, after, split⟩
  have split : Utf8.encode s = before ++ octetMarks.first :: (octetMarks.second :: after) := by
    rw [← split, Marks.opening, List.append_assoc]
    rfl
  obtain ⟨front, c, back, rfl, number, -, later⟩ := Utf8.exists_of_encode_eq split (by decide)
  have later : Utf8.encode back = [] ++ octetMarks.second :: after := later
  obtain ⟨none, d, back, rfl, number', front_none, -⟩ :=
    Utf8.exists_of_encode_eq later (by decide)
  obtain rfl : c = charMarks.first := char_of_toNat number
  obtain rfl : d = charMarks.second := char_of_toNat number'
  obtain rfl := Utf8.encode_eq_nil.mp front_none
  exact plain ⟨front, back, by simp [Marks.opening]⟩

/-- The octets of a text are cut where its characters are. -/
theorem Factors.encode (h : Factors charMarks s parts) :
    Factors octetMarks (Utf8.encode s) (parts.map (Part.map Utf8.encode)) := by
  induction h with
  | nothing => exact .nothing
  | @literal s rest parts written plain whole more ih =>
    rw [Utf8.encode_append]
    refine .literal (mt Utf8.encode_eq_nil.mp written) (plain_encode plain) ?_ ih
    intro t first
    cases parts with
    | nil => cases first
    | cons part parts =>
      cases part with
      | literal u => exact whole u rfl
      | reference => cases first
      | unclosed => cases first
  | @reference name rest parts whole more ih =>
    have octets : Utf8.encode (charMarks.first :: charMarks.second ::
        (name ++ charMarks.close :: rest)) = octetMarks.first :: octetMarks.second ::
        (Utf8.encode name ++ octetMarks.close :: Utf8.encode rest) := by
      simp only [Utf8.encode_cons, Utf8.encode_append]
      rfl
    rw [octets]
    exact .reference (close_not_mem_encode whole) ih
  | unclosed whole => exact .unclosed (close_not_mem_encode whole)

/-! ### Whole texts -/

/-- A text is cut into parts in one way, and so are its octets, into those of the parts.  Filling in
its references gives what the parts become.  A text without an opening stays as it is, and a text
that leaves nothing open is filled in apart from what follows it, unless an opening begins in the
one and ends in the other. -/
theorem expand_factored (env : Environment) (text : String) :
    ∃ parts, (∀ others, Factors charMarks text.toList others ↔ others = parts) ∧
      (∀ others, Factors octetMarks (Utf8.ofString text) others ↔
        others = parts.map (Part.map Utf8.encode)) ∧
      (∃ pieces, List.Forall₂ (Becomes env) parts pieces) ∧
      (∀ pieces, List.Forall₂ (Becomes env) parts pieces →
        (expand env text).toList = pieces.flatten) ∧
      (¬ charMarks.opening <:+: text.toList → expand env text = text) ∧
      ∀ more, (∀ t, .unclosed t ∉ parts) →
        (text.toList.getLast? = some charMarks.first →
          more.toList.head? ≠ some charMarks.second) →
        expand env (text ++ more) = expand env text ++ expand env more := by
  obtain ⟨parts, factors⟩ := exists_factors text.toList
  refine ⟨parts, fun others => ⟨?_, ?_⟩, fun others => ⟨?_, ?_⟩, exists_pieces env parts,
    ?_, ?_, ?_⟩
  · exact fun h => h.unique (by decide) factors
  · rintro rfl
    exact factors
  · exact fun h => h.unique (by decide) factors.encode
  · rintro rfl
    exact factors.encode
  · intro pieces become
    rw [expand, String.toList_ofList]
    exact factors.filled become
  · intro plain
    have same : expandChars env (text.toList ++ []) = text.toList ++ expandChars env [] :=
      expandChars_plain plain fun _ => nofun
    rw [List.append_nil, expandChars, List.append_nil] at same
    rw [expand, same, String.ofList_toList]
  · intro more closed apart
    rw [expand, String.toList_append, factors.filled_append closed apart, String.ofList_append]
    rfl

end LintBridge.Settings
