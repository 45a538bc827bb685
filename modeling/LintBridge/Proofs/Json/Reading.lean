import LintBridge.Proofs.Json.Literals

/-! Reading documents.  What the readers take from the front of a text is what the grammar lets
stand there, and they take it whenever it stands there and the text does not go on with it.  So the
documents that are read are those of the grammar, and each has one value: `parse?_eq_some`. -/

namespace LintBridge.Json

open LintBridge.Text

/-- A part is read from the front of a text, with some fuel, and the rest of the text is left. -/
def Reads (n : Nat) : Part → List Char → List Char → Prop
  | .value v, s, rest => readValue? n s = some (v, rest)
  | .items vs, s, rest => readItems? n s = some (vs, rest)
  | .member m, s, rest => readMember? n s = some (m, rest)
  | .members ms, s, rest => readMembers? n s = some (ms, rest)

/-! ### What is read is spelled -/

/-- A part stands at the front of a text, after white space. -/
def Stands (p : Part) (s rest : List Char) : Prop :=
  ∃ w t, IsSpaces w ∧ Spells p t ∧ s = w ++ (t ++ rest)

theorem Spells.stands {p : Part} {t : List Char} (h : Spells p t) {s rest : List Char}
    (shape : skipSpace s = t ++ rest) : Stands p s rest := by
  obtain ⟨w, spaces, split⟩ := exists_skipSpace s
  exact ⟨w, t, spaces, h, by rw [split, shape]⟩

theorem readWord?_sound {word s rest : List Char} (h : readWord? word s = some rest) :
    s = word ++ rest := by
  unfold readWord? at h
  split at h
  next starts =>
    obtain ⟨after, rfl⟩ := List.isPrefixOf_iff_prefix.mp starts
    cases h
    rw [List.drop_left]
  · cases h

/-- The rest of an array or an object may have white space before it. -/
theorem Spells.items_spaces {w t : List Char} {vs : List Value} (hw : IsSpaces w)
    (h : Spells (.items vs) t) : Spells (.items vs) (w ++ t) := by
  cases h with
  | endItems hw' =>
    rw [← List.append_assoc]
    exact .endItems (isSpaces_append hw hw')
  | items hw' hw'' first rest =>
    rw [← List.append_assoc]
    exact .items (isSpaces_append hw hw') hw'' first rest

theorem Spells.members_spaces {w t : List Char} {ms : List (Text × Value)} (hw : IsSpaces w)
    (h : Spells (.members ms) t) : Spells (.members ms) (w ++ t) := by
  cases h with
  | endMembers hw' =>
    rw [← List.append_assoc]
    exact .endMembers (isSpaces_append hw hw')
  | members hw' hw'' first rest =>
    rw [← List.append_assoc]
    exact .members (isSpaces_append hw hw') hw'' first rest

section Sound

variable {n : Nat} {s rest : List Char}
  (ih : ∀ {p : Part} {s rest : List Char}, Reads n p s rest → Stands p s rest)
include ih

/-- A value and then the rest of an array stand where they are read. -/
theorem stands_items {r after : List Char} {v : Value} {vs : List Value}
    (first : readValue? n r = some (v, after)) (below : readItems? n after = some (vs, rest)) :
    ∃ w t u, IsSpaces w ∧ Spells (.value v) t ∧ Spells (.items vs) u ∧
      r = w ++ (t ++ (u ++ rest)) := by
  obtain ⟨w, t, hw, value, rfl⟩ := ih (p := .value v) first
  obtain ⟨w', u, hw', items, rfl⟩ := ih (p := .items vs) below
  exact ⟨w, t, w' ++ u, hw, value, items.items_spaces hw', by rw [List.append_assoc]⟩

/-- A member and then the rest of an object stand where they are read. -/
theorem stands_members {r after : List Char} {m : Text × Value} {ms : List (Text × Value)}
    (first : readMember? n r = some (m, after)) (below : readMembers? n after = some (ms, rest)) :
    ∃ w t u, IsSpaces w ∧ Spells (.member m) t ∧ Spells (.members ms) u ∧
      r = w ++ (t ++ (u ++ rest)) := by
  obtain ⟨w, t, hw, member, rfl⟩ := ih (p := .member m) first
  obtain ⟨w', u, hw', members, rfl⟩ := ih (p := .members ms) below
  exact ⟨w, t, w' ++ u, hw, member, members.members_spaces hw', by rw [List.append_assoc]⟩

theorem stands_array {r : List Char} {v : Value} (shape : skipSpace s = '[' :: r)
    (h : readValue? (n + 1) s = some (v, rest)) : Stands (.value v) s rest := by
  obtain ⟨w, hw, split⟩ := exists_skipSpace r
  simp only [readValue?, shape] at h
  split at h
  next after empty =>
    cases h
    rw [empty] at split
    exact (Spells.emptyArray hw).stands (by rw [shape, split]; simp)
  next =>
    simp only [Option.bind_eq_bind, Option.bind_eq_some_iff] at h
    obtain ⟨⟨first, after⟩, readFirst, ⟨vs, after'⟩, readRest, same⟩ := h
    cases same
    obtain ⟨w', t, u, hw', value, items, below⟩ := stands_items ih readFirst readRest
    refine (Spells.array (isSpaces_append hw hw') value items).stands ?_
    rw [shape, split, below]
    simp

theorem stands_object {r : List Char} {v : Value} (shape : skipSpace s = '\x7b' :: r)
    (h : readValue? (n + 1) s = some (v, rest)) : Stands (.value v) s rest := by
  obtain ⟨w, hw, split⟩ := exists_skipSpace r
  simp only [readValue?, shape] at h
  split at h
  next after empty =>
    cases h
    rw [empty] at split
    exact (Spells.emptyObject hw).stands (by rw [shape, split]; simp)
  next =>
    simp only [Option.bind_eq_bind, Option.bind_eq_some_iff] at h
    obtain ⟨⟨first, after⟩, readFirst, ⟨ms, after'⟩, readRest, same⟩ := h
    cases same
    obtain ⟨w', t, u, hw', member, members, below⟩ := stands_members ih readFirst readRest
    refine (Spells.object (isSpaces_append hw hw') member members).stands ?_
    rw [shape, split, below]
    simp

theorem stands_value {v : Value} (h : readValue? (n + 1) s = some (v, rest)) :
    Stands (.value v) s rest := by
  -- The cases of arrays and objects need to see the reader as it was.
  have whole := h
  rw [readValue?] at h
  split at h
  next r shape =>
    obtain ⟨⟨t, after⟩, read, same⟩ := Option.map_eq_some_iff.mp h
    cases same
    obtain ⟨u, spelled, rfl⟩ := readString?_sound read
    exact (Spells.string spelled).stands shape
  next r shape => exact stands_array ih shape whole
  next r shape => exact stands_object ih shape whole
  next r shape =>
    obtain ⟨after, read, same⟩ := Option.map_eq_some_iff.mp h
    cases same
    exact Spells.nullWord.stands (by rw [shape, readWord?_sound read]; rfl)
  next r shape =>
    obtain ⟨after, read, same⟩ := Option.map_eq_some_iff.mp h
    cases same
    exact Spells.trueWord.stands (by rw [shape, readWord?_sound read]; rfl)
  next r shape =>
    obtain ⟨after, read, same⟩ := Option.map_eq_some_iff.mp h
    cases same
    exact Spells.falseWord.stands (by rw [shape, readWord?_sound read]; rfl)
  next =>
    obtain ⟨⟨number, after⟩, read, same⟩ := Option.map_eq_some_iff.mp h
    cases same
    obtain ⟨t, spelled, shape⟩ := readNumber?_sound read
    exact (Spells.number spelled).stands shape

theorem stands_restItems {vs : List Value} (h : readItems? (n + 1) s = some (vs, rest)) :
    Stands (.items vs) s rest := by
  rw [readItems?] at h
  split at h
  next after shape =>
    cases h
    exact (Spells.endItems (w := []) nofun).stands (by rw [shape]; rfl)
  next r shape =>
    simp only [Option.bind_eq_bind, Option.bind_eq_some_iff] at h
    obtain ⟨⟨first, after⟩, readFirst, ⟨vs, after'⟩, readRest, same⟩ := h
    cases same
    obtain ⟨w, t, u, hw, value, items, below⟩ := stands_items ih readFirst readRest
    refine (Spells.items (w := []) nofun hw value items).stands ?_
    rw [shape, below]
    simp
  next => cases h

theorem stands_restMembers {ms : List (Text × Value)}
    (h : readMembers? (n + 1) s = some (ms, rest)) : Stands (.members ms) s rest := by
  rw [readMembers?] at h
  split at h
  next after shape =>
    cases h
    exact (Spells.endMembers (w := []) nofun).stands (by rw [shape]; rfl)
  next r shape =>
    simp only [Option.bind_eq_bind, Option.bind_eq_some_iff] at h
    obtain ⟨⟨first, after⟩, readFirst, ⟨ms, after'⟩, readRest, same⟩ := h
    cases same
    obtain ⟨w, t, u, hw, member, members, below⟩ := stands_members ih readFirst readRest
    refine (Spells.members (w := []) nofun hw member members).stands ?_
    rw [shape, below]
    simp
  next => cases h

theorem stands_member {m : Text × Value} (h : readMember? (n + 1) s = some (m, rest)) :
    Stands (.member m) s rest := by
  rw [readMember?] at h
  split at h
  next r shape =>
    simp only [Option.bind_eq_bind, Option.bind_eq_some_iff] at h
    obtain ⟨⟨name, afterName⟩, readName, value⟩ := h
    obtain ⟨u, named, rfl⟩ := readString?_sound readName
    split at value
    next r' colon =>
      simp only [Option.bind_eq_some_iff] at value
      obtain ⟨⟨v, after⟩, readFirst, same⟩ := value
      cases same
      obtain ⟨w, hw, split⟩ := exists_skipSpace afterName
      obtain ⟨w', t, hw', value, rfl⟩ := ih (p := .value v) readFirst
      refine (Spells.member named hw hw' value).stands ?_
      rw [shape, split, colon]
      simp
    next => cases value
  next => cases h

end Sound

/-- What is read from the front of a text stands there. -/
theorem Reads.stands {n : Nat} {p : Part} {s rest : List Char} (h : Reads n p s rest) :
    Stands p s rest := by
  -- On the fuel: every reader calls the others with less of it.
  induction n generalizing p s rest with
  | zero => cases p <;> cases h
  | succ n ih =>
    cases p with
    | value v => exact stands_value ih h
    | items vs => exact stands_restItems ih h
    | member m => exact stands_member ih h
    | members ms => exact stands_restMembers ih h

/-! ### What is spelled is read -/

theorem Reads.spaces {n : Nat} {p : Part} {w s rest : List Char} (hw : IsSpaces w)
    (h : Reads n p s rest) : Reads n p (w ++ s) rest := by
  cases n with
  | zero => cases p <;> cases h
  | succ n =>
    cases p with
    | value v => simpa only [Reads, readValue?, skipSpace_append hw] using h
    | items vs => simpa only [Reads, readItems?, skipSpace_append hw] using h
    | member m => simpa only [Reads, readMember?, skipSpace_append hw] using h
    | members ms => simpa only [Reads, readMembers?, skipSpace_append hw] using h

/-- A text at the front of which a value, if one stands before it, has come to its end. -/
def Stops (s : List Char) : Prop :=
  ∀ c ∈ s.head?, isSpace c = true ∨ c = ',' ∨ c = ']' ∨ c = '\x7d'

theorem stops_nil : Stops [] := nofun

theorem stops_spaces {w s : List Char} (hw : IsSpaces w) (h : Stops s) : Stops (w ++ s) := by
  cases w with
  | nil => exact h
  | cons c w =>
    intro d first
    cases first
    exact .inl (hw c List.mem_cons_self)

theorem Stops.endsNumber {s : List Char} (h : Stops s) : EndsNumber s := by
  cases s with
  | nil => exact ⟨nofun, nofun, nofun, nofun⟩
  | cons c s =>
    have other : ∀ d : Char, isSpace d = true ∨ d = ',' ∨ d = ']' ∨ d = '\x7d' →
        d.isDigit = false ∧ d ≠ '.' ∧ d ≠ 'e' ∧ d ≠ 'E' := by
      intro d stop
      simp only [isSpace, Bool.or_eq_true, beq_iff_eq] at stop
      rcases stop with ((((rfl | rfl) | rfl) | rfl) | rfl | rfl | rfl) <;> decide
    obtain ⟨digit, point, lower, upper⟩ := other c (h c rfl)
    refine ⟨fun d first => ?_, ?_, ?_, ?_⟩
    · cases first
      exact digit
    all_goals simpa

theorem Spells.stops_items {vs : List Value} {t : List Char} (h : Spells (.items vs) t)
    (rest : List Char) : Stops (t ++ rest) := by
  cases h with
  | endItems hw =>
    rw [List.append_assoc]
    exact stops_spaces hw (by simp [Stops])
  | items hw hw' first below =>
    rw [List.append_assoc]
    exact stops_spaces hw (by simp [Stops])

theorem Spells.stops_members {ms : List (Text × Value)} {t : List Char}
    (h : Spells (.members ms) t) (rest : List Char) : Stops (t ++ rest) := by
  cases h with
  | endMembers hw =>
    rw [List.append_assoc]
    exact stops_spaces hw (by simp [Stops])
  | members hw hw' first below =>
    rw [List.append_assoc]
    exact stops_spaces hw (by simp [Stops])

/-- What a number can begin with. -/
def BeginsNumber (c : Char) : Prop := c.isDigit = true ∨ c = '-'

theorem SpellsNumber.head {n : Number} {s : List Char} (h : SpellsNumber n s) :
    ∃ c r, s = c :: r ∧ BeginsNumber c := by
  obtain ⟨sign, whole, fraction, exponent, signed, isWhole, -, -, -, rfl⟩ := spellsNumber_iff.mp h
  rcases signed with rfl | rfl
  · cases whole with
    | nil => exact absurd rfl isWhole.1.1
    | cons c cs => exact ⟨c, _, rfl, .inl (isWhole.1.2 c List.mem_cons_self)⟩
  · exact ⟨'-', _, rfl, .inr rfl⟩

/-- No number begins with white space, with what another value begins with, or with an end. -/
theorem BeginsNumber.ne {c d : Char} (h : BeginsNumber c)
    (other : d ∈ [' ', '\t', '\n', '\r', '"', '[', ']', '\x7b', 'n', 't', 'f']) : c ≠ d := by
  rintro rfl
  have none : [' ', '\t', '\n', '\r', '"', '[', ']', '\x7b', 'n', 't', 'f'].all
      (fun d => !(d.isDigit || d == '-')) = true := by decide
  have bad := List.all_eq_true.mp none c other
  rcases h with digit | minus
  · simp [digit] at bad
  · simp [minus] at bad

theorem BeginsNumber.not_isSpace {c : Char} (h : BeginsNumber c) : isSpace c = false := by
  have tab := h.ne (d := '\t') (by simp)
  have blank := h.ne (d := ' ') (by simp)
  have feed := h.ne (d := '\n') (by simp)
  have back := h.ne (d := '\r') (by simp)
  simp [isSpace, tab, blank, feed, back]

/-- The first character of a value is no white space and does not end an array. -/
theorem Spells.head {v : Value} {t : List Char} (h : Spells (.value v) t) :
    ∃ c r, t = c :: r ∧ isSpace c = false ∧ c ≠ ']' := by
  cases h with
  | number spelled =>
    obtain ⟨c, r, rfl, begins⟩ := spelled.head
    exact ⟨c, r, rfl, begins.not_isSpace, begins.ne (by simp)⟩
  | string spelled =>
    obtain ⟨u, rfl, -⟩ := spelled.exists_read
    exact ⟨_, _, rfl, by decide, by decide⟩
  | _ => exact ⟨_, _, rfl, by decide, by decide⟩

theorem Spells.head_member {m : Text × Value} {t : List Char} (h : Spells (.member m) t) :
    ∃ r, t = '"' :: r := by
  cases h with
  | member named hw hw' value =>
    obtain ⟨u, rfl, -⟩ := named.exists_read
    exact ⟨_, rfl⟩

theorem readWord?_append (word rest : List Char) : readWord? word (word ++ rest) = some rest := by
  rw [readWord?, if_pos (List.isPrefixOf_iff_prefix.mpr (List.prefix_append word rest)),
    List.drop_left]

theorem readValue?_number {n : Nat} {c : Char} {s : List Char} (h : BeginsNumber c) :
    readValue? (n + 1) (c :: s) =
      (readNumber? (c :: s)).map fun (m, after) => (.number m, after) := by
  rw [readValue?, skipSpace_cons h.not_isSpace]
  split
  next first => exact absurd (List.cons.inj first).1 (h.ne (by simp))
  next first => exact absurd (List.cons.inj first).1 (h.ne (by simp))
  next first => exact absurd (List.cons.inj first).1 (h.ne (by simp))
  next first => exact absurd (List.cons.inj first).1 (h.ne (by simp))
  next first => exact absurd (List.cons.inj first).1 (h.ne (by simp))
  next first => exact absurd (List.cons.inj first).1 (h.ne (by simp))
  next => rfl

/-- With an item at its front, an array is read item by item. -/
theorem readValue?_array {n : Nat} {c : Char} {r after rest : List Char} {v : Value}
    {vs : List Value} (hc : isSpace c = false) (more : c ≠ ']')
    (first : readValue? n (c :: r) = some (v, after))
    (below : readItems? n after = some (vs, rest)) {w : List Char} (hw : IsSpaces w) :
    readValue? (n + 1) ('[' :: (w ++ c :: r)) = some (.array (v :: vs), rest) := by
  simp only [readValue?, skipSpace_cons (c := '[') rfl, skipSpace_append hw, skipSpace_cons hc]
  split
  next ends => exact absurd (List.cons.inj ends).1 more
  next => simp only [first, below, Option.bind_eq_bind, Option.bind_some]

/-- With a member at its front, an object is read member by member. -/
theorem readValue?_object {n : Nat} {r after rest : List Char} {m : Text × Value}
    {ms : List (Text × Value)} (first : readMember? n ('"' :: r) = some (m, after))
    (below : readMembers? n after = some (ms, rest)) {w : List Char} (hw : IsSpaces w) :
    readValue? (n + 1) ('\x7b' :: (w ++ '"' :: r)) = some (.object (m :: ms), rest) := by
  simp only [readValue?, skipSpace_cons (c := '\x7b') rfl, skipSpace_append hw,
    skipSpace_cons (c := '"') rfl]
  split
  next ends => cases (List.cons.inj ends).1
  next => simp only [first, below, Option.bind_eq_bind, Option.bind_some]

theorem readItems?_cons {n : Nat} {w w' r after rest : List Char} {v : Value} {vs : List Value}
    (hw : IsSpaces w) (hw' : IsSpaces w') (first : Reads n (.value v) r after)
    (below : readItems? n after = some (vs, rest)) :
    readItems? (n + 1) (w ++ ',' :: (w' ++ r)) = some (v :: vs, rest) := by
  have first : readValue? n (w' ++ r) = some (v, after) := first.spaces hw'
  simp only [readItems?, skipSpace_append hw, skipSpace_cons (c := ',') rfl, first, below,
    Option.bind_eq_bind, Option.bind_some]

theorem readMembers?_cons {n : Nat} {w w' r after rest : List Char} {m : Text × Value}
    {ms : List (Text × Value)} (hw : IsSpaces w) (hw' : IsSpaces w')
    (first : Reads n (.member m) r after) (below : readMembers? n after = some (ms, rest)) :
    readMembers? (n + 1) (w ++ ',' :: (w' ++ r)) = some (m :: ms, rest) := by
  have first : readMember? n (w' ++ r) = some (m, after) := first.spaces hw'
  simp only [readMembers?, skipSpace_append hw, skipSpace_cons (c := ',') rfl, first, below,
    Option.bind_eq_bind, Option.bind_some]

/-- A member is read by its name, a colon and its value. -/
theorem readMember?_append {n : Nat} {s w w' r rest : List Char} {name : Text} {v : Value}
    (named : SpellsText name s) (hw : IsSpaces w) (hw' : IsSpaces w')
    (value : Reads n (.value v) r rest) :
    readMember? (n + 1) (s ++ (w ++ ':' :: (w' ++ r))) = some ((name, v), rest) := by
  obtain ⟨u, rfl, readName⟩ := named.exists_read
  have value : readValue? n (w' ++ r) = some (v, rest) := value.spaces hw'
  simp only [List.cons_append, readMember?, skipSpace_cons (c := '"') rfl, readName,
    skipSpace_append hw, skipSpace_cons (c := ':') rfl, value, Option.bind_eq_bind,
    Option.bind_some]

/-- What is spelled at the front of a text is read, if the text does not go on with it.  The fuel
that is needed is at most the length of what is read, since each part of it is shorter. -/
theorem Spells.reads {p : Part} {t : List Char} (h : Spells p t) {n : Nat}
    (fuel : t.length ≤ n) {rest : List Char} (stop : Stops rest) :
    Reads n p (t ++ rest) rest := by
  -- On the grammar: the part after the first one tells the first one where to stop.
  induction h generalizing n rest with
  | nullWord =>
    obtain _ | n := n
    · cases fuel
    show readValue? (n + 1) ('n' :: ("ull".toList ++ rest)) = _
    simp only [readValue?, skipSpace_cons (c := 'n') rfl, readWord?_append, Option.map_some]
  | trueWord =>
    obtain _ | n := n
    · cases fuel
    show readValue? (n + 1) ('t' :: ("rue".toList ++ rest)) = _
    simp only [readValue?, skipSpace_cons (c := 't') rfl, readWord?_append, Option.map_some]
  | falseWord =>
    obtain _ | n := n
    · cases fuel
    show readValue? (n + 1) ('f' :: ("alse".toList ++ rest)) = _
    simp only [readValue?, skipSpace_cons (c := 'f') rfl, readWord?_append, Option.map_some]
  | number spelled =>
    obtain ⟨c, r, rfl, begins⟩ := spelled.head
    obtain _ | n := n
    · cases fuel
    have read := readNumber?_append spelled stop.endsNumber
    rw [Reads, List.cons_append, readValue?_number begins, ← List.cons_append, read,
      Option.map_some]
  | string spelled =>
    obtain ⟨u, rfl, read⟩ := spelled.exists_read
    obtain _ | n := n
    · cases fuel
    simp only [Reads, List.cons_append, readValue?, skipSpace_cons (c := '"') rfl, read,
      Option.map_some]
  | emptyArray hw =>
    obtain _ | n := n
    · cases fuel
    simp only [Reads, List.cons_append, List.append_assoc, readValue?,
      skipSpace_cons (c := '[') rfl, skipSpace_append hw, List.nil_append,
      skipSpace_cons (c := ']') rfl]
  | array hw first below ihFirst ihBelow =>
    obtain _ | n := n
    · cases fuel
    obtain ⟨c, r, rfl, space, more⟩ := first.head
    simp only [List.length_cons, List.length_append] at fuel
    have readFirst := ihFirst (n := n) (by simp only [List.length_cons]; omega)
      (below.stops_items rest)
    have readBelow := ihBelow (n := n) (by omega) stop
    simp only [List.cons_append, List.append_assoc]
    exact readValue?_array space more readFirst readBelow hw
  | endItems hw =>
    obtain _ | n := n
    · simp at fuel
    rw [List.append_assoc]
    refine Reads.spaces hw ?_
    simp only [Reads, List.cons_append, List.nil_append, readItems?, skipSpace_cons (c := ']') rfl]
  | items hw hw' first below ihFirst ihBelow =>
    obtain _ | n := n
    · simp at fuel
    simp only [List.length_cons, List.length_append] at fuel
    have readFirst := ihFirst (n := n) (by omega) (below.stops_items rest)
    have readBelow := ihBelow (n := n) (by omega) stop
    simp only [Reads, List.cons_append, List.append_assoc]
    exact readItems?_cons hw hw' readFirst readBelow
  | emptyObject hw =>
    obtain _ | n := n
    · cases fuel
    simp only [Reads, List.cons_append, List.append_assoc, readValue?,
      skipSpace_cons (c := '\x7b') rfl, skipSpace_append hw, List.nil_append,
      skipSpace_cons (c := '\x7d') rfl]
  | object hw first below ihFirst ihBelow =>
    obtain _ | n := n
    · cases fuel
    obtain ⟨r, rfl⟩ := first.head_member
    simp only [List.length_cons, List.length_append] at fuel
    have readFirst := ihFirst (n := n) (by simp only [List.length_cons]; omega)
      (below.stops_members rest)
    have readBelow := ihBelow (n := n) (by omega) stop
    simp only [List.cons_append, List.append_assoc]
    exact readValue?_object readFirst readBelow hw
  | member named hw hw' value ih =>
    obtain _ | n := n
    · simp at fuel
    simp only [List.length_cons, List.length_append] at fuel
    simp only [Reads, List.cons_append, List.append_assoc]
    exact readMember?_append named hw hw' (ih (n := n) (by omega) stop)
  | endMembers hw =>
    obtain _ | n := n
    · simp at fuel
    rw [List.append_assoc]
    refine Reads.spaces hw ?_
    simp only [Reads, List.cons_append, List.nil_append, readMembers?,
      skipSpace_cons (c := '\x7d') rfl]
  | members hw hw' first below ihFirst ihBelow =>
    obtain _ | n := n
    · simp at fuel
    simp only [List.length_cons, List.length_append] at fuel
    have readFirst := ihFirst (n := n) (by omega) (below.stops_members rest)
    have readBelow := ihBelow (n := n) (by omega) stop
    simp only [Reads, List.cons_append, List.append_assoc]
    exact readMembers?_cons hw hw' readFirst readBelow

/-! ### Documents -/

/-- The documents that are read are those of the grammar. -/
theorem parse?_eq_some {text : String} {v : Value} :
    parse? text = some v ↔ IsDocument text v := by
  constructor
  · intro h
    simp only [parse?, Option.bind_eq_bind, Option.bind_eq_some_iff] at h
    obtain ⟨⟨first, rest⟩, read, ended⟩ := h
    split at ended
    next nothing =>
      cases ended
      obtain ⟨w, s, hw, spelled, shape⟩ := Reads.stands (p := .value first) read
      have hw' : IsSpaces rest := skipSpace_eq_nil.mp (List.isEmpty_iff.mp nothing)
      exact ⟨w, s, rest, hw, hw', spelled, shape⟩
    next => cases ended
  · rintro ⟨w, s, w', hw, hw', spelled, shape⟩
    have stop : Stops w' := by
      rw [← List.append_nil w']
      exact stops_spaces hw' stops_nil
    have enough : s.length ≤ 2 * text.length + 2 := by
      have whole := congrArg List.length shape
      simp only [String.length_toList, List.length_append] at whole
      omega
    have read := Reads.spaces hw (spelled.reads enough stop)
    simp only [Reads, ← shape] at read
    simp only [parse?, read, Option.bind_eq_bind, Option.bind_some, skipSpace_eq_nil.mpr hw',
      List.isEmpty_nil, if_true]

/-- White space after a document does not belong to it. -/
theorem IsDocument.append_newline {t : String} {v : Value} (h : IsDocument t v) :
    IsDocument (t ++ "\n") v := by
  obtain ⟨w, s, w', hw, hw', spelled, split⟩ := h
  refine ⟨w, s, w' ++ ['\n'], hw, ?_, spelled, by simp [split]⟩
  exact isSpaces_append hw' (by simp [IsSpaces, isSpace])

/-- A document has one value. -/
theorem IsDocument.unique {text : String} {v v' : Value} (h : IsDocument text v)
    (h' : IsDocument text v') : v = v' :=
  Option.some.inj ((parse?_eq_some.mpr h).symm.trans (parse?_eq_some.mpr h'))

end LintBridge.Json
