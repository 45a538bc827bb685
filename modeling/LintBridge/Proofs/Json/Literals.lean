import LintBridge.Proofs.Json.Grammar
import Mathlib.Data.List.TakeWhile

/-! Reading literals.  The readers of white space, of numbers and of strings take from the front of
a text exactly what the grammar lets stand there, and leave the rest; a number also needs to know
that what follows it does not belong to it. -/

namespace LintBridge.Json

open LintBridge.Text

/-! ### White space -/

theorem isSpaces_append {w w' : List Char} (h : IsSpaces w) (h' : IsSpaces w') :
    IsSpaces (w ++ w') :=
  fun c member => (List.mem_append.mp member).elim (h c) (h' c)

theorem skipSpace_append {w : List Char} (h : IsSpaces w) (s : List Char) :
    skipSpace (w ++ s) = skipSpace s := by
  induction w with
  | nil => rfl
  | cons c w ih =>
    rw [skipSpace, List.cons_append, List.dropWhile_cons_of_pos (h c List.mem_cons_self)]
    exact ih fun d member => h d (List.mem_cons_of_mem c member)

theorem skipSpace_cons {c : Char} (h : isSpace c = false) (s : List Char) :
    skipSpace (c :: s) = c :: s := by
  rw [skipSpace, List.dropWhile_cons_of_neg (by simp [h])]

/-- What is skipped at the front of a text is white space. -/
theorem exists_skipSpace (s : List Char) : ∃ w, IsSpaces w ∧ s = w ++ skipSpace s :=
  ⟨s.takeWhile isSpace, fun _ member => List.mem_takeWhile_imp member,
    (List.takeWhile_append_dropWhile).symm⟩

theorem skipSpace_eq_nil {s : List Char} : skipSpace s = [] ↔ IsSpaces s :=
  List.dropWhile_eq_nil_iff

/-! ### Numbers -/

/-- A text that cannot go on with a digit. -/
def NoDigit (s : List Char) : Prop := ∀ c ∈ s.head?, c.isDigit = false

theorem readDigits?_sound {s digits rest : List Char} (h : readDigits? s = some (digits, rest)) :
    IsDigits digits ∧ s = digits ++ rest := by
  unfold readDigits? at h
  split at h
  · cases h
  next d ds taken =>
    simp only [Option.some.injEq, Prod.mk.injEq] at h
    obtain ⟨rfl, rfl⟩ := h
    refine ⟨⟨List.cons_ne_nil d ds, fun c member => ?_⟩, ?_⟩
    · exact List.mem_takeWhile_imp (taken ▸ member)
    · rw [← taken, List.takeWhile_append_dropWhile]

theorem takeWhile_digits {digits rest : List Char} (h : ∀ c ∈ digits, c.isDigit = true)
    (stop : NoDigit rest) :
    (digits ++ rest).takeWhile Char.isDigit = digits ∧
      (digits ++ rest).dropWhile Char.isDigit = rest := by
  rw [List.takeWhile_append_of_pos h, List.dropWhile_append_of_pos h]
  cases rest with
  | nil => simp
  | cons c rest => simp [stop c rfl]

theorem readDigits?_append {digits rest : List Char} (h : IsDigits digits)
    (stop : NoDigit rest) : readDigits? (digits ++ rest) = some (digits, rest) := by
  obtain ⟨taken, left⟩ := takeWhile_digits h.2 stop
  rw [readDigits?, taken, left]
  cases digits with
  | nil => exact absurd rfl h.1
  | cons d ds => rfl

theorem readWhole?_sound {s whole rest : List Char} (h : readWhole? s = some (whole, rest)) :
    IsWhole whole ∧ s = whole ++ rest := by
  unfold readWhole? at h
  split at h
  next r =>
    split at h
    · cases h
    · simp only [Option.some.injEq, Prod.mk.injEq] at h
      obtain ⟨rfl, rfl⟩ := h
      exact ⟨⟨⟨by simp, by simp⟩, fun _ => rfl⟩, rfl⟩
  next other =>
    obtain ⟨digits, rfl⟩ := readDigits?_sound h
    refine ⟨⟨digits, fun zero => ?_⟩, rfl⟩
    cases whole with
    | nil => cases zero
    | cons c cs =>
      cases zero
      exact absurd rfl (other (cs ++ rest))

theorem readWhole?_append {whole rest : List Char} (h : IsWhole whole) (stop : NoDigit rest) :
    readWhole? (whole ++ rest) = some (whole, rest) := by
  obtain ⟨digits, zero⟩ := h
  -- A leading zero stands alone, and with any other digit the reader takes all digits.
  by_cases first : whole.head? = some '0'
  · obtain rfl := zero first
    have none : ¬ (rest.head?.any Char.isDigit = true) := by
      cases rest with
      | nil => simp
      | cons c rest => simp [stop c rfl]
    simp only [List.singleton_append, readWhole?, if_neg none]
  · have other : readWhole? (whole ++ rest) = readDigits? (whole ++ rest) := by
      unfold readWhole?
      split
      next r split =>
        cases whole with
        | nil => exact absurd rfl digits.1
        | cons c cs => exact absurd (congrArg List.head? split) (by simpa using first)
      · rfl
    rw [other, readDigits?_append digits stop]

theorem readFraction?_sound {s fraction rest : List Char}
    (h : readFraction? s = some (fraction, rest)) :
    IsFraction fraction ∧ s = fraction ++ rest := by
  unfold readFraction? at h
  split at h
  next r =>
    obtain ⟨⟨digits, after⟩, read, same⟩ := Option.map_eq_some_iff.mp h
    cases same
    obtain ⟨spelled, rfl⟩ := readDigits?_sound read
    exact ⟨.inr ⟨digits, spelled, rfl⟩, rfl⟩
  · cases h
    exact ⟨.inl rfl, rfl⟩

theorem readFraction?_append {fraction rest : List Char} (h : IsFraction fraction)
    (stop : NoDigit rest) (point : rest.head? ≠ some '.') :
    readFraction? (fraction ++ rest) = some (fraction, rest) := by
  rcases h with rfl | ⟨digits, spelled, rfl⟩
  · rw [List.nil_append]
    unfold readFraction?
    split
    · exact absurd rfl point
    · rfl
  · rw [List.cons_append, readFraction?, readDigits?_append spelled stop]
    rfl

theorem readExponent?_sound {s exponent rest : List Char}
    (h : readExponent? s = some (exponent, rest)) :
    IsExponent exponent ∧ s = exponent ++ rest := by
  unfold readExponent? at h
  split at h
  next e r =>
    split at h
    next mark =>
      have mark : e = 'e' ∨ e = 'E' := by simpa using mark
      split at h
      next c t =>
        split at h
        next signed =>
          have signed : c = '+' ∨ c = '-' := by simpa using signed
          obtain ⟨⟨digits, after⟩, read, same⟩ := Option.map_eq_some_iff.mp h
          cases same
          obtain ⟨spelled, rfl⟩ := readDigits?_sound read
          refine ⟨.inr ⟨e, [c], digits, mark, .inr ?_, spelled, rfl⟩, rfl⟩
          exact signed.imp (congrArg (fun c => [c])) (congrArg (fun c => [c]))
        next =>
          obtain ⟨⟨digits, after⟩, read, same⟩ := Option.map_eq_some_iff.mp h
          cases same
          obtain ⟨spelled, shape⟩ := readDigits?_sound read
          exact ⟨.inr ⟨e, [], digits, mark, .inl rfl, spelled, rfl⟩, congrArg (e :: ·) shape⟩
      · cases h
    · cases h
      exact ⟨.inl rfl, rfl⟩
  · cases h
    exact ⟨.inl rfl, rfl⟩

theorem readExponent?_append {exponent rest : List Char} (h : IsExponent exponent)
    (stop : NoDigit rest) (mark : rest.head? ≠ some 'e' ∧ rest.head? ≠ some 'E') :
    readExponent? (exponent ++ rest) = some (exponent, rest) := by
  rcases h with rfl | ⟨e, sign, digits, marked, signed, spelled, rfl⟩
  · cases rest with
    | nil => rfl
    | cons c rest =>
      have other : ¬ ((c == 'e' || c == 'E') = true) := by simpa using mark
      simp only [List.nil_append, readExponent?, if_neg other]
  · have marked : (e == 'e' || e == 'E') = true := by simpa using marked
    simp only [List.cons_append, readExponent?, if_pos marked, List.append_assoc]
    rcases signed with rfl | rfl | rfl
    · cases digits with
      | nil => exact absurd rfl spelled.1
      | cons d ds =>
        -- The first digit is not taken for a sign.
        have digit := spelled.2 d List.mem_cons_self
        have unsigned : ¬ ((d == '+' || d == '-') = true) := by
          simp only [Bool.or_eq_true, beq_iff_eq]
          rintro (rfl | rfl) <;> cases digit
        rw [List.nil_append, List.cons_append]
        simp only [if_neg unsigned]
        rw [← List.cons_append, readDigits?_append spelled stop]
        rfl
    all_goals
      rw [List.singleton_append]
      simp only [beq_self_eq_true, Bool.true_or, Bool.or_true, if_true]
      rw [readDigits?_append spelled stop]
      rfl

theorem IsWhole.unsigned {whole : List Char} (h : IsWhole whole) (rest : List Char) :
    (whole ++ rest).head? ≠ some '-' := by
  cases whole with
  | nil => exact absurd rfl h.1.1
  | cons c cs =>
    intro first
    cases first
    cases h.1.2 '-' List.mem_cons_self

theorem IsFraction.noDigit {fraction rest : List Char} (h : IsFraction fraction)
    (stop : NoDigit rest) : NoDigit (fraction ++ rest) := by
  rcases h with rfl | ⟨digits, -, rfl⟩
  · exact stop
  · intro c first
    cases first
    rfl

theorem IsExponent.noDigit {exponent rest : List Char} (h : IsExponent exponent)
    (stop : NoDigit rest) : NoDigit (exponent ++ rest) := by
  rcases h with rfl | ⟨e, sign, digits, rfl | rfl, -, -, rfl⟩
  · exact stop
  all_goals
    intro c first
    cases first
    rfl

theorem IsExponent.noPoint {exponent rest : List Char} (h : IsExponent exponent)
    (stop : rest.head? ≠ some '.') : (exponent ++ rest).head? ≠ some '.' := by
  rcases h with rfl | ⟨e, sign, digits, rfl | rfl, -, -, rfl⟩
  · exact stop
  all_goals simp

/-- The number that a sign, a whole part, a fraction and an exponent spell. -/
def numberOf (sign whole fraction exponent : List Char) : Number :=
  if sign ≠ [] ∨ fraction ≠ [] ∨ exponent ≠ [] then
    .other (String.ofList (sign ++ (whole ++ (fraction ++ exponent))))
  else .nat (natOfDigits whole)

theorem spellsNumber_iff {n : Number} {s : List Char} :
    SpellsNumber n s ↔ ∃ sign whole fraction exponent, (sign = [] ∨ sign = ['-']) ∧
      IsWhole whole ∧ IsFraction fraction ∧ IsExponent exponent ∧
      n = numberOf sign whole fraction exponent ∧
      s = sign ++ (whole ++ (fraction ++ exponent)) := by
  constructor
  · intro h
    cases h with
    | plain whole =>
      exact ⟨[], s, [], [], .inl rfl, whole, .inl rfl, .inl rfl, by simp [numberOf], by simp⟩
    | other signed whole fractional scaled more =>
      exact ⟨_, _, _, _, signed, whole, fractional, scaled, by rw [numberOf, if_pos more], rfl⟩
  · rintro ⟨sign, whole, fraction, exponent, signed, isWhole, fractional, scaled, rfl, rfl⟩
    unfold numberOf
    split
    next more => exact .other signed isWhole fractional scaled more
    next plain =>
      simp only [not_or, Decidable.not_not] at plain
      obtain ⟨rfl, rfl, rfl⟩ := plain
      simpa using SpellsNumber.plain isWhole

/-- The parts of a number are read one after the other. -/
theorem readNumber?_eq {sign : List Char} (signed : sign = [] ∨ sign = ['-']) {s : List Char}
    (unsigned : sign = [] → s.head? ≠ some '-') :
    readNumber? (sign ++ s) =
      (readWhole? s).bind fun w => (readFraction? w.2).bind fun f =>
        (readExponent? f.2).map fun e => (numberOf sign w.1 f.1 e.1, e.2) := by
  have negative : ((sign ++ s).head? == some '-') = decide (sign ≠ []) := by
    rcases signed with rfl | rfl
    · simpa using unsigned rfl
    · rfl
  have written : (if decide (sign ≠ []) = true then ['-'] else []) = sign := by
    rcases signed with rfl | rfl <;> rfl
  have dropped : (if decide (sign ≠ []) = true then (sign ++ s).drop 1 else sign ++ s) = s := by
    rcases signed with rfl | rfl <;> rfl
  simp only [readNumber?, negative, dropped, written, Option.bind_eq_bind]
  refine congrArg _ (funext fun w => congrArg _ (funext fun f => ?_))
  cases readExponent? f.2 with
  | none => rfl
  | some e =>
    simp only [numberOf, Option.bind_some, Option.map_some, Bool.or_eq_true, decide_eq_true_eq,
      or_assoc, List.append_assoc]
    split <;> rfl

/-- A text that cannot go on with a number. -/
structure EndsNumber (s : List Char) : Prop where
  digit : NoDigit s
  point : s.head? ≠ some '.'
  mark : s.head? ≠ some 'e' ∧ s.head? ≠ some 'E'

theorem readNumber?_sound {s rest : List Char} {n : Number} (h : readNumber? s = some (n, rest)) :
    ∃ t, SpellsNumber n t ∧ s = t ++ rest := by
  obtain ⟨sign, r, signed, unsigned, rfl⟩ : ∃ sign r, (sign = [] ∨ sign = ['-']) ∧
      (sign = [] → r.head? ≠ some '-') ∧ s = sign ++ r := by
    by_cases first : s.head? = some '-'
    · obtain ⟨r, rfl⟩ := List.head?_eq_some_iff.mp first
      exact ⟨['-'], r, .inr rfl, nofun, rfl⟩
    · exact ⟨[], s, .inl rfl, fun _ => first, rfl⟩
  rw [readNumber?_eq signed unsigned] at h
  simp only [Option.bind_eq_some_iff, Option.map_eq_some_iff] at h
  obtain ⟨⟨whole, _⟩, readWhole, ⟨fraction, _⟩, readFraction, ⟨exponent, _⟩, readExponent, same⟩ :=
    h
  obtain ⟨isWhole, rfl⟩ := readWhole?_sound readWhole
  obtain ⟨isFraction, rfl⟩ := readFraction?_sound readFraction
  obtain ⟨isExponent, rfl⟩ := readExponent?_sound readExponent
  cases same
  refine ⟨_, spellsNumber_iff.mpr ⟨sign, whole, fraction, exponent, signed, isWhole, isFraction,
    isExponent, rfl, rfl⟩, ?_⟩
  simp only [List.append_assoc]

theorem readNumber?_append {n : Number} {s rest : List Char} (h : SpellsNumber n s)
    (stop : EndsNumber rest) : readNumber? (s ++ rest) = some (n, rest) := by
  obtain ⟨sign, whole, fraction, exponent, signed, isWhole, isFraction, isExponent, rfl, rfl⟩ :=
    spellsNumber_iff.mp h
  have afterFraction := isExponent.noDigit stop.digit
  simp only [List.append_assoc]
  rw [readNumber?_eq signed fun _ => isWhole.unsigned _,
    readWhole?_append isWhole (isFraction.noDigit afterFraction), Option.bind_some,
    readFraction?_append isFraction afterFraction (isExponent.noPoint stop.point),
    Option.bind_some, readExponent?_append isExponent stop.digit stop.mark, Option.map_some]

/-! ### Strings -/

theorem elementChars?_eq_some {elements : List Element} {chars : List Char} :
    elementChars? elements = some chars ↔ Denotes elements chars := by
  constructor
  · intro h
    fun_induction elementChars? elements generalizing chars with
    | case1 => cases h; exact .nil
    | case2 c r ih =>
      obtain ⟨rest, read, rfl⟩ := Option.map_eq_some_iff.mp h
      exact .char c (ih read)
    | case3 high low r paired ih =>
      obtain ⟨rest, read, rfl⟩ := Option.map_eq_some_iff.mp h
      obtain ⟨first, second⟩ := Bool.and_eq_true_iff.mp paired
      exact .pair first second (ih read)
    | case4 => cases h
    | case5 => cases h
  · intro h
    induction h with
    | nil => rfl
    | char c rest ih => rw [elementChars?, ih, Option.map_some]
    | pair first second rest ih =>
      rw [elementChars?, first, second, Bool.and_self, if_pos rfl, ih, Option.map_some]

/-- What elements stand for is found by pairing the halves among them. -/
theorem denotesText_iff {elements : List Element} {t : Text} :
    DenotesText elements t ↔ (elementChars? elements).map String.ofList = t := by
  cases t with
  | none =>
    rw [DenotesText, Option.map_eq_none_iff, Option.eq_none_iff_forall_ne_some]
    exact forall_congr' fun chars => not_congr elementChars?_eq_some.symm
  | some s =>
    rw [DenotesText, ← elementChars?_eq_some, Option.map_eq_some_iff]
    constructor
    · exact fun read => ⟨_, read, String.ofList_toList⟩
    · rintro ⟨chars, read, rfl⟩
      rw [read, String.toList_ofList]

/-- A text goes on with a string literal, after the opening quote, that has given elements. -/
def SpellsString (elements : List Element) (s rest : List Char) : Prop :=
  ∃ pieces, List.Forall₂ SpellsElement elements pieces ∧ s = pieces.flatten ++ '"' :: rest

theorem SpellsString.cons {element : Element} {elements : List Element} {piece s rest : List Char}
    (first : SpellsElement element piece) (h : SpellsString elements s rest) :
    SpellsString (element :: elements) (piece ++ s) rest := by
  obtain ⟨pieces, spelled, rfl⟩ := h
  exact ⟨piece :: pieces, .cons first spelled, by rw [List.flatten_cons, List.append_assoc]⟩

theorem readHex4?_four {a b c d : Char} {n : Nat} {rest : List Char}
    (h : readHex4? [a, b, c, d] = some (n, rest)) : rest = [] := by
  simp only [readHex4?, Option.bind_eq_bind, Option.bind_eq_some_iff, Option.some.injEq,
    Prod.mk.injEq] at h
  obtain ⟨-, -, -, -, -, -, -, -, -, nothing⟩ := h
  exact nothing.symm

theorem readElements?_sound {s rest : List Char} {elements : List Element}
    (h : readElements? s = some (elements, rest)) : SpellsString elements s rest := by
  fun_induction readElements? s generalizing elements rest with
  | case1 => cases h
  | case2 r =>
    cases h
    exact ⟨[], .nil, rfl⟩
  | case3 a b c d r ih =>
    simp only [Option.bind_eq_bind, Option.bind_eq_some_iff] at h
    obtain ⟨⟨n, left⟩, digits, ⟨below, after⟩, read, same⟩ := h
    obtain rfl := readHex4?_four digits
    cases same
    cases half : isHalf n with
    | true =>
      rw [← isHalf, half, if_pos rfl]
      exact (ih read).cons (.half digits half)
    | false =>
      rw [← isHalf, half, if_neg Bool.false_ne_true]
      exact (ih read).cons (.code digits half)
  | case4 e r notCode ih =>
    simp only [Option.bind_eq_bind, Option.bind_eq_some_iff] at h
    obtain ⟨c, escaped, ⟨below, after⟩, read, same⟩ := h
    cases same
    exact (ih read).cons (.escape escaped)
  | case5 => cases h
  | case6 c r open_ notCode notEscape bad ih =>
    simp only [Option.bind_eq_bind, Option.bind_eq_some_iff] at h
    obtain ⟨⟨below, after⟩, read, same⟩ := h
    cases same
    rw [not_or] at bad
    exact (ih read).cons (.plain (Nat.le_of_not_lt bad.1) open_ bad.2)

theorem simpleEscape?_code {e c : Char} (h : simpleEscape? e = some c) : e ≠ 'u' := by
  rintro rfl
  cases h

/-- Reading one element and then the others. -/
theorem readElements?_cons {element : Element} {piece : List Char}
    (h : SpellsElement element piece) {r rest : List Char} {elements : List Element}
    (below : readElements? r = some (elements, rest)) :
    readElements? (piece ++ r) = some (element :: elements, rest) := by
  cases h with
  | plain printable open_ bare =>
    have fine : ¬ (_ < 0x20 ∨ _ = '\\') := not_or.mpr ⟨Nat.not_lt.mpr printable, bare⟩
    rw [List.singleton_append, readElements?, if_neg fine, below]
    -- It is none of the characters that the reader looks for before it.
    · rfl
    · exact open_
    · exact fun _ _ _ _ _ same => absurd same bare
    · exact fun _ _ same => absurd same bare
  | escape escaped =>
    rw [List.cons_append, List.singleton_append, readElements?, escaped, below]
    · rfl
    · exact fun _ _ _ _ _ same => absurd same (simpleEscape?_code escaped)
  | code digits whole =>
    rw [isHalf] at whole
    simp only [List.cons_append, List.nil_append, readElements?, digits, below,
      Option.bind_eq_bind, Option.bind_some, whole, Bool.false_eq_true, if_false]
  | half digits half =>
    rw [isHalf] at half
    simp only [List.cons_append, List.nil_append, readElements?, digits, below,
      Option.bind_eq_bind, Option.bind_some, half, if_true]

theorem SpellsString.read {elements : List Element} {s rest : List Char}
    (h : SpellsString elements s rest) : readElements? s = some (elements, rest) := by
  obtain ⟨pieces, spelled, rfl⟩ := h
  induction spelled with
  | nil => rfl
  | cons first spelled ih =>
    rw [List.flatten_cons, List.append_assoc]
    exact readElements?_cons first ih

theorem readString?_sound {s rest : List Char} {t : Text} (h : readString? s = some (t, rest)) :
    ∃ u, SpellsText t ('"' :: u) ∧ s = u ++ rest := by
  obtain ⟨⟨elements, after⟩, read, same⟩ := Option.map_eq_some_iff.mp h
  cases same
  obtain ⟨pieces, spelled, rfl⟩ := readElements?_sound read
  refine ⟨pieces.flatten ++ ['"'], .quoted spelled (denotesText_iff.mpr rfl), ?_⟩
  rw [List.append_assoc, List.singleton_append]

theorem SpellsText.exists_read {t : Text} {s : List Char} (h : SpellsText t s) :
    ∃ u, s = '"' :: u ∧ ∀ rest, readString? (u ++ rest) = some (t, rest) := by
  cases h with
  | quoted spelled denoted =>
    refine ⟨_, rfl, fun rest => ?_⟩
    rw [List.append_assoc, List.singleton_append, readString?,
      SpellsString.read ⟨_, spelled, rfl⟩, ← denotesText_iff.mp denoted]
    rfl

end LintBridge.Json
