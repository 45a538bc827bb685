import LintBridge.Text.Utf8
import Mathlib.Tactic.MkIffOfInductiveProp

/-! Which octets are texts.  A character is spelled by one to four octets: `SpellsChar` lists the
ranges that these are in.  A character is encoded as octets that spell it and as no others, and just
these are read as it: `readPiece_of_spellsChar` and `completes_of_readPiece`.  So a list of octets
is read as a text just if it is the encoding of the text: `strict?_eq_some`. -/

namespace LintBridge.Text.Utf8

/-! ### Octets of a character -/

/-- The first two octets of a character of three.  A character that two octets can spell is not
spelled by three, and half of a surrogate pair is no character. -/
@[mk_iff]
structure AreFirstOfThree (a b : UInt8) : Prop where
  first : 0xE0 ≤ a.toNat ∧ a.toNat ≤ 0xEF
  second : 0x80 ≤ b.toNat ∧ b.toNat ≤ 0xBF
  needed : a.toNat = 0xE0 → 0xA0 ≤ b.toNat
  whole : a.toNat = 0xED → b.toNat ≤ 0x9F

/-- The first two octets of a character of four.  A character that three octets can spell is not
spelled by four, and characters end at `0x10FFFF`. -/
@[mk_iff]
structure AreFirstOfFour (a b : UInt8) : Prop where
  first : 0xF0 ≤ a.toNat ∧ a.toNat ≤ 0xF4
  second : 0x80 ≤ b.toNat ∧ b.toNat ≤ 0xBF
  needed : a.toNat = 0xF0 → 0x90 ≤ b.toNat
  whole : a.toNat = 0xF4 → b.toNat ≤ 0x8F

/-- Octets spell a character. -/
inductive SpellsChar (c : Char) : List UInt8 → Prop
  | one {a : UInt8} (first : a.toNat < 0x80) (number : c.toNat = a.toNat) : SpellsChar c [a]
  | two {a b : UInt8} (first : 0xC2 ≤ a.toNat ∧ a.toNat ≤ 0xDF) (second : isTail b = true)
      (number : c.toNat = a.toNat % 32 * 64 + low6 b) : SpellsChar c [a, b]
  | three {a b d : UInt8} (first : AreFirstOfThree a b) (third : isTail d = true)
      (number : c.toNat = a.toNat % 16 * 4096 + low6 b * 64 + low6 d) : SpellsChar c [a, b, d]
  | four {a b d e : UInt8} (first : AreFirstOfFour a b) (third : isTail d = true)
      (fourth : isTail e = true)
      (number : c.toNat = a.toNat % 8 * 262144 + low6 b * 4096 + low6 d * 64 + low6 e) :
      SpellsChar c [a, b, d, e]

theorem isTail_iff {b : UInt8} : isTail b = true ↔ 0x80 ≤ b.toNat ∧ b.toNat ≤ 0xBF := by
  simp [isTail, UInt8.le_iff_toNat_le]

theorem areFirstOfThree_iff_range {a b : UInt8} : AreFirstOfThree a b ↔
    ∃ range, secondOfThree? a = some range ∧ (range.1 ≤ b && b ≤ range.2) = true := by
  rw [areFirstOfThree_iff]
  unfold secondOfThree?
  simp only [beq_iff_eq, ← UInt8.toNat_inj, UInt8.le_iff_toNat_le, Bool.and_eq_true,
    decide_eq_true_eq, UInt8.reduceToNat]
  repeat' split
  all_goals
    simp
    omega

theorem areFirstOfFour_iff_range {a b : UInt8} : AreFirstOfFour a b ↔
    ∃ range, secondOfFour? a = some range ∧ (range.1 ≤ b && b ≤ range.2) = true := by
  rw [areFirstOfFour_iff]
  unfold secondOfFour?
  simp only [beq_iff_eq, ← UInt8.toNat_inj, UInt8.le_iff_toNat_le, Bool.and_eq_true,
    decide_eq_true_eq, UInt8.reduceToNat]
  repeat' split
  all_goals
    simp
    omega

/-- The octets that a character is encoded as, by its number. -/
theorem utf8EncodeChar_eq (c : Char) : String.utf8EncodeChar c =
    if c.toNat ≤ 127 then [UInt8.ofNat c.toNat]
    else if c.toNat ≤ 2047 then
      [UInt8.ofNat (c.toNat / 64 % 32 + 192), UInt8.ofNat (c.toNat % 64 + 128)]
    else if c.toNat ≤ 65535 then
      [UInt8.ofNat (c.toNat / 4096 % 16 + 224), UInt8.ofNat (c.toNat / 64 % 64 + 128),
        UInt8.ofNat (c.toNat % 64 + 128)]
    else
      [UInt8.ofNat (c.toNat / 262144 % 8 + 240), UInt8.ofNat (c.toNat / 4096 % 64 + 128),
        UInt8.ofNat (c.toNat / 64 % 64 + 128), UInt8.ofNat (c.toNat % 64 + 128)] := rfl

theorem ofNat_eq {a : UInt8} {n : Nat} (h : n = a.toNat) : UInt8.ofNat n = a := by
  rw [h, UInt8.ofNat_toNat]

/-- No other octets spell a character than those that it is encoded as. -/
theorem SpellsChar.encode {c : Char} {s : List UInt8} (h : SpellsChar c s) :
    String.utf8EncodeChar c = s := by
  rw [utf8EncodeChar_eq]
  cases h with
  | @one a first number => rw [if_pos (by omega), ofNat_eq number]
  | @two a b first second number =>
    rw [isTail_iff] at second
    unfold low6 at number
    rw [if_neg (by omega), if_pos (by omega), ofNat_eq (a := a) (by omega),
      ofNat_eq (a := b) (by omega)]
  | @three a b d first third number =>
    rw [isTail_iff] at third
    obtain ⟨first, second, needed, whole⟩ := first
    unfold low6 at number
    rw [if_neg (by omega), if_neg (by omega), if_pos (by omega), ofNat_eq (a := a) (by omega),
      ofNat_eq (a := b) (by omega), ofNat_eq (a := d) (by omega)]
  | @four a b d e first third fourth number =>
    rw [isTail_iff] at third fourth
    obtain ⟨first, second, needed, whole⟩ := first
    unfold low6 at number
    rw [if_neg (by omega), if_neg (by omega), if_neg (by omega), ofNat_eq (a := a) (by omega),
      ofNat_eq (a := b) (by omega), ofNat_eq (a := d) (by omega), ofNat_eq (a := e) (by omega)]

theorem toNat_ofNat_of_lt {n : Nat} (h : n < 256) : (UInt8.ofNat n).toNat = n := by
  rw [UInt8.toNat_ofNat', Nat.mod_eq_of_lt h]

theorem isTail_ofNat (n : Nat) : isTail (UInt8.ofNat (n % 64 + 128)) = true := by
  rw [isTail_iff, toNat_ofNat_of_lt (by omega)]
  omega

theorem low6_ofNat (n : Nat) : low6 (UInt8.ofNat (n % 64 + 128)) = n % 64 := by
  rw [low6, toNat_ofNat_of_lt (by omega)]
  omega

theorem spellsChar_encode (c : Char) : SpellsChar c (String.utf8EncodeChar c) := by
  have valid : c.toNat.isValidChar := c.valid
  unfold Nat.isValidChar at valid
  rw [utf8EncodeChar_eq]
  split
  next small =>
    have first := toNat_ofNat_of_lt (n := c.toNat) (by omega)
    exact .one (by omega) first.symm
  next =>
  split
  next small =>
    have first := toNat_ofNat_of_lt (n := c.toNat / 64 % 32 + 192) (by omega)
    exact .two (by omega) (isTail_ofNat _) (by rw [first, low6_ofNat]; omega)
  next =>
  split
  next small =>
    have first := toNat_ofNat_of_lt (n := c.toNat / 4096 % 16 + 224) (by omega)
    have second := toNat_ofNat_of_lt (n := c.toNat / 64 % 64 + 128) (by omega)
    refine .three ?_ (isTail_ofNat _) (by rw [first, low6_ofNat, low6_ofNat]; omega)
    constructor <;> omega
  next =>
    have first := toNat_ofNat_of_lt (n := c.toNat / 262144 % 8 + 240) (by omega)
    have second := toNat_ofNat_of_lt (n := c.toNat / 4096 % 64 + 128) (by omega)
    refine .four ?_ (isTail_ofNat _) (isTail_ofNat _)
      (by rw [first, low6_ofNat, low6_ofNat, low6_ofNat]; omega)
    constructor <;> omega

/-! ### Reading -/

theorem secondOfThree?_eq_none {a : UInt8} (h : 0xF0 ≤ a.toNat) : secondOfThree? a = none := by
  unfold secondOfThree?
  simp only [beq_iff_eq, ← UInt8.toNat_inj, UInt8.le_iff_toNat_le, Bool.and_eq_true,
    decide_eq_true_eq, UInt8.reduceToNat]
  rw [if_neg (by omega), if_neg (by omega), if_neg (by omega)]

/-- What spells a character is read as it. -/
theorem readPiece_of_spellsChar {c : Char} {a : UInt8} {tail : List UInt8}
    (h : SpellsChar c (a :: tail)) (rest : List UInt8) :
    readPiece a (tail ++ rest) = (.char c, tail.length) := by
  have isOf {n : Nat} (number : c.toNat = n) : Char.ofNat n = c := by
    rw [← number, Char.ofNat_toNat]
  unfold readPiece
  simp only [UInt8.lt_iff_toNat_lt, UInt8.le_iff_toNat_le, Bool.and_eq_true, decide_eq_true_eq,
    UInt8.reduceToNat]
  cases h with
  | one first number =>
    rw [if_pos first, isOf number]
    rfl
  | two first second number =>
    rw [if_neg (by omega), if_pos first]
    simp only [List.cons_append, List.nil_append, second, if_true, isOf number]
    rfl
  | three first third number =>
    obtain ⟨range, of_, within⟩ := areFirstOfThree_iff_range.mp first
    have first := first.first
    rw [if_neg (by omega), if_neg (by omega)]
    simp only [of_, List.cons_append, List.nil_append, readThree, within, third, if_true,
      isOf number]
    rfl
  | four first third fourth number =>
    obtain ⟨range, of_, within⟩ := areFirstOfFour_iff_range.mp first
    have first := first.first
    rw [if_neg (by omega), if_neg (by omega), secondOfThree?_eq_none (by omega)]
    simp only [of_, List.cons_append, List.nil_append, readFour, within, third, fourth, if_true,
      isOf number]
    rfl

theorem toNat_ofNat_of_isValidChar {n : Nat} (h : n.isValidChar) : (Char.ofNat n).toNat = n := by
  rw [Char.ofNat, dif_pos h]
  rfl

/-- The octets after the first one begin with what makes a character of it. -/
def Completes (a : UInt8) (rest : List UInt8) (c : Char) (n : Nat) : Prop :=
  ∃ tail, SpellsChar c (a :: tail) ∧ tail <+: rest ∧ n = tail.length

section Read

variable {a : UInt8} {rest : List UInt8} {range : UInt8 × UInt8} {c : Char} {n : Nat}

theorem completes_of_readThree (of_ : secondOfThree? a = some range)
    (h : readThree a range rest = (.char c, n)) : Completes a rest c n := by
  unfold readThree at h
  split at h
  next b d rest =>
    split at h
    next within =>
      split at h
      next third =>
        cases h
        have first := areFirstOfThree_iff_range.mpr ⟨range, of_, within⟩
        refine ⟨[b, d], .three first third (toNat_ofNat_of_isValidChar ?_), ⟨rest, rfl⟩, rfl⟩
        rw [isTail_iff] at third
        obtain ⟨first, second, needed, whole⟩ := first
        unfold low6 Nat.isValidChar
        omega
      next => cases h
    next => cases h
  next => split at h <;> cases h
  next => cases h

theorem completes_of_readFour (of_ : secondOfFour? a = some range)
    (h : readFour a range rest = (.char c, n)) : Completes a rest c n := by
  unfold readFour at h
  split at h
  next b rest =>
    split at h
    next within =>
      split at h
      next d e rest =>
        split at h
        next third =>
          split at h
          next fourth =>
            cases h
            have first := areFirstOfFour_iff_range.mpr ⟨range, of_, within⟩
            refine ⟨[b, d, e], .four first third fourth (toNat_ofNat_of_isValidChar ?_),
              ⟨rest, rfl⟩, rfl⟩
            rw [isTail_iff] at third fourth
            obtain ⟨first, second, needed, whole⟩ := first
            unfold low6 Nat.isValidChar
            omega
          next => cases h
        next => cases h
      next => split at h <;> cases h
      next => cases h
    next => cases h
  next => cases h

/-- What is read as a character spells it. -/
theorem completes_of_readPiece (h : readPiece a rest = (.char c, n)) : Completes a rest c n := by
  unfold readPiece at h
  split at h
  next first =>
    cases h
    have first : a.toNat < 0x80 := UInt8.lt_iff_toNat_lt.mp first
    have number := toNat_ofNat_of_isValidChar (n := a.toNat) (.inl (by omega))
    exact ⟨[], .one first number, List.nil_prefix, rfl⟩
  next =>
  split at h
  next first =>
    split at h
    next b rest =>
      split at h
      next second =>
        cases h
        have first : 0xC2 ≤ a.toNat ∧ a.toNat ≤ 0xDF := by
          simpa [UInt8.le_iff_toNat_le] using first
        refine ⟨[b], .two first second (toNat_ofNat_of_isValidChar (.inl ?_)), ⟨rest, rfl⟩, rfl⟩
        unfold low6
        omega
      next => cases h
    next => cases h
  next =>
  split at h
  next _ _ of_ => exact completes_of_readThree of_ h
  next _ _ of_ => exact completes_of_readFour of_ h
  next => cases h

end Read

/-! ### Texts -/

theorem encode_cons (c : Char) (chars : List Char) :
    encode (c :: chars) = String.utf8EncodeChar c ++ encode chars := rfl

theorem decode_encode (chars : List Char) : decode (encode chars) = chars.map .char := by
  induction chars with
  | nil => rw [encode, List.flatMap_nil, decode, List.map_nil]
  | cons c chars ih =>
    have spelled := spellsChar_encode c
    rw [encode_cons]
    cases octets : String.utf8EncodeChar c with
    | nil =>
      rw [octets] at spelled
      cases spelled
    | cons a tail =>
      rw [octets] at spelled
      rw [List.cons_append, decode, readPiece_of_spellsChar spelled, List.drop_left, ih,
        List.map_cons]

theorem char?_eq_some {piece : Piece} {c : Char} : piece.char? = some c ↔ piece = .char c := by
  cases piece <;> simp [Piece.char?]

theorem mapM_char?_map_char (chars : List Char) :
    (chars.map Piece.char).mapM Piece.char? = some chars := by
  induction chars with
  | nil => rfl
  | cons c chars ih =>
    rw [List.map_cons, List.mapM_cons, ih]
    rfl

theorem encode_of_decode {s : List UInt8} {chars : List Char}
    (h : (decode s).mapM Piece.char? = some chars) : s = encode chars := by
  -- On the pieces: each takes its first octet and those that complete it.
  induction s using decode.induct generalizing chars with
  | case1 =>
    rw [decode, List.mapM_nil] at h
    obtain rfl := Option.some.inj h
    rfl
  | case2 a rest piece =>
    rename_i ih
    rw [decode, List.mapM_cons] at h
    simp only [Option.bind_eq_bind, Option.bind_eq_some_iff, Option.pure_def, Option.some.injEq,
      char?_eq_some] at h
    obtain ⟨c, here, chars, after, rfl⟩ := h
    have read : readPiece a rest = (.char c, piece.2) := Prod.ext here rfl
    have below := ih after
    obtain ⟨tail, spelled, ⟨later, rfl⟩, count⟩ := completes_of_readPiece read
    rw [count, List.drop_left] at below
    rw [encode_cons, spelled.encode, ← below]
    rfl

/-- A list of octets is read as a text just if it is the encoding of the text. -/
theorem strict?_eq_some {s : List UInt8} {t : String} : strict? s = some t ↔ s = ofString t := by
  rw [strict?, Option.map_eq_some_iff]
  constructor
  · rintro ⟨chars, decoded, rfl⟩
    rw [ofString, String.toList_ofList, ← encode_of_decode decoded]
  · rintro rfl
    refine ⟨t.toList, ?_, String.ofList_toList⟩
    rw [ofString, decode_encode, mapM_char?_map_char]

theorem lossy_of_strict? {s : List UInt8} {t : String} (h : strict? s = some t) : lossy s = t := by
  rw [strict?_eq_some.mp h, lossy, ofString, decode_encode]
  have chars : (t.toList.map Piece.char).map Piece.toChar = t.toList := by
    rw [List.map_map]
    exact List.map_id _
  rw [chars, String.ofList_toList]

/-- Texts with the same octets are the same text. -/
theorem ofString_injective : Function.Injective ofString := fun _ _ same =>
  Option.some.inj ((strict?_eq_some.mpr rfl).symm.trans (strict?_eq_some.mpr same))

/-! ### Octets that are characters -/

theorem encode_append (s t : List Char) : encode (s ++ t) = encode s ++ encode t :=
  List.flatMap_append

theorem ofString_append (s t : String) : ofString (s ++ t) = ofString s ++ ofString t := by
  rw [ofString, String.toList_append, encode_append]
  rfl

theorem encode_eq_nil {s : List Char} : encode s = [] ↔ s = [] := by
  constructor
  · intro none
    have read := decode_encode s
    rw [none, decode] at read
    exact List.map_eq_nil_iff.mp read.symm
  · rintro rfl
    rfl

/-- An ASCII octet stands for a character alone. -/
theorem SpellsChar.eq_singleton {c : Char} {s : List UInt8} (h : SpellsChar c s) {a : UInt8}
    (member : a ∈ s) (ascii : a.toNat < 0x80) : s = [a] ∧ c.toNat = a.toNat := by
  have not_tail : ∀ {b}, isTail b = true → a ≠ b := by
    intro b tail same
    have := isTail_iff.mp tail
    rw [← same] at this
    omega
  cases h with
  | one first number =>
    obtain rfl := List.mem_singleton.mp member
    exact ⟨rfl, number⟩
  | two first second =>
    simp only [List.mem_cons, List.not_mem_nil, or_false] at member
    obtain rfl | rfl := member
    · omega
    · exact absurd rfl (not_tail second)
  | three first third =>
    obtain ⟨first, second, -, -⟩ := first
    simp only [List.mem_cons, List.not_mem_nil, or_false] at member
    obtain rfl | rfl | rfl := member
    · omega
    · omega
    · exact absurd rfl (not_tail third)
  | four first third fourth =>
    obtain ⟨first, second, -, -⟩ := first
    simp only [List.mem_cons, List.not_mem_nil, or_false] at member
    obtain rfl | rfl | rfl | rfl := member
    · omega
    · omega
    · exact absurd rfl (not_tail third)
    · exact absurd rfl (not_tail fourth)

/-- Where an ASCII octet stands in the encoding of a text, a character stands in the text, and what
is before and after the octet encodes what is before and after the character. -/
theorem exists_of_encode_eq {s : List Char} {before after : List UInt8} {a : UInt8}
    (h : encode s = before ++ a :: after) (ascii : a.toNat < 0x80) :
    ∃ front c back, s = front ++ c :: back ∧ c.toNat = a.toNat ∧
      encode front = before ∧ encode back = after := by
  induction s generalizing before with
  | nil => simp [encode] at h
  | cons c s ih =>
    have spelled := spellsChar_encode c
    rw [encode_cons] at h
    obtain ⟨more, rfl, later⟩ | ⟨part, split, later⟩ := List.append_eq_append_iff.mp h
    · -- the octets of the first character are all before the octet
      obtain ⟨front, d, back, rfl, number, rfl, rfl⟩ := ih later
      exact ⟨c :: front, d, back, rfl, number, rfl, rfl⟩
    · cases part with
      | nil =>
        rw [List.append_nil] at split
        have later : encode s = [] ++ a :: after := later.symm
        obtain ⟨front, d, back, rfl, number, none, rfl⟩ := ih later
        obtain rfl := encode_eq_nil.mp none
        exact ⟨[c], d, back, rfl, number, by rw [encode_cons, split]; simp [encode], rfl⟩
      | cons b part =>
        obtain ⟨rfl, rfl⟩ := List.cons.inj later
        have member : a ∈ String.utf8EncodeChar c := by
          rw [split]
          exact List.mem_append_right _ List.mem_cons_self
        obtain ⟨alone, number⟩ := spelled.eq_singleton member ascii
        rw [alone] at split
        obtain ⟨rfl, rest⟩ | ⟨_, rest⟩ := List.singleton_eq_append_iff.mp split
        · obtain rfl := (List.cons.inj rest).2
          exact ⟨[], c, s, rfl, number, rfl, rfl⟩
        · cases rest

end LintBridge.Text.Utf8
