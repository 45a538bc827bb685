import LintBridge.Proofs.Text.Utf8
import LintBridge.Text.Blank

/-! The text that stands for octets which need not be one.  It has the ASCII characters of the
octets, `mem_lossy_iff`, and if it has no replacement character then the octets encode it,
`ofString_lossy`.  So octets are read as a word, in whatever case, just if they encode it:
`eqIgnoringAsciiCase_lossy`. -/

namespace LintBridge.Text.Utf8

variable {s rest : List UInt8} {a b : UInt8} {c : Char}

/-! ### ASCII -/

section Taken

variable {range : UInt8 × UInt8}

theorem high_of_isTail (h : isTail b = true) : 0x80 ≤ b.toNat := (isTail_iff.mp h).1

theorem high_readThree (of_ : secondOfThree? a = some range) :
    ∀ b ∈ rest.take (readThree a range rest).2, 0x80 ≤ b.toNat := by
  have second {d : UInt8} (within : (range.1 ≤ d && d ≤ range.2) = true) : 0x80 ≤ d.toNat :=
    (areFirstOfThree_iff_range.mpr ⟨range, of_, within⟩).second.1
  unfold readThree
  split
  next d e rest =>
    split
    next within =>
      split
      next third => simp [second within, high_of_isTail third]
      next => simp [second within]
    next => simp
  next d =>
    split
    next within => simp [second within]
    next => simp
  next => simp

theorem high_readFour (of_ : secondOfFour? a = some range) :
    ∀ b ∈ rest.take (readFour a range rest).2, 0x80 ≤ b.toNat := by
  have second {d : UInt8} (within : (range.1 ≤ d && d ≤ range.2) = true) : 0x80 ≤ d.toNat :=
    (areFirstOfFour_iff_range.mpr ⟨range, of_, within⟩).second.1
  unfold readFour
  split
  next d rest =>
    split
    next within =>
      split
      next e f rest =>
        split
        next third =>
          split
          next fourth => simp [second within, high_of_isTail third, high_of_isTail fourth]
          next => simp [second within, high_of_isTail third]
        next => simp [second within]
      next e =>
        split
        next third => simp [second within, high_of_isTail third]
        next => simp [second within]
      next => simp [second within]
    next => simp
  next => simp

/-- No ASCII octet is taken with the one before it. -/
theorem high_readPiece : ∀ b ∈ rest.take (readPiece a rest).2, 0x80 ≤ b.toNat := by
  unfold readPiece
  split
  next => simp
  next =>
  split
  next =>
    split
    next d rest =>
      split
      next second => simp [high_of_isTail second]
      next => simp
    next => simp
  next =>
  split
  next _ _ of_ => exact high_readThree of_
  next _ _ of_ => exact high_readFour of_
  next => simp

end Taken

theorem utf8EncodeChar_of_ascii (ascii : c.toNat < 0x80) :
    String.utf8EncodeChar c = [UInt8.ofNat c.toNat] := by
  rw [utf8EncodeChar_eq, if_pos (Nat.le_of_lt_succ ascii)]

/-- An ASCII character is read just where its octet stands. -/
theorem toChar_readPiece_iff (ascii : c.toNat < 0x80) :
    (readPiece a rest).1.toChar = c ↔ a = UInt8.ofNat c.toNat := by
  constructor
  · intro read
    cases piece : readPiece a rest with
    | mk first n =>
      rw [piece] at read
      cases first with
      | char d =>
        obtain rfl : d = c := read
        obtain ⟨tail, spelled, -⟩ := completes_of_readPiece piece
        have octets := spelled.encode
        rw [utf8EncodeChar_of_ascii ascii] at octets
        exact (List.cons.inj octets).1.symm
      | broken =>
        obtain rfl : '\uFFFD' = c := read
        exact absurd ascii (by decide)
  · rintro rfl
    have number : (UInt8.ofNat c.toNat).toNat = c.toNat := toNat_ofNat_of_lt (by omega)
    have small : UInt8.ofNat c.toNat < 0x80 := by
      rw [UInt8.lt_iff_toNat_lt, number]
      exact ascii
    unfold readPiece
    rw [if_pos small, number, Char.ofNat_toNat]
    rfl

theorem toList_lossy (s : List UInt8) : (lossy s).toList = (decode s).map Piece.toChar := by
  rw [lossy, String.toList_ofList]

/-- The ASCII characters that are read are those whose octets are there. -/
theorem mem_lossy_iff (ascii : c.toNat < 0x80) :
    c ∈ (lossy s).toList ↔ UInt8.ofNat c.toNat ∈ s := by
  rw [toList_lossy]
  induction s using decode.induct with
  | case1 => simp [decode]
  | case2 a rest piece =>
    rename_i ih
    have high : UInt8.ofNat c.toNat ∉ rest.take piece.2 := fun member => by
      have := high_readPiece _ member
      rw [toNat_ofNat_of_lt (by omega)] at this
      omega
    have parts : UInt8.ofNat c.toNat ∈ rest ↔ UInt8.ofNat c.toNat ∈ rest.drop piece.2 := by
      refine ⟨fun member => ?_, List.mem_of_mem_drop⟩
      rw [← List.take_append_drop piece.2 rest] at member
      exact (List.mem_append.mp member).resolve_left high
    rw [decode, List.map_cons, List.mem_cons, List.mem_cons, ih, parts, eq_comm,
      toChar_readPiece_iff ascii, eq_comm]

/-! ### Octets that are texts -/

/-- Where no replacement character is read, the octets encode what is read. -/
theorem ofString_lossy (whole : '\uFFFD' ∉ (lossy s).toList) : ofString (lossy s) = s := by
  have pieces : decode s = (lossy s).toList.map .char := by
    rw [toList_lossy, List.map_map]
    refine (List.map_id (decode s)).symm.trans (List.map_congr_left fun piece member => ?_)
    cases piece with
    | char c => rfl
    | broken =>
      rw [toList_lossy] at whole
      exact absurd (List.mem_map_of_mem member) whole
  have read : strict? s = some (lossy s) := by
    rw [strict?, pieces, mapM_char?_map_char, Option.map_some, String.ofList_toList]
  exact (strict?_eq_some.mp read).symm

/-- Octets are read as a text without replacement characters just if they encode it. -/
theorem lossy_eq_iff {t : String} (whole : '\uFFFD' ∉ t.toList) :
    lossy s = t ↔ s = ofString t := by
  constructor
  · rintro rfl
    exact (ofString_lossy whole).symm
  · rintro rfl
    exact lossy_of_strict? (strict?_eq_some.mpr rfl)

theorem toList_asciiLower (t : String) : (asciiLower t).toList = t.toList.map Char.toLower := by
  rw [asciiLower, String.toList_map]

theorem toLower_mem_of_eqIgnoringAsciiCase {t word : String}
    (same : eqIgnoringAsciiCase t word = true) (member : c ∈ t.toList) :
    c.toLower ∈ word.toList.map Char.toLower := by
  rw [← toList_asciiLower, ← beq_iff_eq.mp same, toList_asciiLower]
  exact List.mem_map_of_mem member

/-- Octets are read as a word without replacement characters, whatever the case, just if they encode
the word in a case. -/
theorem eqIgnoringAsciiCase_lossy {word : String}
    (whole : '\uFFFD' ∉ word.toList.map Char.toLower) :
    eqIgnoringAsciiCase (lossy s) word = true ↔
      ∃ t, s = ofString t ∧ eqIgnoringAsciiCase t word = true := by
  constructor
  · intro same
    have read : '\uFFFD' ∉ (lossy s).toList := fun member =>
      whole (toLower_mem_of_eqIgnoringAsciiCase same member)
    exact ⟨lossy s, (ofString_lossy read).symm, same⟩
  · rintro ⟨t, rfl, same⟩
    rwa [lossy_of_strict? (strict?_eq_some.mpr rfl)]

end LintBridge.Text.Utf8
