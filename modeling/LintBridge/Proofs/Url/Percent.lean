import LintBridge.Proofs.Text.Utf8
import LintBridge.Url.Percent

/-! Percent escapes read back.  Where a part of a URL escapes the percent sign itself, the octets
that were written are read again, whatever follows them: `percentDecode_percentEncode`.  What is
written is ASCII, and no other character of the escape set stands in it. -/

namespace LintBridge.Url

open LintBridge.Text

theorem hexValue?_hexDigit : ∀ n < 16, hexValue? (hexDigit n) = some n := by decide

theorem toNat_hexDigit_lt : ∀ n < 16, (hexDigit n).toNat < 128 := by decide

theorem isAlphanum_hexDigit : ∀ n < 16, (hexDigit n).isAlphanum = true := by decide

/-- What an octet is written as: an escape, or a character that need not be escaped. -/
inductive Spells (e : EscapeSet) (b : UInt8) : List Char → Prop
  | escaped {m n : Nat} (high : m < 16) (low : n < 16) (number : 16 * m + n = b.toNat) :
      Spells e b ['%', hexDigit m, hexDigit n]
  | plain {c : Char} (number : c.toNat = b.toNat) (ascii : b.toNat < 127) (free : c ∉ e.chars) :
      Spells e b [c]

theorem spells_writeOctet (e : EscapeSet) (b : UInt8) : Spells e b (writeOctet e b) := by
  have bounded := b.toNat_lt
  unfold writeOctet
  split
  next => exact .escaped (by omega) (by omega) (Nat.div_add_mod _ _)
  next free =>
    have kept : (32 ≤ b.toNat ∧ b.toNat < 127) ∧ Char.ofNat b.toNat ∉ e.chars := by
      simpa [EscapeSet.escapes, UInt8.lt_iff_toNat_lt, UInt8.le_iff_toNat_le] using free
    obtain ⟨⟨-, ascii⟩, free⟩ := kept
    have valid : b.toNat.isValidChar := .inl (by omega)
    exact .plain (Utf8.toNat_ofNat_of_isValidChar valid) ascii free

section

variable {e : EscapeSet} {b : UInt8} {written : List Char} (h : Spells e b written)
include h

theorem Spells.ascii : ∀ c ∈ written, c.toNat < 128 := by
  cases h with
  | escaped high low number =>
    simp [toNat_hexDigit_lt _ high, toNat_hexDigit_lt _ low]
  | plain number ascii free =>
    rintro _ (_ | ⟨_, ⟨⟩⟩)
    omega

theorem Spells.not_mem {c : Char} (special : c ∈ e.chars) (other : c ≠ '%')
    (plain : c.isAlphanum = false) : c ∉ written := by
  cases h with
  | escaped high low number =>
    have ne_digit : ∀ n < 16, c ≠ hexDigit n := by
      rintro n below rfl
      rw [isAlphanum_hexDigit n below] at plain
      cases plain
    simp [other, ne_digit _ high, ne_digit _ low]
  | plain number ascii free =>
    rintro (_ | ⟨_, ⟨⟩⟩)
    exact free special

theorem Spells.decode (marked : '%' ∈ e.chars) (rest : List Char) :
    percentDecode (written ++ rest) = b :: percentDecode rest := by
  cases h with
  | escaped high low number =>
    simp only [List.cons_append, List.nil_append, percentDecode, hexValue?_hexDigit _ high,
      hexValue?_hexDigit _ low, number, UInt8.ofNat_toNat]
  | @plain c number ascii free =>
    have other : c ≠ '%' := fun same => free (same ▸ marked)
    have octet : String.utf8EncodeChar c = [b] := by
      rw [Utf8.utf8EncodeChar_eq, if_pos (by omega), number, UInt8.ofNat_toNat]
    rw [List.singleton_append, percentDecode, octet, List.singleton_append]
    exact fun _ _ _ same _ => other same

end

variable {e : EscapeSet} (s : List UInt8)

theorem percentDecode_percentEncode (marked : '%' ∈ e.chars) (rest : List Char) :
    percentDecode (percentEncode e s ++ rest) = s ++ percentDecode rest := by
  induction s with
  | nil => rfl
  | cons b s ih =>
    rw [percentEncode, List.flatMap_cons, ← percentEncode, List.append_assoc,
      (spells_writeOctet e b).decode marked, ih, List.cons_append]

theorem ascii_percentEncode : ∀ c ∈ percentEncode e s, c.toNat < 128 := by
  intro c within
  obtain ⟨b, -, spelled⟩ := List.mem_flatMap.mp within
  exact (spells_writeOctet e b).ascii c spelled

theorem not_mem_percentEncode {c : Char} (special : c ∈ e.chars) (other : c ≠ '%')
    (plain : c.isAlphanum = false) : c ∉ percentEncode e s := by
  intro within
  obtain ⟨b, -, spelled⟩ := List.mem_flatMap.mp within
  exact (spells_writeOctet e b).not_mem special other plain spelled

end LintBridge.Url
