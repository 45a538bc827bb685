import LintBridge.Text.Utf8

/-! Percent escapes: an octet written as `%` and two hexadecimal digits. Which octets a part of a
URL escapes is a set of its own; every set holds the control characters and all octets from 0x7F
upward, so escaped text is ASCII. -/

namespace LintBridge.Url

open LintBridge.Text

/-- The ASCII characters, besides control characters, that a part of a URL escapes. -/
structure EscapeSet where
  chars : List Char

namespace EscapeSet

/-- Text whose meaning hangs on no delimiter escapes control characters only. -/
def controls : EscapeSet := ⟨[]⟩

def fragment : EscapeSet := ⟨[' ', '"', '<', '>', '\x60']⟩

def query : EscapeSet := ⟨[' ', '"', '#', '<', '>']⟩

def specialQuery : EscapeSet := ⟨[' ', '"', '#', '<', '>', '\'']⟩

def path : EscapeSet := ⟨fragment.chars ++ ['#', '?', '{', '}']⟩

/-- What one segment of the path of a special URL escapes when it may hold any text. -/
def specialSegment : EscapeSet := ⟨path.chars ++ ['/', '%', '\\']⟩

def userinfo : EscapeSet := ⟨path.chars ++ ['/', ':', ';', '=', '@', '[', '\\', ']', '^', '|']⟩

def escapes (e : EscapeSet) (b : UInt8) : Bool :=
  b < 0x20 || 0x7F ≤ b || e.chars.contains (Char.ofNat b.toNat)

end EscapeSet

/-- The hexadecimal digit of a number below 16, in upper case. -/
def hexDigit (n : Nat) : Char :=
  if n < 10 then Char.ofNat (48 + n) else Char.ofNat (55 + n)

def hexValue? (c : Char) : Option Nat :=
  if c.isDigit then some (c.toNat - 48)
  else if 'a' ≤ c ∧ c ≤ 'f' then some (c.toNat - 87)
  else if 'A' ≤ c ∧ c ≤ 'F' then some (c.toNat - 55)
  else none

def escapeOctet (b : UInt8) : List Char :=
  ['%', hexDigit (b.toNat / 16), hexDigit (b.toNat % 16)]

def writeOctet (e : EscapeSet) (b : UInt8) : List Char :=
  if e.escapes b then escapeOctet b else [Char.ofNat b.toNat]

def percentEncode (e : EscapeSet) (s : List UInt8) : List Char := s.flatMap (writeOctet e)

def writeChar (e : EscapeSet) (c : Char) : List Char :=
  percentEncode e (String.utf8EncodeChar c)

/-- The octets that a text with percent escapes stands for; a `%` without two hexadecimal digits
after it stands for itself. -/
def percentDecode : List Char → List UInt8
  | [] => []
  | '%' :: a :: b :: r =>
    match hexValue? a, hexValue? b with
    | some m, some n => UInt8.ofNat (16 * m + n) :: percentDecode r
    | _, _ => 37 :: percentDecode (a :: b :: r)
  | c :: r => String.utf8EncodeChar c ++ percentDecode r

end LintBridge.Url
