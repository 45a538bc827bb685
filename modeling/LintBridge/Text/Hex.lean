/-! Octets written in hexadecimal digits, two for each. -/

namespace LintBridge.Text.Hex

def digit? (c : Char) : Option Nat :=
  if c.isDigit then some (c.toNat - 48)
  else if 'a' ≤ c && c ≤ 'f' then some (c.toNat - 87)
  else if 'A' ≤ c && c ≤ 'F' then some (c.toNat - 55)
  else none

def decodeChars : List Char → List UInt8
  | a :: b :: r =>
    UInt8.ofNat (16 * (digit? a).getD 0 + (digit? b).getD 0) :: decodeChars r
  | _ => []

/-- The octets that a text of digits writes; anything else in it counts as zero. -/
def decode (s : String) : List UInt8 := decodeChars s.toList

def encode (bytes : List UInt8) : String :=
  String.ofList (bytes.flatMap fun b =>
    [Nat.digitChar (b.toNat / 16), Nat.digitChar (b.toNat % 16)])

end LintBridge.Text.Hex
