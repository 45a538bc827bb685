import LintBridge.Text.Blank

/-! Texts in quotes, as logs show the values of named fields: quotes and backslashes are escaped,
and so are control characters and the white space that is not a plain space. -/

namespace LintBridge.Text

def hexDigits (n : Nat) : List Char := Nat.toDigits 16 n

def quotedChar (c : Char) : List Char :=
  match c with
  | '"' => ['\\', '"']
  | '\\' => ['\\', '\\']
  | '\n' => ['\\', 'n']
  | '\r' => ['\\', 'r']
  | '\t' => ['\\', 't']
  | '\x00' => ['\\', '0']
  | c =>
    let isControl := c.toNat < 32 || (127 ≤ c.toNat && c.toNat < 160)
    if isControl || (isBlank c && c != ' ') then
      '\\' :: 'u' :: '\x7b' :: (hexDigits c.toNat ++ ['\x7d'])
    else [c]

def quoted (s : String) : String :=
  String.ofList ('"' :: (s.toList.flatMap quotedChar ++ ['"']))

end LintBridge.Text
