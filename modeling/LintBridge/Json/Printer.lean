import LintBridge.Json.Basic

/-! JSON as text, in one line without spaces, or laid out with one member or item a line. In a
string, quotes, backslashes and control characters below U+0020 are escaped, and nothing else. -/

namespace LintBridge.Json

open LintBridge.Text

def hexChar (n : Nat) : Char := Nat.digitChar n

def escapeChar (c : Char) : List Char :=
  if c == '"' then ['\\', '"']
  else if c == '\\' then ['\\', '\\']
  else if c == '\x08' then ['\\', 'b']
  else if c == '\x0c' then ['\\', 'f']
  else if c == '\n' then ['\\', 'n']
  else if c == '\r' then ['\\', 'r']
  else if c == '\t' then ['\\', 't']
  else if c.toNat < 0x20 then
    ['\\', 'u', '0', '0', hexChar (c.toNat / 16), hexChar (c.toNat % 16)]
  else [c]

/-- A string literal. A literal that denotes no text is written as half of a surrogate pair. -/
def quoted : Text → List Char
  | some s => '"' :: (s.toList.flatMap escapeChar ++ ['"'])
  | none => "\"\\ud800\"".toList

def Number.chars : Number → List Char
  | .nat n => natChars n
  | .other literal => literal.toList

namespace Value

mutual

/-- A value in one line, without spaces. -/
def compactChars : Value → List Char
  | .null => "null".toList
  | .bool true => "true".toList
  | .bool false => "false".toList
  | .number n => n.chars
  | .string s => quoted s
  | .array [] => ['[', ']']
  | .array (v :: vs) => '[' :: (compactChars v ++ compactItems vs)
  | .object [] => ['\x7b', '\x7d']
  | .object (m :: ms) => '\x7b' :: (quoted m.1 ++ ':' :: (compactChars m.2 ++ compactMembers ms))

/-- The items of an array after the first, and its end. -/
def compactItems : List Value → List Char
  | [] => [']']
  | v :: vs => ',' :: (compactChars v ++ compactItems vs)

/-- The members of an object after the first, and its end. -/
def compactMembers : List (Text × Value) → List Char
  | [] => ['\x7d']
  | m :: ms => ',' :: (quoted m.1 ++ ':' :: (compactChars m.2 ++ compactMembers ms))

end

def newLine (depth : Nat) : List Char := '\n' :: List.replicate (2 * depth) ' '

mutual

/-- A value with each item and member on a line of its own, at a depth of indentation. -/
def prettyChars (depth : Nat) : Value → List Char
  | .null => "null".toList
  | .bool true => "true".toList
  | .bool false => "false".toList
  | .number n => n.chars
  | .string s => quoted s
  | .array [] => ['[', ']']
  | .array (v :: vs) =>
    '[' :: (newLine (depth + 1) ++ prettyChars (depth + 1) v ++ prettyItems depth vs)
  | .object [] => ['\x7b', '\x7d']
  | .object (m :: ms) =>
    '\x7b' :: (newLine (depth + 1) ++ quoted m.1 ++ ':' :: ' ' :: prettyChars (depth + 1) m.2 ++
      prettyMembers depth ms)

/-- The items of an array after the first, and its end. -/
def prettyItems (depth : Nat) : List Value → List Char
  | [] => newLine depth ++ [']']
  | v :: vs => ',' :: (newLine (depth + 1) ++ prettyChars (depth + 1) v ++ prettyItems depth vs)

/-- The members of an object after the first, and its end. -/
def prettyMembers (depth : Nat) : List (Text × Value) → List Char
  | [] => newLine depth ++ ['\x7d']
  | m :: ms =>
    ',' :: (newLine (depth + 1) ++ quoted m.1 ++ ':' :: ' ' :: prettyChars (depth + 1) m.2 ++
      prettyMembers depth ms)

end

/-- A value in one line, without spaces. -/
def compact (v : Value) : String := String.ofList v.compactChars

/-- A value laid out over lines, indented by two spaces a level. -/
def pretty (v : Value) : String := String.ofList (v.prettyChars 0)

end Value

end LintBridge.Json
