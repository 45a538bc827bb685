import LintBridge.Toml.Scalar

/-! Quoted text in TOML: basic strings, with escapes, and literal strings, without; each on one line
or over several. -/

namespace LintBridge.Toml

/-- A control character that may stand nowhere in a document, line breaks apart. -/
def isForbidden (c : Char) : Bool := (c.toNat < 0x20 && c != '\t') || c == '\x7f'

def isBlank (c : Char) : Bool := c == ' ' || c == '\t'

/-- A text without the space at its front. -/
def skipBlank (s : List Char) : List Char := s.dropWhile isBlank

/-- The character that the given count of hexadecimal digits names, if it is one. -/
def readCodePoint? (width : Nat) (s : List Char) : Option (Char × List Char) :=
  let digits := s.take width
  let n := natIn 16 digits
  if digits.length = width ∧ digits.all isHexDigit ∧ n.isValidChar then
    some (Char.ofNat n, s.drop width)
  else none

def readEscape? : List Char → Option (Char × List Char)
  | 'b' :: r => some ('\x08', r)
  | 't' :: r => some ('\t', r)
  | 'n' :: r => some ('\n', r)
  | 'f' :: r => some ('\x0c', r)
  | 'r' :: r => some ('\r', r)
  | 'e' :: r => some ('\x1b', r)
  | '"' :: r => some ('"', r)
  | '\\' :: r => some ('\\', r)
  | 'x' :: r => readCodePoint? 2 r
  | 'u' :: r => readCodePoint? 4 r
  | 'U' :: r => readCodePoint? 8 r
  | _ => none

def readBasic? : Nat → List Char → Option (List Char × List Char)
  | 0, _ => none
  | fuel + 1, s =>
    match s with
    | [] => none
    | '"' :: r => some ([], r)
    | '\\' :: r => do
      let (c, r) ← readEscape? r
      let (rest, after) ← readBasic? fuel r
      some (c :: rest, after)
    | c :: r =>
      if isForbidden c then none
      else do
        let (rest, after) ← readBasic? fuel r
        some (c :: rest, after)

def readLiteral? (s : List Char) : Option (List Char × List Char) :=
  let body := s.takeWhile (· != '\'')
  match s.dropWhile (· != '\'') with
  | _ :: after => if body.any isForbidden then none else some (body, after)
  | [] => none

def afterNewline? : List Char → Option (List Char)
  | '\n' :: r => some r
  | '\r' :: '\n' :: r => some r
  | _ => none

/-- The text after the line break that may follow the opening quotes of a string over lines. -/
def dropFirstNewline (s : List Char) : List Char := (afterNewline? s).getD s

/-- A text without the spaces and line breaks at its front. -/
def skipLines : List Char → List Char
  | '\r' :: '\n' :: r => skipLines r
  | c :: r => if isBlank c || c == '\n' then skipLines r else c :: r
  | [] => []

/-- The quotes that end a string over lines: how many of the given quote belong to the text, if at
least three are there to end it. -/
def closing? (quote : Char) (s : List Char) : Option (List Char × List Char) :=
  let count := (s.takeWhile (· == quote)).length
  if 3 ≤ count then
    let own := min count 5 - 3
    some (List.replicate own quote, s.drop (own + 3))
  else none

def readBasicLines? : Nat → List Char → Option (List Char × List Char)
  | 0, _ => none
  | fuel + 1, s =>
    match closing? '"' s with
    | some ends => some ends
    | none =>
      match s with
      | [] => none
      | '\\' :: r =>
        if (afterNewline? (skipBlank r)).isSome then readBasicLines? fuel (skipLines r)
        else do
          let (c, r) ← readEscape? r
          let (rest, after) ← readBasicLines? fuel r
          some (c :: rest, after)
      | '\r' :: '\n' :: r => do
        let (rest, after) ← readBasicLines? fuel r
        some ('\r' :: '\n' :: rest, after)
      | c :: r =>
        if isForbidden c && c != '\n' then none
        else do
          let (rest, after) ← readBasicLines? fuel r
          some (c :: rest, after)

def readLiteralLines? : Nat → List Char → Option (List Char × List Char)
  | 0, _ => none
  | fuel + 1, s =>
    match closing? '\'' s with
    | some ends => some ends
    | none =>
      match s with
      | [] => none
      | '\r' :: '\n' :: r => do
        let (rest, after) ← readLiteralLines? fuel r
        some ('\r' :: '\n' :: rest, after)
      | c :: r =>
        if isForbidden c && c != '\n' then none
        else do
          let (rest, after) ← readLiteralLines? fuel r
          some (c :: rest, after)

/-- Reads a string of any of the four kinds, if one stands at the front of a text. -/
def readString? (s : List Char) : Option (List Char × List Char) :=
  match s with
  | '"' :: '"' :: '"' :: r => readBasicLines? (r.length + 1) (dropFirstNewline r)
  | '\'' :: '\'' :: '\'' :: r => readLiteralLines? (r.length + 1) (dropFirstNewline r)
  | '"' :: r => readBasic? (r.length + 1) r
  | '\'' :: r => readLiteral? r
  | _ => none

end LintBridge.Toml
