import LintBridge.Json.Basic

/-! Reading JSON. Every text of the grammar is read, at any depth, and no other. Numbers may have
any size, and a string literal may spell half of a surrogate pair; what a reader of the value makes
of those is its own matter. -/

namespace LintBridge.Json

open LintBridge.Text

def isSpace (c : Char) : Bool := c == ' ' || c == '\t' || c == '\n' || c == '\r'

/-- A text without the white space at its front. -/
def skipSpace (s : List Char) : List Char := s.dropWhile isSpace

def hexDigitValue? (c : Char) : Option Nat :=
  if c.isDigit then some (c.toNat - 48)
  else if 'a' ≤ c ∧ c ≤ 'f' then some (c.toNat - 87)
  else if 'A' ≤ c ∧ c ≤ 'F' then some (c.toNat - 55)
  else none

/-- The number that four hexadecimal digits at the front of a text write. -/
def readHex4? : List Char → Option (Nat × List Char)
  | a :: b :: c :: d :: r => do
    let a ← hexDigitValue? a
    let b ← hexDigitValue? b
    let c ← hexDigitValue? c
    let d ← hexDigitValue? d
    some (4096 * a + 256 * b + 16 * c + d, r)
  | _ => none

def simpleEscape? : Char → Option Char
  | '"' => some '"'
  | '\\' => some '\\'
  | '/' => some '/'
  | 'b' => some '\x08'
  | 'f' => some '\x0c'
  | 'n' => some '\n'
  | 'r' => some '\r'
  | 't' => some '\t'
  | _ => none

def isHighUnit (n : Nat) : Bool := 0xD800 ≤ n && n < 0xDC00

def isLowUnit (n : Nat) : Bool := 0xDC00 ≤ n && n < 0xE000

/-- What one element of a string literal denotes. -/
inductive Element where
  | char (c : Char)
  | unit (n : Nat)
  deriving DecidableEq, Repr

/-- Reads the elements of a string literal up to and with its closing quote. -/
def readElements? : List Char → Option (List Element × List Char)
  | [] => none
  | '"' :: r => some ([], r)
  | '\\' :: 'u' :: a :: b :: c :: d :: r => do
    let (n, _) ← readHex4? [a, b, c, d]
    let (rest, after) ← readElements? r
    let element := if isHighUnit n || isLowUnit n then .unit n else .char (Char.ofNat n)
    some (element :: rest, after)
  | '\\' :: e :: r => do
    let c ← simpleEscape? e
    let (rest, after) ← readElements? r
    some (.char c :: rest, after)
  | c :: r =>
    if c.toNat < 0x20 ∨ c = '\\' then none
    else do
      let (rest, after) ← readElements? r
      some (.char c :: rest, after)

def pairChar (high low : Nat) : Char :=
  Char.ofNat (0x10000 + (high - 0xD800) * 1024 + (low - 0xDC00))

/-- The characters that elements denote: surrogate units must come in pairs. -/
def elementChars? : List Element → Option (List Char)
  | [] => some []
  | .char c :: r => (elementChars? r).map (c :: ·)
  | .unit high :: .unit low :: r =>
    if isHighUnit high && isLowUnit low then (elementChars? r).map (pairChar high low :: ·)
    else none
  | .unit _ :: _ => none

def readString? (s : List Char) : Option (Text × List Char) :=
  (readElements? s).map fun (elements, after) =>
    ((elementChars? elements).map String.ofList, after)

def readDigits? (s : List Char) : Option (List Char × List Char) :=
  match s.takeWhile Char.isDigit with
  | [] => none
  | d :: ds => some (d :: ds, s.dropWhile Char.isDigit)

/-- Reads the whole part of a number: a zero alone, or digits of which the first is no zero. -/
def readWhole? : List Char → Option (List Char × List Char)
  | '0' :: r => if r.head?.any Char.isDigit then none else some (['0'], r)
  | s => readDigits? s

/-- Reads the fraction of a number, if there is one. -/
def readFraction? : List Char → Option (List Char × List Char)
  | '.' :: r => (readDigits? r).map fun (digits, after) => ('.' :: digits, after)
  | s => some ([], s)

/-- Reads the exponent of a number, if there is one. -/
def readExponent? : List Char → Option (List Char × List Char)
  | e :: r =>
    if e == 'e' || e == 'E' then
      match r with
      | s :: t =>
        if s == '+' || s == '-' then
          (readDigits? t).map fun (digits, after) => (e :: s :: digits, after)
        else (readDigits? r).map fun (digits, after) => (e :: digits, after)
      | [] => none
    else some ([], e :: r)
  | [] => some ([], [])

def readNumber? (s : List Char) : Option (Number × List Char) := do
  let negative := s.head? == some '-'
  let (whole, r) ← readWhole? (if negative then s.drop 1 else s)
  let (fraction, r) ← readFraction? r
  let (exponent, r) ← readExponent? r
  if negative || fraction ≠ [] || exponent ≠ [] then
    let sign := if negative then ['-'] else []
    some (.other (String.ofList (sign ++ whole ++ fraction ++ exponent)), r)
  else some (.nat (natOfDigits whole), r)

def readWord? (word : List Char) (s : List Char) : Option (List Char) :=
  if word.isPrefixOf s then some (s.drop word.length) else none

mutual

/-- Reads a value after white space. The fuel bounds the number of values and of their ends. -/
def readValue? : Nat → List Char → Option (Value × List Char)
  | 0, _ => none
  | fuel + 1, s =>
    match skipSpace s with
    | '"' :: r => (readString? r).map fun (t, after) => (.string t, after)
    | '[' :: r =>
      match skipSpace r with
      | ']' :: after => some (.array [], after)
      | r => do
        let (v, after) ← readValue? fuel r
        let (vs, after) ← readItems? fuel after
        some (.array (v :: vs), after)
    | '\x7b' :: r =>
      match skipSpace r with
      | '\x7d' :: after => some (.object [], after)
      | r => do
        let (m, after) ← readMember? fuel r
        let (ms, after) ← readMembers? fuel after
        some (.object (m :: ms), after)
    | 'n' :: r => (readWord? "ull".toList r).map fun after => (.null, after)
    | 't' :: r => (readWord? "rue".toList r).map fun after => (.bool true, after)
    | 'f' :: r => (readWord? "alse".toList r).map fun after => (.bool false, after)
    | r => (readNumber? r).map fun (n, after) => (.number n, after)

/-- Reads the items of an array after the first, and its end. -/
def readItems? : Nat → List Char → Option (List Value × List Char)
  | 0, _ => none
  | fuel + 1, s =>
    match skipSpace s with
    | ']' :: after => some ([], after)
    | ',' :: r => do
      let (v, after) ← readValue? fuel r
      let (vs, after) ← readItems? fuel after
      some (v :: vs, after)
    | _ => none

def readMember? : Nat → List Char → Option ((Text × Value) × List Char)
  | 0, _ => none
  | fuel + 1, s =>
    match skipSpace s with
    | '"' :: r => do
      let (name, after) ← readString? r
      match skipSpace after with
      | ':' :: after =>
        let (v, after) ← readValue? fuel after
        some ((name, v), after)
      | _ => none
    | _ => none

/-- Reads the members of an object after the first, and its end. -/
def readMembers? : Nat → List Char → Option (List (Text × Value) × List Char)
  | 0, _ => none
  | fuel + 1, s =>
    match skipSpace s with
    | '\x7d' :: after => some ([], after)
    | ',' :: r => do
      let (m, after) ← readMember? fuel r
      let (ms, after) ← readMembers? fuel after
      some (m :: ms, after)
    | _ => none

end

def parse? (s : String) : Option Value := do
  let (v, rest) ← readValue? (2 * s.length + 2) s.toList
  if (skipSpace rest).isEmpty then some v else none

/-! ### Records -/

/-- A field of a record: its name, and its value where it is left out, if it may be. -/
structure Field where
  name : String
  default : Option Value := none

/-- The values that the members of an object give the fields of a record: each field once, and every
other member passed over, as long as its name is a text. -/
def fieldsOfMembers? (fields : List Field) (members : List (Text × Value)) :
    Option (List Value) :=
  if members.all (·.1.isSome) then
    fields.mapM fun field =>
      match members.filter (·.1 == some field.name) with
      | [] => field.default
      | [m] => some m.2
      | _ => none
  else none

/-- The values that the items of an array give the fields of a record, in their order. -/
def fieldsOfItems? : List Field → List Value → Option (List Value)
  | [], [] => some []
  | [], _ :: _ => none
  | _ :: fields, v :: vs => (fieldsOfItems? fields vs).map (v :: ·)
  | field :: fields, [] => do
    let v ← field.default
    let rest ← fieldsOfItems? fields []
    some (v :: rest)

/-- The values of the fields of a record, which is written as an object or as an array. -/
def fields? (fields : List Field) : Value → Option (List Value)
  | .object members => fieldsOfMembers? fields members
  | .array items => fieldsOfItems? fields items
  | _ => none

end LintBridge.Json
