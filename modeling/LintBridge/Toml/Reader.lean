import LintBridge.Toml.Quoted
import LintBridge.Toml.Table

/-! Reading a TOML document, version 1.1: a time may leave out its seconds, an inline table may run
over lines and end in a comma, and arrays and inline tables nest up to a fixed depth. -/

namespace LintBridge.Toml

def maxDepth : Nat := 80

/-- A character of a key without quotes. -/
def isBareKeyChar (c : Char) : Bool := c.isAlphanum || c == '_' || c == '-'

def readKeyPart? (s : List Char) : Option (String × List Char) :=
  match s with
  | '"' :: '"' :: '"' :: _ => none
  | '\'' :: '\'' :: '\'' :: _ => none
  | '"' :: _ | '\'' :: _ => (readString? s).map fun (k, r) => (String.ofList k, r)
  | _ =>
    match s.takeWhile isBareKeyChar with
    | [] => none
    | k => some (String.ofList k, s.dropWhile isBareKeyChar)

/-- Reads a key of one or more parts with dots between them: its parts but the last, the last part,
and what follows the space after it. -/
def readKey? : Nat → List Char → Option (List String × String × List Char)
  | 0, _ => none
  | fuel + 1, s => do
    let (part, r) ← readKeyPart? (skipBlank s)
    match skipBlank r with
    | '.' :: r =>
      let (path, key, r) ← readKey? fuel r
      some (part :: path, key, r)
    | r => some ([], part, r)

/-- The text from the end of the line on, at a text that goes on with a comment or not. -/
def skipComment? : List Char → Option (List Char)
  | '#' :: r =>
    let comment := r.takeWhile fun c => c != '\n' && c != '\r'
    if comment.any isForbidden then none else some (r.dropWhile fun c => c != '\n' && c != '\r')
  | s => some s

/-- The text after spaces, comments and line breaks. -/
def skipTrivia? : Nat → List Char → Option (List Char)
  | 0, _ => none
  | fuel + 1, s => do
    let r ← skipComment? (skipBlank s)
    match afterNewline? r with
    | some r => skipTrivia? fuel r
    | none => some r

/-- A character that ends a value without quotes. -/
def endsScalar (c : Char) : Bool :=
  isBlank c || c == '\n' || c == '\r' || ",]\x7d#=\"'[\x7b".toList.contains c

/-- The text of a value without quotes at the front of a text; a space may stand between a date and
a time. -/
def scalarText (s : List Char) : List Char :=
  let first := s.takeWhile (!endsScalar ·)
  match readDate? first, s.drop first.length with
  | some (_, []), ' ' :: d :: r =>
    if d.isDigit then first ++ ' ' :: (d :: r).takeWhile (!endsScalar ·) else first
  | _, _ => first

mutual

/-- Reads a value. The depth counts how much deeper arrays and inline tables may nest. -/
def readValue? : Nat → Nat → List Char → Option (Value × List Char)
  | 0, _, _ => none
  | fuel + 1, depth, s =>
    match s with
    | '"' :: _ | '\'' :: _ => (readString? s).map fun (t, r) => (.string (String.ofList t), r)
    | '[' :: r =>
      if depth = 0 then none
      else do
        let (items, r) ← readItems? fuel (depth - 1) r
        some (.array items, r)
    | '\x7b' :: r =>
      if depth = 0 then none
      else do
        let (members, r) ← readInline? fuel (depth - 1) [] r
        some (.table (membersToValues members), r)
    | _ =>
      let text := scalarText s
      (scalar? text).map fun v => (v, s.drop text.length)

def readItems? : Nat → Nat → List Char → Option (List Value × List Char)
  | 0, _, _ => none
  | fuel + 1, depth, s => do
    match ← skipTrivia? (s.length + 1) s with
    | ']' :: r => some ([], r)
    | r =>
      let (v, r) ← readValue? fuel depth r
      match ← skipTrivia? (r.length + 1) r with
      | ',' :: r =>
        let (items, r) ← readItems? fuel depth r
        some (v :: items, r)
      | ']' :: r => some ([v], r)
      | _ => none

/-- Reads the members of an inline table and its closing brace, after those read already. -/
def readInline? : Nat → Nat → Members → List Char → Option (Members × List Char)
  | 0, _, _, _ => none
  | fuel + 1, depth, members, s => do
    match ← skipTrivia? (s.length + 1) s with
    | '\x7d' :: r => some (members, r)
    | r =>
      let (path, key, r) ← readKey? (r.length + 1) r
      let r ← after? '=' r
      let (v, r) ← readValue? fuel depth (skipBlank r)
      let members ← Members.assign? v key path members
      match ← skipTrivia? (r.length + 1) r with
      | ',' :: r => readInline? fuel depth members r
      | '\x7d' :: r => some (members, r)
      | _ => none

end

/-- A line of a document that says something. -/
inductive Statement where
  /-- A header of a table: its path and its key. -/
  | table (path : List String) (key : String)
  | item (path : List String) (key : String)
  | assign (path : List String) (key : String) (v : Value)

def readStatement? (s : List Char) : Option (Statement × List Char) :=
  match s with
  | '[' :: '[' :: r => do
    let (path, key, r) ← readKey? (r.length + 1) r
    match r with
    | ']' :: ']' :: r => some (.item path key, r)
    | _ => none
  | '[' :: r => do
    let (path, key, r) ← readKey? (r.length + 1) r
    match r with
    | ']' :: r => some (.table path key, r)
    | _ => none
  | _ => do
    let (path, key, r) ← readKey? (s.length + 1) s
    let r ← after? '=' r
    let (v, r) ← readValue? (2 * s.length + 2) maxDepth (skipBlank r)
    some (.assign path key v, r)

/-- A document while it is read: its root table, and the path of the header last seen. -/
structure Draft where
  root : Members := []
  current : List String := []

def Draft.add? (d : Draft) : Statement → Option Draft
  | .table path key => do
    let root ← Members.within? (Members.openTable? key) path d.root
    some ⟨root, path ++ [key]⟩
  | .item path key => do
    let root ← Members.within? (Members.openItem? key) path d.root
    some ⟨root, path ++ [key]⟩
  | .assign path key v => do
    let root ← Members.within? (Members.assign? v key path) d.current d.root
    some { d with root }

/-- Reads statements, each on lines of its own, up to the end of the text. -/
def readStatements? : Nat → Draft → List Char → Option Draft
  | 0, _, _ => none
  | fuel + 1, d, s => do
    match ← skipTrivia? (s.length + 1) s with
    | [] => some d
    | r =>
      let (statement, r) ← readStatement? r
      let d ← d.add? statement
      let r ← skipComment? (skipBlank r)
      match r, afterNewline? r with
      | [], _ => some d
      | _, some r => readStatements? fuel d r
      | _, none => none

/-- Reads a document, which may start with a byte order mark: the members of its root table. -/
def parse? (s : String) : Option (List (String × Value)) :=
  let chars := match s.toList with
    | '\uFEFF' :: r => r
    | r => r
  (readStatements? (chars.length + 1) {} chars).map fun d => membersToValues d.root

end LintBridge.Toml
