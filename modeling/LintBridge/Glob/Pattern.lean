import LintBridge.Glob.Regular
import LintBridge.Text.Utf8

/-! Glob patterns for paths. `?` stands for an octet and `*` for any number of them within a name,
`**` between slashes for any number of names, brackets for one octet of a set, and braces for one of
several patterns; a backslash takes the next character as it is. -/

namespace LintBridge.Glob

open LintBridge.Text

inductive Token where
  | char (c : Char)
  | any
  | many
  | anyAbove
  | anyBelow
  | anyBetween
  | set (outside : Bool) (ranges : List (Char × Char))
  | oneOf (patterns : List (List Token))
  deriving Repr

/-! ### Meaning -/

def slash : UInt8 := 47

/-- The octets that a range of characters stands for: the range goes from the last octet of its
first character to the first octet of its last one, and their other octets stand alone. -/
def byteRanges (range : Char × Char) : List (UInt8 × UInt8) :=
  let low := String.utf8EncodeChar range.1
  let high := String.utf8EncodeChar range.2
  if range.1 = range.2 then low.map fun b => (b, b)
  else
    low.dropLast.map (fun b => (b, b)) ++
      (low.getLast?.getD 0, high.head?.getD 0) :: (high.drop 1).map fun b => (b, b)

def anything : Regular := .many (.one .all)

def slashOnly : Regular := .one (.only slash)

mutual

def Token.meaning : Token → Regular
  | .char c => Regular.literal (String.utf8EncodeChar c)
  | .any => .one (.allBut slash)
  | .many => .many (.one (.allBut slash))
  | .anyAbove =>
    Regular.anyOf [.empty, slashOnly, Regular.inOrder [anything, slashOnly]]
  | .anyBelow => Regular.inOrder [slashOnly, anything]
  | .anyBetween =>
    Regular.anyOf [slashOnly, Regular.inOrder [slashOnly, anything, slashOnly]]
  | .set outside ranges => .one ⟨outside, ranges.flatMap byteRanges⟩
  | .oneOf patterns => meaningOfAny patterns

def meaningOf : List Token → Regular
  | [] => .empty
  | t :: ts => t.meaning.followedBy (meaningOf ts)

/-- What one of several patterns matches; empty ones among them do not count. -/
def meaningOfAny : List (List Token) → Regular
  | [] => .none
  | [] :: ps => meaningOfAny ps
  | p :: ps => (meaningOf p).or (meaningOfAny ps)

end

/-- What a whole pattern matches; `**` alone matches everything. -/
def meaning : List Token → Regular
  | [.anyAbove] => anything
  | tokens => meaningOf tokens

/-! ### Reading -/

/-- Adds a character to a set: after a hyphen it ends the last range. -/
def addToSet (inRange : Bool) (c : Char) : List (Char × Char) → Option (List (Char × Char))
  | ranges =>
    if inRange then
      match ranges.getLast? with
      | some (low, _) => if low ≤ c then some (ranges.dropLast ++ [(low, c)]) else none
      | none => none
    else some (ranges ++ [(c, c)])

inductive SetReading where
  | closed (ranges : List (Char × Char)) (rest : List Char)
  | unclosed
  | badRange

/-- Reads the inside of a set up to and with its closing bracket. -/
def readSet (first inRange : Bool) (ranges : List (Char × Char)) : List Char → SetReading
  | [] => .unclosed
  | c :: r =>
    if c = ']' ∧ !first then
      .closed (if inRange then ranges ++ [('-', '-')] else ranges) r
    else if c = '-' ∧ !first ∧ !inRange then readSet false true ranges r
    else
      match addToSet inRange c ranges with
      | some ranges => readSet false false ranges r
      | none => .badRange

def readBracket : List Char → Bool × SetReading
  | '!' :: r | '^' :: r => (true, readSet true false [] r)
  | r => (false, readSet true false [] r)

/-- A pattern that is being read: the alternatives read before, the last one first, and the parts of
the current one, backwards. -/
structure Open where
  before : List (List Token) := []
  parts : List Token := []

/-- The patterns that are being read, the innermost first, and the character before. -/
structure Reading where
  opens : List Open
  previous : Option Char := none

namespace Reading

def push (s : Reading) (tokens : List Token) (previous : Option Char) : Reading :=
  match s.opens with
  | [] => { s with previous }
  | o :: os => ⟨{ o with parts := tokens.reverse ++ o.parts } :: os, previous⟩

def isInner (s : Reading) : Bool := 2 ≤ s.opens.length

/-- Whether nothing of the innermost pattern has been read. -/
def isAtStart (s : Reading) : Bool := s.opens.head?.all (·.parts.isEmpty)

/-- Puts a part for `**` in the place of the slash before it, which it takes in; one that stands for
names already stays. -/
def pushBetween (s : Reading) (token : Token) (previous : Option Char) : Reading :=
  match s.opens with
  | [] => { s with previous }
  | o :: os =>
    match o.parts with
    | .anyAbove :: _ | .anyBelow :: _ => ⟨o :: os, previous⟩
    | parts => ⟨{ o with parts := token :: parts.drop 1 } :: os, previous⟩

def readStars (s : Reading) (rest : List Char) : Reading × List Char :=
  let plain := s.push [.many, .many] (some '*')
  if s.isAtStart then
    match rest with
    | [] => (s.push [.anyAbove] (some '*'), [])
    | '/' :: r => (s.push [.anyAbove] (some '/'), r)
    | _ => (plain, rest)
  else if s.previous ≠ some '/' ∧
      !(s.isInner ∧ (s.previous = some ',' ∨ s.previous = some '\x7b')) then (plain, rest)
  else
    match rest with
    | [] => (s.pushBetween .anyBelow (some '*'), [])
    | '/' :: r => (s.pushBetween .anyBetween (some '/'), r)
    | c :: _ =>
      if s.isInner ∧ (c = ',' ∨ c = '\x7d') then (s.pushBetween .anyBelow (some '*'), rest)
      else (plain, rest)

/-- Ends the innermost pattern, which stands within braces. -/
def close (s : Reading) : Option Reading :=
  match s.opens with
  | inner :: outer :: os =>
    let patterns := (inner.parts.reverse :: inner.before).reverse
    some ⟨{ outer with parts := .oneOf patterns :: outer.parts } :: os, some '\x7d'⟩
  | _ => none

def next (s : Reading) : Reading :=
  match s.opens with
  | o :: os => ⟨{ before := o.parts.reverse :: o.before, parts := [] } :: os, some ','⟩
  | [] => s

end Reading

def readPattern? : Nat → Reading → List Char → Option (List Token)
  | _, s, [] =>
    match s.opens with
    | [o] => some o.parts.reverse
    | _ => none
  | 0, _, _ :: _ => none
  | fuel + 1, s, c :: r =>
    match c with
    | '?' => readPattern? fuel (s.push [.any] (some c)) r
    | '*' =>
      match r with
      | '*' :: r =>
        let (s, r) := s.readStars r
        readPattern? fuel s r
      | _ => readPattern? fuel (s.push [.many] (some c)) r
    | '[' =>
      match readBracket r with
      | (outside, .closed ranges rest) =>
        readPattern? fuel (s.push [.set outside ranges] (some ']')) rest
      | (_, .unclosed) => readPattern? fuel (s.push [.char '['] (some c)) r
      | (_, .badRange) => none
    | '\x7b' => readPattern? fuel ⟨{} :: s.opens, some c⟩ r
    | '\x7d' => s.close.bind fun s => readPattern? fuel s r
    | ',' =>
      if s.isInner then readPattern? fuel s.next r
      else readPattern? fuel (s.push [.char c] (some c)) r
    | '\\' =>
      match r with
      | [] => none
      | d :: r => readPattern? fuel (s.push [.char d] (some d)) r
    | _ => readPattern? fuel (s.push [.char c] (some c)) r

def parse? (text : List Char) : Option (List Token) :=
  readPattern? text.length ⟨[{}], none⟩ text

end LintBridge.Glob
