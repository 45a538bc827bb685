import LintBridge.Toml.Moment

/-! TOML values, and those of them that are written without quotes or brackets: numbers, truth
values and points of time. -/

namespace LintBridge.Toml

open LintBridge.Text

inductive Value where
  | string (s : String)
  | integer (n : Int)
  | float (x : Float)
  | bool (b : Bool)
  | moment (m : Moment)
  | array (items : List Value)
  | table (members : List (String × Value))
  deriving Inhabited

/-- Digits of a base with single underscores between them: the digits alone. -/
def plainDigits? (isDigit : Char → Bool) : List Char → Option (List Char)
  | [] => none
  | [c] => if isDigit c then some [c] else none
  | c :: '_' :: r => if isDigit c then (plainDigits? isDigit r).map (c :: ·) else none
  | c :: d :: r => if isDigit c then (plainDigits? isDigit (d :: r)).map (c :: ·) else none

/-- The value of a digit, in any base up to sixteen. -/
def digitValue (c : Char) : Nat :=
  if c.isDigit then c.toNat - 48 else if 'a' ≤ c then c.toNat - 87 else c.toNat - 55

def natIn (base : Nat) (digits : List Char) : Nat :=
  digits.foldl (fun n c => base * n + digitValue c) 0

def isHexDigit (c : Char) : Bool :=
  c.isDigit || ('a' ≤ c && c ≤ 'f') || ('A' ≤ c && c ≤ 'F')

/-- The sign at the front of a number, and the rest. -/
def splitSign : List Char → Bool × List Char
  | '+' :: r => (false, r)
  | '-' :: r => (true, r)
  | s => (false, s)

/-- Decimal digits that may start a number: no zero stands before others. -/
def wholeDigits? (s : List Char) : Option (List Char) :=
  match plainDigits? Char.isDigit s with
  | some ('0' :: _ :: _) => none
  | digits => digits

/-- Reads an integer. One that no integer type of 128 bits holds is refused. -/
def integer? (s : List Char) : Option Int := do
  let n : Int ←
    match s with
    | '0' :: 'x' :: r => (plainDigits? isHexDigit r).map fun d => (natIn 16 d : Int)
    | '0' :: 'o' :: r =>
      (plainDigits? (fun c => '0' ≤ c && c ≤ '7') r).map fun d => (natIn 8 d : Int)
    | '0' :: 'b' :: r =>
      (plainDigits? (fun c => c == '0' || c == '1') r).map fun d => (natIn 2 d : Int)
    | s =>
      let (negative, r) := splitSign s
      (wholeDigits? r).map fun d => if negative then -(natIn 10 d : Int) else natIn 10 d
  if -Nat.pow 2 127 ≤ n ∧ n < Nat.pow 2 128 then some n else none

/-- The double nearest to `digits * 10 ^ exponent`, unless that is beyond the largest one. -/
def scientific? (digits : Nat) (exponent : Int) : Option Float :=
  let magnitude : Int := (natChars digits).length + exponent
  if digits = 0 ∨ magnitude < -340 then some 0
  else if 310 < magnitude then none
  else
    let x := Float.ofScientific digits (exponent < 0) exponent.natAbs
    if x.isInf then none else some x

def exponent? (s : List Char) : Option Int :=
  let (negative, r) := splitSign s
  (plainDigits? Char.isDigit r).map fun d => if negative then -(natIn 10 d : Int) else natIn 10 d

/-- Reads a float with a fraction, an exponent, or both. -/
def decimalFloat? (s : List Char) : Option Float := do
  let (negative, r) := splitSign s
  let isMark (c : Char) : Bool := c == 'e' || c == 'E'
  let mantissa := r.takeWhile (!isMark ·)
  let exponent ←
    match r.dropWhile (!isMark ·) with
    | [] => some none
    | _ :: e => (exponent? e).map some
  let whole ← wholeDigits? (mantissa.takeWhile (· != '.'))
  let fraction ←
    match mantissa.dropWhile (· != '.') with
    | [] => some none
    | _ :: f => (plainDigits? Char.isDigit f).map some
  if exponent = none ∧ fraction = none then none
  let digits := natIn 10 (whole ++ fraction.getD [])
  let x ← scientific? digits (exponent.getD 0 - (fraction.getD []).length)
  some (if negative then -x else x)

def wordFloat? (s : List Char) : Option Float :=
  let (negative, r) := splitSign s
  let infinity : Float := 1 / 0
  if r = "inf".toList then some (if negative then -infinity else infinity)
  else if r = "nan".toList then some (0 / 0)
  else none

/-- Reads a value that stands without quotes. -/
def scalar? (s : List Char) : Option Value :=
  if s = "true".toList then some (.bool true)
  else if s = "false".toList then some (.bool false)
  else
    ((integer? s).map Value.integer).or <| ((wordFloat? s).map Value.float).or <|
      ((decimalFloat? s).map Value.float).or ((Moment.parse? s).map Value.moment)

end LintBridge.Toml
