import LintBridge.Shell.Syntax
import LintBridge.Text.Digit
import LintBridge.Text.Utf8

/-! Values in a script: lists of octets, and what expressions and formats make of them. Octets are
read as the characters of the same numbers where a text is looked at character by character. -/

namespace LintBridge.Shell

open LintBridge.Text

abbrev Value := List UInt8

def value (s : String) : Value := Utf8.ofString s

def charsOf (v : Value) : List Char := v.map fun b => Char.ofNat b.toNat

def ofChars (s : List Char) : Value := s.map fun c => UInt8.ofNat c.toNat

/-- The integer that a value writes; anything else is zero. -/
def toInt (v : Value) : Int :=
  match charsOf v with
  | '-' :: r => -((decimalNat? r).getD 0 : Nat)
  | '+' :: r => (decimalNat? r).getD 0
  | r => (decimalNat? r).getD 0

def intChars (n : Int) : List Char :=
  if n < 0 then '-' :: natChars n.natAbs else natChars n.natAbs

/-! ### Arithmetic -/

/-- An operator between two operands: how tight it binds, and what it does. -/
def operator? : List Char → Option (Nat × (Int → Int → Int) × List Char)
  | '<' :: '=' :: r => some (1, fun a b => if a ≤ b then 1 else 0, r)
  | '>' :: '=' :: r => some (1, fun a b => if b ≤ a then 1 else 0, r)
  | '=' :: '=' :: r => some (1, fun a b => if a = b then 1 else 0, r)
  | '!' :: '=' :: r => some (1, fun a b => if a = b then 0 else 1, r)
  | '<' :: r => some (1, fun a b => if a < b then 1 else 0, r)
  | '>' :: r => some (1, fun a b => if b < a then 1 else 0, r)
  | '+' :: r => some (2, (· + ·), r)
  | '-' :: r => some (2, (· - ·), r)
  | '*' :: r => some (3, (· * ·), r)
  | '/' :: r => some (3, Int.tdiv, r)
  | '%' :: r => some (3, Int.tmod, r)
  | _ => none

mutual

def operand (lookup : List Char → Value) : Nat → List Char → Int × List Char
  | 0, s => (0, s)
  | fuel + 1, s =>
    match skipGaps s with
    | '-' :: r =>
      let (n, rest) := operand lookup fuel r
      (-n, rest)
    | '+' :: r => operand lookup fuel r
    | '!' :: r =>
      let (n, rest) := operand lookup fuel r
      (if n = 0 then 1 else 0, rest)
    | '(' :: r =>
      let (n, rest) := expression lookup fuel 0 r
      (n, (skipGaps rest).drop 1)
    | '$' :: r => operand lookup fuel r
    | s =>
      let name := s.takeWhile isNameChar
      let n := match decimalNat? name with
        | some n => (n : Int)
        | none => toInt (lookup name)
      (n, s.drop name.length)

/-- Reads and evaluates operands joined by operators that bind at least so tight. -/
def expression (lookup : List Char → Value) : Nat → Nat → List Char → Int × List Char
  | 0, _, s => (0, s)
  | fuel + 1, level, s =>
    let (n, rest) := operand lookup fuel s
    continued lookup fuel level n rest

def continued (lookup : List Char → Value) : Nat → Nat → Int → List Char → Int × List Char
  | 0, _, n, s => (n, s)
  | fuel + 1, level, n, s =>
    match operator? (skipGaps s) with
    | some (tight, apply, r) =>
      if tight < level then (n, s)
      else
        let (m, rest) := expression lookup fuel (tight + 1) r
        continued lookup fuel level (apply n m) rest
    | none => (n, s)

end

def sumOf (lookup : List Char → Value) (s : List Char) : Value :=
  ofChars (intChars (expression lookup (2 * s.length + 4) 0 s).1)

/-! ### Formats -/

/-- The octal digits at the front of a text, at most a number of them. -/
def octalDigits (most : Nat) (s : List Char) : List Char :=
  (s.take most).takeWhile fun c => '0' ≤ c && c ≤ '7'

def octalNumber (s : List Char) : Nat := s.foldl (fun n c => 8 * n + (c.toNat - 48)) 0

/-- Reads an escape after its backslash. An octal one may need a zero in front. -/
def readEscape (zeroFirst : Bool) (s : List Char) : List Char × List Char :=
  match s with
  | 'n' :: r => (['\n'], r)
  | 'r' :: r => (['\r'], r)
  | 't' :: r => (['\t'], r)
  | 'a' :: r => (['\x07'], r)
  | 'b' :: r => (['\x08'], r)
  | 'f' :: r => (['\x0c'], r)
  | 'v' :: r => (['\x0b'], r)
  | '\\' :: r => (['\\'], r)
  | '"' :: r => (['"'], r)
  | _ =>
    let digits :=
      if zeroFirst then if s.head? = some '0' then octalDigits 4 s else [] else octalDigits 3 s
    if digits = [] then (['\\'], s)
    else ([Char.ofNat (octalNumber digits % 256)], s.drop digits.length)

/-- A text with its escapes replaced, up to the escape that ends output, and whether there was one.
The fuel bounds the length. -/
def unescape (zeroFirst : Bool) : Nat → List Char → List Char × Bool
  | 0, _ => ([], false)
  | fuel + 1, s =>
    match s with
    | [] => ([], false)
    | '\\' :: 'c' :: _ => ([], true)
    | '\\' :: r =>
      let (text, rest) := readEscape zeroFirst r
      let (more, ended) := unescape zeroFirst fuel rest
      (text ++ more, ended)
    | c :: r =>
      let (more, ended) := unescape zeroFirst fuel r
      (c :: more, ended)

def widen (left zero : Bool) (width : Nat) (s : List Char) : List Char :=
  let fill := List.replicate (width - s.length) (if zero && !left then '0' else ' ')
  if left then s ++ fill else fill ++ s

/-- One pass over a format: the text, the arguments that are left, and whether any was asked for.
The fuel bounds the length. -/
def formatOnce : Nat → List Char → List Value → List Char × List Value × Bool
  | 0, _, args => ([], args, false)
  | fuel + 1, s, args =>
    match s with
    | [] => ([], args, false)
    | '\\' :: r =>
      let (text, rest) := readEscape false r
      let (more, args, used) := formatOnce fuel rest args
      (text ++ more, args, used)
    | '%' :: '%' :: r =>
      let (more, args, used) := formatOnce fuel r args
      ('%' :: more, args, used)
    | '%' :: r =>
      let flags := r.takeWhile fun c => c == '-' || c == '0'
      let r := r.drop flags.length
      let width := r.takeWhile Char.isDigit
      let r := r.drop width.length
      let arg := charsOf (args.head?.getD [])
      let text := match r.head? with
        | some 'd' | some 'i' | some 'u' => intChars (toInt (args.head?.getD []))
        | some 'o' => Nat.toDigits 8 (toInt (args.head?.getD [])).toNat
        | some 'x' => Nat.toDigits 16 (toInt (args.head?.getD [])).toNat
        | some 'X' => (Nat.toDigits 16 (toInt (args.head?.getD [])).toNat).map Char.toUpper
        | some 'c' => arg.take 1
        | some 'b' => (unescape true (arg.length + 1) arg).1
        | _ => arg
      let (more, args, _) := formatOnce fuel (r.drop 1) (args.drop 1)
      (widen (flags.contains '-') (flags.contains '0') (natOfDigits width) text ++ more, args,
        true)
    | c :: r =>
      let (more, args, used) := formatOnce fuel r args
      (c :: more, args, used)

/-- A format applied to arguments, again and again as long as some are left. -/
def formatAll : Nat → List Char → List Value → List Char
  | 0, _, _ => []
  | fuel + 1, s, args =>
    let (text, rest, used) := formatOnce (s.length + 1) s args
    if used && !rest.isEmpty then text ++ formatAll fuel s rest else text

end LintBridge.Shell
