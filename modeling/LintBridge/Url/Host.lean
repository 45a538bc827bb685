import LintBridge.Text.Digit
import LintBridge.Text.Split
import LintBridge.Url.Percent

/-! The host of a URL: a name, an IPv4 or an IPv6 address. A special URL reads its host as a domain
name, in lower case, or as an address if the last part of the name is a number; any other URL keeps
the host as it is written, apart from escapes. -/

namespace LintBridge.Url

open LintBridge.Text

/-- Why a text is not a URL. -/
inductive ParseError where
  | emptyHost
  | badDomain
  | badPort
  | badIpv4
  | badIpv6
  | badDomainCharacter
  | noScheme
  deriving DecidableEq, Repr

def ParseError.message : ParseError → String
  | .emptyHost => "empty host"
  | .badDomain => "invalid international domain name"
  | .badPort => "invalid port number"
  | .badIpv4 => "invalid IPv4 address"
  | .badIpv6 => "invalid IPv6 address"
  | .badDomainCharacter => "invalid domain character"
  | .noScheme => "relative URL without a base"

inductive Host where
  | name (text : String)
  | ipv4 (address : Nat)
  | ipv6 (pieces : List Nat)
  deriving DecidableEq, Repr

namespace Host

/-! ### IPv4 -/

/-- The digits of a part of an IPv4 address and its base, by how the part starts. -/
def baseOf : List Char → List Char × Nat
  | '0' :: 'x' :: r => (r, 16)
  | '0' :: 'X' :: r => (r, 16)
  | '0' :: c :: r => (c :: r, 8)
  | s => (s, 10)

def numberIn? (base : Nat) (s : List Char) : Option Nat :=
  s.foldlM (fun n c => do
    let d ← hexValue? c
    if d < base then some (base * n + d) else none) 0

/-- The number that a part of an IPv4 address writes, which may be too large. -/
def ipv4Number? (s : List Char) : Option Nat :=
  if s = [] then none
  else
    let (digits, base) := baseOf s
    numberIn? base digits

/-- Whether the last part of a domain name, not counting one final dot, is a number. -/
def endsInNumber (s : List Char) : Bool :=
  let last? :=
    match (splitAtEach '.' s).reverse with
    | [] :: w :: _ => some w
    | [] :: [] => none
    | w :: _ => some w
    | [] => none
  match last? with
  | none => false
  | some w => (w ≠ [] && w.all Char.isDigit) || (ipv4Number? w).isSome

/-- The address that the parts of an IPv4 host give: each part but the last is one octet, and the
last fills the octets that remain. -/
def ipv4OfParts? : List Nat → Nat → Option Nat
  | [], _ => none
  | [n], room => if n < Nat.pow 256 room then some n else none
  | n :: rest, room =>
    if n < 256 then (ipv4OfParts? rest (room - 1)).map (· + n * Nat.pow 256 (room - 1)) else none

def ipv4? (s : List Char) : Option Nat := do
  let parts := splitAtEach '.' s
  let parts := if parts.getLast? = some [] then parts.dropLast else parts
  if 4 < parts.length then none
  let numbers ← parts.mapM ipv4Number?
  if numbers.any (Nat.pow 2 32 ≤ ·) then none
  ipv4OfParts? numbers 4

def ipv4Text (n : Nat) : String :=
  s!"{n / 16777216 % 256}.{n / 65536 % 256}.{n / 256 % 256}.{n % 256}"

/-! ### IPv6 -/

/-- The two pieces of an IPv6 address that four numbers with dots between them give. -/
def embeddedIpv4? (s : List Char) : Option (List Nat) := do
  let parts := splitAtEach '.' s
  if parts.length ≠ 4 then none
  let octet? (w : List Char) : Option Nat := do
    let n ← decimalNat? w
    if n < 256 ∧ (w.length = 1 ∨ w.head? ≠ some '0') then some n else none
  match ← parts.mapM octet? with
  | [a, b, c, d] => some [256 * a + b, 256 * c + d]
  | _ => none

/-- The pieces between the colons of one side of an IPv6 address; only the last piece of all may be
four numbers with dots between them. -/
def ipv6Pieces? : List (List Char) → Option (List Nat)
  | [] => some []
  | [w] =>
    if w.contains '.' then embeddedIpv4? w
    else if w ≠ [] ∧ w.length ≤ 4 then (numberIn? 16 w).map ([·]) else none
  | w :: ws =>
    if w ≠ [] ∧ w.length ≤ 4 then do
      let n ← numberIn? 16 w
      let rest ← ipv6Pieces? ws
      some (n :: rest)
    else none

/-- The parts of a text before and after its first `::`. -/
def splitDoubleColon? : List Char → Option (List Char × List Char)
  | [] => none
  | ':' :: ':' :: r => some ([], r)
  | c :: r => (splitDoubleColon? r).map fun (a, b) => (c :: a, b)

/-- Reads an IPv6 address, in which `::` stands for one or more pieces of zero. -/
def ipv6? (s : List Char) : Option (List Nat) :=
  match splitDoubleColon? s with
  | none => do
    let pieces ← ipv6Pieces? (splitAtEach ':' s)
    if pieces.length = 8 then some pieces else none
  | some (front, back) => do
    if front.contains '.' then none
    let side? (w : List Char) := if w = [] then some [] else ipv6Pieces? (splitAtEach ':' w)
    let front ← side? front
    let back ← side? back
    let count := front.length + back.length
    if count < 8 then some (front ++ List.replicate (8 - count) 0 ++ back) else none

/-- The hexadecimal digits of a number, in lower case and without leading zeros. -/
def hexText (n : Nat) : String := String.ofList (Nat.toDigits 16 n)

def zeroRun (pieces : List Nat) : Nat := (pieces.takeWhile (· == 0)).length

/-- The first of the longest runs of two or more zeros: where it starts, and its length. -/
def longestZeros (pieces : List Nat) : Option (Nat × Nat) :=
  (List.range pieces.length).foldl (fun best i =>
    let run := zeroRun (pieces.drop i)
    if 2 ≤ run ∧ best.all (·.2 < run) then some (i, run) else best) none

/-- An IPv6 address with its longest run of zeros written as `::`. -/
def ipv6Text (pieces : List Nat) : String :=
  let join (w : List Nat) : String := ":".intercalate (w.map hexText)
  match longestZeros pieces with
  | none => join pieces
  | some (i, run) => join (pieces.take i) ++ "::" ++ join (pieces.drop (i + run))

def text : Host → String
  | .name s => s
  | .ipv4 n => ipv4Text n
  | .ipv6 pieces => "[" ++ ipv6Text pieces ++ "]"

/-! ### Reading a host -/

def isForbiddenInDomain (c : Char) : Bool :=
  c.toNat ≤ 0x20 || c.toNat == 0x7F || "%#/:<>?@[\\]^|".toList.contains c

/-- Characters that the host of a URL that is not special may not hold. -/
def isForbiddenInHost (c : Char) : Bool :=
  "\x00\t\n\r #/:<>?@[\\]^|".toList.contains c

/-- Reads an IPv6 address in brackets; the opening bracket has been read. -/
def readBracketed (s : List Char) : Except ParseError Host :=
  match s.reverse with
  | ']' :: r => ((ipv6? r.reverse).map Host.ipv6).elim (.error .badIpv6) .ok
  | _ => .error .badIpv6

def readDomain : List Char → Except ParseError Host
  | '[' :: r => readBracketed r
  | s =>
    match Utf8.strict? (percentDecode s) with
    | none => .error .badDomain
    | some decoded =>
      let domain := decoded.toList.map Char.toLower
      if domain.any isForbiddenInDomain || domain.any (0x80 ≤ ·.toNat) then .error .badDomain
      else if domain = [] then .error .emptyHost
      else if endsInNumber domain then (ipv4? domain).elim (.error .badIpv4) fun n => .ok (.ipv4 n)
      else .ok (.name (String.ofList domain))

/-- Reads the host of a URL that is not special. -/
def readOpaque : List Char → Except ParseError Host
  | '[' :: r => readBracketed r
  | s =>
    if s.any isForbiddenInHost then .error .badDomainCharacter
    else .ok (.name (String.ofList (s.flatMap (writeChar .controls))))

end Host

end LintBridge.Url
