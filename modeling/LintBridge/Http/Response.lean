import LintBridge.Text.Blank
import LintBridge.Text.Digit
import LintBridge.Text.Split
import LintBridge.Text.Utf8

/-! HTTP responses, and what of their body can be read. The head decides where the body ends: after
an announced number of octets, after the last of its chunks, or where the connection ends. A body
that ends before it should cannot be read; octets after its end do not belong to it. -/

namespace LintBridge.Http

open LintBridge.Text

/-- A response as it arrives: the head, and the octets from there to the end of the connection. -/
structure Response where
  status : Nat
  headers : List (String × String) := []
  bytes : List UInt8 := []
  deriving DecidableEq, Repr

inductive Framing where
  | sized (n : Nat)
  | chunked
  | toEnd
  deriving DecidableEq, Repr

/-- The values of the headers of a name, whose case does not count. -/
def valuesOf (name : String) (headers : List (String × String)) : List String :=
  (headers.filter fun h => eqIgnoringAsciiCase h.1 name).map (·.2)

def itemsOf (value : String) : List (List Char) := (splitAtEach ',' value.toList).map trimChars

def lengthBound : Nat := Nat.pow 2 64 - 2

/-- The length that the values of the length header announce: they must all be one number. -/
def announced? (values : List String) : Option Nat :=
  match values.flatMap itemsOf with
  | [] => none
  | first :: rest =>
    match decimalNat? first with
    | none => none
    | some n => if rest.all (decimalNat? · == some n) ∧ n < lengthBound then some n else none

/-- Whether the last coding that the coding header names is the chunked one. -/
def endsChunked (values : List String) : Bool :=
  match (values.flatMap itemsOf).getLast? with
  | some item => eqIgnoringAsciiCase (String.ofList item) "chunked"
  | none => false

/-- Where the body of a response ends; nothing if its headers do not say so clearly. -/
def Response.framing? (r : Response) : Option Framing :=
  if r.status = 101 ∨ r.status = 204 ∨ r.status = 304 then some (.sized 0)
  else
    match valuesOf "Transfer-Encoding" r.headers, valuesOf "Content-Length" r.headers with
    | [], [] => some .toEnd
    | [], lengths => (announced? lengths).map .sized
    | codings, _ => some (if endsChunked codings then .chunked else .toEnd)

/-! ### Chunks -/

def returnByte : UInt8 := 13

def feedByte : UInt8 := 10

def hexValue? (b : UInt8) : Option Nat :=
  if 48 ≤ b && b ≤ 57 then some (b.toNat - 48)
  else if 97 ≤ b && b ≤ 102 then some (b.toNat - 87)
  else if 65 ≤ b && b ≤ 70 then some (b.toNat - 55)
  else none

def hexNumber (digits : List UInt8) : Nat :=
  digits.foldl (fun n b => 16 * n + (hexValue? b).getD 0) 0

def afterBreak? : List UInt8 → Option (List UInt8)
  | 13 :: 10 :: rest => some rest
  | _ => none

/-- Reads the line that announces a chunk: a hexadecimal number, perhaps blanks, and perhaps an
extension that a semicolon starts. -/
def readChunkSize? (s : List UInt8) : Option (Nat × List UInt8) :=
  match s.takeWhile (hexValue? · |>.isSome) with
  | [] => none
  | digits =>
    let n := hexNumber digits
    let afterDigits := s.drop digits.length
    let rest := afterDigits.dropWhile fun b => b == 32 || b == 9
    if Nat.pow 2 64 ≤ n then none
    else
      match rest with
      | 59 :: extension =>
        let tail := extension.dropWhile fun b => b != returnByte && b != feedByte
        (afterBreak? tail).map (n, ·)
      | _ => (afterBreak? rest).map (n, ·)

def endsTrailers : List UInt8 → Bool
  | 13 :: r => r.head? == some feedByte
  | s => inTrailer s
where
  /-- Inside a line that is not empty. -/
  inTrailer : List UInt8 → Bool
    | 13 :: 10 :: 13 :: r => r.head? == some feedByte
    | 13 :: 10 :: r => inTrailer r
    | 13 :: _ => false
    | _ :: r => inTrailer r
    | [] => false

/-- Reads chunks up to and with the last, empty one. The fuel bounds their number. -/
def readChunks? : Nat → List UInt8 → Option (List UInt8)
  | 0, _ => none
  | fuel + 1, s => do
    let (n, rest) ← readChunkSize? s
    if n = 0 then if endsTrailers rest then some [] else none
    else if rest.length < n then none
    else
      let after ← afterBreak? (rest.drop n)
      let more ← readChunks? fuel after
      some (rest.take n ++ more)

/-- The octets of the body of a response, if they all arrived. -/
def Framing.body? (bytes : List UInt8) : Framing → Option (List UInt8)
  | .toEnd => some bytes
  | .sized n => if bytes.length < n then none else some (bytes.take n)
  | .chunked => readChunks? (bytes.length + 1) bytes

structure Reply where
  status : Nat
  /-- The body as text, if it could be read. -/
  text? : Option String
  deriving DecidableEq, Repr

def isNameChar (c : Char) : Bool := c.isAlphanum || "!#$%&'*+-.^_`|~".toList.contains c

def isValueChar (c : Char) : Bool := c == '\t' || (0x20 ≤ c.toNat && c != '\x7f')

def isHeader (h : String × String) : Bool :=
  h.1 ≠ "" && h.1.toList.all isNameChar && h.2.toList.all isValueChar

/-- Whether a response has a head that can be read: a status of three digits, and headers. -/
def Response.hasHead (r : Response) : Bool :=
  100 ≤ r.status && r.status < 1000 && r.headers.all isHeader

/-- Whether a response is only provisional, so that another one should follow. -/
def Response.isProvisional (r : Response) : Bool :=
  100 ≤ r.status && r.status < 200 && r.status != 101

/-- What a client gets from a response; nothing from one whose head cannot be read, that is only
provisional, or whose length is not clear. -/
def Response.reply? (r : Response) : Option Reply :=
  if !r.hasHead || r.isProvisional then none
  else r.framing?.map fun framing => ⟨r.status, (framing.body? r.bytes).map Utf8.lossy⟩

end LintBridge.Http
