/-! UTF-8 as lists of octets. `decode` reads any list: where no character starts, it marks the
longest prefix of a character that the octets spell out, or else one octet, as broken. `lossy`
writes a replacement character for each such mark, and `strict?` refuses a list that has one. -/

namespace LintBridge.Text.Utf8

def encode (s : List Char) : List UInt8 := s.flatMap String.utf8EncodeChar

def ofString (s : String) : List UInt8 := encode s.toList

/-- What the front of a list of octets spells. -/
inductive Piece where
  | char (c : Char)
  | broken
  deriving DecidableEq, Repr

def isTail (b : UInt8) : Bool := 0x80 ≤ b && b ≤ 0xBF

def low6 (b : UInt8) : Nat := b.toNat % 64

/-- The first octets of a character of three, with the range of the octet that may follow. -/
def secondOfThree? (a : UInt8) : Option (UInt8 × UInt8) :=
  if a == 0xE0 then some (0xA0, 0xBF)
  else if a == 0xED then some (0x80, 0x9F)
  else if 0xE1 ≤ a && a ≤ 0xEF then some (0x80, 0xBF)
  else none

/-- The first octets of a character of four, with the range of the octet that may follow. -/
def secondOfFour? (a : UInt8) : Option (UInt8 × UInt8) :=
  if a == 0xF0 then some (0x90, 0xBF)
  else if a == 0xF4 then some (0x80, 0x8F)
  else if 0xF1 ≤ a && a ≤ 0xF3 then some (0x80, 0xBF)
  else none

/-- Reads the rest of a character of three octets, the first of which is `a`. -/
def readThree (a : UInt8) (range : UInt8 × UInt8) : List UInt8 → Piece × Nat
  | b :: c :: _ =>
    if range.1 ≤ b && b ≤ range.2 then
      if isTail c then (.char (Char.ofNat (a.toNat % 16 * 4096 + low6 b * 64 + low6 c)), 2)
      else (.broken, 1)
    else (.broken, 0)
  | [b] => if range.1 ≤ b && b ≤ range.2 then (.broken, 1) else (.broken, 0)
  | [] => (.broken, 0)

/-- Reads the rest of a character of four octets, the first of which is `a`. -/
def readFour (a : UInt8) (range : UInt8 × UInt8) : List UInt8 → Piece × Nat
  | b :: rest =>
    if range.1 ≤ b && b ≤ range.2 then
      match rest with
      | c :: d :: _ =>
        if isTail c then
          if isTail d then
            (.char (Char.ofNat
              (a.toNat % 8 * 262144 + low6 b * 4096 + low6 c * 64 + low6 d)), 3)
          else (.broken, 2)
        else (.broken, 1)
      | [c] => if isTail c then (.broken, 2) else (.broken, 1)
      | [] => (.broken, 1)
    else (.broken, 0)
  | [] => (.broken, 0)

/-- What the octet `a` and those after it spell first, and how many octets after `a` that takes. -/
def readPiece (a : UInt8) (rest : List UInt8) : Piece × Nat :=
  if a < 0x80 then (.char (Char.ofNat a.toNat), 0)
  else if 0xC2 ≤ a && a ≤ 0xDF then
    match rest with
    | b :: _ =>
      if isTail b then (.char (Char.ofNat (a.toNat % 32 * 64 + low6 b)), 1) else (.broken, 0)
    | [] => (.broken, 0)
  else
    match secondOfThree? a, secondOfFour? a with
    | some range, _ => readThree a range rest
    | none, some range => readFour a range rest
    | none, none => (.broken, 0)

/-- The characters and broken places that a list of octets spells, in order. -/
def decode : List UInt8 → List Piece
  | [] => []
  | a :: rest =>
    let piece := readPiece a rest
    piece.1 :: decode (rest.drop piece.2)
termination_by s => s.length
decreasing_by simp only [List.length_drop, List.length_cons]; omega

def Piece.toChar : Piece → Char
  | .char c => c
  | .broken => '\uFFFD'

/-- The character of a piece, if it is one. -/
def Piece.char? : Piece → Option Char
  | .char c => some c
  | .broken => none

/-- The text that a list of octets spells, with a replacement character for each broken place. -/
def lossy (s : List UInt8) : String := String.ofList ((decode s).map Piece.toChar)

/-- The text that a list of octets spells if it has no broken place. -/
def strict? (s : List UInt8) : Option String := (decode s).mapM Piece.char? |>.map String.ofList

end LintBridge.Text.Utf8
