/-! Regular languages over octets. An expression is matched by its derivatives: the derivative by an
octet matches what may follow that octet. -/

namespace LintBridge.Glob

/-- A set of octets: closed ranges, or what lies outside of them. -/
structure ByteSet where
  outside : Bool := false
  ranges : List (UInt8 × UInt8)
  deriving DecidableEq, Repr

namespace ByteSet

def has (s : ByteSet) (b : UInt8) : Bool :=
  (s.ranges.any fun r => r.1 ≤ b && b ≤ r.2) != s.outside

def only (b : UInt8) : ByteSet := { ranges := [(b, b)] }

def allBut (b : UInt8) : ByteSet := { outside := true, ranges := [(b, b)] }

def all : ByteSet := { outside := true, ranges := [] }

end ByteSet

inductive Regular where
  | none
  | empty
  | one (set : ByteSet)
  | seq (a b : Regular)
  | either (a b : Regular)
  | many (a : Regular)
  deriving DecidableEq, Repr

namespace Regular

def acceptsEmpty : Regular → Bool
  | none | one _ => false
  | empty | many _ => true
  | seq a b => a.acceptsEmpty && b.acceptsEmpty
  | either a b => a.acceptsEmpty || b.acceptsEmpty

/-- One expression after another, simplified. -/
def followedBy : Regular → Regular → Regular
  | none, _ => none
  | _, none => none
  | empty, b => b
  | a, b => seq a b

/-- One expression or another, simplified. -/
def or : Regular → Regular → Regular
  | none, b => b
  | a, none => a
  | a, b => if a = b then a else either a b

def derivative (b : UInt8) : Regular → Regular
  | none | empty => none
  | one set => if set.has b then empty else none
  | seq x y =>
    let first := (x.derivative b).followedBy y
    if x.acceptsEmpty then first.or (y.derivative b) else first
  | either x y => (x.derivative b).or (y.derivative b)
  | many x => (x.derivative b).followedBy (many x)

def accepts (r : Regular) (bytes : List UInt8) : Bool :=
  (bytes.foldl (fun r b => r.derivative b) r).acceptsEmpty

def inOrder (rs : List Regular) : Regular := rs.foldr followedBy empty

def anyOf (rs : List Regular) : Regular := rs.foldr or none

def literal (bytes : List UInt8) : Regular := inOrder (bytes.map fun b => one (.only b))

end Regular

end LintBridge.Glob
