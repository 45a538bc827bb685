import LintBridge.Text.Digit

/-! JSON values. The members of an object keep their order, and a name may come twice. A string
literal may spell half of a surrogate pair, which is no text; such a literal is kept as denoting
nothing. -/

namespace LintBridge.Json

/-- What a string literal denotes: a text, or nothing if it spells half of a surrogate pair. -/
abbrev Text := Option String

/-- A number: a whole number written plainly, or any other literal as it is written. -/
inductive Number where
  | nat (n : Nat)
  | other (literal : String)
  deriving DecidableEq, Repr

inductive Value where
  | null
  | bool (b : Bool)
  | number (n : Number)
  | string (s : Text)
  | array (items : List Value)
  | object (members : List (Text × Value))
  deriving Repr, Inhabited

namespace Value

def text (s : String) : Value := .string (some s)

def nat (n : Nat) : Value := .number (.nat n)

def record (members : List (String × Value)) : Value :=
  .object (members.map fun m => (some m.1, m.2))

def text? : Value → Option String
  | .string s => s
  | _ => none

def word? : Value → Option Nat
  | .number (.nat n) => if n < Nat.pow 2 32 then some n else none
  | _ => none

end Value

end LintBridge.Json
