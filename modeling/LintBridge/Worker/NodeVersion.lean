import LintBridge.Text.Digit

/-! The version that a Node.js executable prints, and whether the worker can run on it. A version is
read from the front of the printed text: `v12.16.1`, with or without the `v`, and anything after its
third number. The major number is written with ASCII digits; the digits of the other two may be
those of any script. -/

namespace LintBridge.Worker

open LintBridge.Text

namespace NodeVersion

def oldestSupported : Nat := 8

/-- Major versions below this one can run the worker but are deprecated. -/
def oldestRecommended : Nat := 10

/-- What follows a dot and one or more decimal digits at the front of a text. -/
def afterMinor? : List Char → Option (List Char)
  | '.' :: s =>
    match s.takeWhile isDecimalDigit with
    | [] => none
    | _ :: _ => some (s.dropWhile isDecimalDigit)
  | _ => none

/-- The text without the letter `v` at its front, if there is one. -/
def dropLetter : List Char → List Char
  | 'v' :: s => s
  | s => s

def majorOf? (s : List Char) : Option Nat := do
  let numbers := dropLetter s
  let rest ← afterMinor? (numbers.dropWhile isDecimalDigit)
  let _ ← afterMinor? rest
  let major ← decimalNat? (numbers.takeWhile isDecimalDigit)
  if major < Nat.pow 2 32 then some major else none

def major? (output : String) : Option Nat := majorOf? (trimChars output.toList)

def deprecationNotice? (major : Nat) : Option String :=
  if major < oldestRecommended then
    some (s!"Using Node.js version {major} to execute analysis is deprecated and will stop " ++
      "being supported in a future release. Please upgrade to a newer LTS version of Node.js " ++
      s!"(v{oldestRecommended} or later).")
  else none

end NodeVersion

end LintBridge.Worker
