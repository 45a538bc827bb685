import LintBridge.Text.Utf8

/-! Octets cut into lines. A line ends at a line feed, or at the end if anything stands after the
last one; a carriage return before the line feed belongs to neither line. -/

namespace LintBridge.Text

/-- The octets of a line without a carriage return at its end. -/
def dropReturn (line : List UInt8) : List UInt8 :=
  if line.getLast? = some 13 then line.dropLast else line

/-- The lines of some octets, given the octets of the current line so far, backwards. -/
def linesFrom (backwards : List UInt8) : List UInt8 → List (List UInt8)
  | [] => if backwards = [] then [] else [backwards.reverse]
  | b :: r =>
    if b = 10 then dropReturn backwards.reverse :: linesFrom [] r
    else linesFrom (b :: backwards) r

def lines (bytes : List UInt8) : List (List UInt8) := linesFrom [] bytes

/-- The texts of lines up to the first one that is not UTF-8. -/
def textsOf : List (List UInt8) → List String
  | [] => []
  | line :: rest =>
    match Utf8.strict? line with
    | some s => s :: textsOf rest
    | none => []

/-- The lines of some octets as texts, up to the first one that is not UTF-8. -/
def textLines (bytes : List UInt8) : List String := textsOf (lines bytes)

end LintBridge.Text
