import LintBridge.Text.Blank

/-! The text of a diagnostic. The linter ends a message with the key of its rule in parentheses;
`Message.core` drops that ending, and the white space around it, once. -/

namespace LintBridge.Message

open LintBridge.Text

/-- A character of a linter rule key: a lower-case ASCII letter or a hyphen. -/
def isKeyChar (c : Char) : Bool := c.isLower || c == '-'

/-- Drops white space from the front of a text, though never its last character. -/
def dropBlanks : List Char → List Char
  | [] => []
  | [c] => [c]
  | c :: d :: r => if isBlank c then dropBlanks (d :: r) else c :: d :: r

/-- Reads, backwards from its end, a text that ends in a rule key in parentheses and perhaps white
space, and gives what stands before, backwards as well. Something must stand before. -/
def beforeKey? (backwards : List Char) : Option (List Char) :=
  match backwards.dropWhile isBlank with
  | ')' :: r =>
    match r.takeWhile isKeyChar, r.dropWhile isKeyChar with
    | _ :: _, '(' :: c :: q => some (dropBlanks (c :: q))
    | _, _ => none
  | _ => none

/-- The message of a diagnostic without the rule key that the linter appends in parentheses. -/
def core (text : String) : String :=
  match beforeKey? text.toList.reverse with
  | some q => String.ofList q.reverse
  | none => text

end LintBridge.Message
