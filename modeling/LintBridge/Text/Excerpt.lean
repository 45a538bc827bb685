/-! The beginning of a text that may be too long to show. -/

namespace LintBridge.Text

/-- A text of at most `max` characters as it is; of a longer one the first `max` characters and a
count of those left out. -/
def excerpt (text : String) (max : Nat) : String :=
  let chars := text.toList
  if chars.length ≤ max then text
  else String.ofList (chars.take max) ++ s!"... ({chars.length - max} more characters)"

end LintBridge.Text
