/-! A text without the occurrences of a word. -/

namespace LintBridge.Text

/-- Skips a number of characters, and after them drops each occurrence of a word, from left to right
and without overlap. -/
def removeAfter (word : List Char) : Nat → List Char → List Char
  | _, [] => []
  | n + 1, _ :: r => removeAfter word n r
  | 0, c :: r =>
    if word.isPrefixOf (c :: r) then removeAfter word (word.length - 1) r
    else c :: removeAfter word 0 r

/-- A text without the occurrences of a word that has at least one character. -/
def remove (word : List Char) (s : List Char) : List Char := removeAfter word 0 s

end LintBridge.Text
