/-! White space as the Unicode property `White_Space` has it, and trimming by it. A text is trimmed
as a list of characters; the versions on `String` wrap those. -/

namespace LintBridge.Text

/-- The code points with the Unicode property `White_Space`, as closed ranges in order. -/
def blankRanges : List (Nat × Nat) :=
  [(0x9, 0xD), (0x20, 0x20), (0x85, 0x85), (0xA0, 0xA0), (0x1680, 0x1680), (0x2000, 0x200A),
    (0x2028, 0x2029), (0x202F, 0x202F), (0x205F, 0x205F), (0x3000, 0x3000)]

def inRanges (ranges : List (Nat × Nat)) (n : Nat) : Bool :=
  ranges.any fun r => r.1 ≤ n && n ≤ r.2

/-- White space: a character with the Unicode property `White_Space`. -/
def isBlank (c : Char) : Bool := inRanges blankRanges c.toNat

/-- The characters from the first one that is not white space. -/
def trimStartChars (s : List Char) : List Char := s.dropWhile isBlank

/-- The characters up to the last one that is not white space. -/
def trimEndChars (s : List Char) : List Char := (s.reverse.dropWhile isBlank).reverse

/-- The characters between the first and the last one that is not white space. -/
def trimChars (s : List Char) : List Char := trimEndChars (trimStartChars s)

def trim (s : String) : String := String.ofList (trimChars s.toList)

/-- Whether a text holds white space only. -/
def isAllBlank (s : String) : Bool := s.toList.all isBlank

/-- The ASCII letters of a text in lower case, every other character as it is. -/
def asciiLower (s : String) : String := s.map Char.toLower

def eqIgnoringAsciiCase (s t : String) : Bool := asciiLower s == asciiLower t

theorem trimStartChars_append_of_all {w : List Char} (h : w.all isBlank = true) (s : List Char) :
    trimStartChars (w ++ s) = trimStartChars s := by
  induction w with
  | nil => rfl
  | cons c w ih =>
    simp only [List.all_cons, Bool.and_eq_true] at h
    simp only [trimStartChars, List.cons_append, List.dropWhile_cons, h.1]
    exact ih h.2

end LintBridge.Text
