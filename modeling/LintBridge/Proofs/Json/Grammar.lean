import LintBridge.Json.Reader
import Mathlib.Data.List.Forall2

/-! The grammar of JSON as relations between what is written and what it stands for.  A literal is
spelled by the parts that it consists of, a string by elements of which each is a character or an
escape, and a value by what its items or members are spelled by, with white space wherever it may
stand.  No relation says how a text is to be read. -/

namespace LintBridge.Json

open LintBridge.Text

/-- White space between the parts of a document. -/
def IsSpaces (w : List Char) : Prop := ∀ c ∈ w, isSpace c = true

/-! ### Numbers -/

def IsDigits (s : List Char) : Prop := s ≠ [] ∧ ∀ c ∈ s, c.isDigit = true

/-- The whole part of a number: digits, the first of which is a zero only if it stands alone. -/
def IsWhole (s : List Char) : Prop := IsDigits s ∧ (s.head? = some '0' → s = ['0'])

def IsFraction (s : List Char) : Prop := s = [] ∨ ∃ digits, IsDigits digits ∧ s = '.' :: digits

def IsExponent (s : List Char) : Prop :=
  s = [] ∨ ∃ e sign digits, (e = 'e' ∨ e = 'E') ∧ (sign = [] ∨ sign = ['+'] ∨ sign = ['-']) ∧
    IsDigits digits ∧ s = e :: (sign ++ digits)

/-- A whole number stands for its value if it is written plainly; with a sign, a fraction or an
exponent it stands for itself. -/
inductive SpellsNumber : Number → List Char → Prop
  | plain {whole : List Char} (h : IsWhole whole) : SpellsNumber (.nat (natOfDigits whole)) whole
  | other {sign whole fraction exponent : List Char} (signed : sign = [] ∨ sign = ['-'])
      (h : IsWhole whole) (fractional : IsFraction fraction) (scaled : IsExponent exponent)
      (more : sign ≠ [] ∨ fraction ≠ [] ∨ exponent ≠ []) :
      SpellsNumber (.other (String.ofList (sign ++ (whole ++ (fraction ++ exponent)))))
        (sign ++ (whole ++ (fraction ++ exponent)))

/-! ### Strings -/

/-- Half of a surrogate pair. -/
def isHalf (n : Nat) : Bool := isHighUnit n || isLowUnit n

/-- One element of a string: a character that needs no escape, an escape of one character, or four
hexadecimal digits, which spell a character or half of a surrogate pair. -/
inductive SpellsElement : Element → List Char → Prop
  | plain {c : Char} (printable : 0x20 ≤ c.toNat) (open_ : c ≠ '"') (bare : c ≠ '\\') :
      SpellsElement (.char c) [c]
  | escape {e c : Char} (h : simpleEscape? e = some c) : SpellsElement (.char c) ['\\', e]
  | code {a b c d : Char} {n : Nat} (h : readHex4? [a, b, c, d] = some (n, []))
      (whole : isHalf n = false) :
      SpellsElement (.char (Char.ofNat n)) ['\\', 'u', a, b, c, d]
  | half {a b c d : Char} {n : Nat} (h : readHex4? [a, b, c, d] = some (n, []))
      (half : isHalf n = true) : SpellsElement (.unit n) ['\\', 'u', a, b, c, d]

/-- The characters that elements stand for: each half of a surrogate pair needs the other one. -/
inductive Denotes : List Element → List Char → Prop
  | nil : Denotes [] []
  | char (c : Char) {elements : List Element} {chars : List Char} (rest : Denotes elements chars) :
      Denotes (.char c :: elements) (c :: chars)
  | pair {high low : Nat} (first : isHighUnit high = true) (second : isLowUnit low = true)
      {elements : List Element} {chars : List Char} (rest : Denotes elements chars) :
      Denotes (.unit high :: .unit low :: elements) (pairChar high low :: chars)

/-- Elements stand for a text, or for none if there is half of a surrogate pair in them that lacks
the other. -/
def DenotesText (elements : List Element) : Text → Prop
  | some s => Denotes elements s.toList
  | none => ∀ chars, ¬ Denotes elements chars

/-- A string literal, with its quotes. -/
inductive SpellsText : Text → List Char → Prop
  | quoted {elements : List Element} {pieces : List (List Char)} {t : Text}
      (spelled : List.Forall₂ SpellsElement elements pieces) (denoted : DenotesText elements t) :
      SpellsText t ('"' :: (pieces.flatten ++ ['"']))

/-! ### Values -/

/-- What a stretch of a document can be: a value, a member of an object, or what follows the first
item of an array or the first member of an object, up to the end of that. -/
inductive Part where
  | value (v : Value)
  | items (vs : List Value)
  | member (m : Text × Value)
  | members (ms : List (Text × Value))

inductive Spells : Part → List Char → Prop
  | nullWord : Spells (.value .null) "null".toList
  | trueWord : Spells (.value (.bool true)) "true".toList
  | falseWord : Spells (.value (.bool false)) "false".toList
  | number {n : Number} {s : List Char} (h : SpellsNumber n s) : Spells (.value (.number n)) s
  | string {t : Text} {s : List Char} (h : SpellsText t s) : Spells (.value (.string t)) s
  | emptyArray {w : List Char} (hw : IsSpaces w) : Spells (.value (.array [])) ('[' :: (w ++ [']']))
  | array {w s t : List Char} {v : Value} {vs : List Value} (hw : IsSpaces w)
      (first : Spells (.value v) s) (rest : Spells (.items vs) t) :
      Spells (.value (.array (v :: vs))) ('[' :: (w ++ (s ++ t)))
  | endItems {w : List Char} (hw : IsSpaces w) : Spells (.items []) (w ++ [']'])
  | items {w w' s t : List Char} {v : Value} {vs : List Value} (hw : IsSpaces w)
      (hw' : IsSpaces w') (first : Spells (.value v) s) (rest : Spells (.items vs) t) :
      Spells (.items (v :: vs)) (w ++ ',' :: (w' ++ (s ++ t)))
  | emptyObject {w : List Char} (hw : IsSpaces w) :
      Spells (.value (.object [])) ('\x7b' :: (w ++ ['\x7d']))
  | object {w s t : List Char} {m : Text × Value} {ms : List (Text × Value)} (hw : IsSpaces w)
      (first : Spells (.member m) s) (rest : Spells (.members ms) t) :
      Spells (.value (.object (m :: ms))) ('\x7b' :: (w ++ (s ++ t)))
  | member {w w' s t : List Char} {name : Text} {v : Value} (named : SpellsText name s)
      (hw : IsSpaces w) (hw' : IsSpaces w') (value : Spells (.value v) t) :
      Spells (.member (name, v)) (s ++ (w ++ ':' :: (w' ++ t)))
  | endMembers {w : List Char} (hw : IsSpaces w) : Spells (.members []) (w ++ ['\x7d'])
  | members {w w' s t : List Char} {m : Text × Value} {ms : List (Text × Value)} (hw : IsSpaces w)
      (hw' : IsSpaces w') (first : Spells (.member m) s) (rest : Spells (.members ms) t) :
      Spells (.members (m :: ms)) (w ++ ',' :: (w' ++ (s ++ t)))

/-- A text is a JSON document of a value: it spells the value, with white space around it. -/
def IsDocument (text : String) (v : Value) : Prop :=
  ∃ w s w', IsSpaces w ∧ IsSpaces w' ∧ Spells (.value v) s ∧ text.toList = w ++ (s ++ w')

end LintBridge.Json
