import LintBridge.Text.Digit

/-! Dates and times as TOML writes them: a date, a time, or both, and then perhaps an offset.
Reading keeps what was written, such as a time without seconds, and writing gives it back in one
form. -/

namespace LintBridge.Toml

open LintBridge.Text

structure Date where
  year : Nat
  month : Nat
  day : Nat
  deriving DecidableEq, Repr

structure Time where
  hour : Nat
  minute : Nat
  second : Option Nat
  nanosecond : Option Nat
  deriving DecidableEq, Repr

/-- The offset of a time from universal time. -/
inductive Offset where
  | zulu
  | minutes (n : Int)
  deriving DecidableEq, Repr

structure Moment where
  date : Option Date
  time : Option Time
  offset : Option Offset
  deriving DecidableEq, Repr

/-- A number with at least the given count of digits. -/
def padded (width n : Nat) : List Char :=
  let digits := natChars n
  List.replicate (width - digits.length) '0' ++ digits

/-! ### Writing -/

def Date.chars (d : Date) : List Char :=
  padded 4 d.year ++ '-' :: padded 2 d.month ++ '-' :: padded 2 d.day

/-- The digits of a fraction of a second without zeros at its end, but one digit at least. -/
def fractionChars (nanosecond : Nat) : List Char :=
  match ((padded 9 nanosecond).reverse.dropWhile (· == '0')).reverse with
  | [] => ['0']
  | digits => digits

def Time.chars (t : Time) : List Char :=
  padded 2 t.hour ++ ':' :: padded 2 t.minute ++
    (t.second.elim [] fun s => ':' :: padded 2 s) ++
    (t.nanosecond.elim [] fun n => '.' :: fractionChars n)

def Offset.chars : Offset → List Char
  | .zulu => ['Z']
  | .minutes n =>
    (if n < 0 then '-' else '+') :: padded 2 (n.natAbs / 60) ++ ':' :: padded 2 (n.natAbs % 60)

def Moment.text (m : Moment) : String :=
  let date := m.date.elim [] Date.chars
  let separator := if m.date.isSome ∧ m.time.isSome then ['T'] else []
  String.ofList
    (date ++ separator ++ m.time.elim [] Time.chars ++ m.offset.elim [] Offset.chars)

/-! ### Reading -/

def readNumber? (width : Nat) (s : List Char) : Option (Nat × List Char) :=
  let digits := s.takeWhile Char.isDigit
  if digits.length = width then some (natOfDigits digits, s.drop width) else none

def after? (c : Char) : List Char → Option (List Char)
  | d :: r => if c = d then some r else none
  | [] => none

def daysIn (year month : Nat) : Nat :=
  if month = 2 then
    if year % 4 = 0 ∧ (year % 100 ≠ 0 ∨ year % 400 = 0) then 29 else 28
  else if [4, 6, 9, 11].contains month then 30
  else 31

def readDate? (s : List Char) : Option (Date × List Char) := do
  let (year, s) ← readNumber? 4 s
  let (month, s) ← readNumber? 2 (← after? '-' s)
  let (day, s) ← readNumber? 2 (← after? '-' s)
  if 1 ≤ month ∧ month ≤ 12 ∧ 1 ≤ day ∧ day ≤ daysIn year month then
    some (⟨year, month, day⟩, s)
  else none

/-- The nanoseconds that the digits of a fraction give; digits after the ninth do not count. -/
def nanosOf (digits : List Char) : Nat :=
  let nine := digits.take 9
  natOfDigits nine * Nat.pow 10 (9 - nine.length)

/-- Reads the fraction of a second, if there is one. -/
def readFraction? : List Char → Option (Option Nat × List Char)
  | '.' :: r =>
    match r.takeWhile Char.isDigit with
    | [] => none
    | digits => some (some (nanosOf digits), r.dropWhile Char.isDigit)
  | s => some (none, s)

/-- Reads the seconds of a time, if there are any. -/
def readSeconds? : List Char → Option (Option Nat × Option Nat × List Char)
  | ':' :: r => do
    let (second, r) ← readNumber? 2 r
    let (nanosecond, r) ← readFraction? r
    if second ≤ 60 then some (some second, nanosecond, r) else none
  | s => some (none, none, s)

def readTime? (s : List Char) : Option (Time × List Char) := do
  let (hour, s) ← readNumber? 2 s
  let (minute, s) ← readNumber? 2 (← after? ':' s)
  let (second, nanosecond, s) ← readSeconds? s
  if hour ≤ 23 ∧ minute ≤ 59 then some (⟨hour, minute, second, nanosecond⟩, s) else none

/-- Reads an offset, if there is one. -/
def readOffset? : List Char → Option (Option Offset × List Char)
  | [] => some (none, [])
  | c :: r =>
    if c == 'Z' || c == 'z' then some (some .zulu, r)
    else if c == '+' || c == '-' then do
      let (hours, r) ← readNumber? 2 r
      let (minutes, r) ← readNumber? 2 (← after? ':' r)
      let total : Int := 60 * hours + minutes
      if hours ≤ 23 ∧ minutes ≤ 59 then
        some (some (.minutes (if c == '-' then -total else total)), r)
      else none
    else none

def separatesTime (c : Char) : Bool := c == 'T' || c == 't' || c == ' '

def Moment.parse? (s : List Char) : Option Moment :=
  match s.drop 4 with
  | '-' :: _ => do
    let (date, s) ← readDate? s
    match s with
    | [] => some ⟨some date, none, none⟩
    | c :: r =>
      if separatesTime c then
        let (time, r) ← readTime? r
        let (offset, r) ← readOffset? r
        if r = [] then some ⟨some date, some time, offset⟩ else none
      else none
  | _ => do
    let (time, s) ← readTime? s
    if s = [] then some ⟨none, some time, none⟩ else none

end LintBridge.Toml
