import LintBridge.Text.Digit

/-! The shortest decimal numeral that reads back as a given binary floating-point number, and of the
shortest ones the nearest. A finite number is `mantissa * 2 ^ exponent`; the numerals that read back
as it fill an interval, whose ends belong to it when the mantissa is even. A numeral is written
positionally, without an exponent and without zeros at the end of a fraction. -/

namespace LintBridge.Decimal

open LintBridge.Text

/-- A positive binary number with its distance to the numbers around it. Below a power of two the
next number down is half as far as the next number up. -/
structure Binary where
  mantissa : Nat
  exponent : Int
  /-- Whether the next number down is half as far as the next number up. -/
  atPower : Bool
  deriving DecidableEq, Repr

namespace Binary

/-- The factor by which all quantities below are multiplied to make them whole: `4 * 2 ^ -exponent`
where that is more than four. -/
def scale (x : Binary) : Nat := if x.exponent < 0 then 4 * Nat.pow 2 (-x.exponent).toNat else 4

/-- A whole number of quarters of the last binary place, scaled. -/
def quarters (x : Binary) (n : Nat) : Nat :=
  if x.exponent < 0 then n else n * Nat.pow 2 x.exponent.toNat

def value (x : Binary) : Nat := x.quarters (4 * x.mantissa)

/-- The lower end of the interval of numerals that read back as the number, scaled. -/
def low (x : Binary) : Nat := x.quarters (4 * x.mantissa - if x.atPower then 1 else 2)

/-- The upper end of the interval, scaled. -/
def high (x : Binary) : Nat := x.quarters (4 * x.mantissa + 2)

end Binary

/-- A decimal numeral `digits * 10 ^ exponent`. -/
structure Numeral where
  digits : Nat
  exponent : Int
  deriving DecidableEq, Repr

def powerOfTen (e : Int) : Nat × Nat :=
  if e < 0 then (1, Nat.pow 10 (-e).toNat) else (Nat.pow 10 e.toNat, 1)

/-- Whether the `n`-th point of the grid of multiples of `10 ^ e` reads back as `x`. -/
def readsBack (x : Binary) (e : Int) (n : Nat) : Bool :=
  let (up, down) := powerOfTen e
  let point := n * up * x.scale
  if x.mantissa % 2 = 0 then x.low * down ≤ point && point ≤ x.high * down
  else x.low * down < point && point < x.high * down

/-- The number of the last grid point that is not above `x`. -/
def floorOn (x : Binary) (e : Int) : Nat :=
  let (up, down) := powerOfTen e
  x.value * down / (up * x.scale)

/-- The nearest point of the grid of multiples of `10 ^ e` that reads back as `x`, if one does. Of
two that are equally near the upper one is taken. -/
def onGrid? (x : Binary) (e : Int) : Option Numeral :=
  let n := floorOn x e
  let (up, down) := powerOfTen e
  let upperIsNearer : Bool := (2 * n + 1) * up * x.scale ≤ 2 * x.value * down
  match readsBack x e n, readsBack x e (n + 1) with
  | true, true => some ⟨if upperIsNearer then n + 1 else n, e⟩
  | true, false => some ⟨n, e⟩
  | false, true => some ⟨n + 1, e⟩
  | false, false => none

/-- The exponent of the power of ten at or below a positive number. -/
def leadingPlace (x : Binary) : Int :=
  let length (n : Nat) : Nat := (natChars n).length
  if x.scale ≤ x.value then (length (x.value / x.scale) : Int) - 1
  else
    let places := length (x.scale / x.value)
    if x.scale ≤ x.value * Nat.pow 10 (places - 1) then 1 - (places : Int) else -(places : Int)

/-- The first hit on the grids of one, two and more digits. -/
def shortestFrom (x : Binary) (place : Int) : Nat → Numeral
  | 0 => ⟨floorOn x place, place⟩
  | more + 1 => (onGrid? x place).getD (shortestFrom x (place - 1) more)

/-- The shortest numeral that reads back as a positive number. Seventeen digits always suffice. -/
def shortest (x : Binary) : Numeral := shortestFrom x (leadingPlace x) 17

/-- A numeral without a zero at the end of its fraction. -/
def dropZeros (digits : Nat) : Nat → Nat × Nat
  | 0 => (digits, 0)
  | places + 1 =>
    if digits % 10 = 0 then dropZeros (digits / 10) places else (digits, places + 1)

def Numeral.text (x : Numeral) : String :=
  if 0 ≤ x.exponent then
    String.ofList (natChars x.digits ++ List.replicate x.exponent.toNat '0')
  else
    let (digits, places) := dropZeros x.digits (-x.exponent).toNat
    let chars := natChars digits
    let padded := List.replicate (places + 1 - chars.length) '0' ++ chars
    if places = 0 then String.ofList chars
    else String.ofList
      (padded.take (padded.length - places) ++ '.' :: padded.drop (padded.length - places))

/-- The parts of the bits of a floating-point number. -/
structure Layout where
  mantissaBits : Nat
  exponentBits : Nat

def textOfBits (layout : Layout) (bits : Nat) : String :=
  let fraction := bits % Nat.pow 2 layout.mantissaBits
  let field := bits / Nat.pow 2 layout.mantissaBits % Nat.pow 2 layout.exponentBits
  let negative := bits / Nat.pow 2 (layout.mantissaBits + layout.exponentBits) % 2 = 1
  let sign := if negative then "-" else ""
  let bias : Int := Nat.pow 2 (layout.exponentBits - 1) - 1 + layout.mantissaBits
  if field = Nat.pow 2 layout.exponentBits - 1 then
    if fraction = 0 then sign ++ "inf" else "NaN"
  else if field = 0 then
    if fraction = 0 then sign ++ "0"
    else sign ++ (shortest ⟨fraction, 1 - bias, false⟩).text
  else
    let x : Binary :=
      ⟨Nat.pow 2 layout.mantissaBits + fraction, field - bias, fraction = 0 && field != 1⟩
    sign ++ (shortest x).text

/-- The text of a double: the fewest digits that read back, never with an exponent. -/
def doubleText (x : Float) : String := textOfBits ⟨52, 11⟩ x.toBits.toNat

/-- The text of a single: the fewest digits that read back, never with an exponent. -/
def singleText (x : Float32) : String := textOfBits ⟨23, 8⟩ x.toBits.toNat

end LintBridge.Decimal
