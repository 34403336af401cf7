import Peg.Decimal.Binary64

/-!
The shortest decimal text of a binary floating point number: the fewest digits that read back as
the same number and, of those, the ones nearest to it. The text is positional from 0.0001 up to
10 to the sixteenth, and has an exponent of at least two digits elsewhere.
-/

namespace Peg.Decimal

/-- A positive number `0.d₁d₂… * 10 ^ point`, given by its digits. -/
structure Digits where
  /-- The digits as one whole number. -/
  value : Nat
  /-- The power of ten in front of which the decimal point stands. -/
  point : Int

namespace Binary64

/-- The significand and the exponent of two of a finite number without its sign. -/
def decode (magnitude : Nat) : Nat × Int :=
  let field : Nat := magnitude / exponentUnit
  let fraction : Nat := magnitude % exponentUnit
  if field = 0 then (fraction, leastExponent)
  else (exponentUnit + fraction, leastExponent + field - 1)

/-- Whether `digits * 10 ^ exponent` reads back as the number with these magnitude bits. -/
def readsBack (magnitude digits : Nat) (exponent : Int) : Bool :=
  magnitudeOfDecimal digits exponent == magnitude

/-- The exact quotient that a number stands for, divided by a power of ten. -/
def scaledRatio (magnitude : Nat) (exponent : Int) : Nat × Nat :=
  let (significand, power) := decode magnitude
  let num := significand * twoPow power.toNat * tenPow (-exponent).toNat
  let den := twoPow (-power).toNat * tenPow exponent.toNat
  (num, den)

/-- The nearest decimal with the last digit at `10 ^ exponent` that reads back, if one does. Only
the two neighbours of the number can. -/
def nearestAt? (magnitude : Nat) (exponent : Int) : Option Nat :=
  let (num, den) := scaledRatio magnitude exponent
  let below := num / den
  let above := below + 1
  let distance := 2 * (num % den)
  let preferBelow := distance < den || (distance == den && below % 2 == 0)
  match below != 0 && readsBack magnitude below exponent, readsBack magnitude above exponent with
  | true, true => some (if preferBelow then below else above)
  | true, false => some below
  | false, true => some above
  | false, false => none

/-- The number of decimal digits in front of the decimal point, negative for leading zeros. -/
def decimalSize (magnitude : Nat) : Int :=
  let (num, den) := scaledRatio magnitude (-400)
  ((Nat.toDigits 10 (num / den)).length : Int) - 400

/-- Tries digit counts upwards, `tries` of them. -/
def searchDigits (magnitude : Nat) (size : Int) : (tries count : Nat) → Digits
  | 0, _ => ⟨0, 0⟩
  | tries + 1, count =>
    match nearestAt? magnitude (size - count) with
    | some digits => ⟨digits, size - count + (Nat.toDigits 10 digits).length⟩
    | none => searchDigits magnitude size tries (count + 1)

/-- The shortest digits of a positive finite number. -/
def shortestDigits (magnitude : Nat) : Digits :=
  searchDigits magnitude (decimalSize magnitude) 17 1

/-- Digits without the zeros at their end. -/
def withoutTrailingZeros (digits : List Char) : List Char :=
  (digits.reverse.dropWhile (· = '0')).reverse

/-- Lays digits out around the decimal point. -/
def layout (digits : List Char) (point : Int) : List Char :=
  if -4 < point && point ≤ 16 then
    if point ≤ 0 then
      '0' :: '.' :: (List.replicate (-point).toNat '0' ++ digits)
    else
      let whole := digits.take point.toNat
      let padded := whole ++ List.replicate (point.toNat - whole.length) '0'
      let fraction := digits.drop point.toNat
      padded ++ '.' :: (if fraction.isEmpty then ['0'] else fraction)
  else
    let exponent := point - 1
    let mark := if exponent < 0 then '-' else '+'
    let amount := Nat.toDigits 10 exponent.natAbs
    let amount := if amount.length < 2 then '0' :: amount else amount
    let fraction := digits.drop 1
    digits.take 1 ++ (if fraction.isEmpty then [] else '.' :: fraction) ++ 'e' :: mark :: amount

/-- The shortest decimal text of a number. -/
def toText (x : Binary64) : String :=
  let sign := if x.isNegative then "-" else ""
  if x.magnitude > infinity then "nan"
  else if x.magnitude = infinity then sign ++ "inf"
  else if x.magnitude = 0 then sign ++ "0.0"
  else
    let shortest := shortestDigits x.magnitude
    let digits := withoutTrailingZeros (Nat.toDigits 10 shortest.value)
    sign ++ String.ofList (layout digits shortest.point)

end Binary64

end Peg.Decimal
