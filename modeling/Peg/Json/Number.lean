import Peg.Json.Value

/-!
The value of a JSON number. A number without fraction and exponent is a whole number of any size;
any other is the nearest binary floating point number.
-/

namespace Peg.Json

/-- The whole number that a row of decimal digits stands for. -/
def decimalValue (digits : List Char) : Nat :=
  digits.foldl (fun value digit => 10 * value + (digit.toNat - '0'.toNat)) 0

/-- The whole number that digits after an optional sign stand for. -/
def signedValue : List Char → Int
  | '-' :: digits => -decimalValue digits
  | '+' :: digits => decimalValue digits
  | digits => decimalValue digits

/-- Whether a character starts the exponent of a number. -/
def isExponentMark (c : Char) : Bool := c == 'e' || c == 'E'

/-- The value of a number with a fraction or an exponent. -/
def floatValue (text : List Char) : Decimal.Binary64 :=
  let unsigned := if text.head? = some '-' then text.drop 1 else text
  let mantissa := unsigned.takeWhile (!isExponentMark ·)
  let exponent := (unsigned.dropWhile (!isExponentMark ·)).drop 1
  let whole := mantissa.takeWhile (· ≠ '.')
  let fraction := (mantissa.dropWhile (· ≠ '.')).drop 1
  .ofDecimal (text.head? = some '-') (decimalValue (whole ++ fraction))
    (signedValue exponent - fraction.length)

/-- The value of a number. -/
def numberValue (text : String) : Value :=
  let chars := text.toList
  if chars.any fun c => c == '.' || isExponentMark c then .float (floatValue chars)
  else .int (signedValue chars)

end Peg.Json
