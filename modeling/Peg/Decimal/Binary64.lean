/-!
Binary floating point numbers of 64 bits, given by their bits: a sign, eleven bits of exponent and
fifty-two of fraction. A decimal numeral stands for the nearest such number, where a value half way
between two goes to the one with an even last bit, and one that is too large becomes infinity.
-/

namespace Peg.Decimal

/-- The power of two with an exponent. -/
def twoPow (exponent : Nat) : Nat := Nat.pow 2 exponent

/-- The power of ten with an exponent. -/
def tenPow (exponent : Nat) : Nat := Nat.pow 10 exponent

/-- A binary floating point number of 64 bits. -/
structure Binary64 where
  /-- The sign, the exponent and the fraction, from the highest bit down. -/
  bits : UInt64
deriving DecidableEq

namespace Binary64

/-- The quotient rounded to the nearest whole number, half way to the even one. -/
def roundHalfEven (num den : Nat) : Nat :=
  let quotient := num / den
  let twice := 2 * (num % den)
  if twice > den || (twice == den && quotient % 2 == 1) then quotient + 1 else quotient

/-- The lowest bit of the exponent, as a number: there are so many fractions. -/
def exponentUnit : Nat := twoPow 52

/-- The magnitude bits of infinity. -/
def infinity : Nat := 2047 * exponentUnit

/-- The sign bit, as a number. -/
def signUnit : Nat := twoPow 63

/-- The exponent of two that the positive quotient reaches but does not pass. -/
def floorLog2 (num den : Nat) : Int :=
  let guess : Int := (num.log2 : Int) - den.log2
  -- The guess is right or one too high.
  let reached :=
    if guess ≥ 0 then den * twoPow guess.toNat ≤ num else den ≤ num * twoPow (-guess).toNat
  if reached then guess else guess - 1

/-- The exponent of the last bit of the smallest positive number. -/
def leastExponent : Int := -1074

/-- The magnitude bits of the number nearest to a quotient. -/
def magnitudeOfRatio (num den : Nat) : Nat :=
  if num = 0 then 0
  else
    let exponent := max (floorLog2 num den - 52) leastExponent
    let scaled :=
      if exponent ≥ 0 then roundHalfEven num (den * twoPow exponent.toNat)
      else roundHalfEven (num * twoPow (-exponent).toNat) den
    -- Adding the rounded fraction to the exponent field carries into it by itself.
    let field := (exponent - leastExponent).toNat
    min (field * exponentUnit + scaled) infinity

/-- The magnitude bits of the number nearest to `digits * 10 ^ exponent`. Powers of ten far beyond
the range of the format are not computed. -/
def magnitudeOfDecimal (digits : Nat) (exponent : Int) : Nat :=
  let size := exponent + (Nat.toDigits 10 digits).length
  if digits = 0 || size < -330 then 0
  else if size > 330 then infinity
  else if exponent ≥ 0 then magnitudeOfRatio (digits * tenPow exponent.toNat) 1
  else magnitudeOfRatio digits (tenPow (-exponent).toNat)

/-- The number nearest to a decimal numeral. -/
def ofDecimal (negative : Bool) (digits : Nat) (exponent : Int) : Binary64 :=
  ⟨UInt64.ofNat ((if negative then signUnit else 0) + magnitudeOfDecimal digits exponent)⟩

/-- Whether the sign bit is set. -/
def isNegative (x : Binary64) : Bool := x.bits.toNat ≥ signUnit

/-- The bits without the sign. -/
def magnitude (x : Binary64) : Nat := x.bits.toNat % signUnit

end Binary64

end Peg.Decimal
