/-!
# Double-precision numbers

A `Double` is a bit pattern of the binary64 format. Every operation is exact arithmetic on natural
numbers followed by one rounding, `Double.ofRatio`, to the nearest representable number with ties
going to the even significand.
-/

namespace Pipework

/-- A number of the binary64 format, given by its bits: sign, eleven bits of exponent, fifty-two
bits of fraction. -/
structure Double where
  bits : UInt64
deriving DecidableEq, Inhabited, Repr

namespace Double

/-! ### The fields of a bit pattern -/

/-- The sign bit. -/
def isNegative (x : Double) : Bool :=
  decide (1 <<< 63 ≤ x.bits.toNat)

/-- The biased exponent. -/
def exponentField (x : Double) : Nat :=
  x.bits.toNat >>> 52 % 2048

/-- The fraction without the implicit leading bit. -/
def fractionField (x : Double) : Nat :=
  x.bits.toNat % 1 <<< 52

/-- Neither infinite nor a NaN. -/
def isFinite (x : Double) : Bool :=
  x.exponentField != 2047

/-- Not a number. -/
def isNaN (x : Double) : Bool :=
  x.exponentField == 2047 && x.fractionField != 0

/-- Positive or negative infinity. -/
def isInfinite (x : Double) : Bool :=
  x.exponentField == 2047 && x.fractionField == 0

/-- Positive or negative zero. -/
def isZero (x : Double) : Bool :=
  x.exponentField == 0 && x.fractionField == 0

/-- The integer significand of a finite number, whose absolute value is
`significand * 2 ^ exponent`. -/
def significand (x : Double) : Nat :=
  if x.exponentField = 0 then x.fractionField else 1 <<< 52 + x.fractionField

/-- The binary exponent that belongs to `significand`. -/
def exponent (x : Double) : Int :=
  (max x.exponentField 1 : Nat) - 1075

/-- Numeric equality: a NaN differs from everything and the two zeros are equal. -/
def numEq (x y : Double) : Bool :=
  !x.isNaN && !y.isNaN && (x.bits == y.bits || (x.isZero && y.isZero))

instance : BEq Double := ⟨numEq⟩

/-! ### Building numbers -/

/-- The number with the given sign whose remaining sixty-three bits are `magnitude`; magnitudes
beyond infinity are cut to infinity. -/
def ofMagnitude (negative : Bool) (magnitude : Nat) : Double :=
  ⟨UInt64.ofNat ((if negative then 1 <<< 63 else 0) + min magnitude (2047 <<< 52))⟩

/-- Zero with the given sign. -/
def zero (negative : Bool) : Double :=
  ofMagnitude negative 0

/-- Infinity with the given sign. -/
def infinity (negative : Bool) : Double :=
  ofMagnitude negative (2047 <<< 52)

/-- A quiet NaN. -/
def nan : Double :=
  ⟨0x7FF8000000000000⟩

/-- The same number with the other sign. -/
def neg (x : Double) : Double :=
  ⟨x.bits ^^^ 0x8000000000000000⟩

/-! ### Rounding -/

/-- `num / den` rounded to the nearest integer, a half going to the even neighbour. -/
def roundHalfEven (num den : Nat) : Nat :=
  let quotient := num / den
  let remainder := num % den
  if den < 2 * remainder ∨ (2 * remainder = den ∧ quotient % 2 = 1) then quotient + 1 else quotient

/-- The largest `e` with `2 ^ e ≤ num / den`, for positive `num` and `den`. -/
def floorLog2 (num den : Nat) : Int :=
  let e : Int := (Nat.log2 num : Int) - Nat.log2 den
  if den <<< e.toNat ≤ num <<< (-e).toNat then e else e - 1

/-- The number nearest to `num / den` with the given sign, a half going to the even significand.

With `q` the exponent of the last significand bit, the sum of `(q + 1074) * 2 ^ 52` and the rounded
significand is the magnitude in all cases: the implicit bit adds one to the exponent field of a
normal number, and so does a carry out of the significand. -/
def ofRatio (negative : Bool) (num den : Nat) : Double :=
  if num = 0 then zero negative
  else
    let q : Int := max (floorLog2 num den - 52) (-1074)
    let significand := roundHalfEven (num <<< (-q).toNat) (den <<< q.toNat)
    ofMagnitude negative ((q + 1074).toNat <<< 52 + significand)

/-- The number nearest to a natural number. -/
def ofNat (n : Nat) : Double :=
  ofRatio false n 1

/-- The number nearest to an integer; zero is positive. -/
def ofInt (n : Int) : Double :=
  ofRatio (n < 0) n.natAbs 1

/-- The absolute value of a finite number as a fraction. -/
def toRatio (x : Double) : Nat × Nat :=
  (x.significand <<< x.exponent.toNat, 1 <<< (-x.exponent).toNat)

/-- The integer part of a finite number. -/
def truncate (x : Double) : Int :=
  let (num, den) := x.toRatio
  let n : Int := (num / den : Nat)
  if x.isNegative then -n else n

/-- The product of two finite numbers. -/
def mul (x y : Double) : Double :=
  let (xn, xd) := x.toRatio
  let (yn, yd) := y.toRatio
  ofRatio (x.isNegative != y.isNegative) (xn * yn) (xd * yd)

/-- The quotient of two finite numbers, the second of which is not zero. -/
def div (x y : Double) : Double :=
  let (xn, xd) := x.toRatio
  let (yn, yd) := y.toRatio
  ofRatio (x.isNegative != y.isNegative) (xn * yd) (xd * yn)

end Double
end Pipework
