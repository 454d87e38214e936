import Pipework.Double.Basic

/-!
# Decimal notation of doubles

`Double.ofDecimal` reads a decimal number to the nearest double. `Double.shortest` goes the other
way: the fewest decimal digits that are read back as the same double, and of those with the fewest
digits the nearest to it.
-/

namespace Pipework

/-- The decimal number `digits * 10 ^ exponent`. -/
structure Decimal where
  digits : Nat
  exponent : Int
deriving DecidableEq, Repr

namespace Decimal

/-- Moves factors of ten from the digits to the exponent, at most `fuel` of them. -/
def strip : Nat → Decimal → Decimal
  | 0, d => d
  | fuel + 1, d =>
    if d.digits ≠ 0 ∧ d.digits % 10 = 0 then strip fuel ⟨d.digits / 10, d.exponent + 1⟩ else d

/-- The digits in writing. -/
def digitChars (d : Decimal) : List Char :=
  Nat.toDigits 10 d.digits

/-- The exponent when a point stands after the first digit. -/
def scientificExponent (d : Decimal) : Int :=
  d.exponent + (d.digitChars.length : Int) - 1

end Decimal

namespace Double

/-- The numerator of `10 ^ e` in lowest terms. The denominator is the numerator of `10 ^ (-e)`. -/
def tenPow (e : Int) : Nat :=
  Nat.pow 10 e.toNat

/-- The double nearest to `digits * 10 ^ exponent`. Beyond the exponents of all finite doubles the
result is zero or infinity whatever the digits are. -/
def ofDecimal (negative : Bool) (digits : Nat) (exponent : Int) : Double :=
  let top : Int := ((Nat.toDigits 10 digits).length : Int) + exponent
  if digits = 0 ∨ top < -330 then zero negative
  else if 310 < top then infinity negative
  else ofRatio negative (digits * tenPow exponent) (tenPow (-exponent))

/-- The largest `e` with `10 ^ e ≤ num / den`, searched upwards from `e`. -/
def floorLog10From (num den : Nat) : Nat → Int → Int
  | 0, e => e
  | fuel + 1, e =>
    if den * tenPow (e + 1) ≤ num * tenPow (-(e + 1)) then
      floorLog10From num den fuel (e + 1)
    else e

/-- The largest `e` with `10 ^ e ≤ num / den`, for positive `num` and `den`. The logarithm to base
two gives a lower bound that is off by at most two. -/
def floorLog10 (num den : Nat) : Int :=
  floorLog10From num den 4 (floorLog2 num den * 30103 / 100000 - 1)

/-- The decimals that are read as a given double: those between `low / den` and `high / den`, the
ends included or not, around the double `num / den` itself. -/
structure Neighbourhood where
  low : Nat
  num : Nat
  high : Nat
  den : Nat
  closed : Bool

/-- The neighbourhood of a finite positive double: half the distance to the next double on each
side. The distance below a power of two is half that above it. -/
def neighbourhood (x : Double) : Neighbourhood :=
  let m := x.significand
  let q := x.exponent - 2
  { low := (4 * m - (if m = 1 <<< 52 ∧ x.exponent ≠ -1074 then 1 else 2)) <<< q.toNat
    num := (4 * m) <<< q.toNat
    high := (4 * m + 2) <<< q.toNat
    den := 1 <<< (-q).toNat
    closed := m % 2 = 0 }

namespace Neighbourhood

/-- Whether `k * 10 ^ e` lies in the neighbourhood. -/
def contains (v : Neighbourhood) (k : Nat) (e : Int) : Bool :=
  let point := k * tenPow e * v.den
  let low := v.low * tenPow (-e)
  let high := v.high * tenPow (-e)
  if v.closed then low ≤ point && point ≤ high else low < point && point < high

/-- The multiple of `10 ^ e` in the neighbourhood that is nearest to its centre, if there is one;
of two at the same distance the even one. -/
def nearest? (v : Neighbourhood) (e : Int) : Option Nat :=
  let unit := tenPow e * v.den
  let centre := v.num * tenPow (-e)
  let k := centre / unit
  let below := centre - k * unit
  let above := (k + 1) * unit - centre
  match v.contains k e, v.contains (k + 1) e with
  | false, false => none
  | true, false => some k
  | false, true => some (k + 1)
  | true, true => some (if below < above ∨ (below = above ∧ k % 2 = 0) then k else k + 1)

/-- The first decimal found when the number of digits grows from the given one, up to the given
number of attempts. -/
def shortestFrom (v : Neighbourhood) (top : Int) : Nat → Nat → Decimal
  | 0, _ => ⟨0, 0⟩
  | fuel + 1, places =>
    let e := top - places + 1
    match v.nearest? e with
    | some k => ⟨k, e⟩
    | none => shortestFrom v top fuel (places + 1)

end Neighbourhood

/-- The decimal with the fewest digits that is read back as the absolute value of a finite double.
Seventeen digits always suffice. -/
def shortest (x : Double) : Decimal :=
  if x.isZero then ⟨0, 0⟩
  else
    let v := x.neighbourhood
    (v.shortestFrom (floorLog10 v.num v.den) 17 1).strip 20

end Double
end Pipework
