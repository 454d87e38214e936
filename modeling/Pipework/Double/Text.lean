import Pipework.Double.Decimal

/-!
# Reading doubles from text

A number in writing is a sign, digits with at most one point among them, and an exponent; the words
`inf`, `infinity` and `nan` in any case stand for the values that have no digits. The result is the
double nearest to the number.
-/

namespace Pipework.Double

/-- The value of decimal digits. -/
def digitsValue (ds : List Char) : Nat :=
  ds.foldl (fun n d ↦ 10 * n + (d.toNat - '0'.toNat)) 0

/-- Reads a sign. -/
def signPart : List Char → Bool × List Char
  | '-' :: s => (true, s)
  | '+' :: s => (false, s)
  | s => (false, s)

/-- Reads the exponent that ends a number; there is none at the end of the text. -/
def exponentPart? : List Char → Option Int
  | [] => some 0
  | c :: s =>
    let (negative, ds) := signPart s
    if (c = 'e' ∨ c = 'E') ∧ ds ≠ [] ∧ ds.all Char.isDigit then
      some (if negative then -(digitsValue ds : Int) else digitsValue ds)
    else none

/-- Reads digits with at most one point among them and an exponent. -/
def unsigned? (negative : Bool) (s : List Char) : Option Double :=
  let whole := s.takeWhile Char.isDigit
  let s := s.dropWhile Char.isDigit
  let (fraction, s) := match s with
    | '.' :: s => (s.takeWhile Char.isDigit, s.dropWhile Char.isDigit)
    | s => ([], s)
  if whole = [] ∧ fraction = [] then none
  else do
    let e ← exponentPart? s
    return ofDecimal negative (digitsValue (whole ++ fraction)) (e - fraction.length)

/-- Reads a number in writing. -/
def parse? (s : List Char) : Option Double :=
  let (negative, s) := signPart s
  let word := s.map Char.toLower
  if word = "inf".toList ∨ word = "infinity".toList then some (infinity negative)
  else if word = "nan".toList then some (if negative then nan.neg else nan)
  else unsigned? negative s

end Pipework.Double
