import Pipework.Double.Text
import Pipework.Toml.Scan

/-!
# The numbers of TOML

Digits may have single underscores between them. Integers have 64 bits with a sign. Floating point
numbers are read to the nearest double; one that is too large to have a finite neighbour is refused
unless it is negative.
-/

namespace Pipework.Toml

open Json (Read)

/-- Reads digits after a digit. -/
def moreDigits (isDigit : Char → Bool) : List Char → Option (Read (List Char))
  | [] => some ([], [])
  | '_' :: c :: s => if isDigit c then push c (moreDigits isDigit s) else none
  | c :: s =>
    if isDigit c then push c (moreDigits isDigit s)
    else if c = '_' then none
    else some ([], c :: s)

/-- Reads digits, at least one. -/
def digits (isDigit : Char → Bool) : List Char → Option (Read (List Char))
  | [] => none
  | c :: s => if isDigit c then push c (moreDigits isDigit s) else none

/-- Reads the digits of a decimal number: no other digit follows a leading zero. -/
def wholeDigits : List Char → Option (Read (List Char))
  | '0' :: s => some (['0'], s)
  | s => digits Char.isDigit s

/-- Reads an optional sign. -/
def sign : List Char → List Char × List Char
  | '+' :: s => (['+'], s)
  | '-' :: s => (['-'], s)
  | s => ([], s)

/-- The number if it has 64 bits. -/
def int64? (n : Int) : Option Json :=
  if Int64.minValue.toInt ≤ n ∧ n ≤ Int64.maxValue.toInt then some (.int n) else none

/-! ### Integers to other bases -/

/-- The digits of a base of at most sixteen. -/
def isDigitOf (base : Nat) (c : Char) : Bool :=
  match Json.hexDigit? c with
  | some d => d < base
  | none => false

/-- Reads digits to a base. -/
def based (base : Nat) (s : List Char) : Option (Read Json) := do
  let (ds, s) ← digits (isDigitOf base) s
  let n := ds.foldl (fun n d ↦ base * n + (Json.hexDigit? d).getD 0) 0
  let j ← int64? n
  return (j, s)

/-! ### Floating point numbers -/

/-- Reads an exponent after its letter. -/
def exponentDigits (s : List Char) : Option (Read (List Char)) := do
  let (sign, s) := sign s
  let (ds, s) ← digits Char.isDigit s
  return ('e' :: sign ++ ds, s)

/-- Reads an exponent, if there is one. -/
def exponentText : List Char → Option (Read (List Char))
  | 'e' :: s => exponentDigits s
  | 'E' :: s => exponentDigits s
  | s => some ([], s)

/-- Reads what makes a number a floating point number: a fraction, an exponent, or both. -/
def fractionText : List Char → Option (Read (List Char))
  | '.' :: s => do
    let (ds, s) ← digits Char.isDigit s
    let (e, s) ← exponentText s
    return ('.' :: ds ++ e, s)
  | s => exponentText s

/-- The double with the given digits, unless it is positive infinity. -/
def finite? (text : List Char) : Option Json := do
  let x ← Double.parse? text
  if x = Double.infinity false then none else some (.double x)

/-- Reads a decimal number after its sign. -/
def decimal (sign s : List Char) : Option (Read Json) := do
  let (ds, s) ← wholeDigits s
  let (fraction, s) ← fractionText s
  let j ←
    if fraction.isEmpty then
      let n : Int := Double.digitsValue ds
      int64? (if sign = ['-'] then -n else n)
    else finite? (sign ++ ds ++ fraction)
  return (j, s)

/-- Reads a number. -/
def number : List Char → Option (Read Json)
  | '0' :: 'x' :: s => based 16 s
  | '0' :: 'o' :: s => based 8 s
  | '0' :: 'b' :: s => based 2 s
  | s =>
    match sign s with
    | (sign, 'i' :: 'n' :: 'f' :: s) => some (.double (.infinity (sign == ['-'])), s)
    | (_, 'n' :: 'a' :: 'n' :: s) => some (.double .nan, s)
    | (sign, s) => decimal sign s

end Pipework.Toml
