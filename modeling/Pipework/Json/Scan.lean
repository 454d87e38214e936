import Pipework.Json.Fault

/-!
# The words of JSON

Reading blanks, literal names, strings and numbers from the front of a list of characters. A reader
returns what it read and the characters after it.
-/

namespace Pipework.Json

/-- A value read from the front of a text, and the rest of the text. -/
abbrev Read (α : Type) := α × List Char

/-- The characters that may stand between words. -/
def isSpace (c : Char) : Bool :=
  c == ' ' || c == '\n' || c == '\t' || c == '\r'

/-- Drops the blanks in front. -/
def skipSpace (s : List Char) : List Char :=
  s.dropWhile isSpace

/-- Reads the given characters, the rest of a literal name. -/
def word : List Char → List Char → Except Fault (List Char)
  | [], s => .ok s
  | _ :: _, [] => .error (.stop .endInValue [])
  | c :: cs, d :: s => if c = d then word cs s else .error (.peek .expectedWord (d :: s))

/-! ### Strings -/

/-- The character that a one-letter escape stands for. -/
def escaped? (c : Char) : Option Char :=
  if c = '"' then some '"'
  else if c = '\\' then some '\\'
  else if c = '/' then some '/'
  else if c = 'b' then some '\x08'
  else if c = 'f' then some '\x0c'
  else if c = 'n' then some '\n'
  else if c = 'r' then some '\r'
  else if c = 't' then some '\t'
  else none

/-- The value of a hexadecimal digit. -/
def hexDigit? (c : Char) : Option Nat :=
  if '0' ≤ c ∧ c ≤ '9' then some (c.toNat - '0'.toNat)
  else if 'a' ≤ c ∧ c ≤ 'f' then some (c.toNat - 'a'.toNat + 10)
  else if 'A' ≤ c ∧ c ≤ 'F' then some (c.toNat - 'A'.toNat + 10)
  else none

/-- The value of four hexadecimal digits. -/
def hexUnit? (a b c d : Char) : Option Nat := do
  let a ← hexDigit? a
  let b ← hexDigit? b
  let c ← hexDigit? c
  let d ← hexDigit? d
  return ((a * 16 + b) * 16 + c) * 16 + d

/-- The first half of a surrogate pair. -/
def isHighSurrogate (n : Nat) : Bool := 0xD800 ≤ n && n ≤ 0xDBFF

/-- The second half of a surrogate pair. -/
def isLowSurrogate (n : Nat) : Bool := 0xDC00 ≤ n && n ≤ 0xDFFF

/-- The fault of a text in place of four hexadecimal digits: four bytes are consumed if there are
as many. -/
def hexFault (s : List Char) : Fault :=
  if Text.byteLength s < 4 then .stop .endInString []
  else .malformed .invalidEscape (Text.byteLength s - 4)

/-- The fault of a text in place of the second half of a surrogate pair. -/
def pairFault : List Char → Fault
  | [] => .stop .endInString []
  | ['\\'] => .stop .endInString []
  | '\\' :: 'u' :: s => hexFault s
  | '\\' :: s => .peek .endOfSurrogatePair s
  | s => .peek .endOfSurrogatePair s

/-- Puts a character in front of a string that was read. -/
def push (c : Char) : Except Fault (Read (List Char)) → Except Fault (Read (List Char))
  | .ok (cs, s) => .ok (c :: cs, s)
  | .error f => .error f

/-- Reads a string after its opening quotation mark. -/
def stringBody : List Char → Except Fault (Read (List Char))
  | [] => .error (.stop .endInString [])
  | c :: s =>
    if c = '"' then .ok ([], s)
    else if c = '\\' then
      match s with
      | [] => .error (.stop .endInString [])
      | 'u' :: a :: b :: c :: d :: t =>
        match hexUnit? a b c d with
        | none => .error (hexFault (a :: b :: c :: d :: t))
        | some n =>
          if isLowSurrogate n then .error (.stop .loneSurrogate t)
          else if isHighSurrogate n then
            match t with
            | '\\' :: 'u' :: e :: f :: g :: h :: u =>
              match hexUnit? e f g h with
              | none => .error (hexFault (e :: f :: g :: h :: u))
              | some m =>
                if isLowSurrogate m then
                  push (Char.ofNat ((n - 0xD800) * 0x400 + (m - 0xDC00) + 0x10000)) (stringBody u)
                else .error (.stop .loneSurrogate u)
            | t => .error (pairFault t)
          else push (Char.ofNat n) (stringBody t)
      | e :: t =>
        if e = 'u' then .error (hexFault t)
        else
          match escaped? e with
          | some x => push x (stringBody t)
          | none => .error (.peek .invalidEscape (e :: t))
    else if c.toNat < 0x20 then .error (.peek .controlCharacter (c :: s))
    else push c (stringBody s)

/-! ### Numbers -/

/-- The parts of a number in writing; digits are given by their values. -/
structure NumberText where
  negative : Bool
  whole : List Nat
  fraction : List Nat
  exponent : Option (Bool × List Nat)

/-- A decimal digit. -/
def isDigit (c : Char) : Bool :=
  '0' ≤ c && c ≤ '9'

/-- The values of the digits in front, and the rest. -/
def digits (s : List Char) : List Nat × List Char :=
  ((s.takeWhile isDigit).map fun c ↦ c.toNat - '0'.toNat, s.dropWhile isDigit)

/-- Whether a digit comes next. -/
def startsWithDigit : List Char → Bool
  | [] => false
  | c :: _ => isDigit c

/-- Reads the digits of an exponent after its sign. -/
def exponentDigits (negative : Bool) (s : List Char) : Except Fault (Read (Bool × List Nat)) :=
  match s with
  | [] => .error (.stop .endInValue [])
  | c :: t =>
    if isDigit c then .ok ((negative, (digits (c :: t)).1), (digits (c :: t)).2)
    else .error (.peek .invalidNumber (c :: t))

/-- Reads an exponent, if there is one. -/
def exponentPart (s : List Char) : Except Fault (Read (Option (Bool × List Nat))) :=
  match s with
  | [] => .ok (none, [])
  | c :: t =>
    if c = 'e' ∨ c = 'E' then
      let r :=
        match t with
        | '+' :: u => exponentDigits false u
        | '-' :: u => exponentDigits true u
        | t => exponentDigits false t
      r.map fun (e, rest) ↦ (some e, rest)
    else .ok (none, c :: t)

/-- Reads the digits after a decimal point, if there is one. -/
def fractionPart (s : List Char) : Except Fault (Read (List Nat)) :=
  match s with
  | [] => .ok ([], [])
  | c :: t =>
    if c = '.' then
      if startsWithDigit t then .ok (digits t)
      else if t.isEmpty then .error (.stop .endInValue [])
      else .error (.peek .invalidNumber t)
    else .ok ([], c :: t)

/-- Reads the digits before the decimal point; only a single zero may stand in front. -/
def wholePart (s : List Char) : Except Fault (Read (List Nat)) :=
  match s with
  | [] => .error (.stop .endInValue [])
  | c :: t =>
    if c = '0' then
      if startsWithDigit t then .error (.peek .invalidNumber t) else .ok ([0], t)
    else if isDigit c then .ok (digits (c :: t))
    else .error (.peek .invalidNumber (c :: t))

/-- Reads the parts of a number after its sign. -/
def numberText (negative : Bool) (s : List Char) : Except Fault (Read NumberText) := do
  let (whole, s) ← wholePart s
  let (fraction, s) ← fractionPart s
  let (exponent, s) ← exponentPart s
  return (⟨negative, whole, fraction, exponent⟩, s)

/-- A number as it is read. -/
inductive Number where
  | int (value : Int)
  | double (value : Double)

/-- Appends digits to a significand while it stays below `2 ^ 64`. Returns the significand and the
number of digits appended. -/
def gather (significand : Nat) : List Nat → Nat × Nat
  | [] => (significand, 0)
  | d :: ds =>
    if UInt64.size ≤ significand * 10 + d then (significand, 0)
    else
      let (s, n) := gather (significand * 10 + d) ds
      (s, n + 1)

/-- The value of an exponent, or the number of digits after the one that takes it beyond
`2 ^ 31 - 1`. -/
def gatherExponent (value : Nat) : List Nat → Except Nat Nat
  | [] => .ok value
  | d :: ds =>
    if 1 <<< 31 ≤ value * 10 + d then .error ds.length else gatherExponent (value * 10 + d) ds

/-- The double nearest to a power of ten. -/
def powerOfTen (n : Nat) : Double :=
  Double.ofNat (Double.tenPow n)

/-- Divides a double by a power of ten, in steps of at most `308`, until it is zero or done. -/
def divideByTens : Nat → Double → Nat → Double
  | 0, x, _ => x
  | fuel + 1, x, n =>
    if n ≤ 308 then x.div (powerOfTen n)
    else if x.isZero then x
    else divideByTens fuel (x.div (powerOfTen 308)) (n - 308)

/-- A significand times a power of ten, computed with one double operation where the power fits
one; nothing if the result is infinite. -/
def scaled? (significand : Nat) (exponent : Int) : Option Double :=
  let x := Double.ofNat significand
  if exponent < 0 then some (divideByTens (exponent.natAbs / 308 + 1) x exponent.natAbs)
  else if 308 < exponent then if x.isZero then some x else none
  else
    let y := x.mul (powerOfTen exponent.natAbs)
    if y.isInfinite then none else some y

/-- The double with the given sign and absolute value. -/
def signed (negative : Bool) (x : Double) : Double :=
  if negative then x.neg else x

/-- The value of a number. Without fraction and exponent it is an integer where sixty-four bits
hold it, signed if there is a minus sign; negative zero and all others are doubles. If it is out of
range, the number of exponent digits that stand after the place where that shows. -/
def NumberText.value (t : NumberText) : Except Nat Number :=
  let (s, n) := gather 0 t.whole
  let dropped := t.whole.length - n
  let double (significand : Nat) (exponent : Int) : Except Nat Number :=
    match scaled? significand exponent with
    | some x => .ok (.double (signed t.negative x))
    | none => .error 0
  if t.fraction.isEmpty ∧ t.exponent.isNone then
    if dropped ≠ 0 then double s dropped
    else if !t.negative then .ok (.int s)
    else if s = 0 ∨ -(s : Int) < Int64.minValue.toInt then .ok (.double (Double.ofNat s).neg)
    else .ok (.int (-s))
  else
    let (s, n) := gather s t.fraction
    let base : Int := dropped - n
    match t.exponent with
    | none => double s base
    | some (negative, ds) =>
      match gatherExponent 0 ds with
      | .ok e => double s (if negative then base - e else base + e)
      | .error left =>
        if s ≠ 0 ∧ !negative then .error left
        else .ok (.double (Double.zero t.negative))

/-- Reads a number after its sign. -/
def number (negative : Bool) (s : List Char) : Except Fault (Read Number) := do
  let (t, rest) ← numberText negative s
  match t.value with
  | .ok n => return (n, rest)
  | .error left => .error (.malformed .numberOutOfRange (Text.byteLength rest + left))

end Pipework.Json
