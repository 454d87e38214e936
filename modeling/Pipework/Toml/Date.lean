import Pipework.Toml.Number

/-!
# Dates and times

A date, a time, or both, with an offset from universal time if there are both. What counts is the
text in its normal form: a capital letter between date and time, and at most nine digits of a
second without trailing zeros.
-/

namespace Pipework.Toml

open Json (Read)

/-- Reads two digits whose value lies between two bounds. -/
def twoDigits (low high : Nat) : List Char → Option (Read (List Char))
  | a :: b :: s =>
    if a.isDigit && b.isDigit && low ≤ Double.digitsValue [a, b]
        && Double.digitsValue [a, b] ≤ high then
      some ([a, b], s)
    else none
  | _ => none

/-- The number of days of a month. -/
def daysIn (year month : Nat) : Nat :=
  if month = 2 then
    if year % 4 = 0 ∧ (year % 100 ≠ 0 ∨ year % 400 = 0) then 29 else 28
  else if month = 4 ∨ month = 6 ∨ month = 9 ∨ month = 11 then 30
  else 31

/-- Reads a date. -/
def date : List Char → Option (Read (List Char))
  | a :: b :: c :: d :: '-' :: s =>
    if [a, b, c, d].all Char.isDigit then do
      let (month, s) ← twoDigits 1 12 s
      let '-' :: s := s | none
      let (day, s) ← twoDigits 1 31 s
      let days := daysIn (Double.digitsValue [a, b, c, d]) (Double.digitsValue month)
      if Double.digitsValue day ≤ days then
        some ([a, b, c, d, '-'] ++ month ++ '-' :: day, s)
      else none
    else none
  | _ => none

/-- The normal form of the digits after the point of a second. -/
def secondFraction (digits : List Char) : List Char :=
  match ((digits.take 9).reverse.dropWhile (· == '0')).reverse with
  | [] => []
  | ds => '.' :: ds

/-- Reads the fraction of a second, if there is one. -/
def fractionOfSecond : List Char → List Char × List Char
  | '.' :: s =>
    let ds := s.takeWhile Char.isDigit
    if ds.isEmpty then ([], '.' :: s) else (secondFraction ds, s.dropWhile Char.isDigit)
  | s => ([], s)

/-- Reads a time. -/
def time (s : List Char) : Option (Read (List Char)) := do
  let (hour, s) ← twoDigits 0 23 s
  let ':' :: s := s | none
  let (minute, s) ← twoDigits 0 59 s
  let ':' :: s := s | none
  let (second, s) ← twoDigits 0 60 s
  let (fraction, s) := fractionOfSecond s
  return (hour ++ ':' :: minute ++ ':' :: second ++ fraction, s)

/-- Reads hours and minutes of an offset; no offset is negative zero. -/
def offsetDigits (sign : Char) (s : List Char) : Option (Read (List Char)) := do
  let (hour, s) ← twoDigits 0 23 s
  let ':' :: s := s | none
  let (minute, s) ← twoDigits 0 59 s
  let sign := if (hour ++ minute).all (· == '0') then '+' else sign
  return (sign :: hour ++ ':' :: minute, s)

/-- Reads an offset, if there is one. -/
def offset : List Char → Option (Read (List Char))
  | 'Z' :: s => some (['Z'], s)
  | 'z' :: s => some (['Z'], s)
  | '+' :: s => offsetDigits '+' s
  | '-' :: s => offsetDigits '-' s
  | s => some ([], s)

/-- Reads the time after a date, if there is one. -/
def timeOfDay (s : List Char) : Option (Read (List Char)) :=
  match s with
  | c :: t =>
    if c = 'T' ∨ c = 't' ∨ c = ' ' then
      match time t with
      | some (text, t) => (offset t).map fun (o, t) ↦ ('T' :: text ++ o, t)
      | none => some ([], s)
    else some ([], s)
  | [] => some ([], [])

/-- Reads a date with or without a time, or a time. -/
def dateTime (s : List Char) : Option (Read (List Char)) :=
  match date s with
  | some (d, t) => (timeOfDay t).map fun (time, t) ↦ (d ++ time, t)
  | none => time s

/-- The value of a date: an object whose only member holds the text. -/
def dateJson (text : List Char) : Json :=
  .object [("$__toml_private_datetime", .string (String.ofList text))]

end Pipework.Toml
