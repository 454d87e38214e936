import Pipework.Json.Walk

/-!
# Skipping a value

The value of a member that nobody asks for is passed over. Only its syntax is checked: numbers may
be out of range, surrogates need not be paired and nesting is not limited.
-/

namespace Pipework.Json

/-- Passes over a string after its opening quotation mark. -/
def skipString : List Char → Except Fault (List Char)
  | [] => .error (.stop .endInString [])
  | c :: s =>
    if c = '"' then .ok s
    else if c = '\\' then
      match s with
      | [] => .error (.stop .endInString [])
      | 'u' :: a :: b :: c :: d :: t =>
        match hexUnit? a b c d with
        | none => .error (hexFault (a :: b :: c :: d :: t))
        | some _ => skipString t
      | e :: t =>
        if e = 'u' then .error (hexFault t)
        else
          match escaped? e with
          | some _ => skipString t
          | none => .error (.peek .invalidEscape (e :: t))
    else if c.toNat < 0x20 then .error (.stop .controlCharacter (c :: s))
    else skipString s

/-- Passes over an exponent, if there is one. -/
def skipExponent (s : List Char) : Except Fault (List Char) :=
  let digitsAfter (t : List Char) : Except Fault (List Char) :=
    if startsWithDigit t then .ok (t.dropWhile isDigit) else .error (.peek .invalidNumber t)
  match s with
  | [] => .ok []
  | c :: t =>
    if c = 'e' ∨ c = 'E' then
      match t with
      | '+' :: u => digitsAfter u
      | '-' :: u => digitsAfter u
      | t => digitsAfter t
    else .ok (c :: t)

/-- Passes over the digits before the decimal point. -/
def skipWhole : List Char → Except Fault (List Char)
  | [] => .error (.stop .invalidNumber [])
  | c :: t =>
    if c = '0' then
      if startsWithDigit t then .error (.peek .invalidNumber t) else .ok t
    else if isDigit c then .ok (t.dropWhile isDigit)
    else .error (.peek .invalidNumber (c :: t))

/-- Passes over a decimal point and the digits after it, if there is one. -/
def skipFraction : List Char → Except Fault (List Char)
  | '.' :: t =>
    if startsWithDigit t then .ok (t.dropWhile isDigit) else .error (.peek .invalidNumber t)
  | s => .ok s

/-- Passes over a number after its sign. -/
def skipNumber (s : List Char) : Except Fault (List Char) := do
  let s ← skipWhole s
  let s ← skipFraction s
  skipExponent s

/-- The kinds of brackets that are open. -/
inductive Bracket where
  | list
  | object
deriving DecidableEq, Repr

/-- What comes next while a value is passed over. -/
inductive SkipStep where
  /-- A value. -/
  | value
  /-- A value or the closing bracket. -/
  | first
  /-- The name of a member. -/
  | key
  /-- A comma or the closing bracket. -/
  | next

/-- Passes over the rest of a value inside the open brackets, innermost first. -/
def skipFrom : (fuel : Nat) → SkipStep → List Bracket → List Char → Except Fault (List Char)
  | 0, _, _, s => .error (.peek .endInValue s)
  | fuel + 1, .value, stack, s =>
    match skipSpace s with
    | [] => .error (.peek .endInValue [])
    | 'n' :: t => (word "ull".toList t).bind (skipFrom fuel .next stack)
    | 't' :: t => (word "rue".toList t).bind (skipFrom fuel .next stack)
    | 'f' :: t => (word "alse".toList t).bind (skipFrom fuel .next stack)
    | '"' :: t => (skipString t).bind (skipFrom fuel .next stack)
    | '-' :: t => (skipNumber t).bind (skipFrom fuel .next stack)
    | '[' :: t => skipFrom fuel .first (.list :: stack) t
    | '\x7b' :: t => skipFrom fuel .first (.object :: stack) t
    | c :: t =>
      if isDigit c then (skipNumber (c :: t)).bind (skipFrom fuel .next stack)
      else .error (.peek .expectedValue (c :: t))
  | fuel + 1, .first, stack, s =>
    match stack, skipSpace s with
    | .list :: stack, ']' :: t => skipFrom fuel .next stack t
    | .object :: stack, '\x7d' :: t => skipFrom fuel .next stack t
    | .list :: _, [] => .error (.peek .endInList [])
    | .object :: _, [] => .error (.peek .endInObject [])
    | .object :: stack, t => skipFrom fuel .key (.object :: stack) t
    | stack, t => skipFrom fuel .value stack t
  | fuel + 1, .key, stack, s =>
    match skipSpace s with
    | [] => .error (.peek .endInObject [])
    | '"' :: t => ((skipString t).bind colon).bind (skipFrom fuel .value stack)
    | t => .error (.peek .keyNotString t)
  | _ + 1, .next, [], s => .ok s
  | fuel + 1, .next, .list :: stack, s =>
    match skipSpace s with
    | [] => .error (.peek .endInList [])
    | ',' :: t => skipFrom fuel .value (.list :: stack) t
    | ']' :: t => skipFrom fuel .next stack t
    | t => .error (.peek .expectedItemEnd t)
  | fuel + 1, .next, .object :: stack, s =>
    match skipSpace s with
    | [] => .error (.peek .endInObject [])
    | ',' :: t => skipFrom fuel .key (.object :: stack) t
    | '\x7d' :: t => skipFrom fuel .next stack t
    | t => .error (.peek .expectedMemberEnd t)

/-- Passes over a value. Three steps for each character are enough. -/
def skip (s : List Char) : Except Fault (List Char) :=
  skipFrom (3 * s.length + 3) .value [] s

end Pipework.Json
