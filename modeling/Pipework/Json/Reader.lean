import Pipework.Json.Walk

/-!
# Reading a whole value

`Json.readValue` reads any value as a tree, with a bound on the number of brackets that may be open
at once.
-/

namespace Pipework.Json

/-- The number of brackets that may be open at once in a text. -/
def maxDepth : Nat := 127

/-- The value that a number is. -/
def ofNumber : Number → Json
  | .int n => .int n
  | .double x => .double x

/-- Adds a member to the members read so far. -/
def anyMember (value : List Char → Except Fault (Read Json)) (done : List (String × Json))
    (key : String) (s : List Char) : Except Fault (Read (List (String × Json))) := do
  let s ← colon s
  let (j, s) ← value s
  return (done ++ [(key, j)], s)

/-- Reads a value, opening at most `room` brackets at once. -/
def readValue (room : Nat) (s : List Char) : Except Fault (Read Json) :=
  match skipSpace s with
  | [] => .error (.peek .endInValue [])
  | 'n' :: t => (word "ull".toList t).map fun t ↦ (.null, t)
  | 't' :: t => (word "rue".toList t).map fun t ↦ (.bool true, t)
  | 'f' :: t => (word "alse".toList t).map fun t ↦ (.bool false, t)
  | '"' :: t => (stringBody t).map fun (cs, t) ↦ (.string (String.ofList cs), t)
  | '-' :: t => (number true t).map fun (n, t) ↦ (ofNumber n, t)
  | '[' :: t =>
    match room with
    | 0 => .error (.peek .tooDeep ('[' :: t))
    | room + 1 => (readList (readValue room) t).map fun (js, t) ↦ (.array js, t)
  | '\x7b' :: t =>
    match room with
    | 0 => .error (.peek .tooDeep ('\x7b' :: t))
    | room + 1 => (readObject (anyMember (readValue room)) [] t).map fun (ms, t) ↦ (.object ms, t)
  | c :: t =>
    if isDigit c then (number false (c :: t)).map fun (n, t) ↦ (ofNumber n, t)
    else .error (.peek .expectedValue (c :: t))

/-- Reads a whole text with the given reader; only blanks may follow the value. -/
def whole {α : Type} (read : List Char → Except Fault (Read α)) (text : List Char) :
    Except Fault α := do
  let (a, rest) ← read text
  match skipSpace rest with
  | [] => return a
  | t => .error (.peek .trailingCharacters t)

/-- Reads a text as one value. -/
def parse (text : List Char) : Except Fault Json :=
  whole (readValue maxDepth) text

end Pipework.Json
