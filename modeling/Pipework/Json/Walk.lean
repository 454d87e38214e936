import Pipework.Json.Scan

/-!
# Walking through lists and objects

The punctuation of lists and objects is read here once, for all readers of their contents. The
number of steps is bounded by the length of the text, since every item and every member takes at
least one character.
-/

namespace Pipework.Json

/-! ### Lists -/

/-- Looks for the next item of a list: its text, or nothing at the closing bracket. -/
def nextItem? (first : Bool) (s : List Char) : Except Fault (Option (List Char)) :=
  match skipSpace s with
  | [] => .error (.peek .endInList [])
  | ']' :: _ => .ok none
  | c :: t =>
    if first then .ok (some (c :: t))
    else if c = ',' then
      match skipSpace t with
      | [] => .error (.peek .endInValue [])
      | ']' :: u => .error (.peek .trailingComma (']' :: u))
      | u => .ok (some u)
    else .error (.peek .expectedItemEnd (c :: t))

/-- Reads the closing bracket of a list. -/
def closeList (s : List Char) : Except Fault (List Char) :=
  match skipSpace s with
  | [] => .error (.peek .endInList [])
  | ']' :: t => .ok t
  | ',' :: t =>
    match skipSpace t with
    | ']' :: u => .error (.peek .trailingComma (']' :: u))
    | u => .error (.peek .trailingCharacters u)
  | t => .error (.peek .trailingCharacters t)

/-- Reads the items of a list up to its closing bracket. -/
def items {α : Type} (item : List Char → Except Fault (Read α)) :
    (fuel : Nat) → (first : Bool) → List Char → Except Fault (Read (List α))
  | 0, _, s => .error (.peek .endInList s)
  | fuel + 1, first, s =>
    match nextItem? first s with
    | .error f => .error f
    | .ok none => .ok ([], s)
    | .ok (some t) =>
      match item t with
      | .error f => .error f
      | .ok (a, t) =>
        match items item fuel false t with
        | .error f => .error f
        | .ok (as, t) => .ok (a :: as, t)

/-- Reads a list after its opening bracket. -/
def readList {α : Type} (item : List Char → Except Fault (Read α)) (s : List Char) :
    Except Fault (Read (List α)) := do
  let (as, t) ← items item (s.length + 1) true s
  let t ← closeList t
  return (as, t)

/-! ### Objects -/

/-- Looks for the next member of an object: the text after the opening quotation mark of its name,
or nothing at the closing brace. -/
def nextKey? (first : Bool) (s : List Char) : Except Fault (Option (List Char)) :=
  match skipSpace s with
  | [] => .error (.peek .endInObject [])
  | '\x7d' :: _ => .ok none
  | c :: t =>
    if first then
      if c = '"' then .ok (some t) else .error (.peek .keyNotString (c :: t))
    else if c = ',' then
      match skipSpace t with
      | [] => .error (.peek .endInValue [])
      | '"' :: u => .ok (some u)
      | '\x7d' :: u => .error (.peek .trailingComma ('\x7d' :: u))
      | u => .error (.peek .keyNotString u)
    else .error (.peek .expectedMemberEnd (c :: t))

/-- Reads the colon between a name and its value. -/
def colon (s : List Char) : Except Fault (List Char) :=
  match skipSpace s with
  | [] => .error (.peek .endInObject [])
  | ':' :: t => .ok t
  | t => .error (.peek .expectedColon t)

/-- Reads the members of an object up to and with its closing brace. What has been read so far is
handed to the reader of the next member, together with the member's name and the text from before
the colon. -/
def members {σ : Type} (member : σ → String → List Char → Except Fault (Read σ)) :
    (fuel : Nat) → (first : Bool) → σ → List Char → Except Fault (Read σ)
  | 0, _, _, s => .error (.peek .endInObject s)
  | fuel + 1, first, state, s =>
    match nextKey? first s with
    | .error f => .error f
    | .ok none => .ok (state, (skipSpace s).drop 1)
    | .ok (some t) =>
      match stringBody t with
      | .error f => .error f
      | .ok (key, t) =>
        match member state (String.ofList key) t with
        | .error f => .error f
        | .ok (state, t) => members member fuel false state t

/-- Reads an object after its opening brace. -/
def readObject {σ : Type} (member : σ → String → List Char → Except Fault (Read σ)) (start : σ)
    (s : List Char) : Except Fault (Read σ) :=
  members member (s.length + 1) true start s

end Pipework.Json
