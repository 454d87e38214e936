import Pipework.Json.Reader

/-!
# Codecs

A `Codec` says how the values of a type are written as JSON and read again. Reading comes in two
ways: from a text, in one pass that stops at the first problem, and from a tree that has been read
before. This module has the structure and the codecs of scalar values.
-/

namespace Pipework

open Json

/-- Where a tree comes from, which decides some details of what it may stand for. -/
inductive Origin where
  /-- A value of a JSON text that was put aside. -/
  | text
  /-- A value of a TOML document. -/
  | table
deriving DecidableEq, Repr

/-- How the values of a type are written and read. -/
structure Codec (α : Type) where
  /-- The JSON value that stands for a value. -/
  write : α → Json
  /-- Reads a value from the front of a text, opening at most the given number of brackets. -/
  read : (room : Nat) → List Char → Except Fault (Read α)
  /-- Reads a value from a tree. -/
  ofJson : Origin → Json → Except Mismatch α

namespace Codec

variable {α β : Type}

/-! ### Whole texts -/

/-- Reads a whole text. -/
def parse (c : Codec α) (text : String) : Except Fault α :=
  whole (c.read maxDepth) text.toList

/-- The text of a value without blanks. -/
def encode (c : Codec α) (a : α) : String :=
  (c.write a).compact

/-! ### Scalar values -/

/-- Raises a mismatch as a fault. -/
def orFault (r : Except Mismatch α) : Except Fault α :=
  r.mapError .mismatch

/-- Drops the blanks in front of a value, which must not be missing. -/
def start (s : List Char) : Except Fault (List Char) :=
  match skipSpace s with
  | [] => .error (.peek .endInValue [])
  | t => .ok t

/-- Reads what stands in front: a scalar value, or only the fact that a bracket opens. -/
def readFound (s : List Char) : Except Fault (Read Found) :=
  match s with
  | 'n' :: t => (word "ull".toList t).map fun t ↦ (.null, t)
  | 't' :: t => (word "rue".toList t).map fun t ↦ (.bool true, t)
  | 'f' :: t => (word "alse".toList t).map fun t ↦ (.bool false, t)
  | '"' :: t => (stringBody t).map fun (cs, t) ↦ (.string (String.ofList cs), t)
  | '-' :: t => (number true t).map fun (n, t) ↦ (found (ofNumber n), t)
  | '[' :: t => .ok (.array, '[' :: t)
  | '\x7b' :: t => .ok (.object, '\x7b' :: t)
  | s =>
    if startsWithDigit s then (number false s).map fun (n, t) ↦ (found (ofNumber n), t)
    else .error (.peek .expectedValue s)

/-- The fault of a text that has something else in place of what is wanted. -/
def typeFault (wanted : String) (s : List Char) : Fault :=
  match readFound s with
  | .error f => f
  | .ok (got, _) => .mismatch (.wrongType got wanted)

/-- Reads a scalar value that a test accepts. -/
def readScalar (accept : Found → Except Mismatch α) (s : List Char) : Except Fault (Read α) := do
  let s ← start s
  let (got, s) ← readFound s
  let a ← orFault (accept got)
  return (a, s)

/-- The codec of a type of scalar values, given by what it accepts. -/
def scalar (write : α → Json) (accept : Found → Except Mismatch α) : Codec α where
  write := write
  read _ s := readScalar accept s
  ofJson _ j := accept (found j)

/-- Texts. -/
def string : Codec String :=
  scalar .string fun
    | .string s => .ok s
    | got => .error (.wrongType got "a string")

/-- Truth values. -/
def bool : Codec Bool :=
  scalar .bool fun
    | .bool b => .ok b
    | got => .error (.wrongType got "a boolean")

/-- Natural numbers of 32 bits. -/
def uint32 : Codec UInt32 :=
  scalar (fun n ↦ .int n.toNat) fun
    | .int n =>
      if 0 ≤ n ∧ n < UInt32.size then .ok (UInt32.ofNat n.toNat)
      else .error (.wrongValue (.int n) "u32")
    | got => .error (.wrongType got "u32")

/-- Integers of 64 bits. -/
def int64 : Codec Int64 :=
  scalar (fun n ↦ .int n.toInt) fun
    | .int n =>
      if Int64.minValue.toInt ≤ n ∧ n ≤ Int64.maxValue.toInt then .ok (Int64.ofInt n)
      else .error (.wrongValue (.int n) "i64")
    | got => .error (.wrongType got "i64")

/-- Doubles; an integer is read as the double nearest to it. -/
def double : Codec Double :=
  scalar .double fun
    | .int n => .ok (Double.ofInt n)
    | .double x => .ok x
    | got => .error (.wrongType got "f64")

/-! ### Codecs from codecs -/

/-- Reads and writes a type through another one. -/
def via (c : Codec α) (forward : β → α) (back : α → β) : Codec β where
  write b := c.write (forward b)
  read room s := (c.read room s).map fun (a, t) ↦ (back a, t)
  ofJson origin j := (c.ofJson origin j).map back

/-- A value that may be absent, for which `null` stands. -/
def option (c : Codec α) : Codec (Option α) where
  write
    | none => .null
    | some a => c.write a
  read room s :=
    match skipSpace s with
    | 'n' :: t => (word "ull".toList t).map fun t ↦ (none, t)
    | _ => (c.read room s).map fun (a, t) ↦ (some a, t)
  ofJson origin
    | .null => .ok none
    | j => (c.ofJson origin j).map some

/-- A value that is first read whole, whatever it is, and then matched with the forms that the type
has. -/
def buffered (write : α → Json) (match? : Json → Option α) (type : String) : Codec α where
  write := write
  read room s := do
    let (j, s) ← readValue room s
    match match? j with
    | some a => return (a, s)
    | none => .error (.mismatch (.noForm type))
  ofJson _ j :=
    match match? j with
    | some a => .ok a
    | none => .error (.noForm type)

/-- Any value, in normal form. -/
def payload : Codec Payload where
  write p := p.json
  read room s := (readValue room s).map fun (j, t) ↦ (j.toPayload, t)
  ofJson _ j := .ok j.toPayload

end Codec
end Pipework
