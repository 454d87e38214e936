import Pipework.Codec.Collection

/-!
# Codecs of choices

A choice between names is written as the name. It is also read from an object with the name as its
only member and nothing in it. A choice between contents is written as an object with one member,
whose name says what the content is.
-/

namespace Pipework.Codec

open Json

variable {α σ : Type}

/-- Reads the name of a choice in place of a member's name. An object without members lacks a value
rather than a name. -/
def readChoice (s : List Char) : Except Fault (Read String) :=
  match skipSpace s with
  | [] => .error (.peek .endInObject [])
  | '"' :: t => (stringBody t).map fun (name, t) ↦ (String.ofList name, t)
  | '\x7d' :: t => .error (.peek .expectedValue ('\x7d' :: t))
  | t => .error (.peek .keyNotString t)

/-- Reads the closing brace after the only member of an object. -/
def closeChoice (s : List Char) : Except Fault (List Char) :=
  match skipSpace s with
  | [] => .error (.stop .endInObject [])
  | '\x7d' :: t => .ok t
  | t => .error (.stop .expectedValue t)

/-- The content of a choice that is only a name. -/
def readNothing (s : List Char) : Except Fault (Read Unit) :=
  readScalar (fun
    | .null => .ok ()
    | got => .error (.wrongType got "unit")) s

/-- The content of a choice that is only a name, in a tree. -/
def nothingOfJson : Origin → Json → Except Mismatch Unit
  | .text, .null => .ok ()
  | .table, .array [] => .ok ()
  | .table, .object [] => .ok ()
  | _, j => .error (.wrongType (found j) "unit")

/-- One of the contents that a choice may have: what to do with the name alone, and how its content
is read. -/
structure Variant (σ : Type) where
  name : String
  bare : Except Mismatch σ
  read : (room : Nat) → List Char → Except Fault (Read σ)
  ofJson : Origin → Json → Except Mismatch σ

namespace Variant

/-- A choice without content. -/
def named (name : String) (value : σ) : Variant σ where
  name := name
  bare := .ok value
  read _ s := (readNothing s).map fun (_, t) ↦ (value, t)
  ofJson origin j := (nothingOfJson origin j).map fun _ ↦ value

/-- A choice with content. -/
def holding (name : String) (c : Codec α) (of : α → σ) : Variant σ where
  name := name
  bare := .error (.wrongType .bareName "newtype variant")
  read room s := (c.read room s).map fun (a, t) ↦ (of a, t)
  ofJson origin j := (c.ofJson origin j).map of

/-- The variant with a given name. -/
def find (variants : List (Variant σ)) (name : String) : Except Mismatch (Variant σ) :=
  match variants.find? (·.name == name) with
  | some v => .ok v
  | none => .error (.unknownName name (variants.map (·.name)))

end Variant

/-- A choice between variants. -/
def choice (variants : List (Variant σ)) (write : σ → Json) : Codec σ where
  write := write
  read room s := do
    let s ← start s
    match s with
    | '"' :: t =>
      let (name, t) ← stringBody t
      let v ← orFault (Variant.find variants (String.ofList name))
      let a ← orFault v.bare
      return (a, t)
    | '\x7b' :: t =>
      let room ← open? room s
      let (name, t) ← readChoice t
      let v ← orFault (Variant.find variants name)
      let t ← colon t
      let (a, t) ← v.read room t
      let t ← closeChoice t
      return (a, t)
    | s => .error (.peek .expectedValue s)
  ofJson origin
    | .string name => do
      let v ← Variant.find variants name
      v.bare
    | .object [(name, j)] => do
      let v ← Variant.find variants name
      v.ofJson origin j
    | .object _ => .error (.wrongValue .object "map with a single key")
    | j => .error (.wrongType (found j) "string or map")

/-- A choice between names. -/
def names (name : σ → String) (values : List σ) : Codec σ :=
  choice (values.map fun a ↦ .named (name a) a) fun a ↦ .string (name a)

end Pipework.Codec
