import Pipework.Codec.Collection
import Pipework.Json.Skip

/-!
# Codecs of records

A record is written as an object with one member for each field, in the order of the fields. It is
read from an object with the members in any order, or from an array with the fields in order.
-/

namespace Pipework.Codec

open Json

/-! ### Fields -/

/-- What it means that a field is not there. -/
inductive Missing (α : Type) where
  /-- It must be there. -/
  | refused
  /-- In an object, the given value stands for it. -/
  | inObject (value : α)
  /-- In an object or in an array that ends early, the given value stands for it. -/
  | anywhere (value : α)

/-- A field of a record. -/
structure Field (α : Type) where
  name : String
  codec : Codec α
  missing : Missing α
  /-- Values for which no member is written. -/
  omitted : α → Bool

namespace Field

variable {α : Type}

/-- A field that has to be there. -/
def required (name : String) (c : Codec α) : Field α :=
  ⟨name, c, .refused, fun _ ↦ false⟩

/-- A field that need not be there. -/
def defaulting (name : String) (c : Codec α) (value : α) : Field α :=
  ⟨name, c, .anywhere value, fun _ ↦ false⟩

/-- A field that is left out when it has no value. -/
def optional (name : String) (c : Codec α) : Field (Option α) :=
  ⟨name, option c, .inObject none, Option.isNone⟩

end Field

/-- The fields of a record in order, indexed by their types. -/
inductive Fields : List Type → Type 1 where
  | nil : Fields []
  | cons {α : Type} {αs : List Type} (field : Field α) (rest : Fields αs) : Fields (α :: αs)

/-- The values of all fields. -/
@[reducible] def Row : List Type → Type
  | [] => Unit
  | α :: αs => α × Row αs

/-- The values of the fields that have been read so far. -/
@[reducible] def Slots : List Type → Type
  | [] => Unit
  | α :: αs => Option α × Slots αs

namespace Fields

variable {αs : List Type}

/-- The names of the fields. -/
def names {αs : List Type} : Fields αs → List String
  | .nil => []
  | .cons f fs => f.name :: fs.names

/-- The members that stand for the fields. -/
def write {αs : List Type} : Fields αs → Row αs → List (String × Json)
  | .nil, _ => []
  | .cons f fs, (a, row) =>
    if f.omitted a then fs.write row else (f.name, f.codec.write a) :: fs.write row

/-- No field has been read. -/
def empty {αs : List Type} : Fields αs → Slots αs
  | .nil => ()
  | .cons _ fs => (none, fs.empty)

/-- The values of all fields, once all members have been read. -/
def finish {αs : List Type} : Fields αs → Slots αs → Except Mismatch (Row αs)
  | .nil, _ => .ok ()
  | .cons f fs, (slot, slots) => do
    let a ←
      match slot, f.missing with
      | some a, _ => .ok a
      | none, .refused => .error (.missingField f.name)
      | none, .inObject a => .ok a
      | none, .anywhere a => .ok a
    let row ← fs.finish slots
    return (a, row)

/-! ### Reading from a text -/

/-- Reads the member with the given name from before its colon; nothing if no field has that
name. -/
def readMember {αs : List Type} (room : Nat) :
    Fields αs → Slots αs → String → List Char → Except Fault (Option (Read (Slots αs)))
  | .nil, _, _, _ => .ok none
  | .cons f fs, (slot, slots), key, s =>
    if f.name = key then
      match slot with
      | some _ => .error (.mismatch (.duplicateField key))
      | none => do
        let s ← colon s
        let (a, s) ← f.codec.read room s
        return some ((some a, slots), s)
    else do
      match ← fs.readMember room slots key s with
      | some (slots, s) => return some ((slot, slots), s)
      | none => return none

/-- Reads a member of an object. The value of a member that is no field is passed over, or its name
refused. -/
def member {αs : List Type} (strict : Bool) (room : Nat) (fields : Fields αs) (slots : Slots αs)
    (key : String) (s : List Char) : Except Fault (Read (Slots αs)) := do
  match ← fields.readMember room slots key s with
  | some r => return r
  | none =>
    if strict then .error (.mismatch (.unknownField key fields.names))
    else
      let s ← colon s
      let s ← skip s
      return (slots, s)

/-- Reads the fields from the items of an array, starting with the item of the given number. -/
def readItems {αs : List Type} (room : Nat) (wanted : String) :
    Fields αs → (index : Nat) → List Char → Except Fault (Read (Row αs))
  | .nil, _, s => .ok ((), s)
  | .cons f fs, index, s => do
    match ← nextItem? (index == 0) s with
    | some t =>
      let (a, t) ← f.codec.read room t
      let (row, t) ← fs.readItems room wanted (index + 1) t
      return ((a, row), t)
    | none =>
      match f.missing with
      | .anywhere a =>
        let (row, s) ← fs.readItems room wanted (index + 1) s
        return ((a, row), s)
      | _ => .error (.mismatch (.wrongLength index wanted))

/-! ### Reading from a tree -/

/-- Reads the member with the given name; nothing if no field has that name. -/
def memberOfJson {αs : List Type} (origin : Origin) :
    Fields αs → Slots αs → String → Json → Except Mismatch (Option (Slots αs))
  | .nil, _, _, _ => .ok none
  | .cons f fs, (slot, slots), key, j =>
    if f.name = key then
      match slot with
      | some _ => .error (.duplicateField key)
      | none => do
        let a ← f.codec.ofJson origin j
        return some (some a, slots)
    else do
      match ← fs.memberOfJson origin slots key j with
      | some slots => return some (slot, slots)
      | none => return none

/-- Reads the members of an object. -/
def membersOfJson {αs : List Type} (strict : Bool) (origin : Origin) (fields : Fields αs) :
    Slots αs → List (String × Json) → Except Mismatch (Slots αs)
  | slots, [] => .ok slots
  | slots, (key, j) :: ms => do
    match ← fields.memberOfJson origin slots key j with
    | some slots => fields.membersOfJson strict origin slots ms
    | none =>
      if strict then .error (.unknownField key fields.names)
      else fields.membersOfJson strict origin slots ms

/-- Reads the fields from the items of an array, starting with the item of the given number; the
items after the last field are returned. -/
def itemsOfJson {αs : List Type} (origin : Origin) (wanted : String) :
    Fields αs → (index : Nat) → List Json → Except Mismatch (Row αs × List Json)
  | .nil, _, js => .ok ((), js)
  | .cons f fs, index, js => do
    match js with
    | j :: js =>
      let a ← f.codec.ofJson origin j
      let (row, js) ← fs.itemsOfJson origin wanted (index + 1) js
      return ((a, row), js)
    | [] =>
      match f.missing with
      | .anywhere a =>
        let (row, js) ← fs.itemsOfJson origin wanted (index + 1) []
        return ((a, row), js)
      | _ => .error (.wrongLength index wanted)

/-- Reads the fields from the members of an object. -/
def ofObject {αs : List Type} (strict : Bool) (origin : Origin) (fields : Fields αs)
    (ms : List (String × Json)) : Except Mismatch (Row αs) := do
  let slots ← fields.membersOfJson strict origin fields.empty ms
  fields.finish slots

/-- Reads the fields from the items of an array. In a value of a JSON text no items may follow. -/
def ofArray {αs : List Type} (origin : Origin) (type : String) (fields : Fields αs)
    (js : List Json) : Except Mismatch (Row αs) := do
  let count := fields.names.length
  let (row, extra) ← fields.itemsOfJson origin (type ++ " with " ++ elementCount count) 0 js
  if origin = .text ∧ !extra.isEmpty then
    .error (.wrongLength js.length (elementCount count ++ " in sequence"))
  else return row

end Fields

/-! ### Records -/

/-- A record with the given fields. Strict records refuse members that are no fields. -/
def record {αs : List Type} {σ : Type} (name : String) (strict : Bool) (fields : Fields αs)
    (toRow : σ → Row αs) (ofRow : Row αs → σ) : Codec σ where
  write a := .object (fields.write (toRow a))
  read room s := do
    let type := "struct " ++ name
    let s ← start s
    match s with
    | '\x7b' :: t =>
      let room ← open? room s
      let (slots, t) ← readObject (fields.member strict room) fields.empty t
      let row ← orFault (fields.finish slots)
      return (ofRow row, t)
    | '[' :: t =>
      let room ← open? room s
      let wanted := type ++ " with " ++ elementCount fields.names.length
      let (row, t) ← fields.readItems room wanted 0 t
      let t ← closeList t
      return (ofRow row, t)
    | s => .error (typeFault type s)
  ofJson origin
    | .object ms => (fields.ofObject strict origin ms).map ofRow
    | .array js => (fields.ofArray origin ("struct " ++ name) js).map ofRow
    | j => .error (.wrongType (found j) ("struct " ++ name))

end Pipework.Codec
