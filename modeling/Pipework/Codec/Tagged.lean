import Pipework.Codec.Choice
import Pipework.Codec.Record

/-!
# Codecs of tagged records

A tagged record is an object one member of which says which fields the others are. The tag may
stand anywhere, so the other members are read whole before they are matched with the fields. In an
array the tag comes first.
-/

namespace Pipework.Codec

open Json

variable {σ : Type}

/-- One of the records that a tag may announce. -/
structure Form (σ : Type) where
  tag : String
  ofObject : List (String × Json) → Except Mismatch σ
  ofArray : List Json → Except Mismatch σ

/-- The record with the given fields, which a mismatch calls `type`. -/
def Form.of {αs : List Type} (tag type : String) (fields : Fields αs) (ofRow : Row αs → σ) :
    Form σ where
  tag := tag
  ofObject ms := (fields.ofObject false .text ms).map ofRow
  ofArray js := (fields.ofArray .text type js).map ofRow

/-- The form with the given tag. -/
def Form.find (forms : List (Form σ)) (tag : String) : Except Mismatch (Form σ) :=
  match forms.find? (·.tag == tag) with
  | some f => .ok f
  | none => .error (.unknownName tag (forms.map (·.tag)))

/-- Reads a tag in a text. -/
def readTag (forms : List (Form σ)) (s : List Char) : Except Fault (Read (Form σ)) :=
  readScalar (fun
    | .string tag => Form.find forms tag
    | got => .error (.wrongType got "variant identifier")) s

/-- Reads a tag in a tree. -/
def tagOfJson (forms : List (Form σ)) : Json → Except Mismatch (Form σ)
  | .string tag => Form.find forms tag
  | j => .error (.wrongType (found j) "variant identifier")

/-- Reads a member: the tag, or one that is put aside. -/
def taggedMember (key : String) (forms : List (Form σ)) (room : Nat) :
    Option (Form σ) × List (String × Json) → String → List Char →
      Except Fault (Read (Option (Form σ) × List (String × Json)))
  | (form, ms), name, s =>
    if name = key then
      match form with
      | some _ => .error (.mismatch (.duplicateField key))
      | none => do
        let s ← colon s
        let (form, s) ← readTag forms s
        return ((some form, ms), s)
    else do
      let (ms, s) ← anyMember (readValue room) ms name s
      return ((form, ms), s)

/-- Separates the tag from the other members. -/
def splitTag (key : String) (forms : List (Form σ)) :
    Option (Form σ) → List (String × Json) →
      Except Mismatch (Option (Form σ) × List (String × Json))
  | form, [] => .ok (form, [])
  | form, (name, j) :: ms => do
    if name = key then
      match form with
      | some _ => .error (.duplicateField key)
      | none =>
        let form ← tagOfJson forms j
        splitTag key forms (some form) ms
    else
      let (form, rest) ← splitTag key forms form ms
      return (form, (name, j) :: rest)

/-- A record tagged by the member `key`. -/
def tagged (type key : String) (forms : List (Form σ)) (write : σ → Json) : Codec σ where
  write := write
  read room s := do
    let s ← start s
    match s with
    | '\x7b' :: t =>
      let room ← open? room s
      let ((form, ms), t) ← readObject (taggedMember key forms room) (none, []) t
      match form with
      | none => .error (.mismatch (.missingField key))
      | some form =>
        let a ← orFault (form.ofObject ms)
        return (a, t)
    | '[' :: t =>
      let room ← open? room s
      match ← nextItem? true t with
      | none => .error (.mismatch (.missingField key))
      | some t =>
        let (form, t) ← readTag forms t
        let (js, t) ← items (readValue room) (t.length + 1) false t
        let t ← closeList t
        let a ← orFault (form.ofArray js)
        return (a, t)
    | s => .error (typeFault type s)
  ofJson _
    | .object ms => do
      match ← splitTag key forms none ms with
      | (none, _) => .error (.missingField key)
      | (some form, ms) => form.ofObject ms
    | .array (j :: js) => do
      let form ← tagOfJson forms j
      form.ofArray js
    | .array [] => .error (.missingField key)
    | j => .error (.wrongType (found j) type)

end Pipework.Codec
