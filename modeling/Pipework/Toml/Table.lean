import Pipework.Json.Basic

/-!
# Building tables

The lines of a document define tables and their members in any order, but every table and every
member only once. A table that was only mentioned on the way to another one may still be defined by
a header; one that dotted keys made may only grow by dotted keys.
-/

namespace Pipework.Toml

/-- How a table came to be. -/
inductive Definition where
  /-- By a header of its own, or in braces. -/
  | header
  /-- By the header of a table inside. -/
  | passing
  /-- By dotted keys. -/
  | dotted
deriving DecidableEq, Repr

/-- What stands under a key while a document is read. -/
inductive Item where
  | value (json : Json)
  | table (definition : Definition) (members : List (String × Item))
  /-- Tables with a common header, the newest first. -/
  | tables (elements : List (List (String × Item)))

/-- The members of a table. -/
abbrev Members := List (String × Item)

mutual

/-- The value of an item. -/
def Item.toJson : Item → Json
  | .value j => j
  | .table _ ms => .object (membersJson ms)
  | .tables es => .array (elementsJson [] es)

/-- The values of members. -/
def membersJson : List (String × Item) → List (String × Json)
  | [] => []
  | (key, item) :: ms => (key, item.toJson) :: membersJson ms

/-- The values of tables in the opposite order, before given ones. -/
def elementsJson (after : List Json) : List (List (String × Item)) → List Json
  | [] => after
  | e :: es => elementsJson (.object (membersJson e) :: after) es

end

/-- The item under a key. -/
def member? (ms : Members) (key : String) : Option Item :=
  ms.lookup key

/-- Replaces the item under a key, or adds one at the end. -/
def setMember (key : String) (item : Item) : Members → Members
  | [] => [(key, item)]
  | m :: ms => if m.1 = key then (key, item) :: ms else m :: setMember key item ms

/-- Changes the table at a path. Tables that are missing on the way are made. Of tables with a
common header the newest is taken. Dotted keys do not enter a table that has a header. -/
def edit (dotted : Bool) (change : Definition → Members → Option Members) :
    List String → Definition → Members → Option Members
  | [], definition, ms => change definition ms
  | key :: path, _, ms =>
    match member? ms key with
    | none => do
      let definition := if dotted then .dotted else .passing
      let inner ← edit dotted change path definition []
      return setMember key (.table definition inner) ms
    | some (.table definition inner) =>
      if dotted ∧ definition = .header then none
      else do
        let inner ← edit dotted change path definition inner
        return setMember key (.table definition inner) ms
    | some (.tables (e :: es)) => do
      let e ← edit dotted change path .header e
      return setMember key (.tables (e :: es)) ms
    | some _ => none

/-- Adds a member that must be new. -/
def addMember (key : String) (item : Item) (ms : Members) : Option Members :=
  if (member? ms key).isSome then none else some (setMember key item ms)

/-- Adds a value under dotted keys. Only a table that dotted keys made may be reached by them. -/
def addValue (path : List String) (value : Json) (ms : Members) : Option Members :=
  match path.getLast? with
  | none => none
  | some key =>
    edit true
      (fun definition ms ↦
        if path.length ≠ 1 ∧ definition ≠ .dotted then none else addMember key (.value value) ms)
      path.dropLast .header ms

/-- Opens the table with a header. -/
def openTable (path : List String) (ms : Members) : Option Members :=
  match path.getLast? with
  | none => none
  | some key =>
    edit false
      (fun _ ms ↦
        match member? ms key with
        | none => some (setMember key (.table .header []) ms)
        | some (.table .passing inner) => some (setMember key (.table .header inner) ms)
        | some _ => none)
      path.dropLast .header ms

/-- Opens a new table under a header that several tables share. -/
def openElement (path : List String) (ms : Members) : Option Members :=
  match path.getLast? with
  | none => none
  | some key =>
    edit false
      (fun _ ms ↦
        match member? ms key with
        | none => some (setMember key (.tables [[]]) ms)
        | some (.tables es) => some (setMember key (.tables ([] :: es)) ms)
        | some _ => none)
      path.dropLast .header ms

end Pipework.Toml
