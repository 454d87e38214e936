import Pipework.Codec.Basic

/-!
# Codecs of lists and dictionaries

A dictionary is written as an object. Where an object repeats a name, either the last value counts
or the repetition is refused.
-/

namespace Pipework.Codec

open Json

variable {α : Type}

/-- Reads the items of a tree. -/
def ofItems (ofJson : Json → Except Mismatch α) : List Json → Except Mismatch (List α)
  | [] => .ok []
  | j :: js => do
    let a ← ofJson j
    let as ← ofItems ofJson js
    return a :: as

/-- Opens a bracket if there is room for one. -/
def open? (room : Nat) (s : List Char) : Except Fault Nat :=
  match room with
  | 0 => .error (.peek .tooDeep s)
  | room + 1 => .ok room

/-- Lists. -/
def list (c : Codec α) : Codec (List α) where
  write as := .array (as.map c.write)
  read room s := do
    let s ← start s
    match s with
    | '[' :: t =>
      let room ← open? room s
      readList (c.read room) t
    | s => .error (typeFault "a sequence" s)
  ofJson origin
    | .array js => ofItems (c.ofJson origin) js
    | j => .error (.wrongType (found j) "a sequence")

/-- What to do with a name that an object repeats. -/
inductive Repetition where
  | lastCounts
  | refused
deriving DecidableEq, Repr

/-- Adds an entry to a dictionary. -/
def addEntry (repetition : Repetition) (d : Dict α) (key : String) (a : α) :
    Except Mismatch (Dict α) :=
  if repetition = .refused ∧ d.contains key then .error .duplicateKey else .ok (d.insert key a)

/-- Reads the entries of a tree. -/
def ofMembers (repetition : Repetition) (ofJson : Json → Except Mismatch α) :
    Dict α → List (String × Json) → Except Mismatch (Dict α)
  | d, [] => .ok d
  | d, (key, j) :: ms => do
    let a ← ofJson j
    let d ← addEntry repetition d key a
    ofMembers repetition ofJson d ms

/-- Dictionaries. -/
def dict (repetition : Repetition) (c : Codec α) : Codec (Dict α) where
  write d := .object (d.entries.map fun e ↦ (e.1, c.write e.2))
  read room s := do
    let s ← start s
    match s with
    | '\x7b' :: t =>
      let room ← open? room s
      readObject (fun d key s ↦ do
        let s ← colon s
        let (a, s) ← c.read room s
        let d ← orFault (addEntry repetition d key a)
        return (d, s)) .empty t
    | s => .error (typeFault "a map" s)
  ofJson origin
    | .object ms => ofMembers repetition (c.ofJson origin) .empty ms
    | j => .error (.wrongType (found j) "a map")

/-- Objects with any members, in normal form. -/
def config : Codec Config where
  write c := .object c.members
  read room s := do
    let s ← start s
    match s with
    | '\x7b' :: t =>
      let room ← open? room s
      let (ms, t) ← readObject (anyMember (readValue room)) [] t
      return (Config.ofMembers ms, t)
    | s => .error (typeFault "a map" s)
  ofJson _
    | .object ms => .ok (Config.ofMembers ms)
    | j => .error (.wrongType (found j) "a map")

end Pipework.Codec
