import Pipework.Toml.Date
import Pipework.Toml.Table

/-!
# Reading TOML documents

A document is read to the tree that an equal JSON text would have. Numbers beyond the finite doubles
are kept as they are, and a date becomes an object with one member.
-/

namespace Pipework.Toml

open Json (Read)

/-! ### Values -/

/-- Reads the values of a list after its bracket, with ends of lines and comments between them. -/
def items (value : List Char → Option (Read Json)) :
    (fuel : Nat) → List Char → Option (Read (List Json))
  | 0, _ => none
  | fuel + 1, s =>
    match skipLines false s with
    | ']' :: s => some ([], s)
    | s =>
      match value s with
      | none => none
      | some (j, s) =>
        match skipLines false s with
        | ',' :: s => (items value fuel s).map fun (js, s) ↦ (j :: js, s)
        | ']' :: s => some ([j], s)
        | _ => none

/-- Reads a path of keys, the sign after it, and a value. -/
def pair (value : List Char → Option (Read Json)) (s : List Char) :
    Option (Read (List String × Json)) := do
  let (path, s) ← keyPath s
  let '=' :: s := s | none
  let (j, s) ← value (skipBlanks s)
  return ((path, j), s)

/-- Reads the members of a table in braces, at least one, adding them to those read before. -/
def members (value : List Char → Option (Read Json)) :
    (fuel : Nat) → Members → List Char → Option (Read Members)
  | 0, _, _ => none
  | fuel + 1, ms, s =>
    match pair value s with
    | none => none
    | some ((path, j), s) =>
      match addValue path j ms with
      | none => none
      | some ms =>
        match skipBlanks s with
        | ',' :: s => members value fuel ms s
        | '\x7d' :: s => some (ms, s)
        | _ => none

/-- Reads a table after its brace. -/
def inlineTable (value : List Char → Option (Read Json)) (s : List Char) : Option (Read Json) :=
  match skipBlanks s with
  | '\x7d' :: s => some (.object [], s)
  | s => (members value s.length [] s).map fun (ms, s) ↦ (.object (membersJson ms), s)

/-- Reads a value that has no brackets. -/
def scalar (s : List Char) : Option (Read Json) :=
  match s with
  | 't' :: 'r' :: 'u' :: 'e' :: s => some (.bool true, s)
  | 'f' :: 'a' :: 'l' :: 's' :: 'e' :: s => some (.bool false, s)
  | '"' :: _ | '\'' :: _ => (string? s).map fun (t, s) ↦ (.string (String.ofList t), s)
  | s =>
    match dateTime s with
    | some (text, s) => some (dateJson text, s)
    | none => number s

/-- Reads a value, opening at most the given number of brackets. -/
def value : (room : Nat) → List Char → Option (Read Json)
  | 0, s => scalar s
  | room + 1, s =>
    match s with
    | '[' :: s => (items (value room) (s.length + 1) s).map fun (js, s) ↦ (.array js, s)
    | '\x7b' :: s => inlineTable (value room) s
    | s => scalar s

/-! ### Documents -/

/-- What has been read of a document: its tables, and the path of the one that is open. -/
structure State where
  root : Members
  path : List String

/-- Adds a member to the open table. -/
def State.add (state : State) (path : List String) (value : Json) : Option State := do
  let root ← edit false (fun _ ms ↦ addValue path value ms) state.path .header state.root
  return { state with root := root }

/-- Reads a header after its brackets. -/
def header (closing : List Char) (define : List String → Members → Option Members) (state : State)
    (s : List Char) : Option (Read State) := do
  let (path, s) ← keyPath s
  let s ← if closing.isPrefixOf s then some (s.drop closing.length) else none
  let root ← define path state.root
  let s ← restOfLine? s
  return (⟨root, path⟩, s)

/-- Reads a line that is not empty. -/
def line (state : State) (s : List Char) : Option (Read State) :=
  match s with
  | '[' :: '[' :: s => header [']', ']'] openElement state s
  | '[' :: s => header [']'] openTable state s
  | s => do
    let ((path, j), s) ← pair (value (depthLimit - 1)) s
    let state ← state.add path j
    let s ← restOfLine? s
    return (state, s)

/-- Reads the lines of a document, at most `fuel` of them. -/
def lines : (fuel : Nat) → State → List Char → Option Members
  | 0, _, _ => none
  | fuel + 1, state, s =>
    match skipLines false s with
    | [] => some state.root
    | s =>
      match line state s with
      | none => none
      | some (state, s) => lines fuel state s

/-- Reads a document. A mark of the byte order in front of it is dropped. -/
def parse (text : List Char) : Option Json := do
  let s := match text with
    | '\ufeff' :: s => s
    | s => s
  let ms ← lines (s.length + 1) ⟨[], []⟩ s
  return .object (membersJson ms)

end Pipework.Toml
