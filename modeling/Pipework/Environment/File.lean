import Pipework.Environment.Basic
import Pipework.Text.CharClass

/-!
# Files of variables

A file of variables has lines `NAME=value`. A value may be quoted: between apostrophes all
characters stand for themselves, and between quotation marks, as outside of them, a backslash
escapes the next character and a dollar sign is replaced by the value of the variable whose name
follows it. A quoted value may go on over several lines.

A line that cannot be read is reported with the position at which reading stopped: in bytes of the
line for a fault before the value, in characters of the value for one inside it.
-/

namespace Pipework.Environment

/-- The reasons why a file of variables cannot be read. -/
inductive FileFault where
  | notText
  | badLine (line : String) (position : Nat)
  /-- A variable has a value that the system does not take. -/
  | notSettable (name value : String)
deriving DecidableEq, Repr

/-! ### Lines -/

/-- Where a line stands with respect to quotes and escapes. -/
inductive Quoting where
  | complete
  | blank
  | escape
  | apostrophes (escape : Bool)
  | marks (escape : Bool)
deriving DecidableEq, Repr

/-- The state after a character outside of quotes. -/
def Quoting.outside (c : Char) : Quoting :=
  if c = '\\' then .escape
  else if c = '"' then .marks false
  else if c = '\'' then .apostrophes false
  else .complete

/-- The state after a character. -/
def Quoting.next (c : Char) : Quoting → Quoting
  | .complete => if Text.isBlank c && c != '\n' && c != '\r' then .blank else outside c
  | .blank => outside c
  | .escape => .complete
  | .apostrophes true => .apostrophes false
  | .apostrophes false =>
    if c = '\\' then .apostrophes true else if c = '\'' then .complete else .apostrophes false
  | .marks true => .marks false
  | .marks false => if c = '\\' then .marks true else if c = '"' then .complete else .marks false

/-- What a line ends in: a comment, after the given number of characters, or a state. -/
inductive LineEnd where
  | comment (before : Nat)
  | state (quoting : Quoting)

/-- Follows the quotes of a line from its character with the given number. A comment begins after a
blank. -/
def lineEnd (before : Nat) : Quoting → List Char → LineEnd
  | q, [] => .state q
  | q, c :: cs =>
    if q = .blank ∧ c = '#' then .comment before else lineEnd (before + 1) (q.next c) cs

/-- Removes the end of the line. -/
def dropLineEnd (cs : List Char) : List Char :=
  match cs.reverse with
  | '\n' :: '\r' :: rest => rest.reverse
  | '\n' :: rest => rest.reverse
  | _ => cs

/-- Whether a line holds nothing but a comment. -/
def isComment (cs : List Char) : Bool :=
  match cs.dropWhile Text.isBlank with
  | '#' :: _ => true
  | _ => false

/-- Joins the lines of a file where quotes stay open. `begun` is what has been joined so far. A line
that is not text, or a quote that stays open to the end, is the last entry of the result. -/
def joinLines (begun : List Char) (q : Quoting) :
    List (Option (List Char)) → List (Except FileFault (List Char))
  | [] =>
    if q = .complete then []
    else [.error (.badLine (String.ofList begun) (Text.byteLength begun))]
  | none :: _ => [.error .notText]
  | some l :: ls =>
    if isComment (begun ++ l) then .ok [] :: joinLines [] .complete ls
    else
      match lineEnd 0 q l with
      | .comment before => .ok (begun ++ l.take before) :: joinLines [] .complete ls
      | .state .complete => .ok (dropLineEnd (begun ++ l)) :: joinLines [] .complete ls
      | .state q => joinLines (begun ++ l) q ls

/-- Cuts after every line feed. -/
def cutLines (line : List UInt8) : List UInt8 → List (List UInt8)
  | [] => if line.isEmpty then [] else [line.reverse]
  | b :: bs => if b = 10 then (b :: line).reverse :: cutLines [] bs else cutLines (b :: line) bs

/-- The lines of a file, each as a text if it is one. A mark of the byte order is dropped. -/
def fileLines (bytes : ByteArray) : List (Option (List Char)) :=
  let bs := match bytes.data.toList with
    | 0xEF :: 0xBB :: 0xBF :: bs => bs
    | bs => bs
  (cutLines [] bs).map fun l ↦ (String.fromUTF8? l.toByteArray).map String.toList

/-! ### Values -/

/-- How the next character of a value is read. -/
inductive ValueMode where
  | plain
  | apostrophes
  | escape
  /-- In the name of a variable after a dollar sign. -/
  | name (read : List Char)
  /-- In the name of a variable between braces. -/
  | braces (read : List Char)
  /-- After a blank that ends the value. -/
  | ended
deriving DecidableEq, Repr

/-- What has been read of a value, and whether quotation marks are open. -/
structure ValueState where
  mode : ValueMode
  quoted : Bool
  /-- The characters of the value, from the last one to the first. -/
  output : List Char

/-- Adds characters to the value. -/
def ValueState.append (v : ValueState) (cs : List Char) : ValueState :=
  { v with output := cs.reverse ++ v.output }

/-- What replaces the name of a variable: its value, or nothing if it has none. -/
def substitute (env : Environment) (name : List Char) : List Char :=
  (env.after? name).getD []

/-- The character that an escape stands for. -/
def escaped? (c : Char) : Option Char :=
  if c = 'n' then some '\n'
  else if c = '\\' ∨ c = '\'' ∨ c = '"' ∨ c = '$' ∨ c = ' ' then some c
  else none

/-- Reads a character where nothing special was begun. -/
def ValueState.plain (v : ValueState) (c : Char) : ValueState :=
  if c = '$' then { v with mode := .name [] }
  else if c = '"' then { v with quoted := !v.quoted }
  else if c = '\\' then { v with mode := .escape }
  else if !v.quoted && c == '\'' then { v with mode := .apostrophes }
  else if !v.quoted && (c == ' ' || c == '\t') then { v with mode := .ended }
  else v.append [c]

/-- Reads a character; nothing is returned where it must not stand. -/
def ValueState.next (env : Environment) (v : ValueState) (c : Char) : Option ValueState :=
  match v.mode with
  | .plain => some (v.plain c)
  | .apostrophes => if c = '\'' then some { v with mode := .plain } else some (v.append [c])
  | .escape => (escaped? c).map fun x ↦ { v.append [x] with mode := .plain }
  | .name read =>
    if Text.isAlphanumeric c then some { v with mode := .name (read ++ [c]) }
    else if c = '\x7b' ∧ read = [] then some { v with mode := .braces [] }
    else
      let v := v.append (substitute env read)
      if c = '$' then some { v with mode := .name [] }
      else some { v.append [c] with mode := .plain }
  | .braces read =>
    if c = '\x7d' then some { v.append (substitute env read) with mode := .plain }
    else some { v with mode := .braces (read ++ [c]) }
  | .ended => if c = ' ' ∨ c = '\t' then some v else none

/-- The value once all is read; nothing is returned if a quote or brace is still open. -/
def ValueState.finish (env : Environment) (v : ValueState) : Option (List Char) :=
  if v.quoted then none
  else
    match v.mode with
    | .apostrophes => none
    | .braces _ => none
    | .name read => some (v.append (substitute env read)).output.reverse
    | _ => some v.output.reverse

/-- The value at its end. -/
def valueEnd (env : Environment) (whole : List Char) (v : ValueState) :
    Except FileFault (List Char) :=
  match v.finish env with
  | some output => .ok output
  | none => .error (.badLine (String.ofList whole) (Text.byteLength whole - 1))

/-- Reads a value of which characters have been read. -/
def valueFrom (env : Environment) (whole : List Char) :
    (position : Nat) → ValueState → List Char → Except FileFault (List Char)
  | _, v, [] => valueEnd env whole v
  | position, v, c :: cs =>
    if v.mode = .ended ∧ c = '#' then valueEnd env whole v
    else
      match v.next env c with
      | some v => valueFrom env whole (position + 1) v cs
      | none => .error (.badLine (String.ofList whole) position)

/-- Reads a value. -/
def value (env : Environment) (cs : List Char) : Except FileFault (List Char) :=
  valueFrom env cs 0 ⟨.plain, false, []⟩ cs

/-! ### Assignments -/

/-- The characters that a name begins with. -/
def isNameStart (c : Char) : Bool :=
  c.isAlpha || c == '_'

/-- The characters of a name. -/
def isNameChar (c : Char) : Bool :=
  c.isAlphanum || c == '_' || c == '.'

/-- The fault of a line where reading stopped before the given rest of its trimmed text. -/
def faultBefore (line rest : List Char) : FileFault :=
  let trimmed := (line.reverse.dropWhile Text.isBlank).reverse
  .badLine (String.ofList line) (Text.byteLength trimmed - Text.byteLength rest)

/-- Reads a name and the blanks after it. -/
def nameOf (line rest : List Char) : Except FileFault (List Char × List Char) :=
  match rest with
  | [] => .error (faultBefore line [])
  | c :: cs =>
    if isNameStart c then
      .ok ((c :: cs).takeWhile isNameChar,
        ((c :: cs).dropWhile isNameChar).dropWhile Text.isBlank)
    else .error (faultBefore line rest)

/-- Reads the sign between name and value. -/
def equals (line : List Char) : List Char → Except FileFault (List Char)
  | '=' :: rest => .ok rest
  | rest => .error (faultBefore line rest)

/-- Reads the name of a variable and the sign after it. The word `export` in front is left out,
unless it is the name itself. -/
def target (line rest : List Char) : Except FileFault (List Char × List Char) := do
  let (name, rest) ← nameOf line rest
  match equals line rest with
  | .ok rest => return (name, rest)
  | .error fault =>
    if name = "export".toList then
      let (name, rest) ← nameOf line rest
      let rest ← equals line rest
      return (name, rest)
    else .error fault

/-- Reads what follows the sign: a value after blanks, which may be left out. -/
def valueAfter (env : Environment) (rest : List Char) : Except FileFault (List Char) :=
  match rest.dropWhile Text.isBlank with
  | [] => .ok []
  | '#' :: _ => .ok []
  | rest => value env rest

/-- Reads a line: a name and its value, or nothing. -/
def assignment (env : Environment) (line : List Char) :
    Except FileFault (Option (String × String)) :=
  match Text.trim line with
  | [] => .ok none
  | '#' :: _ => .ok none
  | rest => do
    let (name, rest) ← target line rest
    let text ← valueAfter env rest
    return some (String.ofList name, String.ofList text)

/-- Applies the lines of a file to the variables that are set. A variable that is set keeps its
value. Each line sees the variables that those before it set. -/
def applyLines (env : Environment) :
    List (Except FileFault (List Char)) → Except FileFault Environment
  | [] => .ok env
  | .error fault :: _ => .error fault
  | .ok line :: ls => do
    match ← assignment env line with
    | none => applyLines env ls
    | some (name, text) =>
      match env.setNew name text with
      | none => .error (.notSettable name text)
      | some env => applyLines env ls

/-- Applies a file of variables. -/
def applyFile (env : Environment) (bytes : ByteArray) : Except FileFault Environment :=
  applyLines env (joinLines [] .complete (fileLines bytes))

end Pipework.Environment
