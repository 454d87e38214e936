import Pipework.CompileError
import Pipework.FileTree
import Pipework.Toml.Reader

/-!
# Reading the input files of the command line

The ending of a file's name tells its format. All failures of the command line are listed here, with
what is printed about them.
-/

namespace Pipework.CommandLine

/-- The reasons why a run of the command line fails after its settings are loaded. -/
inductive Failure where
  | unknownFormat (path : String)
  | unreadable (path : String) (error : FileError)
  | undecodable (path : String) (causes : List String)
  | notCompiled (path : String) (error : CompileError)
  | notEncodable (error : DocumentError)
  | unwritable (path : String) (error : FileError)
  | unprintable (error : FileError)
deriving DecidableEq, Repr

namespace Failure

/-- The explanation of a failure. -/
def message : Failure → String
  | .unknownFormat path =>
    "cannot tell the format of `" ++ path ++ "`, expected a `.json` or `.toml` file"
  | .unreadable path _ => "could not read `" ++ path ++ "`"
  | .undecodable path _ => "could not decode `" ++ path ++ "`"
  | .notCompiled path _ => "could not compile `" ++ path ++ "`"
  | .notEncodable error => error.message
  | .unwritable path _ => "could not write `" ++ path ++ "`"
  | .unprintable error => error.message

/-- The explanations of what lies behind a failure. -/
def causes : Failure → List String
  | .unknownFormat _ => []
  | .unreadable _ error => [error.message]
  | .undecodable _ causes => causes
  | .notCompiled _ error => error.message :: error.causes
  | .notEncodable _ => []
  | .unwritable _ error => [error.message]
  | .unprintable _ => []

/-- A text whose lines after the first begin with the given blanks. -/
def indented (indent text : String) : String :=
  String.ofList (text.toList.flatMap fun c ↦ if c = '\n' then c :: indent.toList else [c])

/-- The list of causes: numbered if there are several. -/
def causeLines : List String → String
  | [] => ""
  | [cause] => "\n\nCaused by:\n    " ++ indented "    " cause
  | causes =>
    "\n\nCaused by:" ++ String.join (causes.zipIdx.map fun (cause, i) ↦
      "\n    " ++ toString i ++ ": " ++ indented "       " cause)

/-- What is printed about a failure. -/
def report (f : Failure) : String :=
  "Error: " ++ f.message ++ causeLines f.causes

end Failure

/-! ### Formats -/

/-- The formats of input files. -/
inductive InputFormat where
  | json
  | toml
deriving DecidableEq, Repr

/-- The format that the ending of a file's name tells. -/
def InputFormat.ofPath? (path : String) : Option InputFormat :=
  match fileExtension? path with
  | some "json" => some .json
  | some "toml" => some .toml
  | _ => none

/-- Reads a text in a format; the explanations of a fault are returned as far as there are any. -/
def InputFormat.decode {α : Type} (c : Codec α) (text : String) :
    InputFormat → Except (List String) α
  | .json => (c.parse text).mapError fun fault ↦ [fault.message text.toList]
  | .toml =>
    match Toml.parse text.toList with
    | none => .error []
    | some j => (c.ofJson .table j).mapError fun m ↦ [m.message]

/-- How the content of a file is read. -/
abbrev Source := String → Except FileError ByteArray

/-- Reads the content of a file as a text. -/
def readText (source : Source) (path : String) : Except FileError String := do
  match String.fromUTF8? (← source path) with
  | some text => return text
  | none => .error .notText

/-- Reads an input file. -/
def readInput {α : Type} (source : Source) (c : Codec α) (path : String) : Except Failure α := do
  match InputFormat.ofPath? path with
  | none => .error (.unknownFormat path)
  | some format =>
    let text ← (readText source path).mapError (.unreadable path)
    (format.decode c text).mapError (.undecodable path)

end Pipework.CommandLine
