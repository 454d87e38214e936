import Pipework.Environment.File
import Pipework.Log.Preset

/-!
# Settings

A setting takes its value from the variable with its name, in capital or small letters. Variables
are read in their order, so that the first one whose value is refused is reported; a setting that no
variable gives, and that has no default, is reported after that.
-/

namespace Pipework

/-- The reasons why settings cannot be loaded. -/
inductive LoadError where
  | fileUnreadable
  | badLine (line : String) (position : Nat)
  | missing (name : String)
  | refused (reason : String)
  /-- The program stops at once: the system does not take the value of a variable. -/
  | aborted (name value : String)
deriving DecidableEq, Repr

namespace LoadError

/-- The explanation of an error. -/
def message : LoadError → String
  | .fileUnreadable => "i/o error while reading `.env`"
  | .badLine line position =>
    "could not parse `.env` line `" ++ line ++ "` at char " ++ toString position
  | .missing name => "missing required variable `" ++ name ++ "`"
  | .refused reason => "could not parse environment: " ++ reason
  | .aborted name value =>
    "failed to set environment variable `" ++ Text.quoted name ++ "` to `" ++ Text.quoted value ++
      "`: file name contained an unexpected NUL byte"

/-- The exit code of a program that fails with an error. -/
def exitCode : LoadError → Nat
  | .aborted _ _ => 101
  | _ => 1

/-- What is printed about an error. -/
def report : LoadError → String
  | .aborted name value => message (.aborted name value)
  | e => "Error while loading .env: " ++ e.message

/-- The error of a fault in a file of variables. -/
def ofFault : Environment.FileFault → LoadError
  | .notText => .fileUnreadable
  | .badLine line position => .badLine line position
  | .notSettable name value => .aborted name value

end LoadError

/-- A setting: its name, how its value is read from the text of a variable, and its value when there
is none. -/
structure Setting (α : Type) where
  name : String
  read : (variableName text : String) → Except String α
  default : Option α

namespace Setting

variable {α : Type}

/-! ### Kinds of settings -/

/-- The explanation of a value that cannot be read. -/
def refusal (reason variableName text : String) : String :=
  reason ++ " while parsing value '" ++ text ++ "' provided by " ++ variableName

/-- A text. -/
def text (name : String) (default : Option String) : Setting String :=
  ⟨name, fun _ text ↦ .ok text, default⟩

/-- A truth value. -/
def bool (name : String) (default : Option Bool) : Setting Bool where
  name := name
  read variableName text :=
    if text = "true" then .ok true
    else if text = "false" then .ok false
    else .error (refusal "provided string was not `true` or `false`" variableName text)
  default := default

/-- Reads decimal digits to a number of 32 bits, after a number that has been read. -/
def natFrom (n : Nat) : List Char → Except String Nat
  | [] => .ok n
  | c :: cs =>
    if !c.isDigit then .error "invalid digit found in string"
    else
      let n := 10 * n + (c.toNat - '0'.toNat)
      if n < UInt32.size then natFrom n cs else .error "number too large to fit in target type"

/-- Reads a number of 32 bits with an optional plus sign. -/
def uint32Of : List Char → Except String Nat
  | [] => .error "cannot parse integer from empty string"
  | ['+'] => .error "invalid digit found in string"
  | '+' :: cs => natFrom 0 cs
  | cs => natFrom 0 cs

/-- A number of 32 bits. -/
def uint32 (name : String) (default : Option UInt32) : Setting UInt32 where
  name := name
  read variableName text :=
    match uint32Of text.toList with
    | .ok n => .ok (UInt32.ofNat n)
    | .error reason => .error (refusal reason variableName text)
  default := default

/-- Texts with commas between them; the empty text has none. -/
def texts (name : String) (default : Option (List String)) : Setting (List String) where
  name := name
  read _ text :=
    if text.isEmpty then .ok []
    else .ok ((text.toList.splitOnP (· == ',')).map String.ofList)
  default := default

/-- A log preset by its name. -/
def preset (name : String) (default : Option Log.Preset) : Setting Log.Preset where
  name := name
  read _ text := (Codec.preset.ofJson .text (.string text)).mapError Json.Mismatch.message
  default := default

/-! ### Loading -/

/-- A setting of which only the name and the texts that it takes are known. -/
structure Slot where
  name : String
  check : (variableName text : String) → Except String Unit

/-- The slot of a setting. -/
def slot (s : Setting α) : Slot :=
  ⟨s.name, fun variableName text ↦ (s.read variableName text).map fun _ ↦ ()⟩

/-- The variables that give values to slots, by the names of the slots. No slot takes two. -/
def collect (slots : List Slot) (given : Dict (String × String)) :
    (bindings : List (String × String)) → Except LoadError (Dict (String × String))
  | [] => .ok given
  | (variableName, text) :: bindings =>
    match slots.find? fun s ↦ s.name == variableName.toLower with
    | none => collect slots given bindings
    | some s =>
      if given.contains s.name then .error (.refused ("duplicate field `" ++ s.name ++ "`"))
      else
        match s.check variableName text with
        | .error reason => .error (.refused reason)
        | .ok () => collect slots (given.insert s.name (variableName, text)) bindings

/-- The value of a setting. -/
def value (s : Setting α) (given : Dict (String × String)) : Except LoadError α :=
  match given.get? s.name with
  | some (variableName, text) => (s.read variableName text).mapError .refused
  | none =>
    match s.default with
    | some a => .ok a
    | none => .error (.missing s.name)

end Setting

/-- The variables together with those of a file, if there is one. -/
def Environment.withFile (env : Environment) (file : Option ByteArray) :
    Except LoadError Environment :=
  match file with
  | none => .ok env
  | some bytes => (env.applyFile bytes).mapError .ofFault

end Pipework
