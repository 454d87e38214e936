import Pipework.Text.ControlSequence

/-!
# Command-line arguments

Arguments are read from left to right. A parameter that takes a value takes the next argument, and
is checked when the argument after that is read: hence an argument that is not known is reported
before a fault of the parameter in front of it.
-/

namespace Pipework.CommandLine

/-- What arguments can give. -/
inductive Parameter where
  | declaration
  | deployment
  | output
  | check
  | help
  | version
deriving DecidableEq, Repr

/-- The parameter in writing. -/
def Parameter.label : Parameter → String
  | .declaration => "<DECLARATION>"
  | .deployment => "--deployment <DEPLOYMENT>"
  | .output => "--output <OUTPUT>"
  | .check => "--check"
  | .help => "--help"
  | .version => "--version"

/-- Whether a parameter takes a value. -/
def Parameter.takesValue : Parameter → Bool
  | .declaration | .deployment | .output => true
  | _ => false

/-- The reasons why arguments are refused. -/
inductive ArgumentError where
  | missingDeclaration
  | unexpected (argument : String)
  | missingValue (parameter : Parameter)
  | repeated (parameter : Parameter)
  | unexpectedValue (value : String) (parameter : Parameter)
deriving DecidableEq, Repr

/-- The explanation of an error, in which nothing of an argument steers the terminal. -/
def ArgumentError.message : ArgumentError → String
  | .missingDeclaration =>
    "error: the following required arguments were not provided:\n  " ++ Parameter.declaration.label
  | .unexpected argument =>
    "error: unexpected argument '" ++ Text.withoutControl argument ++ "' found"
  | .missingValue p =>
    "error: a value is required for '" ++ p.label ++ "' but none was supplied"
  | .repeated p => "error: the argument '" ++ p.label ++ "' cannot be used multiple times"
  | .unexpectedValue value p =>
    "error: unexpected value '" ++ Text.withoutControl value ++ "' for '" ++ p.label ++
      "' found; no more were expected"

/-- What the arguments of a compilation say. -/
structure Arguments where
  declaration : String
  deployment : Option String
  output : Option String
  check : Bool
deriving DecidableEq, Repr

/-- What is asked for. -/
inductive Request where
  | help
  | version
  | compile (arguments : Arguments)
deriving DecidableEq, Repr

/-! ### Reading -/

/-- What has been read of the arguments. `pending` is a parameter that was not checked yet, with its
value if there is one. -/
structure State where
  declaration : Option String
  deployment : Option String
  output : Option String
  check : Bool
  pending : Option (Parameter × Option String)

/-- The state before the first argument. -/
def State.initial : State := ⟨none, none, none, false, none⟩

/-- What one or all arguments lead to: a state, or an answer to a question. -/
inductive Step where
  | state (state : State)
  | answer (request : Request)

/-- Stores a value, which must be the first one and not empty. -/
def store (parameter : Parameter) (before : Option String) (value : String) :
    Except ArgumentError (Option String) :=
  if before.isSome then .error (.repeated parameter)
  else if value.isEmpty then .error (.missingValue parameter)
  else .ok (some value)

/-- Gives a parameter its value. -/
def State.set (s : State) (parameter : Parameter) (value : String) :
    Except ArgumentError State :=
  match parameter with
  | .declaration => do
    let value ← store parameter s.declaration value
    return { s with declaration := value }
  | .deployment => do
    let value ← store parameter s.deployment value
    return { s with deployment := value }
  | .output => do
    let value ← store parameter s.output value
    return { s with output := value }
  | _ => .ok s

/-- Checks the pending parameter. -/
def State.settle (s : State) : Except ArgumentError State :=
  match s.pending with
  | none => .ok s
  | some (parameter, none) => .error (.missingValue parameter)
  | some (parameter, some value) => State.set { s with pending := none } parameter value

/-- Raises a parameter that takes no value. -/
def State.raise (s : State) (parameter : Parameter) : Except ArgumentError Step := do
  let s ← s.settle
  match parameter with
  | .help => return .answer .help
  | .version => return .answer .version
  | .check => if s.check then .error (.repeated .check) else return .state { s with check := true }
  | _ => return .state s

/-- Begins a parameter that takes a value, which may be attached to it. -/
def State.begin (s : State) (parameter : Parameter) (attached : Option String) :
    Except ArgumentError Step := do
  let s ← s.settle
  match attached with
  | some value =>
    let s ← s.set parameter value
    return .state s
  | none => return .state { s with pending := some (parameter, none) }

/-- Reads an argument that is the value of no option. -/
def State.positional (s : State) (value : String) : Except ArgumentError Step :=
  let taken := s.declaration.isSome || match s.pending with
    | some (.declaration, _) => true
    | _ => false
  if taken then .error (.unexpected value)
  else do
    let s ← s.settle
    return .state { s with pending := some (.declaration, some value) }

/-- The parameters with a long name. -/
def longNames : List (String × Parameter) :=
  [("deployment", .deployment), ("output", .output), ("check", .check), ("help", .help),
    ("version", .version)]

/-- The parameters with a short name. -/
def shortNames : List (Char × Parameter) :=
  [('d', .deployment), ('o', .output), ('h', .help), ('V', .version)]

/-- Reads an argument after two hyphens. -/
def State.long (s : State) (text : List Char) : Except ArgumentError Step :=
  let name := String.ofList (text.takeWhile (· != '='))
  let attached := match text.dropWhile (· != '=') with
    | [] => none
    | _ :: value => some (String.ofList value)
  match longNames.lookup name with
  | none => .error (.unexpected ("--" ++ name))
  | some parameter =>
    if parameter.takesValue then s.begin parameter attached
    else
      match attached with
      | some value => .error (.unexpectedValue value parameter)
      | none => s.raise parameter

/-- Reads an argument after one hyphen: a letter, and a value if the letter takes one. -/
def State.short (s : State) (letter : Char) (rest : List Char) : Except ArgumentError Step :=
  match shortNames.lookup letter with
  | none => .error (.unexpected ("-" ++ String.singleton letter))
  | some parameter =>
    if parameter.takesValue then
      s.begin parameter (match rest with
        | [] => none
        | '=' :: value => some (String.ofList value)
        | value => some (String.ofList value))
    else s.raise parameter

/-- Reads an argument that does not begin with a hyphen, or is nothing else. -/
def State.word (s : State) (value : String) : Except ArgumentError Step :=
  match s.pending with
  | some (parameter, none) => .ok (.state { s with pending := some (parameter, some value) })
  | _ => s.positional value

/-- Reads the arguments. After two hyphens that stand alone, all of them are values. -/
def State.readAll : State → (onlyValues : Bool) → List String → Except ArgumentError Step
  | s, _, [] => do
    let s ← s.settle
    return .state s
  | s, onlyValues, argument :: arguments => do
    let step ←
      if onlyValues then s.positional argument
      else
        match argument.toList with
        | ['-', '-'] => pure (.state s)
        | '-' :: '-' :: text => s.long text
        | '-' :: letter :: rest => s.short letter rest
        | _ => s.word argument
    match step with
    | .answer request => return .answer request
    | .state s => s.readAll (onlyValues || argument == "--") arguments

/-- Reads the arguments of the program. -/
def parseArguments (arguments : List String) : Except ArgumentError Request := do
  match ← State.initial.readAll false arguments with
  | .answer request => return request
  | .state s =>
    match s.declaration with
    | none => .error .missingDeclaration
    | some declaration => return .compile ⟨declaration, s.deployment, s.output, s.check⟩

/-! ### Answers -/

/-- The name and version of the program. -/
def versionText : String :=
  "weirc 0.1.0\n"

/-- How the program is used. -/
def helpText : String :=
  String.join ([
    "Compile pipeline declarations from the command line",
    "",
    "Usage: weirc [OPTIONS] <DECLARATION>",
    "",
    "Arguments:",
    "  <DECLARATION>  The pipeline declaration (`.json` or `.toml`)",
    "",
    "Options:",
    "  -d, --deployment <DEPLOYMENT>  Deployment descriptors, keyed by node id " ++
      "(`.json` or `.toml`)",
    "  -o, --output <OUTPUT>          Write IR here instead of stdout",
    "      --check                    Compile, but do not write IR",
    "  -h, --help                     Print help",
    "  -V, --version                  Print version"].map (· ++ "\n"))

end Pipework.CommandLine
