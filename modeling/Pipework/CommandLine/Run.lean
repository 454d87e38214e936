import Pipework.CommandLine.Arguments
import Pipework.CommandLine.Input
import Pipework.CommandLine.Settings
import Pipework.Log.Compilation

/-!
# Running the command line

A run reads a declaration and, if there is one, a deployment, compiles them, and puts the text of
the document in one place: a file or the standard output. What it does is decided before anything is
written. `run` carries it out on a tree of files and a console.
-/

namespace Pipework.CommandLine

open Log (Event)

/-! ### Compiling -/

/-- What becomes of a document. -/
inductive Action where
  | nothing
  | print (text : String)
  | save (path text : String)
deriving DecidableEq, Repr

/-- Reads the input files. -/
def readInputs (source : Source) (a : Arguments) : Except Failure (Declaration × Deployment) := do
  let declaration ← readInput source Codec.declaration a.declaration
  let deployment ← match a.deployment with
    | some path => readInput source Codec.deployment path
    | none => pure .empty
  return (declaration, deployment)

/-- Compiles the input files. -/
def compileInputs (source : Source) (a : Arguments) : Except Failure CompileReport := do
  let (declaration, deployment) ← readInputs source a
  (declaration.compile deployment {}).mapError (.notCompiled a.declaration)

/-- The text of a document. -/
def documentText (settings : Settings) (d : Document) : Except DocumentError String :=
  if settings.pretty then d.prettyText else d.canonicalText

/-- What is done with a compiled document. -/
def actionFor (settings : Settings) (a : Arguments) (d : Document) :
    Except DocumentError Action := do
  if settings.fingerprint then
    let _ ← d.fingerprint
  if a.check then return .nothing
  let text ← documentText settings d
  match a.output with
  | some path => return .save path text
  | none => return .print text

/-- What the arguments and the input files lead to. -/
def decideAction (source : Source) (settings : Settings) (a : Arguments) :
    Except Failure Action := do
  let report ← compileInputs source a
  (actionFor settings a report.document).mapError .notEncodable

/-! ### The log -/

/-- An event of the command line. -/
def event (level : Log.Level) (message : String) (facts : List (String × String)) : Event :=
  ⟨level, "weirc", message, facts⟩

/-- The event of loading settings, from a file with the given path or without one. -/
def settingsEvent (settings : Settings) : Option String → Event
  | some path =>
    event .debug "Loaded config from .env"
      [("path", Text.quoted path), ("config", settings.describe)]
  | none =>
    event .debug "No `.env` found, loaded config from environment"
      [("config", settings.describe)]

/-- The events of the layers of a compiled pipeline. -/
def layerEvents (layers : List (List NodeId)) : List Event :=
  layers.zipIdx.map fun (layer, i) ↦
    event .debug "Layer" [("layer", toString i), ("nodes", toString layer.length)]

/-- The event of a document's fingerprint. -/
def fingerprintEvents (settings : Settings) (d : Document) : List Event :=
  match settings.fingerprint, d.fingerprint with
  | true, .ok fingerprint =>
    [event .info "Compiled pipeline" [("pipeline_id", d.id), ("fingerprint", fingerprint)]]
  | _, _ => []

/-- The events of compiling the input files. -/
def workEvents (source : Source) (settings : Settings) (a : Arguments) : List Event :=
  match readInputs source a with
  | .error _ => []
  | .ok (declaration, deployment) =>
    Log.compileEvents declaration deployment {} ++
      match declaration.compile deployment {} with
      | .error _ => []
      | .ok report => layerEvents report.layers ++ fingerprintEvents settings report.document

/-- The event of an action that succeeded. -/
def actionEvents : Action → List Event
  | .nothing => [event .info "Declaration is valid, not writing IR" []]
  | .print _ => []
  | .save path _ => [event .info "Wrote IR" [("path", path)]]

/-! ### Runs -/

/-- What a run leaves behind apart from files. -/
structure Ending where
  exitCode : Nat
  output : String
  errors : String
  log : List String
deriving DecidableEq, Repr

/-- What a run does: it ends, or it writes a file and then ends in one of two ways, or it prints
texts and then ends in a way that depends on what has been printed and on the error, if there was
one. -/
inductive Plan where
  | finish (ending : Ending)
  | save (path text : String) (saved : Ending) (failed : FileError → Ending)
  | print (texts : List String) (ending : String → Option FileError → Ending)

/-- The plan for an action. The end of a document's line is saved with the text but printed on its
own. -/
def planFor (settings : Settings) (log : List Event) (action : Action) : Plan :=
  let done output := ⟨0, output, "", settings.logLines (log ++ actionEvents action)⟩
  let failed output (failure : Failure) := ⟨1, output, failure.report, settings.logLines log⟩
  match action with
  | .nothing => .finish (done "")
  | .print text =>
    .print [text, "\n"] fun output error? ↦
      match error? with
      | none => done output
      | some error => failed output (.unprintable error)
  | .save path text =>
    .save path (text ++ "\n") (done "") fun error ↦ failed "" (.unwritable path error)

/-- The plan of a compilation, given the path and content of a file of variables. -/
def planCompilation (source : Source) (envFile : Option (String × ByteArray))
    (env : Environment) (a : Arguments) : Plan :=
  match Settings.load env (envFile.map (·.2)) with
  | .error e => .finish ⟨e.exitCode, "", e.report, []⟩
  | .ok settings =>
    let log := settingsEvent settings (envFile.map (·.1)) :: workEvents source settings a
    match decideAction source settings a with
    | .error failure =>
      .finish ⟨1, "", failure.report, settings.logLines log⟩
    | .ok action => planFor settings log action

/-- The plan of a run. -/
def plan (source : Source) (envFile : Option (String × ByteArray)) (env : Environment)
    (arguments : List String) : Plan :=
  match parseArguments arguments with
  | .error e => .finish ⟨2, "", e.message, []⟩
  | .ok .help => .finish ⟨0, helpText, "", []⟩
  | .ok .version => .finish ⟨0, versionText, "", []⟩
  | .ok (.compile a) => planCompilation source envFile env a

/-- The name of the file of variables. -/
def variablesFile : String := ".env"

/-- The standard output. It may refuse a text, for a reason that depends on what has been written
to it before. -/
structure Console where
  refusal? : (written text : String) → Option FileError

/-- Writes texts one after the other, up to the first that is refused. The result is all that has
been written, and the error if there was one. A text that is refused leaves nothing behind. -/
def Console.write (c : Console) (written : String) : List String → String × Option FileError
  | [] => (written, none)
  | text :: texts =>
    match c.refusal? written text with
    | some error => (written, some error)
    | none => c.write (written ++ text) texts

/-- A run on a tree of files and a console. The result is how the run ends, and the files that it
leaves. -/
def run (tree : FileTree) (env : Environment) (console : Console) (arguments : List String) :
    Ending × FileTree :=
  let envFile := (tree.findUp variablesFile).map fun (path, bytes) ↦ (pathText path, bytes)
  match plan tree.read envFile env arguments with
  | .finish ending => (ending, tree)
  | .save path text saved failed =>
    match tree.write path text.toUTF8 with
    | .ok tree => (saved, tree)
    | .error error => (failed error, tree)
  | .print texts ending =>
    let (output, error?) := console.write "" texts
    (ending output error?, tree)

end Pipework.CommandLine
