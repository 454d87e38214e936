import Pipework.Document.Text
import Pipework.Name

/-!
# Why a declaration cannot be compiled
-/

namespace Pipework

/-- What a name stands for. -/
inductive NameSubject where
  | pipeline
  | node
deriving DecidableEq, Repr

/-- The description of what a name stands for. -/
def NameSubject.describe : NameSubject → String
  | .pipeline => "pipeline"
  | .node => "node"

/-- Where a node refers to another one. -/
inductive ReferenceSite where
  | input (key : InputKey)
  | after
deriving DecidableEq, Repr

/-- The description of a place. -/
def ReferenceSite.describe : ReferenceSite → String
  | .input key => "input `" ++ key ++ "`"
  | .after => "`after` list"

/-- Why the configuration of a resolver step is refused. -/
inductive ConfigError where
  | notObject
  | encodedNotObject
  | unreadable (text : String) (fault : Json.Fault)
deriving DecidableEq, Repr

/-- The explanation of a refusal. -/
def ConfigError.message : ConfigError → String
  | .notObject => "config must be an object or a string holding an object"
  | .encodedNotObject => "encoded config is not an object"
  | .unreadable text fault => "could not parse encoded config: " ++ fault.message text.toList

/-- The reasons why a declaration cannot be compiled. -/
inductive CompileError where
  | invalidName (subject : NameSubject) (name : String) (reason : NameError)
  | duplicateNode (node : NodeId)
  | unknownReference (node : NodeId) (site : ReferenceSite) (producer : NodeId)
  | emptyInput (node : NodeId) (key : InputKey)
  | reservedContext (node : NodeId) (type : String)
  | defaultMismatch (node : NodeId) (parameter : String) (expected found : ScalarKind)
  | missingOutput (node : NodeId) (key : InputKey) (producer : NodeId) (output : OutputKey)
  | invalidConfig (node : NodeId) (key : InputKey) (step : Nat) (reason : ConfigError)
  | cyclic (cycle : List NodeId)
  | asymmetric (source target : NodeId)
  | unknownDeployment (node : NodeId)
  | missingExecutor (node : NodeId)
  | notWritable (reason : DocumentError)
deriving DecidableEq, Repr

namespace CompileError

/-- The explanation of an error. -/
def message : CompileError → String
  | .invalidName subject name reason =>
    "invalid " ++ subject.describe ++ " id `" ++ name ++ "`: " ++ reason.message
  | .duplicateNode node => "duplicate node id `" ++ node ++ "`"
  | .unknownReference node site producer =>
    "node `" ++ node ++ "` references unknown node `" ++ producer ++ "` in its " ++ site.describe
  | .emptyInput node key => "input `" ++ key ++ "` of node `" ++ node ++ "` has no channels"
  | .reservedContext node type =>
    "node `" ++ node ++ "` declares reserved context type `" ++ type ++ "`"
  | .defaultMismatch node parameter expected found =>
    "parameter `" ++ parameter ++ "` of node `" ++ node ++ "` has type " ++ expected.name ++
      " but its default is " ++ found.name
  | .missingOutput node key producer output =>
    "input `" ++ key ++ "` of node `" ++ node ++ "` reads `" ++ producer ++ "." ++ output ++
      "`, which does not exist"
  | .invalidConfig node key step reason =>
    "resolver step " ++ toString step ++ " of input `" ++ key ++ "` on node `" ++ node ++
      "` has invalid config: " ++ reason.message
  | .cyclic cycle => "pipeline graph has a cycle: " ++ " -> ".intercalate cycle
  | .asymmetric source target =>
    "edge `" ++ source ++ "` -> `" ++ target ++ "` is not recorded on both nodes"
  | .unknownDeployment node => "deployment config references unknown node `" ++ node ++ "`"
  | .missingExecutor node => "node `" ++ node ++ "` has no executor spec"
  | .notWritable _ => "could not serialize pipeline"

/-- The explanations of what lies behind an error. -/
def causes : CompileError → List String
  | .invalidName _ _ reason => [reason.message]
  | .notWritable reason => [reason.message]
  | _ => []

end CompileError
end Pipework
