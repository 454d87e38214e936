import Pipework.Codec.Tagged

/-!
# Deployment

How the nodes of a pipeline are executed is said apart from the pipeline: a deployment has, for each
node id, an executor and perhaps a driver.
-/

namespace Pipework

/-- Something that can be executed. -/
inductive Executable where
  /-- Runs in the process itself. -/
  | native (implementation : String)
  /-- Runs data-parallel. -/
  | batch (implementation : String) (arguments : List String)
  /-- Runs in a container. -/
  | container (image : String) (command arguments : List String)
deriving DecidableEq, Repr

/-- A short description. -/
def Executable.describe : Executable → String
  | .native implementation => "native `" ++ implementation ++ "`"
  | .batch implementation _ => "batch `" ++ implementation ++ "`"
  | .container image _ _ => "container `" ++ image ++ "`"

/-- How a node is executed. -/
structure DeploymentEntry where
  executor : Executable
  driver : Option Executable
deriving DecidableEq, Repr

/-- The entries by node id. -/
abbrev Deployment := Dict DeploymentEntry

namespace Codec

/-- The fields of a native executable. -/
def nativeFields : Fields [String] :=
  .cons (.required "implementation" string) .nil

/-- The fields of a batch executable. -/
def batchFields : Fields [String, List String] :=
  .cons (.required "implementation" string) <|
    .cons (.defaulting "pipeline_args" (list string) []) .nil

/-- The fields of a container. -/
def containerFields : Fields [String, List String, List String] :=
  .cons (.required "image" string) <| .cons (.defaulting "command" (list string) []) <|
    .cons (.defaulting "args" (list string) []) .nil

/-- Executables, tagged by their kind. -/
def executable : Codec Executable :=
  tagged "internally tagged enum ExecutableSpec" "kind"
    [.of "native" "struct variant ExecutableSpec::Native" nativeFields
        fun (implementation, ()) ↦ .native implementation,
      .of "batch" "struct variant ExecutableSpec::Batch" batchFields
        fun (implementation, arguments, ()) ↦ .batch implementation arguments,
      .of "container" "struct variant ExecutableSpec::Container" containerFields
        fun (image, command, arguments, ()) ↦ .container image command arguments]
    fun
    | .native implementation =>
      .object (("kind", .string "native") :: nativeFields.write (implementation, ()))
    | .batch implementation arguments =>
      .object (("kind", .string "batch") :: batchFields.write (implementation, arguments, ()))
    | .container image command arguments =>
      .object
        (("kind", .string "container") :: containerFields.write (image, command, arguments, ()))

/-- Entries of a deployment. -/
def deploymentEntry : Codec DeploymentEntry :=
  record "DeploymentEntry" false
    (.cons (.required "executor" executable) <| .cons (.optional "driver" executable) .nil)
    (fun e ↦ (e.executor, e.driver, ()))
    (fun (executor, driver, ()) ↦ ⟨executor, driver⟩)

/-- Deployments; no node may be named twice. -/
def deployment : Codec Deployment :=
  dict .refused deploymentEntry

end Codec
end Pipework
