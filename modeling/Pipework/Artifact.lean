import Pipework.Codec.Choice
import Pipework.Codec.Record
import Pipework.Value

/-!
# Types of nodes and artifacts

Nodes and the artifacts that they exchange have a type: a name, and a coarse category that need not
be given. The type of an artifact also lists its properties.
-/

namespace Pipework

/-- The categories of nodes. -/
inductive NodeCategory where
  | ingest
  | process
  | transform
  | train
  | infraValidate
  | deploy
deriving DecidableEq, Repr

/-- The name of a category. -/
def NodeCategory.name : NodeCategory → String
  | .ingest => "INGEST"
  | .process => "PROCESS"
  | .transform => "TRANSFORM"
  | .train => "TRAIN"
  | .infraValidate => "INFRA_VALIDATE"
  | .deploy => "DEPLOY"

/-- The categories of artifacts. -/
inductive ArtifactCategory where
  | dataset
  | model
  | metrics
  | statistics
deriving DecidableEq, Repr

/-- The name of a category. -/
def ArtifactCategory.name : ArtifactCategory → String
  | .dataset => "DATASET"
  | .model => "MODEL"
  | .metrics => "METRICS"
  | .statistics => "STATISTICS"

/-- The type of a node. -/
structure NodeType where
  name : String
  category : Option NodeCategory
deriving DecidableEq, Repr

/-- A reference to a type of artifacts. -/
structure ArtifactRef where
  name : String
  category : Option ArtifactCategory
deriving DecidableEq, Repr

/-- The type of an artifact. -/
structure ArtifactType where
  name : String
  category : Option ArtifactCategory
  properties : Dict ScalarKind
deriving DecidableEq

/-- The reference to a type, which leaves its properties out. -/
def ArtifactType.ref (t : ArtifactType) : ArtifactRef :=
  ⟨t.name, t.category⟩

namespace Codec

/-- Categories of nodes. -/
def nodeCategory : Codec NodeCategory :=
  names NodeCategory.name [.ingest, .process, .transform, .train, .infraValidate, .deploy]

/-- Categories of artifacts. -/
def artifactCategory : Codec ArtifactCategory :=
  names ArtifactCategory.name [.dataset, .model, .metrics, .statistics]

/-- Types of nodes. -/
def nodeType : Codec NodeType :=
  record "NodeType" false
    (.cons (.required "name" string) <| .cons (.optional "base_type" nodeCategory) .nil)
    (fun t ↦ (t.name, t.category, ()))
    (fun (name, category, ()) ↦ ⟨name, category⟩)

/-- References to types of artifacts. -/
def artifactRef : Codec ArtifactRef :=
  record "ArtifactTypeRef" false
    (.cons (.required "name" string) <| .cons (.optional "base_type" artifactCategory) .nil)
    (fun t ↦ (t.name, t.category, ()))
    (fun (name, category, ()) ↦ ⟨name, category⟩)

/-- Types of artifacts. -/
def artifactType : Codec ArtifactType :=
  record "ArtifactType" false
    (.cons (.required "name" string) <| .cons (.optional "base_type" artifactCategory) <|
      .cons (.defaulting "properties" (dict .lastCounts scalarKind) .empty) .nil)
    (fun t ↦ (t.name, t.category, t.properties, ()))
    (fun (name, category, properties, ()) ↦ ⟨name, category, properties⟩)

end Codec
end Pipework
