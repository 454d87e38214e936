import Pipework.CompileError

/-!
# Pipelines under compilation

A pipeline is built from a declaration and then enriched stage by stage. Every stage writes its own
fields and reads those of earlier ones; the fields of a stage that has not run are empty.

The first stage gives every node its contexts: the pipeline, the run, and the node itself. The
contexts that a node declares follow them.
-/

namespace Pipework

namespace Pipeline

/-- A node of a pipeline. -/
structure Node where
  id : NodeId
  type : NodeType
  kind : NodeKind
  /-- The contexts that the node declares. -/
  extraContexts : List Document.Context
  /-- All contexts, once they are derived. -/
  contexts : List Document.Context
  /-- The inputs as declared. -/
  declaredInputs : Dict Declaration.Input
  /-- The inputs as queries, once they are resolved. -/
  inputs : Dict Document.Input
  outputs : Dict ArtifactType
  parameters : Dict Value
  /-- The nodes after which this one runs although it reads nothing from them, each once. -/
  after : List NodeId
  /-- The nodes on which this one depends, once the graph is validated. -/
  dependencies : List NodeId
  /-- The nodes that depend on this one, once the graph is validated. -/
  dependents : List NodeId
  options : Document.ExecutionOptions

end Pipeline

/-- A pipeline under compilation. -/
structure Pipeline where
  id : String
  nodes : List Pipeline.Node
  /-- The positions of the nodes by their ids. -/
  index : Dict Nat
  runtime : Document.RuntimeSpec
  mode : ExecutionMode
  deployment : Deployment
  /-- The positions of the nodes by layers, once the graph is validated. -/
  layers : List (List Nat)

namespace Pipeline

/-- The node with a given id. -/
def node? (p : Pipeline) (id : NodeId) : Option Node :=
  (p.index.get? id).bind fun i ↦ p.nodes[i]?

/-- The ids of the nodes by layers. -/
def layerIds (p : Pipeline) : List (List NodeId) :=
  p.layers.map fun layer ↦ layer.filterMap fun i ↦ p.nodes[i]?.map (·.id)

/-- The ids of all nodes in an order in which every node comes after those on which it depends. -/
def nodeOrder (p : Pipeline) : List NodeId :=
  p.layerIds.flatten

/-- What a stage did: the pipeline as it left it, and whether it succeeded. -/
structure Run where
  pipeline : Pipeline
  result : Except CompileError Unit

/-- The pipeline, if the stage succeeded. -/
def Run.get (r : Run) : Except CompileError Pipeline :=
  match r.result with
  | .ok () => .ok r.pipeline
  | .error e => .error e

end Pipeline

/-! ### Contexts -/

/-- The types of the contexts that all nodes have. -/
def canonicalContextTypes : List String :=
  ["pipeline", "pipeline_run", "node"]

/-- Whether a type is one of the contexts that all nodes have. -/
def isCanonicalContextType (type : String) : Bool :=
  canonicalContextTypes.contains type

/-- The contexts that all nodes have. -/
def canonicalContexts (pipeline : String) (run : RuntimeParameter) (node : NodeId) :
    List Document.Context :=
  [⟨"pipeline", .text pipeline⟩, ⟨"pipeline_run", .runtime run⟩,
    ⟨"node", .text (pipeline ++ "." ++ node)⟩]

namespace Pipeline

/-- All contexts of a node. -/
def contextsOf (p : Pipeline) (n : Node) : List Document.Context :=
  canonicalContexts p.id p.runtime.runId n.id ++ n.extraContexts

/-- Gives every node its contexts. -/
def deriveContexts (p : Pipeline) : Pipeline :=
  { p with nodes := p.nodes.map fun n ↦ { n with contexts := p.contextsOf n } }

end Pipeline
end Pipework
