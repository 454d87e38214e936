import Pipework.Pipeline.Adjacency
import Pipework.Pipeline.Assembly
import Pipework.Pipeline.Channels

/-!
# Compiling a declaration

A declaration is assembled, its contexts are derived, its channels resolved, its graph validated and
its deployment attached; then the document is emitted. The first error ends the compilation. A
deployment may only name nodes of the pipeline, and every component needs an entry in it.
-/

namespace Pipework

namespace Pipeline

/-! ### Attaching a deployment -/

/-- Checks that a deployment only names nodes of the pipeline. -/
def checkDeployed (p : Pipeline) (d : Deployment) : Except CompileError Unit :=
  d.keys.forM fun id ↦ if p.index.contains id then .ok () else .error (.unknownDeployment id)

/-- Checks that a node that needs an executor has one. -/
def checkExecutor (d : Deployment) (n : Node) : Except CompileError Unit :=
  if n.kind.needsExecutor && !d.contains n.id then .error (.missingExecutor n.id) else .ok ()

/-- Checks a deployment. -/
def checkDeployment (p : Pipeline) (d : Deployment) : Except CompileError Unit := do
  p.checkDeployed d
  p.nodes.forM (checkExecutor d)

/-- Attaches a deployment. -/
def deploy (d : Deployment) (p : Pipeline) : Run :=
  match p.checkDeployment d with
  | .error e => ⟨p, .error e⟩
  | .ok () => ⟨{ p with deployment := d }, .ok ()⟩

/-! ### Emitting the document -/

/-- The node of the document. -/
def Node.toDocument (n : Node) : Document.Node where
  type := n.type
  id := n.id
  contexts := n.contexts
  inputs := n.inputs
  outputs := n.outputs
  parameters := n.parameters
  dependencies := n.dependencies
  dependents := n.dependents
  options := n.options

/-- The document of a pipeline. -/
def toDocument (p : Pipeline) : Document where
  version := Document.currentVersion
  id := p.id
  nodes := p.nodes.map Node.toDocument
  runtime := p.runtime
  mode := p.mode
  deployment := p.deployment

/-- The document of a pipeline, if it can be written. -/
def emit (p : Pipeline) : Except CompileError Document := do
  p.toDocument.checkFinite.mapError .notWritable
  return p.toDocument

end Pipeline

/-! ### Compilations -/

/-- A stage that can be run on an assembled pipeline. -/
inductive Stage where
  | contexts
  | channels
  | adjacency
  | deployment (entries : Deployment)

/-- Runs a stage. -/
def Stage.run (p : Pipeline) : Stage → Pipeline.Run
  | .contexts => ⟨p.deriveContexts, .ok ()⟩
  | .channels => p.resolveChannels
  | .adjacency => p.validate
  | .deployment entries => p.deploy entries

/-- Sizes of a compiled pipeline. -/
structure CompileCounts where
  nodes : Nat
  edges : Nat
  channels : Nat
  resolverSteps : Nat
  deploymentEntries : Nat
deriving DecidableEq, Repr

/-- The sizes of a pipeline. -/
def Pipeline.counts (p : Pipeline) : CompileCounts :=
  let inputs := p.nodes.flatMap fun n ↦ n.inputs.values
  { nodes := p.nodes.length
    edges := (p.nodes.flatMap fun n ↦ n.dependencies).length
    channels := (inputs.flatMap fun i ↦ i.channels).length
    resolverSteps := (inputs.flatMap fun i ↦ i.resolver).length
    deploymentEntries := p.deployment.size }

/-- A compiled pipeline and what there is to know about it. -/
structure CompileReport where
  document : Document
  layers : List (List NodeId)
  counts : CompileCounts

namespace Declaration

/-- Runs all stages. -/
def build (d : Declaration) (deployment : Deployment) (options : CompileOptions) :
    Except CompileError Pipeline := do
  let p ← Pipeline.assemble d options
  let p ← p.deriveContexts.resolveChannels.get
  let p ← p.validate.get
  (p.deploy deployment).get

/-- Compiles a declaration. -/
def compile (d : Declaration) (deployment : Deployment) (options : CompileOptions) :
    Except CompileError CompileReport := do
  let p ← d.build deployment options
  let document ← p.emit
  return ⟨document, p.layerIds, p.counts⟩

end Declaration
end Pipework
