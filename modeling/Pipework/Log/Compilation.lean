import Pipework.Compile
import Pipework.Log.Event

/-!
# The log of a compilation

The events of every stage are functions of what the stage is given. A stage that fails has the
events up to its failure, and the stages after it have none.
-/

namespace Pipework.Log

open Pipeline (buildNode checkId checkNodeId)

/-! ### Assembly -/

/-- An event of assembling a pipeline. -/
def assemblyEvent (level : Level) (message : String) (pipeline : String)
    (facts : List (String × String)) : Event :=
  ⟨level, "weir_compiler::stage::assemble", message, ("pipeline_id", Text.quoted pipeline) :: facts⟩

/-- The events of building nodes after those whose positions are given, and of what follows. -/
def nodeEvents (pipeline : String) (index : Dict Nat) : List Declaration.Node → List Event
  | [] => [assemblyEvent .trace "Checking references" pipeline []]
  | d :: ds =>
    match checkNodeId index d.id with
    | .error _ => []
    | .ok () =>
      assemblyEvent .trace "Adding node" pipeline [("node_id", d.id)] ::
        match buildNode d with
        | .error _ => []
        | .ok _ => nodeEvents pipeline (index.insert d.id 0) ds

/-- The events of assembling a pipeline. -/
def assemblyEvents (d : Declaration) : List Event :=
  assemblyEvent .debug "Assembling pipeline" d.id [("nodes", toString d.nodes.length)] ::
    match checkId .pipeline d.id with
    | .error _ => []
    | .ok () => assemblyEvent .trace "Making nodes" d.id [] :: nodeEvents d.id .empty d.nodes

/-! ### Stages -/

/-- The events of deriving contexts. -/
def contextEvents (p : Pipeline) : List Event :=
  let part := "weir_compiler::stage::context"
  ⟨.debug, part, "Deriving contexts", [("pipeline_id", p.id)]⟩ ::
    p.nodes.map fun n ↦
      ⟨.trace, part, "Derived contexts",
        [("node_id", n.id), ("count", toString (p.contextsOf n).length)]⟩

/-- The events of resolving inputs. -/
def inputEvents (p : Pipeline) : List (NodeId × InputKey × Declaration.Input) → List Event
  | [] => []
  | (id, key, input) :: rest =>
    match p.resolveInput id key input with
    | .error _ => []
    | .ok resolved =>
      ⟨.trace, "weir_compiler::stage::resolve", "Resolved input",
        [("node_id", id), ("input_key", key), ("channels", toString resolved.channels.length),
          ("resolver_steps", toString resolved.resolver.length)]⟩ :: inputEvents p rest

/-- The events of resolving channels. -/
def channelEvents (p : Pipeline) : List Event :=
  ⟨.debug, "weir_compiler::stage::resolve", "Resolving channels", [("pipeline_id", p.id)]⟩ ::
    inputEvents p
      (p.nodes.flatMap fun n ↦ n.declaredInputs.entries.map fun (key, i) ↦ (n.id, key, i))

/-- The event of adding an edge. -/
def edgeEvent (producer node : NodeId) : ReferenceSite → Event
  | .input key =>
    ⟨.trace, "weir_compiler::stage::validate", "Adding data edge",
      [("from", producer), ("to", node), ("input_key", key)]⟩
  | .after =>
    ⟨.trace, "weir_compiler::stage::validate", "Adding `after` edge",
      [("from", producer), ("to", node)]⟩

/-- The events of adding edges, up to a node that does not exist. -/
def edgeEvents (p : Pipeline) : List Event :=
  let references := p.nodes.flatMap fun n ↦ n.references.map fun (producer, site) ↦
    (producer, n.id, site)
  (references.takeWhile fun (producer, _, _) ↦ (p.position? producer).isSome).map
    fun (producer, node, site) ↦ edgeEvent producer node site

/-- The events of validating the graph. -/
def adjacencyEvents (p : Pipeline) : List Event :=
  let part := "weir_compiler::stage::validate"
  ⟨.debug, part, "Validating pipeline graph", [("pipeline_id", p.id)]⟩ :: edgeEvents p ++
    match p.graph with
    | .error _ => []
    | .ok g =>
      ⟨.trace, part, "Looking for cycles", [("pipeline_id", p.id)]⟩ ::
        match p.validate.result with
        | .error _ => []
        | .ok () =>
          [⟨.debug, part, "Pipeline graph is valid",
            [("pipeline_id", p.id), ("edges", toString g.size),
              ("layers", toString p.validate.pipeline.layers.length)]⟩]

/-- The events of looking up the executors of nodes. -/
def executorEvents (d : Deployment) : List Pipeline.Node → List Event
  | [] => []
  | n :: ns =>
    let part := "weir_compiler::stage::deploy"
    match d.get? n.id with
    | some entry =>
      let facts := [("node_id", n.id), ("executor", entry.executor.describe)]
      (if n.kind.needsExecutor then ⟨.trace, part, "Found executor", facts⟩
        else ⟨.debug, part, "Recording deployment entry for node without an executor", facts⟩) ::
        executorEvents d ns
    | none => if n.kind.needsExecutor then [] else executorEvents d ns

/-- The events of attaching a deployment. -/
def deploymentEvents (d : Deployment) (p : Pipeline) : List Event :=
  ⟨.debug, "weir_compiler::stage::deploy", "Partitioning deployment config",
    [("pipeline_id", p.id), ("entries", toString d.size)]⟩ ::
    match p.checkDeployed d with
    | .error _ => []
    | .ok () => executorEvents d p.nodes

/-- The events of emitting the document. -/
def emissionEvents (p : Pipeline) : List Event :=
  ⟨.debug, "weir_compiler::stage::emit", "Emitting IR", [("pipeline_id", p.id)]⟩ ::
    match p.emit with
    | .error _ => []
    | .ok _ =>
      let counts := p.counts
      [⟨.info, "weir_compiler::compile", "Compiled pipeline",
        [("pipeline_id", Text.quoted p.id), ("nodes", toString counts.nodes),
          ("edges", toString counts.edges), ("channels", toString counts.channels)]⟩]

/-! ### Compilations -/

/-- The events of a stage, and those of what follows if it succeeds. -/
def thenEvents (events : List Event) (run : Except CompileError Pipeline)
    (following : Pipeline → List Event) : List Event :=
  events ++
    match run with
    | .error _ => []
    | .ok p => following p

/-- The events of a compilation. -/
def compileEvents (d : Declaration) (deployment : Deployment) (options : CompileOptions) :
    List Event :=
  thenEvents (assemblyEvents d) (Pipeline.assemble d options) fun p ↦
    thenEvents (contextEvents p) (.ok p.deriveContexts) fun p ↦
      thenEvents (channelEvents p) p.resolveChannels.get fun p ↦
        thenEvents (adjacencyEvents p) p.validate.get fun p ↦
          thenEvents (deploymentEvents deployment p) (p.deploy deployment).get emissionEvents

end Pipework.Log
