import Pipework.Graph.Layers
import Pipework.Pipeline.Basic

/-!
# Validating the graph of a pipeline

The nodes of a pipeline form a graph with an edge for every channel and for every entry of an
`after` list. It must not have a cycle. Every node is told its neighbours on both sides, in the
order of the declaration.
-/

namespace Pipework.Pipeline

/-- The nodes to which a node refers, with the place of each reference. -/
def Node.references (n : Node) : List (NodeId × ReferenceSite) :=
  (n.inputs.entries.flatMap fun e ↦ e.2.channels.map fun c ↦ (c.producer, .input e.1)) ++
    n.after.map fun id ↦ (id, .after)

/-- The graph without edges. -/
def nodeGraph (p : Pipeline) : Graph NodeId ReferenceSite :=
  p.nodes.foldl (fun g n ↦ g.addNode n.id) .empty

/-- The position of a node, unless it lies beyond the nodes. -/
def position? (p : Pipeline) (id : NodeId) : Option Nat :=
  (p.index.get? id).filter (· < p.nodes.length)

/-- Adds the edges to a node at a given position. -/
def addReferences (p : Pipeline) (g : Graph NodeId ReferenceSite) (n : Node × Nat) :
    Except CompileError (Graph NodeId ReferenceSite) :=
  n.1.references.foldlM
    (fun g (producer, site) ↦
      match p.position? producer with
      | none => .error (.unknownReference n.1.id site producer)
      | some i => .ok (g.addEdge i n.2 site))
    g

/-- The graph of a pipeline. -/
def graph (p : Pipeline) : Except CompileError (Graph NodeId ReferenceSite) :=
  p.nodes.zipIdx.foldlM p.addReferences p.nodeGraph

/-- The ids of nodes of a graph. -/
def idsOf (g : Graph NodeId ReferenceSite) (positions : List Nat) : List NodeId :=
  positions.filterMap fun i ↦ g.nodes[i]?

/-- The graph of a pipeline, which must not have a cycle. -/
def acyclicGraph (p : Pipeline) : Except CompileError (AcyclicGraph NodeId ReferenceSite) := do
  let g ← p.graph
  match g.finalize with
  | .ok g => return g
  | .error e => .error (.cyclic (idsOf g e.cycle))

/-- Writes the neighbours of every node and the layers. -/
def setAdjacency (p : Pipeline) (g : AcyclicGraph NodeId ReferenceSite) : Pipeline :=
  { p with
    nodes := p.nodes.zipIdx.map fun (n, i) ↦
      { n with
        dependencies := idsOf g.graph (g.predecessors i)
        dependents := idsOf g.graph (g.successors i) }
    layers := g.layers }

/-- Checks that a neighbour of a node has the node as its neighbour. -/
def checkNeighbour (p : Pipeline) (neighbours : Node → List NodeId) (id neighbour : NodeId)
    (error : CompileError) : Except CompileError Unit :=
  match p.node? neighbour with
  | some n => if (neighbours n).contains id then .ok () else .error error
  | none => .error error

/-- Checks that every edge is written on both of its nodes. -/
def checkSymmetry (p : Pipeline) : Except CompileError Unit :=
  p.nodes.forM fun n ↦ do
    n.dependencies.forM fun id ↦ p.checkNeighbour (·.dependents) n.id id (.asymmetric id n.id)
    n.dependents.forM fun id ↦ p.checkNeighbour (·.dependencies) n.id id (.asymmetric n.id id)

/-- Validates the graph and writes neighbours and layers. -/
def validate (p : Pipeline) : Run :=
  match p.acyclicGraph with
  | .error e => ⟨p, .error e⟩
  | .ok g => ⟨p.setAdjacency g, (p.setAdjacency g).checkSymmetry⟩

end Pipework.Pipeline
