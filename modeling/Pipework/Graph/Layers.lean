import Pipework.Graph.Cycle

/-!
# Acyclic graphs and their layers

A graph without cycles is laid out in layers: a node stands in the first layer that lies after those
of all nodes with an edge to it. The layers are found by counting, for every node, the edges to it
that come from nodes without a layer.
-/

namespace Pipework

/-- A graph that was found to have no cycle, with the numbers of the edges that start and end at
each node. -/
structure AcyclicGraph (ν ε : Type) where
  graph : Graph ν ε
  outgoing : List (List Nat)
  incoming : List (List Nat)

/-- The cycle that keeps a graph from being laid out, its first node repeated at the end. -/
structure CycleError where
  cycle : List Nat
deriving DecidableEq, Repr

/-- The explanation of a cycle. -/
def CycleError.message (e : CycleError) : String :=
  "graph has a cycle through " ++ toString (e.cycle.length - 1) ++ " nodes"

namespace Graph

variable {ν ε : Type}

/-- Sorts the numbers of the edges by one of their ends. -/
def edgesBy (g : Graph ν ε) (endOf : Edge ε → Nat) : List (List Nat) :=
  g.edges.zipIdx.foldl (fun table (e, i) ↦ table.modify (endOf e) (· ++ [i]))
    (List.replicate g.order [])

/-- Accepts a graph without cycles. -/
def finalize (g : Graph ν ε) : Except CycleError (AcyclicGraph ν ε) :=
  match g.findCycle with
  | some cycle => .error ⟨cycle⟩
  | none => .ok ⟨g, g.edgesBy (·.source), g.edgesBy (·.target)⟩

end Graph

namespace AcyclicGraph

variable {ν ε : Type}

/-! ### Neighbours -/

/-- The numbers of the edges that start at a node. -/
def edgesFrom (g : AcyclicGraph ν ε) (v : Nat) : List Nat :=
  g.outgoing.getD v []

/-- The numbers of the edges that end at a node. -/
def edgesTo (g : AcyclicGraph ν ε) (v : Nat) : List Nat :=
  g.incoming.getD v []

/-- Numbers in increasing order, each once. -/
def sortedOnce (ns : List Nat) : List Nat :=
  (ns.mergeSort (· ≤ ·)).eraseReps

/-- The nodes with an edge to a node. -/
def predecessors (g : AcyclicGraph ν ε) (v : Nat) : List Nat :=
  sortedOnce ((g.edgesTo v).filterMap fun i ↦ (g.graph.edges[i]?).map (·.source))

/-- The nodes with an edge from a node. -/
def successors (g : AcyclicGraph ν ε) (v : Nat) : List Nat :=
  sortedOnce ((g.edgesFrom v).filterMap fun i ↦ (g.graph.edges[i]?).map (·.target))

/-! ### Layers -/

/-- For every node the number of edges to it that are still open, and the nodes of the next layer
found so far. -/
structure Count where
  pending : List Nat
  next : List Nat

/-- Closes an edge. A node all edges to which are closed belongs to the next layer. -/
def closeEdge (g : AcyclicGraph ν ε) (c : Count) (i : Nat) : Count :=
  match g.graph.edges[i]? with
  | none => c
  | some e =>
    let left := c.pending.getD e.target 0 - 1
    let counts := c.pending.set e.target left
    if left = 0 then ⟨counts, c.next ++ [e.target]⟩ else ⟨counts, c.next⟩

/-- Closes the edges that start at a node. -/
def closeNode (g : AcyclicGraph ν ε) (c : Count) (v : Nat) : Count :=
  (g.edgesFrom v).foldl g.closeEdge c

/-- The layers from the current one on. There are at most as many as nodes. -/
def layersFrom (g : AcyclicGraph ν ε) : (fuel : Nat) → (current : List Nat) → (counts : List Nat) →
    List (List Nat)
  | 0, _, _ => []
  | fuel + 1, current, counts =>
    if current.isEmpty then []
    else
      let c := current.foldl g.closeNode ⟨counts, []⟩
      current :: g.layersFrom fuel (c.next.mergeSort (· ≤ ·)) c.pending

/-- The layers of the graph, each in node order. -/
def layers (g : AcyclicGraph ν ε) : List (List Nat) :=
  let counts := g.incoming.map List.length
  let first := (List.range g.graph.order).filter fun v ↦ counts.getD v 0 == 0
  g.layersFrom g.graph.order first counts

/-- All nodes in an order in which every edge points forward. -/
def nodeOrder (g : AcyclicGraph ν ε) : List Nat :=
  g.layers.flatten

/-- A description of all nodes and edges. -/
def describe (node : ν → String) (label : ε → String) (g : AcyclicGraph ν ε) : String :=
  let nodes := g.graph.nodes.map node
  let edges := g.graph.edges.map fun e ↦
    "(GraphNodeIdx(" ++ toString e.source ++ "), GraphNodeIdx(" ++ toString e.target ++ "), " ++
      label e.label ++ ")"
  "FinalizedGraph \x7b nodes: [" ++ ", ".intercalate nodes ++ "], edges: [" ++
    ", ".intercalate edges ++ "] \x7d"

end AcyclicGraph
end Pipework
