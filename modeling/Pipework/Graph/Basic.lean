/-!
# Directed graphs

Nodes and edges are numbered in the order in which they were added. Parallel edges and loops are
allowed, and both ends of an edge are nodes of the graph.
-/

namespace Pipework

/-- An edge between two nodes, given by their numbers. -/
structure Edge (ε : Type) where
  source : Nat
  target : Nat
  label : ε
deriving DecidableEq, Repr

/-- A directed graph with labelled nodes and edges. -/
structure Graph (ν ε : Type) where
  nodes : List ν
  edges : List (Edge ε)
  ends : ∀ e ∈ edges, e.source < nodes.length ∧ e.target < nodes.length

namespace Graph

variable {ν ε : Type}

/-- The graph without nodes. -/
def empty : Graph ν ε := ⟨[], [], by simp⟩

/-- The number of nodes. -/
def order (g : Graph ν ε) : Nat :=
  g.nodes.length

/-- The number of edges. -/
def size (g : Graph ν ε) : Nat :=
  g.edges.length

/-- Adds a node, which gets the next number. -/
def addNode (g : Graph ν ε) (node : ν) : Graph ν ε where
  nodes := g.nodes ++ [node]
  edges := g.edges
  ends e he := by
    have := g.ends e he
    simp only [List.length_append, List.length_cons, List.length_nil]
    omega

/-- Adds an edge, which gets the next number. If an end is not a node, nothing is added. -/
def addEdge (g : Graph ν ε) (source target : Nat) (label : ε) : Graph ν ε :=
  if h : source < g.nodes.length ∧ target < g.nodes.length then
    { nodes := g.nodes
      edges := g.edges ++ [⟨source, target, label⟩]
      ends := fun e he ↦ by
        rcases List.mem_append.1 he with he | he
        · exact g.ends e he
        · rw [List.mem_singleton.1 he]
          exact h }
  else g

/-- The ends of the edges that start at a node, in the order of the edges. -/
def targets (g : Graph ν ε) (v : Nat) : List Nat :=
  (g.edges.filter (·.source == v)).map (·.target)

end Graph
end Pipework
