import Pipework.Proofs.Graph.Search

/-!
# Accepted graphs

`Graph.finalize` searches a graph for a cycle. If there is none the graph is accepted, and comes
with the numbers of its edges tabulated by their ends; all later reading goes through these tables.

* `finalize_eq_ok_iff`: a graph is accepted exactly if it is acyclic, and what is handed on is
  `g.tabulated`.
* `finalize_decides_acyclic`: the search reports a cycle exactly if there is one. Two notions of a
  cycle meet here: `Acyclic` forbids any path back, of whatever length and with whatever nodes
  repeated, while `IsCycle` is a list in which only the first node comes back.
* `tables_of_finalize`: the tables are exact. What a node lists is said by `Lists`, which leaves no
  freedom: at most one list holds exactly given numbers in increasing order.
-/

namespace Pipework

/-- A list of exactly the numbers with a property, in increasing order and each once. -/
structure Lists (ns : List Nat) (P : Nat → Prop) : Prop where
  increasing : ns.Pairwise (· < ·)
  mem_iff : ∀ n, n ∈ ns ↔ P n

namespace Graph

variable {ν ε : Type} {g : Graph ν ε} {a : AcyclicGraph ν ε}

/-! ### Acceptance -/

/-- **A graph is accepted if it is acyclic**, with its tables. -/
theorem finalize_eq_ok_iff : g.finalize = .ok a ↔ g.Acyclic ∧ a = g.tabulated := by
  rw [← findCycle_eq_none_iff, finalize]
  rcases g.findCycle with - | c
  · simp [tabulated, eq_comm]
  · simp

/-- A graph is refused with the cycle that is found. -/
theorem finalize_eq_error_iff {e : CycleError} :
    g.finalize = .error e ↔ g.findCycle = some e.cycle := by
  obtain ⟨cycle⟩ := e
  rw [finalize]
  rcases g.findCycle with - | c
  · simp
  · simp

/-- A path from a node back to it can be cut down to one that passes no node twice: the search
finds it. -/
theorem acyclic_iff_forall_not_isCycle : g.Acyclic ↔ ∀ c, ¬ g.IsCycle c := by
  refine ⟨fun hg c hc ↦ hc.not_acyclic hg, fun hnone ↦ findCycle_eq_none_iff.1 ?_⟩
  exact Option.eq_none_iff_forall_ne_some.2 fun c hc ↦ hnone c (isCycle_of_findCycle hc)

/-- **The search decides whether there is a cycle**, and acceptance follows it. Nothing is reported
exactly if no path leads from a node back to it, or, what is the same, if there is no cycle without
repeated nodes; what is reported is such a cycle. A graph is accepted exactly if it has no cycle,
and otherwise refused with one. This holds for any graph made by adding nodes and edges between
them, parallel edges and loops included. -/
theorem finalize_decides_acyclic (g : Graph ν ε) :
    (g.findCycle = none ↔ g.Acyclic) ∧ (g.Acyclic ↔ ∀ c, ¬ g.IsCycle c) ∧
      (∀ c, g.findCycle = some c → g.IsCycle c) ∧
      ((∃ a, g.finalize = .ok a) ↔ g.Acyclic) ∧
      (¬ g.Acyclic ↔ ∃ c, g.finalize = .error ⟨c⟩ ∧ g.IsCycle c) := by
  refine ⟨findCycle_eq_none_iff, acyclic_iff_forall_not_isCycle, fun c ↦ isCycle_of_findCycle,
    ?_, ?_⟩
  · constructor
    · intro haccepted
      obtain ⟨a, ha⟩ := haccepted
      exact (finalize_eq_ok_iff.1 ha).1
    · intro hg
      exact ⟨g.tabulated, finalize_eq_ok_iff.2 ⟨hg, rfl⟩⟩
  · constructor
    · intro hg
      obtain ⟨c, hc⟩ := Option.ne_none_iff_exists'.1 (mt findCycle_eq_none_iff.1 hg)
      exact ⟨c, finalize_eq_error_iff.2 hc, isCycle_of_findCycle hc⟩
    · intro hrefused
      obtain ⟨c, -, hc⟩ := hrefused
      exact hc.not_acyclic

/-- A graph in which a path leads into a cycle that does not come back to its first node. -/
def lasso : Graph Unit Unit :=
  Graph.empty |>.addNode () |>.addNode () |>.addNode () |>.addEdge 0 1 () |>.addEdge 1 2 ()
    |>.addEdge 1 2 () |>.addEdge 2 1 ()

example : lasso.findCycle = some [1, 2, 1] := by decide

/-! ### The tables of an accepted graph -/

/-- The edges from a node are listed once, in the order of edges. -/
theorem lists_edgesFrom (v : Nat) :
    Lists (g.tabulated.edgesFrom v) fun i ↦ g.edges[i]?.map (·.source) = some v :=
  ⟨pairwise_edgesFrom v, fun _ ↦ by rw [mem_edgesFrom, Option.map_eq_some_iff]⟩

theorem lists_edgesTo (v : Nat) :
    Lists (g.tabulated.edgesTo v) fun i ↦ g.edges[i]?.map (·.target) = some v :=
  ⟨pairwise_edgesTo v, fun _ ↦ by rw [mem_edgesTo, Option.map_eq_some_iff]⟩

/-- The far ends of listed edges, sorted. -/
theorem lists_sortedOnce (is : List Nat) (far : Edge ε → Nat) :
    Lists (AcyclicGraph.sortedOnce (is.filterMap fun i ↦ g.edges[i]?.map far))
      fun x ↦ ∃ i ∈ is, g.edges[i]?.map far = some x :=
  ⟨AcyclicGraph.pairwise_sortedOnce _,
    fun _ ↦ by rw [AcyclicGraph.mem_sortedOnce, List.mem_filterMap]⟩

/-- Lists of the numbers to which a function gives a value share no number, and a number with a
value is on one of them. -/
theorem existsUnique_mem_of_lists {f : Nat → Option Nat} {row : Nat → List Nat}
    (h : ∀ v, Lists (row v) fun i ↦ f i = some v) {i : Nat} (hi : (f i).isSome) :
    ∃! v, i ∈ row v := by
  obtain ⟨v, hv⟩ := Option.isSome_iff_exists.1 hi
  refine ⟨v, ((h v).mem_iff i).2 hv, fun w hw ↦ ?_⟩
  exact Option.some.inj ((((h w).mem_iff i).1 hw).symm.trans hv)

/-- **The tables of an accepted graph.** A node, or a number that is not a node, lists the numbers
of exactly the edges that start (end) at it, so that every edge is on one list of either kind; its
predecessors (successors) are exactly the sources (targets) of the edges so listed; and the
predecessors of nodes mirror their successors. -/
theorem tables_of_finalize (h : g.finalize = .ok a) :
    (∀ v, Lists (a.edgesFrom v) fun i ↦ g.edges[i]?.map (·.source) = some v) ∧
      (∀ v, Lists (a.edgesTo v) fun i ↦ g.edges[i]?.map (·.target) = some v) ∧
      (∀ i < g.size, (∃! v, i ∈ a.edgesFrom v) ∧ ∃! v, i ∈ a.edgesTo v) ∧
      (∀ v, Lists (a.predecessors v)
        fun u ↦ ∃ i ∈ a.edgesTo v, g.edges[i]?.map (·.source) = some u) ∧
      (∀ v, Lists (a.successors v)
        fun w ↦ ∃ i ∈ a.edgesFrom v, g.edges[i]?.map (·.target) = some w) ∧
      ∀ u v, u ∈ a.predecessors v ↔ v ∈ a.successors u := by
  obtain ⟨-, rfl⟩ := finalize_eq_ok_iff.1 h
  refine ⟨lists_edgesFrom, lists_edgesTo, fun i hi ↦ ?_, fun v ↦ lists_sortedOnce _ _,
    fun v ↦ lists_sortedOnce _ _, fun u v ↦ mem_predecessors.trans mem_successors.symm⟩
  have hedge : g.edges[i]?.isSome := by simpa [size] using hi
  exact ⟨existsUnique_mem_of_lists lists_edgesFrom (by simpa using hedge),
    existsUnique_mem_of_lists lists_edgesTo (by simpa using hedge)⟩

/-- A graph in which two ways of different lengths lead from node 2 to node 1, the longer one by
parallel edges. -/
def detour : Graph Unit Unit :=
  Graph.empty |>.addNode () |>.addNode () |>.addNode () |>.addEdge 2 0 () |>.addEdge 0 1 ()
    |>.addEdge 2 1 () |>.addEdge 0 1 ()

/-- In a graph with parallel edges, neighbours are listed once and edges one by one. -/
theorem tables_of_finalize_detour : ∃ a, detour.finalize = .ok a ∧
    a.edgesTo 1 = [1, 2, 3] ∧ a.edgesFrom 7 = [] ∧
    Lists (a.predecessors 1)
      (fun u ↦ ∃ i ∈ a.edgesTo 1, detour.edges[i]?.map (·.source) = some u) ∧
    ∀ u v, u ∈ a.predecessors v ↔ v ∈ a.successors u := by
  have h : detour.finalize = .ok detour.tabulated := finalize_eq_ok_iff.2 ⟨by decide, rfl⟩
  obtain ⟨-, -, -, hpredecessors, -, hmirror⟩ := tables_of_finalize h
  exact ⟨_, h, by decide, by decide, hpredecessors 1, hmirror⟩

end Graph

end Pipework
