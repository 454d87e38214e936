import Pipework.Proofs.Graph.Layers
import Pipework.Proofs.Pipeline.Frame

/-!
# The graph of a pipeline

The graph is built edge by edge, looking every reference up in the index. `referenceGraph` says what
comes out: the ids as nodes and, for every node and every reference of it, an edge from the node
referred to. It is made of a list of ids with their references only, so that a declaration and the
pipeline built from it can be compared through it.

* `graph_eq_referenceGraph`: if all references are known, this is the graph.
* `adj_referenceGraph_iff`: there is an edge exactly where there is a reference.
* `filterMap_getElem?_eq_filter`: positions in increasing order, turned into ids, are the ids that
  stand at these positions, in declaration order.

A pipeline is `Linked` to a graph on its ids if its nodes have the neighbours, and it has the
layers, of that graph. Which references the graph was made of does not matter for what the lists
have in common: they mirror each other, they follow the declaration order, and the symmetry check
passes.
-/

open Relation

namespace Pipework

/-! ### Positions in a list of distinct ids -/

/-- Distinct ids have one position each. -/
theorem position_eq {xs : List NodeId} (h : xs.Nodup) {x : NodeId} {i j : Nat}
    (hi : xs[i]? = some x) (hj : xs[j]? = some x) : i = j :=
  (List.getElem?_inj (List.getElem?_eq_some_iff.1 hi).1 h).1 (hi.trans hj.symm)

theorem idxOf?_eq_some_iff_of_nodup {xs : List NodeId} (h : xs.Nodup) {x : NodeId} {i : Nat} :
    xs.idxOf? x = some i ↔ xs[i]? = some x := by
  rw [List.idxOf?_eq_some_iff, List.getElem?_eq_some_iff]
  constructor
  · rintro ⟨hi, hx, -⟩
    exact ⟨hi, hx⟩
  · rintro ⟨hi, hx⟩
    refine ⟨hi, hx, fun j hj hxj ↦ ?_⟩
    exact absurd (h.getElem_inj_iff.1 (hxj.trans hx.symm)) (Nat.ne_of_lt hj)

/-- An id is found at its position. -/
theorem idxOf_eq_of_nodup {xs : List NodeId} (h : xs.Nodup) {x : NodeId} {i : Nat}
    (hi : xs[i]? = some x) : xs.idxOf x = i := by
  obtain ⟨hlt, rfl⟩ := List.getElem?_eq_some_iff.1 hi
  exact h.idxOf_getElem i hlt

/-- Reading off all positions gives the list. -/
theorem filterMap_getElem?_range (xs : List NodeId) :
    (List.range xs.length).filterMap (fun i ↦ xs[i]?) = xs := by
  induction xs with
  | nil => rfl
  | cons x xs ih =>
    rw [List.length_cons, List.range_succ_eq_map, List.filterMap_cons, List.filterMap_map]
    simpa [Function.comp_def] using ih

/-- **Positions in increasing order, turned into ids**, are the ids for which the positions were
chosen, in the order in which they stand in the list. -/
theorem filterMap_getElem?_eq_filter {xs : List NodeId} {positions : List Nat} {P : NodeId → Bool}
    (hsorted : positions.Pairwise (· < ·)) (hlt : ∀ i ∈ positions, i < xs.length)
    (hP : ∀ i x, xs[i]? = some x → (i ∈ positions ↔ P x = true)) :
    positions.filterMap (fun i ↦ xs[i]?) = xs.filter P := by
  have hpositions : positions = (List.range xs.length).filter (positions.contains ·) := by
    refine hsorted.eq_of_mem_iff (List.pairwise_lt_range.filter _) fun i ↦ ?_
    simpa using fun hi ↦ hlt i hi
  rw [hpositions, List.filterMap_filter]
  refine .trans ?_ (congrArg (List.filter P) (filterMap_getElem?_range xs))
  rw [List.filter_filterMap]
  refine List.filterMap_congr fun i hi ↦ ?_
  obtain ⟨x, hx⟩ : ∃ x, xs[i]? = some x := ⟨_, List.getElem?_eq_getElem (List.mem_range.1 hi)⟩
  have hiff : positions.contains i = P x := by
    rw [Bool.eq_iff_iff, List.contains_iff_mem]
    exact hP i x hx
  rw [hx, hiff, Option.filter_some]

/-! ### The graph of references -/

theorem Graph.ext_edges {ν ε : Type} {g h : Graph ν ε} (hnodes : g.nodes = h.nodes)
    (hedges : g.edges = h.edges) : g = h := by
  cases g
  cases h
  cases hnodes
  cases hedges
  rfl

/-- Some edge leads from the node named `x` to the node named `y`. -/
def Graph.Joins {ε : Type} (g : Graph NodeId ε) (x y : NodeId) : Prop :=
  ∃ i j, g.nodes[i]? = some x ∧ g.nodes[j]? = some y ∧ g.Adj i j

/-- **Acyclicity by names.** If names are distinct, paths of nodes are paths of names. -/
theorem Graph.acyclic_iff_joins {ε : Type} {g : Graph NodeId ε} (hnodup : g.nodes.Nodup) :
    g.Acyclic ↔ ∀ x, ¬ TransGen g.Joins x x := by
  constructor
  · intro hg x hx
    refine hg (g.nodes.idxOf x) (hx.lift (fun y ↦ g.nodes.idxOf y) fun y z hyz ↦ ?_)
    obtain ⟨i, j, hi, hj, hadj⟩ := hyz
    show g.Adj (g.nodes.idxOf y) (g.nodes.idxOf z)
    rwa [idxOf_eq_of_nodup hnodup hi, idxOf_eq_of_nodup hnodup hj]
  · intro hg v hv
    refine hg (g.nodes.getD v "") (hv.lift (fun i ↦ g.nodes.getD i "") fun i j hadj ↦ ?_)
    have hget : ∀ k < g.nodes.length, g.nodes[k]? = some (g.nodes.getD k "") := fun k hk ↦ by
      rw [List.getD_eq_getElem?_getD, List.getElem?_eq_getElem hk, Option.getD_some]
    exact ⟨i, j, hget i hadj.source_lt, hget j hadj.target_lt, hadj⟩

/-- The edges to the node at position `i`, one for each of its references that is known. -/
def referenceEdges (ids : List NodeId) (n : List (NodeId × ReferenceSite) × Nat) :
    List (Edge ReferenceSite) :=
  n.1.filterMap fun r ↦ (ids.idxOf? r.1).map fun j ↦ ⟨j, n.2, r.2⟩

/-- The graph of nodes given by their ids and references: an edge leads to a node from every node to
which it refers. -/
def referenceGraph (ns : List (NodeId × List (NodeId × ReferenceSite))) :
    Graph NodeId ReferenceSite where
  nodes := ns.map Prod.fst
  edges := (ns.map Prod.snd).zipIdx.flatMap (referenceEdges (ns.map Prod.fst))
  ends e he := by
    obtain ⟨n, hn, he⟩ := List.mem_flatMap.1 he
    obtain ⟨r, -, he⟩ := List.mem_filterMap.1 he
    obtain ⟨j, hj, rfl⟩ := Option.map_eq_some_iff.1 he
    obtain ⟨hj, -⟩ := List.idxOf?_eq_some_iff.1 hj
    have hi := List.snd_lt_of_mem_zipIdx hn
    simp only [List.length_map, Nat.add_zero] at hj hi ⊢
    exact ⟨hj, hi⟩

/-- **There is an edge exactly where there is a reference.** -/
theorem adj_referenceGraph_iff {ns : List (NodeId × List (NodeId × ReferenceSite))}
    (hnodup : (ns.map Prod.fst).Nodup) {i j : Nat} {x : NodeId}
    {n : NodeId × List (NodeId × ReferenceSite)} (hx : (ns.map Prod.fst)[j]? = some x)
    (hn : ns[i]? = some n) : (referenceGraph ns).Adj j i ↔ x ∈ n.2.map Prod.fst := by
  have hi : (ns.map Prod.snd)[i]? = some n.2 := by rw [List.getElem?_map, hn, Option.map_some]
  simp only [Graph.Adj, referenceGraph, List.mem_flatMap, referenceEdges, List.mem_filterMap,
    Option.map_eq_some_iff, idxOf?_eq_some_iff_of_nodup hnodup, List.mem_map]
  constructor
  · rintro ⟨e, ⟨m, hm, r, hr, j', hj', rfl⟩, rfl, rfl⟩
    rw [List.mem_zipIdx_iff_getElem?, hi] at hm
    rw [Option.some.inj hm]
    exact ⟨r, hr, Option.some.inj (hj'.symm.trans hx)⟩
  · rintro ⟨r, hr, rfl⟩
    exact ⟨⟨j, i, r.2⟩, ⟨(n.2, i), List.mem_zipIdx_iff_getElem?.2 hi, r, hr, j, hx, rfl⟩, rfl, rfl⟩

/-! ### Building the graph -/

/-- **What every step of a fold preserves, the fold preserves.** -/
theorem foldlM_preserves {α ε σ : Type} {f : σ → α → Except ε σ} {P : σ → Prop}
    (hstep : ∀ s a s', P s → f s a = .ok s' → P s') {as : List α} {s s' : σ} (hs : P s)
    (h : as.foldlM f s = .ok s') : P s' := by
  induction as generalizing s with
  | nil =>
    cases h
    exact hs
  | cons a as ih =>
    rw [List.foldlM_cons, bind_eq_ok_iff] at h
    obtain ⟨s₁, hs₁, hrest⟩ := h
    exact ih (hstep s a s₁ hs hs₁) hrest

namespace Pipeline

variable {p : Pipeline}

/-- Adding nodes puts them behind the others. -/
theorem nodes_foldl_addNode (xs : List NodeId) (g : Graph NodeId ReferenceSite) :
    (xs.foldl (fun g x ↦ g.addNode x) g).nodes = g.nodes ++ xs := by
  induction xs generalizing g with
  | nil => simp
  | cons x xs ih => rw [List.foldl_cons, ih, Graph.addNode, List.append_assoc]; rfl

theorem edges_foldl_addNode (xs : List NodeId) (g : Graph NodeId ReferenceSite) :
    (xs.foldl (fun g x ↦ g.addNode x) g).edges = g.edges := by
  induction xs generalizing g with
  | nil => rfl
  | cons x xs ih => rw [List.foldl_cons, ih, Graph.addNode]

theorem nodes_nodeGraph (p : Pipeline) : p.nodeGraph.nodes = p.ids := by
  rw [nodeGraph_eq, nodes_foldl_addNode]
  rfl

theorem edges_nodeGraph (p : Pipeline) : p.nodeGraph.edges = [] := by
  rw [nodeGraph_eq, edges_foldl_addNode]
  rfl

/-- In an indexed pipeline no position lies beyond the nodes. -/
theorem Indexed.position?_eq_some (h : p.Indexed) {x : NodeId} {i : Nat}
    (hi : p.ids[i]? = some x) : p.position? x = some i := by
  have hlt : i < p.nodes.length := by
    simpa [ids] using (List.getElem?_eq_some_iff.1 hi).1
  rw [position?, (h x i).2 hi, Option.filter_some, if_pos (decide_eq_true hlt)]

/-- Adding the known references of one node adds their edges. -/
theorem addReferences_eq (h : p.Indexed) {g : Graph NodeId ReferenceSite} (hg : g.nodes = p.ids)
    {n : Node} {i : Nat} (hi : i < p.ids.length) (hknown : ∀ r ∈ n.references, r.1 ∈ p.ids) :
    ∃ g', p.addReferences g (n, i) = .ok g' ∧ g'.nodes = p.ids ∧
      g'.edges = g.edges ++ referenceEdges p.ids (n.references, i) := by
  rw [addReferences, referenceEdges]
  generalize n.references = refs at hknown ⊢
  induction refs generalizing g with
  | nil => exact ⟨g, rfl, hg, by simp⟩
  | cons r refs ih =>
    obtain ⟨x, site⟩ := r
    obtain ⟨j, hj⟩ := List.mem_iff_getElem?.1 (hknown (x, site) List.mem_cons_self)
    have hidx : p.ids.idxOf? x = some j := (idxOf?_eq_some_iff_of_nodup h.nodup).2 hj
    -- The graph has a node for each id, so that the edge can be added.
    have hends : j < g.nodes.length ∧ i < g.nodes.length := by
      rw [hg]
      exact ⟨(List.getElem?_eq_some_iff.1 hj).1, hi⟩
    have hadd : (g.addEdge j i site).nodes = p.ids ∧
        (g.addEdge j i site).edges = g.edges ++ [⟨j, i, site⟩] := by
      rw [Graph.addEdge, dif_pos hends]
      exact ⟨hg, rfl⟩
    obtain ⟨g', hfold, hnodes, hedges⟩ :=
      ih hadd.1 fun r hr ↦ hknown r (List.mem_cons_of_mem _ hr)
    refine ⟨g', ?_, hnodes, ?_⟩
    · rw [List.foldlM_cons]
      simp only [h.position?_eq_some hj]
      exact hfold
    · rw [hedges, hadd.2, List.filterMap_cons, hidx]
      simp

/-- **The graph of a pipeline whose references are all known.** -/
theorem graph_eq_referenceGraph (h : p.Indexed)
    (hknown : ∀ n ∈ p.nodes, ∀ r ∈ n.references, r.1 ∈ p.ids) :
    p.graph = .ok (referenceGraph (p.nodes.map fun n ↦ (n.id, n.references))) := by
  -- The fold adds node by node what `referenceEdges` lists; ids stay as they are.
  have hfold : ∀ (ns : List (Node × Nat)) (g : Graph NodeId ReferenceSite), g.nodes = p.ids →
      (∀ n ∈ ns, n.2 < p.ids.length ∧ ∀ r ∈ n.1.references, r.1 ∈ p.ids) →
      ∃ g', ns.foldlM p.addReferences g = .ok g' ∧ g'.nodes = p.ids ∧
        g'.edges = g.edges ++ ns.flatMap fun n ↦ referenceEdges p.ids (n.1.references, n.2) := by
    intro ns
    induction ns with
    | nil => exact fun g hg _ ↦ ⟨g, rfl, hg, by simp⟩
    | cons n ns ih =>
      intro g hg hns
      obtain ⟨hi, hrefs⟩ := hns n List.mem_cons_self
      obtain ⟨g₁, hadd, hnodes₁, hedges₁⟩ := addReferences_eq h hg hi hrefs
      obtain ⟨g₂, hrest, hnodes₂, hedges₂⟩ :=
        ih g₁ hnodes₁ fun m hm ↦ hns m (List.mem_cons_of_mem _ hm)
      refine ⟨g₂, ?_, hnodes₂, ?_⟩
      · rw [List.foldlM_cons, hadd]
        exact hrest
      · rw [hedges₂, hedges₁, List.flatMap_cons, List.append_assoc]
  obtain ⟨g, hg, hnodes, hedges⟩ := hfold p.nodes.zipIdx p.nodeGraph (nodes_nodeGraph p) <| by
    intro n hn
    refine ⟨?_, hknown n.1 (List.fst_mem_of_mem_zipIdx hn)⟩
    simpa [ids] using List.snd_lt_of_mem_zipIdx hn
  have hids : (p.nodes.map fun n ↦ (n.id, n.references)).map Prod.fst = p.ids := by
    rw [List.map_map]
    rfl
  rw [graph, hg]
  refine congrArg Except.ok (Graph.ext_edges (hnodes.trans hids.symm) ?_)
  have hedges' : (referenceGraph (p.nodes.map fun n ↦ (n.id, n.references))).edges =
      p.nodes.zipIdx.flatMap fun n ↦ referenceEdges p.ids (n.1.references, n.2) := by
    simp only [referenceGraph, hids, List.map_map, List.zipIdx_map, List.flatMap_map]
    rfl
  rw [hedges, edges_nodeGraph, List.nil_append, hedges']

/-- References add no nodes. -/
theorem addReferences_nodes {g g' : Graph NodeId ReferenceSite} {n : Node × Nat}
    (h : p.addReferences g n = .ok g') : g'.nodes = g.nodes := by
  rw [addReferences] at h
  refine foldlM_preserves (P := fun k ↦ k.nodes = g.nodes) (fun k r k' hk hstep ↦ ?_) rfl h
  obtain ⟨x, site⟩ := r
  rcases hx : p.position? x with - | i
  · simp [hx] at hstep
  · simp only [hx, Except.ok.injEq] at hstep
    rw [← hstep, Graph.addEdge]
    split
    · exact hk
    · exact hk

/-- The nodes of the graph are the ids, in declaration order. -/
theorem graph_nodes {g : Graph NodeId ReferenceSite} (h : p.graph = .ok g) : g.nodes = p.ids :=
  foldlM_preserves (P := fun k ↦ k.nodes = p.ids)
    (fun _ _ _ hk hstep ↦ (addReferences_nodes hstep).trans hk) (nodes_nodeGraph p) h

/-! ### Neighbours -/

/-- **A graph is accepted or its first cycle is reported.** -/
theorem acyclicGraph_eq {g : Graph NodeId ReferenceSite} (h : p.graph = .ok g) :
    p.acyclicGraph =
      match g.findCycle with
      | none => .ok g.tabulated
      | some c => .error (.cyclic (idsOf g c)) := by
  simp only [acyclicGraph, h, Graph.finalize, bind, Except.bind]
  rcases g.findCycle with - | c
  · rfl
  · rfl

/-- The graph is accepted if it can be built and is acyclic. -/
theorem acyclicGraph_eq_ok_iff {a : AcyclicGraph NodeId ReferenceSite} :
    p.acyclicGraph = .ok a ↔ ∃ g, p.graph = .ok g ∧ g.Acyclic ∧ a = g.tabulated := by
  rcases hg : p.graph with e | g
  · simp [acyclicGraph, hg, bind, Except.bind]
  · simp only [acyclicGraph_eq hg, Except.ok.injEq, exists_eq_left',
      ← Graph.findCycle_eq_none_iff]
    rcases g.findCycle with - | c
    · simp [eq_comm]
    · simp

theorem mem_idsOf {g : Graph NodeId ReferenceSite} {positions : List Nat} {x : NodeId} :
    x ∈ idsOf g positions ↔ ∃ i ∈ positions, g.nodes[i]? = some x :=
  List.mem_filterMap

/-- Setting neighbours changes no other field of a node. -/
theorem getElem?_setAdjacency {a : AcyclicGraph NodeId ReferenceSite} {i : Nat} :
    (p.setAdjacency a).nodes[i]? = p.nodes[i]?.map fun n ↦
      { n with
        dependencies := idsOf a.graph (a.predecessors i)
        dependents := idsOf a.graph (a.successors i) } := by
  rw [setAdjacency, List.getElem?_map, List.getElem?_zipIdx, Option.map_map]
  simp only [Function.comp_def, Nat.zero_add]

theorem ids_setAdjacency (a : AcyclicGraph NodeId ReferenceSite) : (p.setAdjacency a).ids = p.ids :=
  map_nodes_setAdjacency (fun _ _ _ ↦ rfl) a

/-- Nodes at positions in increasing order are listed as they are in the graph. -/
theorem idsOf_eq_filter {g : Graph NodeId ReferenceSite} (hnodup : g.nodes.Nodup)
    {positions : List Nat} (hsorted : positions.Pairwise (· < ·))
    (hlt : ∀ i ∈ positions, i < g.order) :
    idsOf g positions = g.nodes.filter (idsOf g positions).contains := by
  refine filterMap_getElem?_eq_filter hsorted hlt fun i x hx ↦ ?_
  rw [List.contains_iff_mem, mem_idsOf]
  refine ⟨fun hi ↦ ⟨i, hi, hx⟩, fun ⟨j, hj, hx'⟩ ↦ ?_⟩
  obtain rfl := position_eq hnodup hx hx'
  exact hj

/-! ### Linked pipelines -/

/-- The neighbours of the nodes and the layers are those of a graph on the ids. -/
structure Linked (p : Pipeline) (g : Graph NodeId ReferenceSite) : Prop where
  nodes : g.nodes = p.ids
  neighbours : ∀ (i : Nat) n, p.nodes[i]? = some n →
    n.dependencies = idsOf g (g.tabulated.predecessors i) ∧
      n.dependents = idsOf g (g.tabulated.successors i)
  layers : p.layers = g.tabulated.layers

/-- **A pipeline whose neighbours are set is linked by the graph.** -/
theorem linked_setAdjacency {g : Graph NodeId ReferenceSite} (hg : g.nodes = p.ids) :
    (p.setAdjacency g.tabulated).Linked g := by
  refine ⟨hg.trans (ids_setAdjacency _).symm, fun i n hn ↦ ?_, rfl⟩
  rw [getElem?_setAdjacency] at hn
  obtain ⟨m, -, rfl⟩ := Option.map_eq_some_iff.1 hn
  exact ⟨rfl, rfl⟩

theorem getElem?_ids {i : Nat} {n : Node} (hn : p.nodes[i]? = some n) : p.ids[i]? = some n.id := by
  rw [ids, List.getElem?_map, hn, Option.map_some]

namespace Linked

variable {g : Graph NodeId ReferenceSite} {i : Nat} {n w : Node}

/-- A node depends on the nodes from which an edge leads to it. -/
theorem mem_dependencies (h : p.Linked g) (hn : p.nodes[i]? = some n) {u : NodeId} :
    u ∈ n.dependencies ↔ ∃ j, p.ids[j]? = some u ∧ g.Adj j i := by
  rw [(h.neighbours i n hn).1, mem_idsOf, h.nodes]
  simp only [Graph.mem_predecessors, and_comm]

/-- A node has as dependents the nodes to which an edge leads from it. -/
theorem mem_dependents (h : p.Linked g) (hn : p.nodes[i]? = some n) {u : NodeId} :
    u ∈ n.dependents ↔ ∃ j, p.ids[j]? = some u ∧ g.Adj i j := by
  rw [(h.neighbours i n hn).2, mem_idsOf, h.nodes]
  simp only [Graph.mem_successors, and_comm]

/-- **A node is a dependent of those on which it depends**: both lists are read off one edge. -/
theorem symmetric (h : p.Linked g) (hnodup : p.ids.Nodup) (hn : n ∈ p.nodes) (hw : w ∈ p.nodes) :
    w.id ∈ n.dependents ↔ n.id ∈ w.dependencies := by
  obtain ⟨i, hi⟩ := List.mem_iff_getElem?.1 hn
  obtain ⟨j, hj⟩ := List.mem_iff_getElem?.1 hw
  rw [h.mem_dependents hi, h.mem_dependencies hj]
  constructor
  · rintro ⟨k, hk, hadj⟩
    obtain rfl := position_eq hnodup hk (getElem?_ids hj)
    exact ⟨i, getElem?_ids hi, hadj⟩
  · rintro ⟨k, hk, hadj⟩
    obtain rfl := position_eq hnodup hk (getElem?_ids hi)
    exact ⟨j, getElem?_ids hj, hadj⟩

/-- Dependencies are in the order of nodes. -/
theorem dependencies_eq_filter (h : p.Linked g) (hnodup : p.ids.Nodup) (hn : n ∈ p.nodes) :
    n.dependencies = p.ids.filter n.dependencies.contains := by
  obtain ⟨i, hi⟩ := List.mem_iff_getElem?.1 hn
  rw [(h.neighbours i n hi).1, ← h.nodes]
  exact idsOf_eq_filter (by rwa [h.nodes]) (Graph.pairwise_predecessors i) fun j hj ↦
    (Graph.mem_predecessors.1 hj).source_lt

theorem dependents_eq_filter (h : p.Linked g) (hnodup : p.ids.Nodup) (hn : n ∈ p.nodes) :
    n.dependents = p.ids.filter n.dependents.contains := by
  obtain ⟨i, hi⟩ := List.mem_iff_getElem?.1 hn
  rw [(h.neighbours i n hi).2, ← h.nodes]
  exact idsOf_eq_filter (by rwa [h.nodes]) (Graph.pairwise_successors i) fun j hj ↦
    (Graph.mem_successors.1 hj).target_lt

/-- A neighbour that has the node in its own list passes the check. -/
theorem checkNeighbour_eq_ok (hp : p.Indexed) {neighbours : Node → List NodeId} {id : NodeId}
    (hw : w ∈ p.nodes) (hid : id ∈ neighbours w) (e : CompileError) :
    p.checkNeighbour neighbours id w.id e = .ok () := by
  simp [checkNeighbour, hp.node?_eq_some_iff.2 ⟨hw, rfl⟩, hid]

/-- **Every edge is written on both of its nodes.** -/
theorem checkSymmetry (h : p.Linked g) (hp : p.Indexed) : p.checkSymmetry = .ok () := by
  have hnode : ∀ x ∈ p.ids, ∃ w ∈ p.nodes, w.id = x := fun x hx ↦ List.mem_map.1 hx
  refine forM_eq_ok_iff.2 fun n hn ↦ bind_eq_ok_iff.2 ⟨(), ?_, ?_⟩
  · refine forM_eq_ok_iff.2 fun x hx ↦ ?_
    have hmem : x ∈ p.ids := by
      rw [h.dependencies_eq_filter hp.nodup hn] at hx
      exact List.mem_of_mem_filter hx
    obtain ⟨w, hw, rfl⟩ := hnode x hmem
    exact checkNeighbour_eq_ok hp hw ((h.symmetric hp.nodup hw hn).2 hx) _
  · refine forM_eq_ok_iff.2 fun x hx ↦ ?_
    have hmem : x ∈ p.ids := by
      rw [h.dependents_eq_filter hp.nodup hn] at hx
      exact List.mem_of_mem_filter hx
    obtain ⟨w, hw, rfl⟩ := hnode x hmem
    exact checkNeighbour_eq_ok hp hw ((h.symmetric hp.nodup hn hw).1 hx) _

end Linked

/-- **The check for symmetry passes**, whatever graph on the ids has been written. -/
theorem checkSymmetry_setAdjacency (h : p.Indexed) {g : Graph NodeId ReferenceSite}
    (hg : g.nodes = p.ids) : (p.setAdjacency g.tabulated).checkSymmetry = .ok () :=
  (linked_setAdjacency hg).checkSymmetry (h.congr rfl (ids_setAdjacency _).symm)

end Pipeline
end Pipework
