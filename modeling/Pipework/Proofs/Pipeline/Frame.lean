import Pipework.Compile
import Pipework.Proofs.Correspondence
import Pipework.Proofs.Reports

/-!
# What the stages read and write

Every stage computes something from the pipeline and writes it into fields of its own. What it reads
is named by a *view* of a node: the tuple of the fields that the computation depends on. If two
pipelines have the same index and their nodes look the same in that view, then the computation gives
the same result for both, an error included (`resolved_congr`, `graph_congr`,
`checkDeployment_congr`). What a stage writes is read off the views that it leaves alone.

Together these are the frame conditions of the stages. Nothing about the results of the stages is
needed for them.
-/

namespace Pipework

namespace Pipeline

variable {p q : Pipeline} {α : Type}

/-! ### Ids and the index -/

/-- The ids of the nodes in declaration order. -/
def ids (p : Pipeline) : List NodeId :=
  p.nodes.map (·.id)

/-- An index has, for every id of a list, its position, and nothing else. -/
def Indexes (index : Dict Nat) (ids : List NodeId) : Prop :=
  ∀ x i, index.get? x = some i ↔ ids[i]? = some x

/-- The index has the ids of nodes and no others. -/
theorem Indexes.contains_iff {index : Dict Nat} {ids : List NodeId} (h : Indexes index ids)
    {x : NodeId} : index.contains x = true ↔ x ∈ ids := by
  rw [Dict.contains, Option.isSome_iff_exists, List.mem_iff_getElem?]
  exact exists_congr fun i ↦ h x i

/-- The index has, for every id, the position of the node with that id. -/
def Indexed (p : Pipeline) : Prop :=
  Indexes p.index p.ids

namespace Indexed

/-- Whether a pipeline is indexed depends on its ids and its index. -/
theorem congr (h : p.Indexed) (hindex : p.index = q.index) (hids : p.ids = q.ids) : q.Indexed := by
  intro x i
  rw [← hindex, ← hids]
  exact h x i

/-- No two nodes have the same id, since the index can only hold one position for it. -/
theorem nodup (h : p.Indexed) : p.ids.Nodup := by
  refine List.pairwise_iff_getElem.2 fun i j hi hj hij heq ↦ ?_
  have hposition : some i = some j := by
    rw [← (h p.ids[i] i).2 (List.getElem?_eq_getElem hi), heq,
      (h p.ids[j] j).2 (List.getElem?_eq_getElem hj)]
  exact absurd (Option.some.inj hposition) (Nat.ne_of_lt hij)

/-- **A node is found by its id.** -/
theorem node?_eq_some_iff (h : p.Indexed) {x : NodeId} {n : Node} :
    p.node? x = some n ↔ n ∈ p.nodes ∧ n.id = x := by
  simp only [node?, Option.bind_eq_some_iff, h x, ids, List.getElem?_map, Option.map_eq_some_iff,
    List.mem_iff_getElem?]
  constructor
  · rintro ⟨i, ⟨n', hn', hx⟩, hn⟩
    obtain rfl := Option.some.inj (hn.symm.trans hn')
    exact ⟨⟨i, hn⟩, hx⟩
  · rintro ⟨⟨i, hn⟩, hx⟩
    exact ⟨i, ⟨n, hn, hx⟩, hn⟩

end Indexed

/-! ### Views -/

/-- Two pipelines have the same index and look the same in a view of their nodes. -/
structure Agree (view : Node → α) (p q : Pipeline) : Prop where
  index : p.index = q.index
  nodes : p.nodes.map view = q.nodes.map view

/-- Nodes with the same id look the same in pipelines that agree. -/
theorem Agree.node? {view : Node → α} (h : Agree view p q) (x : NodeId) :
    (p.node? x).map view = (q.node? x).map view := by
  rw [Pipeline.node?, Pipeline.node?, h.index]
  rcases q.index.get? x with - | i
  · rfl
  · simp only [Option.bind_some, ← List.getElem?_map, h.nodes]

/-- A view that is computed from another one tells less. -/
theorem Agree.factor {β : Type} {view : Node → α} (h : Agree view p q) (f : α → β) :
    Agree (fun n ↦ f (view n)) p q := by
  refine ⟨h.index, ?_⟩
  have hnodes := congrArg (List.map f) h.nodes
  rwa [List.map_map, List.map_map] at hnodes

/-- What the queries of channels are made of. -/
def Node.channelView (n : Node) :
    NodeId × Dict Declaration.Input × Dict ArtifactType × List Document.Context :=
  (n.id, n.declaredInputs, n.outputs, n.contexts)

/-- What the edges of the graph are made of. -/
def Node.graphView (n : Node) : NodeId × Dict Document.Input × List NodeId :=
  (n.id, n.inputs, n.after)

/-- What a deployment is checked against. -/
def Node.executorView (n : Node) : NodeId × NodeKind :=
  (n.id, n.kind)

/-! ### What the stages read -/

/-- Channels are resolved by what producers have as ids, contexts and outputs. -/
theorem resolveChannel_congr (h : Agree Node.channelView p q) :
    p.resolveChannel = q.resolveChannel := by
  funext id key c
  have hnode := h.node? c.producer
  rw [resolveChannel, resolveChannel]
  rcases hp : p.node? c.producer with - | n
  · rw [hp] at hnode
    rw [Option.map_eq_none_iff.1 hnode.symm]
  · rw [hp] at hnode
    obtain ⟨m, hm, hview⟩ := Option.map_eq_some_iff.1 hnode.symm
    simp only [Node.channelView, Prod.mk.injEq] at hview
    rw [hm]
    simp only [hview]

/-- The inputs of all nodes, as the channel stage computes them. -/
def resolved (p : Pipeline) : Except CompileError (List (Dict Document.Input)) :=
  p.nodes.mapM p.resolveInputs

/-- **The channel stage** reads ids, declared inputs, outputs and contexts. -/
theorem resolved_congr (h : Agree Node.channelView p q) : p.resolved = q.resolved := by
  refine mapM_congr ((forall₂_of_map_eq h.nodes).imp fun n m hview ↦ ?_)
  simp only [Node.channelView, Prod.mk.injEq] at hview
  rw [resolveInputs, resolveInputs, hview.1, hview.2.1]
  congr 1
  funext key input
  rw [resolveInput, resolveInput, resolveChannel_congr h]

/-- The graph starts with a node for each id. -/
theorem nodeGraph_eq (p : Pipeline) :
    p.nodeGraph = p.ids.foldl (fun g x ↦ g.addNode x) Graph.empty := by
  rw [nodeGraph, ids, List.foldl_map]

theorem position?_congr (hindex : p.index = q.index) (hids : p.ids = q.ids) :
    p.position? = q.position? := by
  have hlength : p.nodes.length = q.nodes.length := by
    simpa [ids] using congrArg List.length hids
  funext id
  rw [position?, position?, hindex, hlength]

/-- **The graph** is made of ids, inputs and `after` lists. -/
theorem graph_congr (h : Agree Node.graphView p q) : p.graph = q.graph := by
  have hids : p.ids = q.ids := by
    have := congrArg (List.map Prod.fst) h.nodes
    simpa [List.map_map, Function.comp_def, Node.graphView, ids] using this
  rw [graph, graph, nodeGraph_eq, nodeGraph_eq, hids]
  refine foldlM_congr ((forall₂_zipIdx (forall₂_of_map_eq h.nodes) 0).imp fun n m hview g ↦ ?_) _
  obtain ⟨hview, hposition⟩ := hview
  simp only [Node.graphView, Prod.mk.injEq] at hview
  rw [addReferences, addReferences, Node.references, Node.references,
    position?_congr h.index hids, hview.1, hview.2.1, hview.2.2, hposition]

/-- The graph depends on ids and references. -/
theorem acyclicGraph_congr (h : Agree Node.graphView p q) : p.acyclicGraph = q.acyclicGraph := by
  rw [acyclicGraph, acyclicGraph, graph_congr h]

/-- **The check of a deployment** reads ids and kinds. -/
theorem checkDeployment_congr (h : Agree Node.executorView p q) (d : Deployment) :
    p.checkDeployment d = q.checkDeployment d := by
  have hnodes : p.nodes.forM (checkExecutor d) = q.nodes.forM (checkExecutor d) := by
    refine forM_congr ((forall₂_of_map_eq h.nodes).imp fun n m hview ↦ ?_)
    simp only [Node.executorView, Prod.mk.injEq] at hview
    rw [checkExecutor, checkExecutor, hview.1, hview.2]
  rw [checkDeployment, checkDeployment, checkDeployed, checkDeployed, h.index, hnodes]

/-! ### What the stages write -/

/-- Contexts are written into every node and nothing else is. -/
theorem map_nodes_deriveContexts {view : Node → α}
    (h : ∀ n cs, view { n with contexts := cs } = view n) :
    p.deriveContexts.nodes.map view = p.nodes.map view := by
  simp [deriveContexts, h]

/-- Inputs are written into every node and nothing else is. -/
theorem map_setInputs {view : Node → α} (h : ∀ n is, view { n with inputs := is } = view n)
    (ns : List Node) (is : List (Dict Document.Input)) :
    (setInputs ns is).map view = ns.map view := by
  induction ns generalizing is with
  | nil => rfl
  | cons n ns ih =>
    rcases is with - | ⟨i, is⟩
    · rfl
    · rw [setInputs, List.map_cons, List.map_cons, h, ih]

theorem map_inputs_setInputs {ns : List Node} {is : List (Dict Document.Input)}
    (h : is.length = ns.length) : (setInputs ns is).map (·.inputs) = is := by
  induction ns generalizing is with
  | nil =>
    rw [List.length_eq_zero_iff.1 h]
    rfl
  | cons n ns ih =>
    rcases is with - | ⟨i, is⟩
    · cases h
    · rw [setInputs, List.map_cons, ih (Nat.succ.inj h)]

/-- Neighbours are written into every node and nothing else is. -/
theorem map_nodes_setAdjacency {view : Node → α}
    (h : ∀ n ds es, view { n with dependencies := ds, dependents := es } = view n)
    (g : AcyclicGraph NodeId ReferenceSite) :
    (p.setAdjacency g).nodes.map view = p.nodes.map view := by
  have hfst : p.nodes.zipIdx.map (fun n ↦ view n.1) = p.nodes.map view := by
    rw [← Function.comp_def, ← List.map_map, List.zipIdx_map_fst]
  simpa only [setAdjacency, List.map_map, Function.comp_def, h] using hfst

end Pipeline
end Pipework
