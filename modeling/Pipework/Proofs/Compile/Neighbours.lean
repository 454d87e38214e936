import Pipework.Proofs.Pipeline.Declared

/-!
# Neighbours and layers of a compiled pipeline

A compiled node lists the nodes to which it refers and the nodes that refer to it, in declaration
order and each once, however often and in whatever way they refer to each other
(`neighbours_of_compile`). The layers hold every node once; a node comes after all nodes to which it
refers, and as early as that allows.

All of this is read off the graph of the declaration. It has positions for nodes, while the document
has ids. A settled pipeline is linked to that graph (`linked_of_settled`), and what is known of
linked pipelines goes from one to the other.
-/

namespace Pipework

namespace Pipeline

variable {d : Declaration} {options : CompileOptions} {m : Deployment} {p : Pipeline}

/-! ### Positions and ids -/

/-- A settled pipeline is linked to the graph of the declaration, which is acyclic. -/
theorem linked_of_settled (h : Declared d options p) (hs : p.Settled m) :
    d.graph.Acyclic ∧ p.Linked d.graph := by
  obtain ⟨a, ha, hself⟩ := (settled_adjacency_iff h.indexed).1 hs.adjacency
  obtain ⟨g, hg, hacyclic, rfl⟩ := acyclicGraph_eq_ok_iff.1 ha
  obtain rfl : d.graph = g := Except.ok.inj ((graph_eq h hs.channels).symm.trans hg)
  refine ⟨hacyclic, ?_⟩
  rw [hself]
  exact linked_setAdjacency (graph_nodes hg)

/-- A node depends on the nodes from which the graph has an edge to it. -/
theorem mem_dependencies_iff (h : Declared d options p) (hs : p.Settled m) {i : Nat} {n : Node}
    (hn : p.nodes[i]? = some n) {u : NodeId} :
    u ∈ n.dependencies ↔ ∃ j, d.ids[j]? = some u ∧ d.graph.Adj j i := by
  rw [← h.ids]
  exact (linked_of_settled h hs).2.mem_dependencies hn

/-! ### Neighbours -/

theorem nodup_ids (h : Declared d options p) : d.ids.Nodup := by
  rw [← h.ids]
  exact h.indexed.nodup

theorem getElem?_declared_ids (h : Declared d options p) {i : Nat} {n : Node}
    (hn : p.nodes[i]? = some n) : d.ids[i]? = some n.id := by
  rw [← h.ids]
  exact getElem?_ids hn

/-- **Dependencies are the nodes to which a node refers.** -/
theorem mem_dependencies_iff_refersTo (h : Declared d options p) (hs : p.Settled m) {n : Node}
    (hn : n ∈ p.nodes) {c : Declaration.Node} (hc : n.DeclaredAs c) (hmem : c ∈ d.nodes)
    {u : NodeId} : u ∈ n.dependencies ↔ c.RefersTo u := by
  obtain ⟨i, hi⟩ := List.mem_iff_getElem?.1 hn
  obtain ⟨k, hk⟩ := List.mem_iff_getElem?.1 hmem
  have hid : d.ids[k]? = some n.id := by
    rw [Declaration.ids, List.getElem?_map, hk, Option.map_some, hc.id]
  obtain rfl := position_eq (nodup_ids h) hid (getElem?_declared_ids h hi)
  rw [mem_dependencies_iff h hs hi]
  constructor
  · rintro ⟨j, hj, hadj⟩
    exact (Declaration.adj_graph_iff (nodup_ids h) hj hk).1 hadj
  · intro hu
    obtain ⟨j, hj⟩ := List.mem_iff_getElem?.1 (h.known c hmem u hu)
    exact ⟨j, hj, (Declaration.adj_graph_iff (nodup_ids h) hj hk).2 hu⟩

/-- Dependencies are listed in the order of nodes and not in that of references. -/
theorem dependencies_eq_filter (h : Declared d options p) (hs : p.Settled m) {n : Node}
    (hn : n ∈ p.nodes) {c : Declaration.Node} (hc : n.DeclaredAs c) (hmem : c ∈ d.nodes) :
    n.dependencies = d.ids.filter fun u ↦ c.RefersTo u := by
  rw [(linked_of_settled h hs).2.dependencies_eq_filter h.indexed.nodup hn, h.ids]
  refine List.filter_congr fun u _ ↦ ?_
  rw [Bool.eq_iff_iff, List.contains_iff_mem, decide_eq_true_iff]
  exact mem_dependencies_iff_refersTo h hs hn hc hmem

/-- Dependents are listed in the order of nodes, too. -/
theorem dependents_eq_filter (h : Declared d options p) (hs : p.Settled m) {n : Node}
    (hn : n ∈ p.nodes) :
    n.dependents = (p.nodes.filter fun w ↦ n.id ∈ w.dependencies).map (·.id) := by
  have hlinked := (linked_of_settled h hs).2
  rw [hlinked.dependents_eq_filter h.indexed.nodup hn, ids, List.filter_map]
  congr 1
  refine List.filter_congr fun w hw ↦ ?_
  rw [Function.comp_apply, Bool.eq_iff_iff, List.contains_iff_mem, decide_eq_true_iff]
  exact hlinked.symmetric h.indexed.nodup hn hw

/-! ### Layers -/

/-- The layers that are kept are those of the declared graph. -/
theorem layerIds_eq (h : Declared d options p) (hs : p.Settled m) :
    p.layerIds = d.graph.tabulated.layers.map (idsOf d.graph) := by
  rw [layerIds, (linked_of_settled h hs).2.layers]
  refine List.map_congr_left fun layer _ ↦ List.filterMap_congr fun i _ ↦ ?_
  rw [d.nodes_graph, ← h.ids, ids, List.getElem?_map]

/-- Every node is in one layer. -/
theorem perm_flatten_layerIds (h : Declared d options p) (hs : p.Settled m) :
    p.layerIds.flatten.Perm d.ids := by
  have hflatten : p.layerIds.flatten = idsOf d.graph d.graph.tabulated.layers.flatten := by
    rw [layerIds_eq h hs, idsOf, List.filterMap_flatten]
    rfl
  rw [hflatten, ← filterMap_getElem?_range d.ids, ← d.nodes_graph]
  exact (Graph.perm_flatten_layers (linked_of_settled h hs).1).filterMap _

end Pipeline

/-! ### The compiled document -/

/-- What a document says about the neighbours of a declared node. -/
structure Declaration.Neighbours (d : Declaration) (document : Document) (c : Declaration.Node)
    (n : Document.Node) : Prop where
  id : n.id = c.id
  dependencies : n.dependencies = d.ids.filter fun u ↦ c.RefersTo u
  nodup_dependencies : n.dependencies.Nodup
  dependents : n.dependents =
    (document.nodes.filter fun w ↦ n.id ∈ w.dependencies).map (·.id)
  nodup_dependents : n.dependents.Nodup
  symmetric : ∀ w ∈ document.nodes, n.id ∈ w.dependencies ↔ w.id ∈ n.dependents

/-- Layers of ids that follow the dependencies of a document. -/
structure Document.Layering (document : Document) (layers : List (List NodeId)) : Prop where
  perm : layers.flatten.Perm (document.nodes.map (·.id))
  ne_nil : ∀ layer ∈ layers, layer ≠ []
  ordered : ∀ layer ∈ layers, layer.Sublist (document.nodes.map (·.id))
  earlier : ∀ (k : Nat) layer, layers[k]? = some layer → ∀ n ∈ document.nodes, n.id ∈ layer →
    ∀ u ∈ n.dependencies, ∃ j < k, ∃ before, layers[j]? = some before ∧ u ∈ before
  close : ∀ (k : Nat) layer, layers[k + 1]? = some layer → ∀ n ∈ document.nodes, n.id ∈ layer →
    ∃ u ∈ n.dependencies, ∃ before, layers[k]? = some before ∧ u ∈ before

namespace Pipeline

variable {d : Declaration} {options : CompileOptions} {m : Deployment} {p : Pipeline}

theorem map_id_toDocument (p : Pipeline) : p.toDocument.nodes.map (·.id) = p.ids := by
  rw [toDocument, List.map_map]
  rfl

/-- **Every node has the neighbours that it is declared with.** -/
theorem neighbours_toDocument (h : Declared d options p) (hs : p.Settled m) :
    List.Forall₂ (d.Neighbours p.toDocument) d.nodes p.toDocument.nodes := by
  rw [toDocument, List.forall₂_map_right_iff]
  refine (forall₂_mem h.nodes).imp fun c n ⟨hmem, hn, hc⟩ ↦ ?_
  have hdependencies := dependencies_eq_filter h hs hn hc hmem
  have hdependents := dependents_eq_filter h hs hn
  refine ⟨hc.id, hdependencies, ?_, ?_, ?_, ?_⟩
  · show n.dependencies.Nodup
    rw [hdependencies]
    exact (nodup_ids h).filter _
  · show n.dependents = _
    rw [hdependents, List.filter_map, List.map_map]
    rfl
  · show n.dependents.Nodup
    rw [hdependents]
    exact h.indexed.nodup.sublist (List.filter_sublist.map _)
  · intro w hw
    obtain ⟨w', hw', rfl⟩ := List.mem_map.1 hw
    exact ((linked_of_settled h hs).2.symmetric h.indexed.nodup hn hw').symm

/-- A node whose id is in a layer of ids has its position in the layer of positions. -/
theorem exists_position {layers : List (List Nat)} (h : Declared d options p) {k : Nat}
    {layer : List NodeId} (hk : (layers.map (idsOf d.graph))[k]? = some layer) {n : Node}
    (hn : n ∈ p.nodes) (hid : n.id ∈ layer) :
    ∃ l v, layers[k]? = some l ∧ v ∈ l ∧ p.nodes[v]? = some n := by
  rw [List.getElem?_map] at hk
  obtain ⟨l, hl, rfl⟩ := Option.map_eq_some_iff.1 hk
  obtain ⟨v, hv, hget⟩ := mem_idsOf.1 hid
  obtain ⟨i, hi⟩ := List.mem_iff_getElem?.1 hn
  rw [d.nodes_graph] at hget
  obtain rfl := position_eq (nodup_ids h) hget (getElem?_declared_ids h hi)
  exact ⟨l, v, hl, hv, hi⟩

/-- **The layers are those of the dependencies**: a node comes right after the last one that it
needs. -/
theorem layering_toDocument (h : Declared d options p) (hs : p.Settled m) :
    p.toDocument.Layering p.layerIds := by
  have hlayered := Graph.layered_layers (linked_of_settled h hs).1
  have hids : p.toDocument.nodes.map (·.id) = d.graph.nodes :=
    (map_id_toDocument p).trans (h.ids.trans d.nodes_graph.symm)
  have hnodup : d.graph.nodes.Nodup := by
    rw [d.nodes_graph]
    exact nodup_ids h
  refine ⟨?_, ?_, ?_, ?_, ?_⟩
  · rw [hids, d.nodes_graph]
    exact perm_flatten_layerIds h hs
  -- The other facts are those of the layers of positions, read through the ids.
  all_goals rw [layerIds_eq h hs]
  · intro layer hlayer
    obtain ⟨l, hl, rfl⟩ := List.mem_map.1 hlayer
    obtain ⟨v, hv⟩ := List.exists_mem_of_ne_nil l (hlayered.layer_ne_nil l hl)
    exact List.ne_nil_of_mem
      (mem_idsOf.2 ⟨v, hv, List.getElem?_eq_getElem (hlayered.lt_order l hl v hv)⟩)
  · intro layer hlayer
    obtain ⟨l, hl, rfl⟩ := List.mem_map.1 hlayer
    rw [hids, idsOf_eq_filter hnodup (hlayered.pairwise_layer l hl) (hlayered.lt_order l hl)]
    exact List.filter_sublist
  · intro k layer hk n' hn' hid u hu
    obtain ⟨n, hn, rfl⟩ := List.mem_map.1 hn'
    obtain ⟨l, v, hl, hv, hnode⟩ := exists_position h hk hn hid
    obtain ⟨i, hi, hadj⟩ := (mem_dependencies_iff h hs hnode).1 hu
    obtain hdone | ⟨j, hj, before, hbefore, hmem⟩ := hlayered.exists_lt_of_adj hl hv hadj
    · cases hdone
    · refine ⟨j, hj, idsOf d.graph before, ?_, mem_idsOf.2 ⟨i, hmem, ?_⟩⟩
      · rw [List.getElem?_map, hbefore, Option.map_some]
      · rwa [d.nodes_graph]
  · intro k layer hk n' hn' hid
    obtain ⟨n, hn, rfl⟩ := List.mem_map.1 hn'
    obtain ⟨l, v, hl, hv, hnode⟩ := exists_position h hk hn hid
    obtain ⟨before, i, hbefore, hmem, hadj⟩ := hlayered.exists_adj_of_succ hl hv
    obtain ⟨u, hu⟩ : ∃ u, d.graph.nodes[i]? = some u :=
      ⟨_, List.getElem?_eq_getElem hadj.source_lt⟩
    refine ⟨u, (mem_dependencies_iff h hs hnode).2 ⟨i, ?_, hadj⟩, idsOf d.graph before, ?_,
      mem_idsOf.2 ⟨i, hmem, hu⟩⟩
    · rw [← d.nodes_graph, hu]
    · rw [List.getElem?_map, hbefore, Option.map_some]

end Pipeline

/-- **Neighbours and layers of a compiled pipeline.** The nodes of the document are the declared
ones in their order; each lists the nodes to which it refers, and those that list it, in declaration
order and once; and the layers follow these lists. -/
theorem Declaration.neighbours_of_compile {d : Declaration} {m : Deployment}
    {options : CompileOptions} {report : CompileReport} (h : d.compile m options = .ok report) :
    d.ids.Nodup ∧ report.document.nodes.map (·.id) = d.ids ∧
      List.Forall₂ (d.Neighbours report.document) d.nodes report.document.nodes ∧
      report.document.Layering report.layers := by
  obtain ⟨p, hp, hs, rfl⟩ := Pipeline.exists_settled_of_compile h
  exact ⟨Pipeline.nodup_ids hp, (Pipeline.map_id_toDocument p).trans hp.ids,
    Pipeline.neighbours_toDocument hp hs, Pipeline.layering_toDocument hp hs⟩

/-- The three nodes of the relay form a chain. -/
theorem neighbours_of_compile_relay : ∃ report, Declaration.relay.compile .relay {} = .ok report ∧
    report.layers = [["source"], ["copy"], ["sink"]] ∧
    List.Forall₂ (Declaration.relay.Neighbours report.document) Declaration.relay.nodes
      report.document.nodes := by
  have h := eq_ok_get_of_isSome isSome_compile_relay
  exact ⟨_, h, by decide +kernel, (Declaration.neighbours_of_compile h).2.2.1⟩

end Pipework
