import Pipework.Proofs.Compile.Neighbours

/-!
# The result of a compilation

What a declaration is compiled to is said here in terms of the declaration alone, without the
pipeline that is built on the way (`outcome_of_compile`). Results of different declarations can then
be compared:

* `Declaration.Compiled` relates a node of the document to its declaration. Apart from neighbours it
  depends on the other nodes only through the outputs and contexts of those that are read, which
  more nodes or another order do not change (`Compiled.eq_of_subset`).
* `layerOf` is the number of the layer of a node. It is 0 for a node without dependencies, and
  otherwise one more than the largest among its dependencies (`Layering.nextLayer`). Hence the
  dependencies determine it (`Layering.layerOf_eq`).
-/

namespace Pipework

/-! ### Compiled nodes -/

namespace Declaration

variable {d d' : Declaration} {options : CompileOptions}

/-- All contexts of a declared node. -/
def contextsOf (d : Declaration) (options : CompileOptions) (c : Node) : List Document.Context :=
  canonicalContexts d.id (.text options.runParameter) c.id ++
    c.contexts.map Pipeline.declaredContext

/-- The query of a channel: for an output of a declared node, under the contexts of that node. -/
def Query (d : Declaration) (options : CompileOptions) (c : Channel) (q : Document.Channel) :
    Prop :=
  ∃ producer ∈ d.nodes, producer.id = c.producer ∧
    ∃ type, producer.outputs.get? c.output = some type ∧
      q = ⟨c.producer, d.contextsOf options producer, type.ref, c.output⟩

/-- The queries of an input. The id of the node and the key of the input stand in errors only. -/
structure Queries (d : Declaration) (options : CompileOptions) (id : NodeId) (key : InputKey)
    (input : Input) (q : Document.Input) : Prop where
  channels : List.Forall₂ (d.Query options) input.channels q.channels
  resolver : Pipeline.resolveSteps id key 0 input.resolver = .ok q.resolver
  minCount : q.minCount = input.minCount

/-- What a declared node is compiled to. -/
structure Compiled (d : Declaration) (options : CompileOptions) (c : Node) (n : Document.Node) :
    Prop where
  id : n.id = c.id
  type : n.type = c.type
  contexts : n.contexts = d.contextsOf options c
  inputs : List.Forall₂ (fun e e' ↦ e'.1 = e.1 ∧ d.Queries options c.id e.1 e.2 e'.2)
    c.inputs.entries n.inputs.entries
  outputs : n.outputs = c.outputs
  parameters : c.parameters.traverse (Pipeline.parameterValue c.id) = .ok n.parameters
  dependencies : n.dependencies = d.ids.filter fun u ↦ c.RefersTo u
  dependents : n.dependents = (d.nodes.filter fun w ↦ w.RefersTo c.id).map (·.id)
  options : n.options = ⟨c.enableCache, c.maxRetries⟩

/-- A query is not changed by further nodes. -/
theorem Query.mono (hid : d'.id = d.id) (hsubset : d.nodes ⊆ d'.nodes) {c : Channel}
    {q : Document.Channel} (h : d.Query options c q) : d'.Query options c q := by
  obtain ⟨producer, hproducer, hname, type, htype, rfl⟩ := h
  refine ⟨producer, hsubset hproducer, hname, type, htype, ?_⟩
  rw [contextsOf, contextsOf, hid]

/-- A query is determined by its channel, since no other node has the id of the producer. -/
theorem Query.unique (hnodup : d.ids.Nodup) {c : Channel} {q q' : Document.Channel}
    (h : d.Query options c q) (h' : d.Query options c q') : q = q' := by
  obtain ⟨producer, hproducer, hname, type, htype, rfl⟩ := h
  obtain ⟨producer', hproducer', hname', type', htype', rfl⟩ := h'
  obtain rfl : producer = producer' :=
    List.inj_on_of_nodup_map hnodup hproducer hproducer' (hname.trans hname'.symm)
  rw [Option.some.inj (htype.symm.trans htype')]

/-- The queries of an input are not changed by further nodes. -/
theorem Queries.mono (hid : d'.id = d.id) (hsubset : d.nodes ⊆ d'.nodes) {id : NodeId}
    {key : InputKey} {input : Input} {q : Document.Input}
    (h : d.Queries options id key input q) : d'.Queries options id key input q :=
  ⟨h.channels.imp fun _ _ ↦ .mono hid hsubset, h.resolver, h.minCount⟩

/-- The queries of an input are determined. -/
theorem Queries.unique (hnodup : d.ids.Nodup) {id : NodeId} {key : InputKey} {input : Input}
    {q q' : Document.Input} (h : d.Queries options id key input q)
    (h' : d.Queries options id key input q') : q = q' := by
  have hchannels : q.channels = q'.channels :=
    List.right_unique_forall₂' (R := d.Query options) (fun _ _ _ ↦ Query.unique hnodup) h.channels
      h'.channels
  have hresolver : q.resolver = q'.resolver := Except.ok.inj (h.resolver.symm.trans h'.resolver)
  have hcount : q.minCount = q'.minCount := h.minCount.trans h'.minCount.symm
  cases q
  cases q'
  simp_all

/-- **Other nodes do not matter** for what a node is compiled to, its neighbours apart. -/
theorem Compiled.eq_of_subset (hid : d'.id = d.id) (hsubset : d.nodes ⊆ d'.nodes)
    (hnodup : d'.ids.Nodup) {c : Node} {n n' : Document.Node} (h : d.Compiled options c n)
    (h' : d'.Compiled options c n') :
    n' = { n with dependencies := n'.dependencies, dependents := n'.dependents } := by
  have hcontexts : n'.contexts = n.contexts := by
    rw [h'.contexts, h.contexts, contextsOf, contextsOf, hid]
  have hparameters : n'.parameters = n.parameters :=
    Except.ok.inj (h'.parameters.symm.trans h.parameters)
  have hinputs : n'.inputs = n.inputs := by
    -- In both documents the entries have the queries of the larger declaration.
    refine Dict.ext_entries (List.right_unique_forall₂' (fun e e₁ e₂ he₁ he₂ ↦ ?_) h'.inputs
      (h.inputs.imp fun e e' he ↦ ⟨he.1, he.2.mono hid hsubset⟩))
    exact Prod.ext (he₁.1.trans he₂.1.symm) (he₁.2.unique hnodup he₂.2)
  have hid' := h'.id.trans h.id.symm
  have htype := h'.type.trans h.type.symm
  have houtputs := h'.outputs.trans h.outputs.symm
  have hoptions := h'.options.trans h.options.symm
  cases n
  cases n'
  simp_all

/-- The dependencies of a node are the nodes that it refers to, if these are declared. -/
theorem Compiled.mem_dependencies_iff {c : Node} {n : Document.Node} (h : d.Compiled options c n)
    (hknown : ∀ x, c.RefersTo x → x ∈ d.ids) {u : NodeId} :
    u ∈ n.dependencies ↔ c.RefersTo u := by
  rw [h.dependencies, List.mem_filter, decide_eq_true_iff]
  exact and_iff_right_of_imp (hknown u)

end Declaration

/-! ### The result -/

/-- The sizes of a document. -/
def Document.counts (document : Document) : CompileCounts :=
  let inputs := document.nodes.flatMap fun n ↦ n.inputs.values
  { nodes := document.nodes.length
    edges := (document.nodes.flatMap fun n ↦ n.dependencies).length
    channels := (inputs.flatMap fun i ↦ i.channels).length
    resolverSteps := (inputs.flatMap fun i ↦ i.resolver).length
    deploymentEntries := document.deployment.size }

/-- What a declaration is compiled to. -/
structure Declaration.Outcome (d : Declaration) (m : Deployment) (options : CompileOptions)
    (report : CompileReport) : Prop where
  nodup : d.ids.Nodup
  known : ∀ c ∈ d.nodes, ∀ x, c.RefersTo x → x ∈ d.ids
  version : report.document.version = Document.currentVersion
  id : report.document.id = d.id
  runtime : report.document.runtime =
    ⟨⟨options.rootParameter, .string, d.root.map .string⟩, .text options.runParameter⟩
  mode : report.document.mode = d.mode
  deployment : report.document.deployment = m
  nodes : List.Forall₂ (d.Compiled options) d.nodes report.document.nodes
  layering : report.document.Layering report.layers
  counts : report.counts = report.document.counts

namespace Pipeline

variable {d : Declaration} {options : CompileOptions} {m : Deployment} {p : Pipeline}

/-- The contexts of a node after their stage. -/
theorem contexts_eq_contextsOf (h : Declared d options p) (hs : Stage.contexts.Settled p) {n : Node}
    (hn : n ∈ p.nodes) {c : Declaration.Node} (hc : n.DeclaredAs c) :
    n.contexts = d.contextsOf options c := by
  rw [List.map_inj_left.1 (settled_contexts_iff.1 hs) n hn, contextsOf, Declaration.contextsOf,
    h.id, h.runId, hc.id, hc.contexts]

/-- The dependents of a node are the nodes that refer to it. -/
theorem dependents_eq_filter_declared (h : Declared d options p) (hs : p.Settled m) {n : Node}
    (hn : n ∈ p.nodes) : n.dependents = (d.nodes.filter fun w ↦ w.RefersTo n.id).map (·.id) := by
  rw [dependents_eq_filter h hs hn]
  refine (map_eq_of_forall₂ (List.rel_filter ?_ (forall₂_mem h.nodes)) fun c w hw ↦ ?_).symm
  · rintro c w ⟨hc, hw, hdeclared⟩
    simpa using (mem_dependencies_iff_refersTo h hs hw hdeclared hc).symm
  · exact hw.2.2.id.symm

/-- A channel is resolved to its query. -/
theorem query_of_resolveChannel (h : Declared d options p) (hs : Stage.contexts.Settled p)
    {id : NodeId} {key : InputKey} {c : Declaration.Channel} {q : Document.Channel}
    (hq : p.resolveChannel id key c = .ok q) : d.Query options c q := by
  obtain ⟨n, hn, hid, type, htype, rfl⟩ := (resolveChannel_eq_ok_iff h.indexed).1 hq
  obtain ⟨producer, hproducer, hdeclared⟩ := exists_mem_of_forall₂_right h.nodes hn
  refine ⟨producer, hproducer, hdeclared.id.symm.trans hid, type, by rwa [← hdeclared.outputs], ?_⟩
  rw [contexts_eq_contextsOf h hs hn hdeclared]

/-- **Every node of the document is what the declared one is compiled to.** -/
theorem compiled_toDocument (h : Declared d options p) (hs : p.Settled m) :
    List.Forall₂ (d.Compiled options) d.nodes p.toDocument.nodes := by
  rw [toDocument, List.forall₂_map_right_iff]
  refine (forall₂_mem h.nodes).imp fun c n hmem ↦ ?_
  obtain ⟨hcmem, hn, hc⟩ := hmem
  refine ⟨hc.id, hc.type, contexts_eq_contextsOf h hs.contexts hn hc, ?_, hc.outputs, hc.parameters,
    dependencies_eq_filter h hs hn hc hcmem, ?_, hc.options⟩
  · have hinputs := inputs_of_settled hs.channels hn
    rw [hc.inputs, hc.id] at hinputs
    refine hinputs.imp fun e e' he ↦ ⟨he.1, ?_⟩
    obtain ⟨hchannels, hresolver, hcount⟩ := resolveInput_eq_ok_iff.1 he.2
    exact ⟨hchannels.imp fun _ _ ↦ query_of_resolveChannel h hs.contexts, hresolver, hcount⟩
  · show n.dependents = _
    rw [dependents_eq_filter_declared h hs hn, hc.id]

/-- The counts of a pipeline are those of its document. -/
theorem counts_toDocument (p : Pipeline) : p.toDocument.counts = p.counts := by
  simp only [Document.counts, counts, toDocument, List.length_map, List.flatMap_map]
  rfl

end Pipeline

/-- **The result of a compilation.** -/
theorem Declaration.outcome_of_compile {d : Declaration} {m : Deployment}
    {options : CompileOptions} {report : CompileReport} (h : d.compile m options = .ok report) :
    d.Outcome m options report := by
  obtain ⟨p, hp, hs, rfl⟩ := Pipeline.exists_settled_of_compile h
  refine ⟨Pipeline.nodup_ids hp, hp.known, rfl, hp.id, ?_, hp.mode,
    (Pipeline.settled_deployment_iff.1 hs.deployment).2, Pipeline.compiled_toDocument hp hs,
    Pipeline.layering_toDocument hp hs, (Pipeline.counts_toDocument p).symm⟩
  show p.runtime = _
  rw [← hp.root, ← hp.runId]

namespace Declaration.Outcome

variable {d : Declaration} {m : Deployment} {options : CompileOptions} {report : CompileReport}

/-- The document has the declared ids, in their order. -/
theorem map_ids (h : d.Outcome m options report) : report.document.nodes.map (·.id) = d.ids :=
  (map_eq_of_forall₂ h.nodes fun _ _ hn ↦ hn.id.symm).symm

theorem nodup_document (h : d.Outcome m options report) :
    (report.document.nodes.map (·.id)).Nodup := by
  rw [h.map_ids]
  exact h.nodup

end Declaration.Outcome

/-! ### Layer numbers -/

/-- The number of the layer in which a node stands. -/
def layerOf (layers : List (List NodeId)) (x : NodeId) : Option Nat :=
  layers.findIdx? (·.contains x)

/-- A node has the number of the one layer in which it is. -/
theorem layerOf_eq_some_iff {layers : List (List NodeId)} (hnodup : layers.flatten.Nodup)
    {x : NodeId} {k : Nat} :
    layerOf layers x = some k ↔ ∃ layer, layers[k]? = some layer ∧ x ∈ layer := by
  rw [layerOf, List.findIdx?_eq_some_iff_getElem]
  simp only [List.contains_iff_mem]
  constructor
  · rintro ⟨hk, hx, -⟩
    exact ⟨_, List.getElem?_eq_getElem hk, hx⟩
  · rintro ⟨layer, hlayer, hx⟩
    obtain ⟨hk, rfl⟩ := List.getElem?_eq_some_iff.1 hlayer
    refine ⟨hk, hx, fun j hj hx' ↦ ?_⟩
    -- No two layers have a node in common.
    have hdisjoint := List.pairwise_iff_getElem.1 (List.nodup_flatten.1 hnodup).2
    exact hdisjoint j k (by omega) hk hj hx' hx

/-- The layer after those of some nodes: one more than the largest of them, and 0 for no nodes. -/
structure NextLayer (layer : NodeId → Option Nat) (us : NodeId → Prop) (k : Nat) : Prop where
  earlier : ∀ u, us u → ∃ j < k, layer u = some j
  close : ∀ j, k = j + 1 → ∃ u, us u ∧ layer u = some j

namespace NextLayer

variable {layer layer' : NodeId → Option Nat} {us us' : NodeId → Prop} {k k' : Nat}

/-- The next layer depends on the layers of the given nodes only. -/
theorem congr (h : NextLayer layer us k) (hus : ∀ u, us' u ↔ us u)
    (hlayer : ∀ u, us u → layer' u = layer u) : NextLayer layer' us' k := by
  refine ⟨fun u hu ↦ ?_, fun j hj ↦ ?_⟩
  · rw [hlayer u ((hus u).1 hu)]
    exact h.earlier u ((hus u).1 hu)
  · obtain ⟨u, hu, huj⟩ := h.close j hj
    exact ⟨u, (hus u).2 hu, (hlayer u hu).trans huj⟩

/-- No layer after the next one is the next one. -/
theorem le (h : NextLayer layer us k) (h' : NextLayer layer us k') : k' ≤ k := by
  rcases k' with - | j
  · exact Nat.zero_le k
  · obtain ⟨u, hu, huj⟩ := h'.close j rfl
    obtain ⟨i, hi, hui⟩ := h.earlier u hu
    rw [huj, Option.some.injEq] at hui
    omega

end NextLayer

/-- The nodes of a document are nodes of another one, with the same dependencies. -/
def Document.EmbedsIn (document document' : Document) : Prop :=
  ∀ n ∈ document.nodes, ∃ n' ∈ document'.nodes, n'.id = n.id ∧
    ∀ u, u ∈ n'.dependencies ↔ u ∈ n.dependencies

namespace Document.Layering

variable {document document' : Document} {layers layers' : List (List NodeId)}

/-- No node is in two layers. -/
theorem nodup_flatten (h : document.Layering layers) (hnodup : (document.nodes.map (·.id)).Nodup) :
    layers.flatten.Nodup :=
  h.perm.nodup_iff.2 hnodup

/-- Every node of the document is in a layer. -/
theorem exists_layerOf (h : document.Layering layers) {x : NodeId}
    (hx : x ∈ document.nodes.map (·.id)) : ∃ k, layerOf layers x = some k := by
  obtain ⟨layer, hlayer, hx⟩ := List.mem_flatten.1 (h.perm.mem_iff.2 hx)
  rw [← Option.isSome_iff_exists, layerOf, List.findIdx?_isSome, List.any_eq_true]
  exact ⟨layer, hlayer, List.contains_iff_mem.2 hx⟩

theorem mem_ids (h : document.Layering layers) {k : Nat} {layer : List NodeId}
    (hlayer : layers[k]? = some layer) {x : NodeId} (hx : x ∈ layer) :
    x ∈ document.nodes.map (·.id) :=
  h.perm.mem_iff.1 (List.mem_flatten.2 ⟨layer, List.mem_of_getElem? hlayer, hx⟩)

/-- **The layer of a node** comes next after those of its dependencies. -/
theorem nextLayer (h : document.Layering layers) (hnodup : (document.nodes.map (·.id)).Nodup)
    {n : Node} (hn : n ∈ document.nodes) {k : Nat} (hk : layerOf layers n.id = some k) :
    NextLayer (layerOf layers) (· ∈ n.dependencies) k := by
  have hflatten := h.nodup_flatten hnodup
  obtain ⟨layer, hlayer, hmem⟩ := (layerOf_eq_some_iff hflatten).1 hk
  refine ⟨fun u hu ↦ ?_, fun j hj ↦ ?_⟩
  · obtain ⟨j, hj, before, hbefore, hu⟩ := h.earlier k layer hlayer n hn hmem u hu
    exact ⟨j, hj, (layerOf_eq_some_iff hflatten).2 ⟨before, hbefore, hu⟩⟩
  · subst hj
    obtain ⟨u, hu, before, hbefore, humem⟩ := h.close j layer hlayer n hn hmem
    exact ⟨u, hu, (layerOf_eq_some_iff hflatten).2 ⟨before, hbefore, humem⟩⟩

/-- No node depends on itself, since it would be in an earlier layer than itself. -/
theorem id_notMem_dependencies (h : document.Layering layers)
    (hnodup : (document.nodes.map (·.id)).Nodup) {n : Node} (hn : n ∈ document.nodes) :
    n.id ∉ n.dependencies := by
  intro hself
  obtain ⟨k, hk⟩ := h.exists_layerOf (List.mem_map_of_mem hn)
  obtain ⟨j, hj, hkj⟩ := (h.nextLayer hnodup hn hk).earlier n.id hself
  rw [hk, Option.some.injEq] at hkj
  omega

/-- **Dependencies determine the layers.** -/
theorem layerOf_eq (h : document.Layering layers) (h' : document'.Layering layers')
    (hnodup : (document.nodes.map (·.id)).Nodup) (hnodup' : (document'.nodes.map (·.id)).Nodup)
    (hsame : document.EmbedsIn document') {x : NodeId} (hx : x ∈ document.nodes.map (·.id)) :
    layerOf layers' x = layerOf layers x := by
  obtain ⟨k, hk⟩ := h.exists_layerOf hx
  induction k using Nat.strong_induction_on generalizing x with
  | _ k ih =>
    obtain ⟨n, hn, rfl⟩ := List.mem_map.1 hx
    obtain ⟨n', hn', hid, hdependencies⟩ := hsame n hn
    obtain ⟨k', hk'⟩ := h'.exists_layerOf (List.mem_map_of_mem hn')
    have hnext := h.nextLayer hnodup hn hk
    -- Dependencies stand in earlier layers, so that they have the same layers in both documents.
    have hbefore : ∀ u ∈ n.dependencies, layerOf layers' u = layerOf layers u := by
      intro u hu
      obtain ⟨j, hj, huj⟩ := hnext.earlier u hu
      obtain ⟨layer, hlayer, hmem⟩ := (layerOf_eq_some_iff (h.nodup_flatten hnodup)).1 huj
      exact ih j hj (h.mem_ids hlayer hmem) huj
    have hnext' := h'.nextLayer hnodup' hn' hk'
    have hnext'' := hnext.congr hdependencies hbefore
    rw [hk, ← hid, hk', Nat.le_antisymm (hnext''.le hnext') (hnext'.le hnext'')]

end Document.Layering
end Pipework
