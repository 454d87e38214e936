import Pipework.Proofs.Compile.Result
import Pipework.Proofs.Compile.Valid

/-!
# The order of declared nodes

The nodes of a declaration may be written in any order. Whether it compiles does not depend on the
order, and neither does the result, except that nodes, the neighbours of a node and the nodes of a
layer are listed in the order in which the nodes are declared (`compile_perm`).

Validity does not mention the order, and two declarations with the same nodes in another order are
valid together. What a node is compiled to depends on the set of nodes only, its neighbours apart;
and these are selected from the declared nodes by conditions on single nodes. Layers are determined
by the dependencies.
-/

namespace Pipework

/-! ### The same up to order -/

/-- A node as it stands in two documents whose nodes are in different orders, that of the second
document given. -/
structure Document.Node.Reordered (order : List NodeId) (n n' : Document.Node) : Prop where
  rest : n' = { n with dependencies := n'.dependencies, dependents := n'.dependents }
  dependencies : n'.dependencies.Perm n.dependencies
  dependents : n'.dependents.Perm n.dependents
  ordered_dependencies : n'.dependencies.Sublist order
  ordered_dependents : n'.dependents.Sublist order

/-- Two results agree up to the order of nodes, that of the second one given. -/
structure CompileReport.Reordered (order : List NodeId) (report report' : CompileReport) :
    Prop where
  ids : report'.document.nodes.map (·.id) = order
  nodes : ∃ ns, ns.Perm report'.document.nodes ∧
    List.Forall₂ (Document.Node.Reordered order) report.document.nodes ns
  version : report'.document.version = report.document.version
  id : report'.document.id = report.document.id
  runtime : report'.document.runtime = report.document.runtime
  mode : report'.document.mode = report.document.mode
  deployment : report'.document.deployment = report.document.deployment
  layers : List.Forall₂ (fun layer layer' ↦ layer'.Perm layer ∧ layer'.Sublist order)
    report.layers report'.layers
  counts : report'.counts = report.counts

/-- The sizes of a document do not depend on the order of its nodes. -/
theorem Document.counts_eq_of_perm {document document' : Document} {order : List NodeId}
    {ns : List Document.Node} (hperm : ns.Perm document'.nodes)
    (hns : List.Forall₂ (Node.Reordered order) document.nodes ns)
    (hdeployment : document'.deployment = document.deployment) :
    document'.counts = document.counts := by
  have hinputs : (document'.nodes.flatMap fun n ↦ n.inputs.values).Perm
      (document.nodes.flatMap fun n ↦ n.inputs.values) := by
    have hsame : (document.nodes.flatMap fun n ↦ n.inputs.values) =
        ns.flatMap fun n ↦ n.inputs.values :=
      flatMap_eq_of_forall₂ hns fun n n' hn ↦ by rw [hn.rest]
    rw [hsame]
    exact (hperm.flatMap_right _).symm
  have hdependencies : (document'.nodes.flatMap fun n ↦ n.dependencies).Perm
      (document.nodes.flatMap fun n ↦ n.dependencies) := by
    refine (hperm.flatMap_right _).symm.trans (List.Perm.flatten_congr ?_)
    rw [List.forall₂_map_left_iff, List.forall₂_map_right_iff]
    exact hns.flip.imp fun n' n hn ↦ hn.dependencies
  have hnodes : document'.nodes.length = document.nodes.length :=
    hperm.length_eq.symm.trans hns.length_eq.symm
  simp only [counts, hnodes, hdependencies.length_eq, (hinputs.flatMap_right _).length_eq,
    hdeployment]

/-! ### Layers -/

namespace Document.Layering

variable {document document' : Document} {layers layers' : List (List NodeId)}

/-- A layer is contained in the one with the same number of any other layering for the same
dependencies. -/
theorem exists_layer_subset (h : document.Layering layers) (h' : document'.Layering layers')
    (hnodup : (document.nodes.map (·.id)).Nodup) (hnodup' : (document'.nodes.map (·.id)).Nodup)
    (hsame : document.EmbedsIn document') {k : Nat} {layer : List NodeId}
    (hk : layers[k]? = some layer) : ∃ layer', layers'[k]? = some layer' ∧ layer ⊆ layer' := by
  have hmem : ∀ x ∈ layer, ∃ layer', layers'[k]? = some layer' ∧ x ∈ layer' := by
    intro x hx
    rw [← layerOf_eq_some_iff (h'.nodup_flatten hnodup'),
      h.layerOf_eq h' hnodup hnodup' hsame (h.mem_ids hk hx)]
    exact (layerOf_eq_some_iff (h.nodup_flatten hnodup)).2 ⟨layer, hk, hx⟩
  -- The layer is not empty, so there is a layer of that number on the other side.
  obtain ⟨x, hx⟩ := List.exists_mem_of_ne_nil layer (h.ne_nil layer (List.mem_of_getElem? hk))
  obtain ⟨layer', hk', -⟩ := hmem x hx
  refine ⟨layer', hk', fun y hy ↦ ?_⟩
  obtain ⟨layer'', hk'', hy'⟩ := hmem y hy
  obtain rfl := Option.some.inj (hk'.symm.trans hk'')
  exact hy'

/-- **The same nodes with the same dependencies have the same layers.** -/
theorem forall₂_perm (h : document.Layering layers) (h' : document'.Layering layers')
    (hnodup : (document.nodes.map (·.id)).Nodup) (hnodup' : (document'.nodes.map (·.id)).Nodup)
    (hsame : document.EmbedsIn document') (hsame' : document'.EmbedsIn document) :
    List.Forall₂ (fun layer layer' ↦ layer'.Perm layer) layers layers' := by
  have hsubset : ∀ {k : Nat} {layer : List NodeId}, layers[k]? = some layer →
      ∃ layer', layers'[k]? = some layer' ∧ layer ⊆ layer' :=
    h.exists_layer_subset h' hnodup hnodup' hsame
  have hsubset' : ∀ {k : Nat} {layer' : List NodeId}, layers'[k]? = some layer' →
      ∃ layer, layers[k]? = some layer ∧ layer' ⊆ layer :=
    h'.exists_layer_subset h hnodup' hnodup hsame'
  refine forall₂_of_getElem? (fun k layer hk ↦ ?_) fun k layer' hk' ↦ ?_
  · obtain ⟨layer', hk', hle⟩ := hsubset hk
    obtain ⟨layer'', hk'', hle'⟩ := hsubset' hk'
    obtain rfl := Option.some.inj (hk.symm.trans hk'')
    refine ⟨layer', hk', (List.perm_ext_iff_of_nodup ?_ ?_).2 fun x ↦ ⟨@hle' x, @hle x⟩⟩
    · exact hnodup'.sublist (h'.ordered layer' (List.mem_of_getElem? hk'))
    · exact hnodup.sublist (h.ordered layer (List.mem_of_getElem? hk))
  · obtain ⟨layer, hk, -⟩ := hsubset' hk'
    exact ⟨layer, hk⟩

end Document.Layering

/-! ### Declarations -/

namespace Declaration

variable {d d' : Declaration} {m : Deployment} {options : CompileOptions}
  {report report' : CompileReport}

/-- A declaration with the nodes of another one in some order. -/
structure Rearranges (d d' : Declaration) : Prop where
  id : d'.id = d.id
  root : d'.root = d.root
  mode : d'.mode = d.mode
  nodes : d'.nodes.Perm d.nodes

theorem Rearranges.symm (h : d.Rearranges d') : d'.Rearranges d :=
  ⟨h.id.symm, h.root.symm, h.mode.symm, h.nodes.symm⟩

/-- A rearranged declaration has the same ids in another order. -/
theorem Rearranges.ids (h : d.Rearranges d') : d'.ids.Perm d.ids :=
  h.nodes.map _

/-- Validity does not depend on the order of nodes. -/
theorem Valid.rearrange (h : d.Valid m) (hd : d.Rearranges d') : d'.Valid m := by
  have hmem : ∀ {n}, n ∈ d'.nodes → n ∈ d.nodes := hd.nodes.mem_iff.1
  have hids : ∀ {x}, x ∈ d.ids → x ∈ d'.ids := hd.ids.mem_iff.2
  refine ⟨hd.id ▸ h.name, hd.ids.nodup_iff.2 h.distinct, fun n hn ↦ h.nodes n (hmem hn),
    fun n hn x hx ↦ hids (h.known n (hmem hn) x hx), fun n hn e he c hc ↦ ?_, fun x hx ↦ ?_,
    fun x hx ↦ hids (h.deployed x hx), fun n hn ↦ h.executors n (hmem hn)⟩
  · obtain ⟨producer, hproducer, houtput⟩ := h.outputs n (hmem hn) e he c hc
    exact ⟨producer, hd.nodes.mem_iff.2 hproducer, houtput⟩
  · refine h.acyclic x (Relation.TransGen.mono (fun u w huw ↦ ?_) _ _ hx)
    obtain ⟨n, hn, hw⟩ := huw
    exact ⟨n, hmem hn, hw⟩

/-- **A node of a rearranged declaration is compiled to the same node**, with its neighbours in the
new order. -/
theorem Compiled.reordered (hd : d.Rearranges d') (hnodup : d'.ids.Nodup) {c : Node}
    {n n' : Document.Node} (h : d.Compiled options c n) (h' : d'.Compiled options c n') :
    n.Reordered d'.ids n' := by
  refine ⟨h.eq_of_subset hd.id hd.nodes.symm.subset hnodup h', ?_, ?_, ?_, ?_⟩
  · rw [h'.dependencies, h.dependencies]
    exact hd.ids.filter _
  · rw [h'.dependents, h.dependents]
    exact (hd.nodes.filter _).map _
  · rw [h'.dependencies]
    exact List.filter_sublist
  · rw [h'.dependents]
    exact List.filter_sublist.map _

/-- **Results of a declaration with its nodes in two orders.** -/
theorem Outcome.reordered (hd : d.Rearranges d') (h : d.Outcome m options report)
    (h' : d'.Outcome m options report') : report.Reordered d'.ids report' := by
  obtain ⟨ns, hns, hperm⟩ := List.perm_comp_forall₂ hd.nodes.symm h'.nodes
  have hnodes : List.Forall₂ (Document.Node.Reordered d'.ids) report.document.nodes ns := by
    refine (forall₂_of_left h.nodes hns).imp fun n n' hc ↦ ?_
    obtain ⟨c, hn, hn'⟩ := hc
    exact hn.reordered hd h'.nodup hn'
  -- Layers depend on ids and dependencies only, and these are the same in both documents.
  have hsame : report.document.EmbedsIn report'.document := by
    intro n hn
    obtain ⟨n', hn', hreordered⟩ := exists_mem_of_forall₂ hnodes hn
    exact ⟨n', hperm.mem_iff.1 hn', congrArg (·.id) hreordered.rest,
      fun u ↦ hreordered.dependencies.mem_iff⟩
  have hsame' : report'.document.EmbedsIn report.document := by
    intro n' hn'
    obtain ⟨n, hn, hreordered⟩ := exists_mem_of_forall₂_right hnodes (hperm.mem_iff.2 hn')
    exact ⟨n, hn, (congrArg (·.id) hreordered.rest).symm,
      fun u ↦ hreordered.dependencies.mem_iff.symm⟩
  have hlayers :=
    h.layering.forall₂_perm h'.layering h.nodup_document h'.nodup_document hsame hsame'
  refine ⟨h'.map_ids, ⟨ns, hperm, hnodes⟩, h'.version.trans h.version.symm, ?_, ?_, ?_, ?_, ?_, ?_⟩
  · rw [h'.id, h.id, hd.id]
  · rw [h'.runtime, h.runtime, hd.root]
  · rw [h'.mode, h.mode, hd.mode]
  · rw [h'.deployment, h.deployment]
  · refine (forall₂_mem hlayers).imp fun layer layer' hlayer ↦ ⟨hlayer.2.2, ?_⟩
    rw [← h'.map_ids]
    exact h'.layering.ordered layer' hlayer.2.1
  · rw [h'.counts, h.counts]
    exact Document.counts_eq_of_perm hperm hnodes (h'.deployment.trans h.deployment.symm)

/-- **The order in which nodes are declared does not matter.** With its nodes in another order a
declaration compiles if it did before, and the results are the same but for the order of nodes, of
the neighbours of a node and of the nodes of a layer, which all follow the declaration. -/
theorem compile_perm {d : Declaration} {nodes : List Node} (hperm : nodes.Perm d.nodes)
    (m : Deployment) (options : CompileOptions) :
    ((∃ report, ({ d with nodes := nodes } : Declaration).compile m options = .ok report) ↔
        ∃ report, d.compile m options = .ok report) ∧
      ∀ report report', d.compile m options = .ok report →
        ({ d with nodes := nodes } : Declaration).compile m options = .ok report' →
        report.Reordered (nodes.map (·.id)) report' := by
  have hd : d.Rearranges { d with nodes := nodes } := ⟨rfl, rfl, rfl, hperm⟩
  refine ⟨?_, fun report report' h h' ↦ ?_⟩
  · rw [exists_compile_iff_valid, exists_compile_iff_valid]
    exact ⟨fun h ↦ h.rearrange hd.symm, fun h ↦ h.rearrange hd⟩
  · exact (outcome_of_compile h).reordered hd (outcome_of_compile h')

end Declaration

/-- The sink, declared first in `relay`, is declared last here. -/
theorem compile_perm_relay : ∃ report report', Declaration.relay.compile .relay {} = .ok report ∧
    ({ Declaration.relay with nodes := Declaration.relay.nodes.reverse } : Declaration).compile
      .relay {} = .ok report' ∧
    report.Reordered ["copy", "source", "sink"] report' := by
  have h := eq_ok_get_of_isSome isSome_compile_relay
  obtain ⟨hiff, hreordered⟩ :=
    Declaration.compile_perm (List.reverse_perm Declaration.relay.nodes) .relay {}
  obtain ⟨report', h'⟩ := hiff.2 ⟨_, h⟩
  exact ⟨_, report', h, h', hreordered _ _ h h'⟩

end Pipework
