import Pipework.Proofs.Compile.Reordering

/-!
# What a result does not depend on

Everything in a result is determined by what `Declaration.Outcome` says about it (`Outcome.unique`),
although that says nothing about how the result is computed. So two results are shown to be equal by
showing that one is an outcome of what the other was compiled from:

* `Outcome.of_alike`: of a node, its id, contexts, outputs and parameters are used, the queries of
  its inputs, and which nodes it refers to. A declaration whose nodes agree in these (`Alike`) has
  the same outcome.
* `compile_sameReferences`: entries of `after` lists may be reordered, repeated, or left out where
  the node reads the other one anyway. The graphs have other edges then, in other numbers and in
  another order, but nodes refer to the same nodes.
* `compile_replaced`: options are found in a document as the names of the two run parameters, in the
  place where they are declared and in contexts of runs, and a deployment in its own field. With
  these replaced, a document is the outcome of the other options and the other deployment.
-/

namespace Pipework

/-! ### Results are determined -/

namespace Document.Layering

variable {document : Document} {layers layers' : List (List NodeId)}

/-- **Layers are determined** by the nodes of a document: which nodes stand in a layer by the
dependencies, and how they stand in it by the order of nodes. -/
theorem unique (h : document.Layering layers) (h' : document.Layering layers')
    (hnodup : (document.nodes.map (·.id)).Nodup) : layers' = layers := by
  have hself : document.EmbedsIn document := fun n hn ↦ ⟨n, hn, rfl, fun _ ↦ Iff.rfl⟩
  have hperm := h'.forall₂_perm h hnodup hnodup hself hself
  rw [← List.forall₂_eq_eq_eq]
  refine (forall₂_mem hperm).imp fun layer' layer hlayer ↦ ?_
  obtain ⟨hlayer', hlayer, hperm⟩ := hlayer
  exact (hnodup.perm_iff_eq_of_sublist (h'.ordered layer' hlayer') (h.ordered layer hlayer)).1
    hperm.symm

/-- Layers do not depend on what nodes have beside their ids and dependencies. -/
theorem of_nodes_eq_map {document' : Document} {f : Node → Node} (h : document.Layering layers)
    (hnodes : document'.nodes = document.nodes.map f) (hid : ∀ n, (f n).id = n.id)
    (hdependencies : ∀ n, (f n).dependencies = n.dependencies) : document'.Layering layers := by
  have hids : document'.nodes.map (·.id) = document.nodes.map (·.id) := by
    rw [hnodes, List.map_map]
    exact List.map_congr_left fun n _ ↦ hid n
  refine ⟨hids ▸ h.perm, h.ne_nil, fun layer hlayer ↦ hids ▸ h.ordered layer hlayer,
    fun k layer hk n' hn' hmem ↦ ?_, fun k layer hk n' hn' hmem ↦ ?_⟩
  · obtain ⟨n, hn, rfl⟩ := List.mem_map.1 (hnodes ▸ hn')
    rw [hdependencies]
    exact h.earlier k layer hk n hn (hid n ▸ hmem)
  · obtain ⟨n, hn, rfl⟩ := List.mem_map.1 (hnodes ▸ hn')
    rw [hdependencies]
    exact h.close k layer hk n hn (hid n ▸ hmem)

end Document.Layering

namespace Declaration

variable {d d' : Declaration} {m m' : Deployment} {options options' : CompileOptions}
  {report report' : CompileReport}

/-- A node is compiled in one way only, since the producers of its channels are found by their
ids. -/
theorem Compiled.unique (hnodup : d.ids.Nodup) {c : Node} {n n' : Document.Node}
    (h : d.Compiled options c n) (h' : d.Compiled options c n') : n = n' := by
  have hdependencies := h'.dependencies.trans h.dependencies.symm
  have hdependents := h'.dependents.trans h.dependents.symm
  rw [h.eq_of_subset rfl (List.Subset.refl _) hnodup h', hdependencies, hdependents]

/-- **An outcome is the only one.** -/
theorem Outcome.unique (h : d.Outcome m options report) (h' : d.Outcome m options report') :
    report' = report := by
  have hnodes : report'.document.nodes = report.document.nodes :=
    List.right_unique_forall₂' (R := d.Compiled options) (fun _ _ _ ↦ Compiled.unique h.nodup)
      h'.nodes h.nodes
  have hdocument : report'.document = report.document := by
    have hversion := h'.version.trans h.version.symm
    have hid := h'.id.trans h.id.symm
    have hruntime := h'.runtime.trans h.runtime.symm
    have hmode := h'.mode.trans h.mode.symm
    have hdeployment := h'.deployment.trans h.deployment.symm
    rcases hdoc : report.document
    rcases hdoc' : report'.document
    simp_all
  have hlayers : report'.layers = report.layers :=
    h.layering.unique (hdocument ▸ h'.layering) h.nodup_document
  have hcounts : report'.counts = report.counts := by
    rw [h'.counts, h.counts, hdocument]
  cases report
  cases report'
  simp_all

/-! ### Nodes that are compiled alike -/

/-- An input that leads to the same queries: it has the same channels, and its steps are resolved to
the same ones. -/
structure Input.Alike (i i' : Input) : Prop where
  channels : i'.channels = i.channels
  resolver : ∀ id key, Pipeline.resolveSteps id key 0 i'.resolver =
    Pipeline.resolveSteps id key 0 i.resolver
  minCount : i'.minCount = i.minCount

/-- The same node but for its `after` list and its inputs, with references to the same nodes. -/
structure Node.Alike (c c' : Node) : Prop where
  rest : ∃ after inputs, c' = { c with after := after, inputs := inputs }
  inputs : List.Forall₂ (fun e e' ↦ e'.1 = e.1 ∧ e.2.Alike e'.2) c.inputs.entries c'.inputs.entries
  refersTo : ∀ x, c'.RefersTo x ↔ c.RefersTo x

/-- Declarations with the same nodes in the same order, as far as compiling uses them. -/
structure Alike (d d' : Declaration) : Prop where
  id : d'.id = d.id
  root : d'.root = d.root
  mode : d'.mode = d.mode
  nodes : List.Forall₂ Node.Alike d.nodes d'.nodes

theorem Input.Alike.refl (i : Input) : i.Alike i :=
  ⟨rfl, fun _ _ ↦ rfl, rfl⟩

theorem Node.Alike.id {c c' : Node} (h : c.Alike c') : c'.id = c.id := by
  obtain ⟨after, inputs, rfl⟩ := h.rest
  rfl

namespace Alike

theorem ids (h : d.Alike d') : d'.ids = d.ids :=
  (map_eq_of_forall₂ h.nodes fun _ _ hc ↦ hc.id.symm).symm

/-- A node keeps its outputs. -/
theorem hasOutput_iff (h : d.Alike d') {producer : NodeId} {output : OutputKey} :
    d'.HasOutput producer output ↔ d.HasOutput producer output := by
  constructor
  · rintro ⟨c', hc', hid, hmem⟩
    obtain ⟨c, hc, ⟨after, inputs, rfl⟩, -, -⟩ := exists_mem_of_forall₂_right h.nodes hc'
    exact ⟨c, hc, hid, hmem⟩
  · rintro ⟨c, hc, hid, hmem⟩
    obtain ⟨c', hc', ⟨after, inputs, rfl⟩, -, -⟩ := exists_mem_of_forall₂ h.nodes hc
    exact ⟨_, hc', hid, hmem⟩

end Alike

/-- A query is found by the id, the contexts and the outputs of its producer. -/
theorem Query.of_alike (hd : d.Alike d') {c : Channel} {q : Document.Channel}
    (h : d.Query options c q) : d'.Query options c q := by
  obtain ⟨producer, hproducer, hname, type, htype, rfl⟩ := h
  obtain ⟨producer', hproducer', ⟨after, inputs, rfl⟩, -, -⟩ :=
    exists_mem_of_forall₂ hd.nodes hproducer
  refine ⟨_, hproducer', hname, type, htype, ?_⟩
  rw [contextsOf, contextsOf, hd.id]

/-- A node is compiled to what the other one is compiled to. Of its references only the nodes that
it refers to are found in the result. -/
theorem Compiled.of_alike (hd : d.Alike d') {c c' : Node} (hc : c.Alike c') {n : Document.Node}
    (h : d.Compiled options c n) : d'.Compiled options c' n := by
  have hdependencies : n.dependencies = d'.ids.filter fun u ↦ c'.RefersTo u := by
    rw [h.dependencies, hd.ids]
    exact List.filter_congr fun u _ ↦ decide_eq_decide.2 (hc.refersTo u).symm
  have hdependents : n.dependents = (d'.nodes.filter fun w ↦ w.RefersTo c.id).map (·.id) := by
    rw [h.dependents]
    refine map_eq_of_forall₂ (List.rel_filter (fun w w' hw ↦ ?_) hd.nodes) fun _ _ hw ↦ hw.id.symm
    simpa using (hw.refersTo c.id).symm
  have hinputs : List.Forall₂ (fun e e' ↦ e'.1 = e.1 ∧ d'.Queries options c.id e.1 e.2 e'.2)
      c'.inputs.entries n.inputs.entries := by
    refine (forall₂_of_left hc.inputs h.inputs).imp fun e' q he ↦ ?_
    obtain ⟨e, ⟨hkey, halike⟩, hqueryKey, hqueries⟩ := he
    refine ⟨hqueryKey.trans hkey.symm, ?_, ?_, hqueries.minCount.trans halike.minCount.symm⟩
    · rw [halike.channels]
      exact hqueries.channels.imp fun _ _ ↦ Query.of_alike hd
    · rw [hkey, halike.resolver]
      exact hqueries.resolver
  obtain ⟨after, inputs, rfl⟩ := hc.rest
  refine ⟨h.id, h.type, ?_, hinputs, h.outputs, h.parameters, hdependencies, hdependents, h.options⟩
  rw [h.contexts, contextsOf, contextsOf, hd.id]

/-- **The result is an outcome of every declaration that is compiled alike.** -/
theorem Outcome.of_alike (hd : d.Alike d') (h : d.Outcome m options report) :
    d'.Outcome m options report := by
  refine ⟨hd.ids ▸ h.nodup, fun c' hc' x hx ↦ ?_, h.version, h.id.trans hd.id.symm, ?_,
    h.mode.trans hd.mode.symm, h.deployment, ?_, h.layering, h.counts⟩
  · obtain ⟨c, hc, halike⟩ := exists_mem_of_forall₂_right hd.nodes hc'
    rw [hd.ids]
    exact h.known c hc x ((halike.refersTo x).1 hx)
  · rw [h.runtime, hd.root]
  · refine (forall₂_of_left hd.nodes h.nodes).imp fun c' n hc ↦ ?_
    obtain ⟨c, halike, hn⟩ := hc
    exact hn.of_alike hd halike

/-! ### Other entries of `after` lists -/

/-- The same node but for its `after` list, with references to the same nodes. -/
structure Node.SameReferences (c c' : Node) : Prop where
  rest : ∃ after, c' = { c with after := after }
  refersTo : ∀ x, c'.RefersTo x ↔ c.RefersTo x

/-- The same declaration but for the `after` lists of its nodes, with references between the same
nodes. -/
structure SameReferences (d d' : Declaration) : Prop where
  id : d'.id = d.id
  root : d'.root = d.root
  mode : d'.mode = d.mode
  nodes : List.Forall₂ Node.SameReferences d.nodes d'.nodes

theorem Node.SameReferences.symm {c c' : Node} (h : c.SameReferences c') :
    c'.SameReferences c := by
  obtain ⟨⟨after, rfl⟩, hrefers⟩ := h
  exact ⟨⟨c.after, rfl⟩, fun x ↦ (hrefers x).symm⟩

theorem Node.SameReferences.alike {c c' : Node} (h : c.SameReferences c') : c.Alike c' := by
  obtain ⟨⟨after, rfl⟩, hrefers⟩ := h
  exact ⟨⟨after, c.inputs, rfl⟩, List.forall₂_same.2 fun e _ ↦ ⟨rfl, .refl e.2⟩, hrefers⟩

namespace SameReferences

theorem symm (h : d.SameReferences d') : d'.SameReferences d :=
  ⟨h.id.symm, h.root.symm, h.mode.symm, h.nodes.flip.imp fun _ _ hc ↦ Node.SameReferences.symm hc⟩

/-- Only the nodes referred to are used of `after` lists. -/
theorem alike (h : d.SameReferences d') : d.Alike d' :=
  ⟨h.id, h.root, h.mode, h.nodes.imp fun _ _ hc ↦ Node.SameReferences.alike hc⟩

/-- References between nodes are the same. -/
theorem precedes (h : d.SameReferences d') {u w : NodeId} (huw : d'.Precedes u w) :
    d.Precedes u w := by
  obtain ⟨c', hc', rfl, hu⟩ := huw
  obtain ⟨c, hc, ⟨after, rfl⟩, hrefers⟩ := exists_mem_of_forall₂_right h.nodes hc'
  exact ⟨c, hc, rfl, (hrefers u).1 hu⟩

end SameReferences

/-- Validity does not depend on how nodes refer to others. -/
theorem Valid.of_sameReferences (hd : d.SameReferences d') (h : d.Valid m) : d'.Valid m := by
  have hnode {c' : Node} (hc' : c' ∈ d'.nodes) : ∃ c ∈ d.nodes, c.SameReferences c' :=
    exists_mem_of_forall₂_right hd.nodes hc'
  refine ⟨hd.id ▸ h.name, hd.alike.ids ▸ h.distinct, fun c' hc' ↦ ?_, fun c' hc' x hx ↦ ?_,
    fun c' hc' ↦ ?_, fun x hx ↦ ?_, hd.alike.ids ▸ h.deployed, fun c' hc' ↦ ?_⟩
  · obtain ⟨c, hc, ⟨after, rfl⟩, -⟩ := hnode hc'
    have hvalid := h.nodes c hc
    exact ⟨hvalid.name, hvalid.contexts, hvalid.parameters, hvalid.inputs⟩
  · obtain ⟨c, hc, hsame⟩ := hnode hc'
    rw [hd.alike.ids]
    exact h.known c hc x ((hsame.refersTo x).1 hx)
  · obtain ⟨c, hc, ⟨after, rfl⟩, -⟩ := hnode hc'
    exact fun e he x hx ↦ hd.alike.hasOutput_iff.2 (h.outputs c hc e he x hx)
  · exact h.acyclic x (Relation.TransGen.mono (fun _ _ ↦ hd.precedes) _ _ hx)
  · obtain ⟨c, hc, ⟨after, rfl⟩, -⟩ := hnode hc'
    exact h.executors c hc

/-- **Only the set of references matters.** Two declarations that are the same but for their `after`
lists, and whose nodes refer to the same nodes, compile together, and to the same result. -/
theorem compile_sameReferences {d d' : Declaration} (hd : d.SameReferences d') (m : Deployment)
    (options : CompileOptions) :
    ((∃ report, d'.compile m options = .ok report) ↔ ∃ report, d.compile m options = .ok report) ∧
      ∀ report report', d.compile m options = .ok report → d'.compile m options = .ok report' →
        report'.document = report.document ∧
          report'.document.canonicalText = report.document.canonicalText ∧
          report'.document.prettyText = report.document.prettyText ∧
          report'.layers = report.layers ∧ report'.counts = report.counts := by
  refine ⟨?_, fun report report' h h' ↦ ?_⟩
  · rw [exists_compile_iff_valid, exists_compile_iff_valid]
    exact ⟨.of_sameReferences hd.symm, .of_sameReferences hd⟩
  · obtain rfl : report' = report :=
      ((outcome_of_compile h).of_alike hd.alike).unique (outcome_of_compile h')
    exact ⟨rfl, rfl, rfl, rfl, rfl⟩

/-- The relay with an `after` list for the sink, which reads the copy. -/
def relayAfter (after : List NodeId) : Declaration :=
  { relay with nodes := relay.nodes.modifyHead fun n ↦ { n with after := after } }

/-- The sink reads the copy, so that its entry for the copy says nothing new. -/
theorem sameReferences_relayAfter :
    (relayAfter ["source"]).SameReferences (relayAfter ["source", "copy", "source"]) := by
  refine ⟨rfl, rfl, rfl, .cons ⟨⟨_, rfl⟩, fun x ↦ ⟨?_, ?_⟩⟩ (List.forall₂_same.2 fun n _ ↦
    ⟨⟨n.after, rfl⟩, fun _ ↦ Iff.rfl⟩)⟩
  · rintro (hread | hafter)
    · exact .inl hread
    · simp only [List.mem_cons, List.not_mem_nil, or_false] at hafter
      rcases hafter with rfl | rfl | rfl
      · exact .inr List.mem_cons_self
      · exact .inl ⟨_, List.mem_cons_self, _, List.mem_cons_self, rfl⟩
      · exact .inr List.mem_cons_self
  · rintro (hread | hafter)
    · exact .inl hread
    · exact .inr (List.mem_cons.2 (.inl (List.mem_singleton.1 hafter)))

/-- The sink may name its predecessors repeatedly, and also the one that it reads from. -/
theorem compile_sameReferences_relay : ∃ report report',
    (relayAfter ["source"]).compile .relay {} = .ok report ∧
    (relayAfter ["source", "copy", "source"]).compile .relay {} = .ok report' ∧
    report'.document = report.document ∧ report'.layers = report.layers ∧
    report'.counts = report.counts := by
  have hnone : (relayAfter ["source"]).violations .relay = [] := by decide +kernel
  obtain ⟨report, h⟩ := (reports_compile _ _ {}).exists_ok_iff.2 hnone
  obtain ⟨hiff, hequal⟩ := compile_sameReferences sameReferences_relayAfter .relay {}
  obtain ⟨report', h'⟩ := hiff.2 ⟨report, h⟩
  obtain ⟨hdocument, -, -, hlayers, hcounts⟩ := hequal report report' h h'
  exact ⟨report, report', h, h', hdocument, hlayers, hcounts⟩

end Declaration

/-! ### Other options and another deployment -/

/-- A value with another name for its runtime parameter, if it has one. -/
def Value.renamed (name : String) : Value → Value
  | .runtime p => .runtime { p with name := name }
  | .field v => .field v

namespace Document

/-- A context with another parameter for the run, if it is that of the run. -/
def Context.withRun (name : String) (c : Context) : Context :=
  if c.type = "pipeline_run" then { c with value := c.value.renamed name } else c

/-- A query with another parameter for the run. -/
def Channel.withRun (name : String) (q : Channel) : Channel :=
  { q with contexts := q.contexts.map (·.withRun name) }

/-- An input with another parameter for the run. -/
def Input.withRun (name : String) (i : Input) : Input :=
  { i with channels := i.channels.map (·.withRun name) }

/-- A node with another parameter for the run, in its contexts and in its queries. -/
def Node.withRun (name : String) (n : Node) : Node :=
  { n with
    contexts := n.contexts.map (·.withRun name)
    inputs := n.inputs.map (·.withRun name) }

/-- A document with another deployment and other names of the run parameters. -/
def replaced (m : Deployment) (options : CompileOptions) (d : Document) : Document :=
  { d with
    nodes := d.nodes.map (·.withRun options.runParameter)
    runtime :=
      ⟨{ d.runtime.root with name := options.rootParameter },
        { d.runtime.runId with name := options.runParameter }⟩
    deployment := m }

/-- Sizes do not depend on the names that are replaced. -/
theorem counts_replaced (m : Deployment) (options : CompileOptions) (d : Document) :
    (d.replaced m options).counts = { d.counts with deploymentEntries := m.size } := by
  have hvalues (n : Node) : (n.withRun options.runParameter).inputs.values =
      n.inputs.values.map (·.withRun options.runParameter) := by
    simp [Node.withRun, Dict.map, Dict.values]
  simp only [counts, replaced, List.length_map, List.flatMap_map, hvalues, ← List.map_flatMap]
  simp [Input.withRun, Node.withRun, List.length_flatMap]

end Document

namespace Declaration

variable {d : Declaration} {m m' : Deployment} {options : CompileOptions} {report : CompileReport}

/-- No declared context can be taken for one that all nodes have. -/
def OwnContexts (d : Declaration) : Prop :=
  ∀ c ∈ d.nodes, ∀ x ∈ c.contexts, isCanonicalContextType x.type = false

/-- Contexts for other options have the parameter of the run replaced. A declared context is not
mistaken for that of the run, whose type is reserved. -/
theorem contextsOf_withRun (options options' : CompileOptions) {c : Node}
    (hc : ∀ x ∈ c.contexts, isCanonicalContextType x.type = false) :
    (d.contextsOf options c).map (·.withRun options'.runParameter) = d.contextsOf options' c := by
  have hdeclared : ∀ x ∈ c.contexts,
      (Pipeline.declaredContext x).withRun options'.runParameter = Pipeline.declaredContext x := by
    intro x hx
    refine if_neg fun htype ↦ ?_
    have hfalse := hc x hx
    rw [show x.type = "pipeline_run" from htype] at hfalse
    cases hfalse
  rw [contextsOf, contextsOf, List.map_append, List.map_map]
  congr 1
  exact List.map_congr_left hdeclared

/-- A query for other options has the parameter of the run replaced. -/
theorem Query.withRun (hd : d.OwnContexts) (options' : CompileOptions) {c : Channel}
    {q : Document.Channel} (h : d.Query options c q) :
    d.Query options' c (q.withRun options'.runParameter) := by
  obtain ⟨producer, hproducer, hname, type, htype, rfl⟩ := h
  refine ⟨producer, hproducer, hname, type, htype, ?_⟩
  rw [Document.Channel.withRun, contextsOf_withRun options options' (hd producer hproducer)]

/-- **A node that is compiled with other options** differs in the parameter of the run only. -/
theorem Compiled.withRun (hd : d.OwnContexts) (options' : CompileOptions) {c : Node}
    (hc : c ∈ d.nodes) {n : Document.Node} (h : d.Compiled options c n) :
    d.Compiled options' c (n.withRun options'.runParameter) := by
  refine ⟨h.id, h.type, ?_, ?_, h.outputs, h.parameters, h.dependencies, h.dependents, h.options⟩
  · show n.contexts.map _ = _
    rw [h.contexts, contextsOf_withRun options options' (hd c hc)]
  · refine List.forall₂_map_right_iff.2 (h.inputs.imp fun e e' he ↦ ⟨he.1, ?_, ?_, ?_⟩)
    · exact List.forall₂_map_right_iff.2 (he.2.channels.imp fun _ _ ↦ Query.withRun hd options')
    · exact he.2.resolver
    · exact he.2.minCount

/-- **With its options and deployment replaced, a result is an outcome of the others.** -/
theorem Outcome.replaced (hd : d.OwnContexts) (h : d.Outcome m options report) (m' : Deployment)
    (options' : CompileOptions) :
    d.Outcome m' options' ⟨report.document.replaced m' options', report.layers,
      { report.counts with deploymentEntries := m'.size }⟩ := by
  refine ⟨h.nodup, h.known, h.version, h.id, ?_, h.mode, rfl, ?_, ?_, ?_⟩
  · simp only [Document.replaced, h.runtime]
    rfl
  · exact List.forall₂_map_right_iff.2
      ((forall₂_mem h.nodes).imp fun c n hc ↦ hc.2.2.withRun hd options' hc.1)
  · exact h.layering.of_nodes_eq_map rfl (fun _ ↦ rfl) fun _ ↦ rfl
  · rw [Document.counts_replaced, h.counts]

/-- What compiles declares no contexts of the reserved types. -/
theorem ownContexts_of_compile (h : d.compile m options = .ok report) : d.OwnContexts :=
  fun c hc ↦ ((exists_compile_iff_valid.1 ⟨report, h⟩).nodes c hc).contexts

/-- **Options and deployment do not interfere with the rest of a result.** Two results for one
declaration have the same layers, the same sizes but for that of the deployment, and the same
document but for the deployment and the names of the run parameters; and whether there is a result,
and which error there is otherwise, does not depend on the options. -/
theorem compile_replaced (d : Declaration) :
    (∀ m₁ m₂ options₁ options₂ report₁ report₂, d.compile m₁ options₁ = .ok report₁ →
        d.compile m₂ options₂ = .ok report₂ →
        report₁.layers = report₂.layers ∧
          (∀ n, { report₁.counts with deploymentEntries := n } =
            { report₂.counts with deploymentEntries := n }) ∧
          ∀ m options,
            report₁.document.replaced m options = report₂.document.replaced m options) ∧
      ∀ m options₁ options₂,
        ((∃ report, d.compile m options₁ = .ok report) ↔
          ∃ report, d.compile m options₂ = .ok report) ∧
        ∀ e, d.compile m options₁ = .error e ↔ d.compile m options₂ = .error e := by
  refine ⟨fun m₁ m₂ options₁ options₂ report₁ report₂ h₁ h₂ ↦ ?_, fun m options₁ options₂ ↦ ?_⟩
  · have hown := ownContexts_of_compile h₁
    have hsame (m : Deployment) (options : CompileOptions) :=
      ((outcome_of_compile h₂).replaced hown m options).unique
        ((outcome_of_compile h₁).replaced hown m options)
    simp only [CompileReport.mk.injEq, CompileCounts.mk.injEq] at hsame
    obtain ⟨-, hlayers, hnodes, hedges, hchannels, hsteps, -⟩ := hsame m₁ options₁
    refine ⟨hlayers, fun n ↦ ?_, fun m options ↦ (hsame m options).1⟩
    simp only [hnodes, hedges, hchannels, hsteps]
  · refine ⟨exists_compile_iff_valid.trans exists_compile_iff_valid.symm, fun e ↦ ?_⟩
    rw [(reports_compile d m options₁).eq_error_iff, (reports_compile d m options₂).eq_error_iff]

/-- Containers for the three nodes of the relay, each with a driver. -/
def relayContainers : Deployment :=
  .ofList (["sink", "source", "copy"].map fun id ↦ (id, ⟨.container id [] [id], some (.native id)⟩))

/-- Containers in place of native executors, and other names for both parameters, show only in the
places that are replaced. -/
theorem compile_replaced_relay : ∃ report₁ report₂, relay.compile .relay {} = .ok report₁ ∧
    relay.compile relayContainers ⟨"run", "root"⟩ = .ok report₂ ∧
    report₁.layers = report₂.layers ∧ ∀ m options,
      report₁.document.replaced m options = report₂.document.replaced m options := by
  have h₁ := eq_ok_get_of_isSome isSome_compile_relay
  have hnone : relay.violations relayContainers = [] := by decide +kernel
  obtain ⟨report₂, h₂⟩ := (reports_compile _ _ ⟨"run", "root"⟩).exists_ok_iff.2 hnone
  obtain ⟨hlayers, -, hdocument⟩ := (compile_replaced relay).1 _ _ _ _ _ _ h₁ h₂
  exact ⟨_, report₂, h₁, h₂, hlayers, hdocument⟩

end Declaration
end Pipework
