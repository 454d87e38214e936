import Pipework.Proofs.Pipeline.Settled

/-!
# Pipelines and their declarations

Whatever stages have run on a pipeline, its nodes are those of the declaration, one by one
(`declared_of_assemble`). Once the channels are settled, so are the references between them: the
graph of the pipeline is that of the declaration (`graph_eq`).
-/

namespace Pipework

/-! ### The references of a declaration -/

namespace Declaration

/-- The ids of the nodes in declaration order. -/
def ids (d : Declaration) : List NodeId :=
  d.nodes.map (·.id)

/-- The nodes to which a node refers, with the place of each reference: the channels of its inputs
in key order, then the entries of its `after` list, each once. -/
def Node.references (n : Node) : List (NodeId × ReferenceSite) :=
  (n.inputs.entries.flatMap fun e ↦ e.2.channels.map fun c ↦ (c.producer, .input e.1)) ++
    (Pipeline.firstOccurrences n.after).map fun id ↦ (id, .after)

/-- The graph of a declaration, with an edge to every node from those to which it refers. -/
def graph (d : Declaration) : Graph NodeId ReferenceSite :=
  referenceGraph (d.nodes.map fun n ↦ (n.id, n.references))

/-- A node reads another one or lists it in its `after` list. -/
def Node.RefersTo (n : Node) (id : NodeId) : Prop :=
  (∃ e ∈ n.inputs.entries, ∃ c ∈ e.2.channels, c.producer = id) ∨ id ∈ n.after

instance (n : Node) (id : NodeId) : Decidable (n.RefersTo id) :=
  inferInstanceAs (Decidable (_ ∨ _))

/-- A node refers to the nodes in its list of references. -/
theorem Node.mem_references {n : Node} {id : NodeId} :
    id ∈ n.references.map Prod.fst ↔ n.RefersTo id := by
  simp only [references, List.map_append, List.mem_append, List.map_flatMap, List.mem_flatMap,
    List.map_map, List.mem_map, Function.comp_apply, Pipeline.mem_firstOccurrences, RefersTo,
    exists_eq_right]

theorem nodes_graph (d : Declaration) : d.graph.nodes = d.ids := by
  show (d.nodes.map fun n ↦ (n.id, n.references)).map Prod.fst = _
  rw [List.map_map]
  rfl

/-- **There is an edge to a node exactly from those to which it refers.** -/
theorem adj_graph_iff {d : Declaration} (hnodup : d.ids.Nodup) {i j : Nat} {x : NodeId} {n : Node}
    (hx : d.ids[j]? = some x) (hn : d.nodes[i]? = some n) : d.graph.Adj j i ↔ n.RefersTo x := by
  have hids : (d.nodes.map fun n ↦ (n.id, n.references)).map Prod.fst = d.ids := d.nodes_graph
  have hnode : (d.nodes.map fun n ↦ (n.id, n.references))[i]? = some (n.id, n.references) := by
    rw [List.getElem?_map, hn, Option.map_some]
  rw [← Node.mem_references]
  exact adj_referenceGraph_iff (by rwa [hids]) (by rwa [hids]) hnode

end Declaration

namespace Pipeline

variable {d : Declaration} {options : CompileOptions} {p : Pipeline}

/-! ### Declared nodes -/

/-- What a node has from its declaration, whatever stages have run. -/
structure Node.DeclaredAs (n : Node) (c : Declaration.Node) : Prop where
  id : n.id = c.id
  type : n.type = c.type
  kind : n.kind = c.kind
  contexts : n.extraContexts = c.contexts.map declaredContext
  notCanonical : ∀ x ∈ c.contexts, isCanonicalContextType x.type = false
  inputs : n.declaredInputs = c.inputs
  outputs : n.outputs = c.outputs
  parameters : c.parameters.traverse (parameterValue c.id) = .ok n.parameters
  after : n.after = firstOccurrences c.after
  options : n.options = ⟨c.enableCache, c.maxRetries⟩

/-- A node keeps what was declared of it, whatever has been computed since it was built. -/
theorem declaredAs_of_buildNode {c : Declaration.Node} {n : Node}
    (h : buildNode c = .ok n.bare) : n.DeclaredAs c := by
  obtain ⟨hcontexts, hparameters, hn⟩ := buildNode_eq_ok_iff.1 h
  simp only [Node.bare, Node.ofDeclaration, Node.mk.injEq] at hn
  obtain ⟨hid, htype, hkind, hextra, -, hinputs, -, houtputs, -, hafter, -, -, hoptions⟩ := hn
  exact ⟨hid, htype, hkind, hextra, hcontexts, hinputs, houtputs, hparameters, hafter, hoptions⟩

/-- What a pipeline has from its declaration, whatever stages have run. -/
structure Declared (d : Declaration) (options : CompileOptions) (p : Pipeline) : Prop where
  id : p.id = d.id
  runId : p.runtime.runId = .text options.runParameter
  root : p.runtime.root = ⟨options.rootParameter, .string, d.root.map .string⟩
  mode : p.mode = d.mode
  nodes : List.Forall₂ (fun c n ↦ n.DeclaredAs c) d.nodes p.nodes
  indexed : p.Indexed
  known : ∀ c ∈ d.nodes, ∀ x, c.RefersTo x → x ∈ d.ids

theorem Declared.ids (h : Declared d options p) : p.ids = d.ids :=
  (map_eq_of_forall₂ h.nodes fun _ _ hn ↦ hn.id.symm).symm

/-- Every declared node has its node in the pipeline, where it is found by its id. -/
theorem Declared.exists_node (h : Declared d options p) {c : Declaration.Node}
    (hc : c ∈ d.nodes) : ∃ n, p.node? c.id = some n ∧ n.DeclaredAs c := by
  obtain ⟨n, hn, hdeclared⟩ := exists_mem_of_forall₂ h.nodes hc
  exact ⟨n, h.indexed.node?_eq_some_iff.2 ⟨hn, hdeclared.id⟩, hdeclared⟩

/-- **Every pipeline over an assembled one has what is declared.** -/
theorem declared_of_assemble (h : assemble d options = .ok p.bare) : Declared d options p := by
  have hassembled := assembled_of_assemble h
  have hindexed : p.Indexed := indexed_of_bare_eq (bare_bare p) hassembled.indexed
  have hids : p.ids = d.ids := (ids_bare p).symm.trans hassembled.ids
  refine ⟨hassembled.id, hassembled.runId, hassembled.root, hassembled.mode, ?_, hindexed, ?_⟩
  · have hnodes := hassembled.nodes
    rw [bare, List.forall₂_map_right_iff] at hnodes
    exact hnodes.imp fun _ _ ↦ declaredAs_of_buildNode
  · intro c hc x hx
    obtain ⟨n, hn, hbuild⟩ := exists_mem_of_forall₂ hassembled.nodes hc
    have hcheck := checkReferences_eq_ok_iff.1 (hassembled.references n hn)
    rw [(buildNode_eq_ok_iff.1 hbuild).2.2] at hcheck
    obtain ⟨hinputs, hafter⟩ := hcheck
    rw [← hids]
    refine hindexed.contains_iff.1 ?_
    rcases hx with ⟨e, he, y, hy, rfl⟩ | hx
    · exact (hinputs e he).2 y hy
    · exact hafter x (mem_firstOccurrences.2 hx)

/-! ### Resolved channels -/

/-- **A channel is resolved** to a query for an output that its producer has. -/
theorem resolveChannel_eq_ok_iff (hp : p.Indexed) {id : NodeId} {key : InputKey}
    {c : Declaration.Channel} {r : Document.Channel} :
    p.resolveChannel id key c = .ok r ↔ ∃ n ∈ p.nodes, n.id = c.producer ∧
      ∃ type, n.outputs.get? c.output = some type ∧
        r = ⟨c.producer, n.contexts, type.ref, c.output⟩ := by
  rw [resolveChannel]
  constructor
  · intro h
    rcases hn : p.node? c.producer with - | n
    · simp [hn] at h
    · rcases ht : n.outputs.get? c.output with - | type
      · simp [hn, ht] at h
      · simp only [hn, ht, Except.ok.injEq] at h
        obtain ⟨hmem, hid⟩ := hp.node?_eq_some_iff.1 hn
        exact ⟨n, hmem, hid, type, ht, by rw [← h, hid]⟩
  · rintro ⟨n, hmem, hid, type, ht, rfl⟩
    simp only [hp.node?_eq_some_iff.2 ⟨hmem, hid⟩, ht, hid]

/-- **An input is resolved** channel by channel and step by step, and keeps its least count. -/
theorem resolveInput_eq_ok_iff {id : NodeId} {key : InputKey} {input : Declaration.Input}
    {r : Document.Input} :
    p.resolveInput id key input = .ok r ↔
      List.Forall₂ (fun c c' ↦ p.resolveChannel id key c = .ok c') input.channels r.channels ∧
      resolveSteps id key 0 input.resolver = .ok r.resolver ∧ r.minCount = input.minCount := by
  rw [resolveInput, bind_eq_ok_iff, ← mapM_eq_ok_iff]
  constructor
  · rintro ⟨channels, hchannels, h⟩
    obtain ⟨steps, hsteps, heq⟩ := bind_eq_ok_iff.1 h
    cases heq
    exact ⟨hchannels, hsteps, rfl⟩
  · rintro ⟨hchannels, hsteps, hcount⟩
    refine ⟨_, hchannels, bind_eq_ok_iff.2 ⟨_, hsteps, ?_⟩⟩
    rw [← hcount]
    rfl

/-- **Settled inputs** are the declared ones, each resolved. -/
theorem inputs_of_settled (h : Stage.channels.Settled p) {n : Node} (hn : n ∈ p.nodes) :
    List.Forall₂ (fun e e' ↦ e'.1 = e.1 ∧ p.resolveInput n.id e.1 e.2 = .ok e'.2)
      n.declaredInputs.entries n.inputs.entries := by
  have hresolved := mapM_eq_ok_iff.1 (settled_channels_iff.1 h)
  rw [List.forall₂_map_right_iff, List.forall₂_same] at hresolved
  exact Dict.traverse_eq_ok_iff.1 (hresolved n hn)

/-- **Settled references** are the declared ones. -/
theorem references_eq (h : Declared d options p) (hs : Stage.channels.Settled p) :
    (p.nodes.map fun n ↦ (n.id, n.references)) = d.nodes.map fun c ↦ (c.id, c.references) := by
  refine (map_eq_of_forall₂ (forall₂_mem h.nodes) fun c n hmem ↦ ?_).symm
  obtain ⟨-, hn, hc⟩ := hmem
  have hinputs := inputs_of_settled hs hn
  rw [hc.inputs] at hinputs
  rw [hc.id, Node.references, Declaration.Node.references, hc.after]
  congr 2
  refine flatMap_eq_of_forall₂ hinputs fun e e' he ↦ ?_
  obtain ⟨hkey, hresolve⟩ := he
  refine map_eq_of_forall₂ (resolveInput_eq_ok_iff.1 hresolve).1 fun x x' hx ↦ ?_
  obtain ⟨-, -, -, -, -, rfl⟩ := (resolveChannel_eq_ok_iff h.indexed).1 hx
  rw [hkey]

/-- **The graph** of a pipeline whose channels are settled is that of the declaration. -/
theorem graph_eq (h : Declared d options p) (hs : Stage.channels.Settled p) :
    p.graph = .ok d.graph := by
  rw [Declaration.graph, ← references_eq h hs]
  refine graph_eq_referenceGraph h.indexed fun n hn r hr ↦ ?_
  have hdeclared : (n.id, n.references) ∈ d.nodes.map fun c ↦ (c.id, c.references) := by
    rw [← references_eq h hs]
    exact List.mem_map_of_mem hn
  obtain ⟨c, hc, heq⟩ := List.mem_map.1 hdeclared
  have hreferences : c.references = n.references := congrArg Prod.snd heq
  rw [h.ids]
  refine h.known c hc r.1 (Declaration.Node.mem_references.1 ?_)
  rw [hreferences]
  exact List.mem_map_of_mem hr

/-! ### Compiled pipelines -/

/-- **A report is about a settled pipeline** over the declaration. -/
theorem exists_settled_of_compile {m : Deployment} {report : CompileReport}
    (h : d.compile m options = .ok report) : ∃ p, Declared d options p ∧ p.Settled m ∧
      report = ⟨p.toDocument, p.layerIds, p.counts⟩ := by
  rw [Declaration.compile] at h
  obtain ⟨p, hbuild, h⟩ := bind_eq_ok_iff.1 h
  obtain ⟨document, hemit, h⟩ := bind_eq_ok_iff.1 h
  obtain ⟨hassemble, hsettled⟩ := build_eq_ok_iff.1 hbuild
  obtain ⟨-, hdocument⟩ := seq_eq_ok_iff.1 hemit
  cases hdocument
  cases h
  exact ⟨p, declared_of_assemble hassemble, hsettled, rfl⟩

end Pipeline

theorem isSome_compile_relay :
    (Declaration.relay.compile .relay {}).toOption.isSome = true := by decide +kernel

end Pipework
