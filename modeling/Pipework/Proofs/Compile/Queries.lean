import Pipework.Proofs.Compile.Scan

/-!
# Contexts and queries of a compiled pipeline

A compiled node has three contexts of its own, followed by those that it declares, and every channel
of an input is a query that repeats the contexts of its producer (`queries_of_compile`). The third
context names the pipeline and the node, so that the contexts of a query determine its producer
(`contexts_eq_iff`): ids may hold dots, but all names in a document start with the same pipeline.
-/

namespace Pipework

/-! ### Queries -/

namespace Document

/-- All channels of a document. -/
def channels (document : Document) : List Channel :=
  document.nodes.flatMap fun n ↦ n.inputs.values.flatMap (·.channels)

/-- The query of a declared channel: for an output that its producer has, of the type of that output
and under the contexts of the producer. -/
structure QueryOf (document : Document) (c : Declaration.Channel) (q : Channel) : Prop where
  producer : q.producer = c.producer
  output : q.output = c.output
  found : ∃ n, document.node? c.producer = some n ∧ q.contexts = n.contexts ∧
    ∃ type, n.outputs.get? c.output = some type ∧ q.artifact = ⟨type.name, type.category⟩

/-- The queries of a declared input, in the order of its channels and none left out. -/
structure QueriesOf (document : Document) (input : Declaration.Input) (q : Input) : Prop where
  channels : List.Forall₂ document.QueryOf input.channels q.channels
  minCount : q.minCount = input.minCount
  resolver : q.resolver.map (·.op) = input.resolver.map (·.op)

/-- What a document says about the contexts and inputs of a declared node. -/
structure QuerySpec (document : Document) (c : Declaration.Node) (n : Node) : Prop where
  id : n.id = c.id
  contexts : Pipeline.ContextsOf document.id document.runtime.runId c n.contexts
  notCanonical : ∀ x ∈ c.contexts, x.type ∉ ["pipeline", "pipeline_run", "node"]
  inputs : List.Forall₂ (fun e e' ↦ e'.1 = e.1 ∧ document.QueriesOf e.2 e'.2)
    c.inputs.entries n.inputs.entries

/-- Every channel of a document has the contexts of its producer. -/
theorem exists_producer {document : Document} {d : Declaration}
    (h : List.Forall₂ document.QuerySpec d.nodes document.nodes) {q : Channel}
    (hq : q ∈ document.channels) :
    ∃ n, document.node? q.producer = some n ∧ q.contexts = n.contexts := by
  obtain ⟨n, hn, hq⟩ := List.mem_flatMap.1 hq
  obtain ⟨input, hinput, hq⟩ := List.mem_flatMap.1 hq
  obtain ⟨e, he, rfl⟩ := List.mem_map.1 hinput
  obtain ⟨c, -, hc⟩ := exists_mem_of_forall₂_right h hn
  obtain ⟨e', -, -, hqueries⟩ := exists_mem_of_forall₂_right hc.inputs he
  obtain ⟨x, -, hx⟩ := exists_mem_of_forall₂_right hqueries.channels hq
  obtain ⟨producer, hproducer, hcontexts, -⟩ := hx.found
  exact ⟨producer, by rw [hx.producer, hproducer], hcontexts⟩

/-- The third context of a node names it. -/
theorem contexts_getElem?_two {document : Document} {d : Declaration}
    (h : List.Forall₂ document.QuerySpec d.nodes document.nodes) {id : NodeId} {n : Node}
    (hn : document.node? id = some n) :
    n.contexts[2]? = some ⟨"node", .field (.string (document.id ++ "." ++ id))⟩ := by
  obtain ⟨c, -, hc⟩ := exists_mem_of_forall₂_right h (List.mem_of_find?_eq_some hn)
  have hbeq := List.find?_some hn
  have hid : n.id = id := eq_of_beq hbeq
  obtain ⟨declared, -, hcontexts⟩ := hc.contexts
  rw [hcontexts, ← hc.id, hid]
  rfl

/-- **Contexts determine the producer.** -/
theorem contexts_eq_iff {document : Document} {d : Declaration}
    (h : List.Forall₂ document.QuerySpec d.nodes document.nodes) {q q' : Channel}
    (hq : q ∈ document.channels) (hq' : q' ∈ document.channels) :
    q.contexts = q'.contexts ↔ q.producer = q'.producer := by
  obtain ⟨n, hn, hcontexts⟩ := exists_producer h hq
  obtain ⟨n', hn', hcontexts'⟩ := exists_producer h hq'
  constructor
  · intro heq
    have hthird : n.contexts[2]? = n'.contexts[2]? := by rw [← hcontexts, heq, hcontexts']
    rw [contexts_getElem?_two h hn, contexts_getElem?_two h hn'] at hthird
    simpa [String.append_right_inj] using hthird
  · intro heq
    rw [heq, hn', Option.some.injEq] at hn
    rw [hcontexts, hcontexts', hn]

end Document

namespace Pipeline

variable {d : Declaration} {options : CompileOptions} {m : Deployment} {p : Pipeline}

/-- A node of a pipeline is found in its document. -/
theorem node?_toDocument (hp : p.Indexed) {n : Node} (hn : n ∈ p.nodes) :
    p.toDocument.node? n.id = some n.toDocument := by
  rw [Document.node?, toDocument, List.find?_map]
  rcases hfind : List.find? _ p.nodes with - | n'
  · exact absurd (beq_self_eq_true n.id) (List.find?_eq_none.1 hfind n hn)
  · have hbeq := List.find?_some hfind
    have hid : n'.id = n.id := eq_of_beq hbeq
    have hnode := hp.node?_eq_some_iff.2 ⟨List.mem_of_find?_eq_some hfind, hid⟩
    rw [hp.node?_eq_some_iff.2 ⟨hn, rfl⟩, Option.some.injEq] at hnode
    rw [hnode, Option.map_some]

/-- Resolving a chain keeps its operations and their order. -/
theorem map_op_of_resolveSteps {id : NodeId} {key : InputKey} {i : Nat}
    {steps : List Declaration.Step} {steps' : List Document.Step}
    (h : resolveSteps id key i steps = .ok steps') :
    steps'.map (·.op) = steps.map (·.op) := by
  induction steps generalizing i steps' with
  | nil =>
    cases h
    rfl
  | cons s steps ih =>
    rw [resolveSteps] at h
    obtain ⟨config, -, h⟩ := bind_eq_ok_iff.1 h
    obtain ⟨rest, hrest, heq⟩ := bind_eq_ok_iff.1 h
    cases heq
    rw [List.map_cons, List.map_cons, ih hrest]

/-- **The query of a channel is that of the node which the document has for its producer.** -/
theorem queryOf_toDocument (hp : p.Indexed) {id : NodeId} {key : InputKey}
    {c : Declaration.Channel} {q : Document.Channel} (h : p.resolveChannel id key c = .ok q) :
    p.toDocument.QueryOf c q := by
  obtain ⟨n, hn, hid, type, htype, rfl⟩ := (resolveChannel_eq_ok_iff hp).1 h
  refine ⟨rfl, rfl, n.toDocument, ?_, rfl, type, htype, rfl⟩
  rw [← hid]
  exact node?_toDocument hp hn

/-- **Every node has the queries that it is declared with**: for each input its channels, steps and
least count. -/
theorem querySpec_toDocument (h : Declared d options p) (hs : p.Settled m) :
    List.Forall₂ p.toDocument.QuerySpec d.nodes p.toDocument.nodes := by
  rw [toDocument, List.forall₂_map_right_iff]
  refine (forall₂_mem h.nodes).imp fun c n hmem ↦ ?_
  obtain ⟨-, hn, hc⟩ := hmem
  refine ⟨hc.id, ?_, ?_, ?_⟩
  · show ContextsOf p.id p.runtime.runId c n.contexts
    rw [List.map_inj_left.1 (settled_contexts_iff.1 hs.contexts) n hn, contextsOf, hc.id,
      hc.contexts]
    exact contextsOf_append _ _ c
  · intro x hx
    have := hc.notCanonical x hx
    simpa [isCanonicalContextType, canonicalContextTypes] using this
  · have hinputs := inputs_of_settled hs.channels hn
    rw [hc.inputs] at hinputs
    refine hinputs.imp fun e e' he ↦ ?_
    obtain ⟨hkey, hresolve⟩ := he
    refine ⟨hkey, ?_⟩
    obtain ⟨hchannels, hsteps, hcount⟩ := resolveInput_eq_ok_iff.1 hresolve
    exact ⟨hchannels.imp fun _ _ ↦ queryOf_toDocument h.indexed, hcount,
      map_op_of_resolveSteps hsteps⟩

end Pipeline

/-- **Contexts and queries of a compiled pipeline.** Every declared node has its contexts and its
inputs, and channels have the same contexts exactly when they have the same producer. -/
theorem Declaration.queries_of_compile {d : Declaration} {m : Deployment}
    {options : CompileOptions} {report : CompileReport} (h : d.compile m options = .ok report) :
    report.document.id = d.id ∧
      List.Forall₂ report.document.QuerySpec d.nodes report.document.nodes ∧
      ∀ q ∈ report.document.channels, ∀ q' ∈ report.document.channels,
        q.contexts = q'.contexts ↔ q.producer = q'.producer := by
  obtain ⟨p, hp, hs, rfl⟩ := Pipeline.exists_settled_of_compile h
  have hspec := Pipeline.querySpec_toDocument hp hs
  exact ⟨hp.id, hspec, fun q hq q' hq' ↦ Document.contexts_eq_iff hspec hq hq'⟩

/-- A source with a context of each kind, and a sink that reads it twice. -/
theorem queries_of_compile_junction : ∃ report sink left right input q₁ q₂ q₃,
    Declaration.junction.compile .junction {} = .ok report ∧
    report.document.nodes = [sink, left, right] ∧
    left.contexts = [⟨"pipeline", .field (.string "junction")⟩,
      ⟨"pipeline_run", .runtime report.document.runtime.runId⟩,
      ⟨"node", .field (.string "junction.left")⟩, ⟨"region", .field (.string "north")⟩,
      ⟨"batch", .runtime ⟨"batch-id", .string, none⟩⟩] ∧
    sink.inputs.entries = [("in", input)] ∧ input.channels = [q₁, q₂, q₃] ∧
    input.channels.map (·.producer) = ["left", "right", "left"] ∧
    input.minCount = some 2 ∧ input.resolver.map (·.op) = [.latestArtifact] ∧
    q₁.contexts = q₃.contexts ∧ q₁.contexts ≠ q₂.contexts := by
  obtain ⟨report, h⟩ :=
    (Declaration.reports_compile .junction .junction {}).exists_ok_iff.2 (by decide +kernel)
  obtain ⟨hid, hnodes, hchannels⟩ := Declaration.queries_of_compile h
  obtain ⟨sink, _, hsink, hnodes₁, hlist⟩ := List.forall₂_cons_left_iff.1 hnodes
  obtain ⟨left, _, hleft, hnodes₂, rfl⟩ := List.forall₂_cons_left_iff.1 hnodes₁
  obtain ⟨right, _, -, ⟨⟩, rfl⟩ := List.forall₂_cons_left_iff.1 hnodes₂
  -- the contexts of the source
  obtain ⟨_, hcontexts, heq⟩ := hleft.contexts
  obtain ⟨_, _, ⟨⟩, hcontexts₁, rfl⟩ := List.forall₂_cons_left_iff.1 hcontexts
  obtain ⟨_, _, ⟨⟩, ⟨⟩, rfl⟩ := List.forall₂_cons_left_iff.1 hcontexts₁
  rw [hid] at heq
  -- the input of the sink
  obtain ⟨⟨_, input⟩, _, ⟨rfl, hinput⟩, ⟨⟩, hentries⟩ :=
    List.forall₂_cons_left_iff.1 hsink.inputs
  obtain ⟨q₁, _, h₁, hqueries₁, hq⟩ := List.forall₂_cons_left_iff.1 hinput.channels
  obtain ⟨q₂, _, h₂, hqueries₂, rfl⟩ := List.forall₂_cons_left_iff.1 hqueries₁
  obtain ⟨q₃, _, h₃, ⟨⟩, rfl⟩ := List.forall₂_cons_left_iff.1 hqueries₂
  replace hq : input.channels = [q₁, q₂, q₃] := hq
  have hmem {q : Document.Channel} (hmem : q ∈ input.channels) : q ∈ report.document.channels := by
    have hvalues : sink.inputs.values = [input] := by rw [Dict.values, hentries]; rfl
    simp [Document.channels, hlist, hvalues, hmem]
  have hmem₁ : q₁ ∈ report.document.channels := hmem (by simp [hq])
  have hmem₂ : q₂ ∈ report.document.channels := hmem (by simp [hq])
  have hmem₃ : q₃ ∈ report.document.channels := hmem (by simp [hq])
  refine ⟨report, sink, left, right, input, q₁, q₂, q₃, h, hlist, heq, hentries, hq, ?_,
    hinput.minCount, hinput.resolver, (hchannels q₁ hmem₁ q₃ hmem₃).2 ?_,
    fun hsame ↦ absurd ((hchannels q₁ hmem₁ q₂ hmem₂).1 hsame) ?_⟩
  · rw [hq, List.map_cons, h₁.producer, List.map_cons, h₂.producer, List.map_cons, h₃.producer]
    rfl
  · rw [h₁.producer, h₃.producer]
  · rw [h₁.producer, h₂.producer]
    decide

end Pipework
