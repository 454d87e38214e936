import Pipework.Proofs.Pipeline.Frame

/-!
# The assembled pipeline

What is known of a pipeline once it is assembled (`assembled_of_assemble`): its nodes are those of
the declaration, each built on its own; its index has exactly their ids; and every reference of
every node leads to a node. The nodes of the pipeline are compared with those of the declaration
one by one, so that a fact about one node of a declaration has its counterpart in the pipeline.
-/

namespace Pipework

namespace Pipeline

/-! ### Single nodes -/

/-- The context of a node that declares it. -/
def declaredContext (c : Declaration.Context) : Document.Context :=
  ⟨c.type, contextValue c.value⟩

/-- How a document has a declared context: a literal is a known text, and a name stands for a text
parameter without a default. -/
inductive ContextOf : Declaration.Context → Document.Context → Prop
  | literal (type s : String) : ContextOf ⟨type, .literal s⟩ ⟨type, .field (.string s)⟩
  | runtime (type name : String) :
      ContextOf ⟨type, .runtime name⟩ ⟨type, .runtime ⟨name, .string, none⟩⟩

/-- The contexts of a declared node in a document: its pipeline, its run and itself, and then those
that it declares. -/
def ContextsOf (pipeline : String) (run : RuntimeParameter) (c : Declaration.Node)
    (contexts : List Document.Context) : Prop :=
  ∃ declared, List.Forall₂ ContextOf c.contexts declared ∧
    contexts = [⟨"pipeline", .field (.string pipeline)⟩, ⟨"pipeline_run", .runtime run⟩,
      ⟨"node", .field (.string (pipeline ++ "." ++ c.id))⟩] ++ declared

/-- What is computed of a declared context is what `ContextOf` says. -/
theorem contextOf_declaredContext (c : Declaration.Context) : ContextOf c (declaredContext c) := by
  obtain ⟨type, s | name⟩ := c
  · exact .literal type s
  · exact .runtime type name

/-- The contexts that a node is given are those that its document should have. -/
theorem contextsOf_append (pipeline : String) (run : RuntimeParameter) (c : Declaration.Node) :
    ContextsOf pipeline run c
      (canonicalContexts pipeline run c.id ++ c.contexts.map declaredContext) :=
  ⟨_, List.forall₂_map_right_iff.2 (List.forall₂_same.2 fun x _ ↦ contextOf_declaredContext x), rfl⟩

/-- Contexts are taken over unless one of them has a reserved type. -/
theorem declaredContexts_eq_ok_iff {id : NodeId} {cs : List Declaration.Context}
    {contexts : List Document.Context} :
    declaredContexts id cs = .ok contexts ↔
      (∀ c ∈ cs, isCanonicalContextType c.type = false) ∧ contexts = cs.map declaredContext := by
  induction cs generalizing contexts with
  | nil =>
    rw [declaredContexts]
    constructor
    · rintro ⟨⟩
      exact ⟨fun c hc ↦ absurd hc List.not_mem_nil, rfl⟩
    · rintro ⟨-, rfl⟩
      rfl
  | cons c cs ih =>
    rw [declaredContexts]
    split
    next hc => simp [hc]
    next hc =>
      rw [bind_eq_ok_iff]
      constructor
      · rintro ⟨rest, hrest, heq⟩
        obtain ⟨hcs, rfl⟩ := ih.1 hrest
        cases heq
        exact ⟨List.forall_mem_cons.2 ⟨Bool.eq_false_iff.2 hc, hcs⟩, rfl⟩
      · rintro ⟨hcs, rfl⟩
        exact ⟨cs.map declaredContext, ih.2 ⟨(List.forall_mem_cons.1 hcs).2, rfl⟩, rfl⟩

/-- The node of a declaration with given values of its parameters. -/
def Node.ofDeclaration (d : Declaration.Node) (parameters : Dict Value) : Node where
  id := d.id
  type := d.type
  kind := d.kind
  extraContexts := d.contexts.map declaredContext
  contexts := []
  declaredInputs := d.inputs
  inputs := .empty
  outputs := d.outputs
  parameters := parameters
  after := firstOccurrences d.after
  dependencies := []
  dependents := []
  options := ⟨d.enableCache, d.maxRetries⟩

/-- **A node is built** if it declares no canonical context and its parameters have values. -/
theorem buildNode_eq_ok_iff {d : Declaration.Node} {n : Node} :
    buildNode d = .ok n ↔ (∀ c ∈ d.contexts, isCanonicalContextType c.type = false) ∧
      d.parameters.traverse (parameterValue d.id) = .ok n.parameters ∧
      n = .ofDeclaration d n.parameters := by
  rw [buildNode, bind_eq_ok_iff]
  constructor
  · rintro ⟨contexts, hcontexts, h⟩
    obtain ⟨hcs, rfl⟩ := declaredContexts_eq_ok_iff.1 hcontexts
    obtain ⟨parameters, hparameters, hn⟩ := bind_eq_ok_iff.1 h
    cases hn
    exact ⟨hcs, hparameters, rfl⟩
  · rintro ⟨hcs, hparameters, hn⟩
    refine ⟨_, declaredContexts_eq_ok_iff.2 ⟨hcs, rfl⟩, ?_⟩
    refine bind_eq_ok_iff.2 ⟨n.parameters, hparameters, ?_⟩
    rw [hn]
    rfl

/-- Leaving out repetitions keeps the members. -/
theorem mem_firstOccurrences {x : NodeId} {xs : List NodeId} :
    x ∈ firstOccurrences xs ↔ x ∈ xs := by
  induction xs with
  | nil => simp [firstOccurrences]
  | cons y ys ih =>
    simp only [firstOccurrences, List.mem_cons, List.mem_filter, ih, bne_iff_ne]
    tauto

/-! ### The index -/

theorem indexes_empty : Indexes .empty [] := fun x i ↦ by simp [Dict.get?_empty]

/-- An index goes on being one when the id of a further node is added to it. -/
theorem Indexes.insert {index : Dict Nat} {ids : List NodeId} (h : Indexes index ids) {x : NodeId}
    (hx : x ∉ ids) : Indexes (index.insert x ids.length) (ids ++ [x]) := by
  intro y i
  rw [Dict.get?_insert, List.getElem?_append]
  by_cases hyx : y = x
  · subst hyx
    have hi : ids[i]? ≠ some y := fun hi ↦ hx (List.mem_of_getElem? hi)
    rcases Nat.lt_trichotomy i ids.length with hlt | rfl | hgt
    · simp only [if_pos, hlt, hi, Option.some.injEq, Nat.ne_of_gt hlt]
    · simp
    · have hlength : [y].length ≤ i - ids.length := by
        rw [List.length_singleton]
        omega
      rw [if_pos rfl, if_neg (Nat.not_lt_of_gt hgt), List.getElem?_eq_none hlength]
      simp [Nat.ne_of_lt hgt]
  · rw [if_neg hyx, h y i]
    split
    · rfl
    next hge =>
      rw [List.getElem?_eq_none (Nat.not_lt.1 hge)]
      rcases hj : i - ids.length with - | j
      · simp [Ne.symm hyx]
      · simp

/-- An id is accepted if it is a name and new. -/
theorem checkNodeId_eq_ok_iff {index : Dict Nat} {ids : List NodeId} (h : Indexes index ids)
    {x : NodeId} : checkNodeId index x = .ok () ↔ checkName x = .ok () ∧ x ∉ ids := by
  rw [checkNodeId, checkId, ← h.contains_iff]
  rcases checkName x with e | ⟨⟩
  · simp [Except.mapError, bind, Except.bind]
  · rcases hc : index.contains x <;> simp [Except.mapError, bind, Except.bind, pure, Except.pure]

/-- **The nodes after those that are already in the index.** -/
theorem of_buildNodes {ds : List Declaration.Node} {index index' : Dict Nat} {ids : List NodeId}
    {ns : List Node} (hindex : Indexes index ids)
    (h : buildNodes index ids.length ds = .ok (ns, index')) :
    List.Forall₂ (fun d n ↦ buildNode d = .ok n) ds ns ∧
      Indexes index' (ids ++ ds.map (·.id)) := by
  induction ds generalizing index ids ns with
  | nil =>
    cases h
    exact ⟨.nil, by simpa using hindex⟩
  | cons d ds ih =>
    rw [buildNodes] at h
    obtain ⟨⟨⟩, hid, h⟩ := bind_eq_ok_iff.1 h
    obtain ⟨n, hn, h⟩ := bind_eq_ok_iff.1 h
    obtain ⟨⟨ns', index''⟩, hrest, heq⟩ := bind_eq_ok_iff.1 h
    cases heq
    have hnext := hindex.insert ((checkNodeId_eq_ok_iff hindex).1 hid).2
    obtain ⟨hns, hindex'⟩ := ih hnext (by rwa [List.length_append])
    refine ⟨.cons hn hns, ?_⟩
    rwa [List.append_assoc] at hindex'

/-! ### References -/

/-- A reference is right if the index has the producer. -/
theorem checkReference_eq_ok_iff {index : Dict Nat} {id producer : NodeId} {site : ReferenceSite} :
    checkReference index id site producer = .ok () ↔ index.contains producer = true := by
  rw [checkReference]
  split <;> simp_all

/-- The references of a node lead to nodes, and no input is without any. -/
theorem checkReferences_eq_ok_iff {index : Dict Nat} {n : Node} :
    checkReferences index n = .ok () ↔
      (∀ e ∈ n.declaredInputs.entries, e.2.channels ≠ [] ∧
        ∀ c ∈ e.2.channels, index.contains c.producer = true) ∧
      ∀ x ∈ n.after, index.contains x = true := by
  have hinput : ∀ e : InputKey × Declaration.Input, checkInput index n.id e.1 e.2 = .ok () ↔
      e.2.channels ≠ [] ∧ ∀ c ∈ e.2.channels, index.contains c.producer = true := by
    intro e
    rw [checkInput]
    split
    next he => simp [List.isEmpty_iff.1 he]
    next he =>
      rw [forM_eq_ok_iff]
      simp only [checkReference_eq_ok_iff]
      exact (and_iff_right fun h ↦ he (List.isEmpty_iff.2 h)).symm
  rw [checkReferences, seq_eq_ok_iff, forM_eq_ok_iff, forM_eq_ok_iff]
  simp only [hinput, checkReference_eq_ok_iff]

/-! ### The pipeline -/

/-- The pipeline is what is assembled from the declaration. -/
structure Assembled (d : Declaration) (options : CompileOptions) (p : Pipeline) : Prop where
  id : p.id = d.id
  runId : p.runtime.runId = .text options.runParameter
  root : p.runtime.root = ⟨options.rootParameter, .string, d.root.map .string⟩
  mode : p.mode = d.mode
  nodes : List.Forall₂ (fun d n ↦ buildNode d = .ok n) d.nodes p.nodes
  indexed : p.Indexed
  references : ∀ n ∈ p.nodes, checkReferences p.index n = .ok ()
  deployment : p.deployment = .empty
  layers : p.layers = []

/-- Building nodes keeps their ids and their order. -/
theorem map_ids_of_buildNode {ds : List Declaration.Node} {ns : List Node}
    (h : List.Forall₂ (fun d n ↦ buildNode d = .ok n) ds ns) :
    ns.map (·.id) = ds.map (·.id) := by
  refine (map_eq_of_forall₂ h fun d n hn ↦ ?_).symm
  rw [(buildNode_eq_ok_iff.1 hn).2.2]
  rfl

/-- **An assembled pipeline has the declared nodes**, with nothing computed yet. -/
theorem assembled_of_assemble {d : Declaration} {options : CompileOptions} {p : Pipeline}
    (h : assemble d options = .ok p) : Assembled d options p := by
  rw [assemble] at h
  obtain ⟨-, -, h⟩ := bind_eq_ok_iff.1 h
  obtain ⟨⟨ns, index⟩, hbuild, h⟩ := bind_eq_ok_iff.1 h
  obtain ⟨⟨⟩, hreferences, heq⟩ := bind_eq_ok_iff.1 h
  obtain ⟨hns, hindex⟩ := of_buildNodes indexes_empty hbuild
  cases heq
  exact ⟨rfl, rfl, rfl, rfl, hns, by rwa [List.nil_append, ← map_ids_of_buildNode hns] at hindex,
    forM_eq_ok_iff.1 hreferences, rfl, rfl⟩

namespace Assembled

variable {d : Declaration} {options : CompileOptions} {p : Pipeline}

theorem ids (h : Assembled d options p) : p.ids = d.nodes.map (·.id) :=
  map_ids_of_buildNode h.nodes

end Assembled
end Pipeline

/-! ### Small declarations

A sink, declared first, reads the copy of a source, or it reads two sources. -/

/-- Three nodes in an order that is not one in which they can run. -/
def Declaration.relay : Declaration where
  id := "relay"
  root := none
  mode := .sync
  nodes :=
    [(Node.new "sink" "Sink").withInput "in" "copy" "data",
      (Node.new "source" "Source").withOutput "data" "Data",
      ((Node.new "copy" "Copy").withInput "in" "source" "data").withOutput "data" "Data"]

/-- Executors for the three nodes. -/
def Deployment.relay : Deployment :=
  .ofList (["sink", "source", "copy"].map fun id ↦ (id, ⟨.native id, none⟩))

/-- A sink that reads two sources, one of them twice, and keeps the latest artifact. One source
declares a context of each kind. -/
def Declaration.junction : Declaration where
  id := "junction"
  root := none
  mode := .sync
  nodes :=
    [{ Node.new "sink" "Sink" with
        inputs := Dict.empty.insert "in"
          ⟨[⟨"left", "data"⟩, ⟨"right", "data"⟩, ⟨"left", "data"⟩], [⟨.latestArtifact, none⟩],
            some 2⟩ },
      { (Node.new "left" "Source").withOutput "data" "Data" with
        contexts := [⟨"region", .literal "north"⟩, ⟨"batch", .runtime "batch-id"⟩] },
      (Node.new "right" "Source").withOutput "data" "Data"]

/-- Executors for its nodes. -/
def Deployment.junction : Deployment :=
  .ofList (["sink", "left", "right"].map fun id ↦ (id, ⟨.native id, none⟩))

end Pipework
