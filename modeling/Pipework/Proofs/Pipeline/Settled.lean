import Pipework.Proofs.Pipeline.Assembly
import Pipework.Proofs.Pipeline.Graph

/-!
# Settled stages

A stage is *settled* on a pipeline if running it succeeds and changes nothing. The result of a build
is characterised by this: it is the only pipeline with the declared part of the assembled one on
which all stages are settled (`build_eq_ok_iff`).

* `Stage.Effect` lists what a run can leave, whether it succeeds or fails (`effect_run`). What is
  declared stays (`bare_eq_of_effect`).
* A stage is settled after it has succeeded (`settled_of_run`).
* The contexts stay settled whatever runs; the channels do so once the contexts are settled, and the
  adjacency once both are (`settled_contexts_run`, `settled_channels_run`, `settled_adjacency_run`).
  A deployment stays until another one succeeds (`settled_deployment_run`).
* A stage that fails changes nothing (`run_eq_or`). This needs that the symmetry check after
  the adjacency is written cannot fail.
-/

namespace Pipework

/-- Running the stage succeeds and changes nothing. -/
def Stage.Settled (s : Stage) (p : Pipeline) : Prop :=
  (s.run p).get = .ok p

/-- What a run of a stage can leave: the pipeline as it was, or with what the stage writes. -/
inductive Stage.Effect (p : Pipeline) : Stage → Pipeline → Prop
  | none (s : Stage) : Effect p s p
  | contexts : Effect p .contexts p.deriveContexts
  | channels (inputs : List (Dict Document.Input)) (resolved : p.resolved = .ok inputs) :
      Effect p .channels { p with nodes := Pipeline.setInputs p.nodes inputs }
  | adjacency (g : Graph NodeId ReferenceSite) (graph : p.graph = .ok g) (acyclic : g.Acyclic) :
      Effect p .adjacency (p.setAdjacency g.tabulated)
  | deployment (m : Deployment) (accepted : p.checkDeployment m = .ok ()) :
      Effect p (.deployment m) { p with deployment := m }

namespace Pipeline

variable {p q : Pipeline} {m : Deployment}

/-! ### What a successful stage writes -/

theorem get_resolveChannels (p : Pipeline) : p.resolveChannels.get =
    p.resolved.map fun inputs ↦ { p with nodes := setInputs p.nodes inputs } := by
  rw [resolveChannels, ← resolved]
  rcases p.resolved with e | inputs
  · rfl
  · rfl

/-- Channels are resolved all together or not at all. -/
theorem get_resolveChannels_iff : p.resolveChannels.get = .ok q ↔
    ∃ inputs, p.resolved = .ok inputs ∧ q = { p with nodes := setInputs p.nodes inputs } := by
  rw [get_resolveChannels, map_eq_ok_iff]

/-- Validation refuses a graph with a cycle, and writes neighbours and layers otherwise. -/
theorem validate_eq (hp : p.Indexed) : p.validate =
    match p.acyclicGraph with
    | .error e => ⟨p, .error e⟩
    | .ok a => ⟨p.setAdjacency a, .ok ()⟩ := by
  rw [validate]
  rcases ha : p.acyclicGraph with e | a
  · rfl
  · obtain ⟨g, hg, -, rfl⟩ := acyclicGraph_eq_ok_iff.1 ha
    simp only [checkSymmetry_setAdjacency hp (graph_nodes hg)]

/-- What a successful validation writes. -/
theorem get_validate (hp : p.Indexed) : p.validate.get = p.acyclicGraph.map p.setAdjacency := by
  rw [validate_eq hp]
  rcases p.acyclicGraph with e | a
  · rfl
  · rfl

theorem get_validate_iff (hp : p.Indexed) : p.validate.get = .ok q ↔
    ∃ a, p.acyclicGraph = .ok a ∧ q = p.setAdjacency a := by
  rw [get_validate hp, map_eq_ok_iff]

theorem get_deploy (p : Pipeline) (m : Deployment) : (p.deploy m).get =
    (p.checkDeployment m).map fun _ ↦ { p with deployment := m } := by
  rw [deploy]
  rcases p.checkDeployment m with e | ⟨⟩
  · rfl
  · rfl

/-- A deployment is kept if it passes its check. -/
theorem get_deploy_iff : (p.deploy m).get = .ok q ↔
    p.checkDeployment m = .ok () ∧ q = { p with deployment := m } := by
  rw [get_deploy, map_eq_ok_iff]
  exact ⟨fun ⟨_, hcheck, hq⟩ ↦ ⟨hcheck, hq⟩, fun ⟨hcheck, hq⟩ ↦ ⟨(), hcheck, hq⟩⟩

/-- **A stage does all of its work or nothing.** -/
theorem run_eq_or (hp : p.Indexed) (s : Stage) :
    (∃ q, s.run p = ⟨q, .ok ()⟩) ∨ ∃ e, s.run p = ⟨p, .error e⟩ := by
  cases s with
  | contexts => exact .inl ⟨_, rfl⟩
  | channels =>
    rw [Stage.run, resolveChannels]
    rcases p.nodes.mapM p.resolveInputs with e | inputs
    · exact .inr ⟨e, rfl⟩
    · exact .inl ⟨_, rfl⟩
  | adjacency =>
    rw [Stage.run, validate_eq hp]
    rcases p.acyclicGraph with e | a
    · exact .inr ⟨e, rfl⟩
    · exact .inl ⟨_, rfl⟩
  | deployment m =>
    rw [Stage.run, deploy]
    rcases p.checkDeployment m with e | ⟨⟩
    · exact .inr ⟨e, rfl⟩
    · exact .inl ⟨_, rfl⟩

/-- **The effect of a run**, whether it succeeds or fails. -/
theorem effect_run (p : Pipeline) (s : Stage) : s.Effect p (s.run p).pipeline := by
  cases s with
  | contexts => exact .contexts
  | channels =>
    rw [Stage.run, resolveChannels, ← resolved]
    rcases h : p.resolved with e | inputs
    · exact .none _
    · exact .channels inputs h
  | adjacency =>
    rw [Stage.run, validate]
    rcases h : p.acyclicGraph with e | a
    · exact .none _
    · obtain ⟨g, hg, hacyclic, rfl⟩ := acyclicGraph_eq_ok_iff.1 h
      exact .adjacency g hg hacyclic
  | deployment m =>
    rw [Stage.run, deploy]
    rcases h : p.checkDeployment m with e | ⟨⟩
    · exact .none _
    · exact .deployment m h

/-! ### The declared part -/

/-- The node as it is before any stage. -/
def Node.bare (n : Node) : Node :=
  { n with contexts := [], inputs := .empty, dependencies := [], dependents := [] }

/-- The pipeline as it is before any stage. -/
def bare (p : Pipeline) : Pipeline :=
  { p with nodes := p.nodes.map Node.bare, deployment := .empty, layers := [] }

theorem ids_bare (p : Pipeline) : p.bare.ids = p.ids := by
  rw [ids, bare, List.map_map]
  rfl

/-- The index is part of what was declared. -/
theorem index_eq_of_bare_eq (h : p.bare = q.bare) : p.index = q.index := by
  have hindex : p.bare.index = q.bare.index := by rw [h]
  exact hindex

theorem indexed_of_bare_eq (h : p.bare = q.bare) (hp : p.Indexed) : q.Indexed := by
  have hids : p.bare.ids = q.bare.ids := by rw [h]
  rw [ids_bare, ids_bare] at hids
  exact hp.congr (index_eq_of_bare_eq h) hids

/-- Pipelines with the same declared part agree in every view of it. -/
theorem agree_of_bare_eq {α : Type} {view : Node → α} (h : p.bare = q.bare)
    (hview : ∀ n, view (Node.bare n) = view n) : Agree view p q := by
  refine ⟨index_eq_of_bare_eq h, ?_⟩
  have hnodes : (p.nodes.map Node.bare).map view = (q.nodes.map Node.bare).map view :=
    congrArg (List.map view ∘ Pipeline.nodes) h
  simpa only [List.map_map, Function.comp_def, hview] using hnodes

/-- **No stage writes anything that is declared.** -/
theorem bare_eq_of_effect {s : Stage} (h : s.Effect p q) : q.bare = p.bare := by
  cases h with
  | none => rfl
  | contexts =>
    have hnodes : p.deriveContexts.nodes.map Node.bare = p.nodes.map Node.bare :=
      map_nodes_deriveContexts fun _ _ ↦ rfl
    rw [bare, hnodes]
    rfl
  | channels inputs =>
    have hnodes : (setInputs p.nodes inputs).map Node.bare = p.nodes.map Node.bare :=
      map_setInputs (fun _ _ ↦ rfl) p.nodes inputs
    simp only [bare, hnodes]
  | adjacency g =>
    have hnodes : (p.setAdjacency g.tabulated).nodes.map Node.bare = p.nodes.map Node.bare :=
      map_nodes_setAdjacency (fun _ _ _ ↦ rfl) g.tabulated
    simp only [bare, hnodes]
    rfl
  | deployment => rfl

/-- **No stage changes the declared part.** -/
theorem bare_run (s : Stage) : (s.run p).pipeline.bare = p.bare :=
  bare_eq_of_effect (effect_run p s)

theorem indexed_run (hp : p.Indexed) (s : Stage) : (s.run p).pipeline.Indexed :=
  indexed_of_bare_eq (bare_run s).symm hp

theorem eq_of_get_eq_ok {r : Run} (h : r.get = .ok q) : r = ⟨q, .ok ()⟩ := by
  obtain ⟨p, result⟩ := r
  rcases result with e | ⟨⟩
  · cases h
  · cases h
    rfl

theorem bare_of_run {s : Stage} (h : (s.run p).get = .ok q) : q.bare = p.bare := by
  rw [← bare_run (p := p) s, eq_of_get_eq_ok h]

/-! ### Settled stages as equations -/

/-- Setting inputs changes nothing if they are there already. -/
theorem setInputs_eq_self_iff {ns : List Node} {inputs : List (Dict Document.Input)}
    (h : inputs.length = ns.length) : setInputs ns inputs = ns ↔ inputs = ns.map (·.inputs) := by
  constructor
  · intro heq
    rw [← map_inputs_setInputs h, heq]
  · rintro rfl
    clear h
    induction ns with
    | nil => rfl
    | cons n ns ih => rw [List.map_cons, setInputs, ih]

theorem length_of_resolved {inputs : List (Dict Document.Input)} (h : p.resolved = .ok inputs) :
    inputs.length = p.nodes.length :=
  (mapM_eq_ok_iff.1 h).length_eq.symm

/-- Contexts are settled if every node has its own. -/
theorem settled_contexts_iff :
    Stage.contexts.Settled p ↔ p.nodes.map (·.contexts) = p.nodes.map p.contextsOf := by
  have hnode : ∀ n : Node, { n with contexts := p.contextsOf n } = n ↔
      n.contexts = p.contextsOf n := by
    refine fun n ↦ ⟨fun h ↦ ?_, fun h ↦ ?_⟩
    · rw [← congrArg Node.contexts h]
    · rw [← h]
  have hnodes : p.deriveContexts.nodes = p.nodes ↔
      p.nodes.map (·.contexts) = p.nodes.map p.contextsOf := calc
    p.deriveContexts.nodes = p.nodes
    _ ↔ (p.nodes.map fun n ↦ { n with contexts := p.contextsOf n }) = p.nodes.map fun n ↦ n := by
      rw [List.map_id', deriveContexts]
    _ ↔ ∀ n ∈ p.nodes, { n with contexts := p.contextsOf n } = n := List.map_inj_left
    _ ↔ ∀ n ∈ p.nodes, n.contexts = p.contextsOf n := forall₂_congr fun n _ ↦ hnode n
    _ ↔ p.nodes.map (·.contexts) = p.nodes.map p.contextsOf := List.map_inj_left.symm
  rw [← hnodes]
  refine ⟨fun h ↦ congrArg Pipeline.nodes (Except.ok.inj h), fun h ↦ congrArg Except.ok ?_⟩
  show { p with nodes := p.deriveContexts.nodes } = p
  rw [h]

/-- Channels are settled if they are resolved to the inputs that there are. -/
theorem settled_channels_iff :
    Stage.channels.Settled p ↔ p.resolved = .ok (p.nodes.map (·.inputs)) := by
  rw [Stage.Settled, Stage.run, get_resolveChannels_iff]
  constructor
  · rintro ⟨inputs, hinputs, hp⟩
    have hnodes := congrArg Pipeline.nodes hp
    rw [hinputs, ← (setInputs_eq_self_iff (length_of_resolved hinputs)).1 hnodes.symm]
  · intro h
    refine ⟨_, h, ?_⟩
    rw [(setInputs_eq_self_iff (List.length_map _)).2 rfl]

/-- Neighbours and layers are settled if they are those of the graph. -/
theorem settled_adjacency_iff (hp : p.Indexed) :
    Stage.adjacency.Settled p ↔ ∃ a, p.acyclicGraph = .ok a ∧ p = p.setAdjacency a :=
  get_validate_iff hp

/-- A deployment is settled if it is there and passes its check. -/
theorem settled_deployment_iff :
    (Stage.deployment m).Settled p ↔ p.checkDeployment m = .ok () ∧ p.deployment = m := by
  rw [Stage.Settled, Stage.run, get_deploy_iff]
  refine and_congr_right fun _ ↦ ⟨fun h ↦ ?_, fun h ↦ ?_⟩
  · rw [h]
  · rw [← h]

/-! ### What settles a stage and what keeps it settled -/

/-- The contexts of a node depend on what was declared. -/
theorem contextsOf_eq_of_bare_eq (h : p.bare = q.bare) : p.contextsOf = q.contextsOf := by
  have hid : p.bare.id = q.bare.id := by rw [h]
  have hruntime : p.bare.runtime = q.bare.runtime := by rw [h]
  funext n
  rw [contextsOf, contextsOf, show p.id = q.id from hid, show p.runtime = q.runtime from hruntime]

/-- Setting the same inputs again changes nothing. -/
theorem setInputs_setInputs (ns : List Node) (inputs : List (Dict Document.Input)) :
    setInputs (setInputs ns inputs) inputs = setInputs ns inputs := by
  induction ns generalizing inputs with
  | nil => rfl
  | cons n ns ih =>
    rcases inputs with - | ⟨i, inputs⟩
    · rfl
    · rw [setInputs, setInputs, ih]

/-- Setting the same neighbours again changes nothing. -/
theorem setAdjacency_setAdjacency (a : AcyclicGraph NodeId ReferenceSite) :
    (p.setAdjacency a).setAdjacency a = p.setAdjacency a := by
  have hnodes : ((p.setAdjacency a).setAdjacency a).nodes = (p.setAdjacency a).nodes := by
    refine List.ext_getElem? fun i ↦ ?_
    rw [getElem?_setAdjacency, getElem?_setAdjacency, Option.map_map]
    rfl
  show { p with nodes := ((p.setAdjacency a).setAdjacency a).nodes, layers := a.layers } = _
  rw [hnodes]
  rfl

/-- **A stage is settled after it has succeeded.** -/
theorem settled_of_run (hp : p.Indexed) {s : Stage} (h : (s.run p).get = .ok q) : s.Settled q := by
  have hq : q.Indexed := indexed_of_bare_eq (bare_of_run h).symm hp
  cases s with
  | contexts =>
    have hcontexts := contextsOf_eq_of_bare_eq (bare_of_run h)
    obtain rfl := Except.ok.inj h
    rw [settled_contexts_iff, hcontexts]
    simp [Stage.run, deriveContexts, contextsOf]
  | channels =>
    obtain ⟨inputs, hinputs, rfl⟩ := get_resolveChannels_iff.1 h
    refine get_resolveChannels_iff.2 ⟨inputs, ?_, by rw [setInputs_setInputs]⟩
    rw [← hinputs]
    exact resolved_congr ⟨rfl, map_setInputs (fun _ _ ↦ rfl) _ _⟩
  | adjacency =>
    obtain ⟨a, ha, rfl⟩ := (get_validate_iff hp).1 h
    refine (get_validate_iff hq).2 ⟨a, ?_, (setAdjacency_setAdjacency a).symm⟩
    rw [← ha]
    exact acyclicGraph_congr ⟨rfl, map_nodes_setAdjacency (fun _ _ _ ↦ rfl) a⟩
  | deployment m =>
    obtain ⟨hm, rfl⟩ := get_deploy_iff.1 h
    exact settled_deployment_iff.2 ⟨hm, rfl⟩

/-- Contexts stay settled whatever runs. -/
theorem settled_contexts_run (hp : p.Indexed) (h : Stage.contexts.Settled p) {t : Stage}
    (ht : (t.run p).get = .ok q) : Stage.contexts.Settled q := by
  have hcontexts := contextsOf_eq_of_bare_eq (bare_of_run ht)
  cases t with
  | contexts => exact settled_of_run hp ht
  | channels =>
    obtain ⟨inputs, -, rfl⟩ := get_resolveChannels_iff.1 ht
    rw [settled_contexts_iff, hcontexts, map_setInputs (fun _ _ ↦ rfl),
      map_setInputs (fun _ _ ↦ rfl)]
    exact settled_contexts_iff.1 h
  | adjacency =>
    obtain ⟨a, -, rfl⟩ := (get_validate_iff hp).1 ht
    rw [settled_contexts_iff, hcontexts, map_nodes_setAdjacency (fun _ _ _ ↦ rfl),
      map_nodes_setAdjacency (fun _ _ _ ↦ rfl)]
    exact settled_contexts_iff.1 h
  | deployment m =>
    obtain ⟨-, rfl⟩ := get_deploy_iff.1 ht
    exact settled_contexts_iff.2 ((settled_contexts_iff (p := p)).1 h)

/-- Channels stay settled once the contexts that they copy are settled. -/
theorem settled_channels_run (hp : p.Indexed) (hcontexts : Stage.contexts.Settled p)
    (h : Stage.channels.Settled p) {t : Stage} (ht : (t.run p).get = .ok q) :
    Stage.channels.Settled q := by
  cases t with
  | contexts =>
    obtain rfl := Except.ok.inj (hcontexts.symm.trans ht)
    exact h
  | channels => exact settled_of_run hp ht
  | adjacency =>
    obtain ⟨a, -, rfl⟩ := (get_validate_iff hp).1 ht
    rw [settled_channels_iff, map_nodes_setAdjacency (fun _ _ _ ↦ rfl), ← settled_channels_iff.1 h]
    exact resolved_congr ⟨rfl, map_nodes_setAdjacency (fun _ _ _ ↦ rfl) a⟩
  | deployment m =>
    obtain ⟨-, rfl⟩ := get_deploy_iff.1 ht
    rw [settled_channels_iff, ← settled_channels_iff.1 h]
    exact resolved_congr ⟨rfl, rfl⟩

/-- The adjacency stays settled once contexts and channels are settled. -/
theorem settled_adjacency_run (hp : p.Indexed) (hcontexts : Stage.contexts.Settled p)
    (hchannels : Stage.channels.Settled p) (h : Stage.adjacency.Settled p) {t : Stage}
    (ht : (t.run p).get = .ok q) : Stage.adjacency.Settled q := by
  have hq : q.Indexed := indexed_of_bare_eq (bare_of_run ht).symm hp
  cases t with
  | contexts =>
    obtain rfl := Except.ok.inj (hcontexts.symm.trans ht)
    exact h
  | channels =>
    obtain rfl := Except.ok.inj (hchannels.symm.trans ht)
    exact h
  | adjacency => exact settled_of_run hp ht
  | deployment m =>
    obtain ⟨-, rfl⟩ := get_deploy_iff.1 ht
    obtain ⟨a, ha, hself⟩ := (settled_adjacency_iff hp).1 h
    refine (settled_adjacency_iff hq).2 ⟨a, ?_, ?_⟩
    · rw [← ha]
      exact acyclicGraph_congr ⟨rfl, rfl⟩
    · exact congrArg (fun p : Pipeline ↦ { p with deployment := m }) hself

/-- A deployment stays settled until another one is attached. -/
theorem settled_deployment_run (hp : p.Indexed) (h : (Stage.deployment m).Settled p) {t : Stage}
    (hne : ∀ m', t ≠ .deployment m') (ht : (t.run p).get = .ok q) :
    (Stage.deployment m).Settled q := by
  obtain ⟨hm, hdeployment⟩ := settled_deployment_iff.1 h
  refine settled_deployment_iff.2 ⟨?_, ?_⟩
  · rw [← hm]
    exact checkDeployment_congr (agree_of_bare_eq (bare_of_run ht) fun _ ↦ rfl) m
  · rw [← hdeployment]
    cases t with
    | contexts =>
      obtain rfl := Except.ok.inj ht
      rfl
    | channels =>
      obtain ⟨inputs, -, rfl⟩ := get_resolveChannels_iff.1 ht
      rfl
    | adjacency =>
      obtain ⟨a, -, rfl⟩ := (get_validate_iff hp).1 ht
      rfl
    | deployment m' => exact absurd rfl (hne m')

/-! ### The only settled pipeline -/

/-- All stages are settled, with a given deployment. -/
structure Settled (p : Pipeline) (m : Deployment) : Prop where
  contexts : Stage.contexts.Settled p
  channels : Stage.channels.Settled p
  adjacency : Stage.adjacency.Settled p
  deployment : (Stage.deployment m).Settled p

/-- What a node has once contexts are derived. -/
def Node.contextualView (n : Node) : Node × List Document.Context :=
  (n.bare, n.contexts)

/-- What a node has once its channels are resolved. -/
def Node.resolvedView (n : Node) : Node × List Document.Context × Dict Document.Input :=
  (n.bare, n.contexts, n.inputs)

theorem map_prod_eq {α β γ : Type} {f : α → β} {g : α → γ} {as bs : List α}
    (hf : as.map f = bs.map f) (hg : as.map g = bs.map g) :
    (as.map fun a ↦ (f a, g a)) = bs.map fun a ↦ (f a, g a) := by
  rw [← List.zip_map', ← List.zip_map', hf, hg]

/-- **Settled contexts are determined by what was declared.** -/
theorem agree_contextual (h : p.bare = q.bare) (hp : Stage.contexts.Settled p)
    (hq : Stage.contexts.Settled q) : Agree Node.contextualView p q := by
  have hnodes : p.nodes.map Node.bare = q.nodes.map Node.bare := congrArg Pipeline.nodes h
  have hview : Agree q.contextsOf p q := agree_of_bare_eq h fun _ ↦ rfl
  refine ⟨index_eq_of_bare_eq h, map_prod_eq hnodes ?_⟩
  rw [settled_contexts_iff.1 hp, settled_contexts_iff.1 hq, contextsOf_eq_of_bare_eq h, hview.nodes]

/-- **Settled inputs are determined by what was declared and by contexts.** -/
theorem agree_resolved (h : Agree Node.contextualView p q) (hp : Stage.channels.Settled p)
    (hq : Stage.channels.Settled q) : Agree Node.resolvedView p q := by
  have hview : Agree Node.channelView p q := h.factor fun v : Node × List Document.Context ↦
    (v.1.id, v.1.declaredInputs, v.1.outputs, v.2)
  have hinputs := resolved_congr hview
  rw [settled_channels_iff.1 hp, settled_channels_iff.1 hq, Except.ok.injEq] at hinputs
  have hboth : Agree (fun n ↦ (n.contextualView, n.inputs)) p q :=
    ⟨h.index, map_prod_eq h.nodes hinputs⟩
  exact hboth.factor fun v : (Node × List Document.Context) × Dict Document.Input ↦
    (v.1.1, v.1.2, v.2)

/-- Written neighbours do not depend on those that were there. -/
theorem nodes_setAdjacency_congr (h : Agree Node.resolvedView p q)
    (a : AcyclicGraph NodeId ReferenceSite) :
    (p.setAdjacency a).nodes = (q.setAdjacency a).nodes := by
  -- A node after writing is a function of its position and of what the view shows.
  let write (i : Nat) (v : Node × List Document.Context × Dict Document.Input) : Node :=
    { v.1 with
      contexts := v.2.1
      inputs := v.2.2
      dependencies := idsOf a.graph (a.predecessors i)
      dependents := idsOf a.graph (a.successors i) }
  have hwrite : ∀ (r : Pipeline) (i : Nat), (r.setAdjacency a).nodes[i]? =
      (r.nodes.map Node.resolvedView)[i]?.map (write i) := by
    intro r i
    rw [getElem?_setAdjacency, List.getElem?_map, Option.map_map]
    rfl
  refine List.ext_getElem? fun i ↦ ?_
  rw [hwrite, hwrite, h.nodes]

/-- **A settled pipeline is determined** by its declared part and its deployment. -/
theorem Settled.eq (h : p.bare = q.bare) (hindexed : p.Indexed) (hp : p.Settled m)
    (hq : q.Settled m) : p = q := by
  have hview := agree_resolved (agree_contextual h hp.contexts hq.contexts) hp.channels hq.channels
  obtain ⟨a, ha, hpa⟩ := (settled_adjacency_iff hindexed).1 hp.adjacency
  obtain ⟨b, hb, hqb⟩ := (settled_adjacency_iff (indexed_of_bare_eq h hindexed)).1 hq.adjacency
  have hgraph : p.acyclicGraph = q.acyclicGraph := acyclicGraph_congr <| hview.factor
    fun v : Node × List Document.Context × Dict Document.Input ↦ (v.1.id, v.2.2, v.1.after)
  obtain rfl : a = b := Except.ok.inj (ha.symm.trans (hgraph.trans hb))
  have hnodes : p.nodes = q.nodes := by
    rw [hpa, hqb]
    exact nodes_setAdjacency_congr hview a
  have hlayers : p.layers = q.layers := by
    rw [hpa, hqb]
    rfl
  have hdeployment : p.deployment = q.deployment :=
    (settled_deployment_iff.1 hp.deployment).2.trans (settled_deployment_iff.1 hq.deployment).2.symm
  cases p
  cases q
  simp only [bare, mk.injEq] at h hnodes hlayers hdeployment ⊢
  exact ⟨h.1, hnodes, h.2.2.1, h.2.2.2.1, h.2.2.2.2.1, hdeployment, hlayers⟩

/-! ### The result of a build -/

theorem bare_bare (p : Pipeline) : p.bare.bare = p.bare := by
  rw [bare, bare, List.map_map]
  rfl

/-- An assembled pipeline has nothing but what was declared. -/
theorem Assembled.bare_eq {d : Declaration} {options : CompileOptions}
    (h : Assembled d options p) : p.bare = p := by
  have hnodes : p.nodes.map Node.bare = p.nodes := by
    refine (List.map_congr_left fun n hn ↦ ?_).trans (List.map_id _)
    obtain ⟨d, -, hd⟩ := exists_mem_of_forall₂_right h.nodes hn
    rw [(buildNode_eq_ok_iff.1 hd).2.2]
    rfl
  rw [bare, hnodes, ← h.deployment, ← h.layers]

/-- The stages of a build, run in their order, leave all of them settled. -/
theorem settled_of_stages {p₁ p₂ p₃ p₄ : Pipeline} (hp : p.Indexed)
    (h₁ : (Stage.contexts.run p).get = .ok p₁) (h₂ : (Stage.channels.run p₁).get = .ok p₂)
    (h₃ : (Stage.adjacency.run p₂).get = .ok p₃)
    (h₄ : ((Stage.deployment m).run p₃).get = .ok p₄) : p₄.Settled m := by
  have hp₁ := indexed_of_bare_eq (bare_of_run h₁).symm hp
  have hp₂ := indexed_of_bare_eq (bare_of_run h₂).symm hp₁
  have hp₃ := indexed_of_bare_eq (bare_of_run h₃).symm hp₂
  have hcontexts₂ := settled_contexts_run hp₁ (settled_of_run hp h₁) h₂
  have hcontexts₃ := settled_contexts_run hp₂ hcontexts₂ h₃
  have hchannels₃ := settled_channels_run hp₂ hcontexts₂ (settled_of_run hp₁ h₂) h₃
  exact ⟨settled_contexts_run hp₃ hcontexts₃ h₄, settled_channels_run hp₃ hcontexts₃ hchannels₃ h₄,
    settled_adjacency_run hp₃ hcontexts₃ hchannels₃ (settled_of_run hp₂ h₃) h₄,
    settled_of_run hp₃ h₄⟩

/-- The stages of a build succeed on the declared part of a settled pipeline, and lead to it. -/
theorem stages_of_settled (hp : p.Indexed) (h : p.Settled m) : ∃ p₁ p₂ p₃,
    (Stage.contexts.run p.bare).get = .ok p₁ ∧ (Stage.channels.run p₁).get = .ok p₂ ∧
      (Stage.adjacency.run p₂).get = .ok p₃ ∧ ((Stage.deployment m).run p₃).get = .ok p := by
  -- Stage by stage, what the next one reads is the same as in the settled pipeline, so that it
  -- computes what is there already.
  have hbare : p.bare.Indexed := indexed_of_bare_eq (bare_bare p).symm hp
  have h₁ : (Stage.contexts.run p.bare).get = .ok p.bare.deriveContexts := rfl
  have hp₁ := indexed_of_bare_eq (bare_of_run h₁).symm hbare
  have hbare₁ := (bare_of_run h₁).trans (bare_bare p)
  have hview₁ := agree_contextual hbare₁ (settled_of_run hbare h₁) h.contexts
  obtain ⟨p₂, h₂⟩ : ∃ p₂, (Stage.channels.run p.bare.deriveContexts).get = .ok p₂ := by
    refine ⟨_, get_resolveChannels_iff.2 ⟨p.nodes.map (·.inputs), ?_, rfl⟩⟩
    rw [← settled_channels_iff.1 h.channels]
    exact resolved_congr <| hview₁.factor fun v : Node × List Document.Context ↦
      (v.1.id, v.1.declaredInputs, v.1.outputs, v.2)
  have hp₂ := indexed_of_bare_eq (bare_of_run h₂).symm hp₁
  have hbare₂ := (bare_of_run h₂).trans hbare₁
  have hview₂ := agree_resolved
    (agree_contextual hbare₂ (settled_contexts_run hp₁ (settled_of_run hbare h₁) h₂) h.contexts)
    (settled_of_run hp₁ h₂) h.channels
  obtain ⟨p₃, h₃⟩ : ∃ p₃, (Stage.adjacency.run p₂).get = .ok p₃ := by
    obtain ⟨a, ha, -⟩ := (settled_adjacency_iff hp).1 h.adjacency
    refine ⟨_, (get_validate_iff hp₂).2 ⟨a, ?_, rfl⟩⟩
    rw [← ha]
    exact acyclicGraph_congr <| hview₂.factor
      fun v : Node × List Document.Context × Dict Document.Input ↦ (v.1.id, v.2.2, v.1.after)
  have hbare₃ := (bare_of_run h₃).trans hbare₂
  obtain ⟨p₄, h₄⟩ : ∃ p₄, ((Stage.deployment m).run p₃).get = .ok p₄ := by
    refine ⟨_, get_deploy_iff.2 ⟨?_, rfl⟩⟩
    rw [← (settled_deployment_iff.1 h.deployment).1]
    exact checkDeployment_congr (agree_of_bare_eq hbare₃ fun _ ↦ rfl) m
  have hbare₄ := (bare_of_run h₄).trans hbare₃
  obtain rfl : p₄ = p :=
    (settled_of_stages hbare h₁ h₂ h₃ h₄).eq hbare₄ (indexed_of_bare_eq hbare₄.symm hp) h
  exact ⟨_, p₂, p₃, h₁, h₂, h₃, h₄⟩

/-- **The result of a build** is the settled pipeline over what is assembled. -/
theorem build_eq_ok_iff {d : Declaration} {options : CompileOptions} :
    d.build m options = .ok p ↔ assemble d options = .ok p.bare ∧ p.Settled m := by
  rw [Declaration.build, bind_eq_ok_iff]
  constructor
  · rintro ⟨p₀, hp₀, h⟩
    have hassembled := assembled_of_assemble hp₀
    obtain ⟨p₂, h₂, h⟩ := bind_eq_ok_iff.1 h
    obtain ⟨p₃, h₃, h₄⟩ := bind_eq_ok_iff.1 h
    have h₁ : (Stage.contexts.run p₀).get = .ok p₀.deriveContexts := rfl
    have hbare : p.bare = p₀ := calc
      p.bare = p₃.bare := bare_of_run (s := .deployment m) h₄
      _ = p₂.bare := bare_of_run (s := .adjacency) h₃
      _ = p₀.deriveContexts.bare := bare_of_run (s := .channels) h₂
      _ = p₀.bare := bare_of_run h₁
      _ = p₀ := hassembled.bare_eq
    rw [hbare]
    exact ⟨hp₀, settled_of_stages hassembled.indexed h₁ h₂ h₃ h₄⟩
  · rintro ⟨hp₀, h⟩
    have hp : p.Indexed := indexed_of_bare_eq (bare_bare p) (assembled_of_assemble hp₀).indexed
    obtain ⟨p₁, p₂, p₃, h₁, h₂, h₃, h₄⟩ := stages_of_settled hp h
    obtain rfl := Except.ok.inj h₁
    exact ⟨p.bare, hp₀, bind_eq_ok_iff.2 ⟨p₂, h₂, bind_eq_ok_iff.2 ⟨p₃, h₃, h₄⟩⟩⟩

end Pipeline
end Pipework
