import Pipework.Proofs.Compile.Scan
import Pipework.Proofs.Pipeline.Runs

/-!
# Pipelines under compilation are coherent

A pipeline holds the same facts more than once: the index repeats the ids of the nodes, the two
neighbour lists repeat each other, and the layers are positions in the node list. No stage restores
what another one has written. They agree nevertheless in every state that can be reached by running
stages in any order (`coherent_runAll`), and a stage that fails leaves the state as it was, with one
of the errors that are meant for it (`error_of_reachable`).

## The invariant

`Progress d options p` says, for each stage, that its fields are as they were assembled or as the
stage has written them at some time:

* `Node.Change` lists what a run may do to one node, and `change_of_effect` says that it does no
  more. The clauses on contexts and inputs are about single nodes and follow case by case.
* The clause on neighbours and layers names the graph that was written, an acyclic one on the ids.
  It need not be the graph that the references give now, since inputs may have been resolved later.
* `Progress.of_effect` puts the clauses together, and `progress_runAll` follows a sequence of runs.
-/

open Relation

namespace Pipework

namespace Pipeline

variable {d : Declaration} {options : CompileOptions} {p q : Pipeline} {s : Stage}

/-! ### What a run does to a node -/

/-- What a run of a stage may do to a node: write the fields of the stage, or nothing. -/
inductive Node.Change (p : Pipeline) : Stage → Node → Node → Prop
  | kept (s : Stage) (n : Node) : Change p s n n
  | contexts (n : Node) : Change p .contexts n { n with contexts := p.contextsOf n }
  | channels (n : Node) (inputs : Dict Document.Input) (resolved : p.resolveInputs n = .ok inputs) :
      Change p .channels n { n with inputs := inputs }
  | adjacency (n : Node) (dependencies dependents : List NodeId) :
      Change p .adjacency n { n with dependencies := dependencies, dependents := dependents }

/-- Inputs are set node by node. -/
theorem forall₂_setInputs {R : Node → Dict Document.Input → Prop} {ns : List Node}
    {is : List (Dict Document.Input)} (h : List.Forall₂ R ns is) :
    List.Forall₂ (fun n n' ↦ ∃ i, R n i ∧ n' = { n with inputs := i }) ns (setInputs ns is) := by
  induction h with
  | nil => exact .nil
  | cons hn _ ih => exact .cons ⟨_, hn, rfl⟩ ih

/-- **A run changes nodes one by one**, and only in the fields of its stage. -/
theorem change_of_effect (h : s.Effect p q) : List.Forall₂ (Node.Change p s) p.nodes q.nodes := by
  cases h with
  | none => exact List.forall₂_same.2 fun n _ ↦ .kept s n
  | contexts => exact List.forall₂_map_right_iff.2 (List.forall₂_same.2 fun n _ ↦ .contexts n)
  | channels inputs hinputs =>
    refine (forall₂_setInputs (mapM_eq_ok_iff.1 hinputs)).imp fun n n' hn ↦ ?_
    obtain ⟨i, hi, rfl⟩ := hn
    exact .channels n i hi
  | adjacency g =>
    have hfst : p.nodes.map (fun n ↦ n) = p.nodes.zipIdx.map Prod.fst := by
      rw [List.map_id', List.zipIdx_map_fst]
    refine List.forall₂_map_right_iff.2 ((forall₂_of_map_eq hfst).imp fun n x hx ↦ ?_)
    obtain ⟨n', i⟩ := x
    obtain rfl : n = n' := hx
    exact .adjacency n _ _
  | deployment => exact List.forall₂_same.2 fun n _ ↦ .kept _ n

/-! ### Contexts -/

/-- Contexts are either not there yet or those of the node. No later run changes them into anything
else. -/
theorem contexts_of_effect (hp : ∀ n ∈ p.nodes, n.contexts = [] ∨ n.contexts = p.contextsOf n)
    (h : s.Effect p q) : ∀ n ∈ q.nodes, n.contexts = [] ∨ n.contexts = q.contextsOf n := by
  intro n' hn'
  obtain ⟨n, hn, hchange⟩ := exists_mem_of_forall₂_right (change_of_effect h) hn'
  rw [contextsOf_eq_of_bare_eq (bare_eq_of_effect h)]
  cases hchange with
  | kept => exact hp n' hn
  | contexts => exact .inr rfl
  | channels => exact hp n hn
  | adjacency => exact hp n hn

/-! ### Inputs -/

/-- The inputs are queries for the declared ones, each of them for an output that is declared. -/
structure Node.Queries (d : Declaration) (n : Node) : Prop where
  keys : n.inputs.keys = n.declaredInputs.keys
  outputs : ∀ e ∈ n.inputs.entries, ∀ c ∈ e.2.channels, d.HasOutput c.producer c.output

/-- A channel is resolved only if its producer has the output. -/
theorem hasOutput_of_resolveChannel (h : Declared d options p) {id : NodeId} {key : InputKey}
    {c : Declaration.Channel} {r : Document.Channel} (hr : p.resolveChannel id key c = .ok r) :
    d.HasOutput r.producer r.output := by
  obtain ⟨n, hn, hid, type, htype, rfl⟩ := (resolveChannel_eq_ok_iff h.indexed).1 hr
  obtain ⟨producer, hproducer, hdeclared⟩ := exists_mem_of_forall₂_right h.nodes hn
  refine ⟨producer, hproducer, hdeclared.id.symm.trans hid, ?_⟩
  rw [← hdeclared.outputs]
  exact List.mem_map_of_mem (Dict.get?_eq_some_iff.1 htype)

/-- Inputs that are resolved have the declared keys and query declared outputs. -/
theorem queries_of_resolveInputs (h : Declared d options p) {n : Node}
    {inputs : Dict Document.Input} (hn : p.resolveInputs n = .ok inputs) :
    Node.Queries d { n with inputs := inputs } := by
  have hentries := Dict.traverse_eq_ok_iff.1 hn
  refine ⟨(map_eq_of_forall₂ hentries fun e e' he ↦ he.1.symm).symm, fun e' he' r hr ↦ ?_⟩
  obtain ⟨e, -, -, hresolve⟩ := exists_mem_of_forall₂_right hentries he'
  obtain ⟨hchannels, -, -⟩ := resolveInput_eq_ok_iff.1 hresolve
  obtain ⟨c, -, hc⟩ := exists_mem_of_forall₂_right hchannels hr
  exact hasOutput_of_resolveChannel h hc

/-- Inputs are either not there yet or resolved, whatever is run. -/
theorem inputs_of_effect (hdeclared : Declared d options p)
    (hp : ∀ n ∈ p.nodes, n.inputs = .empty ∨ n.Queries d) (h : s.Effect p q) :
    ∀ n ∈ q.nodes, n.inputs = .empty ∨ n.Queries d := by
  intro n' hn'
  obtain ⟨n, hn, hchange⟩ := exists_mem_of_forall₂_right (change_of_effect h) hn'
  cases hchange with
  | kept => exact hp n' hn
  | contexts => exact (hp n hn).imp_right fun hqueries ↦ ⟨hqueries.keys, hqueries.outputs⟩
  | channels _ inputs hinputs => exact .inr (queries_of_resolveInputs hdeclared hinputs)
  | adjacency => exact (hp n hn).imp_right fun hqueries ↦ ⟨hqueries.keys, hqueries.outputs⟩

/-! ### Neighbours and layers -/

/-- No neighbours and no layers have been written. -/
structure Unlinked (p : Pipeline) : Prop where
  neighbours : ∀ n ∈ p.nodes, n.dependencies = [] ∧ n.dependents = []
  layers : p.layers = []

/-- Nothing has been written, or the neighbours and layers of an acyclic graph on the ids. -/
def LinkedOrBlank (p : Pipeline) : Prop :=
  p.Unlinked ∨ ∃ g : Graph NodeId ReferenceSite, g.Acyclic ∧ p.Linked g

/-- Both neighbour lists of a node. -/
def Node.neighbours (n : Node) : List NodeId × List NodeId :=
  (n.dependencies, n.dependents)

/-- A run changes no ids. -/
theorem ids_of_effect (h : s.Effect p q) : q.ids = p.ids := by
  rw [← ids_bare, bare_eq_of_effect h, ids_bare]

/-- Neighbours that are linked stay so in a pipeline with the same ids, neighbours and layers. -/
theorem LinkedOrBlank.congr (h : p.LinkedOrBlank) (hids : q.ids = p.ids)
    (hneighbours : q.nodes.map Node.neighbours = p.nodes.map Node.neighbours)
    (hlayers : q.layers = p.layers) : q.LinkedOrBlank := by
  have hpair : List.Forall₂ (fun n n' : Node ↦ n.neighbours = n'.neighbours) q.nodes p.nodes :=
    forall₂_of_map_eq hneighbours
  rcases h with hblank | ⟨g, hg, hlinked⟩
  · refine .inl ⟨fun n hn ↦ ?_, hlayers.trans hblank.layers⟩
    obtain ⟨n', hn', heq⟩ := exists_mem_of_forall₂ hpair hn
    simp only [Node.neighbours, Prod.mk.injEq] at heq
    rw [heq.1, heq.2]
    exact hblank.neighbours n' hn'
  · refine .inr ⟨g, hg, hlinked.nodes.trans hids.symm, fun i n hn ↦ ?_,
      hlayers.trans hlinked.layers⟩
    have hi := congrArg (·[i]?) hneighbours
    simp only [List.getElem?_map, hn, Option.map_some] at hi
    obtain ⟨n', hn', heq⟩ := Option.map_eq_some_iff.1 hi.symm
    simp only [Node.neighbours, Prod.mk.injEq] at heq
    rw [← heq.1, ← heq.2]
    exact hlinked.neighbours i n' hn'

/-- Only the adjacency stage writes neighbours and layers, and it writes those of a graph. -/
theorem LinkedOrBlank.of_effect (hp : p.LinkedOrBlank) (h : s.Effect p q) : q.LinkedOrBlank := by
  have hids := ids_of_effect h
  cases h with
  | none => exact hp
  | contexts => exact hp.congr hids (map_nodes_deriveContexts fun _ _ ↦ rfl) rfl
  | channels inputs => exact hp.congr hids (map_setInputs (fun _ _ ↦ rfl) p.nodes inputs) rfl
  | adjacency g hg hacyclic => exact .inr ⟨g, hacyclic, linked_setAdjacency (graph_nodes hg)⟩
  | deployment => exact hp.congr hids rfl rfl

/-- A node depends on another one, as far as the written neighbours say. -/
def DependsOn (p : Pipeline) (u w : NodeId) : Prop :=
  ∃ n ∈ p.nodes, n.id = w ∧ u ∈ n.dependencies

/-- Dependencies are the edges of the graph that was written. -/
theorem Linked.dependsOn_iff {g : Graph NodeId ReferenceSite} (h : p.Linked g) {u w : NodeId} :
    p.DependsOn u w ↔ g.Joins u w := by
  rw [Graph.Joins, h.nodes]
  constructor
  · rintro ⟨n, hn, rfl, hu⟩
    obtain ⟨i, hi⟩ := List.mem_iff_getElem?.1 hn
    obtain ⟨j, hj, hadj⟩ := (h.mem_dependencies hi).1 hu
    exact ⟨j, i, hj, getElem?_ids hi, hadj⟩
  · rintro ⟨j, i, hj, hi, hadj⟩
    rw [ids, List.getElem?_map] at hi
    obtain ⟨n, hn, rfl⟩ := Option.map_eq_some_iff.1 hi
    exact ⟨n, List.mem_of_getElem? hn, rfl, (h.mem_dependencies hn).2 ⟨j, hj, hadj⟩⟩

/-- **No node depends on itself**, directly or through others, at any time. -/
theorem LinkedOrBlank.acyclic (h : p.LinkedOrBlank) (hnodup : p.ids.Nodup) (x : NodeId) :
    ¬ TransGen p.DependsOn x x := by
  rcases h with hblank | ⟨g, hg, hlinked⟩
  · intro hx
    obtain ⟨u, -, n, hn, -, hu⟩ := TransGen.tail'_iff.1 hx
    rw [(hblank.neighbours n hn).1] at hu
    cases hu
  · have hjoins := (Graph.acyclic_iff_joins (by rwa [hlinked.nodes])).1 hg
    exact fun hx ↦ hjoins x (TransGen.mono (fun _ _ ↦ hlinked.dependsOn_iff.1) _ _ hx)

/-- Neighbour lists are in declaration order, without repetition, and mirror each other. -/
theorem LinkedOrBlank.lists (h : p.LinkedOrBlank) (hnodup : p.ids.Nodup) {n : Node}
    (hn : n ∈ p.nodes) : n.dependencies.Sublist p.ids ∧ n.dependents.Sublist p.ids ∧
      ∀ w ∈ p.nodes, w.id ∈ n.dependents ↔ n.id ∈ w.dependencies := by
  rcases h with hblank | ⟨g, -, hlinked⟩
  · rw [(hblank.neighbours n hn).1, (hblank.neighbours n hn).2]
    refine ⟨List.nil_sublist _, List.nil_sublist _, fun w hw ↦ ?_⟩
    rw [(hblank.neighbours w hw).1]
    simp
  · refine ⟨?_, ?_, fun w hw ↦ hlinked.symmetric hnodup hn hw⟩
    · rw [hlinked.dependencies_eq_filter hnodup hn]
      exact List.filter_sublist
    · rw [hlinked.dependents_eq_filter hnodup hn]
      exact List.filter_sublist

/-- **Layers are either not there yet or contain every node once.** -/
theorem LinkedOrBlank.layers (h : p.LinkedOrBlank) :
    p.layers = [] ∨ p.layers.flatten.Perm (List.range p.nodes.length) := by
  rcases h with hblank | ⟨g, hg, hlinked⟩
  · exact .inl hblank.layers
  · refine .inr ?_
    have horder : g.order = p.nodes.length := by
      rw [Graph.order, hlinked.nodes, ids, List.length_map]
    rw [hlinked.layers, ← horder]
    exact Graph.perm_flatten_layers hg

/-- Nothing is left out by a function that always gives a result. -/
theorem forall₂_filterMap {α β : Type} {f : α → Option β} {as : List α}
    (h : ∀ a ∈ as, ∃ b, f a = some b) : List.Forall₂ (fun a b ↦ f a = some b) as
      (as.filterMap f) := by
  induction as with
  | nil => exact .nil
  | cons a as ih =>
    obtain ⟨b, hb⟩ := h a List.mem_cons_self
    rw [List.filterMap_cons_some hb]
    exact .cons hb (ih fun a' ha' ↦ h a' (List.mem_cons_of_mem _ ha'))

/-- Every position in a layer is that of a node, so that no look-up fails. -/
theorem forall₂_layerIds (h : ∀ layer ∈ p.layers, ∀ i ∈ layer, i < p.nodes.length) :
    List.Forall₂ (List.Forall₂ fun i x ↦ p.nodes[i]?.map (·.id) = some x) p.layers p.layerIds := by
  refine List.forall₂_map_right_iff.2 (List.forall₂_same.2 fun layer hlayer ↦ ?_)
  refine forall₂_filterMap fun i hi ↦ ?_
  exact ⟨_, by rw [List.getElem?_eq_getElem (h layer hlayer i hi), Option.map_some]⟩

/-! ### Deployment -/

/-- A deployment is right if it is for nodes that there are, and for all components. -/
theorem checkDeployment_eq_ok_iff (hp : p.Indexed) {m : Deployment} :
    p.checkDeployment m = .ok () ↔ (∀ x ∈ m.keys, x ∈ p.ids) ∧
      ∀ n ∈ p.nodes, n.kind = .component → n.id ∈ m.keys := by
  rw [checkDeployment, seq_eq_ok_iff, checkDeployed, forM_eq_ok_iff, forM_eq_ok_iff]
  refine and_congr (forall₂_congr fun x _ ↦ ?_) (forall₂_congr fun n _ ↦ ?_)
  · rw [← hp.contains_iff]
    split <;> simp_all
  · rw [checkExecutor, ← Dict.contains_iff_mem_keys]
    rcases n.kind <;> rcases m.contains n.id <;> simp [NodeKind.needsExecutor]

/-- A deployment is kept only if it passes its check. -/
theorem deployment_of_effect (hp : p.deployment = .empty ∨ p.checkDeployment p.deployment = .ok ())
    (h : s.Effect p q) : q.deployment = .empty ∨ q.checkDeployment q.deployment = .ok () := by
  -- What a deployment is checked against is declared, so it does not matter when it is checked.
  have hcheck : ∀ m, q.checkDeployment m = p.checkDeployment m :=
    checkDeployment_congr (agree_of_bare_eq (bare_eq_of_effect h) fun _ ↦ rfl)
  rw [hcheck]
  cases h with
  | none => exact hp
  | contexts => exact hp
  | channels => exact hp
  | adjacency => exact hp
  | deployment m hm => exact .inr hm

/-! ### Progress -/

/-- What the stages have written so far over what is assembled: the fields of each stage are empty
or as it writes them. -/
structure Progress (d : Declaration) (options : CompileOptions) (p : Pipeline) : Prop where
  assembled : assemble d options = .ok p.bare
  contexts : ∀ n ∈ p.nodes, n.contexts = [] ∨ n.contexts = p.contextsOf n
  inputs : ∀ n ∈ p.nodes, n.inputs = .empty ∨ n.Queries d
  links : p.LinkedOrBlank
  deployment : p.deployment = .empty ∨ p.checkDeployment p.deployment = .ok ()

theorem Progress.declared (h : Progress d options p) : Declared d options p :=
  declared_of_assemble h.assembled

/-- At the start nothing has been written. -/
theorem progress_of_assemble (h : assemble d options = .ok p) : Progress d options p := by
  have hassembled := assembled_of_assemble h
  -- An assembled node is as its declaration builds it, so that nothing has been written.
  have hblank : ∀ n ∈ p.nodes, n.contexts = [] ∧ n.inputs = .empty ∧ n.dependencies = [] ∧
      n.dependents = [] := by
    intro n hn
    obtain ⟨c, -, hc⟩ := exists_mem_of_forall₂_right hassembled.nodes hn
    rw [(buildNode_eq_ok_iff.1 hc).2.2]
    exact ⟨rfl, rfl, rfl, rfl⟩
  exact ⟨by rw [hassembled.bare_eq, h], fun n hn ↦ .inl (hblank n hn).1,
    fun n hn ↦ .inl (hblank n hn).2.1, .inl ⟨fun n hn ↦ (hblank n hn).2.2, hassembled.layers⟩,
    .inl hassembled.deployment⟩

/-- **Every run keeps the invariant**, whether it succeeds or fails. -/
theorem Progress.of_effect (hp : Progress d options p) (h : s.Effect p q) :
    Progress d options q :=
  ⟨by rw [bare_eq_of_effect h, hp.assembled], contexts_of_effect hp.contexts h,
    inputs_of_effect hp.declared hp.inputs h, hp.links.of_effect h,
    deployment_of_effect hp.deployment h⟩

/-- **Any sequence of runs keeps to this**, whichever of them fail. -/
theorem progress_runAll (hp : assemble d options = .ok p) (ss : List Stage) :
    Progress d options (p.runAll ss) :=
  runAll_preserves (P := Progress d options) (fun p s h ↦ h.of_effect (effect_run p s))
    (progress_of_assemble hp) ss

/-! ### Coherent pipelines -/

/-- What the parts of a node of a pipeline have to do with its declaration and with each other. -/
structure Node.Coherent (p : Pipeline) (c : Declaration.Node) (n : Node) : Prop where
  id : n.id = c.id
  contexts : n.contexts = [] ∨ ContextsOf p.id p.runtime.runId c n.contexts
  inputs : n.inputs = .empty ∨ n.inputs.keys = c.inputs.keys ∧
    ∀ e ∈ n.inputs.entries, ∀ q ∈ e.2.channels,
      ∃ producer ∈ p.nodes, producer.id = q.producer ∧ q.output ∈ producer.outputs.keys
  dependencies : n.dependencies.Sublist p.ids
  dependents : n.dependents.Sublist p.ids
  symmetric : ∀ w ∈ p.nodes, w.id ∈ n.dependents ↔ n.id ∈ w.dependencies

/-- The parts of a pipeline agree with each other. Ids are distinct, so that neighbour lists, being
parts of the list of ids, are in declaration order and without repetition. -/
structure Coherent (d : Declaration) (p : Pipeline) : Prop where
  index : ∀ x i, p.index.get? x = some i ↔ p.nodes[i]?.map (·.id) = some x
  nodup : p.ids.Nodup
  nodes : List.Forall₂ (Node.Coherent p) d.nodes p.nodes
  acyclic : ∀ x, ¬ TransGen p.DependsOn x x
  layers : p.layers = [] ∨ p.layers.flatten.Perm (List.range p.nodes.length)
  layerIds : List.Forall₂ (List.Forall₂ fun i x ↦ p.nodes[i]?.map (·.id) = some x)
    p.layers p.layerIds
  deployed : ∀ x ∈ p.deployment.keys, x ∈ p.ids
  covered : p.deployment = .empty ∨
    ∀ n ∈ p.nodes, n.kind = .component → n.id ∈ p.deployment.keys

/-- A node of a pipeline in progress is coherent with its declaration. -/
theorem Progress.coherent_node (h : Progress d options p) {c : Declaration.Node} {n : Node}
    (hn : n ∈ p.nodes) (hc : n.DeclaredAs c) : Node.Coherent p c n := by
  obtain ⟨hdependencies, hdependents, hsymmetric⟩ := h.links.lists h.declared.indexed.nodup hn
  refine ⟨hc.id, (h.contexts n hn).imp_right fun hcontexts ↦ ?_,
    (h.inputs n hn).imp_right fun hqueries ↦ ⟨?_, fun e he q hq ↦ ?_⟩, hdependencies, hdependents,
    hsymmetric⟩
  · rw [hcontexts, contextsOf, hc.contexts, hc.id]
    exact contextsOf_append _ _ c
  · rw [hqueries.keys, hc.inputs]
  · obtain ⟨c', hc', hid, houtput⟩ := hqueries.outputs e he q hq
    obtain ⟨producer, hproducer, hdeclared⟩ := exists_mem_of_forall₂ h.declared.nodes hc'
    exact ⟨producer, hproducer, hdeclared.id.trans hid, by rwa [hdeclared.outputs]⟩

theorem Progress.coherent (h : Progress d options p) : Coherent d p := by
  have hindexed := h.declared.indexed
  refine ⟨fun x i ↦ ?_, hindexed.nodup, ?_, h.links.acyclic hindexed.nodup, h.links.layers,
    forall₂_layerIds fun layer hlayer i hi ↦ ?_, ?_, ?_⟩
  · rw [hindexed x i, ids, List.getElem?_map]
  · refine (forall₂_mem h.declared.nodes).imp fun c n hmem ↦ ?_
    obtain ⟨-, hn, hc⟩ := hmem
    exact h.coherent_node hn hc
  · rcases h.links.layers with hnil | hperm
    · rw [hnil] at hlayer
      cases hlayer
    · exact List.mem_range.1 (hperm.mem_iff.1 (List.mem_flatten.2 ⟨layer, hlayer, hi⟩))
  · rcases h.deployment with hempty | hcheck
    · intro x hx
      rw [hempty] at hx
      cases hx
    · exact ((checkDeployment_eq_ok_iff hindexed).1 hcheck).1
  · exact h.deployment.imp_right fun hcheck ↦ ((checkDeployment_eq_ok_iff hindexed).1 hcheck).2

/-- **Every state that stages can reach is coherent**, in whatever order they run and whether or not
they succeed. -/
theorem coherent_runAll (hp : assemble d options = .ok p) (ss : List Stage) :
    Coherent d (p.runAll ss) :=
  (progress_runAll hp ss).coherent

/-- Channels that are resolved before there are contexts, a deployment that is refused, and contexts
that come last. -/
theorem coherent_runAll_junction : ∃ p, assemble .junction {} = .ok p ∧
    (p.runAll [.channels, .adjacency, .deployment .empty, .contexts]).layers = [[1, 2], [0]] ∧
    ((p.runAll [.channels, .adjacency, .deployment .empty, .contexts]).nodes.map
      fun n ↦ n.contexts.drop 3) = [[], [⟨"region", .field (.string "north")⟩,
        ⟨"batch", .runtime ⟨"batch-id", .string, none⟩⟩], []] ∧
    Coherent .junction (p.runAll [.channels, .adjacency, .deployment .empty, .contexts]) := by
  have hp : assemble .junction {} = .ok _ := eq_ok_get_of_isSome (by decide +kernel)
  exact ⟨_, hp, by decide +kernel, by decide +kernel, coherent_runAll hp _⟩

end Pipeline

/-! ### Errors -/

/-- The errors that a stage is meant to report. That a reference is unknown is found when the
pipeline is assembled, and that an edge is written on one node only is never found. -/
inductive Stage.Fault : Stage → CompileError → Prop
  | missingOutput (node : NodeId) (key : InputKey) (producer : NodeId) (output : OutputKey) :
      Fault .channels (.missingOutput node key producer output)
  | invalidConfig (node : NodeId) (key : InputKey) (step : Nat) (reason : ConfigError) :
      Fault .channels (.invalidConfig node key step reason)
  | cyclic (cycle : List NodeId) : Fault .adjacency (.cyclic cycle)
  | unknownDeployment (m : Deployment) (node : NodeId) :
      Fault (.deployment m) (.unknownDeployment node)
  | missingExecutor (m : Deployment) (node : NodeId) : Fault (.deployment m) (.missingExecutor node)

namespace Declaration

variable {d : Declaration}

/-- A channel or a configuration is refused by the stage of channels. -/
theorem fault_of_mem_channelViolations {c : Node} {e : CompileError}
    (he : e ∈ d.channelViolations c) : Stage.channels.Fault e := by
  obtain ⟨entry, -, he⟩ := List.mem_flatMap.1 he
  rcases List.mem_append.1 he with he | he
  · obtain ⟨channel, -, he⟩ := List.mem_flatMap.1 he
    rw [Channel.violations] at he
    split at he
    · cases he
    · rw [List.mem_singleton.1 he]
      exact .missingOutput _ _ _ _
  · obtain ⟨step, -, he⟩ := List.mem_flatMap.1 he
    rw [Step.violations, Option.mem_toList, Option.map_eq_some_iff] at he
    obtain ⟨reason, -, rfl⟩ := he
    exact .invalidConfig _ _ _ _

/-- A deployment is refused by its own stage. -/
theorem fault_of_mem_deploymentViolations {m : Deployment} {e : CompileError}
    (he : e ∈ d.deploymentViolations m) : (Stage.deployment m).Fault e := by
  rcases List.mem_append.1 he with he | he
  · obtain ⟨id, -, he⟩ := List.mem_flatMap.1 he
    split at he
    · cases he
    · rw [List.mem_singleton.1 he]
      exact .unknownDeployment _ _
  · obtain ⟨c, -, he⟩ := List.mem_flatMap.1 he
    split at he
    · cases he
    · rw [List.mem_singleton.1 he]
      exact .missingExecutor _ _

end Declaration

namespace Pipeline

variable {d : Declaration} {options : CompileOptions} {p : Pipeline}

/-- **All references are known**, also those of channels that are not resolved yet or were resolved
before other stages have run. -/
theorem Progress.known (h : Progress d options p) :
    ∀ n ∈ p.nodes, ∀ r ∈ n.references, r.1 ∈ p.ids := by
  intro n hn r hr
  obtain ⟨c, hcmem, hc⟩ := exists_mem_of_forall₂_right h.declared.nodes hn
  rw [h.declared.ids]
  rw [Node.references, List.mem_append] at hr
  rcases hr with hr | hr
  · obtain ⟨e, he, hr⟩ := List.mem_flatMap.1 hr
    obtain ⟨q, hq, rfl⟩ := List.mem_map.1 hr
    rcases h.inputs n hn with hempty | hqueries
    · rw [hempty] at he
      cases he
    · obtain ⟨producer, hproducer, hid, -⟩ := hqueries.outputs e he q hq
      exact List.mem_map.2 ⟨producer, hproducer, hid⟩
  · obtain ⟨x, hx, rfl⟩ := List.mem_map.1 hr
    rw [hc.after] at hx
    exact h.declared.known c hcmem x (.inr (mem_firstOccurrences.1 hx))

/-- **A stage only reports what it is meant to report.** -/
theorem Progress.fault (h : Progress d options p) {s : Stage} {e : CompileError}
    (he : (s.run p).result = .error e) : s.Fault e := by
  have hget : (s.run p).get = .error e := by
    rw [Run.get, he]
  cases s with
  | contexts => cases he
  | channels =>
    have hhead := (reports_resolveChannels h.declared).eq_error_iff.1 hget
    obtain ⟨c, -, hc⟩ := List.mem_flatMap.1 (List.mem_of_mem_head? hhead)
    exact Declaration.fault_of_mem_channelViolations hc
  | adjacency =>
    have hgraph := graph_eq_referenceGraph h.declared.indexed h.known
    rw [Stage.run, get_validate h.declared.indexed, acyclicGraph_eq hgraph] at hget
    split at hget
    · cases hget
    · cases hget
      exact .cyclic _
  | deployment m =>
    have hhead := (reports_deploy h.declared m).eq_error_iff.1 hget
    exact Declaration.fault_of_mem_deploymentViolations (List.mem_of_mem_head? hhead)

/-- **A stage that fails changes nothing and reports what it is meant to report**, in every state
that stages can reach. The adjacency stage has written by the time it checks for symmetry, but that
check passes. -/
theorem error_of_reachable (hp : assemble d options = .ok p) (ss : List Stage) {s : Stage}
    {e : CompileError} (he : (s.run (p.runAll ss)).result = .error e) :
    (s.run (p.runAll ss)).pipeline = p.runAll ss ∧ s.Fault e := by
  have hprogress := progress_runAll hp ss
  refine ⟨?_, hprogress.fault he⟩
  rcases run_eq_or hprogress.declared.indexed s with ⟨q, hq⟩ | ⟨e', he'⟩
  · rw [hq] at he
    cases he
  · rw [he']

end Pipeline

/-- A node reads another one that is to run after it. -/
def Declaration.loop : Declaration where
  id := "loop"
  root := none
  mode := .sync
  nodes :=
    [(Node.new "first" "Reader").withInput "in" "second" "data",
      { (Node.new "second" "Writer").withOutput "data" "Data" with after := ["first"] }]

theorem Pipeline.isSome_assemble_loop : (assemble .loop {}).toOption.isSome = true := by
  decide +kernel

/-- Before channels are resolved there is no cycle, and neighbours are written. They stay when the
cycle is found. -/
theorem Pipeline.error_of_reachable_loop : ∃ p, assemble .loop {} = .ok p ∧
    (Stage.adjacency.run (p.runAll [.adjacency, .channels])).result =
      .error (.cyclic ["first", "second", "first"]) ∧
    (p.runAll [.adjacency, .channels]).layers = [[0], [1]] ∧
    (Stage.adjacency.run (p.runAll [.adjacency, .channels])).pipeline =
      p.runAll [.adjacency, .channels] := by
  have hp := eq_ok_get_of_isSome isSome_assemble_loop
  have he : (Stage.adjacency.run (((assemble .loop {}).toOption.get isSome_assemble_loop).runAll
      [.adjacency, .channels])).result = .error (.cyclic ["first", "second", "first"]) := by
    decide +kernel
  exact ⟨_, hp, he, by decide +kernel, (error_of_reachable hp _ he).1⟩

end Pipework
