import Pipework.Proofs.Compile.Violations
import Pipework.Proofs.Double.Finite

/-!
# The first violation is reported

Compilation reports the first entry of the list of violations and succeeds if there is none
(`reports_compile`). Stage by stage, each check reports its part of the list. The part is written in
terms of the declaration, the check looks at the pipeline; that they agree is what is known of the
pipeline once the earlier parts have turned out to be empty.
-/

namespace Pipework

open Declaration (Literal Parameter nameViolations)

variable {d : Declaration} {options : CompileOptions} {m : Deployment}

namespace Pipeline

variable {p : Pipeline}

/-! ### Names, contexts and parameters -/

/-- The check of a name reports what is wrong with it. -/
theorem reports_checkId (subject : NameSubject) (name : String) :
    Reports (checkId subject name) (nameViolations subject name) := by
  rw [checkId, nameViolations]
  rcases checkName name with reason | ⟨⟩
  · exact reports_error _
  · exact reports_ok ()

/-- An id is checked as a name first, and then against the ids before it. -/
theorem reports_checkNodeId {index : Dict Nat} {earlier : List NodeId}
    (h : Indexes index earlier) (id : NodeId) :
    Reports (checkNodeId index id)
      (nameViolations .node id ++ if id ∉ earlier then [] else [.duplicateNode id]) := by
  refine (reports_checkId .node id).bind fun _ _ ↦ ?_
  by_cases hid : id ∈ earlier
  · rw [if_pos (h.contains_iff.2 hid), if_neg (not_not.2 hid)]
    exact reports_error _
  · rw [if_neg (mt h.contains_iff.1 hid), if_pos hid]
    exact reports_ok ()

/-- The contexts of a node are checked for reserved types, in their order. -/
theorem reports_declaredContexts (id : NodeId) (cs : List Declaration.Context) :
    Reports (declaredContexts id cs)
      ((cs.filter fun c ↦ isCanonicalContextType c.type).map fun c ↦
        .reservedContext id c.type) := by
  induction cs with
  | nil => exact reports_ok []
  | cons c cs ih =>
    rw [declaredContexts, List.filter_cons]
    split
    · rfl
    · exact ih.bind_ok _

/-- A default value is reported by its kind if the declared kind cannot hold it. -/
theorem reports_defaultValue (kind : ScalarKind) (v : Literal) :
    Reports (defaultValue kind v) (if v.fits kind then [] else [v.toField.kind]) := by
  cases kind <;> cases v
  case double.int n =>
    rw [defaultValue, show Literal.fits .double (.int n) =
      decide ((Double.ofInt n.toInt).truncate = n.toInt) from rfl]
    by_cases h : (Double.ofInt n.toInt).truncate = n.toInt
    · rw [if_pos h, if_pos (decide_eq_true h)]
      exact reports_ok _
    · rw [if_neg h, if_neg (mt of_decide_eq_true h)]
      exact reports_error _
  -- Every other combination fits or does not by its constructors alone.
  all_goals first | exact reports_ok _ | exact reports_error _

/-- A parameter is reported for its default value. -/
theorem reports_parameterValue (id : NodeId) (key : String) (a : Parameter) :
    Reports (parameterValue id key a) (a.violations id key) := by
  rcases a with v | r
  · exact reports_ok _
  · rw [parameterValue, Parameter.violations]
    rcases r.default with - | v
    · exact reports_ok _
    · have h := reports_defaultValue r.kind v
      dsimp only
      by_cases hfits : v.fits r.kind = true
      · rw [if_pos hfits] at h ⊢
        obtain ⟨value, hvalue⟩ := h.exists_ok_iff.2 rfl
        rw [hvalue]
        exact reports_ok _
      · rw [if_neg hfits] at h ⊢
        rw [h.eq_error_iff.2 rfl]
        exact reports_error _

/-- A node is checked for its contexts before its parameters. -/
theorem reports_buildNode (n : Declaration.Node) :
    Reports (buildNode n)
      (((n.contexts.filter fun c ↦ isCanonicalContextType c.type).map fun c ↦
          .reservedContext n.id c.type) ++
        n.parameters.entries.flatMap fun e ↦ e.2.violations n.id e.1) := by
  refine (reports_declaredContexts n.id n.contexts).bind fun contexts _ ↦ ?_
  exact (reports_traverse fun e _ ↦ reports_parameterValue n.id e.1 e.2).bind_ok _

/-- **Building the nodes reports what is wrong with each by itself**, node by node. -/
theorem reports_buildNodes {index : Dict Nat} {earlier : List NodeId} (h : Indexes index earlier)
    (ns : List Declaration.Node) :
    Reports (buildNodes index earlier.length ns) (Declaration.formViolations earlier ns) := by
  induction ns generalizing index earlier with
  | nil => exact reports_ok _
  | cons n ns ih =>
    rw [buildNodes, Declaration.formViolations, Declaration.Node.formViolations, List.append_assoc,
      List.append_assoc, ← List.append_assoc (List.map _ _)]
    refine (reports_checkNodeId h n.id).bind fun _ hid ↦ ?_
    refine (reports_buildNode n).bind fun built _ ↦ ?_
    have hnew := ((checkNodeId_eq_ok_iff h).1 hid).2
    have hrest := ih (h.insert hnew)
    rw [List.length_append] at hrest
    exact hrest.bind_ok _

/-! ### References -/

/-- A reference is reported if no node has the id. -/
theorem reports_checkReference {index : Dict Nat} (h : Indexes index d.ids) (id : NodeId)
    (site : ReferenceSite) (producer : NodeId) :
    Reports (checkReference index id site producer) (d.referenceViolations id site producer) := by
  rw [checkReference, Declaration.referenceViolations]
  simp only [h.contains_iff]
  exact reports_ite _

/-- An input without channels is reported for that only. -/
theorem reports_checkInput {index : Dict Nat} (h : Indexes index d.ids) (id : NodeId)
    (key : InputKey) (input : Declaration.Input) :
    Reports (checkInput index id key input) (d.inputViolations id key input) := by
  rw [checkInput, Declaration.inputViolations]
  simp only [List.isEmpty_iff]
  split
  · exact reports_error _
  · exact reports_forM (List.forall₂_same.2 fun c _ ↦ reports_checkReference h id _ c.producer)

/-- Entries that are repeated are not looked at again, which makes no difference. -/
theorem head?_flatMap_firstOccurrences {α : Type} (f : NodeId → List α) (xs : List NodeId) :
    ((firstOccurrences xs).flatMap f).head? = (xs.flatMap f).head? := by
  induction xs with
  | nil => rfl
  | cons x xs ih =>
    rw [firstOccurrences, List.flatMap_cons, List.flatMap_cons, List.head?_append,
      List.head?_append]
    rcases hx : (f x).head? with - | a
    · rw [Option.none_or, Option.none_or, ← ih]
      have hnil : f x = [] := List.head?_eq_none_iff.1 hx
      congr 1
      generalize firstOccurrences xs = ys
      induction ys with
      | nil => rfl
      | cons y ys ih =>
        by_cases hy : y = x
        · simp [hy, hnil, ih]
        · simp [hy, ih]
    · rfl

/-- **The references of a node are reported** in the order of its inputs, and then of its `after`
list. -/
theorem reports_checkReferences {index : Dict Nat} (h : Indexes index d.ids)
    {c : Declaration.Node} {n : Node} (hn : buildNode c = .ok n) :
    Reports (checkReferences index n) (d.linkViolations c) := by
  rw [(buildNode_eq_ok_iff.1 hn).2.2]
  -- The node has each entry of its `after` list once, the declaration as often as it is written.
  refine Reports.bind (reports_forM (List.forall₂_same.2 fun e _ ↦ ?_)) fun _ _ ↦ ?_
  · exact reports_checkInput h c.id e.1 e.2
  · refine Reports.of_head?_eq ?_ (head?_flatMap_firstOccurrences _ c.after)
    exact reports_forM (List.forall₂_same.2 fun x _ ↦ reports_checkReference h c.id _ x)

/-- **Assembling** reports what is wrong with names, contexts, defaults and references. -/
theorem reports_assemble (d : Declaration) (options : CompileOptions) :
    Reports (assemble d options)
      (nameViolations .pipeline d.id ++ (Declaration.formViolations [] d.nodes ++
        d.nodes.flatMap d.linkViolations)) := by
  refine (reports_checkId .pipeline d.id).bind fun _ _ ↦ ?_
  refine (reports_buildNodes indexes_empty d.nodes).bind fun built hbuilt ↦ ?_
  obtain ⟨nodes, index⟩ := built
  obtain ⟨hnodes, hindex⟩ := of_buildNodes indexes_empty hbuilt
  exact (reports_forM (hnodes.imp fun c n ↦ reports_checkReferences hindex)).bind_ok _

/-! ### Channels and resolver steps -/

/-- A channel is reported if its producer has no such output. That there is a producer has been
checked before. -/
theorem reports_resolveChannel (h : Declared d options p) (id : NodeId) (key : InputKey)
    {c : Declaration.Channel} (hc : c.producer ∈ d.ids) :
    Reports (p.resolveChannel id key c) (Declaration.Channel.violations d id key c) := by
  obtain ⟨producer, hproducer, hid⟩ := List.mem_map.1 hc
  obtain ⟨n, hn, hdeclared⟩ := h.exists_node hproducer
  -- Another node with the same id is the same node.
  have houtput : d.HasOutput c.producer c.output ↔ c.output ∈ n.outputs.keys := by
    refine ⟨fun ⟨c', hc', hid', hkey⟩ ↦ ?_, fun hkey ↦ ?_⟩
    · obtain ⟨n', hn', hdeclared'⟩ := h.exists_node hc'
      rw [hid', ← hid, hn, Option.some.injEq] at hn'
      rwa [hn', hdeclared'.outputs]
    · exact ⟨producer, hproducer, hid, by rwa [← hdeclared.outputs]⟩
  rw [hid] at hn
  simp only [resolveChannel, Declaration.Channel.violations, hn, houtput,
    ← Dict.contains_iff_mem_keys, Dict.contains]
  rcases n.outputs.get? c.output with - | type
  · rw [hdeclared.id, hid]
    exact reports_error _
  · exact reports_ok _

/-- A configuration is reported if it is no object, and no text that holds one either. -/
theorem reports_resolveConfig (config : Option Json.Payload) :
    Reports (resolveConfig config) (Declaration.configFault config).toList := by
  rcases config with - | ⟨json, normal⟩
  · exact reports_ok _
  · cases json
    case string text =>
      rw [resolveConfig, Declaration.configFault]
      dsimp only
      rcases Json.parse text.toList with fault | json
      · exact reports_error _
      · cases json
        case object => exact reports_ok _
        all_goals exact reports_error _
    case null => exact reports_ok _
    case object => exact reports_ok _
    all_goals exact reports_error _

/-- The steps of a chain are reported with their numbers. -/
theorem reports_resolveSteps (id : NodeId) (key : InputKey) (i : Nat)
    (steps : List Declaration.Step) :
    Reports (resolveSteps id key i steps)
      ((steps.zipIdx i).flatMap (Declaration.Step.violations id key)) := by
  induction steps generalizing i with
  | nil => exact reports_ok _
  | cons s steps ih =>
    rw [List.zipIdx_cons, List.flatMap_cons, Declaration.Step.violations, Option.toList_map]
    refine ((reports_resolveConfig s.config).mapError _).bind fun config _ ↦ ?_
    exact (ih (i + 1)).bind_ok _

/-- **An input is reported for its channels first**, and then for the steps of its chain. -/
theorem reports_resolveInput (h : Declared d options p) (id : NodeId) (key : InputKey)
    {input : Declaration.Input} (hinput : ∀ c ∈ input.channels, c.producer ∈ d.ids) :
    Reports (p.resolveInput id key input) (input.violations d id key) := by
  refine Reports.bind (reports_mapM (List.forall₂_same.2 fun c hc ↦ ?_)) fun channels _ ↦ ?_
  · exact reports_resolveChannel h id key (hinput c hc)
  · exact (reports_resolveSteps id key 0 input.resolver).bind_ok _

/-- **Resolving channels** reports missing outputs and refused configurations. -/
theorem reports_resolveChannels (h : Declared d options p) :
    Reports p.resolveChannels.get (d.nodes.flatMap d.channelViolations) := by
  rw [get_resolveChannels]
  refine (reports_mapM ((forall₂_mem h.nodes).imp fun c n ⟨hc, _, hn⟩ ↦ ?_)).map _
  rw [resolveInputs, hn.inputs, hn.id]
  refine reports_traverse fun e he ↦ reports_resolveInput h c.id e.1 fun x hx ↦ ?_
  exact h.known c hc _ (.inl ⟨e, he, x, hx, rfl⟩)

/-! ### Cycles, deployment and doubles -/

/-- **Validating** reports a cycle of references. -/
theorem reports_validate (h : Declared d options p) (hs : Stage.channels.Settled p) :
    Reports p.validate.get d.cycleViolations := by
  rw [get_validate h.indexed, Declaration.cycleViolations]
  refine Reports.map ?_ _
  simp only [acyclicGraph_eq (graph_eq h hs), ← Graph.findCycle_eq_none_iff]
  rcases d.graph.findCycle with - | c
  · exact reports_ok _
  · exact reports_error _

/-- **Deploying** reports entries for unknown nodes and components without an entry. -/
theorem reports_deploy (h : Declared d options p) (m : Deployment) :
    Reports (p.deploy m).get (d.deploymentViolations m) := by
  rw [get_deploy]
  refine Reports.map (Reports.bind (reports_forM (List.forall₂_same.2 fun id _ ↦ ?_)) fun _ _ ↦
    reports_forM (h.nodes.imp fun c n hn ↦ ?_)) _
  · rw [← h.ids]
    simp only [← h.indexed.contains_iff]
    exact reports_ite _
  · simp only [checkExecutor, hn.kind, hn.id, ← Dict.contains_iff_mem_keys]
    rcases c.kind
    all_goals
      rcases m.contains c.id
      all_goals first | exact reports_ok _ | exact reports_error _

/-- A literal is finite if the field value to which it is converted is. -/
theorem isFinite_toField (v : Literal) : v.toField.isFinite = v.isFinite := by
  cases v <;> rfl

/-- A default keeps being finite when it is turned into a double, since no integer is too large. -/
theorem isFinite_of_defaultValue {kind : ScalarKind} {v : Literal} {w : FieldValue}
    (h : defaultValue kind v = .ok w) : w.isFinite = v.isFinite := by
  unfold defaultValue at h
  split at h
  next n =>
    dsimp only at h
    split at h
    · cases h
      exact Double.isFinite_ofInt n
    · cases h
  next =>
    split at h
    · cases h
      exact isFinite_toField v
    · cases h

/-- Resolving a parameter makes no double infinite. -/
theorem isFinite_of_parameterValue {id : NodeId} {key : String} {a : Parameter} {v : Value}
    (h : parameterValue id key a = .ok v) : v.isFinite = a.isFinite := by
  rcases a with u | r
  · cases h
    exact isFinite_toField u
  · rw [parameterValue] at h
    rw [Parameter.isFinite]
    rcases hdefault : r.default with - | u
    · simp only [hdefault] at h
      cases h
      rfl
    · rcases hvalue : defaultValue r.kind u with found | w
      · simp [hdefault, hvalue] at h
      · simp only [hdefault, hvalue] at h
        cases h
        exact isFinite_of_defaultValue hvalue

/-- Contexts hold no doubles. -/
theorem isFinite_contextsOf (h : Declared d options p) {c : Declaration.Node} {n : Node}
    (hn : n.DeclaredAs c) {x : Document.Context} (hx : x ∈ p.contextsOf n) :
    x.value.isFinite = true := by
  rw [contextsOf, canonicalContexts, h.runId, hn.contexts] at hx
  simp only [List.mem_append, List.mem_cons, List.not_mem_nil, or_false, List.mem_map] at hx
  rcases hx with (rfl | rfl | rfl) | ⟨y, -, rfl⟩
  · rfl
  · rfl
  · rfl
  · rw [declaredContext]
    rcases y.value with s | name
    · rfl
    · rfl

theorem map_filter_not_eq_flatMap {α β : Type} (q : α → Bool) (f : α → β) (as : List α) :
    (as.filter fun a ↦ !q a).map f = as.flatMap fun a ↦ if q a then [] else [f a] := by
  induction as with
  | nil => rfl
  | cons a as ih =>
    rw [List.filter_cons, List.flatMap_cons, ← ih]
    rcases q a with - | -
    · rfl
    · rfl

/-- The values that cannot be written are found in the same places before and after compiling:
contexts that are added for every node are texts. -/
theorem nonFiniteSites_node (h : Declared d options p) {c : Declaration.Node} {n : Node}
    (hn : n.DeclaredAs c) (hcontexts : n.contexts = p.contextsOf n) :
    n.toDocument.nonFiniteSites.map (fun site ↦ CompileError.notWritable (.nonFinite site)) =
      c.doubleViolations := by
  have hnone : (n.contexts.filter fun x ↦ !x.value.isFinite) = [] := by
    refine List.filter_eq_nil_iff.2 fun x hx ↦ ?_
    rw [hcontexts] at hx
    simp [isFinite_contextsOf h hn hx]
  have hparameters := Dict.traverse_eq_ok_iff.1 hn.parameters
  simp only [Document.Node.nonFiniteSites, Node.toDocument, hnone, List.map_nil, List.append_nil,
    map_filter_not_eq_flatMap, List.map_flatMap, Declaration.Node.doubleViolations, hn.id]
  refine (flatMap_eq_of_forall₂ hparameters fun e e' ⟨hkey, hvalue⟩ ↦ ?_).symm
  rw [isFinite_of_parameterValue hvalue, hkey]
  split
  · rfl
  · rfl

/-- The check of a document reports the places of infinite and undefined doubles. -/
theorem reports_checkFinite (document : Document) :
    Reports document.checkFinite (document.nonFiniteSites.map .nonFinite) := by
  rw [Document.checkFinite]
  rcases document.nonFiniteSites with - | ⟨site, sites⟩
  · exact reports_ok ()
  · rfl

/-- **Emitting** reports parameters that hold a double which cannot be written. -/
theorem reports_emit (h : Declared d options p) (hs : Stage.contexts.Settled p) :
    Reports p.emit (d.nodes.flatMap Declaration.Node.doubleViolations) := by
  have hsites : (p.toDocument.nonFiniteSites.map DocumentError.nonFinite).map
      CompileError.notWritable = d.nodes.flatMap Declaration.Node.doubleViolations := by
    have hroot : p.runtime.root.isFinite = true := by
      rw [h.root]
      rcases d.root with - | s
      · rfl
      · rfl
    have hrun : p.runtime.runId.isFinite = true := by
      rw [h.runId]
      rfl
    have hcontexts := List.map_inj_left.1 (settled_contexts_iff.1 hs)
    simp only [Document.nonFiniteSites, toDocument, hroot, hrun, if_pos, List.nil_append,
      List.map_map, List.flatMap_map, List.map_flatMap]
    refine (flatMap_eq_of_forall₂ (forall₂_mem h.nodes) fun c n ⟨_, hmem, hn⟩ ↦ ?_).symm
    exact (nonFiniteSites_node h hn (hcontexts n hmem)).symm
  rw [← hsites]
  exact ((reports_checkFinite _).mapError _).bind_ok _

end Pipeline

/-! ### Compilation -/

namespace Declaration

open Pipeline

/-- The violations that are found before the document is emitted, by stages. -/
def buildViolations (d : Declaration) (m : Deployment) : List CompileError :=
  (nameViolations .pipeline d.id ++ (formViolations [] d.nodes ++
      d.nodes.flatMap d.linkViolations)) ++
    (d.nodes.flatMap d.channelViolations ++ (d.cycleViolations ++ d.deploymentViolations m))

/-- Doubles come last, after everything else. -/
theorem violations_eq (d : Declaration) (m : Deployment) :
    d.violations m = d.buildViolations m ++ d.nodes.flatMap Node.doubleViolations := by
  simp only [violations, buildViolations, List.append_assoc]

/-- **Building** reports everything but doubles that cannot be written. -/
theorem reports_build (d : Declaration) (m : Deployment) (options : CompileOptions) :
    Reports (d.build m options) (d.buildViolations m) := by
  refine (reports_assemble d options).bind fun p hp ↦ ?_
  -- No stage changes what is declared, so each of the pipelines below is one over `p`.
  have hbare := (assembled_of_assemble hp).bare_eq
  have hindexed := (assembled_of_assemble hp).indexed
  have hbare₁ : p.deriveContexts.bare = p := (bare_run .contexts).trans hbare
  have hindexed₁ := indexed_run hindexed .contexts
  refine (reports_resolveChannels (declared_of_assemble (hbare₁.symm ▸ hp))).bind fun p₂ h₂ ↦ ?_
  have hbare₂ : p₂.bare = p := (bare_of_run (s := .channels) h₂).trans hbare₁
  have hchannels := settled_of_run (s := .channels) hindexed₁ h₂
  refine (reports_validate (declared_of_assemble (hbare₂.symm ▸ hp)) hchannels).bind
    fun p₃ h₃ ↦ ?_
  have hbare₃ : p₃.bare = p := (bare_of_run (s := .adjacency) h₃).trans hbare₂
  exact reports_deploy (declared_of_assemble (hbare₃.symm ▸ hp)) m

/-- **Compilation reports the first violation.** -/
theorem reports_compile (d : Declaration) (m : Deployment) (options : CompileOptions) :
    Reports (d.compile m options) (d.violations m) := by
  rw [violations_eq]
  refine (reports_build d m options).bind fun p hp ↦ ?_
  obtain ⟨hassemble, hsettled⟩ := build_eq_ok_iff.1 hp
  exact (reports_emit (declared_of_assemble hassemble) hsettled.contexts).bind_ok _

/-! ### The reported cycle -/

/-- A closed chain of nodes, otherwise distinct, each of which the next one refers to. -/
structure IsReferenceCycle (d : Declaration) (c : List NodeId) : Prop where
  two_le : 2 ≤ c.length
  closed : c.head? = c.getLast?
  nodup : c.dropLast.Nodup
  chain : c.IsChain fun u w ↦ ∃ n ∈ d.nodes, n.id = w ∧ n.RefersTo u

/-- Positions in the graph stand for the ids of its nodes. -/
theorem idsOf_eq_map {g : Graph NodeId ReferenceSite} {positions : List Nat}
    (h : ∀ i ∈ positions, i < g.order) :
    idsOf g positions = positions.map fun i ↦ g.nodes.getD i "" := by
  rw [idsOf, ← List.filterMap_eq_map']
  refine List.filterMap_congr fun i hi ↦ ?_
  rw [List.getD_eq_getElem?_getD, List.getElem?_eq_getElem (h i hi), Option.getD_some]

/-- Turned into ids, a cycle of the graph is a cycle of references. -/
theorem isReferenceCycle_of_isCycle (hnodup : d.ids.Nodup) {c : List Nat}
    (h : d.graph.IsCycle c) : d.IsReferenceCycle (idsOf d.graph c) := by
  have hlt : ∀ i ∈ c, i < d.ids.length := fun i hi ↦ by
    rw [← nodes_graph]
    exact h.lt_order hi
  have hget : ∀ i ∈ c, d.ids[i]? = some (d.graph.nodes.getD i "") := fun i hi ↦ by
    rw [nodes_graph, List.getD_eq_getElem?_getD, List.getElem?_eq_getElem (hlt i hi),
      Option.getD_some]
  rw [idsOf_eq_map fun i ↦ h.lt_order]
  refine ⟨by rw [List.length_map]; exact h.two_le, ?_, ?_, ?_⟩
  · rw [List.head?_map, List.getLast?_map, h.closed]
  · rw [← List.map_dropLast]
    refine h.nodup.map_on fun i hi j hj hij ↦ ?_
    have hi' := hget i (List.mem_of_mem_dropLast hi)
    rw [hij] at hi'
    exact position_eq hnodup hi' (hget j (List.mem_of_mem_dropLast hj))
  · rw [List.isChain_map]
    refine h.chain.imp_of_mem_imp fun i j hi hj hadj ↦ ?_
    obtain ⟨n, hn⟩ : ∃ n, d.nodes[j]? = some n :=
      ⟨_, List.getElem?_eq_getElem (by simpa [ids] using hlt j hj)⟩
    have hid : d.graph.nodes.getD j "" = n.id := by
      have hj' := hget j hj
      rw [ids, List.getElem?_map, hn, Option.map_some] at hj'
      exact (Option.some.inj hj').symm
    exact ⟨n, List.mem_of_getElem? hn, hid.symm, (adj_graph_iff hnodup (hget i hi) hn).1 hadj⟩

/-- Nothing is reported of a name that passes the check. -/
theorem nameViolations_eq_nil_iff {subject : NameSubject} {name : String} :
    nameViolations subject name = [] ↔ checkName name = .ok () := by
  rw [nameViolations]
  rcases checkName name with reason | ⟨⟩ <;> simp

/-- A node has a new id, and nothing else is wrong with it that does not depend on the others. -/
theorem Node.formViolations_eq_nil_iff {earlier : List NodeId} {n : Node} :
    n.formViolations earlier = [] ↔ n.id ∉ earlier ∧ n.formViolations [] = [] := by
  simp only [Node.formViolations, List.append_eq_nil_iff, ite_eq_left_iff]
  simp only [reduceCtorEq, imp_false, not_not, List.not_mem_nil, not_false_eq_true]
  tauto

/-- Nothing is wrong with nodes on their own if that is so for each, and if their ids are new. -/
theorem formViolations_eq_nil_iff {earlier : List NodeId} {ns : List Node}
    (hearlier : earlier.Nodup) : formViolations earlier ns = [] ↔
      (earlier ++ ns.map (·.id)).Nodup ∧ ∀ n ∈ ns, n.formViolations [] = [] := by
  induction ns generalizing earlier with
  | nil => simpa [formViolations] using hearlier
  | cons n ns ih =>
    rw [formViolations, List.append_eq_nil_iff, Node.formViolations_eq_nil_iff,
      List.forall_mem_cons, List.map_cons]
    by_cases hn : n.id ∈ earlier
    · have hdouble : ¬ (earlier ++ n.id :: ns.map (·.id)).Nodup := fun h ↦
        (List.nodup_append.1 h).2.2 n.id hn n.id List.mem_cons_self rfl
      tauto
    · have hnext : (earlier ++ [n.id]).Nodup :=
        List.nodup_append_comm.1 (List.nodup_cons.2 ⟨hn, hearlier⟩)
      rw [ih hnext, List.append_assoc, List.singleton_append]
      tauto

/-- A cycle is not reported among names. -/
theorem cyclic_notMem_nameViolations (c : List NodeId) (subject : NameSubject) (name : String) :
    .cyclic c ∉ nameViolations subject name := by
  rw [nameViolations]
  split
  · simp
  · simp

/-- A cycle is not reported while nodes are built. -/
theorem cyclic_notMem_formViolations (c : List NodeId) (earlier : List NodeId) (ns : List Node) :
    .cyclic c ∉ formViolations earlier ns := by
  induction ns generalizing earlier with
  | nil => simp [formViolations]
  | cons n ns ih =>
    simp only [formViolations, Node.formViolations, List.mem_append, not_or, ih,
      cyclic_notMem_nameViolations, not_false_eq_true, true_and, and_true, List.mem_map,
      List.mem_flatMap, reduceCtorEq, and_false, exists_false, not_exists, not_and]
    refine ⟨by split <;> simp, fun e _ ↦ ?_⟩
    rcases e.2 with v | r
    · simp [Parameter.violations]
    · rw [Parameter.violations]
      rcases r.default with - | v
      · simp
      · dsimp only
        split <;> simp

/-- A cycle is not reported while references are checked. -/
theorem cyclic_notMem_linkViolations (c : List NodeId) (d : Declaration) (n : Node) :
    .cyclic c ∉ d.linkViolations n := by
  simp only [linkViolations, inputViolations, referenceViolations, List.mem_append,
    List.mem_flatMap, not_or, not_exists, not_and]
  refine ⟨fun e _ ↦ ?_, fun x _ ↦ by split <;> simp⟩
  split
  · simp
  · simp only [List.mem_flatMap, not_exists, not_and]
    exact fun x _ ↦ by split <;> simp

/-- A cycle is not reported while channels are resolved. -/
theorem cyclic_notMem_channelViolations (c : List NodeId) (d : Declaration) (n : Node) :
    .cyclic c ∉ d.channelViolations n := by
  simp only [channelViolations, Input.violations, Channel.violations, Step.violations,
    List.mem_append, List.mem_flatMap, not_or, not_exists, not_and]
  exact fun e _ ↦ ⟨fun x _ ↦ by split <;> simp, fun s _ ↦ by simp⟩

/-- What is first in a list and not in its first part is first in the second one. -/
theorem head?_append_of_notMem {α : Type} {as bs : List α} {a : α} (ha : a ∉ as)
    (h : (as ++ bs).head? = some a) : as = [] ∧ bs.head? = some a := by
  rcases as with - | ⟨x, as⟩
  · exact ⟨rfl, h⟩
  · rw [List.cons_append, List.head?_cons, Option.some.injEq] at h
    exact absurd (h ▸ List.mem_cons_self) ha

/-- A cycle is only reported if nothing is wrong with ids, and then it is one of references. -/
theorem isReferenceCycle_of_head? {c : List NodeId}
    (h : (d.violations m).head? = some (.cyclic c)) : d.IsReferenceCycle c := by
  simp only [violations, List.append_assoc] at h
  obtain ⟨-, h⟩ := head?_append_of_notMem (cyclic_notMem_nameViolations c _ _) h
  obtain ⟨hform, h⟩ := head?_append_of_notMem (cyclic_notMem_formViolations c _ _) h
  obtain ⟨-, h⟩ := head?_append_of_notMem (by simp [cyclic_notMem_linkViolations]) h
  obtain ⟨-, h⟩ := head?_append_of_notMem (by simp [cyclic_notMem_channelViolations]) h
  have hnodup : d.ids.Nodup := ((formViolations_eq_nil_iff List.nodup_nil).1 hform).1
  -- All that comes before is empty. So is this part if there is no cycle, and nothing after it is a
  -- cycle.
  by_cases hacyclic : d.graph.Acyclic
  · rw [cycleViolations, if_pos hacyclic, List.nil_append] at h
    refine absurd (List.mem_of_mem_head? h) ?_
    simp only [deploymentViolations, Node.doubleViolations, List.mem_append, List.mem_flatMap,
      not_or, not_exists, not_and]
    refine ⟨⟨fun x _ ↦ by split <;> simp, fun n _ ↦ by split <;> simp⟩, fun n _ e _ ↦ ?_⟩
    split <;> simp
  · rw [cycleViolations, if_neg hacyclic] at h
    rw [← Graph.findCycle_eq_none_iff, ← ne_eq, Option.ne_none_iff_exists'] at hacyclic
    obtain ⟨cycle, hcycle⟩ := hacyclic
    rw [hcycle, Option.getD_some, List.cons_append, List.head?_cons, Option.some.injEq,
      CompileError.cyclic.injEq] at h
    rw [← h]
    exact isReferenceCycle_of_isCycle hnodup (Graph.isCycle_of_findCycle hcycle)

/-- **What compilation reports.** It fails with the first violation of the scan, and succeeds if
there is none; a cycle that it reports is a cycle of references. -/
theorem compile_reports_first_violation (d : Declaration) (m : Deployment)
    (options : CompileOptions) :
    (∀ e, d.compile m options = .error e ↔ (d.violations m).head? = some e) ∧
      ((∃ report, d.compile m options = .ok report) ↔ d.violations m = []) ∧
      ∀ c, d.compile m options = .error (.cyclic c) → d.IsReferenceCycle c := by
  have h := reports_compile d m options
  refine ⟨fun e ↦ h.eq_error_iff, h.exists_ok_iff, fun c hc ↦ ?_⟩
  exact isReferenceCycle_of_head? (h.eq_error_iff.1 hc)

end Declaration
end Pipework
