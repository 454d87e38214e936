import Pipework.Proofs.Compile.Scan

/-!
# Valid declarations

Compilation succeeds for the valid declarations and for no others (`exists_compile_iff_valid`).

The list of violations goes through the nodes in their order. Validity says without any order what
it is that makes the list empty: something about each node on its own, something about each node and
those to which it refers, and that ids are distinct and references acyclic. The graph has positions
for nodes and so depends on their order, but whether it is acyclic can be told from the ids.
-/

namespace Pipework.Declaration

open Relation

variable {d : Declaration} {m : Deployment}

/-- The default of a runtime parameter fits its kind, and doubles can be written. -/
def Parameter.Valid : Parameter → Prop
  | .literal v => v.isFinite = true
  | .runtime p => ∀ v ∈ p.default, v.fits p.kind = true ∧ v.isFinite = true

/-- What is asked of a node on its own. -/
structure Node.Valid (n : Node) : Prop where
  name : checkName n.id = .ok ()
  contexts : ∀ c ∈ n.contexts, isCanonicalContextType c.type = false
  parameters : ∀ e ∈ n.parameters.entries, e.2.Valid
  inputs : ∀ e ∈ n.inputs.entries,
    e.2.channels ≠ [] ∧ ∀ s ∈ e.2.resolver, configFault s.config = none

/-- The node `w` refers to the node `u`. -/
def Precedes (d : Declaration) (u w : NodeId) : Prop :=
  ∃ n ∈ d.nodes, n.id = w ∧ n.RefersTo u

/-- What is asked of a declaration and its deployment. -/
structure Valid (d : Declaration) (m : Deployment) : Prop where
  name : checkName d.id = .ok ()
  distinct : d.ids.Nodup
  nodes : ∀ n ∈ d.nodes, n.Valid
  known : ∀ n ∈ d.nodes, ∀ x, n.RefersTo x → x ∈ d.ids
  outputs : ∀ n ∈ d.nodes, ∀ e ∈ n.inputs.entries, ∀ c ∈ e.2.channels,
    d.HasOutput c.producer c.output
  acyclic : ∀ x, ¬ TransGen d.Precedes x x
  deployed : ∀ x ∈ m.keys, x ∈ d.ids
  executors : ∀ n ∈ d.nodes, n.kind = .component → n.id ∈ m.keys

/-! ### Single nodes -/

/-- A parameter is valid if its default value has its kind and it can be written. -/
theorem Parameter.valid_iff (id : NodeId) (key : String) {a : Parameter} :
    a.Valid ↔ a.violations id key = [] ∧ a.isFinite = true := by
  rcases a with v | ⟨name, kind, default⟩
  · simp [Valid, violations, isFinite]
  · rcases default with - | v
    · simp [Valid, violations, isFinite]
    · simp [Valid, violations, isFinite, ite_eq_left_iff]

/-- The links of a node are right if no input is without channels and all references are to
nodes. -/
theorem linkViolations_eq_nil_iff {n : Node} :
    d.linkViolations n = [] ↔
      (∀ e ∈ n.inputs.entries, e.2.channels ≠ []) ∧ ∀ x, n.RefersTo x → x ∈ d.ids := by
  have hreference : ∀ site x, d.referenceViolations n.id site x = [] ↔ x ∈ d.ids := by
    intro site x
    rw [referenceViolations]
    split <;> simp_all
  have hinput : ∀ e : InputKey × Input, d.inputViolations n.id e.1 e.2 = [] ↔
      e.2.channels ≠ [] ∧ ∀ c ∈ e.2.channels, c.producer ∈ d.ids := by
    intro e
    rw [inputViolations]
    split <;> simp_all
  simp only [linkViolations, List.append_eq_nil_iff, List.flatMap_eq_nil_iff, hinput, hreference,
    Node.RefersTo]
  constructor
  · rintro ⟨hinputs, hafter⟩
    refine ⟨fun e he ↦ (hinputs e he).1, fun x hx ↦ ?_⟩
    rcases hx with ⟨e, he, c, hc, rfl⟩ | hx
    · exact (hinputs e he).2 c hc
    · exact hafter x hx
  · rintro ⟨hne, hknown⟩
    refine ⟨fun e he ↦ ⟨hne e he, fun c hc ↦ ?_⟩, fun x hx ↦ hknown x (.inr hx)⟩
    exact hknown c.producer (.inl ⟨e, he, c, hc, rfl⟩)

/-- The channels of a node are right if they are for outputs that there are and nothing is wrong
with the configurations of steps. -/
theorem channelViolations_eq_nil_iff {n : Node} :
    d.channelViolations n = [] ↔ ∀ e ∈ n.inputs.entries,
      (∀ c ∈ e.2.channels, d.HasOutput c.producer c.output) ∧
      ∀ s ∈ e.2.resolver, configFault s.config = none := by
  have hstep : ∀ (key : InputKey) (steps : List Step),
      steps.zipIdx.flatMap (Step.violations n.id key) = [] ↔
        ∀ s ∈ steps, configFault s.config = none := by
    intro key steps
    conv_rhs => rw [← List.zipIdx_map_fst 0 steps, List.forall_mem_map]
    simp [Step.violations]
  simp [channelViolations, Input.violations, Channel.violations, hstep]

/-- A node is valid if none of the parts of the scan finds something wrong with it alone. -/
theorem Node.valid_iff {n : Node} :
    n.Valid ↔ n.formViolations [] = [] ∧ n.doubleViolations = [] ∧
      ∀ e ∈ n.inputs.entries,
        e.2.channels ≠ [] ∧ ∀ s ∈ e.2.resolver, configFault s.config = none := by
  have hform : n.formViolations [] = [] ↔ checkName n.id = .ok () ∧
      (∀ c ∈ n.contexts, isCanonicalContextType c.type = false) ∧
      ∀ e ∈ n.parameters.entries, e.2.violations n.id e.1 = [] := by
    simp [formViolations, nameViolations_eq_nil_iff]
  have hdouble : n.doubleViolations = [] ↔ ∀ e ∈ n.parameters.entries, e.2.isFinite = true := by
    simp [doubleViolations]
  rw [hform, hdouble]
  constructor
  · intro h
    have hparameter := fun e he ↦ (Parameter.valid_iff n.id e.1).1 (h.parameters e he)
    exact ⟨⟨h.name, h.contexts, fun e he ↦ (hparameter e he).1⟩, fun e he ↦ (hparameter e he).2,
      h.inputs⟩
  · rintro ⟨⟨hname, hcontexts, hfits⟩, hfinite, hinputs⟩
    refine ⟨hname, hcontexts, fun e he ↦ ?_, hinputs⟩
    exact (Parameter.valid_iff n.id e.1).2 ⟨hfits e he, hfinite e he⟩

/-! ### The declaration -/

/-- **Cycles of positions are cycles of ids.** -/
theorem acyclic_graph_iff (hnodup : d.ids.Nodup)
    (hknown : ∀ n ∈ d.nodes, ∀ x, n.RefersTo x → x ∈ d.ids) :
    d.graph.Acyclic ↔ ∀ x, ¬ TransGen d.Precedes x x := by
  have hjoins : d.graph.Joins = d.Precedes := by
    funext u w
    refine propext ⟨?_, ?_⟩
    · rintro ⟨i, j, hi, hj, hadj⟩
      rw [nodes_graph] at hi hj
      obtain ⟨n, hn, rfl⟩ := Option.map_eq_some_iff.1 (List.getElem?_map ▸ hj)
      exact ⟨n, List.mem_of_getElem? hn, rfl, (adj_graph_iff hnodup hi hn).1 hadj⟩
    · rintro ⟨n, hn, rfl, hu⟩
      obtain ⟨i, hi⟩ := List.mem_iff_getElem?.1 (hknown n hn u hu)
      obtain ⟨j, hj⟩ := List.mem_iff_getElem?.1 hn
      refine ⟨i, j, by rwa [nodes_graph], ?_, (adj_graph_iff hnodup hi hj).2 hu⟩
      rw [nodes_graph, ids, List.getElem?_map, hj, Option.map_some]
  rw [Graph.acyclic_iff_joins (by rwa [nodes_graph]), hjoins]

/-- A deployment is right if it is for nodes that there are, and for all that need one. -/
theorem deploymentViolations_eq_nil_iff :
    d.deploymentViolations m = [] ↔ (∀ x ∈ m.keys, x ∈ d.ids) ∧
      ∀ n ∈ d.nodes, n.kind = .component → n.id ∈ m.keys := by
  simp [deploymentViolations]

/-- **Nothing is wrong with the valid declarations**, and something with all others. -/
theorem violations_eq_nil_iff : d.violations m = [] ↔ d.Valid m := by
  simp only [violations, List.append_eq_nil_iff, List.flatMap_eq_nil_iff, nameViolations_eq_nil_iff,
    formViolations_eq_nil_iff List.nodup_nil, List.nil_append, linkViolations_eq_nil_iff,
    channelViolations_eq_nil_iff, deploymentViolations_eq_nil_iff, cycleViolations, ite_eq_left_iff]
  simp only [reduceCtorEq, imp_false, not_not]
  constructor
  · rintro ⟨⟨⟨⟨⟨⟨hname, hnodup, hform⟩, hlinks⟩, hchannels⟩, hacyclic⟩, hdeployed, hexecutors⟩,
      hdoubles⟩
    have hknown : ∀ n ∈ d.nodes, ∀ x, n.RefersTo x → x ∈ d.ids := fun n hn ↦ (hlinks n hn).2
    refine ⟨hname, hnodup, fun n hn ↦ ?_, hknown, fun n hn e he ↦ (hchannels n hn e he).1,
      (acyclic_graph_iff hnodup hknown).1 hacyclic, hdeployed, hexecutors⟩
    exact Node.valid_iff.2 ⟨hform n hn, hdoubles n hn, fun e he ↦
      ⟨(hlinks n hn).1 e he, (hchannels n hn e he).2⟩⟩
  · intro h
    have hnode := fun n hn ↦ Node.valid_iff.1 (h.nodes n hn)
    refine ⟨⟨⟨⟨⟨⟨h.name, h.distinct, fun n hn ↦ (hnode n hn).1⟩, fun n hn ↦ ?_⟩,
      fun n hn e he ↦ ?_⟩, (acyclic_graph_iff h.distinct h.known).2 h.acyclic⟩, h.deployed,
      h.executors⟩, fun n hn ↦ (hnode n hn).2.1⟩
    · exact ⟨fun e he ↦ ((h.nodes n hn).inputs e he).1, h.known n hn⟩
    · exact ⟨h.outputs n hn e he, ((h.nodes n hn).inputs e he).2⟩

/-- **Compilation succeeds for valid declarations only, and for all of them.** -/
theorem exists_compile_iff_valid {options : CompileOptions} :
    (∃ report, d.compile m options = .ok report) ↔ d.Valid m :=
  (reports_compile d m options).exists_ok_iff.trans violations_eq_nil_iff

end Pipework.Declaration
