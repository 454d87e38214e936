import Mathlib.Algebra.Ring.Nat
import Mathlib.Data.Set.Card
import Pipework.Proofs.Compile.Queries
import Pipework.Proofs.Compile.Result
import Pipework.Proofs.Compile.Valid

/-!
# The counts of a report

The counts are taken from the compiled pipeline. Here they are found again in the declaration and in
the rest of the report (`counted_of_compile`).

An edge is a pair of nodes of which the second refers to the first. It is counted once however often
the second refers to the first, while channels and steps are counted as often as they are declared.
Dependencies list the edges by their ends, and dependents list them by their starts. Both lists have
no repetitions, and hence as many members as there are edges (`encard_eq_length`).
-/

namespace Pipework

/-! ### Edges -/

/-- The edges of a document, by the dependencies of its nodes. -/
def Document.dependencyPairs (document : Document) : List (NodeId × NodeId) :=
  document.nodes.flatMap fun n ↦ n.dependencies.map (·, n.id)

/-- The edges of a document, by the dependents of its nodes. -/
def Document.dependentPairs (document : Document) : List (NodeId × NodeId) :=
  document.nodes.flatMap fun n ↦ n.dependents.map (n.id, ·)

/-- The pairs of nodes of which the second refers to the first. -/
def Declaration.edges (d : Declaration) : Set (NodeId × NodeId) :=
  {p | d.Precedes p.1 p.2}

/-- A set is counted by a list of its members without repetition. -/
theorem encard_eq_length {α : Type} {s : Set α} {l : List α} (hnodup : l.Nodup)
    (hmem : ∀ a, a ∈ l ↔ a ∈ s) : s.encard = l.length := by
  classical
  obtain rfl : (l.toFinset : Set α) = s := by
    ext a
    rw [Finset.mem_coe, List.mem_toFinset, hmem a]
  rw [Set.encard_coe_eq_coe_finsetCard, List.toFinset_card_of_nodup hnodup]

/-- What is collected from the nodes of a document has no repetitions if members tell their node. -/
theorem nodup_flatMap_nodes {α : Type} (node : α → NodeId) {nodes : List Document.Node}
    (hids : (nodes.map (·.id)).Nodup) {f : Document.Node → List α}
    (hf : ∀ n ∈ nodes, (f n).Nodup) (hnode : ∀ n, ∀ a ∈ f n, node a = n.id) :
    (nodes.flatMap f).Nodup := by
  refine List.nodup_flatMap.2 ⟨hf, (List.pairwise_map.1 hids).imp fun {n w} hne ↦ ?_⟩
  intro a hn hw
  exact hne ((hnode n a hn).symm.trans (hnode w a hw))

namespace Declaration.Outcome

variable {d : Declaration} {m : Deployment} {options : CompileOptions} {report : CompileReport}

/-- No edge is written twice among the dependencies, although a reference may be repeated. -/
theorem nodup_dependencyPairs (h : d.Outcome m options report) :
    report.document.dependencyPairs.Nodup := by
  refine nodup_flatMap_nodes Prod.snd h.nodup_document (fun n hn ↦ ?_) (by simp)
  obtain ⟨c, -, hc⟩ := exists_mem_of_forall₂_right h.nodes hn
  rw [hc.dependencies]
  exact (h.nodup.filter _).map (Prod.mk_left_injective n.id)

/-- No edge is written twice among the dependents. -/
theorem nodup_dependentPairs (h : d.Outcome m options report) :
    report.document.dependentPairs.Nodup := by
  refine nodup_flatMap_nodes Prod.fst h.nodup_document (fun n hn ↦ ?_) (by simp)
  obtain ⟨c, -, hc⟩ := exists_mem_of_forall₂_right h.nodes hn
  rw [hc.dependents]
  exact (h.nodup.sublist (List.filter_sublist.map _)).map (Prod.mk_right_injective n.id)

/-- The dependencies are the edges. -/
theorem mem_dependencyPairs_iff (h : d.Outcome m options report) (p : NodeId × NodeId) :
    p ∈ report.document.dependencyPairs ↔ p ∈ d.edges := by
  obtain ⟨u, w⟩ := p
  simp only [Document.dependencyPairs, List.mem_flatMap, List.mem_map, Prod.mk.injEq]
  constructor
  · rintro ⟨n, hn, x, hx, rfl, rfl⟩
    obtain ⟨c, hc, hcompiled⟩ := exists_mem_of_forall₂_right h.nodes hn
    exact ⟨c, hc, hcompiled.id.symm, (hcompiled.mem_dependencies_iff (h.known c hc)).1 hx⟩
  · rintro ⟨c, hc, rfl, hrefers⟩
    obtain ⟨n, hn, hcompiled⟩ := exists_mem_of_forall₂ h.nodes hc
    exact ⟨n, hn, u, (hcompiled.mem_dependencies_iff (h.known c hc)).2 hrefers, rfl, hcompiled.id⟩

/-- The dependents are the edges, too. -/
theorem mem_dependentPairs_iff (h : d.Outcome m options report) (p : NodeId × NodeId) :
    p ∈ report.document.dependentPairs ↔ p ∈ d.edges := by
  obtain ⟨u, w⟩ := p
  simp only [Document.dependentPairs, List.mem_flatMap, List.mem_map, Prod.mk.injEq]
  constructor
  · rintro ⟨n, hn, x, hx, rfl, rfl⟩
    obtain ⟨c, -, hcompiled⟩ := exists_mem_of_forall₂_right h.nodes hn
    rw [hcompiled.dependents] at hx
    obtain ⟨v, hv, rfl⟩ := List.mem_map.1 hx
    obtain ⟨hv, hrefers⟩ := List.mem_filter.1 hv
    exact ⟨v, hv, rfl, hcompiled.id ▸ of_decide_eq_true hrefers⟩
  · rintro ⟨v, hv, rfl, hrefers⟩
    -- The node to which another one refers is declared.
    obtain ⟨c, hc, rfl⟩ := List.mem_map.1 (h.known v hv u hrefers)
    obtain ⟨n, hn, hcompiled⟩ := exists_mem_of_forall₂ h.nodes hc
    refine ⟨n, hn, v.id, ?_, hcompiled.id, rfl⟩
    rw [hcompiled.dependents]
    exact List.mem_map_of_mem (List.mem_filter.2 ⟨hv, decide_eq_true hrefers⟩)

end Declaration.Outcome

/-! ### Channels and steps -/

namespace Declaration

variable {d : Declaration} {m : Deployment} {options : CompileOptions} {report : CompileReport}

/-- All channels of a declaration, as often as they are declared. -/
def channels (d : Declaration) : List Channel :=
  d.nodes.flatMap fun c ↦ c.inputs.values.flatMap (·.channels)

/-- All steps of resolver chains of a declaration, as often as they are declared. -/
def steps (d : Declaration) : List Step :=
  d.nodes.flatMap fun c ↦ c.inputs.values.flatMap (·.resolver)

/-- Corresponding entries that yield lists of the same length make up lists of the same length. -/
theorem length_flatMap_of_forall₂ {α β γ δ : Type} {R : α → β → Prop} {f : α → List γ}
    {g : β → List δ} {as : List α} {bs : List β} (h : List.Forall₂ R as bs)
    (hR : ∀ a b, R a b → (f a).length = (g b).length) :
    (as.flatMap f).length = (bs.flatMap g).length := by
  rw [List.length_flatMap, List.length_flatMap, map_eq_of_forall₂ h hR]

/-- Declared inputs and their queries have equally many members of any kind. -/
theorem Outcome.length_flatMap_inputs (h : d.Outcome m options report) {α β : Type}
    {f : Input → List α} {g : Document.Input → List β}
    (hfg : ∀ id key input q, d.Queries options id key input q →
      (f input).length = (g q).length) :
    (d.nodes.flatMap fun c ↦ c.inputs.values.flatMap f).length =
      ((report.document.nodes.flatMap fun n ↦ n.inputs.values).flatMap g).length := by
  rw [List.flatMap_assoc]
  refine length_flatMap_of_forall₂ h.nodes fun c n hcompiled ↦ ?_
  rw [Dict.values, Dict.values, List.flatMap_map, List.flatMap_map]
  exact length_flatMap_of_forall₂ hcompiled.inputs fun e e' he ↦ hfg _ _ _ _ he.2

/-- Every declared channel is counted, whichever outputs it shares with others. -/
theorem Outcome.length_channels (h : d.Outcome m options report) :
    d.channels.length = report.counts.channels := by
  rw [h.counts]
  exact h.length_flatMap_inputs fun _ _ _ _ hq ↦ hq.channels.length_eq

/-- Every declared step is counted. -/
theorem Outcome.length_steps (h : d.Outcome m options report) :
    d.steps.length = report.counts.resolverSteps := by
  rw [h.counts]
  refine h.length_flatMap_inputs fun _ _ input q hq ↦ ?_
  simpa using (congrArg List.length (Pipeline.map_op_of_resolveSteps hq.resolver)).symm

/-! ### The counts -/

/-- What the counts of a report are, in the report and in the declaration and its deployment. -/
structure Counted (d : Declaration) (m : Deployment) (report : CompileReport) : Prop where
  dependencies : (report.document.nodes.map (·.dependencies.length)).sum = report.counts.edges
  dependents : (report.document.nodes.map (·.dependents.length)).sum = report.counts.edges
  edges : d.edges.encard = report.counts.edges
  nodes : d.nodes.length = report.counts.nodes
  layers : (report.layers.map List.length).sum = report.counts.nodes
  channels : d.channels.length = report.counts.channels
  steps : d.steps.length = report.counts.resolverSteps
  deployment : m.size = report.counts.deploymentEntries

/-- **The counts are right.** -/
theorem counted_of_compile (h : d.compile m options = .ok report) : d.Counted m report := by
  have h := outcome_of_compile h
  have hsum : (report.document.nodes.map (·.dependencies.length)).sum = report.counts.edges := by
    rw [h.counts]
    exact List.length_flatMap.symm
  have hdependencies : report.document.dependencyPairs.length = report.counts.edges := by
    simpa [Document.dependencyPairs, List.length_flatMap] using hsum
  have hedges := encard_eq_length h.nodup_dependencyPairs h.mem_dependencyPairs_iff
  have hedges' := encard_eq_length h.nodup_dependentPairs h.mem_dependentPairs_iff
  refine ⟨hsum, ?_, by rw [hedges, hdependencies], ?_, ?_, h.length_channels, h.length_steps, ?_⟩
  · -- Dependents are not counted themselves, but they list the same set of edges.
    have hsame : report.document.dependentPairs.length = report.counts.edges := by
      rw [← hdependencies]
      exact_mod_cast hedges'.symm.trans hedges
    simpa [Document.dependentPairs, List.length_flatMap] using hsame
  · rw [h.counts]
    exact h.nodes.length_eq
  · rw [h.counts, ← List.length_flatten, h.layering.perm.length_eq, List.length_map]
    rfl
  · rw [h.counts]
    exact congrArg Dict.size h.deployment.symm

/-- The relay with a sink that refers to the copy three times. -/
def parallelRelay : Declaration :=
  { relay with nodes := relay.nodes.modifyHead fun n ↦
      { n.withInput "in" "copy" "data" with after := ["copy"] } }

/-- Three channels between the same two nodes make up one edge. -/
theorem counted_of_compile_parallelRelay : ∃ report,
    parallelRelay.compile .relay {} = .ok report ∧ parallelRelay.Counted .relay report ∧
      report.counts.channels = 3 := by
  have hnone : parallelRelay.violations .relay = [] := by decide +kernel
  obtain ⟨report, h⟩ := (reports_compile _ _ {}).exists_ok_iff.2 hnone
  have hcounted := counted_of_compile h
  exact ⟨report, h, hcounted, hcounted.channels.symm⟩

end Declaration
end Pipework
