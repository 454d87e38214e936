import Pipework.Proofs.Compile.Result
import Pipework.Proofs.Compile.Scan

/-!
# A further node

What becomes of the result when a node is declared after the others (`extends_of_compile`). What was
compiled before stays as it is, except that the nodes to which the new one refers have it as their
last dependent. No layer is renumbered; the new node joins the first layer, or the one after the
last layer to which it refers.

Both declarations compile, so that all references of the older nodes lead to older nodes: none of
them refers to the new one, and neither does the new one to itself. Hence the new node adds nothing
to anybody's dependencies, and dependencies determine the layers.
-/

namespace Pipework

/-! ### The extended result -/

/-- A compiled node once `n` is declared as well, which is its last dependent if it refers to it. -/
def Document.Node.followedBy (w : Document.Node) (n : Declaration.Node) : Document.Node :=
  if n.RefersTo w.id then { w with dependents := w.dependents ++ [n.id] } else w

@[simp] theorem Document.Node.id_followedBy (w : Document.Node) (n : Declaration.Node) :
    (w.followedBy n).id = w.id := by
  rw [followedBy]
  split <;> rfl

@[simp] theorem Document.Node.dependencies_followedBy (w : Document.Node) (n : Declaration.Node) :
    (w.followedBy n).dependencies = w.dependencies := by
  rw [followedBy]
  split <;> rfl

/-- The second result is the first one with a further node. -/
structure CompileReport.Extends (n : Declaration.Node) (report report' : CompileReport) : Prop where
  nodes : ∃ new, new.id = n.id ∧ new.dependents = [] ∧
    report'.document.nodes = report.document.nodes.map (·.followedBy n) ++ [new]
  layers : ∀ w ∈ report.document.nodes, ∃ k,
    layerOf report.layers w.id = some k ∧ layerOf report'.layers w.id = some k
  first : (∀ x, ¬ n.RefersTo x) → layerOf report'.layers n.id = some 0
  next : (∃ x, n.RefersTo x) → ∃ k, layerOf report'.layers n.id = some (k + 1) ∧
    (∃ x, n.RefersTo x ∧ layerOf report.layers x = some k) ∧
    ∀ x, n.RefersTo x → ∃ j ≤ k, layerOf report.layers x = some j

/-! ### Older nodes and the new one -/

namespace Declaration

variable {d d' : Declaration} {n : Node} {m m' : Deployment} {options : CompileOptions}
  {report report' : CompileReport}

/-- The new node comes last. -/
theorem ids_of_nodes_eq_append (hnodes : d'.nodes = d.nodes ++ [n]) : d'.ids = d.ids ++ [n.id] := by
  rw [ids, hnodes, List.map_append]
  rfl

/-- An older node has what it had, and possibly one more dependent. -/
theorem Compiled.eq_followedBy (hid : d'.id = d.id) (hnodes : d'.nodes = d.nodes ++ [n])
    (hnodup : d'.ids.Nodup) {c : Node} (hc : ¬ c.RefersTo n.id) {w w' : Document.Node}
    (h : d.Compiled options c w) (h' : d'.Compiled options c w') : w' = w.followedBy n := by
  have hsubset : d.nodes ⊆ d'.nodes := by
    rw [hnodes]
    exact List.subset_append_left _ _
  have hdependencies : w'.dependencies = w.dependencies := by
    rw [h'.dependencies, h.dependencies, ids_of_nodes_eq_append hnodes, List.filter_append]
    simp [hc]
  have hdependents : w'.dependents =
      w.dependents ++ if n.RefersTo w.id then [n.id] else [] := by
    rw [h'.dependents, h.dependents, hnodes, List.filter_append, List.map_append, h.id]
    split <;> simp [*]
  rw [h.eq_of_subset hid hsubset hnodup h', hdependencies, hdependents, Document.Node.followedBy]
  split
  · rfl
  · rw [List.append_nil]

/-- An older node refers to older nodes only, since it was compiled without the new one. -/
theorem Outcome.not_refersTo_new (h : d.Outcome m options report)
    (h' : d'.Outcome m' options report') (hnodes : d'.nodes = d.nodes ++ [n]) {c : Node}
    (hc : c ∈ d.nodes) : ¬ c.RefersTo n.id := by
  intro hn
  have hnodup := h'.nodup
  rw [ids_of_nodes_eq_append hnodes] at hnodup
  exact (List.nodup_append.1 hnodup).2.2 n.id (h.known c hc n.id hn) n.id List.mem_cons_self rfl

/-- **The nodes** of the extended document. -/
theorem Outcome.exists_nodes_eq_append (h : d.Outcome m options report)
    (h' : d'.Outcome m' options report') (hid : d'.id = d.id) (hnodes : d'.nodes = d.nodes ++ [n]) :
    ∃ new, d'.Compiled options n new ∧
      report'.document.nodes = report.document.nodes.map (·.followedBy n) ++ [new] := by
  have hsplit := h'.nodes
  rw [hnodes] at hsplit
  obtain ⟨olds, news, heq, holds, hnews⟩ := forall₂_append_left hsplit
  obtain ⟨new, hnew, rfl⟩ : ∃ new, d'.Compiled options n new ∧ news = [new] := by
    simpa [List.forall₂_cons_left_iff] using hnews
  have hmap : report.document.nodes.map (·.followedBy n) = olds := by
    rw [← List.map_id olds]
    refine map_eq_of_forall₂ (forall₂_of_left (forall₂_mem h.nodes) holds) fun w w' hc ↦ ?_
    obtain ⟨c, ⟨hc, -, hw⟩, hw'⟩ := hc
    exact (hw.eq_followedBy hid hnodes h'.nodup (h.not_refersTo_new h' hnodes hc) hw').symm
  exact ⟨new, hnew, by rw [heq, hmap]⟩

/-- **The layers** of older nodes do not change. -/
theorem Outcome.layerOf_eq_of_nodes_eq_append (h : d.Outcome m options report)
    (h' : d'.Outcome m' options report') {new : Document.Node}
    (heq : report'.document.nodes = report.document.nodes.map (·.followedBy n) ++ [new])
    {x : NodeId} (hx : x ∈ d.ids) : layerOf report'.layers x = layerOf report.layers x := by
  rw [← h.map_ids] at hx
  refine h.layering.layerOf_eq h'.layering h.nodup_document h'.nodup_document (fun w hw ↦ ?_) hx
  refine ⟨w.followedBy n, ?_, by simp, by simp⟩
  rw [heq]
  exact List.mem_append_left _ (List.mem_map_of_mem hw)

/-- **Results of a declaration without and with its last node.** -/
theorem Outcome.extends (h : d.Outcome m options report) (h' : d'.Outcome m' options report')
    (hid : d'.id = d.id) (hnodes : d'.nodes = d.nodes ++ [n]) : report.Extends n report' := by
  obtain ⟨new, hnew, heq⟩ := h.exists_nodes_eq_append h' hid hnodes
  have hkeep : ∀ {x}, x ∈ d.ids → layerOf report'.layers x = layerOf report.layers x :=
    h.layerOf_eq_of_nodes_eq_append h' heq
  have hmem : new ∈ report'.document.nodes := by simp [heq]
  have hknown' := h'.known n (by simp [hnodes])
  have hrefers : ∀ {u}, u ∈ new.dependencies ↔ n.RefersTo u := hnew.mem_dependencies_iff hknown'
  have hself : ¬ n.RefersTo n.id := by
    rw [← hrefers, ← hnew.id]
    exact h'.layering.id_notMem_dependencies h'.nodup_document hmem
  -- So the new node only refers to older ones, and these have kept their layers.
  have hknown : ∀ x, n.RefersTo x → x ∈ d.ids := by
    intro x hx
    have hx' := hknown' x hx
    rw [ids_of_nodes_eq_append hnodes, List.mem_append, List.mem_singleton] at hx'
    exact hx'.resolve_right fun heq ↦ hself (heq ▸ hx)
  obtain ⟨k, hk⟩ := h'.layering.exists_layerOf (List.mem_map_of_mem hmem)
  have hnext : NextLayer (layerOf report.layers) n.RefersTo k :=
    (h'.layering.nextLayer h'.nodup_document hmem hk).congr (fun _ ↦ hrefers.symm) fun u hu ↦
      (hkeep (hknown u (hrefers.1 hu))).symm
  rw [hnew.id] at hk
  refine ⟨⟨new, hnew.id, ?_, heq⟩, fun w hw ↦ ?_, fun hnone ↦ ?_, fun hsome ↦ ?_⟩
  · have holder : ∀ c ∈ d.nodes, ¬ c.RefersTo n.id := fun _ ↦ h.not_refersTo_new h' hnodes
    rw [hnew.dependents, List.map_eq_nil_iff, List.filter_eq_nil_iff, hnodes]
    simpa [or_imp, forall_and] using ⟨holder, hself⟩
  · obtain ⟨j, hj⟩ := h.layering.exists_layerOf (List.mem_map_of_mem hw)
    refine ⟨j, hj, ?_⟩
    rw [hkeep (h.map_ids ▸ List.mem_map_of_mem hw), hj]
  · rcases k with - | j
    · exact hk
    · obtain ⟨u, hu, -⟩ := hnext.close j rfl
      exact absurd hu (hnone u)
  · obtain ⟨x, hx⟩ := hsome
    obtain ⟨i, hi, -⟩ := hnext.earlier x hx
    obtain ⟨j, rfl⟩ := Nat.exists_eq_add_one.2 (Nat.zero_lt_of_lt hi)
    refine ⟨j, hk, hnext.close j rfl, fun y hy ↦ ?_⟩
    obtain ⟨i, hi, hyi⟩ := hnext.earlier y hy
    exact ⟨i, Nat.le_of_lt_succ hi, hyi⟩

/-- **A further node changes nothing but the dependents of those to which it refers.** Nodes that
were compiled before keep all the rest and their layers, and the new node comes as early as those to
which it refers allow. -/
theorem extends_of_compile {d : Declaration} {n : Node} {m m' : Deployment}
    {options : CompileOptions} {report report' : CompileReport}
    (h : d.compile m options = .ok report)
    (h' : ({ d with nodes := d.nodes ++ [n] } : Declaration).compile m' options = .ok report') :
    report.Extends n report' :=
  (outcome_of_compile h).extends (outcome_of_compile h') rfl rfl

end Declaration

/-! ### An example -/

/-- A node that reads the copy and comes after the source. -/
def Declaration.Node.monitor : Declaration.Node :=
  { (Node.new "monitor" "Monitor").withInput "in" "copy" "data" with after := ["source"] }

/-- Executors for the relay and the monitor. -/
def Deployment.monitored : Deployment :=
  .ofList (["sink", "source", "copy", "monitor"].map fun id ↦ (id, ⟨.native id, none⟩))

/-- A monitor that reads from the relay extends its result. -/
theorem extends_of_compile_monitor : ∃ report report',
    Declaration.relay.compile .relay {} = .ok report ∧
    ({ Declaration.relay with nodes := Declaration.relay.nodes ++ [.monitor] } :
      Declaration).compile .monitored {} = .ok report' ∧
    report.Extends .monitor report' := by
  have h := eq_ok_get_of_isSome isSome_compile_relay
  obtain ⟨report', h'⟩ := (Declaration.reports_compile
    { Declaration.relay with nodes := Declaration.relay.nodes ++ [.monitor] } .monitored
      {}).exists_ok_iff.2 (by decide +kernel)
  exact ⟨_, report', h, h', Declaration.extends_of_compile h h'⟩

end Pipework
