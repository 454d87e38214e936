import Mathlib.Data.Finset.Card
import Mathlib.Data.Fintype.EquivFin
import Pipework.Proofs.Graph.Search

/-!
# The layers of an acyclic graph

The layers are found by counting down, for every node, the edges to it that have not been closed.
`Count.Valid` relates the counters to the set of closed edges: a counter is the number of open edges
to its node, and the nodes found for the next layer are those whose last open edge was closed since
the current layer was begun. Closing one edge keeps this (`Count.Valid.closeEdge`), so closing the
edges of a whole layer does.

What the layers are is said without counters, by the predicate `Layered g done layers`: each layer
holds, in order, exactly the nodes that are not in an earlier one and whose predecessors all are,
and no layer is empty. In an acyclic graph every node has its turn (`mem_of_ready`), since otherwise
one could go from predecessor to predecessor without end.
-/

open Relation

namespace Pipework

namespace AcyclicGraph

variable {ν ε : Type}

/-- The counters before the first layer is closed: all edges are open. -/
def degrees (g : AcyclicGraph ν ε) : List Nat :=
  g.incoming.map List.length

/-- The first layer: the nodes to which no edge leads. -/
def sources (g : AcyclicGraph ν ε) : List Nat :=
  (List.range g.graph.order).filter fun v ↦ g.degrees.getD v 0 == 0

end AcyclicGraph

namespace Graph

variable {ν ε : Type} {g : Graph ν ε}

/-! ### Predecessors come to an end -/

/-- In an acyclic graph a set of nodes that contains every node all of whose predecessors it
contains has all nodes. -/
theorem mem_of_ready (hg : g.Acyclic) {P : Nat → Prop}
    (hP : ∀ v < g.order, (∀ u, g.Adj u v → P u) → P v) : ∀ v < g.order, P v := by
  let before : Fin g.order → Fin g.order → Prop := fun u v ↦ TransGen g.Adj u v
  have : IsTrans (Fin g.order) before := ⟨fun _ _ _ huv hvw ↦ TransGen.trans huv hvw⟩
  have : Std.Irrefl before := ⟨fun v hv ↦ hg v hv⟩
  have hwf : WellFounded before := Finite.wellFounded_of_trans_of_irrefl before
  intro v hv
  induction hw : (⟨v, hv⟩ : Fin g.order) using hwf.induction generalizing v with
  | _ w ih =>
    subst hw
    exact hP v hv fun u hadj ↦ ih ⟨u, hadj.source_lt⟩ (TransGen.single hadj) u hadj.source_lt rfl

/-! ### Open edges -/

/-- The edges to a node that are not among the closed ones. -/
def openEdges (g : Graph ν ε) (closed : List Nat) (v : Nat) : Finset Nat :=
  (Finset.range g.size).filter fun i ↦ g.edges[i]?.map (·.target) = some v ∧ i ∉ closed

/-- An edge is open at its target until it is closed. -/
theorem mem_openEdges {closed : List Nat} {v i : Nat} :
    i ∈ g.openEdges closed v ↔ (∃ e, g.edges[i]? = some e ∧ e.target = v) ∧ i ∉ closed := by
  simp only [openEdges, Finset.mem_filter, Finset.mem_range, Option.map_eq_some_iff, size]
  refine and_iff_right_of_imp fun ⟨⟨e, he, _⟩, _⟩ ↦ (List.getElem?_eq_some_iff.1 he).1

/-- As long as nothing is closed, all edges to a node are open. -/
theorem card_openEdges_nil (v : Nat) :
    (g.openEdges [] v).card = (g.tabulated.edgesTo v).length := by
  have hnodup : (g.tabulated.edgesTo v).Nodup := (pairwise_edgesTo v).imp Nat.ne_of_lt
  rw [← List.toFinset_card_of_nodup hnodup]
  congr 1
  ext i
  simp [mem_openEdges, mem_edgesTo]

/-- Closing an open edge takes it away from those to its target. -/
theorem card_openEdges_target {closed : List Nat} {i : Nat} {e : Edge ε}
    (he : g.edges[i]? = some e) (hi : i ∉ closed) :
    (g.openEdges closed e.target).card = (g.openEdges (closed ++ [i]) e.target).card + 1 := by
  have hmem : i ∈ g.openEdges closed e.target := mem_openEdges.2 ⟨⟨e, he, rfl⟩, hi⟩
  have herase : g.openEdges (closed ++ [i]) e.target = (g.openEdges closed e.target).erase i := by
    ext j
    simp only [mem_openEdges, Finset.mem_erase, List.mem_append, List.mem_singleton]
    tauto
  rw [herase, Finset.card_erase_add_one hmem]

/-- Closing an edge leaves those to other nodes alone. -/
theorem openEdges_of_ne_target {closed : List Nat} {i v : Nat} {e : Edge ε}
    (he : g.edges[i]? = some e) (hv : e.target ≠ v) :
    g.openEdges (closed ++ [i]) v = g.openEdges closed v := by
  ext j
  simp only [mem_openEdges, List.mem_append, List.mem_singleton, not_or]
  refine ⟨fun ⟨hj, hc, _⟩ ↦ ⟨hj, hc⟩, fun ⟨hj, hc⟩ ↦ ⟨hj, hc, ?_⟩⟩
  rintro rfl
  obtain ⟨e', he', hv'⟩ := hj
  exact hv (by rw [Option.some.inj (he.symm.trans he'), hv'])

/-- The edges from some nodes are closed: then a node has no open edge exactly if its predecessors
are among these nodes. -/
theorem openEdges_flatMap_eq_empty_iff {done : List Nat} {v : Nat} :
    g.openEdges (done.flatMap g.tabulated.edgesFrom) v = ∅ ↔ ∀ u, g.Adj u v → u ∈ done := by
  simp only [Finset.eq_empty_iff_forall_notMem, mem_openEdges, List.mem_flatMap, mem_edgesFrom,
    not_and, not_not]
  constructor
  · rintro h u ⟨e, he, rfl, rfl⟩
    obtain ⟨i, hi⟩ := List.mem_iff_getElem?.1 he
    obtain ⟨u, hu, e', he', rfl⟩ := h i ⟨e, hi, rfl⟩
    rwa [Option.some.inj (hi.symm.trans he')]
  · rintro h i ⟨e, hi, rfl⟩
    exact ⟨e.source, h _ ⟨e, List.mem_of_getElem? hi, rfl, rfl⟩, e, hi, rfl⟩

/-! ### Closing edges -/

/-- The invariant of the counters while a layer is closed, `start` being the edges that were closed
when the layer was begun: a counter is the number of open edges to its node, and the nodes found for
the next layer are those that have lost their last open edge since. -/
structure Counts (g : Graph ν ε) (start closed : List Nat) (c : AcyclicGraph.Count) : Prop where
  length_pending : c.pending.length = g.order
  pending : ∀ v, c.pending.getD v 0 = (g.openEdges closed v).card
  nodup : c.next.Nodup
  mem_next : ∀ v, v ∈ c.next ↔ g.openEdges closed v = ∅ ∧ g.openEdges start v ≠ ∅
  subset : start ⊆ closed

namespace Counts

variable {start closed : List Nat} {c : AcyclicGraph.Count}

/-- **Closing one edge.** The counter of its target is not zero before, so the target has not been
found yet. -/
theorem closeEdge (h : g.Counts start closed c) {i : Nat} {e : Edge ε}
    (he : g.edges[i]? = some e) (hi : i ∉ closed) :
    g.Counts start (closed ++ [i]) (g.tabulated.closeEdge c i) := by
  have hcard := card_openEdges_target he hi
  have hopen : g.openEdges closed e.target ≠ ∅ := by
    intro hempty
    simp [hempty] at hcard
  have hstart : g.openEdges start e.target ≠ ∅ := by
    refine fun hempty ↦ Finset.eq_empty_iff_forall_notMem.1 hempty i (mem_openEdges.2 ?_)
    exact ⟨⟨e, he, rfl⟩, fun hmem ↦ hi (h.subset hmem)⟩
  have hlt : e.target < c.pending.length :=
    h.length_pending ▸ (g.ends e (List.mem_of_getElem? he)).2
  have hleft : c.pending.getD e.target 0 - 1 = (g.openEdges (closed ++ [i]) e.target).card := by
    rw [h.pending, hcard, Nat.add_sub_cancel]
  have hpending : ∀ v, (c.pending.set e.target (c.pending.getD e.target 0 - 1)).getD v 0 =
      (g.openEdges (closed ++ [i]) v).card := by
    intro v
    by_cases hv : e.target = v
    · subst hv
      simp only [List.getD_eq_getElem?_getD, List.getElem?_set_self hlt, Option.getD_some]
      rw [← List.getD_eq_getElem?_getD, hleft]
    · rw [List.getD_eq_getElem?_getD, List.getElem?_set_ne hv, ← List.getD_eq_getElem?_getD,
        h.pending, openEdges_of_ne_target he hv]
  have hsubset : start ⊆ closed ++ [i] := fun x hx ↦ List.mem_append_left _ (h.subset hx)
  simp only [AcyclicGraph.closeEdge, tabulated_graph, he]
  -- The target is pushed when its last edge is closed, and then it has not been pushed before.
  split
  next hzero =>
    rw [hleft, Finset.card_eq_zero] at hzero
    have hnot : e.target ∉ c.next := fun hmem ↦ hopen ((h.mem_next _).1 hmem).1
    refine ⟨by simpa using h.length_pending, hpending, ?_, fun v ↦ ?_, hsubset⟩
    · exact h.nodup.append (List.nodup_singleton _) (by simpa using hnot)
    · rw [List.mem_append, List.mem_singleton, h.mem_next]
      by_cases hv : e.target = v
      · subst hv
        simp [hzero, hstart]
      · rw [openEdges_of_ne_target he hv]
        simp [Ne.symm hv]
  next hzero =>
    rw [hleft, Finset.card_eq_zero] at hzero
    refine ⟨by simpa using h.length_pending, hpending, h.nodup, fun v ↦ ?_, hsubset⟩
    rw [h.mem_next]
    by_cases hv : e.target = v
    · subst hv
      simp [hzero, hopen]
    · rw [openEdges_of_ne_target he hv]

/-- **Closing several edges**, each once. -/
theorem closeEdges (h : g.Counts start closed c) {is : List Nat}
    (his : ∀ i ∈ is, ∃ e, g.edges[i]? = some e) (hnodup : (closed ++ is).Nodup) :
    g.Counts start (closed ++ is) (is.foldl g.tabulated.closeEdge c) := by
  induction is generalizing closed c with
  | nil => simpa using h
  | cons i is ih =>
    obtain ⟨e, he⟩ := his i List.mem_cons_self
    have hi : i ∉ closed := fun hmem ↦
      List.disjoint_of_nodup_append hnodup hmem List.mem_cons_self
    rw [List.foldl_cons, List.append_cons]
    rw [List.append_cons] at hnodup
    exact ih (h.closeEdge he hi) (fun j hj ↦ his j (List.mem_cons_of_mem _ hj)) hnodup

end Counts

/-- The edges of distinct nodes are distinct. -/
theorem nodup_flatMap_edgesFrom {vs : List Nat} (h : vs.Nodup) :
    (vs.flatMap g.tabulated.edgesFrom).Nodup := by
  refine List.nodup_flatMap.2
    ⟨fun v _ ↦ (pairwise_edgesFrom v).imp Nat.ne_of_lt, h.imp fun hne i hu hv ↦ hne ?_⟩
  obtain ⟨e, he, rfl⟩ := mem_edgesFrom.1 hu
  obtain ⟨e', he', rfl⟩ := mem_edgesFrom.1 hv
  rw [Option.some.inj (he.symm.trans he')]

/-- **Closing a layer.** When the edges of the nodes in `done` are closed and those of the next
layer are closed in turn, the nodes found are those that had a predecessor outside of `done` and
have none outside of both. -/
theorem counts_closeLayer {done current counts : List Nat} (hnodup : (done ++ current).Nodup)
    (hlen : counts.length = g.order)
    (hcounts : ∀ v, counts.getD v 0 = (g.openEdges (done.flatMap g.tabulated.edgesFrom) v).card) :
    g.Counts (done.flatMap g.tabulated.edgesFrom) ((done ++ current).flatMap g.tabulated.edgesFrom)
      (current.foldl g.tabulated.closeNode ⟨counts, []⟩) := by
  have hstart : g.Counts (done.flatMap g.tabulated.edgesFrom)
      (done.flatMap g.tabulated.edgesFrom) ⟨counts, []⟩ :=
    ⟨hlen, hcounts, .nil, fun v ↦ by simp, fun _ hx ↦ hx⟩
  have hfold : current.foldl g.tabulated.closeNode ⟨counts, []⟩ =
      (current.flatMap g.tabulated.edgesFrom).foldl g.tabulated.closeEdge ⟨counts, []⟩ := by
    rw [List.foldl_flatMap]
    rfl
  rw [hfold, List.flatMap_append]
  refine hstart.closeEdges (fun i hi ↦ ?_) ?_
  · obtain ⟨v, -, hv⟩ := List.mem_flatMap.1 hi
    obtain ⟨e, he, -⟩ := mem_edgesFrom.1 hv
    exact ⟨e, he⟩
  · rw [← List.flatMap_append]
    exact nodup_flatMap_edgesFrom hnodup

/-! ### Layers -/

/-- The layers that follow when the nodes in `done` have theirs: each holds, in increasing order,
the nodes without a layer whose predecessors all have one, and in the end every node has one. -/
inductive Layered (g : Graph ν ε) : (done : List Nat) → List (List Nat) → Prop
  | nil {done : List Nat} (all : ∀ v < g.order, v ∈ done) : Layered g done []
  | cons {done layer : List Nat} {layers : List (List Nat)} (nonempty : layer ≠ [])
      (increasing : layer.Pairwise (· < ·))
      (mem_iff : ∀ v, v ∈ layer ↔ v < g.order ∧ v ∉ done ∧ ∀ u, g.Adj u v → u ∈ done)
      (rest : Layered g (done ++ layer) layers) : Layered g done (layer :: layers)

/-- A list of distinct nodes that is as long as there are nodes has all of them. -/
theorem mem_of_order_le_length {done : List Nat} (hnodup : done.Nodup)
    (hlt : ∀ v ∈ done, v < g.order) (hlen : g.order ≤ done.length) : ∀ v < g.order, v ∈ done := by
  intro v hv
  have hsub : done.toFinset ⊆ Finset.range g.order := by
    intro u hu
    exact Finset.mem_range.2 (hlt u (List.mem_toFinset.1 hu))
  have heq : done.toFinset = Finset.range g.order := by
    refine Finset.eq_of_subset_of_card_le hsub ?_
    rw [Finset.card_range, List.toFinset_card_of_nodup hnodup]
    exact hlen
  exact List.mem_toFinset.1 (heq ▸ Finset.mem_range.2 hv)

/-- The nodes found while the layer after `done` is closed are the next to have all their
predecessors laid out. -/
theorem mem_next_iff {done current : List Nat} {c : AcyclicGraph.Count}
    (hdone : ∀ v ∈ done, v < g.order ∧ ∀ u, g.Adj u v → u ∈ done)
    (hcurrent : ∀ v, v ∈ current ↔ v < g.order ∧ v ∉ done ∧ ∀ u, g.Adj u v → u ∈ done)
    (hc : g.Counts (done.flatMap g.tabulated.edgesFrom)
      ((done ++ current).flatMap g.tabulated.edgesFrom) c) (v : Nat) :
    v ∈ c.next ↔ v < g.order ∧ v ∉ done ++ current ∧ ∀ u, g.Adj u v → u ∈ done ++ current := by
  rw [hc.mem_next, openEdges_flatMap_eq_empty_iff, Ne, openEdges_flatMap_eq_empty_iff]
  constructor
  · rintro ⟨hready, hnot⟩
    obtain ⟨u, hu⟩ := not_forall.1 hnot
    obtain ⟨hadj, -⟩ := Classical.not_imp.1 hu
    refine ⟨hadj.target_lt, fun hmem ↦ ?_, hready⟩
    rcases List.mem_append.1 hmem with hmem | hmem
    · exact hnot (hdone v hmem).2
    · exact hnot ((hcurrent v).1 hmem).2.2
  · rintro ⟨hv, hmem, hready⟩
    refine ⟨hready, fun hready' ↦ hmem (List.mem_append_right _ ?_)⟩
    exact (hcurrent v).2 ⟨hv, fun h ↦ hmem (List.mem_append_left _ h), hready'⟩

/-- **The loop lays out the rest of the graph.** `done` are the nodes of the layers before, which
contain their own predecessors; there is fuel for every node that is left. -/
theorem layered_layersFrom (hg : g.Acyclic) {fuel : Nat} {done current counts : List Nat}
    (hdone : ∀ v ∈ done, v < g.order ∧ ∀ u, g.Adj u v → u ∈ done)
    (hcurrent : ∀ v, v ∈ current ↔ v < g.order ∧ v ∉ done ∧ ∀ u, g.Adj u v → u ∈ done)
    (hincreasing : current.Pairwise (· < ·)) (hnodup : done.Nodup)
    (hlen : counts.length = g.order)
    (hcounts : ∀ v, counts.getD v 0 = (g.openEdges (done.flatMap g.tabulated.edgesFrom) v).card)
    (hfuel : g.order ≤ done.length + fuel) :
    Layered g done (g.tabulated.layersFrom fuel current counts) := by
  induction fuel generalizing done current counts with
  | zero =>
    exact .nil (mem_of_order_le_length hnodup (fun v hv ↦ (hdone v hv).1) (by omega))
  | succ fuel ih =>
    rw [AcyclicGraph.layersFrom]
    split
    next hempty =>
      rw [List.isEmpty_iff] at hempty
      -- If no node is ready, all are done: an acyclic graph always has a next node to take.
      refine .nil (mem_of_ready hg fun v hv hready ↦ ?_)
      by_contra hnot
      simpa [hempty] using (hcurrent v).2 ⟨hv, hnot, hready⟩
    next hempty =>
      have hne : current ≠ [] := by simpa using hempty
      have hall : (done ++ current).Nodup := by
        refine hnodup.append (hincreasing.imp Nat.ne_of_lt) fun v hv hv' ↦ ?_
        exact ((hcurrent v).1 hv').2.1 hv
      have hvalid := counts_closeLayer hall hlen hcounts
      refine .cons hne hincreasing hcurrent (ih ?_ ?_ (pairwise_mergeSort_lt hvalid.nodup) hall
        hvalid.length_pending hvalid.pending ?_)
      · intro v hv
        rcases List.mem_append.1 hv with hv | hv
        · exact ⟨(hdone v hv).1, fun u hadj ↦ List.mem_append_left _ ((hdone v hv).2 u hadj)⟩
        · obtain ⟨hlt, -, hready⟩ := (hcurrent v).1 hv
          exact ⟨hlt, fun u hadj ↦ List.mem_append_left _ (hready u hadj)⟩
      · intro v
        rw [List.mem_mergeSort]
        exact mem_next_iff hdone hcurrent hvalid v
      · have := List.length_pos_iff.2 hne
        rw [List.length_append]
        omega

/-- In the beginning a counter is the number of all edges to its node. -/
theorem getD_degrees (v : Nat) : g.tabulated.degrees.getD v 0 = (g.openEdges [] v).card := by
  rw [card_openEdges_nil, AcyclicGraph.edgesTo, AcyclicGraph.degrees,
    List.getD_eq_getElem?_getD, List.getD_eq_getElem?_getD, List.getElem?_map]
  cases g.tabulated.incoming[v]? <;> rfl

theorem length_degrees : g.tabulated.degrees.length = g.order := by
  rw [AcyclicGraph.degrees, List.length_map]
  exact length_edgesBy _

/-- The sources are the nodes that need nothing. -/
theorem mem_sources_iff {v : Nat} :
    v ∈ g.tabulated.sources ↔ v < g.order ∧ v ∉ [] ∧ ∀ u, g.Adj u v → u ∈ [] := by
  have hready : g.openEdges (List.flatMap g.tabulated.edgesFrom []) v = ∅ ↔
      ∀ u, g.Adj u v → u ∈ [] := openEdges_flatMap_eq_empty_iff
  rw [List.flatMap_nil] at hready
  rw [AcyclicGraph.sources, List.mem_filter, List.mem_range, getD_degrees, beq_iff_eq,
    Finset.card_eq_zero, hready, tabulated_graph]
  simp

theorem pairwise_sources : g.tabulated.sources.Pairwise (· < ·) :=
  List.pairwise_lt_range.filter _

/-- **The layers of an acyclic graph**, found in at most as many rounds as there are nodes. -/
theorem layered_layersFrom_sources (hg : g.Acyclic) {fuel : Nat} (hfuel : g.order ≤ fuel) :
    Layered g [] (g.tabulated.layersFrom fuel g.tabulated.sources g.tabulated.degrees) :=
  layered_layersFrom hg (by simp) (fun _ ↦ mem_sources_iff) pairwise_sources .nil length_degrees
    getD_degrees (by simpa using hfuel)

/-- **The layers of an acyclic graph** are made by taking, again and again, all nodes that need
nothing else. -/
theorem layered_layers (hg : g.Acyclic) : Layered g [] g.tabulated.layers :=
  layered_layersFrom_sources hg (Nat.le_refl _)

/-! ### What the layers say about single nodes -/

namespace Layered

variable {done : List Nat} {layers : List (List Nat)}

/-- No layer is empty. -/
theorem layer_ne_nil (h : Layered g done layers) : ∀ layer ∈ layers, layer ≠ [] := by
  induction h with
  | nil => simp
  | cons nonempty _ _ _ ih => simpa using ⟨nonempty, ih⟩

/-- A layer is in the order of nodes. -/
theorem pairwise_layer (h : Layered g done layers) : ∀ layer ∈ layers, layer.Pairwise (· < ·) := by
  induction h with
  | nil => simp
  | cons _ increasing _ _ ih => simpa using ⟨increasing, ih⟩

/-- Every node has a layer. -/
theorem mem_append_flatten (h : Layered g done layers) :
    ∀ v < g.order, v ∈ done ++ layers.flatten := by
  induction h with
  | nil all => simpa using all
  | cons _ _ _ _ ih => simpa [List.append_assoc] using ih

/-- Layers hold nodes only. -/
theorem lt_order (h : Layered g done layers) : ∀ layer ∈ layers, ∀ v ∈ layer, v < g.order := by
  induction h with
  | nil => simp
  | cons _ _ mem_iff _ ih =>
    intro layer hlayer v hv
    rcases List.mem_cons.1 hlayer with rfl | hlayer
    · exact ((mem_iff v).1 hv).1
    · exact ih layer hlayer v hv

/-- No node has two layers. -/
theorem nodup_append_flatten (h : Layered g done layers) (hdone : done.Nodup) :
    (done ++ layers.flatten).Nodup := by
  induction h with
  | nil => simpa using hdone
  | cons _ increasing mem_iff _ ih =>
    rw [List.flatten_cons, ← List.append_assoc]
    refine ih (hdone.append (increasing.imp Nat.ne_of_lt) fun v hv hv' ↦ ?_)
    exact ((mem_iff v).1 hv').2.1 hv

/-- **The predecessors of a node have earlier layers.** -/
theorem exists_lt_of_adj (h : Layered g done layers) {k u v : Nat} {layer : List Nat}
    (hk : layers[k]? = some layer) (hv : v ∈ layer) (hadj : g.Adj u v) :
    u ∈ done ∨ ∃ j < k, ∃ earlier, layers[j]? = some earlier ∧ u ∈ earlier := by
  induction h generalizing k with
  | nil => simp at hk
  | @cons done first rest _ _ mem_iff _ ih =>
    rcases k with - | k
    · obtain rfl : first = layer := by simpa using hk
      exact .inl (((mem_iff v).1 hv).2.2 u hadj)
    · rcases ih (by simpa using hk) with hu | ⟨j, hj, earlier, hearlier, hu⟩
      · rcases List.mem_append.1 hu with hu | hu
        · exact .inl hu
        · exact .inr ⟨0, by omega, first, rfl, hu⟩
      · exact .inr ⟨j + 1, by omega, earlier, by simpa using hearlier, hu⟩

/-- **A node is laid out as early as can be**: some predecessor is in the layer just before. -/
theorem exists_adj_of_succ (h : Layered g done layers) {k v : Nat} {layer : List Nat}
    (hk : layers[k + 1]? = some layer) (hv : v ∈ layer) :
    ∃ before u, layers[k]? = some before ∧ u ∈ before ∧ g.Adj u v := by
  induction h generalizing k with
  | nil => simp at hk
  | @cons done first rest _ _ mem_iff hrest ih =>
    rcases k with - | k
    · cases hrest with
      | nil => simp at hk
      | cons _ _ mem_iff' _ =>
        obtain rfl := Option.some.inj (show some _ = some layer by simpa using hk)
        obtain ⟨hlt, hnot, hready⟩ := (mem_iff' v).1 hv
        -- were all predecessors laid out before, the node would be in the layer before
        by_contra hnone
        refine hnot (List.mem_append_right _ ((mem_iff v).2 ⟨hlt, fun hmem ↦ ?_, fun u hadj ↦ ?_⟩))
        · exact hnot (List.mem_append_left _ hmem)
        · rcases List.mem_append.1 (hready u hadj) with hu | hu
          · exact hu
          · exact absurd ⟨first, u, rfl, hu, hadj⟩ hnone
    · obtain ⟨before, u, hbefore, hu⟩ := ih (by simpa using hk)
      exact ⟨before, u, by simpa using hbefore, hu⟩

/-- **Every node is in exactly one layer.** -/
theorem perm_flatten (h : Layered g [] layers) : layers.flatten.Perm (List.range g.order) := by
  have hnodup := h.nodup_append_flatten List.nodup_nil
  refine (List.perm_ext_iff_of_nodup hnodup List.nodup_range).2 fun v ↦ ?_
  rw [List.nil_append, List.mem_range]
  refine ⟨fun hv ↦ ?_, h.mem_append_flatten v⟩
  obtain ⟨layer, hlayer, hv⟩ := List.mem_flatten.1 hv
  exact h.lt_order layer hlayer v hv

end Layered

/-- **Every node is in a layer, and in one only.** -/
theorem perm_flatten_layers (hg : g.Acyclic) :
    g.tabulated.layers.flatten.Perm (List.range g.order) :=
  (layered_layers hg).perm_flatten

end Graph

end Pipework
