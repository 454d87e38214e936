import Mathlib.Data.List.Sort
import Pipework.Graph.Layers

/-!
# Edges and neighbours

`Graph.Adj u v` says that some edge leads from `u` to `v`; parallel edges and labels are forgotten.
The tables that an accepted graph carries (`Graph.tabulated`) are read back through it:

* `mem_edgesFrom` and `mem_edgesTo` say which edge numbers stand at a node, and since the table of a
  node is a filter of the numbered edge list, each number stands there once and in order
  (`pairwise_edgesFrom` and `pairwise_edgesTo`);
* `mem_predecessors` and `mem_successors` say which nodes are the neighbours of a node, and
  `pairwise_predecessors` and `pairwise_successors` that they come in increasing order, each once.

That the two neighbour lists mirror each other needs no argument of its own: both are `Adj`.
-/

namespace Pipework

/-! ### Numbers in increasing order, each once -/

/-- What the loop of `eraseReps` keeps: nothing is lost and nothing is invented. -/
theorem mem_eraseRepsBy_loop {a x : Nat} {l acc : List Nat} :
    x ∈ List.eraseRepsBy.loop (· == ·) a l acc ↔ x ∈ acc ∨ x = a ∨ x ∈ l := by
  induction l generalizing a acc with
  | nil =>
    rw [List.eraseRepsBy.loop, List.mem_reverse, List.mem_cons]
    simp [or_comm]
  | cons b l ih =>
    rw [List.eraseRepsBy.loop]
    split
    next h =>
      rw [ih, List.mem_cons, eq_of_beq h]
      tauto
    next h =>
      rw [ih, List.mem_cons, List.mem_cons]
      tauto

/-- On a list in increasing order the loop of `eraseReps` leaves it strictly increasing. -/
theorem pairwise_eraseRepsBy_loop {a : Nat} {l acc : List Nat}
    (hacc : (acc.reverse ++ [a]).Pairwise (· < ·)) (hl : (a :: l).Pairwise (· ≤ ·)) :
    (List.eraseRepsBy.loop (· == ·) a l acc).Pairwise (· < ·) := by
  induction l generalizing a acc with
  | nil =>
    rw [List.eraseRepsBy.loop, List.reverse_cons]
    exact hacc
  | cons b l ih =>
    obtain ⟨ha, hl'⟩ := List.pairwise_cons.1 hl
    have hab : a ≤ b := ha b List.mem_cons_self
    rw [List.eraseRepsBy.loop]
    split
    next h =>
      exact ih hacc
        (List.pairwise_cons.2 ⟨fun x hx ↦ ha x (List.mem_cons_of_mem _ hx), hl'.tail⟩)
    next h =>
      have hne : a ≠ b := by simpa using h
      refine ih ?_ hl'
      rw [List.reverse_cons]
      refine List.pairwise_append.2 ⟨hacc, List.pairwise_singleton _ _, fun x hx y hy ↦ ?_⟩
      rw [List.mem_singleton.1 hy]
      -- everything kept so far is at most `a`, the last number kept
      have hxa : x ≤ a := by
        rcases List.mem_append.1 hx with hx | hx
        · exact Nat.le_of_lt ((List.pairwise_append.1 hacc).2.2 x hx a (by simp))
        · exact Nat.le_of_eq (List.mem_singleton.1 hx)
      omega

/-- Sorting puts numbers in order. -/
theorem pairwise_mergeSort_le (ns : List Nat) : (ns.mergeSort (· ≤ ·)).Pairwise (· ≤ ·) := by
  have hsorted : (ns.mergeSort (· ≤ ·)).Pairwise fun a b ↦ decide (a ≤ b) = true :=
    List.pairwise_mergeSort (by simpa using fun a b c ↦ Nat.le_trans)
      (by simpa using Nat.le_total) ns
  simpa using hsorted

theorem pairwise_mergeSort_lt {ns : List Nat} (h : ns.Nodup) :
    (ns.mergeSort (· ≤ ·)).Pairwise (· < ·) := by
  have hdistinct : (ns.mergeSort (· ≤ ·)).Nodup := (List.mergeSort_perm ns _).nodup_iff.2 h
  exact (pairwise_mergeSort_le ns).imp₂ (fun _ _ ↦ Nat.lt_of_le_of_ne) hdistinct

namespace AcyclicGraph

/-- Sorting and leaving out repetitions keeps the members. -/
theorem mem_sortedOnce {ns : List Nat} {v : Nat} : v ∈ sortedOnce ns ↔ v ∈ ns := by
  rw [← (List.mem_mergeSort : v ∈ ns.mergeSort (· ≤ ·) ↔ v ∈ ns), sortedOnce, List.eraseReps]
  rcases ns.mergeSort (· ≤ ·) with - | ⟨a, l⟩
  · rfl
  · rw [List.eraseRepsBy, mem_eraseRepsBy_loop, List.mem_cons]
    simp

/-- What is left is in increasing order. -/
theorem pairwise_sortedOnce (ns : List Nat) : (sortedOnce ns).Pairwise (· < ·) := by
  have hsorted := pairwise_mergeSort_le ns
  rw [sortedOnce, List.eraseReps]
  rcases h : ns.mergeSort (· ≤ ·) with - | ⟨a, l⟩
  · exact .nil
  · rw [h] at hsorted
    exact pairwise_eraseRepsBy_loop (by simp) hsorted

end AcyclicGraph

namespace Graph

variable {ν ε : Type} {g : Graph ν ε}

/-! ### Adjacency -/

/-- Some edge leads from `u` to `v`. -/
def Adj (g : Graph ν ε) (u v : Nat) : Prop :=
  ∃ e ∈ g.edges, e.source = u ∧ e.target = v

/-- Edges start at nodes. -/
theorem Adj.source_lt {u v : Nat} (h : g.Adj u v) : u < g.order := by
  obtain ⟨e, he, rfl, -⟩ := h
  exact (g.ends e he).1

theorem Adj.target_lt {u v : Nat} (h : g.Adj u v) : v < g.order := by
  obtain ⟨e, he, -, rfl⟩ := h
  exact (g.ends e he).2

/-- The targets of a node are the nodes to which it has an edge. -/
theorem mem_targets {v w : Nat} : w ∈ g.targets v ↔ g.Adj v w := by
  simp only [targets, List.mem_map, List.mem_filter, beq_iff_eq, Adj, and_assoc]

/-! ### The edge tables -/

/-- Distributing numbered edges over a table appends to each row the numbers that belong there. -/
theorem getElem?_foldl_modify (endOf : Edge ε → Nat) (es : List (Edge ε × Nat))
    (table : List (List Nat)) (v : Nat) :
    (es.foldl (fun t p ↦ t.modify (endOf p.1) (· ++ [p.2])) table)[v]? =
      table[v]?.map (· ++ (es.filter fun p ↦ endOf p.1 == v).map Prod.snd) := by
  induction es generalizing table with
  | nil => simp
  | cons p es ih =>
    rw [List.foldl_cons, ih]
    by_cases h : endOf p.1 = v
    · rw [h, List.getElem?_modify_eq, List.filter_cons_of_pos (by simp [h])]
      cases table[v]? <;> simp
    · rw [List.getElem?_modify_ne _ _ h, List.filter_cons_of_neg (by simp [h])]

/-- An edge table has a row for every node. -/
theorem length_edgesBy (endOf : Edge ε → Nat) : (g.edgesBy endOf).length = g.order := by
  have hfold : ∀ (es : List (Edge ε × Nat)) (table : List (List Nat)),
      (es.foldl (fun t p ↦ t.modify (endOf p.1) (· ++ [p.2])) table).length = table.length := by
    intro es
    induction es with
    | nil => intro table; rfl
    | cons p es ih => intro table; rw [List.foldl_cons, ih, List.length_modify]
  exact (hfold _ _).trans List.length_replicate

/-- The row of a node in an edge table lists, in order, the numbers of its edges. -/
theorem getD_edgesBy {endOf : Edge ε → Nat} (h : ∀ e ∈ g.edges, endOf e < g.order) (v : Nat) :
    (g.edgesBy endOf).getD v [] = (g.edges.zipIdx.filter fun p ↦ endOf p.1 == v).map Prod.snd := by
  have hrow := getElem?_foldl_modify endOf g.edges.zipIdx (List.replicate g.order []) v
  rw [List.getD_eq_getElem?_getD, edgesBy, hrow, List.getElem?_replicate]
  split
  · simp
  next hv =>
    -- no edge has an end outside of the graph
    have hnone : (g.edges.zipIdx.filter fun p ↦ endOf p.1 == v) = [] := by
      refine List.filter_eq_nil_iff.2 fun p hp hpv ↦ hv ?_
      rw [← eq_of_beq hpv]
      exact h p.1 (List.fst_mem_of_mem_zipIdx hp)
    rw [hnone]
    rfl

/-- The graph with its edges tabulated by their ends, as it is when it has been accepted. -/
def tabulated (g : Graph ν ε) : AcyclicGraph ν ε :=
  ⟨g, g.edgesBy (·.source), g.edgesBy (·.target)⟩

@[simp] theorem tabulated_graph : g.tabulated.graph = g := rfl

theorem edgesFrom_tabulated (v : Nat) :
    g.tabulated.edgesFrom v = (g.edges.zipIdx.filter fun p ↦ p.1.source == v).map Prod.snd :=
  getD_edgesBy (fun e he ↦ (g.ends e he).1) v

theorem edgesTo_tabulated (v : Nat) :
    g.tabulated.edgesTo v = (g.edges.zipIdx.filter fun p ↦ p.1.target == v).map Prod.snd :=
  getD_edgesBy (fun e he ↦ (g.ends e he).2) v

/-- Numbers picked out of a numbered list come in increasing order. -/
theorem pairwise_filter_zipIdx (es : List (Edge ε)) (P : Edge ε × Nat → Bool) :
    ((es.zipIdx.filter P).map Prod.snd).Pairwise (· < ·) := by
  refine .sublist (List.filter_sublist.map Prod.snd) ?_
  rw [List.zipIdx_map_snd]
  exact List.pairwise_lt_range'

/-- The edges from a node are in the order in which they were added. -/
theorem pairwise_edgesFrom (v : Nat) : (g.tabulated.edgesFrom v).Pairwise (· < ·) := by
  rw [edgesFrom_tabulated]
  exact pairwise_filter_zipIdx _ _

theorem pairwise_edgesTo (v : Nat) : (g.tabulated.edgesTo v).Pairwise (· < ·) := by
  rw [edgesTo_tabulated]
  exact pairwise_filter_zipIdx _ _

/-- The table has the edges that start at a node, by their numbers. -/
theorem mem_edgesFrom {v i : Nat} :
    i ∈ g.tabulated.edgesFrom v ↔ ∃ e, g.edges[i]? = some e ∧ e.source = v := by
  simp [edgesFrom_tabulated, List.mem_zipIdx_iff_getElem?]

/-- The table has the edges that end at a node, by their numbers. -/
theorem mem_edgesTo {v i : Nat} :
    i ∈ g.tabulated.edgesTo v ↔ ∃ e, g.edges[i]? = some e ∧ e.target = v := by
  simp [edgesTo_tabulated, List.mem_zipIdx_iff_getElem?]

/-! ### Neighbours -/

/-- The far ends of the edges whose near end is `v`, read off a list of their numbers. -/
theorem mem_filterMap_ends {near far : Edge ε → Nat} {is : List Nat} {v x : Nat}
    (h : ∀ i, i ∈ is ↔ ∃ e, g.edges[i]? = some e ∧ near e = v) :
    x ∈ is.filterMap (fun i ↦ g.edges[i]?.map far) ↔ ∃ e ∈ g.edges, near e = v ∧ far e = x := by
  simp only [List.mem_filterMap, Option.map_eq_some_iff]
  constructor
  · rintro ⟨i, hi, e, he, hx⟩
    obtain ⟨e', he', hv⟩ := (h i).1 hi
    obtain rfl : e = e' := Option.some.inj (he.symm.trans he')
    exact ⟨e, List.mem_of_getElem? he, hv, hx⟩
  · rintro ⟨e, he, hv, hx⟩
    obtain ⟨i, hi⟩ := List.mem_iff_getElem?.1 he
    exact ⟨i, (h i).2 ⟨e, hi, hv⟩, e, hi, hx⟩

/-- **Predecessors are the nodes with an edge to the node.** -/
theorem mem_predecessors {u v : Nat} : u ∈ g.tabulated.predecessors v ↔ g.Adj u v := by
  rw [AcyclicGraph.predecessors, AcyclicGraph.mem_sortedOnce, tabulated_graph,
    mem_filterMap_ends fun _ ↦ mem_edgesTo]
  simp only [Adj, and_comm]

/-- **Successors are the nodes to which the node has an edge.** -/
theorem mem_successors {v w : Nat} : w ∈ g.tabulated.successors v ↔ g.Adj v w := by
  rw [AcyclicGraph.successors, AcyclicGraph.mem_sortedOnce, tabulated_graph,
    mem_filterMap_ends fun _ ↦ mem_edgesFrom]
  rfl

theorem pairwise_predecessors (v : Nat) : (g.tabulated.predecessors v).Pairwise (· < ·) :=
  AcyclicGraph.pairwise_sortedOnce _

theorem pairwise_successors (v : Nat) : (g.tabulated.successors v).Pairwise (· < ·) :=
  AcyclicGraph.pairwise_sortedOnce _

end Graph
end Pipework
