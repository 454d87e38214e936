import Pipework.Proofs.Graph.LongestPaths
import Pipework.Proofs.Process

/-!
# The counters from moment to moment

`AcyclicGraph.layers` closes the edges of one layer after the other. Here this is one process,
`AcyclicGraph.layering`, in which one edge is closed at a time, and every moment of it is accounted
for (`counters_of_finalize`):

* a counter is the number of edges to its node that are open. An edge is open until its source is
  begun, and if its source is the node begun last, as long as it is among those left there. So the
  counters of edges that are left are never zero;
* a node is pushed at the step that takes its counter from one to zero. The counter does not rise
  again, so that this happens at most once; and in the end all counters are zero, so that it happens
  for every node whose counter is not zero from the start.

`Graph.Counts` relates the counters to a list of closed edges. At every moment these are the edges
of the nodes begun so far, up to those that are left.
-/

namespace Pipework

namespace AcyclicGraph

variable {ν ε : Type} {a : AcyclicGraph ν ε}

/-! ### Moments -/

/-- A moment while the layers are found. -/
structure Moment where
  /-- The layers that are finished. -/
  layers : List (List Nat)
  /-- The nodes of the current layer whose edges have been closed or are being closed. -/
  begun : List Nat
  /-- The other nodes of the current layer. -/
  waiting : List Nat
  /-- The edges of the node begun last that have not been closed. -/
  left : List Nat
  count : Count

/-- The next moment: an edge is closed, or else a node is begun, or else a layer is finished. There
is none when the current layer is empty. -/
def nextMoment (a : AcyclicGraph ν ε) (t : Moment) : Option Moment :=
  match t.left, t.waiting, t.begun with
  | i :: left, _, _ => some { t with left := left, count := a.closeEdge t.count i }
  | [], v :: waiting, begun =>
    some { t with begun := begun ++ [v], waiting := waiting, left := a.edgesFrom v }
  | [], [], [] => none
  | [], [], u :: begun =>
    some ⟨t.layers ++ [u :: begun], [], t.count.next.mergeSort (· ≤ ·), [], ⟨t.count.pending, []⟩⟩

/-- The search for the layers as a whole. -/
def layering (a : AcyclicGraph ν ε) : Process Moment where
  start := ⟨[], [], a.sources, [], ⟨a.degrees, []⟩⟩
  next := a.nextMoment

/-- In step `n` the node `v` is added to those found for the next layer. -/
def PushesAt (a : AcyclicGraph ν ε) (v n : Nat) : Prop :=
  ∃ t t', a.layering.stateAt n = some t ∧ a.layering.stateAt (n + 1) = some t' ∧
    t'.count.next = t.count.next ++ [v]

/-- **How the search for the layers goes on.** -/
theorem nextMoment_cases {t t' : Moment} (h : a.nextMoment t = some t') :
    (∃ i left, t.left = i :: left ∧
      t' = { t with left := left, count := a.closeEdge t.count i }) ∨
    (∃ v waiting, t.left = [] ∧ t.waiting = v :: waiting ∧
      t' = { t with begun := t.begun ++ [v], waiting := waiting, left := a.edgesFrom v }) ∨
    (t.left = [] ∧ t.waiting = [] ∧ t.begun ≠ [] ∧
      t' = ⟨t.layers ++ [t.begun], [], t.count.next.mergeSort (· ≤ ·), [],
        ⟨t.count.pending, []⟩⟩) := by
  obtain ⟨layers, begun, waiting, left, count⟩ := t
  rcases left with - | ⟨i, left⟩
  · rcases waiting with - | ⟨v, waiting⟩
    · rcases begun with - | ⟨u, begun⟩
      · cases h
      · exact .inr (.inr ⟨rfl, rfl, by simp, (Option.some.inj h).symm⟩)
    · exact .inr (.inl ⟨v, waiting, rfl, rfl, (Option.some.inj h).symm⟩)
  · exact .inl ⟨i, left, rfl, (Option.some.inj h).symm⟩

/-! ### The end -/

section Reaches

variable {layers : List (List Nat)} {begun waiting left : List Nat} {c : Count}

/-- The edges of a node are closed one after the other. -/
theorem reaches_closeEdges :
    a.layering.Reaches ⟨layers, begun, waiting, left, c⟩
      ⟨layers, begun, waiting, [], left.foldl a.closeEdge c⟩ := by
  induction left generalizing c with
  | nil => exact .refl
  | cons i left ih => exact .head rfl ih

/-- The nodes that wait are taken one after the other. -/
theorem reaches_closeNodes :
    a.layering.Reaches ⟨layers, begun, waiting, [], c⟩
      ⟨layers, begun ++ waiting, [], [], waiting.foldl a.closeNode c⟩ := by
  induction waiting generalizing begun c with
  | nil =>
    rw [List.append_nil]
    exact .refl
  | cons v waiting ih =>
    have hrest : a.layering.Reaches ⟨layers, begun ++ [v], waiting, [], a.closeNode c v⟩
        ⟨layers, begun ++ [v] ++ waiting, [], [], waiting.foldl a.closeNode (a.closeNode c v)⟩ := ih
    rw [List.append_assoc] at hrest
    exact .head rfl (reaches_closeEdges.trans hrest)

/-- **The process goes through the rounds of the loop.** -/
theorem Rounds.reaches {current counts : List Nat} {rest : List (List Nat)}
    (h : a.Rounds current counts rest) :
    ∃ counts', a.layering.Reaches ⟨layers, [], current, [], ⟨counts, []⟩⟩
      ⟨layers ++ rest, [], [], [], ⟨counts', []⟩⟩ := by
  induction h generalizing layers with
  | @nil counts =>
    rw [List.append_nil]
    exact ⟨counts, .refl⟩
  | @cons current counts c rest nonempty closed _ ih =>
    obtain ⟨counts', hrest⟩ := @ih (layers ++ [current])
    rw [List.append_assoc] at hrest
    refine ⟨counts', reaches_closeNodes.trans (.head ?_ hrest)⟩
    subst closed
    match current, nonempty with
    | u :: current, _ => rfl

/-- The rounds of the loop come to an end, with the layers that they make. -/
theorem Rounds.exists_end {final : List (List Nat)} (h : a.Rounds a.sources a.degrees final) :
    ∃ n t, a.layering.stateAt n = some t ∧ a.nextMoment t = none ∧ t.left = [] ∧
      t.layers = final := by
  obtain ⟨counts', hreaches⟩ : ∃ counts', a.layering.Reaches a.layering.start
      ⟨[] ++ final, [], [], [], ⟨counts', []⟩⟩ := h.reaches
  obtain ⟨n, hn⟩ := hreaches.exists_stateAt
  exact ⟨n, _, hn, rfl, rfl, rfl⟩

end Reaches

/-! ### What a step does to a node -/

/-- Closing an edge counts its target down, and pushes it if the counter has come to zero. -/
theorem closeEdge_target (c : Count) {i : Nat} {e : Edge ε} (he : a.graph.edges[i]? = some e) :
    (a.closeEdge c i).pending.getD e.target 0 = c.pending.getD e.target 0 - 1 ∧
      ((a.closeEdge c i).next = c.next ++ [e.target] ↔ c.pending.getD e.target 0 - 1 = 0) := by
  have hset : (c.pending.set e.target (c.pending.getD e.target 0 - 1)).getD e.target 0 =
      c.pending.getD e.target 0 - 1 := by
    simp only [List.getD_eq_getElem?_getD, List.getElem?_set_self']
    cases c.pending[e.target]? <;> rfl
  simp only [closeEdge, he]
  split
  next hzero => exact ⟨hset, by simpa using hzero⟩
  next hzero => exact ⟨hset, by simpa using hzero⟩

/-- Closing an edge does nothing to nodes other than its target. -/
theorem closeEdge_of_ne (c : Count) {i v : Nat}
    (h : ∀ e, a.graph.edges[i]? = some e → e.target ≠ v) :
    (a.closeEdge c i).pending.getD v 0 = c.pending.getD v 0 ∧
      (a.closeEdge c i).next ≠ c.next ++ [v] := by
  rcases he : a.graph.edges[i]? with - | e
  · have hsame : a.closeEdge c i = c := by simp [closeEdge, he]
    rw [hsame]
    exact ⟨rfl, by simp⟩
  · have hv := h e he
    have hset : ∀ x, (c.pending.set e.target x).getD v 0 = c.pending.getD v 0 := by
      intro x
      rw [List.getD_eq_getElem?_getD, List.getElem?_set_ne hv, ← List.getD_eq_getElem?_getD]
    simp only [closeEdge, he]
    split
    next => exact ⟨hset _, by simpa using hv⟩
    next => exact ⟨hset _, by simp⟩

/-- The next step closes an edge to the node `v`. -/
def Moment.Closes (a : AcyclicGraph ν ε) (t : Moment) (v : Nat) : Prop :=
  ∃ i ∈ t.left.head?, ∃ e, a.graph.edges[i]? = some e ∧ e.target = v

/-- **What a step does to a node**: if it closes an edge to the node, it counts down and pushes the
node when the counter has come to zero; otherwise it leaves the counter alone and does not push the
node. -/
theorem nextMoment_at {t t' : Moment} (h : a.nextMoment t = some t') (v : Nat) :
    (t.Closes a v ∧ t'.count.pending.getD v 0 = t.count.pending.getD v 0 - 1 ∧
      (t'.count.next = t.count.next ++ [v] ↔ t.count.pending.getD v 0 - 1 = 0)) ∨
    (¬ t.Closes a v ∧ t'.count.pending.getD v 0 = t.count.pending.getD v 0 ∧
      t'.count.next ≠ t.count.next ++ [v]) := by
  obtain ⟨i, left, hleft, rfl⟩ | ⟨u, waiting, hleft, -, rfl⟩ | ⟨hleft, -, -, rfl⟩ :=
    nextMoment_cases h
  · have hcloses : t.Closes a v ↔ ∃ e, a.graph.edges[i]? = some e ∧ e.target = v := by
      simp [Moment.Closes, hleft]
    by_cases hv : ∃ e, a.graph.edges[i]? = some e ∧ e.target = v
    · obtain ⟨e, he, rfl⟩ := hv
      exact .inl ⟨hcloses.2 ⟨e, he, rfl⟩, closeEdge_target t.count he⟩
    · refine .inr ⟨fun hc ↦ hv (hcloses.1 hc), closeEdge_of_ne t.count fun e he hev ↦ ?_⟩
      exact hv ⟨e, he, hev⟩
  · exact .inr ⟨by simp [Moment.Closes, hleft], rfl, by simp⟩
  · exact .inr ⟨by simp [Moment.Closes, hleft], rfl, by simp⟩

/-! ### The invariant -/

namespace Moment

variable {g : Graph ν ε} {t t' : Moment}

/-- The nodes whose edges have been closed or are being closed. -/
def started (t : Moment) : List Nat :=
  t.layers.flatten ++ t.begun

/-- The number of edges to a node that are open: those from nodes that have not been started, and
those that are left at the node started last. -/
def openTo (g : Graph ν ε) (t : Moment) (v : Nat) : Nat :=
  g.edges.zipIdx.countP fun p ↦ p.1.target = v ∧ (p.1.source ∉ t.started ∨ p.2 ∈ t.left)

/-- The invariant of the search for the layers. Finished layers contain the predecessors of their
nodes, and the current layer has the other nodes whose predecessors they contain. The counters are
those of the edges of all nodes that have been started, up to the edges that are left. -/
structure Valid (g : Graph ν ε) (t : Moment) : Prop where
  finished : ∀ v ∈ t.layers.flatten, v < g.order ∧ ∀ u, g.Adj u v → u ∈ t.layers.flatten
  current : ∀ v, v ∈ t.begun ++ t.waiting ↔
    v < g.order ∧ v ∉ t.layers.flatten ∧ ∀ u, g.Adj u v → u ∈ t.layers.flatten
  nodup : (t.started ++ t.waiting).Nodup
  counts : ∃ closed, closed ++ t.left = t.started.flatMap g.tabulated.edgesFrom ∧
    g.Counts (t.layers.flatten.flatMap g.tabulated.edgesFrom) closed t.count

/-- At the start no node is finished. -/
theorem valid_start : Valid g g.tabulated.layering.start where
  finished := by simp [layering]
  current _ := Graph.mem_sources_iff
  nodup := Graph.pairwise_sources.imp Nat.ne_of_lt
  counts := ⟨[], rfl, Graph.length_degrees, Graph.getD_degrees, .nil, by simp [layering],
    fun _ h ↦ h⟩

namespace Valid

/-- The edges that are left are edges of nodes that have been started. -/
theorem exists_edge (h : t.Valid g) {i : Nat} (hi : i ∈ t.left) :
    ∃ e, g.edges[i]? = some e ∧ e.source ∈ t.started := by
  obtain ⟨closed, hclosed, -⟩ := h.counts
  have hmem : i ∈ t.started.flatMap g.tabulated.edgesFrom := by
    rw [← hclosed]
    exact List.mem_append_right closed hi
  obtain ⟨u, hu, hi⟩ := List.mem_flatMap.1 hmem
  obtain ⟨e, he, rfl⟩ := Graph.mem_edgesFrom.1 hi
  exact ⟨e, he, hu⟩

/-- No edge is closed twice, since no node starts twice. -/
theorem nodup_closed (h : t.Valid g) {closed : List Nat}
    (hclosed : closed ++ t.left = t.started.flatMap g.tabulated.edgesFrom) :
    (closed ++ t.left).Nodup := by
  rw [hclosed]
  exact Graph.nodup_flatMap_edgesFrom h.nodup.of_append_left

/-- The closed edges are those of nodes that have been started, up to those that are left. -/
theorem mem_closed_iff (h : t.Valid g) {closed : List Nat}
    (hclosed : closed ++ t.left = t.started.flatMap g.tabulated.edgesFrom) {i : Nat} {e : Edge ε}
    (he : g.edges[i]? = some e) : i ∈ closed ↔ e.source ∈ t.started ∧ i ∉ t.left := by
  have hdisjoint := List.disjoint_of_nodup_append (h.nodup_closed hclosed)
  have hmem : i ∈ closed ++ t.left ↔ e.source ∈ t.started := by
    rw [hclosed, List.mem_flatMap]
    constructor
    · rintro ⟨u, hu, hi⟩
      obtain ⟨e', he', rfl⟩ := Graph.mem_edgesFrom.1 hi
      rwa [Option.some.inj (he.symm.trans he')]
    · intro hsource
      exact ⟨e.source, hsource, Graph.mem_edgesFrom.2 ⟨e, he, rfl⟩⟩
  rw [← hmem, List.mem_append]
  constructor
  · intro hi
    exact ⟨.inl hi, fun hleft ↦ hdisjoint hi hleft⟩
  · rintro ⟨hi | hi, hleft⟩
    · exact hi
    · exact absurd hi hleft

/-- **Closing an edge.** -/
theorem closeEdge (h : t.Valid g) {i : Nat} {left : List Nat} (hleft : t.left = i :: left) :
    Valid g { t with left := left, count := g.tabulated.closeEdge t.count i } := by
  obtain ⟨closed, hclosed, hcounts⟩ := h.counts
  have hmem : i ∈ t.left := by simp [hleft]
  obtain ⟨e, he, -⟩ := h.exists_edge hmem
  have hi : i ∉ closed := fun hi ↦ ((h.mem_closed_iff hclosed he).1 hi).2 hmem
  refine ⟨h.finished, h.current, h.nodup, closed ++ [i], ?_, hcounts.closeEdge he hi⟩
  show closed ++ [i] ++ left = t.started.flatMap g.tabulated.edgesFrom
  rw [← hclosed, hleft, List.append_assoc]
  rfl

/-- **Beginning a node.** -/
theorem beginNode (h : t.Valid g) {v : Nat} {waiting : List Nat} (hleft : t.left = [])
    (hwaiting : t.waiting = v :: waiting) :
    Valid g { t with
      begun := t.begun ++ [v], waiting := waiting, left := g.tabulated.edgesFrom v } := by
  obtain ⟨closed, hclosed, hcounts⟩ := h.counts
  have hcurrent := h.current
  have hnodup := h.nodup
  rw [hwaiting, List.append_cons] at hcurrent hnodup
  rw [hleft, List.append_nil] at hclosed
  refine ⟨h.finished, hcurrent, ?_, closed, ?_, hcounts⟩
  · rwa [started, ← List.append_assoc]
  · simp [hclosed, started]

/-- **Finishing a layer.** -/
theorem finishLayer (h : t.Valid g) (hleft : t.left = []) (hwaiting : t.waiting = []) :
    Valid g ⟨t.layers ++ [t.begun], [], t.count.next.mergeSort (· ≤ ·), [],
      ⟨t.count.pending, []⟩⟩ := by
  obtain ⟨closed, hclosed, hcounts⟩ := h.counts
  have hcurrent := h.current
  have hnodup := h.nodup
  rw [hwaiting, List.append_nil] at hcurrent hnodup
  rw [hleft, List.append_nil] at hclosed
  subst hclosed
  -- All edges of the layer are closed, so that those pushed are the ones that are ready now.
  have hnext := Graph.mem_next_iff h.finished hcurrent hcounts
  have hflatten : (t.layers ++ [t.begun]).flatten = t.started := by simp [started]
  have hstarted : (t.layers ++ [t.begun]).flatten ++ [] = t.started := by
    rw [List.append_nil, hflatten]
  refine ⟨?_, fun v ↦ ?_, ?_, t.started.flatMap g.tabulated.edgesFrom, ?_, ?_⟩
  · show ∀ v ∈ (t.layers ++ [t.begun]).flatten, _
    rw [hflatten]
    intro v hv
    rcases List.mem_append.1 hv with hv | hv
    · obtain ⟨hlt, hready⟩ := h.finished v hv
      exact ⟨hlt, fun u hadj ↦ List.mem_append_left _ (hready u hadj)⟩
    · obtain ⟨hlt, -, hready⟩ := (hcurrent v).1 hv
      exact ⟨hlt, fun u hadj ↦ List.mem_append_left _ (hready u hadj)⟩
  · rw [List.nil_append, List.mem_mergeSort, hflatten]
    exact hnext v
  · rw [started, hstarted]
    refine hnodup.append ((List.mergeSort_perm _ _).nodup_iff.2 hcounts.nodup) fun v hv hv' ↦ ?_
    exact ((hnext v).1 (List.mem_mergeSort.1 hv')).2.1 hv
  · show t.started.flatMap _ ++ [] = ((t.layers ++ [t.begun]).flatten ++ []).flatMap _
    rw [hstarted, List.append_nil]
  · rw [hflatten]
    exact ⟨hcounts.length_pending, hcounts.pending, .nil, by simp, fun _ hx ↦ hx⟩

end Valid

/-- **Every moment of the layering is valid.** -/
theorem invariant_layering (g : Graph ν ε) : g.tabulated.layering.Invariant (Valid g) where
  start := valid_start
  next t t' h hnext := by
    obtain ⟨i, left, hleft, rfl⟩ | ⟨v, waiting, hleft, hwaiting, rfl⟩ |
      ⟨hleft, hwaiting, -, rfl⟩ := nextMoment_cases hnext
    · exact h.closeEdge hleft
    · exact h.beginNode hleft hwaiting
    · exact h.finishLayer hleft hwaiting

/-! ### The counters -/

/-- What holds at every moment: there is a counter for every node, which is the number of open edges
to it, and it is not zero if one of these is about to be closed. -/
structure Accounted (g : Graph ν ε) (t : Moment) : Prop where
  length_pending : t.count.pending.length = g.order
  pending : ∀ v, t.count.pending.getD v 0 = t.openTo g v
  one_le_pending : ∀ i ∈ t.left, ∃ e, g.edges[i]? = some e ∧
    e.target < t.count.pending.length ∧ 1 ≤ t.count.pending.getD e.target 0

namespace Valid

/-- **A counter is the number of open edges to its node.** -/
theorem pending_eq (h : t.Valid g) (v : Nat) : t.count.pending.getD v 0 = t.openTo g v := by
  obtain ⟨closed, hclosed, hcounts⟩ := h.counts
  rw [hcounts.pending, openTo, List.countP_eq_length_filter, ← List.length_map Prod.snd]
  have hnodup := (Graph.pairwise_filter_zipIdx g.edges fun p ↦
    p.1.target = v ∧ (p.1.source ∉ t.started ∨ p.2 ∈ t.left)).imp Nat.ne_of_lt
  rw [← List.toFinset_card_of_nodup hnodup]
  congr 1
  ext i
  have hopen : ∀ e, g.edges[i]? = some e →
      (i ∉ closed ↔ e.source ∉ t.started ∨ i ∈ t.left) := by
    intro e he
    rw [h.mem_closed_iff hclosed he, not_and_or, not_not]
  rw [Graph.mem_openEdges, List.mem_toFinset, List.mem_map]
  simp only [List.mem_filter, decide_eq_true_eq, Prod.exists, exists_eq_right,
    List.mem_zipIdx_iff_getElem?]
  constructor
  · rintro ⟨⟨e, he, hv⟩, hnot⟩
    exact ⟨e, he, hv, (hopen e he).1 hnot⟩
  · rintro ⟨e, he, hv, hor⟩
    exact ⟨⟨e, he, hv⟩, (hopen e he).2 hor⟩

/-- **A counter that is counted down is not zero.** -/
theorem one_le_pending (h : t.Valid g) {i : Nat} (hi : i ∈ t.left) :
    ∃ e, g.edges[i]? = some e ∧ e.target < t.count.pending.length ∧
      1 ≤ t.count.pending.getD e.target 0 := by
  obtain ⟨closed, hclosed, hcounts⟩ := h.counts
  obtain ⟨e, he, -⟩ := h.exists_edge hi
  refine ⟨e, he, ?_, ?_⟩
  · rw [hcounts.length_pending]
    exact (g.ends e (List.mem_of_getElem? he)).2
  · rw [hcounts.pending]
    refine Finset.card_pos.2 ⟨i, Graph.mem_openEdges.2 ⟨⟨e, he, rfl⟩, fun hmem ↦ ?_⟩⟩
    exact ((h.mem_closed_iff hclosed he).1 hmem).2 hi

/-- **The counters are right at every valid moment**: each counts the edges into its node that are
still open. -/
theorem accounted (h : t.Valid g) : t.Accounted g where
  length_pending := by
    obtain ⟨closed, -, hcounts⟩ := h.counts
    exact hcounts.length_pending
  pending := h.pending_eq
  one_le_pending _ := h.one_le_pending

/-- A step pushes a node exactly if it closes the last open edge to it. -/
theorem push_iff (h : t.Valid g) (hnext : g.tabulated.nextMoment t = some t') (v : Nat) :
    t'.count.next = t.count.next ++ [v] ↔ t.Closes g.tabulated v ∧ t.openTo g v = 1 := by
  obtain ⟨hcloses, -, hpush⟩ | ⟨hnot, -, hpush⟩ := nextMoment_at hnext v
  · obtain ⟨i, hi, e, he, rfl⟩ := hcloses
    obtain ⟨e', he', -, hpos⟩ := h.one_le_pending (List.mem_of_head? hi)
    obtain rfl : e = e' := Option.some.inj (he.symm.trans he')
    rw [hpush, ← h.pending_eq, and_iff_right ⟨i, hi, e, he, rfl⟩]
    omega
  · exact iff_of_false hpush fun hc ↦ hnot hc.1

end Valid

end Moment

/-! ### Pushes -/

section Pushes

variable {g : Graph ν ε} {v m n : Nat}

/-- A node is pushed when the last open edge to it is closed. -/
theorem pushesAt_iff : g.tabulated.PushesAt v n ↔
    ∃ t, g.tabulated.layering.stateAt n = some t ∧ t.Closes g.tabulated v ∧ t.openTo g v = 1 := by
  constructor
  · rintro ⟨t, t', ht, ht', hpush⟩
    rw [Process.stateAt_succ ht] at ht'
    exact ⟨t, ht, (((Moment.invariant_layering g).of_stateAt ht).push_iff ht' v).1 hpush⟩
  · rintro ⟨t, ht, hlast⟩
    obtain ⟨t', hnext⟩ : ∃ t', g.tabulated.nextMoment t = some t' := by
      obtain ⟨i, hi, -⟩ := hlast.1
      obtain ⟨left, hleft⟩ := List.head?_eq_some_iff.1 hi
      simp [nextMoment, hleft]
    refine ⟨t, t', ht, (Process.stateAt_succ ht).trans hnext, ?_⟩
    exact (((Moment.invariant_layering g).of_stateAt ht).push_iff hnext v).2 hlast

/-- **No node is pushed twice.** -/
theorem pushesAt_unique (hm : g.tabulated.PushesAt v m) (hn : g.tabulated.PushesAt v n) :
    m = n := by
  obtain ⟨t, ht, hlast⟩ := pushesAt_iff.1 hm
  obtain ⟨t', ht', hlast'⟩ := pushesAt_iff.1 hn
  refine (Moment.invariant_layering g).at_most_once
    (fun t ↦ t.Closes g.tabulated v ∧ t.openTo g v = 1) (fun t ↦ t.count.pending.getD v 0 = 0)
    ?_ ?_ ?_ ht ht' hlast hlast'
  · rintro s s' h ⟨hcloses, hone⟩ hnext
    obtain ⟨-, hpending, -⟩ | ⟨hnot, -⟩ := nextMoment_at hnext v
    · rw [hpending, h.pending_eq, hone]
    · exact absurd hcloses hnot
  · intro s s' h hzero hnext
    obtain ⟨-, hpending, -⟩ | ⟨-, hpending, -⟩ := nextMoment_at hnext v
    · rw [hpending, hzero]
    · rw [hpending, hzero]
  · rintro s h hzero ⟨-, hone⟩
    rw [h.pending_eq, hone] at hzero
    cases hzero

/-- When all nodes have been laid out no edge is open. -/
theorem Moment.openTo_eq_zero (hg : g.Acyclic) {t : Moment}
    (hlayers : t.layers = g.tabulated.layers) (hleft : t.left = []) (v : Nat) :
    t.openTo g v = 0 := by
  rw [openTo, List.countP_eq_zero]
  intro p hp
  have hlt := (g.ends p.1 (List.fst_mem_of_mem_zipIdx hp)).1
  have hstarted : p.1.source ∈ t.started := by
    rw [started, hlayers]
    exact List.mem_append_left _ ((Graph.perm_flatten_layers hg).mem_iff.2 (List.mem_range.2 hlt))
  simp [hstarted, hleft]

/-- **Every node with an edge to it is pushed**: its counter is not zero at the start, but at the
end it is. -/
theorem exists_pushesAt (hg : g.Acyclic) (hv : ∃ e ∈ g.edges, e.target = v) :
    ∃ n, g.tabulated.PushesAt v n := by
  obtain ⟨e, he, rfl⟩ := hv
  obtain ⟨n, t, ht, -, hleft, hlayers⟩ := (Graph.rounds_layers hg).exists_end
  have hstart : g.tabulated.degrees.getD e.target 0 ≠ 0 := by
    obtain ⟨i, hi⟩ := List.mem_iff_getElem?.1 he
    rw [Graph.getD_degrees, Finset.card_ne_zero]
    exact ⟨i, Graph.mem_openEdges.2 ⟨⟨e, hi, rfl⟩, List.not_mem_nil⟩⟩
  have hend : t.count.pending.getD e.target 0 = 0 := by
    rw [((Moment.invariant_layering g).of_stateAt ht).pending_eq]
    exact Moment.openTo_eq_zero hg hlayers hleft _
  obtain ⟨k, t₀, t₁, ht₀, ht₁, hne, hzero⟩ := Process.exists_step_of_change
    (P := fun t ↦ t.count.pending.getD e.target 0 ≠ 0) hstart ht (not_not.2 hend)
  have hnext := (Process.stateAt_succ ht₀).symm.trans ht₁
  obtain ⟨-, hpending, hpush⟩ | ⟨-, hpending, -⟩ := nextMoment_at hnext e.target
  · refine ⟨k, t₀, t₁, ht₀, ht₁, hpush.2 ?_⟩
    rw [← hpending]
    exact not_not.1 hzero
  · exact absurd (hpending ▸ hne) hzero

end Pushes

end AcyclicGraph

namespace Graph

variable {ν ε : Type} {g : Graph ν ε}

/-- **The counters of an accepted graph from moment to moment.** The search for the layers ends with
the layers of the graph, and every moment of it is accounted for. A node is pushed in the step that
closes the last open edge to it; a node with edges to it is pushed exactly once, and any other node
never. -/
theorem counters_of_finalize {a : AcyclicGraph ν ε} (h : g.finalize = .ok a) :
    (∃ n t, a.layering.stateAt n = some t ∧ a.nextMoment t = none ∧ t.layers = a.layers) ∧
      (∀ n t, a.layering.stateAt n = some t → t.Accounted g) ∧
      (∀ v n, a.PushesAt v n ↔
        ∃ t, a.layering.stateAt n = some t ∧ t.Closes a v ∧ t.openTo g v = 1) ∧
      (∀ v, (∃ e ∈ g.edges, e.target = v) → ∃! n, a.PushesAt v n) ∧
      ∀ v, (¬ ∃ e ∈ g.edges, e.target = v) → ∀ n, ¬ a.PushesAt v n := by
  obtain ⟨hg, rfl⟩ := finalize_eq_ok_iff.1 h
  refine ⟨?_, fun n t ht ↦ ?_, fun v n ↦ AcyclicGraph.pushesAt_iff, fun v hv ↦ ?_,
    fun v hv n hpush ↦ ?_⟩
  · obtain ⟨n, t, ht, hend, -, hlayers⟩ := (rounds_layers hg).exists_end
    exact ⟨n, t, ht, hend, hlayers⟩
  · exact ((AcyclicGraph.Moment.invariant_layering g).of_stateAt ht).accounted
  · obtain ⟨n, hn⟩ := AcyclicGraph.exists_pushesAt hg hv
    exact ⟨n, hn, fun m hm ↦ AcyclicGraph.pushesAt_unique hm hn⟩
  · obtain ⟨t, -, ⟨i, -, e, he, hev⟩, -⟩ := AcyclicGraph.pushesAt_iff.1 hpush
    exact hv ⟨e, List.mem_of_getElem? he, hev⟩

/-- The node with three edges into it is pushed once. The one without any is there from the
start. -/
theorem counters_of_finalize_detour : ∃ a, detour.finalize = .ok a ∧
    (∃! n, a.PushesAt 1 n) ∧ ∀ n, ¬ a.PushesAt 2 n := by
  have h : detour.finalize = .ok detour.tabulated := finalize_eq_ok_iff.2 ⟨by decide, rfl⟩
  obtain ⟨-, -, -, hpushed, hnever⟩ := counters_of_finalize h
  exact ⟨_, h, hpushed 1 (by decide), hnever 2 (by decide)⟩

end Graph
end Pipework
