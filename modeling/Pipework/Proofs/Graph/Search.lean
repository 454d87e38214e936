import Mathlib.Algebra.BigOperators.Group.Finset.Piecewise
import Mathlib.Algebra.Order.BigOperators.Group.Finset
import Mathlib.Algebra.Ring.Nat
import Mathlib.Data.List.Chain
import Mathlib.Logic.Relation
import Pipework.Proofs.Graph.Edges

/-!
# The search for a cycle decides acyclicity

`Graph.findCycle` takes steps from one root after the other. What makes the search right is one
invariant of its states, `Search.Valid`:

* the nodes on the stack are distinct, and they are the nodes in progress;
* each node on the stack was reached by the edge followed last from the node below it, and every
  other edge followed so far leads to a node that is done;
* edges from nodes that are done lead to nodes that are done, and no cycle passes through these.

A step keeps the invariant or closes a cycle (`Search.Valid.step`), and it uses up one unit of the
work that is left, `Search.work`: every edge waits to be followed and every node to be left. The
bound on the number of steps is that work and one more, so a run never ends for lack of steps.

## What is concluded

* `isCycle_of_findCycle`: a reported list is a closed path with pairwise distinct nodes.
* `findCycle_eq_none_iff`: nothing is reported exactly if no directed cycle exists. When all roots
  have been tried every node is done, so that the last clause of the invariant covers the graph.
-/

open Relation

namespace Pipework.Graph

variable {ν ε : Type} {g : Graph ν ε}

/-! ### Cycles -/

/-- A directed cycle, its first node repeated at the end and no other node repeated. -/
structure IsCycle (g : Graph ν ε) (c : List Nat) : Prop where
  two_le : 2 ≤ c.length
  closed : c.head? = c.getLast?
  nodup : c.dropLast.Nodup
  chain : c.IsChain g.Adj

/-- No directed path leads from a node back to it. -/
def Acyclic (g : Graph ν ε) : Prop :=
  ∀ v, ¬ TransGen g.Adj v v

/-- Edges join nodes, so that all on a chain are nodes. -/
theorem lt_order_of_isChain {u v w : Nat} {c : List Nat} (hchain : (u :: v :: c).IsChain g.Adj)
    (hw : w ∈ u :: v :: c) : w < g.order := by
  induction c generalizing u v with
  | nil =>
    have hadj := List.isChain_pair.1 hchain
    rcases List.mem_pair.1 hw with rfl | rfl
    · exact hadj.source_lt
    · exact hadj.target_lt
  | cons x c ih =>
    obtain ⟨hadj, hrest⟩ := List.isChain_cons_cons.1 hchain
    rcases List.mem_cons.1 hw with rfl | hw
    · exact hadj.source_lt
    · exact ih hrest hw

theorem IsCycle.lt_order {c : List Nat} (h : g.IsCycle c) {w : Nat} (hw : w ∈ c) : w < g.order := by
  obtain ⟨htwo, -, -, hchain⟩ := h
  match c, htwo with
  | u :: v :: rest, _ => exact lt_order_of_isChain hchain hw

/-- A graph with a cycle is not acyclic. -/
theorem IsCycle.not_acyclic {c : List Nat} (h : g.IsCycle c) : ¬ g.Acyclic := by
  obtain ⟨htwo, hclosed, -, hchain⟩ := h
  match c, htwo with
  | a :: b :: rest, _ =>
    obtain ⟨hab, hrest⟩ := List.isChain_cons_cons.1 hchain
    have hlast : (b :: rest).getLast (by simp) = a := by
      rw [List.head?_cons, List.getLast?_cons_cons,
        List.getLast?_eq_some_getLast (by simp)] at hclosed
      exact (Option.some.inj hclosed).symm
    have hpath : ReflTransGen g.Adj b ((b :: rest).getLast (by simp)) :=
      List.relationReflTransGen_of_exists_isChain_cons rest hrest rfl
    exact fun hacyclic ↦ hacyclic a (TransGen.head' hab (hlast ▸ hpath))

/-! ### Marks -/

/-- Setting a mark changes no other one. -/
theorem Marks.get_set {marks : Marks} {v w : Nat} {m : Mark} (hv : v < marks.length) :
    Marks.get (marks.set v m) w = if v = w then m else marks.get w := by
  simp only [Marks.get, List.getD_eq_getElem?_getD, List.getElem?_set]
  split
  next h => subst h; simp
  next => rfl

theorem Marks.lt_length_of_get {marks : Marks} {v : Nat} (h : marks.get v ≠ .unvisited) :
    v < marks.length := by
  by_contra hv
  exact h (by simp [Marks.get, List.getElem?_eq_none (Nat.le_of_not_lt hv)])

theorem Marks.get_unvisited (v : Nat) : Marks.get g.unvisited v = .unvisited := by
  simp only [Marks.get, Graph.unvisited, List.getD_eq_getElem?_getD, List.getElem?_replicate]
  split <;> rfl

/-- Entering a node that has not been visited does not touch those that are done. -/
theorem Marks.get_set_inProgress_eq_done {marks : Marks} {v w : Nat} (hv : v < marks.length)
    (hmark : marks.get v = .unvisited) :
    Marks.get (marks.set v .inProgress) w = .done ↔ marks.get w = .done := by
  rw [Marks.get_set hv]
  split
  next hw => simp [← hw, hmark]
  next => rfl

/-- What has been visited still is after another node has been entered or left. -/
theorem Marks.get_set_ne_unvisited {marks : Marks} {v w : Nat} {m : Mark} (hv : v < marks.length)
    (hm : m ≠ .unvisited) (hw : marks.get w ≠ .unvisited) :
    Marks.get (marks.set v m) w ≠ .unvisited := by
  rw [Marks.get_set hv]
  split
  · exact hm
  · exact hw

/-! ### The invariant -/

/-- What is known about the entries of a stack below the node `above`: the edge followed last from
an entry leads to the node above it, and the edges followed before lead to nodes that are done. -/
def Linked (g : Graph ν ε) (marks : Marks) : (above : Nat) → List (Nat × Nat) → Prop
  | _, [] => True
  | above, (v, followed) :: below =>
    (∃ k, followed = k + 1 ∧ (g.targets v)[k]? = some above ∧
      ∀ w ∈ (g.targets v).take k, marks.get w = .done) ∧ Linked g marks v below

/-- What is known about the entries of a stack: the edges followed from the current node lead to
nodes that are done, and the entries below are linked to it. -/
def Followed (g : Graph ν ε) (marks : Marks) : List (Nat × Nat) → Prop
  | [] => True
  | (v, followed) :: below =>
    followed ≤ (g.targets v).length ∧
      (∀ w ∈ (g.targets v).take followed, marks.get w = .done) ∧ Linked g marks v below

/-- The invariant of the search. -/
structure Search.Valid (g : Graph ν ε) (s : Search) : Prop where
  length_marks : s.marks.length = g.order
  nodup : (s.stack.map Prod.fst).Nodup
  mem_stack_iff : ∀ v, v ∈ s.stack.map Prod.fst ↔ s.marks.get v = .inProgress
  followed : Followed g s.marks s.stack
  closed : ∀ v w, s.marks.get v = .done → g.Adj v w → s.marks.get w = .done
  acyclic : ∀ v, s.marks.get v = .done → ¬ TransGen g.Adj v v

/-- What is linked stays linked when more nodes are done. -/
theorem Linked.mono {marks marks' : Marks} {above : Nat} {stack : List (Nat × Nat)}
    (hdone : ∀ w, marks.get w = .done → marks'.get w = .done) (h : Linked g marks above stack) :
    Linked g marks' above stack := by
  induction stack generalizing above with
  | nil => trivial
  | cons entry below ih =>
    obtain ⟨⟨k, hk, hlast, htake⟩, hbelow⟩ := h
    exact ⟨⟨k, hk, hlast, fun w hw ↦ hdone w (htake w hw)⟩, ih hbelow⟩

/-- The nodes of a linked stack, read from the bottom, form a path. -/
theorem Linked.isChain {marks : Marks} {above : Nat} {stack : List (Nat × Nat)}
    (h : Linked g marks above stack) :
    (above :: stack.map Prod.fst).IsChain fun v u ↦ g.Adj u v := by
  induction stack generalizing above with
  | nil => exact .singleton _
  | cons entry below ih =>
    obtain ⟨⟨k, -, hlast, -⟩, hbelow⟩ := h
    exact .cons_cons (mem_targets.1 (List.mem_of_getElem? hlast)) (ih hbelow)

/-- The part of a path from the first visit of `v` on, closed. -/
theorem closeCycle_append {before after : List Nat} {v : Nat} (h : v ∉ before) :
    closeCycle (before ++ v :: after) v = v :: after ++ [v] := by
  have hidx : (before ++ v :: after).findIdx? (· == v) = some before.length := by
    have hnone : before.findIdx? (· == v) = none := by
      rw [List.findIdx?_eq_none_iff]
      intro x hx
      exact beq_eq_false_iff_ne.2 fun heq ↦ h (heq ▸ hx)
    simp [List.findIdx?_append, hnone, List.findIdx?_cons]
  rw [closeCycle, hidx, Option.getD_some, List.drop_left]

/-- Before the first step nothing has been visited. -/
theorem Search.valid_unvisited : Search.Valid g ⟨g.unvisited, []⟩ where
  length_marks := by simp [unvisited]
  nodup := .nil
  mem_stack_iff v := by simp [Marks.get_unvisited]
  followed := trivial
  closed v w h := by simp [Marks.get_unvisited] at h
  acyclic v h := by simp [Marks.get_unvisited] at h

namespace Search.Valid

variable {s : Search} {v k w : Nat} {below : List (Nat × Nat)}

/-! ### What a step does to a valid state -/

theorem lt_length (h : s.Valid g) (hw : w < g.order) : w < s.marks.length :=
  h.length_marks.symm ▸ hw

/-- The current node is in progress. -/
theorem get_top (h : s.Valid g) (hs : s.stack = (v, k) :: below) : s.marks.get v = .inProgress :=
  (h.mem_stack_iff v).1 (by simp [hs])

/-- **Following an edge to a node that is done.** -/
theorem skip (h : s.Valid g) (hs : s.stack = (v, k) :: below) (hw : (g.targets v)[k]? = some w)
    (hmark : s.marks.get w = .done) : Search.Valid g ⟨s.marks, (v, k + 1) :: below⟩ where
  length_marks := h.length_marks
  nodup := by simpa [hs] using h.nodup
  mem_stack_iff u := by simpa [hs] using h.mem_stack_iff u
  followed := by
    obtain ⟨-, htake, hlinked⟩ := hs ▸ h.followed
    refine ⟨(List.getElem?_eq_some_iff.1 hw).1, fun u hu ↦ ?_, hlinked⟩
    rw [List.take_add_one, hw] at hu
    rcases List.mem_append.1 hu with hu | hu
    · exact htake u hu
    · exact (show u = w by simpa using hu) ▸ hmark
  closed := h.closed
  acyclic := h.acyclic

/-- **Following an edge to a node that has not been visited.** -/
theorem enter (h : s.Valid g) (hs : s.stack = (v, k) :: below) (hw : (g.targets v)[k]? = some w)
    (hmark : s.marks.get w = .unvisited) :
    Search.Valid g ⟨s.marks.set w .inProgress, (w, 0) :: (v, k + 1) :: below⟩ := by
  have hlt := h.lt_length (mem_targets.1 (List.mem_of_getElem? hw)).target_lt
  have hget : ∀ u, Marks.get (s.marks.set w .inProgress) u =
      if w = u then .inProgress else s.marks.get u := fun u ↦ Marks.get_set hlt
  have hdone : ∀ u, Marks.get (s.marks.set w .inProgress) u = .done ↔ s.marks.get u = .done :=
    fun u ↦ Marks.get_set_inProgress_eq_done hlt hmark
  have hnot : w ∉ s.stack.map Prod.fst := fun hmem ↦ by simp [(h.mem_stack_iff w).1 hmem] at hmark
  refine ⟨by simpa using h.length_marks, ?_, fun u ↦ ?_, ?_, fun u x hu hadj ↦ ?_, fun u hu ↦ ?_⟩
  · simpa [hs] using List.nodup_cons.2 ⟨hnot, h.nodup⟩
  · have hu := h.mem_stack_iff u
    rw [hs] at hu
    rw [hget]
    split
    next heq => simp [heq]
    next hne => simpa [Ne.symm hne] using hu
  · obtain ⟨-, htake, hlinked⟩ := hs ▸ h.followed
    exact ⟨Nat.zero_le _, by simp, ⟨k, rfl, hw, fun u hu ↦ (hdone u).2 (htake u hu)⟩,
      hlinked.mono fun u ↦ (hdone u).2⟩
  · exact (hdone x).2 (h.closed u x ((hdone u).1 hu) hadj)
  · exact h.acyclic u ((hdone u).1 hu)

/-- No cycle passes through a node in progress all edges of which lead to nodes that are done: the
nodes that are done lead only to their like. -/
theorem not_transGen_of_targets_done (h : s.Valid g) (hv : s.marks.get v = .inProgress)
    (hall : ∀ w, g.Adj v w → s.marks.get w = .done) : ¬ TransGen g.Adj v v := by
  intro hcycle
  have hreach : ∀ u, TransGen g.Adj v u → s.marks.get u = .done := by
    intro u hu
    induction hu with
    | single hadj => exact hall _ hadj
    | tail _ hadj ih => exact h.closed _ _ ih hadj
  have hdone := hreach v hcycle
  rw [hv] at hdone
  cases hdone

/-- **Leaving a node all edges of which have been followed.** -/
theorem leave (h : s.Valid g) (hs : s.stack = (v, k) :: below) (hend : (g.targets v)[k]? = none) :
    Search.Valid g ⟨s.marks.set v .done, below⟩ := by
  obtain ⟨-, htake, hlinked⟩ := hs ▸ h.followed
  have hv := h.get_top hs
  have hlt : v < s.marks.length := Marks.lt_length_of_get (by simp [hv])
  have hget : ∀ u, Marks.get (s.marks.set v .done) u = if v = u then .done else s.marks.get u :=
    fun u ↦ Marks.get_set hlt
  have hdone : ∀ u, s.marks.get u = .done → Marks.get (s.marks.set v .done) u = .done := by
    intro u hu
    rw [hget, hu, ite_self]
  -- All edges of the node have been followed, so that every target is done.
  have hall : ∀ w, g.Adj v w → s.marks.get w = .done := by
    intro w hadj
    refine htake w ?_
    rw [List.take_of_length_le (List.getElem?_eq_none_iff.1 hend)]
    exact mem_targets.2 hadj
  have hnodup := h.nodup
  rw [hs, List.map_cons, List.nodup_cons] at hnodup
  refine ⟨by simpa using h.length_marks, hnodup.2, fun u ↦ ?_, ?_, fun u x hu hadj ↦ ?_,
    fun u hu ↦ ?_⟩
  · have hu := h.mem_stack_iff u
    rw [hs] at hu
    rw [hget]
    split
    next heq => simpa [← heq] using hnodup.1
    next hne => simpa [Ne.symm hne] using hu
  · -- the node below has `v` as the target of its last edge, and `v` is done now
    match below, hlinked with
    | [], _ => trivial
    | (u, _) :: rest, ⟨⟨j, rfl, hlast, hbefore⟩, hrest⟩ =>
      refine ⟨(List.getElem?_eq_some_iff.1 hlast).1, fun x hx ↦ ?_, hrest.mono hdone⟩
      rw [List.take_add_one, hlast] at hx
      rcases List.mem_append.1 hx with hx | hx
      · exact hdone x (hbefore x hx)
      · rw [show x = v by simpa using hx, hget, if_pos rfl]
  · rw [hget] at hu
    split at hu
    next heq => exact hdone x (hall x (heq ▸ hadj))
    next => exact hdone x (h.closed u x hu hadj)
  · rw [hget] at hu
    split at hu
    next heq => exact heq ▸ h.not_transGen_of_targets_done hv hall
    next => exact h.acyclic u hu

/-- **Following an edge to a node in progress** closes a cycle. -/
theorem isCycle (h : s.Valid g) (hs : s.stack = (v, k) :: below) (hw : (g.targets v)[k]? = some w)
    (hmark : s.marks.get w = .inProgress) :
    g.IsCycle (closeCycle (((v, k + 1) :: below).map Prod.fst).reverse w) := by
  have hpath : (((v, k + 1) :: below).map Prod.fst).reverse = (s.stack.map Prod.fst).reverse := by
    rw [hs, List.map_cons, List.map_cons]
  have hchain : ((s.stack.map Prod.fst).reverse ++ [w]).IsChain g.Adj := by
    have hlinked := (hs ▸ h.followed : Followed g s.marks ((v, k) :: below)).2.2
    rw [← List.reverse_cons, List.isChain_reverse, hs]
    exact .cons_cons (mem_targets.1 (List.mem_of_getElem? hw)) hlinked.isChain
  have hnodup : ((s.stack.map Prod.fst).reverse).Nodup := List.nodup_reverse.2 h.nodup
  have hmem : w ∈ (s.stack.map Prod.fst).reverse :=
    List.mem_reverse.2 ((h.mem_stack_iff w).2 hmark)
  obtain ⟨before, after, hsplit, hnot⟩ := List.eq_append_cons_of_mem hmem
  rw [hsplit] at hchain hnodup
  rw [hpath, hsplit, closeCycle_append hnot]
  refine ⟨by simp, by rw [List.getLast?_concat]; rfl, ?_, ?_⟩
  · rw [List.dropLast_concat]
    exact hnodup.of_append_right
  · rw [List.append_assoc] at hchain
    exact hchain.right_of_append

/-- **What one step does**: it keeps the invariant and the visited nodes, or the stack is empty, or
the reported list is a cycle. -/
theorem step (h : s.Valid g) :
    match g.step s with
    | .running s' => s'.Valid g ∧ ∀ u, s.marks.get u ≠ .unvisited → s'.marks.get u ≠ .unvisited
    | .finished marks => s = ⟨marks, []⟩
    | .cycle c => g.IsCycle c := by
  obtain ⟨marks, stack⟩ := s
  rcases stack with - | ⟨⟨v, k⟩, below⟩
  · rfl
  · rcases hw : (g.targets v)[k]? with - | w
    · have hlt : v < marks.length := Marks.lt_length_of_get (by simp [h.get_top rfl])
      simp only [Graph.step, hw]
      exact ⟨h.leave rfl hw, fun u hu ↦ Marks.get_set_ne_unvisited hlt (by simp) hu⟩
    · rcases hmark : marks.get w with - | - | -
      · have hlt := h.lt_length (mem_targets.1 (List.mem_of_getElem? hw)).target_lt
        simp only [Graph.step, hw, hmark]
        exact ⟨h.enter rfl hw hmark, fun u hu ↦ Marks.get_set_ne_unvisited hlt (by simp) hu⟩
      · simp only [Graph.step, hw, hmark]
        exact h.isCycle rfl hw hmark
      · simp only [Graph.step, hw, hmark]
        exact ⟨h.skip rfl hw hmark, fun u hu ↦ hu⟩

end Search.Valid

/-! ### The work that is left -/

/-- The steps that are due at a node from its first edge on: one for each edge, one for leaving. -/
def cost (g : Graph ν ε) (v : Nat) : Nat :=
  (g.targets v).length + 1

/-- The steps due at nodes that have not been visited. -/
def unvisitedCost (g : Graph ν ε) (marks : Marks) : Nat :=
  ∑ v ∈ Finset.range g.order, if marks.get v = .unvisited then g.cost v else 0

/-- The steps that are left: at the nodes on the stack, and at those that have not been visited. -/
def Search.work (g : Graph ν ε) (s : Search) : Nat :=
  (s.stack.map fun entry ↦ g.cost entry.1 - entry.2).sum + g.unvisitedCost s.marks

/-- Visiting a node takes its share out of the cost of what has not been visited. -/
theorem unvisitedCost_set {marks : Marks} {w : Nat} (hlen : marks.length = g.order)
    (hw : w < g.order) (hmark : marks.get w = .unvisited) :
    g.cost w + g.unvisitedCost (marks.set w .inProgress) = g.unvisitedCost marks := by
  have hget : ∀ u, Marks.get (marks.set w .inProgress) u =
      if w = u then .inProgress else marks.get u := fun u ↦ Marks.get_set (hlen ▸ hw)
  have hmem : w ∈ Finset.range g.order := Finset.mem_range.2 hw
  rw [unvisitedCost, unvisitedCost, ← Finset.add_sum_erase _ _ hmem,
    ← Finset.add_sum_erase _ _ hmem, hget, if_pos rfl, if_neg (by simp), hmark, if_pos rfl,
    Nat.zero_add]
  congr 1
  refine Finset.sum_congr rfl fun u hu ↦ ?_
  rw [hget, if_neg (Finset.ne_of_mem_erase hu).symm]

/-- Leaving a node does not touch those that have not been visited. -/
theorem unvisitedCost_set_done {marks : Marks} {v : Nat} (hmark : marks.get v = .inProgress) :
    g.unvisitedCost (marks.set v .done) = g.unvisitedCost marks := by
  have hlt : v < marks.length := Marks.lt_length_of_get (by simp [hmark])
  refine Finset.sum_congr rfl fun u _ ↦ ?_
  rw [Marks.get_set hlt]
  split
  next heq => simp [← heq, hmark]
  next => rfl

/-- **Every step uses up work.** -/
theorem Search.Valid.work_lt {s s' : Search} (h : s.Valid g) (hstep : g.step s = .running s') :
    s'.work g < s.work g := by
  obtain ⟨marks, stack⟩ := s
  rcases stack with - | ⟨⟨v, k⟩, below⟩
  · cases hstep
  · have hk : k ≤ (g.targets v).length := h.followed.1
    rcases hw : (g.targets v)[k]? with - | w
    · simp only [Graph.step, hw, Search.Outcome.running.injEq] at hstep
      subst hstep
      simp only [Search.work, unvisitedCost_set_done (h.get_top rfl), List.map_cons, List.sum_cons,
        cost]
      omega
    · have hlt : k < (g.targets v).length := (List.getElem?_eq_some_iff.1 hw).1
      rcases hmark : marks.get w with - | - | -
      · have hw' := (mem_targets.1 (List.mem_of_getElem? hw)).target_lt
        have hcost := unvisitedCost_set (g := g) h.length_marks hw' hmark
        simp only [Graph.step, hw, hmark, Search.Outcome.running.injEq] at hstep
        subst hstep
        simp only [Search.work, List.map_cons, List.sum_cons, cost] at hcost ⊢
        omega
      · simp only [Graph.step, hw, hmark] at hstep
        cases hstep
      · simp only [Graph.step, hw, hmark, Search.Outcome.running.injEq] at hstep
        subst hstep
        simp only [Search.work, List.map_cons, List.sum_cons, cost]
        omega

/-- The edges of a graph, counted by their sources. -/
theorem sum_length_targets (g : Graph ν ε) :
    ∑ v ∈ Finset.range g.order, (g.targets v).length = g.size := by
  -- The induction is on the edges alone: the nodes over which the sum goes stay those of the graph.
  have hcount : ∀ es : List (Edge ε), (∀ e ∈ es, e.source < g.order) →
      ∑ v ∈ Finset.range g.order, ((es.filter (·.source == v)).map (·.target)).length =
        es.length := by
    intro es hes
    induction es with
    | nil => simp
    | cons e es ih =>
      have he : e.source ∈ Finset.range g.order := Finset.mem_range.2 (hes e List.mem_cons_self)
      have hsplit : ∀ v, (((e :: es).filter (·.source == v)).map (·.target)).length =
          (if e.source = v then 1 else 0) +
            ((es.filter (·.source == v)).map (·.target)).length := by
        intro v
        by_cases hv : e.source = v
        · simp [hv, Nat.add_comm]
        · simp [hv]
      simp only [hsplit, Finset.sum_add_distrib, Finset.sum_ite_eq, he, if_true,
        ih fun e he ↦ hes e (List.mem_cons_of_mem _ he), List.length_cons, Nat.add_comm]
  exact hcount g.edges fun e he ↦ (g.ends e he).1

/-- There is never more work than the bound on the number of steps allows for. -/
theorem unvisitedCost_lt_stepBound (marks : Marks) : g.unvisitedCost marks < g.stepBound := by
  have hle : g.unvisitedCost marks ≤ ∑ v ∈ Finset.range g.order, g.cost v := by
    refine Finset.sum_le_sum fun v _ ↦ ?_
    split
    · exact Nat.le_refl _
    · exact Nat.zero_le _
  have htotal : ∑ v ∈ Finset.range g.order, g.cost v = g.size + g.order := by
    simp only [cost, Finset.sum_add_distrib, sum_length_targets, ← Finset.card_eq_sum_ones,
      Finset.card_range]
  rw [stepBound]
  omega

/-! ### Runs -/

/-- What a search that began with the given marks ends in: nothing is in progress any more, the
roots have been visited and what had been visited still is; or a cycle is reported. -/
def Search.Ends (g : Graph ν ε) (marks : Marks) (roots : List Nat) :
    Except (List Nat) Marks → Prop
  | .ok marks' => Search.Valid g ⟨marks', []⟩ ∧ (∀ r ∈ roots, marks'.get r ≠ .unvisited) ∧
      ∀ u, marks.get u ≠ .unvisited → marks'.get u ≠ .unvisited
  | .error c => g.IsCycle c

/-- **A run with enough steps.** -/
theorem Search.Valid.run {s : Search} {fuel : Nat} (h : s.Valid g) (hfuel : s.work g < fuel) :
    Search.Ends g s.marks [] (g.run fuel s) := by
  induction fuel generalizing s with
  | zero => omega
  | succ fuel ih =>
    have hstep := h.step
    rw [Graph.run]
    rcases hs : g.step s with s' | marks | c
    · rw [hs] at hstep
      obtain ⟨hvalid, hvisited⟩ := hstep
      -- The step used up work, so what is left still fits the fuel that is left.
      have hrest := ih hvalid (by have := h.work_lt hs; omega)
      show Search.Ends g s.marks [] (g.run fuel s')
      rcases hr : g.run fuel s' with c | marks
      · rw [hr] at hrest
        exact hrest
      · rw [hr] at hrest
        exact ⟨hrest.1, by simp, fun u hu ↦ hrest.2.2 u (hvisited u hu)⟩
    · rw [hs] at hstep
      subst hstep
      exact ⟨h, by simp, fun u hu ↦ hu⟩
    · rw [hs] at hstep
      exact hstep

/-- A root that has not been visited can be put on the empty stack. -/
theorem Search.Valid.start {marks : Marks} {root : Nat} (h : Search.Valid g ⟨marks, []⟩)
    (hroot : root < g.order) (hmark : marks.get root = .unvisited) :
    Search.Valid g ⟨marks.set root .inProgress, [(root, 0)]⟩ := by
  have hget : ∀ u, Marks.get (marks.set root .inProgress) u =
      if root = u then .inProgress else marks.get u := fun u ↦ Marks.get_set (h.lt_length hroot)
  have hdone : ∀ u, Marks.get (marks.set root .inProgress) u = .done ↔ marks.get u = .done :=
    fun u ↦ Marks.get_set_inProgress_eq_done (h.lt_length hroot) hmark
  refine ⟨by simpa using h.length_marks, by simp, fun u ↦ ?_, ⟨Nat.zero_le _, by simp, trivial⟩,
    fun u x hu hadj ↦ (hdone x).2 (h.closed u x ((hdone u).1 hu) hadj),
    fun u hu ↦ h.acyclic u ((hdone u).1 hu)⟩
  have hu := h.mem_stack_iff u
  rw [hget]
  split
  next heq => simp [heq]
  next hne => simpa [Ne.symm hne] using hu

/-- The bound on the number of steps allows for a search from a root. -/
theorem Search.Valid.work_start_lt {marks : Marks} {root : Nat} (h : Search.Valid g ⟨marks, []⟩)
    (hroot : root < g.order) (hmark : marks.get root = .unvisited) :
    Search.work g ⟨marks.set root .inProgress, [(root, 0)]⟩ < g.stepBound := by
  have hcost : g.cost root + g.unvisitedCost (marks.set root .inProgress) =
      g.unvisitedCost marks := unvisitedCost_set h.length_marks hroot hmark
  have hbound := unvisitedCost_lt_stepBound (g := g) marks
  simp only [Search.work, List.map_cons, List.map_nil, List.sum_cons, List.sum_nil]
  omega

/-- **A search from one root.** -/
theorem ends_searchFrom {marks : Marks} {root : Nat} (h : Search.Valid g ⟨marks, []⟩)
    (hroot : root < g.order) : Search.Ends g marks [root] (g.searchFrom marks root) := by
  by_cases hmark : marks.get root = .unvisited
  · have hrun := (h.start hroot hmark).run (h.work_start_lt hroot hmark)
    rw [searchFrom, if_pos hmark]
    rcases hr : g.run g.stepBound ⟨marks.set root .inProgress, [(root, 0)]⟩ with c | marks'
    · rw [hr] at hrun
      exact hrun
    · rw [hr] at hrun
      obtain ⟨hvalid, -, hkept⟩ := hrun
      have hlt := h.lt_length hroot
      have hentered : marks'.get root ≠ .unvisited := hkept root (by simp [Marks.get_set hlt])
      exact ⟨hvalid, by simpa using hentered,
        fun u hu ↦ hkept u (Marks.get_set_ne_unvisited hlt (by simp) hu)⟩
  · rw [searchFrom, if_neg hmark]
    exact ⟨h, by simpa using hmark, fun u hu ↦ hu⟩

/-- **Searches from several roots.** -/
theorem ends_foldlM_searchFrom {roots : List Nat} {marks : Marks}
    (h : Search.Valid g ⟨marks, []⟩) (hroots : ∀ r ∈ roots, r < g.order) :
    Search.Ends g marks roots (roots.foldlM g.searchFrom marks) := by
  induction roots generalizing marks with
  | nil => exact ⟨h, by simp, fun u hu ↦ hu⟩
  | cons r roots ih =>
    have hfirst := ends_searchFrom h (hroots r List.mem_cons_self)
    rw [List.foldlM_cons]
    rcases hr : g.searchFrom marks r with c | marks₁
    · rw [hr] at hfirst
      exact hfirst
    · rw [hr] at hfirst
      obtain ⟨hvalid, hvisited, hkept⟩ := hfirst
      have hrest := ih hvalid fun r hr ↦ hroots r (List.mem_cons_of_mem _ hr)
      show Search.Ends g marks (r :: roots) (roots.foldlM g.searchFrom marks₁)
      rcases hrun : roots.foldlM g.searchFrom marks₁ with c | marks₂
      · rw [hrun] at hrest
        exact hrest
      · rw [hrun] at hrest
        obtain ⟨hvalid', hroots', hkept'⟩ := hrest
        refine ⟨hvalid', fun x hx ↦ ?_, fun u hu ↦ hkept' u (hkept u hu)⟩
        rcases List.mem_cons.1 hx with rfl | hx
        · exact hkept' x (hvisited x (by simp))
        · exact hroots' x hx

/-- **The search goes through all nodes**, each of them as a start. -/
theorem ends_all (g : Graph ν ε) : Search.Ends g g.unvisited (List.range g.order)
    ((List.range g.order).foldlM g.searchFrom g.unvisited) :=
  ends_foldlM_searchFrom Search.valid_unvisited fun _ hr ↦ List.mem_range.1 hr

/-! ### The result of the search -/

/-- **What is reported is a cycle.** -/
theorem isCycle_of_findCycle {c : List Nat} (h : g.findCycle = some c) : g.IsCycle c := by
  have hends := ends_all g
  rw [findCycle] at h
  rcases hr : (List.range g.order).foldlM g.searchFrom g.unvisited with c' | marks
  · rw [hr] at h hends
    exact Option.some.inj h ▸ hends
  · rw [hr] at h
    cases h

/-- **Nothing is reported only if there is no cycle**: every node is done in the end. -/
theorem acyclic_of_findCycle (h : g.findCycle = none) : g.Acyclic := by
  have hends := ends_all g
  rw [findCycle] at h
  rcases hr : (List.range g.order).foldlM g.searchFrom g.unvisited with c' | marks
  · rw [hr] at h
    cases h
  · rw [hr] at hends
    obtain ⟨hvalid, hvisited, -⟩ := hends
    intro v hcycle
    obtain ⟨w, hadj, -⟩ := TransGen.head'_iff.1 hcycle
    -- A node on a cycle has an edge, so it was a root. It is not in progress on the empty stack.
    have hv := hvisited v (List.mem_range.2 hadj.source_lt)
    have hstack := hvalid.mem_stack_iff v
    rcases hmark : marks.get v with - | - | -
    · exact hv hmark
    · simpa using hstack.2 hmark
    · exact hvalid.acyclic v hmark hcycle

/-- **The search decides acyclicity.** -/
theorem findCycle_eq_none_iff : g.findCycle = none ↔ g.Acyclic := by
  refine ⟨acyclic_of_findCycle, fun hacyclic ↦ ?_⟩
  rcases h : g.findCycle with - | c
  · rfl
  · exact absurd hacyclic (isCycle_of_findCycle h).not_acyclic

instance (g : Graph ν ε) : Decidable g.Acyclic :=
  decidable_of_iff _ g.findCycle_eq_none_iff

end Pipework.Graph
