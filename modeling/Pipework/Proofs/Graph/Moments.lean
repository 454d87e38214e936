import Pipework.Proofs.Graph.Search
import Pipework.Proofs.Process

/-!
# The search for a cycle from moment to moment

`Graph.findCycle` tries the roots one after the other, each with a bound on the number of steps.
Here the search is one process, `Graph.searching`, which knows no bound: it goes on as long as there
is a root to try, an edge to follow or a node to leave. What is proved of it (`moments_of_search`)
holds at every moment of every search:

* the invariant `Search.Valid` is kept (`invariant_searching`), so that an edge that closes a cycle
  leads to a node that is found on the stack;
* the node on top of the stack and the number of its edges that have been followed never come again
  (`top_at_most_once`), because from then on the node is done or more of its edges have been
  followed (`Search.Passed`). Hence no edge is followed twice;
* a step uses up work, and a new root uses up a root, so that the search ends. What is found then is
  what `Graph.findCycle` reports, since no step changes what the rest of the search leads to
  (`Moment.Valid.rest_next`).
-/

namespace Pipework.Graph

variable {ν ε : Type} {g : Graph ν ε}

/-! ### Moments -/

/-- A moment of the search: the roots that have not been tried, and the state of the search from the
root that was tried last. -/
structure Moment where
  roots : List Nat
  search : Search

/-- The next moment: a root is tried when the stack is empty, and otherwise a step is taken. There
is none when all roots have been tried or a cycle was closed. -/
def nextMoment (g : Graph ν ε) (t : Moment) : Option Moment :=
  match t.search.stack, t.roots with
  | [], [] => none
  | [], root :: roots =>
    if t.search.marks.get root = .unvisited then
      some ⟨roots, ⟨t.search.marks.set root .inProgress, [(root, 0)]⟩⟩
    else some ⟨roots, t.search⟩
  | _ :: _, roots =>
    match g.step t.search with
    | .running s => some ⟨roots, s⟩
    | _ => none

/-- The whole search. -/
def searching (g : Graph ν ε) : Process Moment where
  start := ⟨List.range g.order, ⟨g.unvisited, []⟩⟩
  next := g.nextMoment

/-- The cycle that is closed at a moment. -/
def closed? (g : Graph ν ε) (t : Moment) : Option (List Nat) :=
  match g.step t.search with
  | .cycle c => some c
  | _ => none

/-- **How the search goes on.** -/
theorem nextMoment_cases {t t' : Moment} (h : g.nextMoment t = some t') :
    (∃ root roots marks, t = ⟨root :: roots, ⟨marks, []⟩⟩ ∧
      ((marks.get root ≠ .unvisited ∧ t' = ⟨roots, ⟨marks, []⟩⟩) ∨
        (marks.get root = .unvisited ∧
          t' = ⟨roots, ⟨marks.set root .inProgress, [(root, 0)]⟩⟩))) ∨
      ∃ s, g.step t.search = .running s ∧ t' = ⟨t.roots, s⟩ := by
  obtain ⟨roots, marks, stack⟩ := t
  rcases stack with - | ⟨entry, below⟩
  · rcases roots with - | ⟨root, roots⟩
    · cases h
    · refine .inl ⟨root, roots, marks, rfl, ?_⟩
      simp only [nextMoment] at h
      split at h
      next hmark => exact .inr ⟨hmark, (Option.some.inj h).symm⟩
      next hmark => exact .inl ⟨hmark, (Option.some.inj h).symm⟩
  · simp only [nextMoment] at h
    split at h
    next s hs => exact .inr ⟨s, hs, (Option.some.inj h).symm⟩
    next => cases h

/-- **What a step that goes on does**: it leaves the current node, or follows an edge to a node that
is done or has not been visited. -/
theorem step_eq_running {s s' : Search} (h : g.step s = .running s') :
    ∃ v k below, s.stack = (v, k) :: below ∧
      (((g.targets v)[k]? = none ∧ s' = ⟨s.marks.set v .done, below⟩) ∨
        ∃ w, (g.targets v)[k]? = some w ∧
          ((s.marks.get w = .done ∧ s' = ⟨s.marks, (v, k + 1) :: below⟩) ∨
            (s.marks.get w = .unvisited ∧
              s' = ⟨s.marks.set w .inProgress, (w, 0) :: (v, k + 1) :: below⟩))) := by
  obtain ⟨marks, stack⟩ := s
  rcases stack with - | ⟨⟨v, k⟩, below⟩
  · cases h
  · refine ⟨v, k, below, rfl, ?_⟩
    rcases hw : (g.targets v)[k]? with - | w
    · simp only [step, hw, Search.Outcome.running.injEq] at h
      exact .inl ⟨rfl, h.symm⟩
    · refine .inr ⟨w, rfl, ?_⟩
      rcases hmark : marks.get w with - | - | -
      · simp only [step, hw, hmark, Search.Outcome.running.injEq] at h
        exact .inr ⟨rfl, h.symm⟩
      · simp only [step, hw, hmark] at h
        cases h
      · simp only [step, hw, hmark, Search.Outcome.running.injEq] at h
        exact .inl ⟨rfl, h.symm⟩

/-! ### The invariant -/

/-- The invariant of the whole search. -/
structure Moment.Valid (g : Graph ν ε) (t : Moment) : Prop where
  search : t.search.Valid g
  roots : ∀ root ∈ t.roots, root < g.order

/-- **Every moment of the search is valid.** -/
theorem invariant_searching (g : Graph ν ε) : g.searching.Invariant (Moment.Valid g) where
  start := ⟨Search.valid_unvisited, fun _ hroot ↦ List.mem_range.1 hroot⟩
  next t t' h hnext := by
    obtain ⟨root, roots, marks, rfl, hroot⟩ | ⟨s, hs, rfl⟩ := nextMoment_cases hnext
    · obtain ⟨hlt, hroots⟩ := List.forall_mem_cons.1 h.roots
      obtain ⟨-, rfl⟩ | ⟨hmark, rfl⟩ := hroot
      · exact ⟨h.search, hroots⟩
      · exact ⟨h.search.start hlt hmark, hroots⟩
    · have hstep := h.search.step
      rw [hs] at hstep
      exact ⟨hstep.1, h.roots⟩

/-! ### What is passed -/

/-- The node `v` has been left, or more than `k` of its edges have been followed. -/
def Search.Passed (v k : Nat) (s : Search) : Prop :=
  s.marks.get v = .done ∨ ∃ j, (v, j) ∈ s.stack ∧ k < j

namespace Search.Valid

variable {s s' : Search} {v k : Nat}

/-- A step passes the place on top of the stack. -/
theorem passed_of_top (h : s.Valid g) {below : List (Nat × Nat)} (hs : s.stack = (v, k) :: below)
    (hstep : g.step s = .running s') : s'.Passed v k := by
  obtain ⟨v', k', below', hs', hcases⟩ := step_eq_running hstep
  obtain ⟨⟨rfl, rfl⟩, rfl⟩ : (v' = v ∧ k' = k) ∧ below' = below := by simpa using hs'.symm.trans hs
  obtain ⟨-, rfl⟩ | ⟨w, -, ⟨-, rfl⟩ | ⟨-, rfl⟩⟩ := hcases
  · have hlt : v' < s.marks.length := Marks.lt_length_of_get (by simp [h.get_top hs])
    exact .inl (by rw [Marks.get_set hlt, if_pos rfl])
  · exact .inr ⟨k' + 1, by simp, by omega⟩
  · exact .inr ⟨k' + 1, by simp, by omega⟩

/-- Nothing that is done is undone. -/
theorem done_of_step (h : s.Valid g) (hstep : g.step s = .running s')
    (hdone : s.marks.get v = .done) : s'.marks.get v = .done := by
  obtain ⟨u, j, below, hs, hcases⟩ := step_eq_running hstep
  obtain ⟨-, rfl⟩ | ⟨w, hw, ⟨-, rfl⟩ | ⟨hmark, rfl⟩⟩ := hcases
  · have hlt : u < s.marks.length := Marks.lt_length_of_get (by simp [h.get_top hs])
    rw [Marks.get_set hlt, hdone, ite_self]
  · exact hdone
  · have hlt := h.lt_length (mem_targets.1 (List.mem_of_getElem? hw)).target_lt
    exact (Marks.get_set_inProgress_eq_done hlt hmark).2 hdone

/-- What is passed stays passed. -/
theorem passed_of_step (h : s.Valid g) (hpassed : s.Passed v k)
    (hstep : g.step s = .running s') : s'.Passed v k := by
  rcases hpassed with hdone | ⟨j, hj, hlt⟩
  · exact .inl (h.done_of_step hstep hdone)
  · obtain ⟨u, i, below, hs, hcases⟩ := step_eq_running hstep
    rw [hs] at hj
    rcases List.mem_cons.1 hj with heq | hj
    · -- the entry is the one on top, and its place is behind
      cases heq
      obtain hdone | ⟨j', hj', hlt'⟩ := h.passed_of_top hs hstep
      · exact .inl hdone
      · exact .inr ⟨j', hj', by omega⟩
    · obtain ⟨-, rfl⟩ | ⟨w, -, ⟨-, rfl⟩ | ⟨-, rfl⟩⟩ := hcases
      · exact .inr ⟨j, hj, hlt⟩
      · exact .inr ⟨j, List.mem_cons_of_mem _ hj, hlt⟩
      · exact .inr ⟨j, List.mem_cons_of_mem _ (List.mem_cons_of_mem _ hj), hlt⟩

/-- What is passed is not on top of the stack. -/
theorem not_top_of_passed (h : s.Valid g) (hpassed : s.Passed v k) {below : List (Nat × Nat)} :
    s.stack ≠ (v, k) :: below := by
  intro hs
  rcases hpassed with hdone | ⟨j, hj, hlt⟩
  · simp [h.get_top hs] at hdone
  · have hnodup := h.nodup
    rw [hs, List.map_cons, List.nodup_cons] at hnodup
    rw [hs] at hj
    rcases List.mem_cons.1 hj with heq | hj
    · cases heq
      omega
    · exact hnodup.1 (List.mem_map.2 ⟨_, hj, rfl⟩)

end Search.Valid

/-- The current node and the number of its edges that have been followed. -/
def Moment.AtTop (v k : Nat) (t : Moment) : Prop :=
  ∃ below, t.search.stack = (v, k) :: below

/-- **The search does not come back to a place.** -/
theorem top_at_most_once {v k m n : Nat} {t t' : Moment} (ht : g.searching.stateAt m = some t)
    (ht' : g.searching.stateAt n = some t') (htop : t.AtTop v k) (htop' : t'.AtTop v k) :
    m = n := by
  refine (invariant_searching g).at_most_once (Moment.AtTop v k) (fun t ↦ t.search.Passed v k)
    ?_ ?_ ?_ ht ht' htop htop'
  · rintro s s' h ⟨below, hs⟩ hnext
    obtain ⟨root, roots, marks, rfl, -⟩ | ⟨s₁, hstep, rfl⟩ := nextMoment_cases hnext
    · cases hs
    · exact h.search.passed_of_top hs hstep
  · intro s s' h hpassed hnext
    obtain ⟨root, roots, marks, rfl, hroot⟩ | ⟨s₁, hstep, rfl⟩ := nextMoment_cases hnext
    · -- on an empty stack only nodes that are done are passed, and a root is not
      obtain hdone | ⟨j, hj, -⟩ := hpassed
      · obtain ⟨-, rfl⟩ | ⟨hmark, rfl⟩ := hroot
        · exact .inl hdone
        · have hlt := h.search.lt_length (h.roots root List.mem_cons_self)
          exact .inl ((Marks.get_set_inProgress_eq_done hlt hmark).2 hdone)
      · cases hj
    · exact h.search.passed_of_step hpassed hstep
  · rintro s h hpassed ⟨below, hs⟩
    exact h.search.not_top_of_passed hpassed hs

/-! ### Edges that are followed -/

/-- The edge with the number `i` is followed in step `n`: it is the next one of the current node. -/
def FollowsAt (g : Graph ν ε) (i n : Nat) : Prop :=
  ∃ t v k, g.searching.stateAt n = some t ∧ t.AtTop v k ∧ (g.tabulated.edgesFrom v)[k]? = some i

/-- The targets of a node are those of its edges, in the same order. -/
theorem getElem?_targets_eq_some_iff {v k w : Nat} :
    (g.targets v)[k]? = some w ↔
      ∃ i e, (g.tabulated.edgesFrom v)[k]? = some i ∧ g.edges[i]? = some e ∧ e.source = v ∧
        e.target = w := by
  have htargets : g.targets v =
      (g.edges.zipIdx.filter fun p ↦ p.1.source == v).map fun p ↦ p.1.target := by
    conv_lhs => rw [targets, ← List.zipIdx_map_fst 0 g.edges, List.filter_map, List.map_map]
    rfl
  have hedge : ∀ p, (g.edges.zipIdx.filter fun p ↦ p.1.source == v)[k]? = some p →
      g.edges[p.2]? = some p.1 ∧ p.1.source = v := by
    intro p hp
    obtain ⟨hmem, hv⟩ := List.mem_filter.1 (List.mem_of_getElem? hp)
    exact ⟨List.mem_zipIdx_iff_getElem?.1 hmem, eq_of_beq hv⟩
  rw [htargets, edgesFrom_tabulated, List.getElem?_map, List.getElem?_map]
  simp only [Option.map_eq_some_iff]
  constructor
  · rintro ⟨p, hp, rfl⟩
    obtain ⟨he, hv⟩ := hedge p hp
    exact ⟨p.2, p.1, ⟨p, hp, rfl⟩, he, hv, rfl⟩
  · rintro ⟨i, e, ⟨p, hp, rfl⟩, he, -, rfl⟩
    obtain ⟨he', -⟩ := hedge p hp
    exact ⟨p, hp, by rw [Option.some.inj (he'.symm.trans he)]⟩

/-- **No edge is followed twice.** -/
theorem followsAt_unique {i m n : Nat} (hm : g.FollowsAt i m) (hn : g.FollowsAt i n) : m = n := by
  obtain ⟨t, v, k, ht, htop, hi⟩ := hm
  obtain ⟨t', v', k', ht', htop', hi'⟩ := hn
  -- an edge has one source and stands once in the table of that node
  obtain ⟨e, he, rfl⟩ := mem_edgesFrom.1 (List.mem_of_getElem? hi)
  obtain ⟨e', he', rfl⟩ := mem_edgesFrom.1 (List.mem_of_getElem? hi')
  obtain rfl : e = e' := Option.some.inj (he.symm.trans he')
  have hnodup : (g.tabulated.edgesFrom e.source).Nodup :=
    (pairwise_edgesFrom e.source).imp Nat.ne_of_lt
  obtain rfl : k = k' := by
    obtain ⟨hk, rfl⟩ := List.getElem?_eq_some_iff.1 hi
    obtain ⟨hk', heq⟩ := List.getElem?_eq_some_iff.1 hi'
    exact (hnodup.getElem_inj_iff.1 heq).symm
  exact top_at_most_once ht ht' htop htop'

/-! ### The end of the search -/

/-- The work that is left at a moment. -/
def Moment.work (g : Graph ν ε) (t : Moment) : Nat :=
  t.roots.length + t.search.work g

/-- **Every step leaves less work.** -/
theorem Moment.Valid.work_next {t t' : Moment} (h : t.Valid g) (hnext : g.nextMoment t = some t') :
    t'.work g < t.work g := by
  obtain ⟨root, roots, marks, rfl, hroot⟩ | ⟨s, hs, rfl⟩ := nextMoment_cases hnext
  · obtain ⟨-, rfl⟩ | ⟨hmark, rfl⟩ := hroot
    · simp [Moment.work]
    · have hcost := unvisitedCost_set h.search.length_marks (h.roots root List.mem_cons_self) hmark
      simp only [Moment.work, Search.work, List.length_cons, List.map_cons, List.map_nil,
        List.sum_cons, List.sum_nil] at hcost ⊢
      omega
  · have hlt := h.search.work_lt hs
    simp only [Moment.work]
    omega

/-- With enough steps it does not matter how many are allowed. -/
theorem Search.Valid.run_eq_run {s : Search} {fuel fuel' : Nat} (h : s.Valid g)
    (hfuel : s.work g < fuel) (hfuel' : s.work g < fuel') : g.run fuel s = g.run fuel' s := by
  induction fuel generalizing s fuel' with
  | zero => omega
  | succ fuel ih =>
    obtain ⟨fuel', rfl⟩ : ∃ n, fuel' = n + 1 := ⟨fuel' - 1, by omega⟩
    have hstep := h.step
    rw [Graph.run, Graph.run]
    rcases hs : g.step s with s' | marks | c
    · rw [hs] at hstep
      have hlt := h.work_lt hs
      exact ih hstep.1 (by omega) (by omega)
    · rfl
    · rfl

/-- What the rest of the search leads to. -/
def Moment.rest (g : Graph ν ε) (t : Moment) : Except (List Nat) Marks := do
  let marks ← g.run (t.search.work g + 1) t.search
  t.roots.foldlM g.searchFrom marks

theorem rest_of_empty {roots : List Nat} {marks : Marks} :
    Moment.rest g ⟨roots, ⟨marks, []⟩⟩ = roots.foldlM g.searchFrom marks := rfl

/-- **A step does not change what the search leads to.** -/
theorem Moment.Valid.rest_next {t t' : Moment} (h : t.Valid g) (hnext : g.nextMoment t = some t') :
    t'.rest g = t.rest g := by
  obtain ⟨root, roots, marks, rfl, hroot⟩ | ⟨s, hs, rfl⟩ := nextMoment_cases hnext
  · rw [rest_of_empty, List.foldlM_cons, searchFrom]
    obtain ⟨hmark, rfl⟩ | ⟨hmark, rfl⟩ := hroot
    · rw [rest_of_empty, if_neg hmark]
      rfl
    · have hlt := h.roots root List.mem_cons_self
      have hwork := h.search.work_start_lt hlt hmark
      rw [if_pos hmark, Moment.rest,
        (h.search.start hlt hmark).run_eq_run (Nat.lt_succ_self _) hwork]
  · have hstep := h.search.step
    rw [hs] at hstep
    have hless := h.search.work_lt hs
    have hrun : g.run (t.search.work g + 1) t.search = g.run (s.work g + 1) s := by
      rw [run, hs]
      exact hstep.1.run_eq_run hless (Nat.lt_succ_self _)
    rw [Moment.rest, Moment.rest, hrun]

/-- The cycle that a search ends with. -/
def cycleOf : Except (List Nat) Marks → Option (List Nat)
  | .ok _ => none
  | .error c => some c

/-- The cycle that is found is the one that the rest of the search finds from its start. -/
theorem findCycle_eq_cycleOf (g : Graph ν ε) :
    g.findCycle = cycleOf (g.searching.start.rest g) := by
  rw [findCycle, searching, rest_of_empty]
  rcases (List.range g.order).foldlM g.searchFrom g.unvisited with c | marks <;> rfl

/-- **What is found in the end.** -/
theorem Moment.Valid.cycleOf_rest {t : Moment} (h : t.Valid g) (hend : g.nextMoment t = none) :
    cycleOf (t.rest g) = g.closed? t := by
  obtain ⟨roots, marks, stack⟩ := t
  rcases stack with - | ⟨entry, below⟩
  · rcases roots with - | ⟨root, roots⟩
    · rfl
    · simp only [nextMoment] at hend
      split at hend <;> cases hend
  · have hstep := h.search.step
    rw [Moment.rest, run, closed?]
    rcases hs : g.step ⟨marks, entry :: below⟩ with s | marks' | c
    · simp [nextMoment, hs] at hend
    · rw [hs] at hstep
      cases hstep
    · rfl

/-- At every moment the rest of the search leads to what the whole search leads to. -/
theorem invariant_rest (g : Graph ν ε) :
    g.searching.Invariant fun t ↦ t.Valid g ∧ cycleOf (t.rest g) = g.findCycle where
  start := ⟨(invariant_searching g).start, (findCycle_eq_cycleOf g).symm⟩
  next t t' h hnext :=
    ⟨(invariant_searching g).next t t' h.1 hnext, by rw [h.1.rest_next hnext, h.2]⟩

/-- The work at the start is bounded by the numbers of nodes and edges. -/
theorem work_start (g : Graph ν ε) : g.searching.start.work g ≤ g.size + 2 * g.order := by
  have hlt := unvisitedCost_lt_stepBound (g := g) g.unvisited
  simp only [Moment.work, searching, Search.work, List.length_range, List.map_nil, List.sum_nil,
    stepBound] at hlt ⊢
  omega

/-! ### Every moment -/

/-- What holds whenever the search is about to follow an edge or to leave a node. The nodes on the
stack are distinct, and they are the nodes in progress; each was reached by the edge followed last
from the node below it; edges from nodes that are done lead to nodes that are done. All numbers of
nodes that are used are in bounds, and an edge that closes a cycle leads to a node whose position
on the stack is found. -/
structure Search.Sound (g : Graph ν ε) (s : Search) : Prop where
  nodup : (s.stack.map Prod.fst).Nodup
  mem_stack_iff : ∀ v, v ∈ s.stack.map Prod.fst ↔ s.marks.get v = .inProgress
  linked : s.stack.IsChain fun above below ↦
    1 ≤ below.2 ∧ (g.targets below.1)[below.2 - 1]? = some above.1
  done : ∀ v w, s.marks.get v = .done → w ∈ g.targets v → s.marks.get w = .done
  length_marks : s.marks.length = g.order
  node_lt : ∀ v ∈ s.stack.map Prod.fst, v < g.order ∧ ∀ w ∈ g.targets v, w < g.order
  found : ∀ v k below w, s.stack = (v, k) :: below → (g.targets v)[k]? = some w →
    s.marks.get w = .inProgress →
    ∃ i < s.stack.length, (s.stack.map Prod.fst).reverse.findIdx? (· == w) = some i

/-- On the stack, each node has been entered through an edge of the one below. -/
theorem Linked.isChain_targets {marks : Marks} {v k : Nat} {below : List (Nat × Nat)}
    (h : Linked g marks v below) :
    ((v, k) :: below).IsChain fun above below ↦
      1 ≤ below.2 ∧ (g.targets below.1)[below.2 - 1]? = some above.1 := by
  induction below generalizing v k with
  | nil => exact .singleton _
  | cons entry below ih =>
    obtain ⟨u, followed⟩ := entry
    obtain ⟨⟨j, rfl, hlast, -⟩, hbelow⟩ := h
    exact .cons_cons ⟨by simp, by simpa using hlast⟩ (ih hbelow)

/-- What a valid state says about paths and marks. -/
theorem Search.Valid.sound {s : Search} (h : s.Valid g) : s.Sound g where
  nodup := h.nodup
  mem_stack_iff := h.mem_stack_iff
  linked := by
    have hfollowed := h.followed
    rcases hs : s.stack with - | ⟨⟨v, k⟩, below⟩
    · exact .nil
    · rw [hs] at hfollowed
      exact hfollowed.2.2.isChain_targets
  done v w hv hw := h.closed v w hv (mem_targets.1 hw)
  length_marks := h.length_marks
  node_lt v hv := by
    have hmark := (h.mem_stack_iff v).1 hv
    refine ⟨?_, fun w hw ↦ (mem_targets.1 hw).target_lt⟩
    rw [← h.length_marks]
    exact Marks.lt_length_of_get (by simp [hmark])
  found v k below w _ _ hmark := by
    have hmem : w ∈ (s.stack.map Prod.fst).reverse :=
      List.mem_reverse.2 ((h.mem_stack_iff w).2 hmark)
    have hsome : ((s.stack.map Prod.fst).reverse.findIdx? (· == w)).isSome := by
      rw [List.findIdx?_isSome, List.any_eq_true]
      exact ⟨w, hmem, beq_self_eq_true w⟩
    obtain ⟨i, hi⟩ := Option.isSome_iff_exists.1 hsome
    obtain ⟨hlt, -⟩ := List.findIdx?_eq_some_iff_getElem.1 hi
    exact ⟨i, by simpa using hlt, hi⟩

/-- **The search for a cycle from moment to moment.** Every moment is sound. A step that reads a
target follows an edge to it, and no edge is followed in two steps. The search ends, and it ends
with what is reported. -/
theorem moments_of_search (g : Graph ν ε) :
    (∀ n t, g.searching.stateAt n = some t →
      t.search.Sound g ∧ ∀ root ∈ t.roots, root < g.order) ∧
      (∀ n t v k w, g.searching.stateAt n = some t → t.AtTop v k → (g.targets v)[k]? = some w →
        ∃ i e, g.FollowsAt i n ∧ g.edges[i]? = some e ∧ e.source = v ∧ e.target = w) ∧
      (∀ i m n, g.FollowsAt i m → g.FollowsAt i n → m = n) ∧
      ∃ n ≤ g.size + 2 * g.order, ∃ t, g.searching.stateAt n = some t ∧
        g.nextMoment t = none ∧ g.closed? t = g.findCycle := by
  refine ⟨fun n t ht ↦ ?_, fun n t v k w ht htop hw ↦ ?_, fun i m n ↦ followsAt_unique, ?_⟩
  · have hvalid := (invariant_searching g).of_stateAt ht
    exact ⟨hvalid.search.sound, hvalid.roots⟩
  · obtain ⟨i, e, hi, he⟩ := getElem?_targets_eq_some_iff.1 hw
    exact ⟨i, e, ⟨t, v, k, ht, htop, hi⟩, he⟩
  · obtain ⟨n, hn, t, ht, hend⟩ := (invariant_searching g).exists_end (Moment.work g)
      fun t t' ↦ Moment.Valid.work_next
    obtain ⟨hvalid, hrest⟩ := (invariant_rest g).of_stateAt ht
    exact ⟨n, hn.trans (work_start g), t, ht, hend, by rw [← hvalid.cycleOf_rest hend, hrest]⟩

end Pipework.Graph
